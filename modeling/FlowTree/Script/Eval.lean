import FlowTree.Script.Host

/-!
# Running scripts

Expressions give values and statements may end the function around them with one. Each call nested
in another, and each iteration of a loop, takes one unit of fuel; without fuel a script is at its
limit. `Bounds` set the limits that a script can meet: the loop iterations of a single function call
and how deep calls may nest.
-/

namespace FlowTree.Script

/-- Where code runs: its scope, its `this`, and how many calls lie around it. -/
structure Frame where
  scope : Nat
  self : Val := .undefined
  depth : Nat := 0

namespace Eval

/-- A new function object. If the function knows itself, its name is a constant in a scope around
it. -/
def makeClosure (frame : Frame) (f : Func) : Exec Val := do
  if f.knowsItself then
    let scope ← Machine.openScope { parent := some frame.scope }
    let v ← Machine.alloc { body := .closure f scope frame.self }
    modify fun m => { m with scopes := m.scopes.modify scope fun s =>
      { s with constants := [(f.name, v)] } }
    return v
  else Machine.alloc { body := .closure f frame.scope frame.self }

/-- Sets a variable at its place or at the end. -/
def withVar (x : String) (v : Val) : List (String × Val) → List (String × Val)
  | [] => [(x, v)]
  | (y, w) :: bs => if y = x then (x, v) :: bs else (y, w) :: withVar x v bs

/-- Binds the functions that a block declares. -/
def bindFunctions (frame : Frame) : List (String × Func) → Exec Unit
  | [] => return ()
  | (x, f) :: fs => do
    let v ← makeClosure frame f
    modify fun m => { m with scopes := m.scopes.modify frame.scope fun s =>
      { s with vars := withVar x v s.vars } }
    bindFunctions frame fs

/-- The variables of a call before its body runs: parameters, then all that the body declares. -/
def callVars (f : Func) (args : List Val) : List (String × Val) :=
  let given := f.params.zipIdx.map fun (x, i) => (x, args.getD i .undefined)
  let declared := (declaredIn f.body ++ (functionsIn f.body).map Prod.fst).filter fun x =>
    !f.params.contains x
  declared.foldl (fun vars x => withVar x .undefined vars) given

/-- The frame of a block in a function: one of its own if the block declares functions. -/
def blockFrame (frame : Frame) (body : List Stmt) : Exec Frame := do
  match functionsIn body with
  | [] => return frame
  | fs =>
    let scope ← Machine.openScope {
      vars := fs.map fun p => (p.1, Val.undefined)
      parent := some frame.scope }
    let frame := { frame with scope }
    bindFunctions frame fs
    return frame

mutual

def expr (bounds : Bounds) : Nat → Frame → Expr → Exec Val
  | 0, _, _ => throw .limit
  | fuel + 1, frame, e =>
    match e with
    | .literal p => return .primitive p.narrow
    | .group e => expr bounds fuel frame e
    | .this => return frame.self
    | .name x => Machine.read frame.scope x
    | .array es => do
      Machine.alloc (← items bounds fuel frame es 0 { body := .array es.length })
    | .object es => do
      Machine.alloc (← entries bounds fuel frame es {})
    | .func f => makeClosure frame f
    | .property owner key => do
      let o ← expr bounds fuel frame owner
      let k ← expr bounds fuel frame key
      Property.get o (← k.key (invoke bounds fuel frame.depth))
    | .call (.property owner key) args => do
      let o ← expr bounds fuel frame owner
      let k ← expr bounds fuel frame key
      let f ← Property.get o (← k.key (invoke bounds fuel frame.depth))
      invoke bounds fuel frame.depth f o (← exprs bounds fuel frame args)
    | .call callee args => do
      let f ← expr bounds fuel frame callee
      invoke bounds fuel frame.depth f .undefined (← exprs bounds fuel frame args)
    | .construct callee args => do
      let f ← expr bounds fuel frame callee
      let vs ← exprs bounds fuel frame args
      match f with
      | .native (.error name) => Host.makeError (invoke bounds fuel frame.depth) name vs
      | _ => Machine.typeError "not a constructor"
    | .unary .typeOf (.name x) => do
      match ← Machine.read? frame.scope x with
      | some v => return .ofString (← v.typeName)
      | none => return .ofString "undefined"
    | .unary op e => do
      let v ← expr bounds fuel frame e
      v.unary (invoke bounds fuel frame.depth) op
    | .binary op a b => do
      let v ← expr bounds fuel frame a
      let w ← expr bounds fuel frame b
      v.binary (invoke bounds fuel frame.depth) op w
    | .both a b => do
      let v ← expr bounds fuel frame a
      if v.isTruthy then expr bounds fuel frame b else return v
    | .either a b => do
      let v ← expr bounds fuel frame a
      if v.isTruthy then return v else expr bounds fuel frame b
    | .choose test yes no => do
      let v ← expr bounds fuel frame test
      if v.isTruthy then expr bounds fuel frame yes else expr bounds fuel frame no
    | .assign (.property owner key) op value => do
      let o ← expr bounds fuel frame owner
      let k ← (← expr bounds fuel frame key).key (invoke bounds fuel frame.depth)
      let v ← match op with
        | none => expr bounds fuel frame value
        | some op => do
          let old ← Property.get o k
          old.binary (invoke bounds fuel frame.depth) op (← expr bounds fuel frame value)
      Property.set bounds (invoke bounds fuel frame.depth) o k v
      return v
    | .assign target op value => do
      match target with
      | .name x =>
        let v ← match op with
          | none => expr bounds fuel frame value
          | some op => do
            let old ← Machine.read frame.scope x
            old.binary (invoke bounds fuel frame.depth) op (← expr bounds fuel frame value)
        Machine.write frame.scope x v
        return v
      | _ => Machine.typeError "not a place for a value"
    | .step (.property owner key) up newValue => do
      let o ← expr bounds fuel frame owner
      let k ← (← expr bounds fuel frame key).key (invoke bounds fuel frame.depth)
      let n ← (← Property.get o k).number (invoke bounds fuel frame.depth)
      let (old, new) := n.step up
      Property.set bounds (invoke bounds fuel frame.depth) o k (.num new)
      return .num (if newValue then new else old)
    | .step target up newValue => do
      match target with
      | .name x =>
        let n ← (← Machine.read frame.scope x).number (invoke bounds fuel frame.depth)
        let (old, new) := n.step up
        Machine.write frame.scope x (.num new)
        return .num (if newValue then new else old)
      | _ => Machine.typeError "not a place for a value"
    | .comma a b => do
      let _ ← expr bounds fuel frame a
      expr bounds fuel frame b

/-- The values of expressions from left to right. -/
def exprs (bounds : Bounds) : Nat → Frame → List Expr → Exec (List Val)
  | 0, _, _ => throw .limit
  | fuel + 1, frame, es =>
    match es with
    | [] => return []
    | e :: es => do
      let v ← expr bounds fuel frame e
      return v :: (← exprs bounds fuel frame es)

/-- An array with the items of a literal, of which the next one goes to a position. -/
def items (bounds : Bounds) : Nat → Frame → List (Option Expr) → Nat → Object → Exec Object
  | 0, _, _, _, _ => throw .limit
  | fuel + 1, frame, es, i, o =>
    match es with
    | [] => return o
    | none :: es => items bounds fuel frame es (i + 1) o
    | some e :: es => do
      let v ← expr bounds fuel frame e
      items bounds fuel frame es (i + 1) (o.setElement i v)

/-- An object with the entries of a literal. -/
def entries (bounds : Bounds) : Nat → Frame → List (Utf16 × Expr) → Object → Exec Object
  | 0, _, _, _ => throw .limit
  | fuel + 1, frame, es, o =>
    match es with
    | [] => return o
    | (k, e) :: es => do
      let v ← expr bounds fuel frame e
      entries bounds fuel frame es (o.set (.ofText k) v)

/-- Calls a function from code with `depth` calls around it. -/
def invoke (bounds : Bounds) : Nat → Nat → Val → Val → List Val → Exec Val
  | 0, _, _, _, _ => throw .limit
  | fuel + 1, depth, f, self, args =>
    match f with
    | .native n => Host.invoke bounds (invoke bounds fuel depth) n self args
    | .ref i => do
      match (← Machine.object i).body with
      | .closure func scope own =>
        if bounds.depth ≤ depth then throw .limit
        let inner ← Machine.openScope { vars := callVars func args, parent := some scope }
        let frame : Frame :=
          { scope := inner, self := if func.isLexical then own else self, depth := depth + 1 }
        bindFunctions frame (functionsIn func.body)
        let result ← Machine.withOwnCount (stmts bounds fuel frame func.body)
        return result.getD .undefined
      | _ => Machine.typeError "not a callable function"
    | _ => Machine.typeError "not a callable function"

/-- Runs a statement. It gives the value with which it ends the function, if it does. -/
def stmt (bounds : Bounds) : Nat → Frame → Stmt → Exec (Option Val)
  | 0, _, _ => throw .limit
  | fuel + 1, frame, s =>
    match s with
    | .expr e => do
      let _ ← expr bounds fuel frame e
      return none
    | .vars bs => do
      bindings bounds fuel frame bs
      return none
    | .cond test yes no => do
      let v ← expr bounds fuel frame test
      if v.isTruthy then stmt bounds fuel frame yes
      else match no with
        | some no => stmt bounds fuel frame no
        | none => return none
    | .whileLoop test body => loop bounds fuel frame false (some test) none body
    | .doLoop body test => loop bounds fuel frame true (some test) none body
    | .forLoop start test next body => do
      match start with
      | some s =>
        let _ ← stmt bounds fuel frame s
        loop bounds fuel frame false test next body
      | none => loop bounds fuel frame false test next body
    | .ret none => return some .undefined
    | .ret (some e) => do
      return some (← expr bounds fuel frame e)
    | .throw e => do
      throw (.thrown (← expr bounds fuel frame e))
    | .attempt body param handler =>
      Machine.catching
        (do
          let inner ← blockFrame frame body
          stmts bounds fuel inner body)
        (fun v => do
          let scope ← Machine.openScope {
            vars := param.toList.map (·, v)
            parent := some frame.scope }
          let inner ← blockFrame { frame with scope } handler
          stmts bounds fuel inner handler)
    | .func .. => return none
    | .block body => do
      let inner ← blockFrame frame body
      stmts bounds fuel inner body

def stmts (bounds : Bounds) : Nat → Frame → List Stmt → Exec (Option Val)
  | 0, _, _ => throw .limit
  | fuel + 1, frame, ss =>
    match ss with
    | [] => return none
    | s :: ss => do
      match ← stmt bounds fuel frame s with
      | some v => return some v
      | none => stmts bounds fuel frame ss

def bindings (bounds : Bounds) : Nat → Frame → List (String × Option Expr) → Exec Unit
  | 0, _, _ => throw .limit
  | fuel + 1, frame, bs =>
    match bs with
    | [] => return ()
    | (_, none) :: bs => bindings bounds fuel frame bs
    | (x, some e) :: bs => do
      Machine.write frame.scope x (← expr bounds fuel frame e)
      bindings bounds fuel frame bs

/-- Runs a loop. Its first iteration may go without the test. -/
def loop (bounds : Bounds) :
    Nat → Frame → Bool → Option Expr → Option Expr → Stmt → Exec (Option Val)
  | 0, _, _, _, _, _ => throw .limit
  | fuel + 1, frame, untested, test, next, body => do
    Machine.countIteration bounds
    let goOn ← match untested, test with
      | false, some e => Val.isTruthy <$> expr bounds fuel frame e
      | _, _ => pure true
    if goOn then
      match ← stmt bounds fuel frame body with
      | some v => return some v
      | none =>
        match next with
        | some e =>
          let _ ← expr bounds fuel frame e
          loop bounds fuel frame false test next body
        | none => loop bounds fuel frame false test next body
    else return none

end

/-- Runs the statements of a program. The value is that of its last expression. -/
def program (bounds : Bounds) (fuel : Nat) (frame : Frame) : List Stmt → Val → Exec Val
  | [], last => return last
  | .expr e :: ss, _ => do
    program bounds fuel frame ss (← expr bounds fuel frame e)
  | s :: ss, last => do
    let _ ← stmt bounds fuel frame s
    program bounds fuel frame ss last

end Eval

end FlowTree.Script
