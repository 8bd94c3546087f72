import FlowTree.Script.Syntax
import FlowTree.Script.Token

/-!
# The grammar of scripts

Programs are read from the tokens of a source in strict mode. A statement ends with a semicolon, or
without one in front of a closing brace, at the end of a line or at the end of the source.

Every reader here takes fuel, a unit for each call nested in another. `Program.parse?` gives them
more than the longest chain of calls between two tokens needs.
-/

namespace FlowTree.Script

namespace Grammar

abbrev Reader (α : Type) := List Lexeme → Option (α × List Lexeme)

/-! ### Marks and words -/

def reserved : List String :=
  ["break", "case", "catch", "class", "const", "continue", "debugger", "default", "delete", "do",
   "else", "enum", "export", "extends", "false", "finally", "for", "function", "if", "import", "in",
   "instanceof", "new", "null", "return", "super", "switch", "this", "throw", "true", "try",
   "typeof", "var", "void", "while", "with", "implements", "interface", "let", "package", "private",
   "protected", "public", "static", "yield"]

/-- Names that cannot be bound or assigned to. -/
def fixedNames : List String := ["eval", "arguments"]

/-- The tokens behind a mark. -/
def mark? (m : String) : List Lexeme → Option (List Lexeme)
  | ⟨.mark n, _⟩ :: ts => if n = m then some ts else none
  | _ => none

/-- The tokens behind a keyword. -/
def keyword? (k : String) : List Lexeme → Option (List Lexeme)
  | ⟨.word w, _⟩ :: ts => if w = k then some ts else none
  | _ => none

def identifier? : Reader String
  | ⟨.word w, _⟩ :: ts => if w ∈ reserved then none else some (w, ts)
  | _ => none

/-- A name that is bound by what follows. -/
def binder? (ts : List Lexeme) : Option (String × List Lexeme) := do
  let (x, ts) ← identifier? ts
  if x ∈ fixedNames then none else some (x, ts)

/-- The tokens behind the end of a statement. -/
def endStatement? : List Lexeme → Option (List Lexeme)
  | [] => some []
  | t :: ts =>
    if t.token = .mark ";" then some ts
    else if t.token = .mark "\x7d" ∨ t.newLine then some (t :: ts)
    else none

/-! ### Parameters -/

/-- Names with commas between them up to a closing parenthesis. -/
def paramsRest? : Nat → Reader (List String)
  | 0, _ => none
  | fuel + 1, ts =>
    match mark? ")" ts with
    | some ts => some ([], ts)
    | none => do
      let (x, ts) ← binder? ts
      match mark? ")" ts with
      | some ts => return ([x], ts)
      | none =>
        let (xs, ts) ← paramsRest? fuel (← mark? "," ts)
        return (x :: xs, ts)

/-- The parameters of a function in parentheses, no two of them the same. -/
def params? (ts : List Lexeme) : Option (List String × List Lexeme) := do
  let (xs, rest) ← paramsRest? (ts.length + 1) (← mark? "(" ts)
  if xs.Nodup then some (xs, rest) else none

/-- The parameters of an arrow function and its arrow. -/
def arrowHead? (ts : List Lexeme) : Option (List String × List Lexeme) := do
  let (xs, ts) ← match ts with
    | ⟨.word _, _⟩ :: _ => (binder? ts).map fun (x, rest) => ([x], rest)
    | _ => params? ts
  match ts with
  | ⟨.mark "=>", false⟩ :: ts => some (xs, ts)
  | _ => none

/-! ### Operators -/

/-- The operators between two operands with their ranks. -/
def operators : List (String × Nat × (Expr → Expr → Expr)) :=
  [("||", 1, .mkEither), ("&&", 2, .mkBoth), ("===", 3, .mkBinary .same),
   ("!==", 3, .mkBinary .different), ("<", 4, .mkBinary .less), (">", 4, .mkBinary .greater),
   ("<=", 4, .mkBinary .atMost), (">=", 4, .mkBinary .atLeast), ("+", 5, .mkBinary .add),
   ("-", 5, .mkBinary .sub), ("*", 6, .mkBinary .mul), ("/", 6, .mkBinary .div),
   ("%", 6, .mkBinary .rem)]

def operator? : Reader (Nat × (Expr → Expr → Expr))
  | ⟨.mark m, _⟩ :: ts => (operators.lookup m).map (·, ts)
  | _ => none

def assignments : List (String × Option BinaryOp) :=
  [("=", none), ("+=", some .add), ("-=", some .sub), ("*=", some .mul), ("/=", some .div),
   ("%=", some .rem)]

def assignment? : Reader (Option BinaryOp)
  | ⟨.mark m, _⟩ :: ts => (assignments.lookup m).map (·, ts)
  | _ => none

/-- An assignment. A function without a name takes that of a variable it is assigned to. -/
def assignment (target : Expr) (op : Option BinaryOp) (value : Expr) : Expr :=
  match target, op with
  | .name x, none => .assign target op (value.boundTo x)
  | _, _ => .assign target op value

/-- Whether an expression can be assigned to. -/
def isTarget : Expr → Bool
  | .name x => !fixedNames.contains x
  | .property .. => true
  | _ => false

def sign? : List Lexeme → Option (UnaryOp × List Lexeme)
  | ⟨.mark "!", _⟩ :: ts => some (.not, ts)
  | ⟨.mark "-", _⟩ :: ts => some (.neg, ts)
  | ⟨.mark "+", _⟩ :: ts => some (.plus, ts)
  | ⟨.word "typeof", _⟩ :: ts => some (.typeOf, ts)
  | _ => none

/-- The mark that adds one or takes one off: whether it adds. -/
def step? : List Lexeme → Option (Bool × List Lexeme)
  | ⟨.mark "++", _⟩ :: ts => some (true, ts)
  | ⟨.mark "--", _⟩ :: ts => some (false, ts)
  | _ => none

/-- Whether the functions that a block declares have names of their own, apart from its variables
and from `others`. -/
def isBlock (others : List String) (body : List Stmt) : Bool :=
  let names := (functionsIn body).map Prod.fst
  decide names.Nodup && names.all fun x => !(others ++ declaredIn body).contains x

/-- A name of an object's entry. -/
def entryName? : Reader Utf16
  | ⟨.word w, _⟩ :: ts => some (.ofString w, ts)
  | ⟨.str s, _⟩ :: ts => some (s, ts)
  | ⟨.num n, _⟩ :: ts => some (.ofString n.text, ts)
  | _ => none

/-! ### Expressions and statements -/

mutual

def expr? : Nat → Reader Expr
  | 0, _ => none
  | fuel + 1, ts => do
    let (a, ts) ← assign? fuel ts
    match mark? "," ts with
    | some ts =>
      let (b, ts) ← expr? fuel ts
      return (.mkComma a b, ts)
    | none => return (a, ts)

def assign? : Nat → Reader Expr
  | 0, _ => none
  | fuel + 1, ts =>
    match arrowHead? ts with
    | some (params, ts) => do
      let (body, ts) ← arrowBody? fuel ts
      return (.func (.mk "" false params body true), ts)
    | none => do
      let (a, ts) ← choose? fuel ts
      match assignment? ts with
      | some (op, ts) =>
        if isTarget a then
          let (v, ts) ← assign? fuel ts
          return (assignment a op v, ts)
        else none
      | none => return (a, ts)

/-- The body of an arrow function: a block, or an expression that is returned. -/
def arrowBody? : Nat → Reader (List Stmt)
  | 0, _ => none
  | fuel + 1, ts =>
    match mark? "\x7b" ts with
    | some ts => statements? fuel ts
    | none => do
      let (e, ts) ← assign? fuel ts
      return ([.ret (some e)], ts)

def choose? : Nat → Reader Expr
  | 0, _ => none
  | fuel + 1, ts => do
    let (a, ts) ← binary? fuel 1 ts
    match mark? "?" ts with
    | some ts =>
      let (b, ts) ← assign? fuel ts
      let (c, ts) ← assign? fuel (← mark? ":" ts)
      return (.choose a b c, ts)
    | none => return (a, ts)

/-- Operands with operators of at least the given rank between them. -/
def binary? : Nat → Nat → Reader Expr
  | 0, _, _ => none
  | fuel + 1, rank, ts => do
    let (a, ts) ← unary? fuel ts
    binaryRest? fuel rank a ts

def binaryRest? : Nat → Nat → Expr → Reader Expr
  | 0, _, _, _ => none
  | fuel + 1, rank, a, ts =>
    match operator? ts with
    | some ((r, op), rest) =>
      if r < rank then some (a, ts)
      else do
        let (b, ts) ← binary? fuel (r + 1) rest
        binaryRest? fuel rank (op a b) ts
    | none => some (a, ts)

def unary? : Nat → Reader Expr
  | 0, _ => none
  | fuel + 1, ts =>
    match sign? ts with
    | some (op, ts) => do
      let (e, ts) ← unary? fuel ts
      return (.mkUnary op e, ts)
    | none =>
      match step? ts with
      | some (up, ts) => do
        let (e, ts) ← unary? fuel ts
        if isTarget e then some (.step e up true, ts) else none
      | none => do
        let (e, ts) ← primary? fuel ts
        let (e, ts) ← tail? fuel e ts
        match step? ts with
        | some (up, rest) =>
          if ts.head?.any (·.newLine) then some (e, ts)
          else if isTarget e then some (.step e up false, rest)
          else none
        | none => return (e, ts)

/-- The properties and calls that follow an expression. -/
def tail? : Nat → Expr → Reader Expr
  | 0, _, _ => none
  | fuel + 1, e, ts =>
    match ts with
    | ⟨.mark ".", _⟩ :: ⟨.word k, _⟩ :: ts => tail? fuel (.member e k) ts
    | ⟨.mark ".", _⟩ :: _ => none
    | ⟨.mark "[", _⟩ :: ts => do
      let (k, ts) ← expr? fuel ts
      tail? fuel (.property e k) (← mark? "]" ts)
    | ⟨.mark "(", _⟩ :: ts => do
      let (args, ts) ← list? fuel ")" ts
      tail? fuel (.call e args) ts
    | ts => some (e, ts)

/-- Expressions with commas between them up to a closing mark. -/
def list? : Nat → String → Reader (List Expr)
  | 0, _, _ => none
  | fuel + 1, close, ts =>
    match mark? close ts with
    | some ts => some ([], ts)
    | none => do
      let (e, ts) ← assign? fuel ts
      match mark? close ts with
      | some ts => return ([e], ts)
      | none =>
        let (es, ts) ← list? fuel close (← mark? "," ts)
        return (e :: es, ts)

/-- The items of an array up to its closing bracket, each of which may be left out. -/
def items? : Nat → Reader (List (Option Expr))
  | 0, _ => none
  | fuel + 1, ts =>
    match mark? "]" ts, mark? "," ts with
    | some ts, _ => some ([], ts)
    | none, some ts => (items? fuel ts).map fun (es, ts) => (none :: es, ts)
    | none, none => do
      let (e, ts) ← assign? fuel ts
      match mark? "]" ts with
      | some ts => return ([some e], ts)
      | none =>
        let (es, ts) ← items? fuel (← mark? "," ts)
        return (some e :: es, ts)

/-- The entries of an object up to its closing brace. A name by itself stands for its value. -/
def entries? : Nat → Reader (List (Utf16 × Expr))
  | 0, _ => none
  | fuel + 1, ts =>
    match mark? "\x7d" ts with
    | some ts => some ([], ts)
    | none => do
      let (k, rest) ← entryName? ts
      let (v, ts) ← match mark? ":" rest with
        | some rest => (assign? fuel rest).map fun (v, rest) => (v.boundTo k.text, rest)
        | none => (identifier? ts).map fun (x, rest) => (.name x, rest)
      match mark? "\x7d" ts with
      | some ts => return ([(k, v)], ts)
      | none =>
        let (es, ts) ← entries? fuel (← mark? "," ts)
        return ((k, v) :: es, ts)

def primary? : Nat → Reader Expr
  | 0, _ => none
  | fuel + 1, ts =>
    match ts with
    | ⟨.num n, _⟩ :: ts => some (.literal (.num n), ts)
    | ⟨.str s, _⟩ :: ts => some (.literal (.str s), ts)
    | ⟨.mark "(", _⟩ :: ts => do
      let (e, ts) ← expr? fuel ts
      return (e.inParens, ← mark? ")" ts)
    | ⟨.mark "[", _⟩ :: ts => (items? fuel ts).map fun (es, ts) => (.array es, ts)
    | ⟨.mark "\x7b", _⟩ :: ts => (entries? fuel ts).map fun (es, ts) => (.object es, ts)
    | ⟨.word "true", _⟩ :: ts => some (.literal (.bool true), ts)
    | ⟨.word "false", _⟩ :: ts => some (.literal (.bool false), ts)
    | ⟨.word "null", _⟩ :: ts => some (.literal .null, ts)
    | ⟨.word "this", _⟩ :: ts => some (.this, ts)
    | ⟨.word "new", _⟩ :: ts => construct? fuel ts
    | ⟨.word "function", _⟩ :: ts => do
      let (name, known, ts) := match binder? ts with
        | some (x, ts) => (x, true, ts)
        | none => ("", false, ts)
      let (f, ts) ← function? fuel name known ts
      return (.func f, ts)
    | ts => (identifier? ts).map fun (x, ts) => (.name x, ts)

/-- What follows the keyword of a construction: a callee without calls in it, and arguments. -/
def construct? : Nat → Reader Expr
  | 0, _ => none
  | fuel + 1, ts => do
    let (callee, ts) ← primary? fuel ts
    let (callee, ts) ← path? fuel callee ts
    match mark? "(" ts with
    | some ts =>
      let (args, ts) ← list? fuel ")" ts
      return (.construct callee args, ts)
    | none => return (.construct callee [], ts)

/-- The properties that follow a callee. -/
def path? : Nat → Expr → Reader Expr
  | 0, _, _ => none
  | fuel + 1, e, ts =>
    match ts with
    | ⟨.mark ".", _⟩ :: ⟨.word k, _⟩ :: ts => path? fuel (.member e k) ts
    | ⟨.mark "[", _⟩ :: ts => do
      let (k, ts) ← expr? fuel ts
      path? fuel (.property e k) (← mark? "]" ts)
    | ts => some (e, ts)

/-- A function from its parameters on. -/
def function? : Nat → String → Bool → Reader Func
  | 0, _, _, _ => none
  | fuel + 1, name, knowsItself, ts => do
    let (params, ts) ← params? ts
    let (body, ts) ← statements? fuel (← mark? "\x7b" ts)
    return (.mk name knowsItself params body false, ts)

/-- Statements up to a closing brace. -/
def statements? : Nat → Reader (List Stmt)
  | 0, _ => none
  | fuel + 1, ts =>
    match mark? "\x7d" ts with
    | some ts => some ([], ts)
    | none => do
      let (s, ts) ← statement? fuel ts
      let (ss, ts) ← statements? fuel ts
      return (s :: ss, ts)

/-- Statements up to a closing brace that make a block, in which a name can be bound. -/
def block? : Nat → Option String → Reader (List Stmt)
  | 0, _, _ => none
  | fuel + 1, param, ts => do
    let (body, ts) ← statements? fuel ts
    if isBlock param.toList body then some (body, ts) else none

/-- A statement that is part of another one, which no declaration of a function can be. -/
def inner? : Nat → Reader Stmt
  | 0, _ => none
  | fuel + 1, ts => do
    match ← statement? fuel ts with
    | (.func .., _) => none
    | (s, ts) => some (s, ts)

/-- An expression in parentheses. -/
def test? : Nat → Reader Expr
  | 0, _ => none
  | fuel + 1, ts => do
    let (e, ts) ← expr? fuel (← mark? "(" ts)
    return (e, ← mark? ")" ts)

/-- The variables of a declaration. -/
def bindings? : Nat → Reader (List (String × Option Expr))
  | 0, _ => none
  | fuel + 1, ts => do
    let (x, ts) ← binder? ts
    let (v, ts) ← match mark? "=" ts with
      | some ts => (assign? fuel ts).map fun (e, ts) => (some (e.boundTo x), ts)
      | none => some (none, ts)
    match mark? "," ts with
    | some ts =>
      let (bs, ts) ← bindings? fuel ts
      return ((x, v) :: bs, ts)
    | none => return ([(x, v)], ts)

/-- An expression that may be missing, and the mark behind it. -/
def optional? : Nat → String → Reader (Option Expr)
  | 0, _, _ => none
  | fuel + 1, close, ts =>
    match mark? close ts with
    | some ts => some (none, ts)
    | none => do
      let (e, ts) ← expr? fuel ts
      return (some e, ← mark? close ts)

/-- The first part of a counting loop with its semicolon. -/
def loopStart? : Nat → Reader (Option Stmt)
  | 0, _ => none
  | fuel + 1, ts =>
    match keyword? "var" ts with
    | some ts => do
      let (bs, ts) ← bindings? fuel ts
      return (some (.vars bs), ← mark? ";" ts)
    | none => (optional? fuel ";" ts).map fun (e, ts) => (e.map .expr, ts)

def statement? : Nat → Reader Stmt
  | 0, _ => none
  | fuel + 1, ts =>
    match ts with
    | ⟨.mark "\x7b", _⟩ :: ts => (block? fuel none ts).map fun (b, ts) => (.block b, ts)
    | ⟨.mark ";", _⟩ :: ts => some (.block [], ts)
    | ⟨.word "var", _⟩ :: ts => do
      let (bs, ts) ← bindings? fuel ts
      return (.vars bs, ← endStatement? ts)
    | ⟨.word "function", _⟩ :: ts => do
      let (x, ts) ← binder? ts
      let (f, ts) ← function? fuel x false ts
      return (.func x f, ts)
    | ⟨.word "if", _⟩ :: ts => do
      let (e, ts) ← test? fuel ts
      let (yes, ts) ← inner? fuel ts
      match keyword? "else" ts with
      | some ts =>
        let (no, ts) ← inner? fuel ts
        return (.cond e yes (some no), ts)
      | none => return (.cond e yes none, ts)
    | ⟨.word "while", _⟩ :: ts => do
      let (e, ts) ← test? fuel ts
      let (body, ts) ← inner? fuel ts
      return (.whileLoop e body, ts)
    | ⟨.word "do", _⟩ :: ts => do
      let (body, ts) ← inner? fuel ts
      let (e, ts) ← test? fuel (← keyword? "while" ts)
      return (.doLoop body e, (mark? ";" ts).getD ts)
    | ⟨.word "for", _⟩ :: ts => do
      let (start, ts) ← loopStart? fuel (← mark? "(" ts)
      let (test, ts) ← optional? fuel ";" ts
      let (next, ts) ← optional? fuel ")" ts
      let (body, ts) ← inner? fuel ts
      return (.forLoop start test next body, ts)
    | ⟨.word "return", _⟩ :: ts =>
      match endStatement? ts with
      | some ts => some (.ret none, ts)
      | none => do
        let (e, ts) ← expr? fuel ts
        return (.ret (some e), ← endStatement? ts)
    | ⟨.word "throw", _⟩ :: ts =>
      if ts.head?.any (·.newLine) then none
      else do
        let (e, ts) ← expr? fuel ts
        return (.throw e, ← endStatement? ts)
    | ⟨.word "try", _⟩ :: ts => do
      let (body, ts) ← block? fuel none (← mark? "\x7b" ts)
      let ts ← keyword? "catch" ts
      let (param, ts) ← match mark? "(" ts with
        | some ts => do
          let (x, ts) ← binder? ts
          pure (some x, ← mark? ")" ts)
        | none => pure (none, ts)
      let (handler, ts) ← block? fuel param (← mark? "\x7b" ts)
      return (.attempt body param handler, ts)
    | ts => do
      let (e, ts) ← expr? fuel ts
      return (.expr e, ← endStatement? ts)

end

end Grammar

/-- A list of statements to be run one after the other. -/
structure Program where
  body : List Stmt

/-- The statements up to the end of the tokens. -/
def Program.read? : Nat → List Lexeme → Option (List Stmt)
  | 0, _ => none
  | fuel + 1, ts =>
    if ts = [] then some []
    else do
      let (s, rest) ← Grammar.statement? (20 * ts.length + 20) ts
      return s :: (← read? fuel rest)

/-- The program that a source writes. -/
def Program.parse? (source : String) : Option Program := do
  let ts ← Token.scan? source
  return ⟨← read? (ts.length + 1) ts⟩

end FlowTree.Script
