import FlowTree.Script.Operator

/-!
# Expressions and statements

The syntax of scripts. A property is always named by an expression, a fixed name by a string. The
functions that build expressions put the result of an operator on constants in its place.
-/

namespace FlowTree.Script

mutual

inductive Expr
  | literal (p : Primitive)
  /-- What is kept apart from the operators around it. -/
  | group (e : Expr)
  | this
  | name (x : String)
  /-- An item that is left out makes a gap. -/
  | array (items : List (Option Expr))
  | object (entries : List (Utf16 × Expr))
  | func (f : Func)
  | property (owner key : Expr)
  | call (callee : Expr) (args : List Expr)
  | construct (callee : Expr) (args : List Expr)
  | unary (op : UnaryOp) (e : Expr)
  | binary (op : BinaryOp) (a b : Expr)
  | both (a b : Expr)
  | either (a b : Expr)
  | choose (test yes no : Expr)
  /-- The target is a name or a property. With an operation its old value is the first operand. -/
  | assign (target : Expr) (op : Option BinaryOp) (value : Expr)
  /-- Adds one to the target, or takes one off. The value is the new one or the old one. -/
  | step (target : Expr) (up newValue : Bool)
  | comma (a b : Expr)

inductive Stmt
  | expr (e : Expr)
  | vars (bindings : List (String × Option Expr))
  | cond (test : Expr) (yes : Stmt) (no : Option Stmt)
  | whileLoop (test : Expr) (body : Stmt)
  | doLoop (body : Stmt) (test : Expr)
  | forLoop (start : Option Stmt) (test next : Option Expr) (body : Stmt)
  | ret (e : Option Expr)
  | throw (e : Expr)
  | attempt (body : List Stmt) (param : Option String) (handler : List Stmt)
  | func (name : String) (f : Func)
  | block (body : List Stmt)

/-- A function that knows itself can use its name in its body. A lexical one has no `this` of its
own. -/
inductive Func
  | mk (name : String) (knowsItself : Bool) (params : List String) (body : List Stmt)
      (lexical : Bool)

end

instance : Inhabited Expr := ⟨.literal .null⟩

namespace Func

/-- Empty for a function without a name. -/
def name : Func → String
  | mk n _ _ _ _ => n

def knowsItself : Func → Bool
  | mk _ k _ _ _ => k

def params : Func → List String
  | mk _ _ ps _ _ => ps

def body : Func → List Stmt
  | mk _ _ _ b _ => b

def isLexical : Func → Bool
  | mk _ _ _ _ l => l

end Func

/-! ### Building expressions -/

namespace Expr

def constant? : Expr → Option Primitive
  | literal p => some p
  | _ => none

/-- A property with a fixed name. -/
def member (owner : Expr) (name : String) : Expr :=
  property owner (literal (.ofString name))

/-- An expression in parentheses. A constant in them takes part in no operator on constants. -/
def inParens : Expr → Expr
  | literal p => group (literal p)
  | e => e

/-- What is left of an operator that gives one of its operands. -/
def operandOnly : Expr → Expr
  | literal p => literal p
  | e => group e

def mkUnary (op : UnaryOp) (e : Expr) : Expr :=
  match e.constant? with
  | some p => literal (op.onConstant p)
  | none => unary op e

def mkBinary (op : BinaryOp) (a b : Expr) : Expr :=
  match a.constant?, b.constant? with
  | some p, some q => ((op.result? p q).map literal).getD (binary op a b)
  | _, _ => binary op a b

def mkBoth (a b : Expr) : Expr :=
  match a.constant? with
  | some p => operandOnly (if p.isTruthy then b else a)
  | none => both a b

def mkEither (a b : Expr) : Expr :=
  match a.constant? with
  | some p => operandOnly (if p.isTruthy then a else b)
  | none => either a b

def mkComma (a b : Expr) : Expr :=
  match a.constant? with
  | some _ => operandOnly b
  | none => comma a b

/-- An expression whose value is bound to a name: a function without a name takes it. -/
def boundTo (x : String) : Expr → Expr
  | func (.mk "" k ps b l) => func (.mk x k ps b l)
  | e => e

end Expr

/-! ### Declarations -/

mutual

/-- The variables that a statement declares for the function around it. -/
def Stmt.declared : Stmt → List String
  | .vars bindings => bindings.map Prod.fst
  | .cond _ yes no => yes.declared ++ (match no with
    | some s => s.declared
    | none => [])
  | .whileLoop _ body => body.declared
  | .doLoop body _ => body.declared
  | .forLoop start _ _ body => (match start with
    | some s => s.declared
    | none => []) ++ body.declared
  | .attempt body _ handler => declaredIn body ++ declaredIn handler
  | .block body => declaredIn body
  | _ => []

def declaredIn : List Stmt → List String
  | [] => []
  | s :: ss => s.declared ++ declaredIn ss

end

/-- The functions that the statements of a block declare for the block. -/
def functionsIn (body : List Stmt) : List (String × Func) :=
  body.filterMap fun
    | .func name f => some (name, f)
    | _ => none

end FlowTree.Script
