import FlowTree.Script.Numeric
import FlowTree.Text.Utf16
import FlowTree.Text.Word

/-!
# Tokens of scripts

A source is cut into words, literals and marks. Blanks and comments between them are dropped, but
each token knows whether a line ended before it, which can end a statement.
-/

namespace FlowTree.Script

inductive Token
  | word (s : String)
  | num (n : Numeric)
  | str (s : Utf16)
  | mark (s : String)
  deriving DecidableEq

structure Lexeme where
  token : Token
  newLine : Bool
  deriving DecidableEq

namespace Token

def isLineEnd (c : Char) : Bool :=
  c = '\n' || c = '\r' || c = '\u2028' || c = '\u2029'

def isWordPart (c : Char) : Bool :=
  Text.isWord c || c = '$'

def isWordStart (c : Char) : Bool :=
  isWordPart c && !Decimal.isDigit c

/-- All marks, where none comes behind a shorter one that it starts with. -/
def marks : List String :=
  [">>>=", "...", "===", "!==", "**=", "<<=", ">>=", ">>>", "&&=", "||=", "??=", "=>", "==", "!=",
   "<=", ">=", "&&", "||", "??", "?.", "++", "--", "+=", "-=", "*=", "/=", "%=", "&=", "|=", "^=",
   "<<", ">>", "**", "\x7b", "\x7d", "(", ")", "[", "]", ".", ";", ",", "<", ">", "+", "-", "*",
   "/", "%", "&", "|", "^", "!", "~", "?", ":", "="]

/-! ### Blanks and comments -/

/-- The text behind a block comment, from behind its opening mark on, and whether a line ends in
it. -/
def dropBlock? : List Char → Option (Bool × List Char)
  | [] => none
  | '*' :: '/' :: s => some (false, s)
  | c :: s => (dropBlock? s).map fun (ended, rest) => (isLineEnd c || ended, rest)

/-- The text behind blanks and comments, and whether a line ended before or in them. Each of them
takes one unit of fuel. -/
def dropTrivia? : Nat → Bool → List Char → Option (Bool × List Char)
  | 0, _, _ => none
  | fuel + 1, ended, s =>
    match s with
    | '/' :: '/' :: s => dropTrivia? fuel ended (s.dropWhile fun c => !isLineEnd c)
    | '/' :: '*' :: s => do
      let (ended', s) ← dropBlock? s
      dropTrivia? fuel (ended || ended') s
    | c :: s =>
      if isLineEnd c then dropTrivia? fuel true s
      else if Numeric.isSpace c then dropTrivia? fuel ended s
      else some (ended, c :: s)
    | [] => some (ended, [])

/-! ### Numbers -/

/-- The digits that a text starts with, between two of which an underscore may stand, and the text
behind them. -/
def digitRun (isDigit : Char → Bool) : List Char → List Char × List Char
  | [] => ([], [])
  | c :: '_' :: d :: s =>
    if isDigit c then
      if isDigit d then
        let (ds, rest) := digitRun isDigit (d :: s)
        (c :: ds, rest)
      else ([c], '_' :: d :: s)
    else ([], c :: '_' :: d :: s)
  | c :: s =>
    if isDigit c then
      let (ds, rest) := digitRun isDigit s
      (c :: ds, rest)
    else ([], c :: s)

def prefixed? (base : Nat) (s : List Char) : Option (Numeric × List Char) := do
  let (ds, rest) := digitRun (fun c => (Json.Term.hexValue? c).any fun d => decide (d < base)) s
  let ds ← Numeric.digits? base ds
  let n := Binary64.ofInt (ds.foldl (fun n d => n * base + d) 0 : Nat)
  return (Numeric.narrow (.double n), rest)

/-- The exponent with its mark and sign, if the text goes on with one. -/
def exponent? : List Char → Option (List Char × List Char)
  | [] => some ([], [])
  | c :: s =>
    if c = 'e' ∨ c = 'E' then
      let (neg, s) := Decimal.splitSign s
      let (ds, rest) := digitRun Decimal.isDigit s
      if ds = [] then none else some ('e' :: (if neg then '-' :: ds else ds), rest)
    else some ([], c :: s)

/-- A decimal number, which must not start with a zero and another digit. -/
def decimal? (s : List Char) : Option (Numeric × List Char) := do
  let (whole, s) := digitRun Decimal.isDigit s
  let (fraction, s) := match s with
    | '.' :: s => let (ds, rest) := digitRun Decimal.isDigit s; ('.' :: ds, rest)
    | s => ([], s)
  let (exponent, s) ← exponent? s
  if whole.head? = some '0' ∧ whole.length ≠ 1 then none
  let n ← Decimal.readUnsigned? false (whole ++ fraction ++ exponent)
  return (Numeric.narrow (.double n.toFloat), s)

def number? (s : List Char) : Option (Numeric × List Char) := do
  let (n, s) ← match s with
    | '0' :: 'x' :: s | '0' :: 'X' :: s => prefixed? 16 s
    | '0' :: 'o' :: s | '0' :: 'O' :: s => prefixed? 8 s
    | '0' :: 'b' :: s | '0' :: 'B' :: s => prefixed? 2 s
    | s => decimal? s
  if s.head?.any isWordPart then none else some (n, s)

/-! ### Strings -/

def hexNumber? (digits : List Char) : Option Nat := do
  let values ← digits.mapM Json.Term.hexValue?
  if values = [] then none else some (values.foldl (fun n d => n * 16 + d) 0)

def shortEscape (c : Char) : Char :=
  if c = 'n' then '\n'
  else if c = 't' then '\t'
  else if c = 'r' then '\r'
  else if c = 'b' then '\x08'
  else if c = 'f' then '\x0c'
  else if c = 'v' then '\x0b'
  else c

/-- The units that an escape stands for, from behind its backslash on. -/
def escape? : List Char → Option (List UInt16 × List Char)
  | [] => none
  | '\r' :: '\n' :: s => some ([], s)
  | 'x' :: a :: b :: s => (hexNumber? [a, b]).map fun n => (Utf16.encode n, s)
  | 'u' :: '\x7b' :: s => do
    let n ← hexNumber? (s.takeWhile (· ≠ '\x7d'))
    let rest ← match s.dropWhile (· ≠ '\x7d') with
      | _ :: rest => some rest
      | [] => none
    if n < 0x110000 then some (Utf16.encode n, rest) else none
  | 'u' :: a :: b :: c :: d :: s => (hexNumber? [a, b, c, d]).map fun n => (Utf16.encode n, s)
  | c :: s =>
    if isLineEnd c then some ([], s)
    else if c = 'x' ∨ c = 'u' then none
    else if Decimal.isDigit c then
      if c = '0' ∧ !s.head?.any Decimal.isDigit then some ([0], s) else none
    else some (Utf16.encode (shortEscape c).toNat, s)

/-- The units of a string up to its closing quote. Every character takes one unit of fuel at
most. -/
def units? (quote : Char) : Nat → List Char → Option (List UInt16 × List Char)
  | 0, _ => none
  | fuel + 1, s =>
    match s with
    | [] => none
    | '\\' :: s => do
      let (us, s) ← escape? s
      let (more, rest) ← units? quote fuel s
      return (us ++ more, rest)
    | c :: s =>
      if c = quote then some ([], s)
      else if c = '\n' ∨ c = '\r' then none
      else do
        let (more, rest) ← units? quote fuel s
        return (Utf16.encode c.toNat ++ more, rest)

/-! ### Sources -/

/-- The token at the front of a text. -/
def first? (s : List Char) : Option (Token × List Char) :=
  match s with
  | [] => none
  | c :: rest =>
    if isWordStart c then
      some (.word (String.ofList (s.takeWhile isWordPart)), s.dropWhile isWordPart)
    else if c = '\x22' ∨ c = '\'' then
      (units? c (rest.length + 1) rest).map fun (us, rest) => (.str ⟨us.toArray⟩, rest)
    else if Decimal.isDigit c ∨ (c = '.' ∧ rest.head?.any Decimal.isDigit) then
      (number? s).map fun (n, rest) => (.num n, rest)
    else (marks.find? fun m => m.toList.isPrefixOf s).map fun m => (.mark m, s.drop m.length)

/-- The tokens of a text, each of which takes one unit of fuel. -/
def scanWith? : Nat → List Char → Option (List Lexeme)
  | 0, _ => none
  | fuel + 1, s => do
    let (ended, s) ← dropTrivia? (s.length + 1) false s
    if s = [] then return []
    let (t, s) ← first? s
    return ⟨t, ended⟩ :: (← scanWith? fuel s)

def scan? (source : String) : Option (List Lexeme) :=
  let s := source.toList
  scanWith? (s.length + 1) s

end Token

end FlowTree.Script
