import FlowTree.Json.Term

/-!
# Strings of configuration texts

Basic strings know escapes, literal ones take every character as it stands. Both also come in a form
of several lines between triple quotes, in which a line break counts as a line feed however it is
written. Every reader here starts behind the opening quotes and ends behind the closing ones.
-/

namespace FlowTree.Toml

/-- Whether a character can stand for itself within a line: all but the controls other than the
tab. -/
def isPlain (c : Char) : Bool :=
  c = '\t' || decide (32 ≤ c.toNat) && c.toNat != 127

def isGap (c : Char) : Bool :=
  c = ' ' || c = '\t'

/-- The text behind a line break. -/
def dropBreak? : List Char → Option (List Char)
  | '\n' :: s => some s
  | '\r' :: '\n' :: s => some s
  | _ => none

def shortEscape? (c : Char) : Option Char :=
  if c = '\x22' ∨ c = '\\' then some c
  else if c = 'b' then some '\x08'
  else if c = 'f' then some '\x0c'
  else if c = 'n' then some '\n'
  else if c = 'r' then some '\r'
  else if c = 't' then some '\t'
  else none

/-- The character with the given hexadecimal digits as its code point. -/
def codePoint? (digits : List Char) : Option Char := do
  let values ← digits.mapM Json.Term.hexValue?
  let n := values.foldl (fun n d => n * 16 + d) 0
  if n.isValidChar then some (Char.ofNat n) else none

/-- A basic string of one line. -/
def basic? : List Char → Option (List Char × List Char)
  | [] => none
  | '\\' :: 'u' :: a :: b :: c :: d :: s => do
    let x ← codePoint? [a, b, c, d]
    let (cs, rest) ← basic? s
    return (x :: cs, rest)
  | '\\' :: 'U' :: a :: b :: c :: d :: e :: f :: g :: h :: s => do
    let x ← codePoint? [a, b, c, d, e, f, g, h]
    let (cs, rest) ← basic? s
    return (x :: cs, rest)
  | '\\' :: c :: s => do
    let x ← shortEscape? c
    let (cs, rest) ← basic? s
    return (x :: cs, rest)
  | c :: s =>
    if c = '\x22' then some ([], s)
    else if isPlain c then do
      let (cs, rest) ← basic? s
      return (c :: cs, rest)
    else none

/-- A literal string of one line. -/
def literal? (s : List Char) : Option (List Char × List Char) :=
  let cs := s.takeWhile (· ≠ '\'')
  match s.dropWhile (· ≠ '\'') with
  | _ :: rest => if cs.all isPlain then some (cs, rest) else none
  | [] => none

/-- The closing quotes of a string of several lines: three of them, and before them up to two that
belong to the string. -/
def closing? (q : Char) (s : List Char) : Option (List Char × List Char) :=
  let n := (s.takeWhile (· = q)).length
  if n < 3 then none
  else
    let kept := min (n - 3) 2
    some (List.replicate kept q, s.drop (kept + 3))

/-- The text behind an escaped line break and all blanks and line breaks after it. -/
def dropEscapedBreak? (s : List Char) : Option (List Char) :=
  (dropBreak? (s.dropWhile isGap)).map dropBlanks
where
  dropBlanks : List Char → List Char
    | '\r' :: '\n' :: s => dropBlanks s
    | c :: s => if c = '\n' ∨ isGap c then dropBlanks s else c :: s
    | [] => []

/-- An escape sequence from behind its backslash on. -/
def escape? : List Char → Option (Char × List Char)
  | 'u' :: a :: b :: c :: d :: s => (codePoint? [a, b, c, d]).map (·, s)
  | 'U' :: a :: b :: c :: d :: e :: f :: g :: h :: s =>
    (codePoint? [a, b, c, d, e, f, g, h]).map (·, s)
  | c :: s => (shortEscape? c).map (·, s)
  | [] => none

/-- A basic string of several lines, from behind a line break that may follow the opening quotes.
Every character takes one unit of fuel at most. -/
def basicLines? : Nat → List Char → Option (List Char × List Char)
  | 0, _ => none
  | fuel + 1, s =>
    match closing? '\x22' s with
    | some r => some r
    | none => do
      let (cs, s) ← piece? s
      let (more, rest) ← basicLines? fuel s
      return (cs ++ more, rest)
where
  /-- A character, an escape or a line break. -/
  piece? : List Char → Option (List Char × List Char)
    | [] => none
    | '\\' :: s => match dropEscapedBreak? s with
      | some rest => some ([], rest)
      | none => (escape? s).map fun (c, rest) => ([c], rest)
    | c :: s => match dropBreak? (c :: s) with
      | some rest => some (['\n'], rest)
      | none => if isPlain c then some ([c], s) else none

/-- A literal string of several lines. -/
def literalLines? : List Char → Option (List Char × List Char)
  | [] => none
  | c :: s =>
    match closing? '\'' (c :: s) with
    | some r => some r
    | none =>
      match c, s with
      | '\n', s => (literalLines? s).map fun (cs, rest) => ('\n' :: cs, rest)
      | '\r', '\n' :: s => (literalLines? s).map fun (cs, rest) => ('\n' :: cs, rest)
      | c, s => if isPlain c then (literalLines? s).map fun (cs, rest) => (c :: cs, rest) else none

def dropFirstBreak (s : List Char) : List Char :=
  (dropBreak? s).getD s

/-- A string of any of the four kinds, from its opening quotes on. -/
def string? : List Char → Option (String × List Char)
  | '\x22' :: '\x22' :: '\x22' :: s => (basicLines? (s.length + 1) (dropFirstBreak s)).map named
  | '\'' :: '\'' :: '\'' :: s => (literalLines? (dropFirstBreak s)).map named
  | s => line? s
where
  named (r : List Char × List Char) : String × List Char := (String.ofList r.1, r.2)
  /-- A string of one line. -/
  line? : List Char → Option (String × List Char)
    | '\x22' :: s => (basic? s).map named
    | '\'' :: s => (literal? s).map named
    | _ => none

end FlowTree.Toml
