import FlowTree.Decimal.Numeral

/-!
# The grammar of value texts

A text is read into a `Term` first, which keeps the entries of an object as they stand, repeated
keys included, and the numbers as they are written. What a term means is decided apart from its
grammar.
-/

namespace FlowTree.Json

/-- A number as it is written: the digits before and after the point, and the exponent if there is
one. -/
structure Literal where
  neg : Bool
  whole : List Char
  fraction : List Char
  exp : Option Int
  deriving DecidableEq

/-- A string is `none` if an escape in it names half of a surrogate pair. -/
inductive Term
  | null
  | bool (b : Bool)
  | num (n : Literal)
  | str (s : Option String)
  | arr (items : List Term)
  | obj (fields : List (Option String × Term))

namespace Term

/-! ### Blanks, strings and numbers -/

def isSpace (c : Char) : Bool :=
  c = ' ' || c = '\n' || c = '\t' || c = '\r'

def hexValue? (c : Char) : Option Nat :=
  if Decimal.isDigit c then some (c.toNat - 48)
  else if 'a' ≤ c ∧ c ≤ 'f' then some (c.toNat - 87)
  else if 'A' ≤ c ∧ c ≤ 'F' then some (c.toNat - 55)
  else none

def hex4? (a b c d : Char) : Option Nat := do
  return ((← hexValue? a) * 16 + (← hexValue? b)) * 256 + (← hexValue? c) * 16 + (← hexValue? d)

def shortEscape? (c : Char) : Option Char :=
  if c = '\x22' ∨ c = '\\' ∨ c = '/' then some c
  else if c = 'b' then some '\x08'
  else if c = 'f' then some '\x0c'
  else if c = 'n' then some '\n'
  else if c = 'r' then some '\r'
  else if c = 't' then some '\t'
  else none

/-- The UTF-16 units of a string up to its closing quote, and what follows. Control characters must
be escaped. -/
def units? : List Char → Option (List (Char ⊕ Nat) × List Char)
  | [] => none
  | '\\' :: 'u' :: a :: b :: c :: d :: cs => do
    let u ← hex4? a b c d
    let (us, rest) ← units? cs
    return (.inr u :: us, rest)
  | '\\' :: c :: cs => do
    let e ← shortEscape? c
    let (us, rest) ← units? cs
    return (.inl e :: us, rest)
  | c :: cs =>
    if c = '\x22' then some ([], cs)
    else if c.toNat < 32 then none
    else do
      let (us, rest) ← units? cs
      return (.inl c :: us, rest)

/-- The characters of a string. Escapes of surrogates must come in pairs, the high one first. -/
def joinUnits? : List (Char ⊕ Nat) → Option (List Char)
  | [] => some []
  | .inl c :: us => (joinUnits? us).map (c :: ·)
  | .inr u :: us =>
    if u < 0xD800 ∨ 0xE000 ≤ u then (joinUnits? us).map (Char.ofNat u :: ·)
    else match us with
      | .inr v :: us =>
        if u < 0xDC00 ∧ 0xDC00 ≤ v ∧ v < 0xE000 then
          (joinUnits? us).map (Char.ofNat (0x10000 + (u - 0xD800) * 0x400 + (v - 0xDC00)) :: ·)
        else none
      | _ => none

/-- A string, from behind its opening quote on. -/
def string? (s : List Char) : Option (Option String × List Char) :=
  (units? s).map fun (us, rest) => ((joinUnits? us).map String.ofList, rest)

/-- The digits before the point: a single zero or no leading zero. -/
def wholeDigits? (s : List Char) : Option (List Char × List Char) :=
  let ds := s.takeWhile Decimal.isDigit
  let rest := s.dropWhile Decimal.isDigit
  match ds with
  | [] => none
  | '0' :: _ :: _ => none
  | ds => some (ds, rest)

/-- The point and at least one digit, if the text goes on with a point. -/
def fractionDigits? : List Char → Option (List Char × List Char)
  | '.' :: s =>
    let ds := s.takeWhile Decimal.isDigit
    if ds = [] then none else some (ds, s.dropWhile Decimal.isDigit)
  | s => some ([], s)

/-- The exponent, if the text goes on with its mark: a sign or none, and at least one digit. -/
def exponent? : List Char → Option (Option Int × List Char)
  | [] => some (none, [])
  | c :: s =>
    if c = 'e' ∨ c = 'E' then
      let (neg, s) := Decimal.splitSign s
      let ds := s.takeWhile Decimal.isDigit
      let e : Int := Decimal.ofDigits ds
      if ds = [] then none
      else some (some (if neg then -e else e), s.dropWhile Decimal.isDigit)
    else some (none, c :: s)

def literal? (s : List Char) : Option (Literal × List Char) := do
  let (neg, s) := match s with
    | '-' :: s => (true, s)
    | s => (false, s)
  let (whole, s) ← wholeDigits? s
  let (fraction, s) ← fractionDigits? s
  let (exp, s) ← exponent? s
  return ({ neg, whole, fraction, exp }, s)

/-! ### Values -/

/-- `s` without the word at its front. -/
def dropWord? (word : List Char) (s : List Char) : Option (List Char) :=
  if word.isPrefixOf s then some (s.drop word.length) else none

/-- A word or a number. -/
def scalar? (s : List Char) : Option (Term × List Char) :=
  match dropWord? ['n', 'u', 'l', 'l'] s with
  | some rest => some (null, rest)
  | none =>
    match dropWord? ['t', 'r', 'u', 'e'] s with
    | some rest => some (bool true, rest)
    | none =>
      match dropWord? ['f', 'a', 'l', 's', 'e'] s with
      | some rest => some (bool false, rest)
      | none => (literal? s).map fun (n, rest) => (num n, rest)

/-- A key and its colon, and the text from the entry's value on. -/
def key? : List Char → Option (Option String × List Char)
  | '\x22' :: s => do
    let (k, s) ← string? s
    match s.dropWhile isSpace with
    | ':' :: s => some (k, s.dropWhile isSpace)
    | _ => none
  | _ => none

mutual

/-- A value at the front of `s`, which starts with no blank, and what follows it. Every call for a
part of a text takes one unit of `fuel`. -/
def value? : Nat → List Char → Option (Term × List Char)
  | 0, _ => none
  | fuel + 1, s =>
    match s with
    | '\x22' :: s => (string? s).map fun (t, rest) => (str t, rest)
    | '[' :: s =>
      match s.dropWhile isSpace with
      | ']' :: rest => some (arr [], rest)
      | s => (items? fuel s).map fun (ts, rest) => (arr ts, rest)
    | '\x7b' :: s =>
      match s.dropWhile isSpace with
      | '\x7d' :: rest => some (obj [], rest)
      | s => (entries? fuel s).map fun (es, rest) => (obj es, rest)
    | s => scalar? s

/-- The elements of an array up to its bracket. -/
def items? : Nat → List Char → Option (List Term × List Char)
  | 0, _ => none
  | fuel + 1, s => do
    let (v, s) ← value? fuel s
    match s.dropWhile isSpace with
    | ',' :: s => (items? fuel (s.dropWhile isSpace)).map fun (vs, rest) => (v :: vs, rest)
    | ']' :: rest => some ([v], rest)
    | _ => none

/-- The entries of an object up to its brace. -/
def entries? : Nat → List Char → Option (List (Option String × Term) × List Char)
  | 0, _ => none
  | fuel + 1, s => do
    let (k, s) ← key? s
    let (v, s) ← value? fuel s
    match s.dropWhile isSpace with
    | ',' :: s => (entries? fuel (s.dropWhile isSpace)).map fun (es, rest) => ((k, v) :: es, rest)
    | '\x7d' :: rest => some ([(k, v)], rest)
    | _ => none

end

/-- The term that a whole text writes. A call and the next one nested in it are at least a
character apart, or follow each other at the same place. -/
def parse? (text : String) : Option Term := do
  let s := text.toList
  let (t, rest) ← value? (2 * s.length + 1) (s.dropWhile isSpace)
  if rest.all isSpace then some t else none

end Term

end FlowTree.Json
