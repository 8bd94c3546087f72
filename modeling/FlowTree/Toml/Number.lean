import FlowTree.Json.Term
import FlowTree.Toml.Basic

/-!
# Numbers of configuration texts

Integers of 64 bits in four bases, and doubles. Underscores may stand between digits.
-/

namespace FlowTree.Toml

/-- The digits at the front of a text, of which all but the first may have an underscore before
them. An underscore without a digit behind it is an error. -/
def digits? (isDigit : Char → Bool) : List Char → Option (List Char × List Char)
  | [] => none
  | c :: s => if isDigit c then (more s).map fun (cs, rest) => (c :: cs, rest) else none
where
  more : List Char → Option (List Char × List Char)
    | [] => some ([], [])
    | '_' :: c :: s =>
      if isDigit c then (more s).map fun (cs, rest) => (c :: cs, rest) else none
    | c :: s =>
      if isDigit c then (more s).map fun (cs, rest) => (c :: cs, rest)
      else if c = '_' then none
      else some ([], c :: s)

/-- The integer part of a decimal number: a zero, or digits that do not start with one. -/
def whole? : List Char → Option (List Char × List Char)
  | '0' :: s => some (['0'], s)
  | s => digits? Decimal.isDigit s

/-- The fraction of a decimal number with its point, if the text goes on with one. -/
def fraction? : List Char → Option (List Char × List Char)
  | '.' :: s => (digits? Decimal.isDigit s).map fun (cs, rest) => ('.' :: cs, rest)
  | s => some ([], s)

/-- The exponent of a decimal number with its mark, if the text goes on with one. -/
def exponent? : List Char → Option (List Char × List Char)
  | [] => some ([], [])
  | c :: s =>
    if c = 'e' ∨ c = 'E' then
      let (neg, s) := Decimal.splitSign s
      (digits? Decimal.isDigit s).map fun (cs, rest) =>
        ('e' :: (if neg then '-' :: cs else cs), rest)
    else some ([], c :: s)

def ofInteger? (n : Int) : Option Toml :=
  if minInt64 ≤ n ∧ n ≤ maxInt64 then some (int n) else none

/-- The double that a decimal number writes. It must not be too large, though it may be too
small. -/
def ofDecimal? (neg : Bool) (cs : List Char) : Option Toml := do
  let x ← Decimal.readFloat? (if neg then '-' :: cs else cs)
  if x.isInf && !neg then none else some (float x)

/-- A decimal number without its sign. -/
def decimal? (neg : Bool) (s : List Char) : Option (Toml × List Char) := do
  let (whole, s) ← whole? s
  let (fraction, s) ← fraction? s
  let (exponent, s) ← exponent? s
  let n : Int := Decimal.ofDigits whole
  let v ← if fraction = [] ∧ exponent = [] then ofInteger? (if neg then -n else n)
    else ofDecimal? neg (whole ++ fraction ++ exponent)
  return (v, s)

/-- The integer behind a mark for its base. -/
def inBase? (base : Nat) (s : List Char) : Option (Toml × List Char) := do
  let value (c : Char) : Nat := (Json.Term.hexValue? c).getD base
  let (cs, s) ← digits? (fun c => decide (value c < base)) s
  let n := cs.foldl (fun n c => n * base + value c) 0
  return (← ofInteger? n, s)

/-- A number without its sign: a double that is not finite by its name, or a decimal number. -/
def signed? (neg : Bool) : List Char → Option (Toml × List Char)
  | 'i' :: 'n' :: 'f' :: s => some (float (Binary64.infinity neg), s)
  | 'n' :: 'a' :: 'n' :: s => some (float Binary64.notANumber, s)
  | s => decimal? neg s

def number? : List Char → Option (Toml × List Char)
  | '0' :: 'x' :: s => inBase? 16 s
  | '0' :: 'o' :: s => inBase? 8 s
  | '0' :: 'b' :: s => inBase? 2 s
  | s => let (neg, s) := Decimal.splitSign s
    signed? neg s

end FlowTree.Toml
