import FlowTree.Decimal.Numeral

/-!
# Dates and times

A moment is a date, a time of day, or both, and with both it may have an offset from universal time.
`Moment.read?` reads one at the front of a text and `Moment.text` writes it with a `T` between date
and time, the fraction of a second without zeros at its end.
-/

namespace FlowTree.Toml

structure Date where
  year : Nat
  month : Nat
  day : Nat
  deriving DecidableEq, Repr

structure TimeOfDay where
  hour : Nat
  minute : Nat
  second : Nat
  nanosecond : Nat := 0
  deriving DecidableEq, Repr

inductive Offset
  | universal
  | minutes (n : Int)
  deriving DecidableEq, Repr

inductive Moment
  | date (d : Date)
  | time (t : TimeOfDay)
  | dateTime (d : Date) (t : TimeOfDay) (offset : Option Offset)
  deriving DecidableEq, Repr

/-! ### Reading -/

/-- A number of two digits between `lo` and `hi`. -/
def twoDigits? (lo hi : Nat) : List Char → Option (Nat × List Char)
  | a :: b :: s =>
    let n := Decimal.ofDigits [a, b]
    if Decimal.isDigit a ∧ Decimal.isDigit b ∧ lo ≤ n ∧ n ≤ hi then some (n, s) else none
  | _ => none

def dropChar? (c : Char) : List Char → Option (List Char)
  | d :: s => if d = c then some s else none
  | [] => none

namespace Date

def isLeap (year : Nat) : Bool :=
  year % 4 == 0 && (year % 100 != 0 || year % 400 == 0)

def daysIn (year month : Nat) : Nat :=
  if month = 2 then (if isLeap year then 29 else 28)
  else if month ∈ [4, 6, 9, 11] then 30
  else 31

def read? (s : List Char) : Option (Date × List Char) := do
  let digits := s.take 4
  if digits.length ≠ 4 ∨ !digits.all Decimal.isDigit then none
  let year := Decimal.ofDigits digits
  let (month, s) ← twoDigits? 1 12 (← dropChar? '-' (s.drop 4))
  let (day, s) ← twoDigits? 1 31 (← dropChar? '-' s)
  if day ≤ daysIn year month then some ({ year, month, day }, s) else none

end Date

namespace TimeOfDay

/-- The nanoseconds that a fraction of a second has, cut after the ninth digit. -/
def nanoseconds (digits : List Char) : Nat :=
  let kept := digits.take 9
  Decimal.ofDigits kept * Nat.pow 10 (9 - kept.length)

/-- The fraction of a second, if the text goes on with a point. -/
def readFraction? : List Char → Option (Nat × List Char)
  | '.' :: s =>
    let digits := s.takeWhile Decimal.isDigit
    if digits = [] then none else some (nanoseconds digits, s.dropWhile Decimal.isDigit)
  | s => some (0, s)

def read? (s : List Char) : Option (TimeOfDay × List Char) := do
  let (hour, s) ← twoDigits? 0 23 s
  let (minute, s) ← twoDigits? 0 59 (← dropChar? ':' s)
  let (second, s) ← twoDigits? 0 60 (← dropChar? ':' s)
  let (nanosecond, s) ← readFraction? s
  return ({ hour, minute, second, nanosecond }, s)

end TimeOfDay

def Offset.read? : List Char → Option (Option Offset × List Char)
  | [] => some (none, [])
  | c :: s =>
    if c = 'Z' ∨ c = 'z' then some (some .universal, s)
    else if c = '+' ∨ c = '-' then do
      let (hours, s) ← twoDigits? 0 23 s
      let (rest, s) ← twoDigits? 0 59 (← dropChar? ':' s)
      let n : Int := hours * 60 + rest
      return (some (.minutes (if c = '-' then -n else n)), s)
    else some (none, c :: s)

namespace Moment

/-- The time after a date, if the text goes on with a mark for it and with two digits and a colon
behind the mark. -/
def readTime? (d : Date) (s : List Char) : Option (Moment × List Char) :=
  match s with
  | c :: a :: b :: ':' :: rest =>
    if (c = 'T' ∨ c = 't' ∨ c = ' ') ∧ (twoDigits? 0 23 [a, b]).isSome then do
      let (t, rest) ← TimeOfDay.read? (a :: b :: ':' :: rest)
      let (offset, rest) ← Offset.read? rest
      return (dateTime d t offset, rest)
    else some (date d, s)
  | _ => some (date d, s)

def read? (s : List Char) : Option (Moment × List Char) :=
  match Date.read? s with
  | some (d, rest) => readTime? d rest
  | none => (TimeOfDay.read? s).map fun (t, rest) => (time t, rest)

end Moment

/-! ### Writing -/

/-- The decimal digits of `n`, with zeros in front up to `width` digits. -/
def padded (width n : Nat) : List Char :=
  let ds := Nat.toDigits 10 n
  List.replicate (width - ds.length) '0' ++ ds

def Date.text (d : Date) : List Char :=
  padded 4 d.year ++ '-' :: padded 2 d.month ++ '-' :: padded 2 d.day

def TimeOfDay.text (t : TimeOfDay) : List Char :=
  let fraction := ((padded 9 t.nanosecond).reverse.dropWhile (· = '0')).reverse
  padded 2 t.hour ++ ':' :: padded 2 t.minute ++ ':' :: padded 2 t.second ++
    (if fraction = [] then [] else '.' :: fraction)

def Offset.text : Offset → List Char
  | universal => ['Z']
  | minutes n =>
    (if n < 0 then '-' else '+') :: padded 2 (n.natAbs / 60) ++ ':' :: padded 2 (n.natAbs % 60)

def Moment.text : Moment → String
  | date d => String.ofList d.text
  | time t => String.ofList t.text
  | dateTime d t offset =>
    String.ofList (d.text ++ 'T' :: t.text ++ (offset.map Offset.text).getD [])

end FlowTree.Toml
