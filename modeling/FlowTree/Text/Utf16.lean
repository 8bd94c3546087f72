/-!
# Texts in units of UTF-16

A character up to `U+FFFF` is one unit and any other one is two, the halves of a surrogate pair. A
cut between the halves leaves each of them in a text of its own, and they are a character again
where they come together.
-/

namespace FlowTree

structure Utf16 where
  units : Array UInt16
  deriving DecidableEq

instance : Inhabited Utf16 := ⟨⟨#[]⟩⟩

namespace Utf16

def isHighHalf (u : Nat) : Bool :=
  decide (0xD800 ≤ u) && decide (u < 0xDC00)

def isLowHalf (u : Nat) : Bool :=
  decide (0xDC00 ≤ u) && decide (u < 0xE000)

/-! ### From characters to units -/

/-- The units of a code point. -/
def encode (n : Nat) : List UInt16 :=
  if n < 0x10000 then [n.toUInt16]
  else [(0xD800 + (n - 0x10000) / 0x400).toUInt16, (0xDC00 + (n - 0x10000) % 0x400).toUInt16]

def ofChars (cs : List Char) : Utf16 :=
  ⟨(cs.flatMap fun c => encode c.toNat).toArray⟩

def ofString (s : String) : Utf16 :=
  ofChars s.toList

/-! ### From units to characters -/

/-- What stands for half a character where it has to be shown: an escape of four digits. -/
def halfText (u : Nat) : List Char :=
  '\\' :: 'u' :: (Nat.toDigits 16 u).map Char.toUpper

/-- What a unit by itself stands for. -/
def lone (u : UInt16) : List Char :=
  if isHighHalf u.toNat || isLowHalf u.toNat then halfText u.toNat else [Char.ofNat u.toNat]

/-- The characters of units, behind those in `before`, which holds the last of them first. -/
def decode (before : List Char) : List UInt16 → List Char
  | [] => before.reverse
  | [u] => ((lone u).reverse ++ before).reverse
  | u :: v :: us =>
    if isHighHalf u.toNat && isLowHalf v.toNat then
      decode
        (Char.ofNat (0x10000 + (u.toNat - 0xD800) * 0x400 + (v.toNat - 0xDC00)) :: before) us
    else decode ((lone u).reverse ++ before) (v :: us)

def chars (s : Utf16) : List Char :=
  decode [] s.units.toList

/-- The text as a string, in which halves of characters are escapes. -/
def text (s : Utf16) : String :=
  String.ofList s.chars

/-! ### Operations -/

def length (s : Utf16) : Nat :=
  s.units.size

def isEmpty (s : Utf16) : Bool :=
  s.units.isEmpty

def append (s t : Utf16) : Utf16 :=
  ⟨s.units ++ t.units⟩

instance : Append Utf16 := ⟨append⟩

/-- The text that is the unit at a position. -/
def unitAt? (s : Utf16) (i : Nat) : Option Utf16 :=
  s.units[i]?.map fun u => ⟨#[u]⟩

/-- Whether units come before others in their order. A beginning comes before the whole. -/
def precedes : List UInt16 → List UInt16 → Bool
  | _, [] => false
  | [], _ :: _ => true
  | u :: us, v :: vs => if u = v then precedes us vs else decide (u < v)

def before (s t : Utf16) : Bool :=
  precedes s.units.toList t.units.toList

end Utf16

end FlowTree
