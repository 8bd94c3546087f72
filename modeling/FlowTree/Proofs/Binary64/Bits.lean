import FlowTree.Binary64
import Mathlib

/-!
# Doubles and their bits

The word of a double is its sign and its magnitude bits, and the magnitude bits are the mantissa
above the exponent of the last place, for normal and subnormal doubles alike. So a double is given
by its parts, and whatever canonical parts stand for is packed to a double that has them.
-/

namespace FlowTree.Binary64
open Float.Model (Format)
open Float.Model.UnpackedFloat

/-! ### The fields of a word -/

theorem toNat_unpackMantissa (b : BitVec Format.binary64.numBits) :
    (unpackMantissa b).toNat = b.toNat % 2 ^ 52 := by
  simp [unpackMantissa, BitVec.extractLsb]

theorem toNat_unpackExponent (b : BitVec Format.binary64.numBits) :
    (unpackExponent b).toNat = b.toNat / 2 ^ 52 % 2 ^ 11 := by
  simp [unpackExponent, BitVec.extractLsb, Nat.shiftRight_eq_div_pow]

theorem toNat_unpackSign (b : BitVec Format.binary64.numBits) :
    (unpackSign b).toNat = b.toNat / 2 ^ 63 := by
  have hb : b.toNat < 2 ^ 64 := b.isLt
  simp [unpackSign, BitVec.extractLsb, Nat.shiftRight_eq_div_pow]
  omega

theorem toNat_packComponents (s : Sign) (e : BitVec 11) (m : BitVec 52) :
    (packComponents .binary64 s e m).toNat =
      s.toBitVec.toNat * 2 ^ 63 + e.toNat * 2 ^ 52 + m.toNat := by
  simp only [packComponents]
  rw [BitVec.toNat_append, BitVec.toNat_append, ← Nat.shiftLeft_add_eq_or_of_lt m.isLt,
    ← Nat.shiftLeft_add_eq_or_of_lt e.isLt, Nat.shiftLeft_eq, Nat.shiftLeft_eq]
  omega

theorem toNat_append_one (m : BitVec 52) : (1#1 ++ m).toNat = m.toNat + 2 ^ 52 := by
  rw [BitVec.toNat_append, ← Nat.shiftLeft_add_eq_or_of_lt m.isLt, Nat.add_comm]
  rfl

def signOf (neg : Bool) : Sign :=
  if neg then .negative else .positive

theorem toNat_toBitVec_signOf (neg : Bool) :
    (signOf neg).toBitVec.toNat = neg.toNat := by
  cases neg <;> rfl

theorem ofBitVec_unpackSign (b : BitVec Format.binary64.numBits) :
    Sign.ofBitVec (unpackSign b) = signOf (decide (2 ^ 63 ≤ b.toNat)) := by
  have hb : b.toNat < 2 ^ 64 := b.isLt
  have hsign := toNat_unpackSign b
  unfold Sign.ofBitVec signOf
  by_cases h : 2 ^ 63 ≤ b.toNat
  · have hone : unpackSign b ≠ 0#1 := by
      intro hz
      rw [hz, BitVec.toNat_zero] at hsign
      omega
    rw [if_neg hone, decide_eq_true h, if_pos rfl]
  · have hzero : unpackSign b = 0#1 := by
      apply BitVec.eq_of_toNat_eq
      rw [BitVec.toNat_zero]
      omega
    rw [if_pos hzero, decide_eq_false h]
    rfl

/-! ### Words and parts -/

/-- The parts that the double with the word `b` has. -/
def Parts.ofWord (b : Nat) : Parts :=
  let neg := decide (1 <<< 63 ≤ b)
  let e : Nat := (b >>> 52) % 2048
  let m := b % (1 <<< 52)
  if e = 2047 then if m = 0 then .inf neg else .nan
  else if e = 0 then .fin neg m (-1074)
  else .fin neg (m + (1 <<< 52)) ((e : Int) - 1075)

theorem parts_eq_ofWord (x : Float) : parts x = .ofWord x.toBits.toNat := rfl

namespace Parts

def negative : Parts → Bool
  | nan => false
  | inf neg => neg
  | fin neg _ _ => neg

/-- The bits below the sign. -/
def magnitude : Parts → Nat
  | nan => 2047 * 2 ^ 52 + 2 ^ 51
  | inf _ => 2047 * 2 ^ 52
  | fin _ m e => (e + 1074).toNat * 2 ^ 52 + m

def word (p : Parts) : Nat :=
  p.negative.toNat * 2 ^ 63 + p.magnitude

/-- Parts that a double has: the mantissa has 53 places, or fewer in the lowest last place. -/
def Canonical : Parts → Prop
  | fin _ m e => m < 2 ^ 53 ∧ -1074 ≤ e ∧ e ≤ 971 ∧ (2 ^ 52 ≤ m ∨ e = -1074)
  | _ => True

theorem magnitude_fin_lt {neg : Bool} {m : Nat} {e : Int} (h : (fin neg m e).Canonical) :
    (fin neg m e).magnitude < 2047 * 2 ^ 52 := by
  obtain ⟨hm, -, he, -⟩ := h
  simp only [magnitude]
  omega

theorem magnitude_lt {p : Parts} (h : p.Canonical) : p.magnitude < 2 ^ 63 := by
  cases p with
  | nan => decide
  | inf neg => simp [magnitude]
  | fin neg m e => exact (magnitude_fin_lt h).trans (by decide)

theorem word_lt {p : Parts} (h : p.Canonical) : p.word < 2 ^ 64 := by
  have hmag := magnitude_lt h
  have hneg := p.negative.toNat_le
  unfold word
  omega

/-- The parts of a word are read off its fields. -/
theorem ofWord_fields (neg : Bool) {E m : Nat} (hE : E < 2048) (hm : m < 2 ^ 52) :
    ofWord (neg.toNat * 2 ^ 63 + (E * 2 ^ 52 + m)) =
      if E = 2047 then if m = 0 then .inf neg else .nan
      else if E = 0 then .fin neg m (-1074)
      else .fin neg (m + 2 ^ 52) ((E : Int) - 1075) := by
  have hle := neg.toNat_le
  have hexp : (neg.toNat * 2 ^ 63 + (E * 2 ^ 52 + m)) / 2 ^ 52 % 2048 = E := by omega
  have hmant : (neg.toNat * 2 ^ 63 + (E * 2 ^ 52 + m)) % 2 ^ 52 = m := by omega
  have hneg : decide (2 ^ 63 ≤ neg.toNat * 2 ^ 63 + (E * 2 ^ 52 + m)) = neg := by
    cases neg with
    | false => exact decide_eq_false (by rw [Bool.toNat_false]; omega)
    | true => exact decide_eq_true (by rw [Bool.toNat_true]; omega)
  unfold ofWord
  simp only [Nat.shiftRight_eq_div_pow, Nat.one_shiftLeft, hneg, hexp, hmant]

theorem canonical_ofWord (b : Nat) : (ofWord b).Canonical := by
  unfold ofWord
  simp only []
  rw [Nat.shiftRight_eq_div_pow, Nat.one_shiftLeft]
  split
  · split <;> trivial
  · split
    · refine ⟨?_, ?_, ?_, .inr rfl⟩ <;> omega
    · refine ⟨?_, ?_, ?_, .inl ?_⟩ <;> omega

theorem ofWord_word {p : Parts} (h : p.Canonical) : ofWord p.word = p := by
  cases p with
  | nan => rfl
  | inf neg => cases neg <;> rfl
  | fin neg m e =>
    obtain ⟨hm, he, he', hn⟩ := h
    simp only [word, negative, magnitude]
    by_cases hsub : m < 2 ^ 52
    · obtain rfl : e = -1074 := by omega
      exact ofWord_fields neg (E := 0) (by omega) hsub
    · have hmag : (e + 1074).toNat * 2 ^ 52 + m =
          (e + 1075).toNat * 2 ^ 52 + (m - 2 ^ 52) := by omega
      rw [hmag, ofWord_fields neg (by omega) (by omega), if_neg (by omega), if_neg (by omega)]
      simp only [fin.injEq, true_and]
      omega

end Parts

/-! ### Packing -/

/-- What the parts are to the arithmetic of doubles. -/
def Parts.unpacked : Parts → Float.Model.UnpackedFloat
  | .nan => .notANumber
  | .inf neg => .infinity (signOf neg)
  | .fin neg m e => if h : 0 < m then .finite (signOf neg) m e h else .zero (signOf neg)

theorem unpack_eq (b : BitVec Format.binary64.numBits) :
    unpack .binary64 b = (Parts.ofWord b.toNat).unpacked := by
  have hm := toNat_unpackMantissa b
  have he := toNat_unpackExponent b
  have hs := ofBitVec_unpackSign b
  have happend := toNat_append_one (unpackMantissa b)
  have hinf : (unpackExponent b = -1#_) ↔ (unpackExponent b).toNat = 2047 :=
    ⟨fun h => by rw [h]; rfl, fun h => BitVec.eq_of_toNat_eq h⟩
  have hsub : (unpackExponent b = 0#_) ↔ (unpackExponent b).toNat = 0 :=
    ⟨fun h => by rw [h]; rfl, fun h => BitVec.eq_of_toNat_eq h⟩
  have hzero : (unpackMantissa b = 0#_) ↔ (unpackMantissa b).toNat = 0 :=
    ⟨fun h => by rw [h]; rfl, fun h => BitVec.eq_of_toNat_eq h⟩
  unfold Float.Model.UnpackedFloat.unpack Parts.ofWord
  simp only [Nat.shiftRight_eq_div_pow, Nat.one_shiftLeft, hs, ← hm,
    show b.toNat / 2 ^ 52 % 2048 = (unpackExponent b).toNat from he.symm]
  split
  · rename_i h
    rw [if_pos (hinf.1 h)]
    split
    · rename_i h'
      rw [if_pos (hzero.1 h')]
      rfl
    · rename_i h'
      rw [if_neg (mt hzero.2 h')]
      rfl
  · rename_i h
    rw [if_neg (mt hinf.2 h)]
    split
    · rename_i h'
      rw [if_pos (hsub.1 h')]
      split
      · rename_i h''
        rw [hzero.1 h'']
        rfl
      · rename_i h''
        rw [Parts.unpacked, dif_pos (Nat.pos_of_ne_zero (mt hzero.2 h''))]
        congr 1
        rw [h']
        rfl
    · rename_i h'
      rw [if_neg (mt hsub.2 h'), Parts.unpacked, dif_pos (by omega)]
      congr 1

theorem unpack_toModel (x : Float) : x.toModel.unpack = (parts x).unpacked :=
  unpack_eq x.toModel.toBits.toBitVec

theorem log2_eq_of_normal {m : Nat} (h : 2 ^ 52 ≤ m) (h' : m < 2 ^ 53) : m.log2 = 52 :=
  (Nat.log2_eq_iff (by omega)).2 ⟨h, h'⟩

theorem pack_subnormal (s : Sign) {m : Nat} (hm : 0 < m) (hlt : m < 2 ^ 52) :
    pack .binary64 (.finite s m (-1074) hm) =
      packComponents .binary64 s 0#11 (BitVec.ofNat 52 m) := by
  have hlog : m.log2 < 52 := (Nat.log2_lt (by omega)).2 hlt
  rw [pack]
  simp only []
  rw [if_neg (by decide), if_neg (by show ¬ m.log2 + 1 = 53; omega)]

theorem pack_normal (s : Sign) {m E : Nat} (hm : 0 < m) (hge : 2 ^ 52 ≤ m) (hlt : m < 2 ^ 53)
    (hE : E < 2047) :
    pack .binary64 (.finite s m (E - 1075) hm) =
      packComponents .binary64 s (BitVec.ofNat 11 E) (BitVec.ofNat 52 m) := by
  have hlog := log2_eq_of_normal hge hlt
  have hbiased : ((E : Int) - 1075 + Format.binary64.exponentBias +
      Format.binary64.mantissaBitsWithoutImplicit).toNat = E := by
    show ((E : Int) - 1075 + (1023 : Nat) + (52 : Nat)).toNat = E
    omega
  rw [pack]
  simp only [hbiased, hlog]
  rw [if_neg (by show ¬ 2048 ≤ E + 1; omega), if_pos (by decide)]

theorem toNat_pack {p : Parts} (h : p.Canonical) : (pack .binary64 p.unpacked).toNat = p.word := by
  cases p with
  | nan => rfl
  | inf neg => cases neg <;> rfl
  | fin neg m e =>
    obtain ⟨hm, he, he', hn⟩ := h
    simp only [Parts.word, Parts.negative, Parts.magnitude, Parts.unpacked]
    by_cases hsub : m < 2 ^ 52
    · obtain rfl : e = -1074 := by omega
      by_cases hpos : 0 < m
      · rw [dif_pos hpos, pack_subnormal _ hpos hsub, toNat_packComponents,
          toNat_toBitVec_signOf, BitVec.toNat_ofNat, BitVec.toNat_ofNat]
        omega
      · obtain rfl : m = 0 := by omega
        cases neg <;> rfl
    · obtain ⟨E, rfl⟩ : ∃ E : Nat, e = E - 1075 := ⟨(e + 1075).toNat, by omega⟩
      rw [dif_pos (by omega), pack_normal _ (by omega) (by omega) hm (by omega),
        toNat_packComponents, toNat_toBitVec_signOf, BitVec.toNat_ofNat, BitVec.toNat_ofNat]
      omega

/-! ### Doubles and their parts -/

theorem canonical_parts (x : Float) : (parts x).Canonical :=
  Parts.canonical_ofWord _

/-- Canonical parts are those of the double that they are packed to. -/
theorem parts_pack {p : Parts} (h : p.Canonical) : parts (.ofModel (.pack p.unpacked)) = p := by
  have hbits : (Float.ofModel (.pack p.unpacked)).toBits.toNat = p.word := toNat_pack h
  rw [parts_eq_ofWord, hbits, Parts.ofWord_word h]

theorem parts_ofBits_ofNat {b : Nat} (h : b < 2 ^ 64) :
    parts (Float.ofBits (UInt64.ofNat b)) = .ofWord b := by
  have hword : (UInt64.ofNat b).toBitVec.toNat = b := by
    simp
    omega
  have hunpack : unpack .binary64 (UInt64.ofNat b).toBitVec = (Parts.ofWord b).unpacked := by
    rw [unpack_eq, hword]
  show parts (.ofModel (.pack (unpack .binary64 (UInt64.ofNat b).toBitVec))) = .ofWord b
  rw [hunpack, parts_pack (Parts.canonical_ofWord b)]

/-- The double with the bits of canonical parts has these parts. -/
theorem parts_ofBits {p : Parts} (h : p.Canonical) :
    parts (Float.ofBits (UInt64.ofNat p.word)) = p := by
  rw [parts_ofBits_ofNat (Parts.word_lt h), Parts.ofWord_word h]

theorem ofModel_pack_parts (x : Float) : .ofModel (.pack (parts x).unpacked) = x := by
  rw [← unpack_toModel]
  exact Float.ofBits_toBits x

/-- No two doubles have the same parts. -/
theorem parts_inj {x y : Float} (h : parts x = parts y) : x = y := by
  rw [← ofModel_pack_parts x, h, ofModel_pack_parts]

end FlowTree.Binary64
