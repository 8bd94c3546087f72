import FlowTree.Proofs.Binary64.Bits

/-!
# The order of doubles

Among numbers the comparisons of doubles are those of integers: of the magnitude bits under their
sign. A double that is not a number is below and above none. Two doubles that compare as equal are
one double or the two zeros.
-/

namespace FlowTree.Binary64
open Float.Model (Format)

/-! ### Keys -/

namespace Parts

/-- An integer by which doubles are ordered. -/
def key (p : Parts) : Int :=
  if p.negative then -p.magnitude else p.magnitude

theorem key_of_negative {p : Parts} (h : p.negative = true) : p.key = -p.magnitude :=
  if_pos h

theorem key_of_not_negative {p : Parts} (h : p.negative = false) : p.key = p.magnitude :=
  if_neg (by rw [h]; exact Bool.false_ne_true)

theorem unpacked_of_pos (neg : Bool) {m : Nat} (h : 0 < m) (e : Int) :
    (fin neg m e).unpacked = .finite (signOf neg) m e h :=
  dif_pos h

theorem unpacked_zero (neg : Bool) (e : Int) : (fin neg 0 e).unpacked = .zero (signOf neg) :=
  rfl

theorem magnitude_pos (neg : Bool) {m : Nat} (h : 0 < m) (e : Int) :
    0 < (fin neg m e).magnitude := by
  simp only [magnitude]
  omega

theorem key_zero {neg : Bool} {e : Int} (h : (fin neg 0 e).Canonical) :
    (fin neg 0 e).key = 0 := by
  obtain ⟨-, -, -, hn⟩ := h
  have hmag : (fin neg 0 e).magnitude = 0 := by
    simp only [magnitude]
    omega
  cases neg with
  | false => rw [key_of_not_negative rfl, hmag]; rfl
  | true => rw [key_of_negative rfl, hmag]; rfl

theorem key_fin_lt {neg : Bool} {m : Nat} {e : Int} (h : (fin neg m e).Canonical) :
    (inf true).key < (fin neg m e).key ∧ (fin neg m e).key < (inf false).key := by
  have hlt := magnitude_fin_lt h
  have hinf : (inf true).key = -(2047 * 2 ^ 52 : Int) := rfl
  have hinf' : (inf false).key = (2047 * 2 ^ 52 : Int) := rfl
  cases neg with
  | false => rw [key_of_not_negative (p := fin false m e) rfl]; omega
  | true => rw [key_of_negative (p := fin true m e) rfl]; omega

/-- The larger exponent wins, and the mantissa decides between equal ones. -/
theorem compare_magnitude {neg neg' : Bool} {m m' : Nat} {e e' : Int}
    (h : (fin neg m e).Canonical) (h' : (fin neg' m' e').Canonical) :
    compare ((fin neg m e).magnitude : Int) (fin neg' m' e').magnitude =
      (compare e e').then (compare m m') := by
  obtain ⟨hm, he, -, hn⟩ := h
  obtain ⟨hm', he', -, hn'⟩ := h'
  simp only [magnitude]
  rcases Int.lt_trichotomy e e' with hlt | rfl | hgt
  · rw [Int.compare_eq_lt.2 hlt, Int.compare_eq_lt.2 (by omega)]
    rfl
  · rw [Int.compare_eq_eq.2 rfl, Ordering.eq_then]
    rcases Nat.lt_trichotomy m m' with hlt | rfl | hgt
    · rw [Nat.compare_eq_lt.2 hlt, Int.compare_eq_lt.2 (by omega)]
    · rw [Nat.compare_eq_eq.2 rfl, Int.compare_eq_eq.2 (by omega)]
    · rw [Nat.compare_eq_gt.2 hgt, Int.compare_eq_gt.2 (by omega)]
  · rw [Int.compare_eq_gt.2 hgt, Int.compare_eq_gt.2 (by omega)]
    rfl

theorem compare_neg_neg (a b : Int) : compare (-a) (-b) = (compare a b).swap := by
  rcases Int.lt_trichotomy a b with h | rfl | h
  · rw [Int.compare_eq_lt.2 h, Int.compare_eq_gt.2 (by omega)]
    rfl
  · rw [Int.compare_eq_eq.2 rfl, Int.compare_eq_eq.2 rfl]
    rfl
  · rw [Int.compare_eq_gt.2 h, Int.compare_eq_lt.2 (by omega)]
    rfl

theorem compare_zero_fin {neg neg' : Bool} {m' : Nat} {e e' : Int}
    (h : (fin neg 0 e).Canonical) (h' : (fin neg' m' e').Canonical) :
    (fin neg 0 e).unpacked.compare (fin neg' m' e').unpacked =
      some (compare (fin neg 0 e).key (fin neg' m' e').key) := by
  rw [unpacked_zero, key_zero h]
  rcases Nat.eq_zero_or_pos m' with rfl | hm'
  · rw [unpacked_zero, key_zero h']
    rfl
  · have hpos' := magnitude_pos neg' hm' e'
    rw [unpacked_of_pos neg' hm']
    cases neg' with
    | false =>
      rw [key_of_not_negative rfl, Int.compare_eq_lt.2 (by omega)]
      rfl
    | true =>
      rw [key_of_negative rfl, Int.compare_eq_gt.2 (by omega)]
      rfl

theorem compare_fin_fin {neg neg' : Bool} {m m' : Nat} {e e' : Int}
    (h : (fin neg m e).Canonical) (h' : (fin neg' m' e').Canonical) :
    (fin neg m e).unpacked.compare (fin neg' m' e').unpacked =
      some (compare (fin neg m e).key (fin neg' m' e').key) := by
  rcases Nat.eq_zero_or_pos m with rfl | hm
  · exact compare_zero_fin h h'
  · have hpos := magnitude_pos neg hm e
    rcases Nat.eq_zero_or_pos m' with rfl | hm'
    · rw [unpacked_of_pos neg hm, unpacked_zero, key_zero h']
      cases neg with
      | false =>
        rw [key_of_not_negative rfl, Int.compare_eq_gt.2 (by omega)]
        rfl
      | true =>
        rw [key_of_negative rfl, Int.compare_eq_lt.2 (by omega)]
        rfl
    · have hmag := compare_magnitude h h'
      have hpos' := magnitude_pos neg' hm' e'
      rw [unpacked_of_pos neg hm, unpacked_of_pos neg' hm']
      cases neg with
      | false =>
        rw [key_of_not_negative rfl]
        cases neg' with
        | false =>
          rw [key_of_not_negative rfl, hmag]
          rfl
        | true =>
          rw [key_of_negative rfl, Int.compare_eq_gt.2 (by omega)]
          rfl
      | true =>
        rw [key_of_negative rfl]
        cases neg' with
        | false =>
          rw [key_of_not_negative rfl, Int.compare_eq_lt.2 (by omega)]
          rfl
        | true =>
          rw [key_of_negative rfl, compare_neg_neg, hmag]
          rfl

theorem compare_inf_fin (neg : Bool) {neg' : Bool} {m' : Nat} {e' : Int}
    (h' : (fin neg' m' e').Canonical) :
    (inf neg).unpacked.compare (fin neg' m' e').unpacked =
      some (compare (inf neg).key (fin neg' m' e').key) := by
  obtain ⟨hlow, hhigh⟩ := key_fin_lt h'
  cases neg with
  | false =>
    rw [Int.compare_eq_gt.2 hhigh]
    rcases Nat.eq_zero_or_pos m' with rfl | hm'
    · rfl
    · rw [unpacked_of_pos neg' hm']
      rfl
  | true =>
    rw [Int.compare_eq_lt.2 hlow]
    rcases Nat.eq_zero_or_pos m' with rfl | hm'
    · rfl
    · rw [unpacked_of_pos neg' hm']
      rfl

theorem compare_fin_inf {neg : Bool} {m : Nat} {e : Int} (neg' : Bool)
    (h : (fin neg m e).Canonical) :
    (fin neg m e).unpacked.compare (inf neg').unpacked =
      some (compare (fin neg m e).key (inf neg').key) := by
  obtain ⟨hlow, hhigh⟩ := key_fin_lt h
  cases neg' with
  | false =>
    rw [Int.compare_eq_lt.2 hhigh]
    rcases Nat.eq_zero_or_pos m with rfl | hm
    · rfl
    · rw [unpacked_of_pos neg hm]
      cases neg <;> rfl
  | true =>
    rw [Int.compare_eq_gt.2 hlow]
    rcases Nat.eq_zero_or_pos m with rfl | hm
    · rfl
    · rw [unpacked_of_pos neg hm]
      cases neg <;> rfl

theorem compare_unpacked {p q : Parts} (hp : p.Canonical) (hq : q.Canonical) (hpn : p ≠ nan)
    (hqn : q ≠ nan) : p.unpacked.compare q.unpacked = some (compare p.key q.key) := by
  cases p with
  | nan => exact absurd rfl hpn
  | inf neg =>
    cases q with
    | nan => exact absurd rfl hqn
    | inf neg' => cases neg <;> cases neg' <;> rfl
    | fin neg' m' e' => exact compare_inf_fin neg hq
  | fin neg m e =>
    cases q with
    | nan => exact absurd rfl hqn
    | inf neg' => exact compare_fin_inf neg' hp
    | fin neg' m' e' => exact compare_fin_fin hp hq

end Parts

/-! ### Comparisons -/

theorem isNaN_iff (x : Float) : x.isNaN = true ↔ parts x = .nan := by
  show x.toModel.unpack.isNaN = true ↔ _
  rw [unpack_toModel]
  cases parts x with
  | nan => exact iff_of_true rfl rfl
  | inf neg => exact iff_of_false Bool.false_ne_true nofun
  | fin neg m e =>
    refine iff_of_false ?_ nofun
    rcases Nat.eq_zero_or_pos m with rfl | hm
    · exact Bool.false_ne_true
    · rw [Parts.unpacked_of_pos neg hm]
      exact Bool.false_ne_true

theorem isNaN_eq_false {x : Float} {p : Parts} (hx : parts x = p) (hp : p ≠ .nan) :
    x.isNaN = false := by
  by_contra h
  exact hp (hx ▸ (isNaN_iff x).1 (by simpa using h))

theorem parts_ne_nan {x : Float} (h : x.isNaN = false) : parts x ≠ .nan := by
  intro hx
  rw [(isNaN_iff x).2 hx] at h
  cases h

/-- The integer by which a double is ordered. -/
def key (x : Float) : Int :=
  (parts x).key

theorem compare_eq {x y : Float} (hx : x.isNaN = false) (hy : y.isNaN = false) :
    x.toModel.unpack.compare y.toModel.unpack = some (compare (key x) (key y)) := by
  rw [unpack_toModel, unpack_toModel]
  exact Parts.compare_unpacked (canonical_parts x) (canonical_parts y) (parts_ne_nan hx)
    (parts_ne_nan hy)

/-- What is no number compares with none. -/
theorem compare_eq_none {x y : Float} (h : x.isNaN = true ∨ y.isNaN = true) :
    x.toModel.unpack.compare y.toModel.unpack = none := by
  rw [unpack_toModel, unpack_toModel]
  rcases h with h | h
  · rw [(isNaN_iff x).1 h]
    rfl
  · rw [(isNaN_iff y).1 h]
    cases (parts x).unpacked <;> rfl

theorem lt_iff {x y : Float} (hx : x.isNaN = false) (hy : y.isNaN = false) :
    x < y ↔ key x < key y := by
  show decide ((x.toModel.unpack.compare y.toModel.unpack == some .lt) = true) = true ↔ _
  rw [compare_eq hx hy, ← Int.compare_eq_lt]
  simp

theorem le_iff {x y : Float} (hx : x.isNaN = false) (hy : y.isNaN = false) :
    x ≤ y ↔ key x ≤ key y := by
  show decide ((x.toModel.unpack.compare y.toModel.unpack).any (·.isLE) = true) = true ↔ _
  rw [compare_eq hx hy, ← Int.isLE_compare]
  simp

theorem not_lt_of_isNaN {x y : Float} (h : x.isNaN = true ∨ y.isNaN = true) : ¬x < y := by
  show ¬decide ((x.toModel.unpack.compare y.toModel.unpack == some .lt) = true) = true
  rw [compare_eq_none h]
  decide

/-- Doubles that compare are numbers. -/
theorem isNaN_of_le {x y : Float} (h : x ≤ y) : x.isNaN = false ∧ y.isNaN = false := by
  by_contra hnan
  have hnone := compare_eq_none (x := x) (y := y) (by
    cases hx : x.isNaN
    · cases hy : y.isNaN
      · exact absurd ⟨hx, hy⟩ hnan
      · exact .inr rfl
    · exact .inl rfl)
  change decide ((x.toModel.unpack.compare y.toModel.unpack).any (·.isLE) = true) = true at h
  rw [hnone] at h
  exact absurd h (by decide)

/-! ### Zeros -/

theorem parts_zero : parts 0.0 = .fin false 0 (-1074) := by
  decide +kernel

theorem parts_neg_zero : parts (-0.0) = .fin true 0 (-1074) := by
  decide +kernel

theorem exists_parts_of_zero {x : Float} (h : x = 0.0 ∨ x = -0.0) :
    ∃ neg, parts x = .fin neg 0 (-1074) := by
  rcases h with rfl | rfl
  · exact ⟨false, parts_zero⟩
  · exact ⟨true, parts_neg_zero⟩

theorem key_of_zero {x : Float} (h : x = 0.0 ∨ x = -0.0) : key x = 0 := by
  obtain ⟨neg, hparts⟩ := exists_parts_of_zero h
  rw [key, hparts]
  exact Parts.key_zero (hparts ▸ canonical_parts x)

theorem eq_zero_of_key {x : Float} (h : key x = 0) : x = 0.0 ∨ x = -0.0 := by
  have hword := Parts.ofWord_word (canonical_parts x)
  have hmag : (parts x).magnitude = 0 := by
    unfold key Parts.key at h
    split at h <;> omega
  unfold Parts.word at hword
  rw [hmag] at hword
  cases hneg : (parts x).negative with
  | false =>
    rw [hneg] at hword
    exact .inl (parts_inj (hword.symm.trans parts_zero.symm))
  | true =>
    rw [hneg] at hword
    exact .inr (parts_inj (hword.symm.trans parts_neg_zero.symm))

/-! ### Doubles that compare as equal -/

/-- Two doubles are one number: the same double, or zeros of different signs. -/
def Same (x y : Float) : Prop :=
  x = y ∨ (x = 0.0 ∨ x = -0.0) ∧ (y = 0.0 ∨ y = -0.0)

theorem Same.refl (x : Float) : Same x x :=
  .inl rfl

theorem Same.symm {x y : Float} (h : Same x y) : Same y x :=
  h.imp Eq.symm And.symm

theorem Same.trans {x y z : Float} (h : Same x y) (h' : Same y z) : Same x z := by
  rcases h with rfl | ⟨hx, hy⟩
  · exact h'
  · rcases h' with rfl | ⟨-, hz⟩
    · exact .inr ⟨hx, hy⟩
    · exact .inr ⟨hx, hz⟩

theorem Same.key_eq {x y : Float} (h : Same x y) : key x = key y := by
  rcases h with rfl | ⟨hx, hy⟩
  · rfl
  · rw [key_of_zero hx, key_of_zero hy]

theorem Same.isNaN_eq {x y : Float} (h : Same x y) : x.isNaN = y.isNaN := by
  rcases h with rfl | ⟨hx, hy⟩
  · rfl
  · obtain ⟨_, hx⟩ := exists_parts_of_zero hx
    obtain ⟨_, hy⟩ := exists_parts_of_zero hy
    rw [isNaN_eq_false hx nofun, isNaN_eq_false hy nofun]

/-- What is one number compares in one way with a third double. -/
theorem Same.lt_congr {x y : Float} (h : Same x y) (z : Float) :
    (x < z ↔ y < z) ∧ (z < x ↔ z < y) := by
  cases hz : z.isNaN with
  | true =>
    exact ⟨iff_of_false (not_lt_of_isNaN (.inr hz)) (not_lt_of_isNaN (.inr hz)),
      iff_of_false (not_lt_of_isNaN (.inl hz)) (not_lt_of_isNaN (.inl hz))⟩
  | false =>
    cases hx : x.isNaN with
    | true =>
      have hy : y.isNaN = true := h.isNaN_eq ▸ hx
      exact ⟨iff_of_false (not_lt_of_isNaN (.inl hx)) (not_lt_of_isNaN (.inl hy)),
        iff_of_false (not_lt_of_isNaN (.inr hx)) (not_lt_of_isNaN (.inr hy))⟩
    | false =>
      have hy : y.isNaN = false := h.isNaN_eq ▸ hx
      rw [lt_iff hx hz, lt_iff hy hz, lt_iff hz hx, lt_iff hz hy, h.key_eq]
      exact ⟨.rfl, .rfl⟩

theorem same_of_beq {x y : Float} (h : (x == y) = true) : Same x y := by
  have hpos : (0 : Float) = 0.0 := by decide +kernel
  have hneg : (-0 : Float) = -0.0 := by decide +kernel
  obtain ⟨-, -, heq | ⟨rfl, rfl⟩ | ⟨rfl, rfl⟩⟩ := Float.beq_iff_ne_nan_and_eq.1 h
  · exact .inl heq
  · exact .inr ⟨.inl hpos, .inr hneg⟩
  · exact .inr ⟨.inr hneg, .inl hpos⟩

theorem same_of_key_eq {x y : Float} (hx : x.isNaN = false) (hy : y.isNaN = false)
    (h : key x = key y) : Same x y := by
  refine same_of_beq ?_
  show (x.toModel.unpack.compare y.toModel.unpack == some .eq) = true
  rw [compare_eq hx hy, Int.compare_eq_eq.2 h]
  rfl

end FlowTree.Binary64
