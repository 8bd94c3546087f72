import FlowTree.Proofs.Binary64.Integer

/-!
# The values of doubles

A finite double is a rational number, `value`. Among those that are not negative the order of the
doubles is that of their values: of two mantissas with 53 places the one at the higher exponent is
the larger one.
-/

namespace FlowTree.Binary64

/-- The rational number that a finite double is, and zero for any other double. -/
def value (x : Float) : ℚ :=
  match parts x with
  | .fin neg m e => (if neg then -1 else 1) * (m * 2 ^ e)
  | _ => 0

/-- The double is a finite number that is not negative. -/
structure Nonneg (x : Float) : Prop where
  finite : x.isFinite = true
  not_neg : ¬ x < 0.0

theorem nonneg_zero : Nonneg 0.0 := by
  have hnan := isNaN_eq_false parts_zero nofun
  refine ⟨(isFinite_iff _).2 ⟨_, _, _, parts_zero⟩, ?_⟩
  rw [lt_iff hnan hnan]
  exact lt_irrefl _

section
variable {x y : Float} {m : Nat} {e : Int}

theorem value_of_parts (h : parts x = .fin false m e) : value x = m * 2 ^ e := by
  rw [value, h]
  exact one_mul _

theorem value_zero : value 0.0 = 0 := by
  rw [value_of_parts parts_zero, Nat.cast_zero, zero_mul]

theorem isNaN_of_isFinite (h : x.isFinite = true) : x.isNaN = false := by
  obtain ⟨neg, m, e, hx⟩ := (isFinite_iff x).1 h
  exact isNaN_eq_false hx nofun

theorem nonneg_of_parts (h : parts x = .fin false m e) : Nonneg x := by
  refine ⟨(isFinite_iff x).2 ⟨_, _, _, h⟩, ?_⟩
  rw [lt_iff (isNaN_eq_false h nofun) (isNaN_eq_false parts_zero nofun), key, key, h, parts_zero,
    Parts.key_of_not_negative rfl, Parts.key_of_not_negative rfl]
  simp only [Parts.magnitude]
  omega

theorem parts_ofInt_natCast {n : Nat} (hn : 0 < n) (hlt : n < 2 ^ 53) :
    parts (ofInt n) = .fin false (n * 2 ^ places n) (-(places n : Int)) := by
  have h := parts_ofInt (n := n) (by omega) (by omega)
  rwa [Int.natAbs_natCast, decide_eq_false (by omega)] at h

theorem value_ofInt {n : Nat} (hn : 0 < n) (hlt : n < 2 ^ 53) : value (ofInt n) = n := by
  rw [value_of_parts (parts_ofInt_natCast hn hlt), Nat.cast_mul, Nat.cast_pow, Nat.cast_two,
    mul_assoc, ← zpow_natCast, ← zpow_add₀ two_ne_zero, add_neg_cancel, zpow_zero, mul_one]

namespace Nonneg

/-- A double that is not negative is a zero of either sign or has positive parts. -/
theorem cases (h : Nonneg x) : (∃ neg, parts x = .fin neg 0 (-1074)) ∨
    ∃ m e, 0 < m ∧ parts x = .fin false m e := by
  obtain ⟨neg, m, e, hx⟩ := (isFinite_iff x).1 h.finite
  have hcanonical := canonical_parts x
  rw [hx] at hcanonical
  rcases Nat.eq_zero_or_pos m with rfl | hm
  · obtain ⟨-, -, -, hn⟩ := hcanonical
    obtain rfl : e = -1074 := by omega
    exact .inl ⟨neg, hx⟩
  · cases neg with
    | false => exact .inr ⟨m, e, hm, hx⟩
    | true =>
      refine absurd ?_ h.not_neg
      have hpos := Parts.magnitude_pos true hm e
      rw [lt_iff (isNaN_eq_false hx nofun) (isNaN_eq_false parts_zero nofun), key, key, hx,
        parts_zero, Parts.key_of_negative rfl, Parts.key_of_not_negative rfl]
      simp only [Parts.magnitude] at hpos ⊢
      omega

/-- The value and the key of a double that is not negative, from its canonical parts. -/
theorem exists_parts (h : Nonneg x) : ∃ m e, (Parts.fin false m e).Canonical ∧
    value x = m * 2 ^ e ∧ key x = (Parts.fin false m e).magnitude := by
  have hcanonical := canonical_parts x
  rcases h.cases with ⟨neg, hx⟩ | ⟨m, e, -, hx⟩
  · rw [hx] at hcanonical
    refine ⟨0, -1074, hcanonical, ?_, ?_⟩
    · rw [value, hx]
      simp
    · rw [key, hx, Parts.key_zero hcanonical]
      rfl
  · rw [hx] at hcanonical
    refine ⟨m, e, hcanonical, value_of_parts hx, ?_⟩
    rw [key, hx, Parts.key_of_not_negative rfl]

theorem value_nonneg (h : Nonneg x) : 0 ≤ value x := by
  obtain ⟨m, e, -, hvalue, -⟩ := h.exists_parts
  rw [hvalue]
  positivity

end Nonneg

/-! ### Order -/

theorem Parts.value_lt_of_magnitude_lt {m m' : Nat} {e e' : Int}
    (h : (Parts.fin false m e).Canonical) (h' : (Parts.fin false m' e').Canonical)
    (hlt : (Parts.fin false m e).magnitude < (Parts.fin false m' e').magnitude) :
    (m * 2 ^ e : ℚ) < m' * 2 ^ e' := by
  have hcompare := compare_magnitude h h'
  rw [Int.compare_eq_lt.2 (by exact_mod_cast hlt)] at hcompare
  obtain ⟨hm, he, -, -⟩ := h
  obtain ⟨-, -, -, hn'⟩ := h'
  rcases Int.lt_trichotomy e e' with hexp | rfl | hexp
  · -- the larger exponent is not the lowest one, so its mantissa has all 53 places
    have hfull : 2 ^ 52 ≤ m' := by omega
    calc (m * 2 ^ e : ℚ) < 2 ^ 53 * 2 ^ e := by
          refine mul_lt_mul_of_pos_right ?_ (by positivity)
          exact_mod_cast hm
      _ = 2 ^ 52 * 2 ^ (e + 1) := by
          rw [zpow_add_one₀ (by norm_num)]
          ring
      _ ≤ m' * 2 ^ e' := by
          refine mul_le_mul ?_ (zpow_le_zpow_right₀ (by norm_num) hexp) (by positivity)
            (by positivity)
          exact_mod_cast hfull
  · rw [Int.compare_eq_eq.2 rfl, Ordering.eq_then] at hcompare
    refine mul_lt_mul_of_pos_right ?_ (by positivity)
    exact_mod_cast Nat.compare_eq_lt.1 hcompare.symm
  · rw [Int.compare_eq_gt.2 hexp] at hcompare
    cases hcompare

namespace Nonneg

theorem key_lt_iff (hx : Nonneg x) (hy : Nonneg y) : key x < key y ↔ value x < value y := by
  obtain ⟨m, e, hc, hvx, hkx⟩ := hx.exists_parts
  obtain ⟨m', e', hc', hvy, hky⟩ := hy.exists_parts
  rw [hvx, hvy, hkx, hky]
  constructor
  · intro h
    exact Parts.value_lt_of_magnitude_lt hc hc' (by exact_mod_cast h)
  · intro h
    by_contra hle
    rcases Nat.lt_or_eq_of_le (Nat.le_of_not_lt (by exact_mod_cast hle)) with hlt | heq
    · exact absurd (Parts.value_lt_of_magnitude_lt hc' hc hlt) h.asymm
    · have hcompare := Parts.compare_magnitude hc' hc
      rw [heq, Int.compare_eq_eq.2 rfl] at hcompare
      obtain ⟨hexp, hm⟩ := Ordering.then_eq_eq.1 hcompare.symm
      obtain rfl := Int.compare_eq_eq.1 hexp
      obtain rfl := Nat.compare_eq_eq.1 hm
      exact absurd h (lt_irrefl _)

theorem lt_iff (hx : Nonneg x) (hy : Nonneg y) : x < y ↔ value x < value y := by
  rw [Binary64.lt_iff (isNaN_of_isFinite hx.finite) (isNaN_of_isFinite hy.finite), hx.key_lt_iff hy]

theorem le_iff (hx : Nonneg x) (hy : Nonneg y) : x ≤ y ↔ value x ≤ value y := by
  rw [Binary64.le_iff (isNaN_of_isFinite hx.finite) (isNaN_of_isFinite hy.finite), ← not_lt,
    hy.key_lt_iff hx, not_lt]

theorem same_iff (hx : Nonneg x) (hy : Nonneg y) : Same x y ↔ value x = value y := by
  have hlt := hx.key_lt_iff hy
  have hgt := hy.key_lt_iff hx
  constructor
  · intro h
    rw [h.key_eq, iff_comm, iff_false_right (lt_irrefl _), not_lt] at hlt hgt
    exact le_antisymm hgt hlt
  · intro h
    rw [h, iff_false_right (lt_irrefl _), not_lt] at hlt hgt
    exact same_of_key_eq (isNaN_of_isFinite hx.finite) (isNaN_of_isFinite hy.finite)
      (le_antisymm hgt hlt)

theorem beq_zero_iff (h : Nonneg x) : (x == 0.0) = true ↔ value x = 0 := by
  constructor
  · intro hbeq
    rcases same_of_beq hbeq with rfl | ⟨rfl | rfl, -⟩
    · exact value_zero
    · exact value_zero
    · rw [value, parts_neg_zero]
      simp
  · intro hvalue
    obtain ⟨m, e, hc, hv, hkey⟩ := h.exists_parts
    rw [hvalue, eq_comm, mul_eq_zero, or_iff_left (by positivity)] at hv
    obtain rfl : m = 0 := by exact_mod_cast hv
    obtain ⟨-, -, -, hn⟩ := hc
    have hzero : key x = 0 := by
      rw [hkey]
      simp only [Parts.magnitude]
      omega
    rcases eq_zero_of_key hzero with rfl | rfl <;> decide +kernel

/-- Nothing from zero on is below a zero. -/
theorem not_lt_of_value_eq_zero (h : Nonneg x) (hvalue : value x = 0) (hy : 0.0 ≤ y) :
    ¬ y < x := by
  intro hlt
  obtain ⟨hzero, hyn⟩ := isNaN_of_le hy
  rw [Binary64.le_iff hzero hyn] at hy
  rw [Binary64.lt_iff hyn (isNaN_of_isFinite h.finite)] at hlt
  have hkey := (nonneg_zero.key_lt_iff h).1 (hy.trans_lt hlt)
  rw [value_zero, hvalue] at hkey
  exact lt_irrefl _ hkey

end Nonneg

end

end FlowTree.Binary64
