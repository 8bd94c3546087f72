import FlowTree.Proofs.Binary64.NearestInteger

/-!
# Integers within 64 bits

The whole numbers next to a finite double are the integers next to its value. Held within 64 bits
they are the bounds of the integers that a range of doubles has there. A double that is not below
`2 ^ 63 - 1` is not below `2 ^ 63`, so nothing but the doubles from there on is lost above, and
nothing but those below `-2 ^ 63` is lost below.
-/

namespace FlowTree.Binary64

variable {x : Float} {k : Int}

/-! ### The whole numbers next to a double -/

theorem isFinite_ceil_and_value (hx : x.isFinite = true) :
    (ceil x).isFinite = true ∧ value (ceil x) = ⌈value x⌉ := by
  rcases nonneg_or_neg hx with h | h
  · rw [takes_ceil.value_eq x h, natCast_ceil_eq_intCast_ceil h.value_nonneg]
    exact ⟨(takes_ceil.nonneg x h).finite, rfl⟩
  · have hfloor : ceil x = -floor (-x) := by rw [floor_neg, neg_neg_eq]
    rw [hfloor, isFinite_neg, value_neg, takes_floor.value_eq _ h,
      natCast_floor_eq_intCast_floor h.value_nonneg, value_neg, Int.floor_neg]
    refine ⟨(takes_floor.nonneg _ h).finite, ?_⟩
    push_cast
    exact neg_neg _

theorem isFinite_floor_and_value (hx : x.isFinite = true) :
    (floor x).isFinite = true ∧ value (floor x) = ⌊value x⌋ := by
  have hceil : floor x = -ceil (-x) := by rw [ceil_neg, neg_neg_eq]
  obtain ⟨hfinite, hvalue⟩ := isFinite_ceil_and_value ((isFinite_neg x).trans hx)
  rw [hceil, isFinite_neg, value_neg, hvalue, value_neg, Int.ceil_neg]
  refine ⟨hfinite, ?_⟩
  push_cast
  exact neg_neg _

theorem toInt_eq (hx : x.isFinite = true) (h : value x = k) : toInt x = k := by
  obtain ⟨neg, m, e, hparts⟩ := (isFinite_iff x).1 hx
  rw [value, hparts] at h
  have hnonneg : (0 : ℚ) ≤ m * 2 ^ e := by positivity
  rw [toInt, hparts]
  show (if neg then -(wholeBelow m e : Int) else wholeBelow m e) = k
  rw [wholeBelow_eq]
  cases neg with
  | false =>
    have hk : (m * 2 ^ e : ℚ) = k := by simpa using h
    have hfloor := natCast_floor_eq_intCast_floor hnonneg
    rw [hk, Int.floor_intCast] at hfloor
    rw [if_neg Bool.false_ne_true, hk]
    exact_mod_cast hfloor
  | true =>
    have hk : (m * 2 ^ e : ℚ) = (-k : Int) := by
      push_cast
      simp at h
      linarith
    have hfloor := natCast_floor_eq_intCast_floor hnonneg
    rw [hk, Int.floor_intCast] at hfloor
    rw [if_pos rfl, hk, neg_eq_iff_eq_neg]
    exact_mod_cast hfloor

theorem toInt64_eq (hx : x.isFinite = true) (h : value x = k) :
    toInt64 x = max minInt64 (min maxInt64 k) := by
  obtain ⟨neg, m, e, hparts⟩ := (isFinite_iff x).1 hx
  rw [toInt64, hparts, ← toInt_eq hx h]

theorem toInt64_ceil (hx : x.isFinite = true) :
    toInt64 (ceil x) = max minInt64 (min maxInt64 ⌈value x⌉) := by
  obtain ⟨hfinite, hvalue⟩ := isFinite_ceil_and_value hx
  exact toInt64_eq hfinite hvalue

theorem toInt64_floor (hx : x.isFinite = true) :
    toInt64 (floor x) = max minInt64 (min maxInt64 ⌊value x⌋) := by
  obtain ⟨hfinite, hvalue⟩ := isFinite_floor_and_value hx
  exact toInt64_eq hfinite hvalue

/-! ### The limits -/

theorem value_ofInt_maxInt64 : value (ofInt maxInt64) = 2 ^ 63 := by
  have hparts : parts (ofInt maxInt64) = .fin false (2 ^ 52) 11 := by decide +kernel
  rw [value_of_parts hparts]
  norm_num

theorem value_ofInt_minInt64 : value (ofInt minInt64) = -2 ^ 63 := by
  have hparts : parts (ofInt (2 ^ 63)) = .fin false (2 ^ 52) 11 := by decide +kernel
  have hneg : minInt64 = -2 ^ 63 := rfl
  rw [hneg, value_ofInt_neg, value_of_parts hparts]
  norm_num

theorem cast_maxInt64 : (maxInt64 : ℚ) = 2 ^ 63 - 1 := by
  norm_num [maxInt64]

theorem cast_minInt64 : (minInt64 : ℚ) = -2 ^ 63 := by
  norm_num [minInt64]

/-- No double lies between `2 ^ 63 - 1` and `2 ^ 63`. -/
theorem le_value_of_maxInt64_le (hx : x.isFinite = true) (h : maxInt64 ≤ value x) :
    2 ^ 63 ≤ value x :=
  value_ofInt_maxInt64 ▸ value_ofInt_le (by decide) hx h

theorem ceil_le_maxInt64_iff (hx : x.isFinite = true) :
    ⌈value x⌉ ≤ maxInt64 ↔ value x < 2 ^ 63 := by
  rw [Int.ceil_le]
  constructor
  · intro h
    rw [cast_maxInt64] at h
    linarith
  · intro h
    by_contra hlt
    exact absurd (le_value_of_maxInt64_le hx (not_le.1 hlt).le) (not_le.2 h)

theorem floor_lt_maxInt64_iff (hx : x.isFinite = true) :
    ⌊value x⌋ < maxInt64 ↔ value x < 2 ^ 63 := by
  rw [Int.floor_lt]
  constructor
  · intro h
    rw [cast_maxInt64] at h
    linarith
  · intro h
    by_contra hle
    exact absurd (le_value_of_maxInt64_le hx (not_lt.1 hle)) (not_le.2 h)

theorem minInt64_le_floor_iff : minInt64 ≤ ⌊value x⌋ ↔ -2 ^ 63 ≤ value x := by
  rw [Int.le_floor, cast_minInt64]

theorem minInt64_lt_ceil_iff : minInt64 < ⌈value x⌉ ↔ -2 ^ 63 < value x := by
  rw [Int.lt_ceil, cast_minInt64]

/-! ### The integers of a range -/

/-- The number lies between the two doubles. -/
def Within (min max : Float) (q : ℚ) : Prop :=
  value min ≤ q ∧ q ≤ value max

/-- An integer lies between the two doubles. -/
def HasInteger (min max : Float) : Prop :=
  ∃ k : Int, Within min max k

section
variable {min max : Float}

theorem hasInteger_iff : HasInteger min max ↔ ⌈value min⌉ ≤ ⌊value max⌋ := by
  constructor
  · rintro ⟨k, hmin, hmax⟩
    exact (Int.ceil_le.2 hmin).trans (Int.le_floor.2 hmax)
  · intro h
    exact ⟨⌈value min⌉, Int.le_ceil _, Int.le_floor.1 h⟩

/-- A double of `2 ^ 52` or more is an integer itself. -/
theorem exists_intCast_of_large (hx : x.isFinite = true) (h : 2 ^ 52 ≤ |value x|) :
    ∃ k : Int, value x = k := by
  rcases nonneg_or_neg hx with hn | hn
  · rw [abs_of_nonneg hn.value_nonneg] at h
    obtain ⟨k, hk⟩ := hn.whole_of_large h
    exact ⟨k, by rw [hk]; rfl⟩
  · rw [← abs_neg, ← value_neg, abs_of_nonneg hn.value_nonneg] at h
    obtain ⟨k, hk⟩ := hn.whole_of_large h
    refine ⟨-k, ?_⟩
    rw [value_neg] at hk
    push_cast
    linarith

theorem hasInteger_of_large (hmin : min.isFinite = true) (hmax : max.isFinite = true)
    (hle : value min ≤ value max) (h : 2 ^ 63 ≤ value max ∨ value min ≤ -2 ^ 63) :
    HasInteger min max := by
  rcases h with h | h
  · obtain ⟨k, hk⟩ := exists_intCast_of_large hmax (by linarith [le_abs_self (value max)])
    exact ⟨k, hk ▸ hle, hk.ge⟩
  · obtain ⟨k, hk⟩ := exists_intCast_of_large hmin (by linarith [neg_le_abs (value min)])
    exact ⟨k, hk.le, hk ▸ hle⟩

/-- Nothing is left of a range without integers, unless both its bounds are held at one limit. -/
theorem toInt64_floor_lt_iff (hmin : min.isFinite = true) (hmax : max.isFinite = true) :
    toInt64 (floor max) < toInt64 (ceil min) ↔
      ¬HasInteger min max ∧ value max < 2 ^ 63 ∧ -2 ^ 63 < value min := by
  rw [toInt64_ceil hmin, toInt64_floor hmax, hasInteger_iff, ← floor_lt_maxInt64_iff hmax,
    ← minInt64_lt_ceil_iff]
  simp only [minInt64, maxInt64]
  omega

theorem toInt64_ceil_le_iff (hmin : min.isFinite = true) (hmax : max.isFinite = true) :
    toInt64 (ceil min) ≤ toInt64 (floor max) ↔
      HasInteger min max ∨ 2 ^ 63 ≤ value max ∨ value min ≤ -2 ^ 63 := by
  rw [← not_lt, toInt64_floor_lt_iff hmin hmax, not_and_or, not_and_or, not_not, not_lt, not_lt]

/-- An integer between the bounds of a range, each of which is held within 64 bits. -/
structure Held (min max : Float) (k : Int) : Prop where
  min_finite : min.isFinite = true
  max_finite : max.isFinite = true
  low : toInt64 (ceil min) ≤ k
  high : k ≤ toInt64 (floor max)

namespace Held
variable (h : Held min max k)
include h

theorem held_low : Max.max minInt64 (Min.min maxInt64 ⌈value min⌉) ≤ k := by
  rw [← toInt64_ceil h.min_finite]
  exact h.low

theorem held_high : k ≤ Max.max minInt64 (Min.min maxInt64 ⌊value max⌋) := by
  rw [← toInt64_floor h.max_finite]
  exact h.high

theorem mem_int64 : minInt64 ≤ k ∧ k ≤ maxInt64 := by
  have hlow := h.held_low
  have hhigh := h.held_high
  simp only [minInt64, maxInt64] at hlow hhigh ⊢
  omega

theorem value_min_le (hmin : value min < 2 ^ 63) : value min ≤ k := by
  have hceil := (ceil_le_maxInt64_iff h.min_finite).2 hmin
  have hlow := h.held_low
  rw [← Int.ceil_le]
  omega

theorem le_value_max (hmax : -2 ^ 63 ≤ value max) : k ≤ value max := by
  have hfloor := minInt64_le_floor_iff.2 hmax
  have hhigh := h.held_high
  rw [← Int.le_floor]
  omega

theorem eq_maxInt64 (hmin : 2 ^ 63 ≤ value min) : k = maxInt64 := by
  have hceil := mt (ceil_le_maxInt64_iff h.min_finite).1 (not_lt.2 hmin)
  have hlow := h.held_low
  have hmem := h.mem_int64
  omega

theorem eq_minInt64 (hmax : value max < -2 ^ 63) : k = minInt64 := by
  have hfloor := mt minInt64_le_floor_iff.1 (not_le.2 hmax)
  have hhigh := h.held_high
  have hmem := h.mem_int64
  omega

/-- The integer is in the range if no bound of the range is beyond the limit on its side. -/
theorem within_iff : Within min max k ↔ value min < 2 ^ 63 ∧ -2 ^ 63 ≤ value max := by
  constructor
  · rintro ⟨hle, hge⟩
    have hlow : (minInt64 : ℚ) ≤ k := by exact_mod_cast h.mem_int64.1
    have hhigh : (k : ℚ) ≤ maxInt64 := by exact_mod_cast h.mem_int64.2
    rw [cast_minInt64] at hlow
    rw [cast_maxInt64] at hhigh
    constructor <;> linarith
  · rintro ⟨hmin, hmax⟩
    exact ⟨h.value_min_le hmin, h.le_value_max hmax⟩

theorem natAbs_le : k.natAbs ≤ 2 ^ 64 := by
  have hmem := h.mem_int64
  simp only [minInt64, maxInt64] at hmem
  omega

/-- The double that the integer becomes is in the range even at `2 ^ 63`, to which the upper limit is
rounded. -/
theorem within_value_iff : Within min max (value (ofInt k)) ↔
    value min ≤ 2 ^ 63 ∧ -2 ^ 63 ≤ value max := by
  obtain ⟨hlow, hhigh⟩ := h.mem_int64
  constructor
  · rintro ⟨hle, hge⟩
    have hhigh' : value (ofInt k) ≤ value (ofInt maxInt64) := by
      refine value_ofInt_le h.natAbs_le (isFinite_ofInt (by decide)) ?_
      have hcast : (k : ℚ) ≤ maxInt64 := by exact_mod_cast hhigh
      rw [cast_maxInt64] at hcast
      rw [value_ofInt_maxInt64]
      linarith
    have hlow' : value (ofInt minInt64) ≤ value (ofInt k) := by
      refine le_value_ofInt h.natAbs_le (isFinite_ofInt (by decide)) ?_
      rw [value_ofInt_minInt64, ← cast_minInt64]
      exact_mod_cast hlow
    rw [value_ofInt_maxInt64] at hhigh'
    rw [value_ofInt_minInt64] at hlow'
    exact ⟨hle.trans hhigh', hlow'.trans hge⟩
  · rintro ⟨hmin, hmax⟩
    refine ⟨?_, value_ofInt_le h.natAbs_le h.max_finite (h.le_value_max hmax)⟩
    rcases lt_or_eq_of_le hmin with hlt | heq
    · exact le_value_ofInt h.natAbs_le h.min_finite (h.value_min_le hlt)
    · rw [h.eq_maxInt64 heq.ge, value_ofInt_maxInt64, heq]

end Held

end

end FlowTree.Binary64
