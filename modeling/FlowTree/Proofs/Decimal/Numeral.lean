import FlowTree.Decimal.Numeral
import FlowTree.Proofs.Binary64.Ratio

/-!
# The values of numerals

A numeral is a rational number, `Numeral.value`, under a sign, and the double nearest to it depends
on these two only: it does not matter how many zeros end the digits or where the last place is. A
numeral that is the value of a double is read as this double.
-/

namespace FlowTree.Decimal
open Binary64

theorem digitCount_pos (n : Nat) : 0 < digitCount n :=
  Nat.length_toDigits_pos

theorem lt_pow_digitCount (n : Nat) : n < 10 ^ digitCount n :=
  (Nat.length_toDigits_le_iff (by decide) (digitCount_pos n)).1 le_rfl

theorem pow_digitCount_le {n : Nat} (hn : 0 < n) : 10 ^ (digitCount n - 1) ≤ n := by
  rcases Nat.eq_zero_or_pos (digitCount n - 1) with hzero | hpos
  · rw [hzero]
    exact hn
  · by_contra hlt
    have hle := (Nat.length_toDigits_le_iff (by decide) hpos).2 (Nat.lt_of_not_le hlt)
    have hlen : digitCount n = (Nat.toDigits 10 n).length := rfl
    omega

namespace Numeral

/-- The number that a numeral writes, without its sign. -/
def value (n : Numeral) : ℚ :=
  n.digits * 10 ^ n.exp

/-- The first place above the digits. -/
def top (n : Numeral) : Int :=
  n.exp + digitCount n.digits

variable {n n' : Numeral}

theorem value_eq_zero_iff (n : Numeral) : n.value = 0 ↔ n.digits = 0 := by
  rw [value, mul_eq_zero, or_iff_left (by positivity), Nat.cast_eq_zero]

theorem value_mem (h : n.digits ≠ 0) : (10 : ℚ) ^ (n.top - 1) ≤ n.value ∧ n.value < 10 ^ n.top := by
  have hpow : (0 : ℚ) < 10 ^ n.exp := by positivity
  have hcount := digitCount_pos n.digits
  have hlow : ((10 ^ (digitCount n.digits - 1) : Nat) : ℚ) ≤ n.digits := by
    exact_mod_cast pow_digitCount_le (Nat.pos_of_ne_zero h)
  have hhigh : (n.digits : ℚ) < (10 ^ digitCount n.digits : Nat) := by
    exact_mod_cast lt_pow_digitCount n.digits
  constructor
  · calc (10 : ℚ) ^ (n.top - 1) = (10 ^ (digitCount n.digits - 1) : Nat) * 10 ^ n.exp := by
          rw [Nat.cast_pow, Nat.cast_ofNat, ← zpow_natCast, ← zpow_add₀ (by norm_num), top]
          congr 1
          omega
      _ ≤ n.value := mul_le_mul_of_nonneg_right hlow hpow.le
  · calc n.value < (10 ^ digitCount n.digits : Nat) * 10 ^ n.exp :=
          mul_lt_mul_of_pos_right hhigh hpow
      _ = 10 ^ n.top := by
          rw [Nat.cast_pow, Nat.cast_ofNat, ← zpow_natCast, ← zpow_add₀ (by norm_num), top,
            add_comm]

/-- The first place above the digits is known from the value. -/
theorem top_congr (h : n.digits ≠ 0) (h' : n'.digits ≠ 0) (hvalue : n.value = n'.value) :
    n.top = n'.top := by
  have hle {n n' : Numeral} (h : n.digits ≠ 0) (h' : n'.digits ≠ 0) (hvalue : n.value = n'.value) :
      n.top ≤ n'.top := by
    have hlt := (value_mem h).1.trans_lt (hvalue ▸ (value_mem h').2)
    have := (zpow_lt_zpow_iff_right₀ (by norm_num : (1 : ℚ) < 10)).1 hlt
    omega
  exact le_antisymm (hle h h' hvalue) (hle h' h hvalue.symm)

/-! ### The nearest double -/

theorem toFloat_of_zero (h : n.digits = 0) : n.toFloat = ofRatio n.neg 0 1 :=
  if_pos (.inl h)

theorem toFloat_of_low (h : n.top < -330) : n.toFloat = ofRatio n.neg 0 1 :=
  if_pos (.inr h)

theorem toFloat_of_high (h : n.digits ≠ 0) (hhigh : 310 < n.top) :
    n.toFloat = infinity n.neg := by
  have hlow : ¬(n.digits = 0 ∨ n.top < -330) := by omega
  exact (if_neg hlow).trans (if_pos hhigh)

/-- Within these bounds the quotient that is rounded is the value of the numeral. -/
theorem toFloat_of_mem (h : n.digits ≠ 0) (hlow : -330 ≤ n.top) (hhigh : n.top ≤ 310) :
    ∃ num den : Nat, 0 < den ∧ (num / den : ℚ) = n.value ∧ n.toFloat = ofRatio n.neg num den := by
  have hlow' : ¬(n.digits = 0 ∨ n.top < -330) := by omega
  have hhigh' : ¬310 < n.top := by omega
  have htop : n.toFloat = if 0 ≤ n.exp then ofRatio n.neg (n.digits * Nat.pow 10 n.exp.toNat) 1
      else ofRatio n.neg n.digits (Nat.pow 10 (-n.exp).toNat) :=
    (if_neg hlow').trans (if_neg hhigh')
  rw [htop, value]
  split
  · obtain ⟨k, hk⟩ : ∃ k : Nat, n.exp = k := ⟨n.exp.toNat, by omega⟩
    refine ⟨_, _, Nat.one_pos, ?_, rfl⟩
    rw [hk, Int.toNat_natCast, zpow_natCast, Nat.pow_eq]
    push_cast
    ring
  · obtain ⟨k, hk⟩ : ∃ k : Nat, n.exp = -k := ⟨(-n.exp).toNat, by omega⟩
    refine ⟨_, Nat.pow 10 (-n.exp).toNat, Nat.pow_pos (by decide), ?_, rfl⟩
    rw [hk, neg_neg, Int.toNat_natCast, zpow_neg, zpow_natCast, Nat.pow_eq, div_eq_mul_inv]
    push_cast
    rfl

/-- Two numerals for one number are one double. -/
theorem toFloat_congr (hneg : n.neg = n'.neg) (hvalue : n.value = n'.value) :
    n.toFloat = n'.toFloat := by
  by_cases h : n.digits = 0
  · have h' : n'.digits = 0 := by rwa [← value_eq_zero_iff, ← hvalue, value_eq_zero_iff]
    rw [toFloat_of_zero h, toFloat_of_zero h', hneg]
  · have h' : n'.digits ≠ 0 := by rwa [ne_eq, ← value_eq_zero_iff, ← hvalue, value_eq_zero_iff]
    have htop := top_congr h h' hvalue
    by_cases hlow : n.top < -330
    · rw [toFloat_of_low hlow, toFloat_of_low (htop ▸ hlow), hneg]
    · by_cases hhigh : 310 < n.top
      · rw [toFloat_of_high h hhigh, toFloat_of_high h' (htop ▸ hhigh), hneg]
      · obtain ⟨num, den, hd, hratio, hfloat⟩ :=
          toFloat_of_mem h (Int.not_lt.1 hlow) (Int.not_lt.1 hhigh)
        obtain ⟨num', den', hd', hratio', hfloat'⟩ :=
          toFloat_of_mem h' (htop ▸ Int.not_lt.1 hlow) (htop ▸ Int.not_lt.1 hhigh)
        rw [hfloat, hfloat', ← hneg]
        exact ofRatio_congr n.neg hd hd' (by rw [hratio, hratio', hvalue])

/-- The sign of a numeral is that of its double. -/
theorem toFloat_negative (digits : Nat) (exp : Int) :
    (⟨true, digits, exp⟩ : Numeral).toFloat = -(⟨false, digits, exp⟩ : Numeral).toFloat := by
  unfold toFloat
  simp only []
  split
  · exact ofRatio_true 0 1
  · split
    · rfl
    · split
      · exact ofRatio_true _ _
      · exact ofRatio_true _ _

/-! ### Values of doubles -/

/-- Positive doubles are far from the ends of what is read in full. -/
theorem top_of_canonical {m : Nat} {e : Int} (hm : 0 < m) (hc : (Parts.fin n.neg m e).Canonical)
    (hvalue : n.value = m * 2 ^ e) : n.digits ≠ 0 ∧ -330 ≤ n.top ∧ n.top ≤ 310 := by
  obtain ⟨hlt, he, he', -⟩ := hc
  have hm' : (1 : ℚ) ≤ m := by exact_mod_cast hm
  have h : n.digits ≠ 0 := by
    rw [ne_eq, ← value_eq_zero_iff, hvalue]
    positivity
  obtain ⟨hlow, hhigh⟩ := value_mem h
  rw [hvalue] at hlow hhigh
  have hten : (1 : ℚ) < 10 := by norm_num
  refine ⟨h, ?_, ?_⟩
  · have hleast : (10 : ℚ) ^ (-324 : Int) < 10 ^ n.top := by
      calc (10 : ℚ) ^ (-324 : Int) ≤ 2 ^ (-1074 : Int) := by
            rw [zpow_neg, zpow_neg]
            refine inv_anti₀ (by positivity) ?_
            exact_mod_cast (by decide +kernel : (2 ^ 1074 : Nat) ≤ 10 ^ 324)
        _ ≤ 2 ^ e := zpow_le_zpow_right₀ (by norm_num) he
        _ ≤ m * 2 ^ e := le_mul_of_one_le_left (by positivity) hm'
        _ < 10 ^ n.top := hhigh
    have := (zpow_lt_zpow_iff_right₀ hten).1 hleast
    omega
  · have hgreatest : (10 : ℚ) ^ (n.top - 1) < 10 ^ (309 : Int) := by
      calc (10 : ℚ) ^ (n.top - 1) ≤ m * 2 ^ e := hlow
        _ ≤ ((2 ^ 53 : Nat) : ℚ) * 2 ^ (971 : Int) := by
            refine mul_le_mul ?_ (zpow_le_zpow_right₀ (by norm_num) he') (by positivity)
              (by positivity)
            exact_mod_cast hlt.le
        _ = 2 ^ (1024 : Int) := zpow_natCast_mul 53 971
        _ < 10 ^ (309 : Int) := by
            exact_mod_cast (by decide +kernel : (2 ^ 1024 : Nat) < 10 ^ 309)
    have := (zpow_lt_zpow_iff_right₀ hten).1 hgreatest
    omega

/-- A numeral that is the value of a double is read as this double. -/
theorem parts_toFloat {m : Nat} {e : Int} (hc : (Parts.fin n.neg m e).Canonical)
    (hvalue : n.value = m * 2 ^ e) : parts n.toFloat = .fin n.neg m e := by
  rcases Nat.eq_zero_or_pos m with rfl | hm
  · have h : n.digits = 0 := by
      rw [← value_eq_zero_iff, hvalue, Nat.cast_zero, zero_mul]
    rw [toFloat_of_zero h]
    exact parts_ofRatio Nat.one_pos hc (by simp)
  · obtain ⟨h, hlow, hhigh⟩ := top_of_canonical hm hc hvalue
    obtain ⟨num, den, hd, hratio, hfloat⟩ := toFloat_of_mem h hlow hhigh
    rw [hfloat]
    exact parts_ofRatio hd hc (hratio.trans hvalue)

/-! ### Integers -/

theorem parts_ofRatio_of_large (neg : Bool) {n k : Nat} (hk : 310 ≤ k) (h : 10 ^ k ≤ n) :
    parts (ofRatio neg n 1) = .inf neg := by
  have hn : 0 < n := Nat.lt_of_lt_of_le (Nat.pow_pos (by decide)) h
  have hplace := (lastPlace_spec hn Nat.one_pos).lt
  have hlarge : (2 : ℚ) ^ (1029 : Int) < 2 ^ (lastPlace n 1 + 53) := by
    calc (2 : ℚ) ^ (1029 : Int) ≤ 10 ^ (310 : Int) := by
          exact_mod_cast (by decide +kernel : (2 ^ 1029 : Nat) ≤ 10 ^ 310)
      _ ≤ 10 ^ (k : Int) := zpow_le_zpow_right₀ (by norm_num) (by exact_mod_cast hk)
      _ ≤ n := by exact_mod_cast h
      _ < 2 ^ (lastPlace n 1 + 53) := by simpa using hplace
  have hexp := (zpow_lt_zpow_iff_right₀ (by norm_num : (1 : ℚ) < 2)).1 hlarge
  have hbits : magnitudeBits n 1 = 2047 * 2 ^ 52 := by
    unfold magnitudeBits
    simp only [if_neg hn.ne', Nat.shiftLeft_eq]
    refine Nat.min_eq_right ?_
    omega
  have hword : neg.toNat * 2 ^ 63 + magnitudeBits n 1 = (Parts.inf neg).word := by
    rw [hbits]
    rfl
  rw [ofRatio_eq, hword, parts_ofBits (p := .inf neg) trivial]

theorem parts_infinity (neg : Bool) : parts (infinity neg) = .inf neg := by
  cases neg <;> decide +kernel

/-- An integer without an exponent is the double nearest to it, however long it is. -/
theorem toFloat_whole (neg : Bool) (digits : Nat) :
    (⟨neg, digits, 0⟩ : Numeral).toFloat = ofRatio neg digits 1 := by
  have htop : (⟨neg, digits, 0⟩ : Numeral).top = digitCount digits := zero_add _
  by_cases hzero : digits = 0
  · rw [toFloat_of_zero hzero, hzero]
  · by_cases hhigh : 310 < digitCount digits
    · rw [toFloat_of_high hzero (by omega)]
      have hlarge := parts_ofRatio_of_large neg (Nat.le_sub_one_of_lt hhigh)
        (pow_digitCount_le (Nat.pos_of_ne_zero hzero))
      exact parts_inj ((parts_infinity neg).trans hlarge.symm)
    · obtain ⟨num, den, hd, hratio, hfloat⟩ :=
        toFloat_of_mem (n := ⟨neg, digits, 0⟩) hzero (by omega) (by omega)
      rw [hfloat]
      refine ofRatio_congr neg hd Nat.one_pos ?_
      rw [hratio, value, zpow_zero, mul_one, Nat.cast_one, div_one]

end Numeral

end FlowTree.Decimal
