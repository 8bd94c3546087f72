import FlowTree.Proofs.Binary64.Rounding

/-!
# Sums, products and quotients

The operations on doubles that are not negative round the exact result. A sum of two of them has a
relative error of at most half a last place, however small it is: below the normal doubles it is
exact.
-/

namespace FlowTree.Binary64
open Float.Model (Format UnpackedFloat totalExponent)
open Float.Model.UnpackedFloat (decreaseExponent roundWithAccuracy divCore accuracyOfFraction)

variable {x y : Float}

theorem nearest_of_value {q : ℚ} (hx : Nonneg x) (h : value x = q) : Nearest q x := by
  subst h
  refine ⟨hx, fun w _ => ?_, ?_⟩
  · rw [sub_self, abs_zero]
    exact abs_nonneg _
  · rw [sub_self, abs_zero]
    exact le_max_of_le_right (by positivity)

theorem nearest_of_zero {neg : Bool} (h : parts x = .fin neg 0 (-1074)) : Nearest 0 x := by
  have hcanonical := canonical_parts x
  rw [h] at hcanonical
  refine nearest_of_value ⟨(isFinite_iff x).2 ⟨_, _, _, h⟩, ?_⟩ ?_
  · rw [lt_iff (isNaN_eq_false h nofun) (isNaN_eq_false parts_zero nofun), key, key, h, parts_zero,
      Parts.key_zero hcanonical]
    decide
  · rw [value, h]
    simp

theorem Nearest.value_eq_zero (h : Nearest 0 x) : value x = 0 := by
  have hzero := h.nearest 0.0 nonneg_zero
  rw [value_zero, sub_zero, sub_zero, abs_zero] at hzero
  exact abs_nonpos_iff.1 hzero

/-- The error of a rounding, with more than enough for what is below the lowest place. -/
theorem Nearest.abs_sub_le {q : ℚ} (h : Nearest q x) (hq : 0 ≤ q) :
    |value x - q| ≤ q / 2 ^ 53 + 1 / 2 ^ 70 := by
  have hlast : (2 : ℚ) ^ (-1075 : Int) ≤ 1 / 2 ^ 70 := by
    rw [one_div, ← zpow_natCast, ← zpow_neg]
    exact zpow_le_zpow_right₀ (by norm_num) (by norm_num)
  refine h.error.trans (max_le (le_add_of_nonneg_right (by positivity)) ?_)
  exact hlast.trans (le_add_of_nonneg_left (by positivity))

namespace Rounds
variable {q : ℚ}

theorem of_isFinite (h : Rounds q x) (hx : x.isFinite = true) : Nearest q x := by
  refine h.resolve_right fun hinf => ?_
  obtain ⟨neg, m, e, hparts⟩ := (isFinite_iff x).1 hx
  rw [hparts] at hinf
  cases hinf.1

theorem of_le (h : Rounds q x) (hq : q ≤ 2 ^ (1023 : Int)) : Nearest q x :=
  h.resolve_right fun hinf => absurd hinf.2 (not_lt.2 hq)

end Rounds

theorem roundedAt_zero (s : Float.Model.UnpackedFloat.Sign) :
    RoundedAt 0 (-1074) 0 (.ofModel (.pack (.zero s))) := by
  obtain ⟨neg, rfl⟩ := exists_signOf s
  have hz := parts_pack (p := .fin neg 0 (-1074)) ⟨by omega, by omega, by omega, .inr rfl⟩
  have hnearest := nearest_of_zero hz
  refine ⟨⟨le_rfl, by positivity, .inl rfl⟩, by norm_num, fun _ => Even.zero, .inl ?_⟩
  exact ⟨hnearest.nonneg, hnearest.value_eq_zero.trans (by rw [Nat.cast_zero, zero_mul])⟩

/-- A double that is not negative is unpacked to a zero or to a positive mantissa. -/
theorem Nonneg.unpacked (h : Nonneg x) :
    (∃ s, (parts x).unpacked = .zero s ∧ value x = 0) ∨
      ∃ m e, ∃ hm : 0 < m, (parts x).unpacked = .finite .positive m e hm ∧
        value x = m * 2 ^ e ∧ (Parts.fin false m e).Canonical := by
  rcases h.cases with ⟨neg, hx⟩ | ⟨m, e, hm, hx⟩
  · exact .inl ⟨signOf neg, by rw [hx]; rfl, (nearest_of_zero hx).value_eq_zero⟩
  · exact .inr ⟨m, e, hm, by rw [hx, Parts.unpacked_of_pos false hm]; rfl, value_of_parts hx,
      hx ▸ canonical_parts x⟩

/-! ### Sums -/

theorem value_decreaseExponent (m : Nat) (e t : Int) :
    ((decreaseExponent m e t).1 : ℚ) * 2 ^ (decreaseExponent m e t).2 = m * 2 ^ e := by
  show ((m <<< (e - t).toNat : Nat) : ℚ) * 2 ^ (e - ((e - t).toNat : Int)) = _
  rw [Nat.shiftLeft_eq, Nat.cast_mul, mul_assoc, zpow_natCast_mul]
  congr 2
  omega

theorem totalExponent_decreaseExponent {m : Nat} (hm : 0 < m) (e t : Int) :
    totalExponent (decreaseExponent m e t).1 (decreaseExponent m e t).2 = totalExponent m e := by
  show ((m <<< (e - t).toNat).log2 : Int) + 1 + (e - ((e - t).toNat : Int)) = m.log2 + 1 + e
  rw [Nat.shiftLeft_eq, log2_mul_two_pow hm]
  omega

theorem rounds_normalize {m : Nat} (hm : 0 < m) (e : Int) (s : Float.Model.UnpackedFloat.Sign) :
    Rounds (m * 2 ^ e) (.ofModel (.pack (UnpackedFloat.normalize .binary64 m e s))) := by
  have hcompare : compare (m : Int) 0 = .gt := Int.compare_eq_gt.2 (by omega)
  obtain ⟨t, ht⟩ : ∃ t, Format.binary64.targetExponent (totalExponent m e) = t := ⟨_, rfl⟩
  have hexp : (decreaseExponent m e t).2 ≤ t := by
    show e - ((e - t).toNat : Int) ≤ t
    omega
  have hround : UnpackedFloat.normalize .binary64 m e s = roundWithAccuracy .binary64 .positive
      (decreaseExponent m e t).1 (decreaseExponent m e t).2 .exact := by
    unfold UnpackedFloat.normalize
    rw [hcompare, ← ht]
    rfl
  rw [hround]
  refine rounds_roundWithAccuracy ?_ ?_
  · rw [← value_decreaseExponent m e t, mul_div_cancel_right₀ _ (by positivity)]
    exact .exact _
  · rw [totalExponent_decreaseExponent hm, ht]
    exact hexp

theorem rounds_add (hx : Nonneg x) (hy : Nonneg y) : Rounds (value x + value y) (x + y) := by
  show Rounds _ (.ofModel (.pack (UnpackedFloat.add .binary64 x.toModel.unpack y.toModel.unpack)))
  rw [unpack_toModel, unpack_toModel]
  rcases hx.unpacked with ⟨s, hxu, hxv⟩ | ⟨m, e, hm, hxu, hxv, -⟩ <;>
    rcases hy.unpacked with ⟨s', hyu, hyv⟩ | ⟨m', e', hm', hyu, hyv, -⟩
  · obtain ⟨s'', hadd⟩ : ∃ s'', UnpackedFloat.add .binary64 (parts x).unpacked
        (parts y).unpacked = .zero s'' := by
      rw [hxu, hyu]
      cases s <;> cases s' <;> exact ⟨_, rfl⟩
    rw [hadd, hxv, hyv, add_zero]
    exact (roundedAt_zero s'').rounds
  · have hadd : UnpackedFloat.add .binary64 (parts x).unpacked (parts y).unpacked =
        (parts y).unpacked := by
      rw [hxu, hyu]
      rfl
    rw [hadd, ofModel_pack_parts, hxv, zero_add]
    exact .inl (nearest_of_value hy rfl)
  · have hadd : UnpackedFloat.add .binary64 (parts x).unpacked (parts y).unpacked =
        (parts x).unpacked := by
      rw [hxu, hyu]
      rfl
    rw [hadd, ofModel_pack_parts, hyv, add_zero]
    exact .inl (nearest_of_value hx rfl)
  · -- both mantissas are lined up at the lower of their last places
    obtain ⟨t, ht⟩ : ∃ t, min e e' = t := ⟨_, rfl⟩
    obtain ⟨n, hn⟩ : ∃ n, (decreaseExponent m e t).1 + (decreaseExponent m' e' t).1 = n := ⟨_, rfl⟩
    have hadd : UnpackedFloat.add .binary64 (parts x).unpacked (parts y).unpacked =
        UnpackedFloat.normalize .binary64 n t .positive := by
      rw [hxu, hyu, UnpackedFloat.add, ← hn, ht]
      rfl
    have hexp : (decreaseExponent m e t).2 = t ∧ (decreaseExponent m' e' t).2 = t := by
      constructor
      · show e - ((e - t).toNat : Int) = t
        omega
      · show e' - ((e' - t).toNat : Int) = t
        omega
    have hvalue := value_decreaseExponent m e t
    have hvalue' := value_decreaseExponent m' e' t
    rw [hexp.1] at hvalue
    rw [hexp.2] at hvalue'
    have hpos : 0 < n := by
      have : 0 < m <<< (e - t).toNat := by
        rw [Nat.shiftLeft_eq]
        positivity
      exact hn ▸ Nat.add_pos_left this _
    rw [hadd, hxv, hyv, ← hvalue, ← hvalue', ← add_mul, ← Nat.cast_add, hn]
    exact rounds_normalize hpos t .positive

section
variable {z : Float} (hx : Nonneg x) (hy : Nonneg y) (hz : Nearest (value x + value y) z)
include hx hy hz

/-- A sum is at least as large as its first term, and the second one counts at most twice. -/
theorem Nearest.add_mem : value x ≤ value z ∧ value z ≤ value x + 2 * value y := by
  have h := hz.nearest x hx
  rw [sub_add_cancel_left, abs_neg, abs_of_nonneg hy.value_nonneg, abs_le] at h
  constructor <;> linarith

theorem Nearest.add_error :
    |value z - (value x + value y)| ≤ (value x + value y) / 2 ^ 53 := by
  rcases le_or_gt (2 ^ (-1075 : Int)) ((value x + value y) / 2 ^ 53) with hle | hgt
  · exact hz.error.trans (max_le le_rfl hle)
  · -- so small a sum of doubles is a double
    obtain ⟨k, hk⟩ : ∃ k : Nat, value x + value y = k * 2 ^ (-1074 : Int) := by
      have hunits {w : Float} (hw : Nonneg w) : ∃ k : Nat, value w = k * 2 ^ (-1074 : Int) := by
        obtain ⟨m, e, ⟨-, he, -, -⟩, hvalue, -⟩ := hw.exists_parts
        refine ⟨m * 2 ^ (e + 1074).toNat, ?_⟩
        rw [hvalue, Nat.cast_mul, mul_assoc, zpow_natCast_mul]
        congr 2
        omega
      obtain ⟨k, hk⟩ := hunits hx
      obtain ⟨k', hk'⟩ := hunits hy
      exact ⟨k + k', by rw [hk, hk', Nat.cast_add, add_mul]⟩
    have hlt : k < 2 ^ 53 := by
      rw [div_lt_iff₀ (by norm_num), hk] at hgt
      have hlast : (2 : ℚ) ^ (-1075 : Int) ≤ 2 ^ (-1074 : Int) :=
        zpow_le_zpow_right₀ (by norm_num) (by norm_num)
      have hpow : (0 : ℚ) < 2 ^ (-1074 : Int) := by positivity
      have hmul : (k : ℚ) * 2 ^ (-1074 : Int) < 2 ^ 53 * 2 ^ (-1074 : Int) :=
        hgt.trans_le (by rw [mul_comm]; exact mul_le_mul_of_nonneg_left hlast (by norm_num))
      exact_mod_cast lt_of_mul_lt_mul_right hmul hpow.le
    have hw := parts_pack (p := .fin false k (-1074)) ⟨hlt, le_rfl, by omega, .inr rfl⟩
    have hexact := hz.nearest _ (nonneg_of_parts hw)
    rw [value_of_parts hw, hk, sub_self, abs_zero] at hexact
    rw [hk]
    exact hexact.trans (by positivity)

end

/-! ### Products -/

theorem roundedAt_mul (hx : Nonneg x) (hy : Nonneg y) :
    ∃ t R, RoundedAt (value x * value y) t R (x * y) := by
  show ∃ t R, RoundedAt _ t R
    (.ofModel (.pack (UnpackedFloat.mul .binary64 x.toModel.unpack y.toModel.unpack)))
  rw [unpack_toModel, unpack_toModel]
  rcases hx.unpacked with ⟨s, hxu, hxv⟩ | ⟨m, e, hm, hxu, hxv, -, he, -, hn⟩
  · obtain ⟨s', hmul⟩ : ∃ s', UnpackedFloat.mul .binary64 (parts x).unpacked (parts y).unpacked =
        .zero s' := by
      rcases hy.unpacked with ⟨s', hyu, -⟩ | ⟨m', e', hm', hyu, -⟩ <;> rw [hxu, hyu] <;>
        exact ⟨_, rfl⟩
    rw [hmul, hxv, zero_mul]
    exact ⟨_, _, roundedAt_zero s'⟩
  · rcases hy.unpacked with ⟨s, hyu, hyv⟩ | ⟨m', e', hm', hyu, hyv, -, he', -, hn'⟩
    · rw [hxu, hyu, hyv, mul_zero]
      exact ⟨_, _, roundedAt_zero _⟩
    · have hvalue : (m * 2 ^ e * (m' * 2 ^ e') : ℚ) = (m * m' : Nat) * 2 ^ (e + e') := by
        rw [zpow_add₀ two_ne_zero]
        push_cast
        ring
      have hmul : UnpackedFloat.mul .binary64 (parts x).unpacked (parts y).unpacked =
          roundWithAccuracy .binary64 .positive (m * m') (e + e') .exact := by
        rw [hxu, hyu]
        rfl
      rw [hmul, hxv, hyv, hvalue]
      refine roundedAt_roundWithAccuracy ?_ ?_
      · rw [mul_div_cancel_right₀ _ (by positivity)]
        exact .exact _
      · -- a product of mantissas has 53 places unless both are in the lowest place
        have hlog (h : 2 ^ 52 ≤ m * m') : 52 ≤ (m * m').log2 :=
          (Nat.le_log2 (Nat.mul_pos hm hm').ne').2 h
        rw [targetExponent_eq]
        rcases hn with hn | rfl
        · have := hlog (hn.trans (Nat.le_mul_of_pos_right m hm'))
          omega
        · rcases hn' with hn' | rfl
          · have := hlog (hn'.trans (Nat.le_mul_of_pos_left m' hm))
            omega
          · omega

theorem rounds_mul (hx : Nonneg x) (hy : Nonneg y) : Rounds (value x * value y) (x * y) := by
  obtain ⟨t, R, h⟩ := roundedAt_mul hx hy
  exact h.rounds

/-! ### Quotients -/

/-- The quotient of two mantissas is taken so far down that it has 53 places, unless its last place
is among the lowest. -/
theorem divCore_exponent_le {m m' : Nat} (hm : 0 < m) (hm' : 0 < m') (hlt : m < 2 ^ 53)
    (e e' : Int) : (divCore .binary64 m e m' e').2.1 ≤ Format.binary64.targetExponent
      (totalExponent (divCore .binary64 m e m' e').1 (divCore .binary64 m e m' e').2.1) := by
  obtain ⟨d, hd⟩ : ∃ d, (divCore .binary64 m e m' e').2.1 = d := ⟨_, rfl⟩
  have hmant : (divCore .binary64 m e m' e').1 = m * 2 ^ (e - e' - d).toNat / m' := by
    rw [← Nat.shiftLeft_eq, ← hd]
    rfl
  have hexp : d = min (e - e') (max ((m.log2 : Int) + 1 + e - (m'.log2 + 1 + e') - 53) (-1074)) :=
    hd.symm
  rw [hd, hmant, targetExponent_eq]
  by_cases hlow : d ≤ -1074
  · omega
  · have hlog : m.log2 ≤ 52 := log2_le hm hlt
    have hfull : 2 ^ 52 ≤ m * 2 ^ (e - e' - d).toNat / m' := by
      rw [Nat.le_div_iff_mul_le hm']
      calc 2 ^ 52 * m' ≤ 2 ^ 52 * 2 ^ (m'.log2 + 1) :=
            Nat.mul_le_mul_left _ Nat.lt_log2_self.le
        _ = 2 ^ (52 + (m'.log2 + 1)) := (Nat.pow_add ..).symm
        _ ≤ 2 ^ (m.log2 + (e - e' - d).toNat) := Nat.pow_le_pow_right two_pos (by omega)
        _ = 2 ^ m.log2 * 2 ^ (e - e' - d).toNat := Nat.pow_add ..
        _ ≤ m * 2 ^ (e - e' - d).toNat := Nat.mul_le_mul_right _ (Nat.log2_self_le hm.ne')
    have := (Nat.le_log2 (by omega)).2 hfull
    omega

theorem roundedAt_div (hx : Nonneg x) (hy : Nonneg y) (hpos : 0 < value y) :
    ∃ t R, RoundedAt (value x / value y) t R (x / y) := by
  show ∃ t R, RoundedAt _ t R
    (.ofModel (.pack (UnpackedFloat.div .binary64 x.toModel.unpack y.toModel.unpack)))
  rw [unpack_toModel, unpack_toModel]
  rcases hy.unpacked with ⟨s, hyu, hyv⟩ | ⟨m', e', hm', hyu, hyv, -⟩
  · exact absurd hyv hpos.ne'
  · rcases hx.unpacked with ⟨s, hxu, hxv⟩ | ⟨m, e, hm, hxu, hxv, hlt, -⟩
    · rw [hxu, hyu, hxv, zero_div]
      exact ⟨_, _, roundedAt_zero _⟩
    · obtain ⟨d, hd⟩ : ∃ d, (divCore .binary64 m e m' e').2.1 = d := ⟨_, rfl⟩
      obtain ⟨n, hn⟩ : ∃ n, m * 2 ^ (e - e' - d).toNat = n := ⟨_, rfl⟩
      have hcore : divCore .binary64 m e m' e' = (n / m', d, accuracyOfFraction (n % m') m') := by
        rw [← hn, ← Nat.shiftLeft_eq, ← hd]
        rfl
      have hdiv : UnpackedFloat.div .binary64 (parts x).unpacked (parts y).unpacked =
          roundWithAccuracy .binary64 .positive (n / m') d (accuracyOfFraction (n % m') m') := by
        rw [hxu, hyu, UnpackedFloat.div, hcore]
        rfl
      have hle : d ≤ e - e' := by
        rw [← hd]
        exact min_le_left ..
      have hvalue : (m * 2 ^ e / (m' * 2 ^ e') / 2 ^ d : ℚ) = n / m' := by
        have hsplit : (2 : ℚ) ^ e = 2 ^ (e - e' - d).toNat * (2 ^ e' * 2 ^ d) := by
          rw [← zpow_natCast, ← zpow_add₀ two_ne_zero, ← zpow_add₀ two_ne_zero]
          congr 1
          omega
        have hne : (m' : ℚ) ≠ 0 := by exact_mod_cast hm'.ne'
        rw [hsplit, ← hn]
        push_cast
        field_simp
      have hexp := divCore_exponent_le hm hm' hlt e e'
      rw [hcore] at hexp
      rw [hdiv, hxv, hyv]
      refine roundedAt_roundWithAccuracy ?_ hexp
      rw [hvalue]
      exact .quotient n hm'

theorem rounds_div (hx : Nonneg x) (hy : Nonneg y) (hpos : 0 < value y) :
    Rounds (value x / value y) (x / y) := by
  obtain ⟨t, R, h⟩ := roundedAt_div hx hy hpos
  exact h.rounds

end FlowTree.Binary64
