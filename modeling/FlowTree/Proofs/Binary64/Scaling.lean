import FlowTree.Proofs.Binary64.HalfEven
import FlowTree.Proofs.Binary64.Sign

/-!
# Scaling by powers of ten

A whole number that is divided by a power of ten and multiplied by it again is missed by less than a
unit if it has 52 places, so the same whole number is found again unless the product lies on the
wrong side of it. Different whole numbers of that size have different quotients. A larger double is
whole, and dividing again what its quotient was multiplied to gives the same quotient: nothing nearer
to it is a double, and a tie would need a mantissa of more than 53 places.
-/

namespace FlowTree.Binary64
open Float.Model (UnpackedFloat)

/-! ### Powers of ten -/

theorem value_of_zero {x : Float} (h : x = 0.0 ∨ x = -0.0) : value x = 0 := by
  rcases h with rfl | rfl
  · exact value_zero
  · rw [value_neg, value_zero, neg_zero]

theorem ten_pow_pos (d : Nat) : (0 : ℚ) < 10 ^ d := by
  positivity

theorem ten_pow_eq (d : Nat) : (10 : ℚ) ^ d = 5 ^ d * 2 ^ d := by
  rw [← mul_pow]
  norm_num

theorem abs_mul_ten_pow_sub (a b : ℚ) (d : Nat) :
    |a * 10 ^ d - b| = |a - b / 10 ^ d| * 10 ^ d := by
  rw [← abs_of_pos (ten_pow_pos d), ← abs_mul, sub_mul, abs_of_pos (ten_pow_pos d),
    div_mul_cancel₀ _ (ten_pow_pos d).ne']

structure IsTenPow (i : Nat) (x : Float) : Prop where
  nonneg : Nonneg x
  eq_ten_pow : value x = 10 ^ i

/-- A power of ten that a rounding scales by. -/
structure Scale (d : Nat) (f : Float) : Prop extends IsTenPow d f where
  le : d ≤ 15

namespace IsTenPow
variable {x y : Float} {n i j : Nat}

/-- A product of powers of ten is exact as long as its odd factor is a mantissa. -/
theorem mul (hx : IsTenPow i x) (hy : IsTenPow j y) (hle : i + j ≤ 22) :
    IsTenPow (i + j) (x * y) := by
  obtain ⟨t, R, h⟩ := roundedAt_mul hx.nonneg hy.nonneg
  rw [hx.eq_ten_pow, hy.eq_ten_pow, ← pow_add] at h
  have h5 : 5 ^ (i + j) < 2 ^ 53 := (Nat.pow_le_pow_right (by norm_num) hle).trans_lt (by norm_num)
  have hq : (10 : ℚ) ^ (i + j) = (5 ^ (i + j) : Nat) * 2 ^ ((i + j : Nat) : Int) := by
    rw [ten_pow_eq, zpow_natCast]
    push_cast
    rfl
  have hsmall : (10 : ℚ) ^ (i + j) ≤ 2 ^ (1023 : Int) := by
    calc (10 : ℚ) ^ (i + j) ≤ 10 ^ 22 := pow_le_pow_right₀ (by norm_num) hle
      _ ≤ 2 ^ (74 : Int) := by norm_num
      _ ≤ 2 ^ (1023 : Int) := zpow_le_zpow_right₀ (by norm_num) (by norm_num)
  obtain ⟨hnonneg, hvalue⟩ := h.value_eq (h.rounds.of_le hsmall).nonneg.finite
  exact ⟨hnonneg, hvalue.trans (h.exact h5 (by omega) hq)⟩

theorem ite_mul (hx : IsTenPow i x) (hy : IsTenPow j y) (hle : i + j * n ≤ 22) :
    IsTenPow (i + j * (n % 2)) (if n % 2 = 1 then x * y else x) := by
  rcases Nat.mod_two_eq_zero_or_one n with hn | hn
  · rw [hn, if_neg Nat.zero_ne_one]
    exact hx
  · have hmul : j * (n % 2) ≤ j * n := Nat.mul_le_mul_left j (Nat.mod_le n 2)
    rw [hn, Nat.mul_one] at hmul
    rw [hn, if_pos rfl, Nat.mul_one]
    exact hx.mul hy (by omega)

theorem mulPow (hx : IsTenPow i x) (hy : IsTenPow j y) (hle : i + j * n ≤ 22) :
    IsTenPow (i + j * n) (mulPow x y n) := by
  fun_induction Binary64.mulPow x y n generalizing i j with
  | case1 x y n z =>
    rename_i hn
    have hbit : n % 2 = n := by omega
    have h : IsTenPow (i + j * (n % 2)) z := hx.ite_mul hy hle
    rwa [hbit] at h
  | case2 x y n z hn =>
    rename_i ih
    have hexp : i + j * (n % 2) + (j + j) * (n / 2) = i + j * n := by
      conv_rhs => rw [← Nat.mod_add_div n 2]
      ring
    have hmul : j * 2 ≤ j * n := Nat.mul_le_mul_left j (by omega)
    rw [← hexp]
    exact ih (hx.ite_mul hy hle) (hy.mul hy (by omega)) (hexp.trans_le hle)

end IsTenPow

theorem isTenPow_powTen {d : Nat} (hd : d ≤ 22) : IsTenPow d (powTen d) := by
  have hone : parts 1.0 = .fin false (2 ^ 52) (-52) := by
    decide +kernel
  have hten : parts 10.0 = .fin false (10 * 2 ^ 49) (-49) := by
    decide +kernel
  have h1 : IsTenPow 0 1.0 :=
    ⟨nonneg_of_parts hone, by rw [value_of_parts hone]; norm_num⟩
  have h10 : IsTenPow 1 10.0 :=
    ⟨nonneg_of_parts hten, by rw [value_of_parts hten]; norm_num⟩
  have h := h1.mulPow (n := d) h10 (by omega)
  rwa [Nat.zero_add, Nat.one_mul] at h

theorem scale_powTen {d : Nat} (hd : d ≤ 15) : Scale d (powTen d) :=
  ⟨isTenPow_powTen (hd.trans (by norm_num)), hd⟩

/-! ### Doubles near a quotient -/

/-- A double that is as near to a number as `R` last places, which has all 53 places, is the same
one, unless the number is half way to the next one or `R` is the least such mantissa. -/
theorem neighbour {z : Float} (hz : Nonneg z) {R : Nat} {t : Int} {v : ℚ} (hR : 2 ^ 52 ≤ R)
    (hRv : |(R : ℚ) - v| ≤ 1 / 2) (hnear : |value z - v * 2 ^ t| ≤ |R * 2 ^ t - v * 2 ^ t|) :
    value z = R * 2 ^ t ∨ R = 2 ^ 52 ∨ ∃ O : Nat, O % 2 = 1 ∧ 2 ^ 53 ≤ O + 1 ∧ 2 * v = O := by
  have hpow : (0 : ℚ) < 2 ^ t := by positivity
  have hscaled : |R * 2 ^ t - v * 2 ^ t| = |R - v| * 2 ^ t := by
    rw [← sub_mul, abs_mul, abs_of_pos hpow]
  rw [hscaled] at hnear
  have hR' := abs_le.1 hRv
  obtain ⟨m, e, ⟨hm, -, -, -⟩, hvalue, -⟩ := hz.exists_parts
  rcases le_or_gt t e with hle | hgt
  · -- the double is a number of last places, too
    obtain ⟨i, rfl⟩ : ∃ i : Nat, e = t + i := ⟨(e - t).toNat, by omega⟩
    have hk : value z = (m * 2 ^ i : Nat) * 2 ^ t := by
      rw [hvalue, zpow_add₀ two_ne_zero, zpow_natCast]
      push_cast
      ring
    generalize m * 2 ^ i = k at hk
    rw [hk, ← sub_mul, abs_mul, abs_of_pos hpow, mul_le_mul_iff_left₀ hpow] at hnear
    have hk' := abs_le.1 (hnear.trans hRv)
    rw [hk]
    rcases Nat.lt_trichotomy k R with hlt | rfl | hlt
    · have hone : (k : ℚ) + 1 ≤ R := by exact_mod_cast hlt
      have hnext : R ≤ k + 1 := by
        have : (R : ℚ) ≤ k + 1 := by linarith
        exact_mod_cast this
      refine .inr (.inr ⟨2 * k + 1, by omega, by omega, ?_⟩)
      push_cast
      linarith
    · exact .inl rfl
    · have hone : (R : ℚ) + 1 ≤ k := by exact_mod_cast hlt
      refine .inr (.inr ⟨2 * R + 1, by omega, by omega, ?_⟩)
      push_cast
      linarith
  · -- the double is below all mantissas of 53 places
    refine .inr (.inl ?_)
    by_contra hne
    have hone : (2 ^ 52 : ℚ) + 1 ≤ R := by
      have : 2 ^ 52 + 1 ≤ R := by omega
      exact_mod_cast this
    have hlow : value z < 2 ^ 52 * 2 ^ t := by
      calc value z = m * 2 ^ e := hvalue
        _ < 2 ^ ((53 : Nat) + e) := mul_zpow_lt hm e
        _ ≤ 2 ^ ((52 : Nat) + t) := zpow_le_zpow_right₀ (by norm_num) (by push_cast; omega)
        _ = 2 ^ 52 * 2 ^ t := by rw [← zpow_natCast_mul, Nat.cast_pow, Nat.cast_two]
    have hfar := (abs_le.1 (hnear.trans (mul_le_mul_of_nonneg_right hRv hpow.le))).1
    have hv := mul_le_mul_of_nonneg_right (sub_le_comm.1 hR'.2) hpow.le
    have hmore := mul_le_mul_of_nonneg_right hone hpow.le
    linarith

/-- A double that is odd but for powers of two has the odd number in its mantissa. -/
theorem odd_le {O m : Nat} {a b : Int} (hO : O % 2 = 1)
    (h : (O * 2 ^ a : ℚ) = m * 2 ^ b) : O ≤ m := by
  rcases le_or_gt b a with hle | hgt
  · obtain ⟨i, rfl⟩ : ∃ i : Nat, a = b + i := ⟨(a - b).toNat, by omega⟩
    rw [zpow_add₀ two_ne_zero, zpow_natCast, mul_comm (2 ^ b : ℚ), ← mul_assoc,
      mul_left_inj' (by positivity)] at h
    have hmul : O * 2 ^ i = m := by exact_mod_cast h
    rw [← hmul]
    exact Nat.le_mul_of_pos_right O (Nat.two_pow_pos i)
  · -- the odd number would be a multiple of two
    obtain ⟨i, rfl⟩ : ∃ i : Nat, b = a + (i + 1 : Nat) := ⟨(b - a - 1).toNat, by omega⟩
    rw [zpow_add₀ two_ne_zero, zpow_natCast, mul_comm (2 ^ a : ℚ), ← mul_assoc,
      mul_left_inj' (by positivity)] at h
    have hmul : O = m * 2 ^ (i + 1) := by exact_mod_cast h
    rw [hmul, pow_succ, ← mul_assoc, Nat.mul_mod_left] at hO
    cases hO

/-- No quotient is half way between two mantissas of 53 places. -/
theorem div_ne_half {d O : Nat} {x : Float} (hd : 1 ≤ d) (hx : Nonneg x) (hodd : O % 2 = 1)
    (hO : 2 ^ 53 ≤ O + 1) (t : Int) : 2 * (value x / 10 ^ d / 2 ^ t) ≠ O := by
  intro htie
  obtain ⟨m, e, ⟨hm, -, -, -⟩, hvalue, -⟩ := hx.exists_parts
  have hmul : ((5 ^ d * O : Nat) * 2 ^ (t + d) : ℚ) = m * 2 ^ (e + 1) := by
    rw [hvalue] at htie
    rw [zpow_add_one₀ two_ne_zero, ← mul_assoc, zpow_add₀ two_ne_zero, zpow_natCast, Nat.cast_mul,
      ← htie]
    push_cast
    rw [ten_pow_eq]
    field_simp
  have hodd' : 5 ^ d * O % 2 = 1 :=
    Nat.odd_iff.1 ((Odd.pow (by decide : Odd 5)).mul (Nat.odd_iff.2 hodd))
  have hle := odd_le hodd' hmul
  have h5 : 5 * O ≤ 5 ^ d * O := Nat.mul_le_mul_right O (Nat.le_self_pow (by omega) 5)
  omega

namespace Scale
variable {d n : Nat} {f x y : Float} (hf : Scale d f)
include hf

/-! ### The two operations -/

theorem roundedAt_mul (hx : Nonneg x) :
    ∃ t R, RoundedAt (value x * 10 ^ d) t R (x * f) := by
  have h := Binary64.roundedAt_mul hx hf.nonneg
  rwa [hf.eq_ten_pow] at h

theorem roundedAt_div (hx : Nonneg x) :
    ∃ t R, RoundedAt (value x / 10 ^ d) t R (x / f) := by
  have h := Binary64.roundedAt_div hx hf.nonneg (by rw [hf.eq_ten_pow]; exact ten_pow_pos d)
  rwa [hf.eq_ten_pow] at h

theorem isFinite_mul_iff (hx : Nonneg x) :
    (x * f).isFinite = true ↔ value x * 10 ^ d < overflow := by
  obtain ⟨t, R, h⟩ := hf.roundedAt_mul hx
  exact h.isFinite_iff_lt_overflow

theorem nearest_mul (hx : Nonneg x) (hs : (x * f).isFinite = true) :
    Nearest (value x * 10 ^ d) (x * f) := by
  obtain ⟨t, R, h⟩ := hf.roundedAt_mul hx
  exact h.rounds.of_isFinite hs

theorem parts_inf_mul (hx : Nonneg x) (hs : (x * f).isFinite ≠ true) :
    parts (x * f) = .inf false := by
  obtain ⟨t, R, h⟩ := hf.roundedAt_mul hx
  exact (h.result.resolve_left fun hnonneg => hs hnonneg.1.finite).1

theorem parts_inf_div (hx : parts x = .inf false) : parts (x / f) = .inf false := by
  have hdiv : UnpackedFloat.div .binary64 (parts x).unpacked (parts f).unpacked =
      (parts x).unpacked := by
    rcases hf.nonneg.unpacked with ⟨s, -, hzero⟩ | ⟨m, e, hm, hfu, -⟩
    · exact absurd (hf.eq_ten_pow.symm.trans hzero) (ten_pow_pos d).ne'
    · rw [hx, hfu]
      rfl
  show parts (.ofModel (.pack (UnpackedFloat.div .binary64 x.toModel.unpack f.toModel.unpack))) = _
  rw [unpack_toModel, unpack_toModel, hdiv, ofModel_pack_parts, hx]

theorem nonneg_div (hx : Nonneg x) : Nonneg (x / f) := by
  obtain ⟨t, R, h⟩ := hf.roundedAt_div hx
  have hle : value x / 10 ^ d ≤ value x :=
    div_le_self hx.value_nonneg (one_le_pow₀ (by norm_num))
  refine (h.result.resolve_right fun hinf => ?_).1
  exact absurd ((h.le_of_le hx hle).trans_lt hx.value_lt) (not_lt.2 hinf.2)

theorem nearest_div (hx : Nonneg x) : Nearest (value x / 10 ^ d) (x / f) := by
  obtain ⟨t, R, h⟩ := hf.roundedAt_div hx
  exact h.rounds.of_isFinite (hf.nonneg_div hx).finite

theorem div_congr (hx : Nonneg x) (hy : Nonneg y) (h : value x = value y) :
    value (x / f) = value (y / f) := by
  have hzero {z : Float} (hz : Nonneg z) (h : z = 0.0 ∨ z = -0.0) :
      value (z / f) = 0 := by
    have hnearest := hf.nearest_div hz
    rw [value_of_zero h, zero_div] at hnearest
    exact hnearest.value_eq_zero
  rcases (hx.same_iff hy).2 h with rfl | ⟨hx', hy'⟩
  · rfl
  · rw [hzero hx hx', hzero hy hy']

/-! ### Whole numbers -/

theorem normal_div (hn : 0 < n) : (2 : ℚ) ^ (-1021 : Int) ≤ n / 10 ^ d := by
  have hone : (1 : ℚ) ≤ n := by exact_mod_cast hn
  calc (2 : ℚ) ^ (-1021 : Int) ≤ 2 ^ (-50 : Int) := zpow_le_zpow_right₀ (by norm_num) (by norm_num)
    _ ≤ 1 / 10 ^ 15 := by norm_num
    _ ≤ 1 / 10 ^ d := by
        refine one_div_le_one_div_of_le (ten_pow_pos d) ?_
        exact pow_le_pow_right₀ (by norm_num) hf.le
    _ ≤ n / 10 ^ d := div_le_div_of_nonneg_right hone (ten_pow_pos d).le

/-- How far a whole number is missed when it is divided and the quotient is scaled exactly. -/
theorem scaled_error (hx : Nonneg x) (hn : value x = n) (hpos : 0 < n) :
    |value (x / f) * 10 ^ d - n| < n / 2 ^ 53 := by
  obtain ⟨t, R, h⟩ := hf.roundedAt_div hx
  have hlt := h.abs_sub_lt (hn ▸ hf.normal_div hpos)
  rw [← (h.value_eq (hf.nonneg_div hx).finite).2, hn] at hlt
  have hscale : value (x / f) * 10 ^ d - n =
      (value (x / f) - n / 10 ^ d) * 10 ^ d := by
    rw [sub_mul, div_mul_cancel₀ _ (ten_pow_pos d).ne']
  rw [hscale, abs_mul, abs_of_pos (ten_pow_pos d), ← lt_div_iff₀ (ten_pow_pos d), div_right_comm]
  exact hlt

theorem scaled_error_le (hx : Nonneg x) (hn : value x = n) :
    |value (x / f) * 10 ^ d - n| ≤ n / 2 ^ 53 := by
  rcases Nat.eq_zero_or_pos n with rfl | hpos
  · have hnearest := hf.nearest_div hx
    rw [hn, Nat.cast_zero, zero_div] at hnearest
    rw [hnearest.value_eq_zero]
    norm_num
  · exact (hf.scaled_error hx hn hpos).le

/-- Whole numbers of 52 places are told apart by their quotients. -/
theorem div_injective {m : Nat} (hx : Nonneg x) (hy : Nonneg y) (hm : value x = m)
    (hn : value y = n) (hm' : m ≤ 2 ^ 52) (hn' : n ≤ 2 ^ 52)
    (h : value (x / f) = value (y / f)) : m = n := by
  by_contra hne
  have herr := abs_le.1 (hf.scaled_error_le hx hm)
  have herr' := abs_le.1 (hf.scaled_error_le hy hn)
  rw [h] at herr
  have hmq : (m : ℚ) ≤ 2 ^ 52 := by exact_mod_cast hm'
  have hnq : (n : ℚ) ≤ 2 ^ 52 := by exact_mod_cast hn'
  rcases Nat.lt_or_gt_of_ne hne with hlt | hlt
  · have hstrict := abs_lt.1 (hf.scaled_error hy hn (by omega))
    have hone : (m : ℚ) + 1 ≤ n := by exact_mod_cast hlt
    linarith [herr.2, hstrict.1]
  · have hstrict := abs_lt.1 (hf.scaled_error hx hm (by omega))
    rw [h] at hstrict
    have hone : (n : ℚ) + 1 ≤ m := by exact_mod_cast hlt
    linarith [herr'.2, hstrict.1]

theorem isFinite_up (hx : Nonneg x) (hn : value x = n) (hn' : n ≤ 2 ^ 52) :
    (x / f * f).isFinite = true := by
  have hnq : (n : ℚ) ≤ 2 ^ 52 := by exact_mod_cast hn'
  have hle : value (x / f) * 10 ^ d ≤ 2 ^ 53 := by
    have herr := (abs_le.1 (hf.scaled_error_le hx hn)).2
    linarith
  obtain ⟨t, R, h⟩ := hf.roundedAt_mul (hf.nonneg_div hx)
  refine (h.rounds.of_le (hle.trans ?_)).nonneg.finite
  rw [← zpow_natCast]
  exact zpow_le_zpow_right₀ (by norm_num) (by norm_num)

theorem up_error_le (hx : Nonneg x) (hn : value x = n) (hn' : n ≤ 2 ^ 52) :
    |value (x / f * f) - n| ≤ 2 * |value (x / f) * 10 ^ d - n| := by
  have hnear := (hf.nearest_mul (hf.nonneg_div hx) (hf.isFinite_up hx hn hn')).nearest x hx
  rw [hn, abs_sub_comm (n : ℚ)] at hnear
  refine (abs_sub_le _ (value (x / f) * 10 ^ d) _).trans ?_
  linarith

/-- How far a whole number is missed when it is divided and multiplied again. -/
theorem up_error (hx : Nonneg x) (hn : value x = n) (hpos : 0 < n) (hn' : n ≤ 2 ^ 52) :
    |value (x / f * f) - n| < n / 2 ^ 52 := by
  have hle := hf.up_error_le hx hn hn'
  have herr := hf.scaled_error hx hn hpos
  linarith

theorem up_le (hx : Nonneg x) (hn : value x = n) (hn' : n ≤ 2 ^ 52) :
    value (x / f * f) ≤ 2 ^ 52 := by
  have hnonneg := (hf.nearest_mul (hf.nonneg_div hx) (hf.isFinite_up hx hn hn')).nonneg
  have hnq : (n : ℚ) ≤ 2 ^ 52 := by exact_mod_cast hn'
  rcases Nat.eq_zero_or_pos n with rfl | hpos
  · have hle := (abs_le.1 (hf.up_error_le hx hn hn')).2
    have herr := hf.scaled_error_le hx hn
    push_cast at hle herr
    linarith
  · -- the next double is a whole unit away
    by_contra hgt
    rw [not_le] at hgt
    obtain ⟨k, hk⟩ := hnonneg.whole_of_large hgt.le
    have herr := (abs_lt.1 (hf.up_error hx hn hpos hn')).2
    rw [hk] at hgt herr
    have hle : (2 ^ 52 : ℚ) + 1 ≤ k := by
      have : 2 ^ 52 < k := by exact_mod_cast hgt
      exact_mod_cast this
    linarith

theorem up_zero (hx : Nonneg x) (h : value x = 0) : value (x / f * f) = 0 := by
  have hle := hf.up_error_le (n := 0) hx (by rw [h, Nat.cast_zero]) (by norm_num)
  have herr := hf.scaled_error_le (n := 0) hx (by rw [h, Nat.cast_zero])
  rw [Nat.cast_zero, sub_zero] at hle
  rw [Nat.cast_zero, sub_zero, zero_div] at herr
  rw [sub_zero] at hle
  exact abs_nonpos_iff.1 (hle.trans (by linarith))

/-- A whole number of 52 places is found again exactly if its quotient is. -/
theorem again_small {whole : Float → Float} {W : ℚ → Nat} (hw : Takes whole W) (hx : Nonneg x)
    (hn : value x = n) (hn' : n ≤ 2 ^ 52) :
    Nonneg (x / f * f) ∧ (value (whole (x / f * f) / f) = value (x / f) ↔
      value (whole (x / f * f)) = value x) := by
  have hup := (hf.nearest_mul (hf.nonneg_div hx) (hf.isFinite_up hx hn hn')).nonneg
  have hvalue := hw.value_eq _ hup
  refine ⟨hup, fun h => ?_, hf.div_congr (hw.nonneg _ hup) hx⟩
  have hle : W (value (x / f * f)) ≤ 2 ^ 52 := by
    refine (hw.mono (hf.up_le hx hn hn')).trans_eq ?_
    exact_mod_cast hw.natCast (2 ^ 52)
  rw [hvalue, hn, hf.div_injective (hw.nonneg _ hup) hx hvalue hn hle hn' h]

/-! ### Large doubles -/

theorem isFinite_again (hx : Nonneg x) (hs : (x * f).isFinite = true) :
    (x * f / f * f).isFinite = true := by
  have hsn := (hf.nearest_mul hx hs).nonneg
  obtain ⟨t, R, h⟩ := hf.roundedAt_mul hx
  have hbound := h.add_abs_lt_overflow hs
  rw [← (h.value_eq hs).2] at hbound
  have hnear := (hf.nearest_div hsn).nearest x hx
  rw [hf.isFinite_mul_iff (hf.nonneg_div hsn)]
  rw [← mul_le_mul_iff_left₀ (ten_pow_pos d), ← abs_mul_ten_pow_sub, ← abs_mul_ten_pow_sub,
    abs_sub_comm (value x * 10 ^ d)] at hnear
  linarith [le_abs_self (value (x * f / f) * 10 ^ d - value (x * f))]

/-- The product with the least mantissa of 53 places has few enough places. -/
theorem mul_exact (hy : Nonneg y) (hb : (y * f).isFinite = true) {t : Int} (ht : -1074 ≤ t)
    (hvy : value y = (2 ^ 52 : Nat) * 2 ^ t) :
    value (y * f) = value y * 10 ^ d := by
  obtain ⟨t', R', h⟩ := hf.roundedAt_mul hy
  have h5 : 5 ^ d < 2 ^ 53 := (Nat.pow_le_pow_right (by norm_num) hf.le).trans_lt (by norm_num)
  have hq : value y * 10 ^ d = (5 ^ d : Nat) * 2 ^ (t + 52 + d) := by
    rw [hvy, ten_pow_eq, zpow_add₀ two_ne_zero, zpow_add₀ two_ne_zero, zpow_natCast]
    push_cast
    ring
  rw [(h.value_eq hb).2]
  exact h.exact h5 (by omega) hq

/-- Dividing again what the quotient of a large double has been multiplied to gives the quotient. -/
theorem again_large (hd : 1 ≤ d) (hx : Nonneg x) (hs : (x * f).isFinite = true)
    (hlarge : 2 ^ 52 < value (x * f)) :
    Nonneg (x * f / f * f) ∧ 2 ^ 52 ≤ value (x * f / f * f) ∧
      value (x * f / f * f / f) = value (x * f / f) := by
  have hsn := (hf.nearest_mul hx hs).nonneg
  obtain ⟨n, hn⟩ := hsn.whole_of_large hlarge.le
  have hn52 : 2 ^ 52 < n := by
    rw [hn] at hlarge
    exact_mod_cast hlarge
  have hy := hf.nonneg_div hsn
  have hb := hf.isFinite_again hx hs
  have hbn := (hf.nearest_mul hy hb).nonneg
  refine ⟨hbn, ?_, ?_⟩
  · obtain ⟨w, hw, hwv⟩ := exists_nonneg_natCast (n := 2 ^ 52) (by norm_num)
    obtain ⟨t, R, h⟩ := hf.roundedAt_mul hy
    have herr := (abs_lt.1 (hf.scaled_error hsn hn (by omega))).1
    have hone : (2 ^ 52 : ℚ) + 1 ≤ n := by exact_mod_cast hn52
    have hge := h.ge_of_ge hw (by rw [hwv]; push_cast; linarith)
    rw [hwv, ← (h.value_eq hb).2] at hge
    exact_mod_cast hge
  · obtain ⟨t, R, h⟩ := hf.roundedAt_div hsn
    have hvy := (h.value_eq hy.finite).2
    have hpow : (0 : ℚ) < 2 ^ t := by positivity
    -- the product is at least as near to the scaled quotient as the double that was divided
    have hnear := (hf.nearest_mul hy hb).nearest _ hsn
    have hclose : |(R : ℚ) - value (x * f / f * f) / 10 ^ d / 2 ^ t| ≤ 1 / 2 := by
      rw [abs_sub_comm, abs_mul_ten_pow_sub, abs_sub_comm (value (x * f)),
        abs_mul_ten_pow_sub, mul_le_mul_iff_left₀ (ten_pow_pos d), hvy, abs_mul_zpow_sub,
        abs_mul_zpow_sub, mul_le_mul_iff_left₀ hpow] at hnear
      exact hnear.trans h.near
    have hnear' := (hf.nearest_div hbn).nearest _ hy
    have hcancel : value (x * f / f * f) / 10 ^ d / 2 ^ t * 2 ^ t =
        value (x * f / f * f) / 10 ^ d := div_mul_cancel₀ _ hpow.ne'
    rcases neighbour (hf.nonneg_div hbn) (h.mantissa_full (hn ▸ hf.normal_div (by omega))) hclose
      (by rwa [hcancel, ← hvy]) with hsame | rfl | ⟨O, hodd, hO, htie⟩
    · rw [hsame, hvy]
    · rw [hf.mul_exact hy hb h.place.low hvy, mul_div_cancel_right₀ _ (ten_pow_pos d).ne', sub_self,
        abs_zero] at hnear'
      exact sub_eq_zero.1 (abs_nonpos_iff.1 hnear')
    · exact absurd htie (div_ne_half hd hbn hodd hO t)

end Scale

/-! ### Scaling by one and by ten -/

section
variable {n : Nat} {f x : Float}

theorem Scale.mul_unit (hf : Scale 0 f) (hx : Nonneg x) :
    Nonneg (x * f) ∧ value (x * f) = value x := by
  obtain ⟨t, R, h⟩ := hf.roundedAt_mul hx
  rw [pow_zero, mul_one] at h
  obtain ⟨hnonneg, -⟩ := h.result.resolve_right fun hinf =>
    absurd ((h.le_of_le hx le_rfl).trans_lt hx.value_lt) (not_lt.2 hinf.2)
  have hnear := (h.rounds.of_isFinite hnonneg.finite).nearest x hx
  rw [sub_self, abs_zero] at hnear
  exact ⟨hnonneg, sub_eq_zero.1 (abs_nonpos_iff.1 hnear)⟩

theorem Scale.div_unit (hf : Scale 0 f) (hx : Nonneg x) : value (x / f) = value x := by
  have hnear := (hf.nearest_div hx).nearest x hx
  rw [pow_zero, div_one, sub_self, abs_zero] at hnear
  exact sub_eq_zero.1 (abs_nonpos_iff.1 hnear)

/-- The last place of ten times a mantissa of 53 places is three or four places above. -/
theorem lastPlace_ten_mul {R : Nat} {t T : Int} (hR : 2 ^ 52 ≤ R) (hR' : R ≤ 2 ^ 53)
    (hfull : (2 : ℚ) ^ (T + 52) ≤ R * 2 ^ t * 10) (hlt : (R * 2 ^ t * 10 : ℚ) < 2 ^ (T + 53)) :
    ∃ s : Nat, (s = 3 ∨ s = 4) ∧ T = t + s := by
  have hpow : (0 : ℚ) < 2 ^ t := by positivity
  have hlow : (2 : ℚ) ^ ((55 : Nat) + t) < 2 ^ (T + 53) := by
    refine lt_of_le_of_lt ?_ hlt
    rw [← zpow_natCast_mul, mul_right_comm]
    refine mul_le_mul_of_nonneg_right ?_ hpow.le
    exact_mod_cast (by omega : 2 ^ 55 ≤ R * 10)
  have hhigh : (2 : ℚ) ^ (T + 52) < 2 ^ ((57 : Nat) + t) := by
    refine hfull.trans_lt ?_
    rw [← zpow_natCast_mul, mul_right_comm]
    refine mul_lt_mul_of_pos_right ?_ hpow
    exact_mod_cast (by omega : R * 10 < 2 ^ 57)
  have htwo : (1 : ℚ) < 2 := by norm_num
  have := (zpow_lt_zpow_iff_right₀ htwo).1 hlow
  have := (zpow_lt_zpow_iff_right₀ htwo).1 hhigh
  push_cast at *
  exact ⟨(T - t).toNat, by omega, by omega⟩

/-- A division by ten and a multiplication by ten, in units of a last place and of one `s` above. -/
theorem units_ten (K R s : Nat) (t : Int) :
    (K * 2 ^ (t + s) / 10 / 2 ^ t : ℚ) = (2 ^ s : Nat) * K / 10 ∧
      (R * 2 ^ t * 10 / 2 ^ (t + s) : ℚ) = 10 * R / (2 ^ s : Nat) := by
  rw [zpow_add₀ two_ne_zero, zpow_natCast]
  push_cast
  constructor <;> field_simp

/-- The two roundings of a division by ten and a multiplication by ten as inequalities of naturals,
if the last place of the second one is `a` times that of the first one. -/
theorem naturals_of_near {R K K' a : Nat} (ha : 0 < a) (hdiv : |(R : ℚ) - a * K / 10| ≤ 1 / 2)
    (hmul : |(K' : ℚ) - 10 * R / a| ≤ 1 / 2) :
    (10 * R ≤ a * K + 5 ∧ a * K ≤ 10 * R + 5) ∧
      2 * a * K' ≤ 20 * R + a ∧ 20 * R ≤ 2 * a * K' + a := by
  have ha' : (0 : ℚ) < a := by exact_mod_cast ha
  rw [abs_le] at hdiv hmul
  have hcancel : (10 * R / a * a : ℚ) = 10 * R := div_mul_cancel₀ _ ha'.ne'
  have hlow := mul_le_mul_of_nonneg_right hmul.1 ha'.le
  have hhigh := mul_le_mul_of_nonneg_right hmul.2 ha'.le
  rw [sub_mul, hcancel] at hlow hhigh
  refine ⟨⟨?_, ?_⟩, ?_, ?_⟩
  · have : (10 * R : ℚ) ≤ a * K + 5 := by linarith
    exact_mod_cast this
  · have : (a * K : ℚ) ≤ 10 * R + 5 := by linarith
    exact_mod_cast this
  · have : (2 * a * K' : ℚ) ≤ 20 * R + a := by linarith
    exact_mod_cast this
  · have : (20 * R : ℚ) ≤ 2 * a * K' + a := by linarith
    exact_mod_cast this

/-- Half way between two naturals. -/
theorem tie_of_naturals {R K' a : Nat} (ha : 0 < a)
    (h : 2 * a * K' = 20 * R + a ∨ 20 * R = 2 * a * K' + a) :
    |(K' : ℚ) - 10 * R / a| = 1 / 2 := by
  have ha' : (a : ℚ) ≠ 0 := by exact_mod_cast ha.ne'
  rcases h with h | h
  · have hq : (2 * a * K' : ℚ) = 20 * R + a := by exact_mod_cast h
    have hhalf : (K' - 10 * R / a : ℚ) = 1 / 2 := by
      field_simp
      linarith
    rw [hhalf]
    norm_num
  · have hq : (20 * R : ℚ) = 2 * a * K' + a := by exact_mod_cast h
    have hhalf : (K' - 10 * R / a : ℚ) = -(1 / 2) := by
      field_simp
      linarith
    rw [hhalf]
    norm_num

/-- A whole number of 52 places in units of a place that is no larger than one. -/
theorem exists_units {T : Int} (hn : n ≤ 2 ^ 52) (hT : T ≤ 0) :
    ∃ K : Nat, (n : ℚ) = K * 2 ^ T ∧ (K % 2 = 0 ∨ K ≤ 2 ^ 52) := by
  obtain ⟨j, rfl⟩ : ∃ j : Nat, T = -j := ⟨(-T).toNat, by omega⟩
  refine ⟨n * 2 ^ j, ?_, ?_⟩
  · rw [Nat.cast_mul, mul_assoc, zpow_natCast_mul, add_neg_cancel, zpow_zero, mul_one]
  · rcases j with _ | j
    · exact .inr (by rwa [pow_zero, Nat.mul_one])
    · exact .inl (by rw [pow_succ, ← mul_assoc, Nat.mul_mod_left])

/-- A whole number of 52 places that is divided by ten and multiplied by ten is found again. -/
theorem Scale.up_exact (hf : Scale 1 f) (hx : Nonneg x) (hn : value x = n) (hpos : 0 < n)
    (hn' : n ≤ 2 ^ 52) : value (x / f * f) = n := by
  have hy := hf.nonneg_div hx
  have hb := hf.isFinite_up hx hn hn'
  have herr := abs_lt.1 (hf.scaled_error hx hn hpos)
  have hone : (1 : ℚ) ≤ n := by exact_mod_cast hpos
  have hmax : (n : ℚ) ≤ 2 ^ 52 := by exact_mod_cast hn'
  obtain ⟨t, R, h⟩ := hf.roundedAt_div hx
  obtain ⟨T, K', h'⟩ := hf.roundedAt_mul hy
  have hvy := (h.value_eq hy.finite).2
  have hR := h.mantissa_full (hn ▸ hf.normal_div hpos)
  have hR' := h.place.mantissa_le h.near
  rw [hn, pow_one] at h
  rw [pow_one] at h' herr
  have hfull := h'.full <| by
    calc (2 : ℚ) ^ (-1021 : Int) ≤ 2 ^ (-1 : Int) :=
          zpow_le_zpow_right₀ (by norm_num) (by norm_num)
      _ = 1 / 2 := by norm_num
      _ ≤ value (x / f) * 10 := by linarith
  have hT : T ≤ 0 := by
    have hlt : (2 : ℚ) ^ (T + 52) < 2 ^ (53 : Int) := by
      refine hfull.trans_lt ?_
      norm_num
      linarith
    have := (zpow_lt_zpow_iff_right₀ (by norm_num : (1 : ℚ) < 2)).1 hlt
    omega
  obtain ⟨K, hK, hparity⟩ := exists_units hn' hT
  rw [hvy] at h' hfull
  obtain ⟨s, hs, rfl⟩ := lastPlace_ten_mul hR hR' hfull h'.place.lt
  obtain ⟨hdiv, hmul⟩ := units_ten K R s t
  have hnear := h.near
  have hnear' := h'.near
  have heven := h'.even
  rw [hK, hdiv] at hnear
  rw [hmul] at hnear' heven
  obtain ⟨⟨h1, h2⟩, h3, h4⟩ := naturals_of_near (Nat.two_pow_pos s) hnear hnear'
  have htie := fun h => Nat.even_iff.1 (heven (tie_of_naturals (Nat.two_pow_pos s) h))
  -- half way it is the even number, which the whole number is in these units
  have hsame : K' = K := by
    rcases hs with rfl | rfl <;> omega
  rw [(h'.value_eq hb).2, hsame, hK]

end

end FlowTree.Binary64
