import FlowTree.Proofs.Binary64.Value

/-!
# Rounding

Of what is below the last place of an exact result the arithmetic of doubles keeps two bits, the
first one and whether any other is set (`Approximates`). That is enough to round half to even
(`RoundedAt`), so sums, products and quotients of doubles that are not negative are the doubles
nearest to the exact ones (`Rounds`), or an infinity if these are too large.
-/

namespace FlowTree.Binary64
open Float.Model (Format UnpackedFloat totalExponent)
open Float.Model.UnpackedFloat (Accuracy ExtendedMantissa shiftToExponent shiftToTargetExponent
  roundWithAccuracy decreaseExponent accuracyOfFraction)

/-! ### The bits below the last place -/

/-- What the bits of an extended mantissa say of a number. -/
def Approximates (em : ExtendedMantissa) (q : ℚ) : Prop :=
  match em.roundBit, em.stickyBit with
  | false, false => q = em.mantissa
  | false, true => em.mantissa < q ∧ q < em.mantissa + 1 / 2
  | true, false => q = em.mantissa + 1 / 2
  | true, true => em.mantissa + 1 / 2 < q ∧ q < em.mantissa + 1

namespace Approximates
variable {em : ExtendedMantissa} {q : ℚ}

theorem mantissa_le (h : Approximates em q) : em.mantissa ≤ q ∧ q < em.mantissa + 1 := by
  obtain ⟨m, roundBit, stickyBit⟩ := em
  cases roundBit <;> cases stickyBit <;> simp only [Approximates] at h ⊢ <;>
    constructor <;> linarith

theorem exact (m : Nat) : Approximates (.ofMantissaAndAccuracy m .exact) m :=
  rfl

/-- The remainder of a division is known as far as rounding needs it. -/
theorem quotient (a : Nat) {b : Nat} (hb : 0 < b) :
    Approximates (.ofMantissaAndAccuracy (a / b) (accuracyOfFraction (a % b) b)) (a / b) := by
  have hb' : (0 : ℚ) < b := by exact_mod_cast hb
  have hdiv : (a / b : ℚ) = (a / b : Nat) + ((a % b : Nat) : ℚ) / b := by
    have h : ((b * (a / b) + a % b : Nat) : ℚ) = a := by rw [Nat.div_add_mod]
    push_cast at h
    rw [div_eq_iff hb'.ne', add_mul, div_mul_cancel₀ _ hb'.ne']
    linarith
  have hlt : ((a % b : Nat) : ℚ) / b < 1 := by
    rw [div_lt_one hb']
    exact_mod_cast Nat.mod_lt a hb
  unfold accuracyOfFraction
  split
  · rename_i hzero
    show (a / b : ℚ) = (a / b : Nat)
    rw [hdiv, hzero, Nat.cast_zero, zero_div, add_zero]
  · rename_i hzero
    have hpos : 0 < ((a % b : Nat) : ℚ) / b :=
      div_pos (by exact_mod_cast Nat.pos_of_ne_zero hzero) hb'
    rw [hdiv]
    rcases Nat.lt_trichotomy (2 * (a % b)) b with h | h | h
    · have hhalf : ((a % b : Nat) : ℚ) / b < 1 / 2 := by
        rw [div_lt_div_iff₀ hb' two_pos]
        exact_mod_cast (by omega : a % b * 2 < 1 * b)
      rw [Nat.compare_eq_lt.2 h]
      constructor <;> simp only [ExtendedMantissa.ofMantissaAndAccuracy] <;> linarith
    · have hhalf : ((a % b : Nat) : ℚ) / b = 1 / 2 := by
        rw [div_eq_div_iff hb'.ne' two_ne_zero]
        exact_mod_cast (by omega : a % b * 2 = 1 * b)
      rw [Nat.compare_eq_eq.2 h, hhalf]
      rfl
    · have hhalf : 1 / 2 < ((a % b : Nat) : ℚ) / b := by
        rw [div_lt_div_iff₀ two_pos hb']
        exact_mod_cast (by omega : 1 * b < a % b * 2)
      rw [Nat.compare_eq_gt.2 h]
      constructor <;> simp only [ExtendedMantissa.ofMantissaAndAccuracy] <;> linarith

theorem shiftRightOne (h : Approximates em q) : Approximates em.shiftRightOne (q / 2) := by
  obtain ⟨m, roundBit, stickyBit⟩ := em
  obtain ⟨k, rfl | rfl⟩ := Nat.even_or_odd' m
  · have hhalf : 2 * k / 2 = k := by omega
    have hbit : (2 * k % 2 != 0) = false := by simp
    cases roundBit <;> cases stickyBit <;>
      simp only [Approximates, ExtendedMantissa.shiftRightOne, hhalf, hbit, Bool.or_false,
        Bool.or_true] at h ⊢ <;> push_cast at h <;>
      first | linarith | constructor <;> linarith
  · have hhalf : (2 * k + 1) / 2 = k := by omega
    have hbit : ((2 * k + 1) % 2 != 0) = true := by simp [Nat.add_mod]
    cases roundBit <;> cases stickyBit <;>
      simp only [Approximates, ExtendedMantissa.shiftRightOne, hhalf, hbit, Bool.or_false,
        Bool.or_true] at h ⊢ <;> push_cast at h <;>
      first | linarith | constructor <;> linarith

theorem shiftRight (h : Approximates em q) (n : Nat) : Approximates (em >>> n) (q / 2 ^ n) := by
  show Approximates (n.repeat ExtendedMantissa.shiftRightOne em) _
  induction n with
  | zero => simpa [Nat.repeat] using h
  | succ n ih =>
    rw [Nat.repeat, pow_succ, ← div_div]
    exact ih.shiftRightOne

theorem abs_roundedMantissa_sub_le (h : Approximates em q) :
    |(em.roundedMantissa : ℚ) - q| ≤ 1 / 2 := by
  obtain ⟨m, roundBit, stickyBit⟩ := em
  rw [abs_le]
  cases roundBit <;> cases stickyBit <;>
    simp only [Approximates, ExtendedMantissa.roundedMantissa, ExtendedMantissa.accuracy,
      Accuracy.roundToNearestEven] at h ⊢
  · constructor <;> linarith
  · constructor <;> linarith
  · -- half way between two mantissas it goes to the even one, up or down
    have hmod : m % 2 = 0 ∨ m % 2 = 1 := by omega
    rcases hmod with hmod | hmod <;> rw [hmod] <;> push_cast <;> constructor <;> linarith
  · push_cast
    constructor <;> linarith

/-- Half way between two mantissas it is the even one. -/
theorem even_roundedMantissa (h : Approximates em q)
    (htie : |(em.roundedMantissa : ℚ) - q| = 1 / 2) : Even em.roundedMantissa := by
  obtain ⟨m, roundBit, stickyBit⟩ := em
  cases roundBit <;> cases stickyBit <;>
    simp only [Approximates, ExtendedMantissa.roundedMantissa, ExtendedMantissa.accuracy,
      Accuracy.roundToNearestEven] at h htie ⊢
  · rw [h, sub_self, abs_zero] at htie
    linarith
  · rw [abs_of_neg (by linarith)] at htie
    linarith
  · rw [Nat.even_iff]
    have hmod : m % 2 = 0 ∨ m % 2 = 1 := by omega
    rcases hmod with hmod | hmod <;> rw [hmod] <;> omega
  · push_cast at htie
    rw [abs_of_pos (by linarith)] at htie
    linarith

end Approximates

/-! ### The last place -/

/-- The doubles around a number have their last place there: 53 places, or fewer in the lowest. -/
structure LastPlace (q : ℚ) (t : Int) : Prop where
  low : -1074 ≤ t
  lt : q < 2 ^ (t + 53)
  full : t = -1074 ∨ 2 ^ (t + 52) ≤ q

theorem targetExponent_eq (m : Nat) (e : Int) :
    Format.binary64.targetExponent (totalExponent m e) = max ((m.log2 : Int) + 1 + e - 53) (-1074) :=
  rfl

theorem zpow_natCast_mul (n : Nat) (e : Int) : ((2 ^ n : Nat) : ℚ) * 2 ^ e = 2 ^ (n + e) := by
  rw [Nat.cast_pow, Nat.cast_two, ← zpow_natCast, ← zpow_add₀ two_ne_zero]

theorem mul_zpow_lt {m : Nat} (hm : m < 2 ^ 53) (e : Int) :
    (m * 2 ^ e : ℚ) < 2 ^ ((53 : Nat) + e) := by
  rw [← zpow_natCast_mul]
  refine mul_lt_mul_of_pos_right ?_ (by positivity)
  exact_mod_cast hm

theorem lastPlace_targetExponent {m : Nat} {e t : Int} {q : ℚ} (hle : m ≤ q / 2 ^ e)
    (hlt : q / 2 ^ e < m + 1) (ht : Format.binary64.targetExponent (totalExponent m e) = t)
    (he : e ≤ t) : LastPlace q t := by
  have hpow : (0 : ℚ) < 2 ^ e := by positivity
  rw [targetExponent_eq] at ht
  rw [le_div_iff₀ hpow] at hle
  rw [div_lt_iff₀ hpow] at hlt
  refine ⟨by omega, ?_, ?_⟩
  · have hm : m + 1 ≤ 2 ^ (m.log2 + 1) := Nat.lt_log2_self
    calc q < (m + 1) * 2 ^ e := hlt
      _ ≤ ((2 ^ (m.log2 + 1) : Nat) : ℚ) * 2 ^ e := by
          refine mul_le_mul_of_nonneg_right ?_ hpow.le
          exact_mod_cast hm
      _ = 2 ^ (((m.log2 + 1 : Nat) : Int) + e) := zpow_natCast_mul _ e
      _ ≤ 2 ^ (t + 53) := zpow_le_zpow_right₀ (by norm_num) (by omega)
  · by_cases hlow : t = -1074
    · exact .inl hlow
    · -- a mantissa of zero has no place above the lowest one
      have hm : m ≠ 0 := by
        rintro rfl
        have hlog : (0 : Nat).log2 = 0 := rfl
        omega
      refine .inr ?_
      calc (2 : ℚ) ^ (t + 52) = 2 ^ ((m.log2 : Int) + e) := by congr 1; omega
        _ = ((2 ^ m.log2 : Nat) : ℚ) * 2 ^ e := (zpow_natCast_mul _ e).symm
        _ ≤ m * 2 ^ e := by
            refine mul_le_mul_of_nonneg_right ?_ hpow.le
            exact_mod_cast Nat.log2_self_le hm
        _ ≤ q := hle

theorem abs_mul_zpow_sub (x q : ℚ) (t : Int) :
    |x * 2 ^ t - q| = |x - q / 2 ^ t| * 2 ^ t := by
  have hpow : (0 : ℚ) < 2 ^ t := by positivity
  rw [← abs_of_pos hpow, ← abs_mul, sub_mul, abs_of_pos hpow, div_mul_cancel₀ _ hpow.ne']

namespace LastPlace
variable {q : ℚ} {t : Int} {R : Nat}

/-- No double is nearer to the number than a nearest multiple of the last place. -/
theorem nearest (h : LastPlace q t) (hR : |(R : ℚ) - q / 2 ^ t| ≤ 1 / 2) {w : Float}
    (hw : Nonneg w) : |(R : ℚ) * 2 ^ t - q| ≤ |value w - q| := by
  have hpow : (0 : ℚ) < 2 ^ t := by positivity
  -- no natural number is nearer to the number of last places
  have hnat (k : Nat) : |(R : ℚ) - q / 2 ^ t| ≤ |(k : ℚ) - q / 2 ^ t| := by
    rw [abs_le] at hR
    rcases Nat.lt_trichotomy R k with hlt | rfl | hgt
    · have hone : (R : ℚ) + 1 ≤ k := by exact_mod_cast hlt
      rw [abs_of_nonneg (a := (k : ℚ) - q / 2 ^ t) (by linarith), abs_le]
      constructor <;> linarith
    · exact le_rfl
    · have hone : (k : ℚ) + 1 ≤ R := by exact_mod_cast hgt
      rw [abs_of_nonpos (a := (k : ℚ) - q / 2 ^ t) (by linarith), abs_le]
      constructor <;> linarith
  obtain ⟨m, e, ⟨hm, he, -, -⟩, hvalue, -⟩ := hw.exists_parts
  rw [abs_mul_zpow_sub, hvalue]
  rcases le_or_gt t e with hle | hgt
  · obtain ⟨k, rfl⟩ : ∃ k : Nat, e = t + k := ⟨(e - t).toNat, by omega⟩
    have hmul : (m * 2 ^ (t + k) : ℚ) = ((m * 2 ^ k : Nat) : ℚ) * 2 ^ t := by
      rw [zpow_add₀ two_ne_zero, zpow_natCast]
      push_cast
      ring
    rw [hmul, abs_mul_zpow_sub]
    exact mul_le_mul_of_nonneg_right (hnat _) hpow.le
  · -- the double is below all that have their last place at `t`, and the number is not
    have hfull : (2 : ℚ) ^ (t + 52) ≤ q := h.full.resolve_left (by omega)
    have hsmall : (m * 2 ^ e : ℚ) ≤ 2 ^ (t + 52) :=
      (mul_zpow_lt hm e).le.trans (zpow_le_zpow_right₀ (by norm_num) (by push_cast; omega))
    have hlow : ((2 ^ 52 : Nat) : ℚ) * 2 ^ t = 2 ^ (t + 52) := by
      rw [zpow_natCast_mul, add_comm]
      rfl
    calc |(R : ℚ) - q / 2 ^ t| * 2 ^ t ≤ |((2 ^ 52 : Nat) : ℚ) - q / 2 ^ t| * 2 ^ t :=
          mul_le_mul_of_nonneg_right (hnat _) hpow.le
      _ = |2 ^ (t + 52) - q| := by rw [← abs_mul_zpow_sub, hlow]
      _ ≤ |m * 2 ^ e - q| := by
          rw [abs_of_nonpos (by linarith), abs_of_nonpos (by linarith)]
          linarith

theorem error (h : LastPlace q t) (hR : |(R : ℚ) - q / 2 ^ t| ≤ 1 / 2) :
    |(R : ℚ) * 2 ^ t - q| ≤ max (q / 2 ^ 53) (2 ^ (-1075 : Int)) := by
  have hpow : (0 : ℚ) < 2 ^ t := by positivity
  have hhalf : |(R : ℚ) * 2 ^ t - q| ≤ 2 ^ t / 2 := by
    rw [abs_mul_zpow_sub]
    linarith [mul_le_mul_of_nonneg_right hR hpow.le]
  rcases h.full with rfl | hfull
  · have hlast : (2 : ℚ) ^ (-1074 : Int) / 2 = 2 ^ (-1075 : Int) := by
      rw [div_eq_mul_inv, ← zpow_sub_one₀ two_ne_zero]
      rfl
    exact hhalf.trans (le_max_of_le_right hlast.le)
  · refine hhalf.trans (le_max_of_le_left ?_)
    rw [zpow_add₀ two_ne_zero] at hfull
    norm_num at hfull ⊢
    linarith

end LastPlace

/-! ### Rounded mantissas -/

theorem shiftToTargetExponent_eq {m : Nat} {e t : Int} (acc : Accuracy)
    (ht : Format.binary64.targetExponent (totalExponent m e) = t) (he : e ≤ t) :
    shiftToTargetExponent .binary64 m e acc =
      (ExtendedMantissa.ofMantissaAndAccuracy m acc >>> (t - e).toNat, t) := by
  unfold shiftToTargetExponent shiftToExponent
  rw [ht]
  exact Prod.ext rfl (by show e + ((t - e).toNat : Int) = t; omega)

/-- The parts of a mantissa that may have been rounded up to one place too many. -/
def roundedParts (R : Nat) (t : Int) : Parts :=
  if R = 2 ^ 53 then .fin false (2 ^ 52) (t + 1) else .fin false R t

theorem shiftToTargetExponent_rounded {R : Nat} {t : Int} (hR : R ≤ 2 ^ 53) (hlow : -1074 ≤ t) :
    ∃ m e, roundedParts R t = .fin false m e ∧
      shiftToTargetExponent .binary64 R t .exact = (.ofMantissaAndAccuracy m .exact, e) := by
  unfold roundedParts
  split
  · rename_i heq
    subst heq
    refine ⟨_, _, rfl, ?_⟩
    have hlog : (2 ^ 53 : Nat).log2 = 53 := by decide +kernel
    have ht : Format.binary64.targetExponent (totalExponent (2 ^ 53) t) = t + 1 := by
      rw [targetExponent_eq, hlog]
      omega
    have hshift := ofMantissaAndAccuracy_shiftRight (2 ^ 52) 1
    rw [shiftToTargetExponent_eq .exact ht (by omega), show (t + 1 - t).toNat = 1 by omega,
      ← hshift]
    rfl
  · rename_i hne
    refine ⟨_, _, rfl, ?_⟩
    have hlog : R.log2 ≤ 52 := by
      rcases Nat.eq_zero_or_pos R with rfl | hpos
      · exact Nat.zero_le 52
      · exact log2_le hpos (by omega)
    have hshift : (Format.binary64.targetExponent (totalExponent R t) - t).toNat = 0 := by
      rw [targetExponent_eq]
      omega
    unfold shiftToTargetExponent shiftToExponent
    simp only [hshift]
    exact Prod.ext rfl (Int.add_zero t)

theorem roundWithAccuracy_eq {m R : Nat} {e t : Int} {acc : Accuracy}
    (ht : Format.binary64.targetExponent (totalExponent m e) = t) (he : e ≤ t) (hlow : -1074 ≤ t)
    (hR : (ExtendedMantissa.ofMantissaAndAccuracy m acc >>> (t - e).toNat).roundedMantissa = R)
    (hle : R ≤ 2 ^ 53) :
    roundWithAccuracy .binary64 .positive m e acc = (roundedParts R t).unpacked := by
  obtain ⟨m', e', hparts, hshift⟩ := shiftToTargetExponent_rounded hle hlow
  have hmantissa : (ExtendedMantissa.ofMantissaAndAccuracy m' .exact).mantissa = m' := rfl
  have hfirst := shiftToTargetExponent_eq acc ht he
  unfold roundWithAccuracy
  simp only [hfirst, hR, hshift, hmantissa]
  rw [hparts, Parts.unpacked]
  by_cases hzero : m' = 0
  · rw [dif_pos hzero, dif_neg (by omega)]
    rfl
  · rw [dif_neg hzero, dif_pos (Nat.pos_of_ne_zero hzero)]
    rfl

theorem parts_pack_of_large {m : Nat} {e : Int} (hm : 0 < m) (he : 971 < e) :
    parts (.ofModel (.pack (Parts.fin false m e).unpacked)) = .inf false := by
  have hpack : UnpackedFloat.pack .binary64 (Parts.fin false m e).unpacked =
      UnpackedFloat.pack .binary64 (Parts.inf false).unpacked := by
    rw [Parts.unpacked_of_pos false hm, UnpackedFloat.pack]
    refine if_pos ?_
    show 2048 ≤ (e + (1023 : Nat) + (52 : Nat)).toNat + 1
    omega
  show Parts.ofWord (UnpackedFloat.pack .binary64 (Parts.fin false m e).unpacked).toNat = .inf false
  rw [hpack, toNat_pack (p := .inf false) trivial, Parts.ofWord_word (p := .inf false) trivial]

/-! ### Nearest doubles -/

/-- Among the doubles that are not negative none is nearer to the number than this one. -/
structure Nearest (q : ℚ) (z : Float) : Prop where
  nonneg : Nonneg z
  nearest : ∀ w, Nonneg w → |value z - q| ≤ |value w - q|
  error : |value z - q| ≤ max (q / 2 ^ 53) (2 ^ (-1075 : Int))

/-- What the arithmetic of doubles makes of a number. -/
def Rounds (q : ℚ) (z : Float) : Prop :=
  Nearest q z ∨ parts z = .inf false ∧ 2 ^ (1023 : Int) < q

namespace LastPlace
variable {q : ℚ} {t : Int} {R : Nat}

theorem le_mantissa (h : LastPlace q t) (hR : |(R : ℚ) - q / 2 ^ t| ≤ 1 / 2) :
    t = -1074 ∨ 2 ^ 52 ≤ R := by
  refine h.full.imp_right fun hfull => ?_
  rw [add_comm, zpow_add₀ two_ne_zero, ← le_div_iff₀ (by positivity)] at hfull
  have hlt : ((2 ^ 52 : Nat) : ℚ) < (R : ℚ) + 1 := by
    push_cast
    linarith [(abs_le.1 hR).1, (show (2 : ℚ) ^ (52 : Int) = 2 ^ 52 from rfl)]
  exact Nat.le_of_lt_succ (by exact_mod_cast hlt)

theorem mantissa_le (h : LastPlace q t) (hR : |(R : ℚ) - q / 2 ^ t| ≤ 1 / 2) : R ≤ 2 ^ 53 := by
  have hlt := h.lt
  rw [add_comm, zpow_add₀ two_ne_zero, ← div_lt_iff₀ (by positivity)] at hlt
  have hlt' : (R : ℚ) < ((2 ^ 53 : Nat) : ℚ) + 1 := by
    push_cast
    linarith [(abs_le.1 hR).2, (show (2 : ℚ) ^ (53 : Int) = 2 ^ 53 from rfl)]
  exact Nat.le_of_lt_succ (by exact_mod_cast hlt')

end LastPlace

/-- `z` is the number `q` in units of its last place, rounded half to even to `R` of them; it is
infinite if these are too many. -/
structure RoundedAt (q : ℚ) (t : Int) (R : Nat) (z : Float) : Prop where
  place : LastPlace q t
  near : |(R : ℚ) - q / 2 ^ t| ≤ 1 / 2
  even : |(R : ℚ) - q / 2 ^ t| = 1 / 2 → Even R
  result : Nonneg z ∧ value z = R * 2 ^ t ∨
    parts z = .inf false ∧ 2 ^ (1024 : Int) ≤ (R * 2 ^ t : ℚ)

theorem roundedAt_roundedParts {q : ℚ} {t : Int} {R : Nat} (h : LastPlace q t)
    (hR : |(R : ℚ) - q / 2 ^ t| ≤ 1 / 2) (heven : |(R : ℚ) - q / 2 ^ t| = 1 / 2 → Even R) :
    RoundedAt q t R (.ofModel (.pack (roundedParts R t).unpacked)) := by
  have hle := h.mantissa_le hR
  have hfull := h.le_mantissa hR
  have hlow := h.low
  obtain ⟨m, e, hparts, hvalue, hm, he⟩ : ∃ m e, roundedParts R t = .fin false m e ∧
      (m * 2 ^ e : ℚ) = R * 2 ^ t ∧ (m < 2 ^ 53 ∧ (2 ^ 52 ≤ m ∨ e = -1074)) ∧ -1074 ≤ e := by
    unfold roundedParts
    split
    · rename_i heq
      refine ⟨_, _, rfl, ?_, ⟨by decide, .inl le_rfl⟩, by omega⟩
      rw [heq, zpow_add_one₀ two_ne_zero]
      push_cast
      ring
    · exact ⟨_, _, rfl, rfl, ⟨by omega, hfull.symm⟩, hlow⟩
  rw [hparts]
  refine ⟨h, hR, heven, ?_⟩
  by_cases hexp : 971 < e
  · refine .inr ⟨parts_pack_of_large (by omega) hexp, ?_⟩
    have hm' : 2 ^ 52 ≤ m := hm.2.resolve_right (by omega)
    calc (2 : ℚ) ^ (1024 : Int) ≤ 2 ^ ((52 : Nat) + e) :=
          zpow_le_zpow_right₀ (by norm_num) (by push_cast; omega)
      _ = ((2 ^ 52 : Nat) : ℚ) * 2 ^ e := (zpow_natCast_mul 52 e).symm
      _ ≤ m * 2 ^ e := by
          refine mul_le_mul_of_nonneg_right ?_ (by positivity)
          exact_mod_cast hm'
      _ = R * 2 ^ t := hvalue
  · have hz := parts_pack (p := .fin false m e) ⟨hm.1, he, by omega, hm.2⟩
    exact .inl ⟨nonneg_of_parts hz, (value_of_parts hz).trans hvalue⟩

/-- A mantissa and what is known of the places below it are rounded half to even. -/
theorem roundedAt_roundWithAccuracy {m : Nat} {e : Int} {acc : Accuracy} {q : ℚ}
    (h : Approximates (.ofMantissaAndAccuracy m acc) (q / 2 ^ e))
    (he : e ≤ Format.binary64.targetExponent (totalExponent m e)) :
    ∃ t R, RoundedAt q t R
      (.ofModel (.pack (roundWithAccuracy .binary64 .positive m e acc))) := by
  obtain ⟨t, ht⟩ : ∃ t, Format.binary64.targetExponent (totalExponent m e) = t := ⟨_, rfl⟩
  rw [ht] at he
  have hmantissa : (ExtendedMantissa.ofMantissaAndAccuracy m acc).mantissa = m := by
    cases acc with
    | exact => rfl
    | inexact order => cases order <;> rfl
  have hbounds := h.mantissa_le
  rw [hmantissa] at hbounds
  have hplace := lastPlace_targetExponent hbounds.1 hbounds.2 ht he
  have hscale : q / 2 ^ e / 2 ^ (t - e).toNat = q / 2 ^ t := by
    rw [div_div, ← zpow_natCast, ← zpow_add₀ two_ne_zero]
    congr 2
    omega
  have hshift := h.shiftRight (t - e).toNat
  rw [hscale] at hshift
  have hR := hshift.abs_roundedMantissa_sub_le
  rw [roundWithAccuracy_eq ht he hplace.low rfl (hplace.mantissa_le hR)]
  exact ⟨t, _, roundedAt_roundedParts hplace hR hshift.even_roundedMantissa⟩

namespace RoundedAt
variable {q : ℚ} {t : Int} {R : Nat} {z : Float}

theorem lt_of_infinite (h : RoundedAt q t R z) (hlarge : 2 ^ (1024 : Int) ≤ (R * 2 ^ t : ℚ)) :
    2 ^ (1023 : Int) < q := by
  have hpow : (0 : ℚ) < 2 ^ t := by positivity
  have hR : 2 ^ 52 ≤ R := by
    refine (h.place.le_mantissa h.near).resolve_left ?_
    rintro rfl
    have hle : (R : ℚ) ≤ (2 ^ 53 : Nat) := by exact_mod_cast h.place.mantissa_le h.near
    have hsmall : (R * 2 ^ (-1074 : Int) : ℚ) ≤ 2 ^ ((53 : Nat) + (-1074 : Int)) := by
      rw [← zpow_natCast_mul]
      exact mul_le_mul_of_nonneg_right hle hpow.le
    have hexp := (zpow_le_zpow_iff_right₀ (by norm_num : (1 : ℚ) < 2)).1 (hlarge.trans hsmall)
    norm_num at hexp
  have hlow : (R : ℚ) - 1 / 2 ≤ q / 2 ^ t := by linarith [(abs_le.1 h.near).2]
  rw [le_div_iff₀ hpow] at hlow
  have hR' : (1 : ℚ) < R := by exact_mod_cast (by omega : 1 < R)
  calc (2 : ℚ) ^ (1023 : Int) = 2 ^ (1024 : Int) / 2 := by
        rw [div_eq_mul_inv, ← zpow_sub_one₀ two_ne_zero]
        rfl
    _ ≤ R * 2 ^ t / 2 := div_le_div_of_nonneg_right hlarge (by norm_num)
    _ < (R - 1 / 2) * 2 ^ t := by
        rw [mul_div_right_comm]
        exact mul_lt_mul_of_pos_right (by linarith) hpow
    _ ≤ q := hlow

theorem rounds (h : RoundedAt q t R z) : Rounds q z := by
  rcases h.result with ⟨hz, hvalue⟩ | ⟨hinf, hlarge⟩
  · refine .inl ⟨hz, fun w hw => ?_, ?_⟩
    · rw [hvalue]
      exact h.place.nearest h.near hw
    · rw [hvalue]
      exact h.place.error h.near
  · exact .inr ⟨hinf, h.lt_of_infinite hlarge⟩

end RoundedAt

theorem rounds_roundWithAccuracy {m : Nat} {e : Int} {acc : Accuracy} {q : ℚ}
    (h : Approximates (.ofMantissaAndAccuracy m acc) (q / 2 ^ e))
    (he : e ≤ Format.binary64.targetExponent (totalExponent m e)) :
    Rounds q (.ofModel (.pack (roundWithAccuracy .binary64 .positive m e acc))) := by
  obtain ⟨t, R, hrounded⟩ := roundedAt_roundWithAccuracy h he
  exact hrounded.rounds

end FlowTree.Binary64
