import FlowTree.Proofs.Binary64.NextWhole

/-!
# Rounding half to even

What a rounding in units of the last place (`RoundedAt`) says beyond "nearest": it keeps to the side
of a double that the number is on, the relative error of a normal number is below half a last place
of 53, a number that has 53 places is not changed, and the numbers from half a unit above the
largest double on are those that overflow.
-/

namespace FlowTree.Binary64

theorem Nonneg.value_lt {z : Float} (hz : Nonneg z) : value z < 2 ^ (1024 : Int) := by
  obtain ⟨m, e, ⟨hm, -, he, -⟩, hvalue, -⟩ := hz.exists_parts
  rw [hvalue]
  exact (mul_zpow_lt hm e).trans_le (zpow_le_zpow_right₀ (by norm_num) (by push_cast; omega))

/-- From here on numbers overflow: half a unit of the last place above the largest double. -/
def overflow : ℚ :=
  2 ^ (1024 : Int) - 2 ^ (970 : Int)

theorem overflow_eq : overflow = ((2 ^ 53 - 1 : Nat) + 1 / 2) * 2 ^ (971 : Int) := by
  have h1024 : (2 : ℚ) ^ (1024 : Int) = 2 ^ 53 * 2 ^ (971 : Int) := by
    rw [← zpow_natCast, ← zpow_add₀ two_ne_zero]
    rfl
  have h970 : (2 : ℚ) ^ (970 : Int) = 2 ^ (971 : Int) / 2 := by
    rw [div_eq_mul_inv, ← zpow_sub_one₀ two_ne_zero]
    rfl
  rw [overflow, h1024, h970]
  generalize (2 : ℚ) ^ (971 : Int) = u
  push_cast
  ring

namespace RoundedAt
variable {q : ℚ} {t : Int} {R : Nat} {z w : Float}

theorem nearest (h : RoundedAt q t R z) (hw : Nonneg w) : |(R : ℚ) * 2 ^ t - q| ≤ |value w - q| :=
  h.place.nearest h.near hw

theorem le_of_le (h : RoundedAt q t R z) (hw : Nonneg w) (hle : q ≤ value w) :
    R * 2 ^ t ≤ value w := by
  have hnear := h.nearest hw
  rw [abs_of_nonneg (a := value w - q) (by linarith)] at hnear
  linarith [(abs_le.1 hnear).2]

theorem ge_of_ge (h : RoundedAt q t R z) (hw : Nonneg w) (hle : value w ≤ q) :
    value w ≤ R * 2 ^ t := by
  have hnear := h.nearest hw
  rw [abs_of_nonpos (a := value w - q) (by linarith)] at hnear
  linarith [(abs_le.1 hnear).1]

/-! ### Normal numbers -/

theorem full (h : RoundedAt q t R z) (hq : 2 ^ (-1021 : Int) ≤ q) : (2 : ℚ) ^ (t + 52) ≤ q := by
  refine h.place.full.resolve_left ?_
  rintro rfl
  exact absurd h.place.lt (not_lt.2 hq)

theorem mantissa_full (h : RoundedAt q t R z) (hq : 2 ^ (-1021 : Int) ≤ q) : 2 ^ 52 ≤ R := by
  refine (h.place.le_mantissa h.near).resolve_left ?_
  rintro rfl
  exact absurd h.place.lt (not_lt.2 hq)

/-- An error of half a last place is the largest part of the least mantissa, which has no error. -/
theorem abs_sub_lt_of_full {u : ℚ} (hR : |(R : ℚ) - u| ≤ 1 / 2) (hu : 2 ^ 52 ≤ u) :
    |(R : ℚ) - u| < u / 2 ^ 53 := by
  by_contra hge
  rw [not_lt] at hge
  have hu' : u = (2 ^ 52 : Nat) := by
    push_cast
    linarith
  rw [hu'] at hR hge
  have hhalf : |(R : ℚ) - (2 ^ 52 : Nat)| = 1 / 2 := by
    refine le_antisymm hR ?_
    push_cast at hge ⊢
    linarith
  have hint : |((2 * R - 2 ^ 53 : Int) : ℚ)| = 1 := by
    have htwo : ((2 * R - 2 ^ 53 : Int) : ℚ) = 2 * ((R : ℚ) - (2 ^ 52 : Nat)) := by
      push_cast
      ring
    rw [htwo, abs_mul, hhalf]
    norm_num
  have habs : |(2 * R - 2 ^ 53 : Int)| = 1 := by exact_mod_cast hint
  rcases (abs_eq one_pos.le).1 habs with hone | hone <;> omega

theorem abs_sub_lt (h : RoundedAt q t R z) (hq : 2 ^ (-1021 : Int) ≤ q) :
    |(R : ℚ) * 2 ^ t - q| < q / 2 ^ 53 := by
  have hpow : (0 : ℚ) < 2 ^ t := by positivity
  have hu : 2 ^ 52 ≤ q / 2 ^ t := by
    have hfull := h.full hq
    rw [add_comm, zpow_add₀ two_ne_zero] at hfull
    exact (le_div_iff₀ hpow).2 hfull
  have hlt := abs_sub_lt_of_full h.near hu
  rw [abs_mul_zpow_sub]
  calc |(R : ℚ) - q / 2 ^ t| * 2 ^ t < q / 2 ^ t / 2 ^ 53 * 2 ^ t := mul_lt_mul_of_pos_right hlt hpow
    _ = q / 2 ^ 53 := by field_simp

/-! ### Numbers that are not changed -/

/-- A natural number of last places is their rounded number. -/
theorem eq_of_natCast (h : RoundedAt q t R z) {k : Nat} (hk : q / 2 ^ t = k) : R = k := by
  have hnear := h.near
  rw [hk] at hnear
  have hint : |((R - k : Int) : ℚ)| < 1 := by
    push_cast
    exact hnear.trans_lt (by norm_num)
  have habs : |(R - k : Int)| < 1 := by exact_mod_cast hint
  have := Int.abs_lt_one_iff.1 habs
  omega

theorem exact (h : RoundedAt q t R z) {k : Nat} {j : Int} (hk : k < 2 ^ 53) (hj : -1074 ≤ j)
    (hq : q = k * 2 ^ j) : R * 2 ^ t = q := by
  have hpow : (0 : ℚ) < 2 ^ t := by positivity
  have ht : t ≤ j := by
    rcases h.place.full with rfl | hfull
    · exact hj
    · have hlt := hfull.trans_lt (hq.trans_lt (mul_zpow_lt hk j))
      have hexp := (zpow_lt_zpow_iff_right₀ (by norm_num : (1 : ℚ) < 2)).1 hlt
      push_cast at hexp
      omega
  obtain ⟨i, rfl⟩ : ∃ i : Nat, j = t + i := ⟨(j - t).toNat, by omega⟩
  have hdiv : q / 2 ^ t = (k * 2 ^ i : Nat) := by
    rw [hq, div_eq_iff hpow.ne', zpow_add₀ two_ne_zero, zpow_natCast]
    push_cast
    ring
  rw [h.eq_of_natCast hdiv, ← hdiv, div_mul_cancel₀ _ hpow.ne']

/-! ### Overflow -/

theorem value_eq (h : RoundedAt q t R z) (hz : z.isFinite = true) :
    Nonneg z ∧ value z = R * 2 ^ t := by
  refine h.result.resolve_right fun hinf => ?_
  obtain ⟨neg, m, e, hparts⟩ := (isFinite_iff z).1 hz
  rw [hparts] at hinf
  cases hinf.1

/-- The last place and the mantissa of a double are at most those of the largest one. -/
theorem mantissa_lt (hz : Nonneg z) (hvalue : value z = R * 2 ^ t) (hR : 2 ^ 52 ≤ R) :
    t < 971 ∨ t = 971 ∧ R < 2 ^ 53 := by
  have hlt := hz.value_lt
  rw [hvalue] at hlt
  rcases Int.lt_trichotomy t 971 with ht | rfl | ht
  · exact .inl ht
  · refine .inr ⟨rfl, ?_⟩
    by_contra hge
    refine absurd hlt (not_lt.2 ?_)
    calc (2 : ℚ) ^ (1024 : Int) = ((2 ^ 53 : Nat) : ℚ) * 2 ^ (971 : Int) := by
          rw [zpow_natCast_mul]
          rfl
      _ ≤ R * 2 ^ (971 : Int) := by
          refine mul_le_mul_of_nonneg_right ?_ (by positivity)
          exact_mod_cast not_lt.1 hge
  · refine absurd hlt (not_lt.2 ?_)
    calc (2 : ℚ) ^ (1024 : Int) ≤ 2 ^ ((52 : Nat) + t) :=
          zpow_le_zpow_right₀ (by norm_num) (by push_cast; omega)
      _ = ((2 ^ 52 : Nat) : ℚ) * 2 ^ t := (zpow_natCast_mul 52 t).symm
      _ ≤ R * 2 ^ t := by
          refine mul_le_mul_of_nonneg_right ?_ (by positivity)
          exact_mod_cast hR

/-- A double and the distance to what it was rounded from, on whichever side this lies. -/
theorem add_abs_lt_overflow (h : RoundedAt q t R z) (hz : z.isFinite = true) :
    R * 2 ^ t + |(R : ℚ) * 2 ^ t - q| < overflow := by
  have hpow : (0 : ℚ) < 2 ^ t := by positivity
  have hsum : R * 2 ^ t + |(R : ℚ) * 2 ^ t - q| = (R + |(R : ℚ) - q / 2 ^ t|) * 2 ^ t := by
    rw [abs_mul_zpow_sub]
    ring
  have hplace : t < 971 ∨ t = 971 ∧ R < 2 ^ 53 := by
    obtain ⟨hnonneg, hvalue⟩ := h.value_eq hz
    rcases h.place.le_mantissa h.near with rfl | hR
    · exact .inl (by omega)
    · exact mantissa_lt hnonneg hvalue hR
  rw [hsum, overflow_eq]
  rcases hplace with ht | ⟨rfl, hR⟩
  · have hle : (R : ℚ) ≤ (2 ^ 53 : Nat) := by exact_mod_cast h.place.mantissa_le h.near
    calc (R + |(R : ℚ) - q / 2 ^ t|) * 2 ^ t ≤ ((2 ^ 53 : Nat) + 1 / 2) * 2 ^ t :=
          mul_le_mul_of_nonneg_right (add_le_add hle h.near) hpow.le
      _ ≤ ((2 ^ 53 : Nat) + 1 / 2) * 2 ^ (970 : Int) := by
          refine mul_le_mul_of_nonneg_left ?_ (by positivity)
          exact zpow_le_zpow_right₀ (by norm_num) (by omega)
      _ < ((2 ^ 53 - 1 : Nat) + 1 / 2) * 2 ^ (971 : Int) := by
          have hdouble : (2 : ℚ) ^ (971 : Int) = 2 ^ (970 : Int) * 2 := by
            rw [← zpow_add_one₀ two_ne_zero]
            rfl
          have hpos : (0 : ℚ) < 2 ^ (970 : Int) := by positivity
          rw [hdouble]
          generalize (2 : ℚ) ^ (970 : Int) = u at hpos ⊢
          push_cast
          linarith
  · refine mul_lt_mul_of_pos_right ?_ hpow
    -- the largest mantissa is odd, so nothing half a unit away is rounded to it
    rcases Nat.lt_or_eq_of_le (Nat.le_of_lt_succ hR) with hlt | heq
    · have hle : (R : ℚ) + 1 ≤ (2 ^ 53 - 1 : Nat) := by exact_mod_cast hlt
      refine add_lt_add_of_lt_of_le ?_ h.near
      exact (lt_add_one _).trans_le hle
    · rw [heq] at h ⊢
      refine add_lt_add_of_le_of_lt le_rfl (lt_of_le_of_ne h.near fun htie => ?_)
      exact absurd (h.even htie) (by decide)

theorem isFinite_iff_lt_overflow (h : RoundedAt q t R z) : z.isFinite = true ↔ q < overflow := by
  constructor
  · intro hz
    have hsum := h.add_abs_lt_overflow hz
    linarith [neg_abs_le ((R : ℚ) * 2 ^ t - q)]
  · intro hq
    rcases h.result with ⟨hnonneg, -⟩ | ⟨-, hlarge⟩
    · exact hnonneg.finite
    · exfalso
      have hpow : (0 : ℚ) < 2 ^ t := by positivity
      have hle := h.place.mantissa_le h.near
      have ht : (971 : Int) ≤ t := by
        have hsmall : (R * 2 ^ t : ℚ) ≤ 2 ^ ((53 : Nat) + t) := by
          rw [← zpow_natCast_mul]
          refine mul_le_mul_of_nonneg_right ?_ hpow.le
          exact_mod_cast hle
        have hexp := (zpow_le_zpow_iff_right₀ (by norm_num : (1 : ℚ) < 2)).1 (hlarge.trans hsmall)
        push_cast at hexp
        omega
      rcases Int.lt_or_eq_of_le ht with hlt | rfl
      · have hfull := h.place.full.resolve_left (by omega)
        have hexp : (2 : ℚ) ^ (1024 : Int) ≤ 2 ^ (t + 52) :=
          zpow_le_zpow_right₀ (by norm_num) (by omega)
        have hpos : (0 : ℚ) < 2 ^ (970 : Int) := by positivity
        exact absurd (hq.trans (sub_lt_self _ hpos)) (not_lt.2 (hexp.trans hfull))
      · have hR : R = 2 ^ 53 := by
          have h1024 : (2 : ℚ) ^ (1024 : Int) = (2 ^ 53 : Nat) * 2 ^ (971 : Int) := by
            rw [zpow_natCast_mul]
            rfl
          rw [h1024] at hlarge
          have hge := le_of_mul_le_mul_right hlarge hpow
          exact le_antisymm hle (by exact_mod_cast hge)
        rw [overflow_eq, ← div_lt_iff₀ hpow] at hq
        have hnear := (abs_le.1 h.near).2
        rw [hR] at hnear
        generalize q / 2 ^ (971 : Int) = u at hq hnear
        push_cast at hnear hq
        linarith

end RoundedAt

end FlowTree.Binary64
