import FlowTree.Proofs.Binary64.Nearest
import FlowTree.Proofs.Binary64.Ratio

/-!
# The whole numbers next to a double

The three roundings to a whole number find it exactly: what they take a double that is not negative
to has the value that the same rounding of rational numbers gives (`Takes`). Nothing is lost, since
whole numbers of up to 53 places are doubles and larger doubles are whole.
-/

namespace FlowTree.Binary64

variable {x : Float}

/-! ### Whole numbers that are doubles -/

/-- The whole numbers of up to 53 places, and the next one, are doubles. -/
theorem exists_canonical_natCast {n : Nat} (hn : n ≤ 2 ^ 53) :
    ∃ m e, (Parts.fin false m e).Canonical ∧ (n : ℚ) = m * 2 ^ e := by
  rcases Nat.eq_zero_or_pos n with rfl | hpos
  · exact ⟨0, -1074, ⟨by omega, le_rfl, by omega, .inr rfl⟩, by simp⟩
  rcases Nat.lt_or_eq_of_le hn with hlt | rfl
  · obtain ⟨hlow, hhigh⟩ := mul_places hpos hlt
    have hplaces : places n ≤ 52 := Nat.sub_le ..
    refine ⟨n * 2 ^ places n, -(places n : Int), ⟨hhigh, by omega, by omega, .inl hlow⟩, ?_⟩
    rw [Nat.cast_mul, mul_assoc, zpow_natCast_mul, add_neg_cancel, zpow_zero, mul_one]
  · refine ⟨2 ^ 52, 1, ⟨by omega, by omega, by omega, .inl le_rfl⟩, ?_⟩
    rw [zpow_natCast_mul]
    norm_num

theorem ofRatio_natCast {n m : Nat} {e : Int} (hc : (Parts.fin false m e).Canonical)
    (h : (n : ℚ) = m * 2 ^ e) : Nonneg (ofRatio false n 1) ∧ value (ofRatio false n 1) = n := by
  have hparts : parts (ofRatio false n 1) = .fin false m e :=
    parts_ofRatio Nat.one_pos hc (by rw [Nat.cast_one, div_one, h])
  exact ⟨nonneg_of_parts hparts, (value_of_parts hparts).trans h.symm⟩

theorem exists_nonneg_natCast {n : Nat} (hn : n ≤ 2 ^ 53) : ∃ w, Nonneg w ∧ value w = n := by
  obtain ⟨m, e, hc, h⟩ := exists_canonical_natCast hn
  exact ⟨_, ofRatio_natCast hc h⟩

/-- A double with a last place that is no fraction is whole. -/
theorem natCast_of_exp {m : Nat} {e : Int} (he : 0 ≤ e) :
    (m * 2 ^ e : ℚ) = (m * 2 ^ e.toNat : Nat) := by
  obtain ⟨k, rfl⟩ : ∃ k : Nat, e = k := ⟨e.toNat, by omega⟩
  rw [Int.toNat_natCast, zpow_natCast]
  push_cast
  rfl

theorem lt_of_exp_neg {m : Nat} {e : Int} (hm : m < 2 ^ 53) (he : e < 0) :
    (m * 2 ^ e : ℚ) < 2 ^ 52 := by
  rw [← zpow_natCast]
  exact (mul_zpow_lt hm e).trans_le (zpow_le_zpow_right₀ (by norm_num) (by push_cast; omega))

theorem Nonneg.whole_of_large (hx : Nonneg x) (h : 2 ^ 52 ≤ value x) :
    ∃ n : Nat, value x = n := by
  obtain ⟨m, e, ⟨hm, -, -, -⟩, hvalue, -⟩ := hx.exists_parts
  rw [hvalue] at h ⊢
  have he : 0 ≤ e := by
    by_contra hneg
    exact absurd h (not_le.2 (lt_of_exp_neg hm (not_le.1 hneg)))
  exact ⟨_, natCast_of_exp he⟩

/-! ### The three roundings -/

/-- `whole` takes a double that is not negative to the whole number that `W` gives for its value, and
leaves alone what is not finite. -/
structure Takes (whole : Float → Float) (W : ℚ → Nat) : Prop where
  natCast : ∀ n : Nat, W n = n
  mono : Monotone W
  nonneg : ∀ x, Nonneg x → Nonneg (whole x)
  value_eq : ∀ x, Nonneg x → value (whole x) = W (value x)
  other : ∀ x, x.isFinite = false → whole x = x

theorem takes_mapWhole {f : Bool → Nat → Int → Nat} {W : ℚ → Nat} (hcast : ∀ n : Nat, W n = n)
    (hmono : Monotone W) (hf : ∀ m e, f false m e = W (m * 2 ^ e))
    (hzero : ∀ neg, f neg 0 (-1074) = 0) : Takes (mapWhole f) W := by
  have hspec (x : Float) (hx : Nonneg x) :
      Nonneg (mapWhole f x) ∧ value (mapWhole f x) = W (value x) := by
    rcases hx.cases with ⟨neg, hparts⟩ | ⟨m, e, hm, hparts⟩
    · have hwhole : mapWhole f x = ofRatio neg 0 1 := by
        rw [mapWhole, hparts]
        exact congrArg (ofRatio neg · 1) (hzero neg)
      have hnearest := nearest_of_zero (x := ofRatio neg 0 1)
        (parts_ofRatio Nat.one_pos ⟨by omega, le_rfl, by omega, .inr rfl⟩ (by simp))
      rw [hwhole, (nearest_of_zero hparts).value_eq_zero, hnearest.value_eq_zero]
      exact ⟨hnearest.nonneg, by exact_mod_cast (hcast 0).symm⟩
    · have hcanonical := hparts ▸ canonical_parts x
      have hwhole : mapWhole f x = ofRatio false (W (m * 2 ^ e)) 1 := by
        rw [mapWhole, hparts, ← hf]
      rw [hwhole, value_of_parts hparts]
      by_cases he : 0 ≤ e
      · have hint := natCast_of_exp (m := m) he
        have hW : (W (m * 2 ^ e) : ℚ) = m * 2 ^ e := by
          rw [hint, hcast]
        exact ofRatio_natCast hcanonical hW
      · have hlt := lt_of_exp_neg hcanonical.1 (not_le.1 he)
        have hW : W (m * 2 ^ e) ≤ 2 ^ 52 := by
          refine (hmono hlt.le).trans_eq ?_
          exact_mod_cast hcast (2 ^ 52)
        obtain ⟨m', e', hc, h⟩ := exists_canonical_natCast (hW.trans (by norm_num))
        exact ofRatio_natCast hc h
  refine ⟨hcast, hmono, fun x hx => (hspec x hx).1, fun x hx => (hspec x hx).2, fun x hx => ?_⟩
  unfold mapWhole
  split
  · rename_i neg m e hparts
    rw [(isFinite_iff x).2 ⟨neg, m, e, hparts⟩] at hx
    cases hx
  · rfl

/-- A number whose last place is a fraction, as a quotient. -/
theorem mul_zpow_neg (m k : Nat) : (m * 2 ^ (-k : Int) : ℚ) = m / (2 ^ k : Nat) := by
  rw [zpow_neg, zpow_natCast, div_eq_mul_inv]
  push_cast
  rfl

theorem wholeBelow_eq (m : Nat) (e : Int) : wholeBelow m e = ⌊(m * 2 ^ e : ℚ)⌋₊ := by
  unfold wholeBelow
  split
  · rename_i he
    rw [natCast_of_exp he, Nat.floor_natCast, Nat.shiftLeft_eq]
  · obtain ⟨k, rfl⟩ : ∃ k : Nat, e = -k := ⟨(-e).toNat, by omega⟩
    rw [mul_zpow_neg, Nat.floor_div_eq_div, neg_neg, Int.toNat_natCast, Nat.shiftRight_eq_div_pow]

theorem wholeAbove_eq (m : Nat) (e : Int) : wholeAbove m e = ⌈(m * 2 ^ e : ℚ)⌉₊ := by
  unfold wholeAbove
  split
  · rename_i he
    rw [natCast_of_exp he, Nat.ceil_natCast, Nat.shiftLeft_eq]
  · obtain ⟨k, rfl⟩ : ∃ k : Nat, e = -k := ⟨(-e).toNat, by omega⟩
    have hpos : 0 < 2 ^ k := Nat.two_pow_pos k
    rw [mul_zpow_neg, neg_neg, Int.toNat_natCast, Nat.shiftRight_eq_div_pow, Nat.one_shiftLeft]
    refine eq_of_forall_ge_iff fun n => ?_
    rw [Nat.ceil_le, div_le_iff₀ (by exact_mod_cast hpos), ← Nat.cast_mul, Nat.cast_le,
      ← Nat.lt_succ_iff, Nat.div_lt_iff_lt_mul hpos, Nat.succ_mul]
    omega

theorem floor_natCast_add_half (n : Nat) : ⌊(n + 1 / 2 : ℚ)⌋₊ = n := by
  rw [Nat.floor_eq_iff (by positivity)]
  constructor <;> linarith

theorem wholeNear_eq (m : Nat) (e : Int) : wholeNear m e = ⌊(m * 2 ^ e : ℚ) + 1 / 2⌋₊ := by
  unfold wholeNear
  split
  · rename_i he
    rw [natCast_of_exp he, floor_natCast_add_half, Nat.shiftLeft_eq]
  · obtain ⟨k, rfl⟩ : ∃ k : Nat, e = -k := ⟨(-e).toNat, by omega⟩
    have hdiv : (m / (2 ^ k : Nat) + 1 / 2 : ℚ) = (2 * m + 2 ^ k : Nat) / (2 ^ (k + 1) : Nat) := by
      push_cast
      rw [pow_succ]
      field_simp
    rw [mul_zpow_neg, hdiv, Nat.floor_div_eq_div, neg_neg, Int.toNat_natCast,
      Nat.shiftRight_eq_div_pow, Nat.one_shiftLeft]

theorem takes_floor : Takes floor (⌊·⌋₊) :=
  takes_mapWhole Nat.floor_natCast Nat.floor_mono wholeBelow_eq fun neg => by
    cases neg <;> decide +kernel

theorem takes_ceil : Takes ceil (⌈·⌉₊) :=
  takes_mapWhole Nat.ceil_natCast Nat.ceil_mono wholeAbove_eq fun neg => by
    cases neg <;> decide +kernel

theorem takes_round : Takes round (fun q => ⌊q + 1 / 2⌋₊) := by
  refine takes_mapWhole floor_natCast_add_half (fun p q h => ?_) wholeNear_eq fun _ => by
    decide +kernel
  exact Nat.floor_mono (by linarith)

end FlowTree.Binary64
