import FlowTree.Proofs.Binary64.Finite
import FlowTree.Proofs.Binary64.HalfEven
import FlowTree.Proofs.Binary64.Sign

/-!
# Integers as nearest doubles

A quotient of naturals is rounded half to even. So the double that an integer becomes is nearest to
it, and that keeps it on the side of any other double that the integer is on. It is whole: where
doubles have fractions, the integers are doubles themselves.
-/

namespace FlowTree.Binary64
open Float.Model.UnpackedFloat (ExtendedMantissa accuracyOfFraction)

/-! ### Rounding a quotient -/

variable {num den : Nat}

/-- The quotient and the remainder of a division are rounded as the arithmetic of doubles does. -/
theorem nearestEven_eq (num : Nat) (hd : 0 < den) :
    nearestEven num den = (ExtendedMantissa.ofMantissaAndAccuracy (num / den)
      (accuracyOfFraction (num % den) den)).roundedMantissa := by
  unfold nearestEven accuracyOfFraction
  simp only []
  rcases Nat.lt_trichotomy (2 * (num % den)) den with h | h | h
  · rw [if_pos (.inl h)]
    split
    · rfl
    · rw [Nat.compare_eq_lt.2 h]
      rfl
  · have hne : num % den ≠ 0 := by omega
    rw [if_neg hne, Nat.compare_eq_eq.2 h]
    show _ = num / den + num / den % 2
    split <;> omega
  · have hne : num % den ≠ 0 := by omega
    rw [if_neg hne, if_neg (by omega), Nat.compare_eq_gt.2 h]
    rfl

theorem abs_nearestEven_sub_le (num : Nat) (hd : 0 < den) :
    |(nearestEven num den : ℚ) - num / den| ≤ 1 / 2 := by
  rw [nearestEven_eq num hd]
  exact (Approximates.quotient num hd).abs_roundedMantissa_sub_le

theorem even_nearestEven (num : Nat) (hd : 0 < den)
    (htie : |(nearestEven num den : ℚ) - num / den| = 1 / 2) : Even (nearestEven num den) := by
  rw [nearestEven_eq num hd] at htie ⊢
  exact (Approximates.quotient num hd).even_roundedMantissa htie

/-- The parts of a rounded mantissa, with an exponent that may be too high for a double. -/
theorem exists_roundedParts {R : Nat} {t : Int} (hR : R ≤ 2 ^ 53) (hlow : -1074 ≤ t)
    (hfull : t = -1074 ∨ 2 ^ 52 ≤ R) :
    ∃ m e, roundedParts R t = .fin false m e ∧ m < 2 ^ 53 ∧ -1074 ≤ e ∧
      (2 ^ 52 ≤ m ∨ e = -1074) ∧ (e + 1074).toNat * 2 ^ 52 + m = (t + 1074).toNat * 2 ^ 52 + R := by
  unfold roundedParts
  split
  · exact ⟨_, _, rfl, by decide, by omega, .inl le_rfl, by omega⟩
  · exact ⟨_, _, rfl, by omega, hlow, hfull.symm, rfl⟩

/-- A quotient is rounded half to even. -/
theorem roundedAt_ofRatio (hn : 0 < num) (hd : 0 < den) :
    ∃ t R, RoundedAt (num / den) t R (ofRatio false num den) := by
  have hplace := lastPlace_spec hn hd
  obtain ⟨t, ht⟩ : ∃ t, lastPlace num den = t := ⟨_, rfl⟩
  obtain ⟨R, hR⟩ : ∃ R, nearestEven (inUnits num den t).1 (inUnits num den t).2 = R := ⟨_, rfl⟩
  rw [ht] at hplace
  have hunits : 0 < (inUnits num den t).2 := inUnits_pos hd t
  have hnear := abs_nearestEven_sub_le (inUnits num den t).1 hunits
  have heven := even_nearestEven (inUnits num den t).1 hunits
  rw [inUnits_div, hR] at hnear heven
  have hrounded := roundedAt_roundedParts hplace hnear heven
  obtain ⟨m, e, hparts, hm, he, hfull, hmag⟩ :=
    exists_roundedParts (hplace.mantissa_le hnear) hplace.low (hplace.le_mantissa hnear)
  have hbits : magnitudeBits num den = min ((e + 1074).toNat * 2 ^ 52 + m) (2047 * 2 ^ 52) := by
    unfold magnitudeBits
    simp only [if_neg hn.ne', ht, hR, Nat.shiftLeft_eq, hmag]
  rw [hparts] at hrounded
  suffices hofRatio : ofRatio false num den = .ofModel (.pack (Parts.fin false m e).unpacked) by
    rw [hofRatio]
    exact ⟨t, R, hrounded⟩
  refine parts_inj ?_
  rw [ofRatio_eq, hbits]
  by_cases hexp : 971 < e
  · have hm' : 2 ^ 52 ≤ m := hfull.resolve_right (by omega)
    have hlarge : 2047 * 2 ^ 52 ≤ (e + 1074).toNat * 2 ^ 52 + m := by
      have hE : 2046 ≤ (e + 1074).toNat := by omega
      have hfield : 2046 * 2 ^ 52 ≤ (e + 1074).toNat * 2 ^ 52 := Nat.mul_le_mul_right _ hE
      omega
    have hword : false.toNat * 2 ^ 63 + 2047 * 2 ^ 52 = (Parts.inf false).word := by
      simp [Parts.word, Parts.negative, Parts.magnitude]
    rw [parts_pack_of_large (by omega) hexp, Nat.min_eq_right hlarge, hword,
      parts_ofBits (p := .inf false) trivial]
  · have hc : (Parts.fin false m e).Canonical := ⟨hm, he, by omega, hfull⟩
    have hword : false.toNat * 2 ^ 63 + ((e + 1074).toNat * 2 ^ 52 + m) =
        (Parts.fin false m e).word := rfl
    rw [parts_pack hc, Nat.min_eq_left (by omega), hword, parts_ofBits hc]

/-! ### Integers -/

section
variable {w : Float} {n : Nat}

theorem ofInt_natCast (n : Nat) : ofInt n = ofRatio false n 1 := by
  rw [ofInt, Int.natAbs_natCast, decide_eq_false (by omega)]

theorem roundedAt_ofInt (hpos : 0 < n) (hn : n ≤ 2 ^ 64) :
    ∃ t R, RoundedAt n t R (ofInt n) ∧ Nonneg (ofInt n) ∧ value (ofInt n) = R * 2 ^ t := by
  obtain ⟨t, R, h⟩ := roundedAt_ofRatio hpos Nat.one_pos
  rw [Nat.cast_one, div_one, ← ofInt_natCast] at h
  exact ⟨t, R, h, h.value_eq (isFinite_ofInt (by rwa [Int.natAbs_natCast]))⟩

theorem value_ofInt_zero : value (ofInt 0) = 0 := by
  rw [ofInt_zero, value_zero]

theorem nonneg_ofInt (hn : n ≤ 2 ^ 64) : Nonneg (ofInt n) := by
  rcases Nat.eq_zero_or_pos n with rfl | hpos
  · exact ofInt_zero ▸ nonneg_zero
  · obtain ⟨-, -, -, h, -⟩ := roundedAt_ofInt hpos hn
    exact h

theorem Nonneg.value_ofInt_le (hw : Nonneg w) (hn : n ≤ 2 ^ 64) (h : n ≤ value w) :
    value (ofInt n) ≤ value w := by
  rcases Nat.eq_zero_or_pos n with rfl | hpos
  · exact value_ofInt_zero.trans_le hw.value_nonneg
  · obtain ⟨t, R, hrounded, -, hvalue⟩ := roundedAt_ofInt hpos hn
    exact hvalue ▸ hrounded.le_of_le hw h

theorem Nonneg.le_value_ofInt (hw : Nonneg w) (hn : n ≤ 2 ^ 64) (h : value w ≤ n) :
    value w ≤ value (ofInt n) := by
  rcases Nat.eq_zero_or_pos n with rfl | hpos
  · exact (h.trans_eq Nat.cast_zero).trans_eq value_ofInt_zero.symm
  · obtain ⟨t, R, hrounded, -, hvalue⟩ := roundedAt_ofInt hpos hn
    exact hvalue ▸ hrounded.ge_of_ge hw h

/-- Below `2 ^ 53` it is the number itself, and from there on all doubles are whole. -/
theorem exists_natCast_value_ofInt (hn : n ≤ 2 ^ 64) : ∃ k : Nat, value (ofInt n) = k := by
  rcases Nat.lt_or_ge n (2 ^ 53) with hlt | hge
  · rcases Nat.eq_zero_or_pos n with rfl | hpos
    · exact ⟨0, value_ofInt_zero⟩
    · exact ⟨n, value_ofInt hpos hlt⟩
  · obtain ⟨w, hw, hvalue⟩ := exists_nonneg_natCast (n := 2 ^ 52) (by norm_num)
    refine (nonneg_ofInt hn).whole_of_large ?_
    have hle : value w ≤ n := by
      rw [hvalue]
      exact_mod_cast (by omega : 2 ^ 52 ≤ n)
    have hlow := hw.le_value_ofInt hn hle
    rw [hvalue] at hlow
    exact_mod_cast hlow

end

variable {w : Float} {k : Int}

theorem ofInt_neg (hk : k < 0) : ofInt k = -ofInt (-k) := by
  have hpos : ¬ -k < 0 := by omega
  rw [ofInt, ofInt, Int.natAbs_neg, decide_eq_true hk, decide_eq_false hpos, ofRatio_true]

theorem value_ofInt_neg (k : Int) : value (ofInt (-k)) = -value (ofInt k) := by
  rcases Int.lt_trichotomy k 0 with h | rfl | h
  · rw [ofInt_neg h, value_neg, neg_neg]
  · rw [Int.neg_zero, value_ofInt_zero, neg_zero]
  · rw [ofInt_neg (Int.neg_neg_of_pos h), value_neg, Int.neg_neg]

/-- The double that an integer becomes is not above any double that the integer is not above. -/
theorem value_ofInt_le (hk : k.natAbs ≤ 2 ^ 64) (hw : w.isFinite = true) (h : k ≤ value w) :
    value (ofInt k) ≤ value w := by
  have hneg := value_neg w
  obtain ⟨n, rfl | rfl⟩ := Int.eq_nat_or_neg k
  · rw [Int.natAbs_natCast] at hk
    rcases nonneg_or_neg hw with hw | hw
    · exact hw.value_ofInt_le hk (by exact_mod_cast h)
    · -- both are zero
      have hv := hw.value_nonneg
      have hn : (n : ℚ) ≤ 0 := by
        push_cast at h
        linarith
      obtain rfl : n = 0 := by exact_mod_cast le_antisymm hn n.cast_nonneg
      push_cast at h
      rw [Nat.cast_zero, value_ofInt_zero]
      exact h
  · rw [Int.natAbs_neg, Int.natAbs_natCast] at hk
    rw [value_ofInt_neg]
    rcases nonneg_or_neg hw with hw | hw
    · linarith [hw.value_nonneg, (nonneg_ofInt hk).value_nonneg]
    · have hle : value (-w) ≤ n := by
        push_cast at h
        linarith
      linarith [hw.le_value_ofInt hk hle]

theorem le_value_ofInt (hk : k.natAbs ≤ 2 ^ 64) (hw : w.isFinite = true) (h : value w ≤ k) :
    value w ≤ value (ofInt k) := by
  have hle : ((-k : Int) : ℚ) ≤ value (-w) := by
    rw [value_neg]
    push_cast
    linarith
  have hneg := value_ofInt_le (by rwa [Int.natAbs_neg]) ((isFinite_neg w).trans hw) hle
  rw [value_ofInt_neg, value_neg] at hneg
  linarith

theorem exists_intCast_value_ofInt (hk : k.natAbs ≤ 2 ^ 64) : ∃ j : Int, value (ofInt k) = j := by
  obtain ⟨n, rfl | rfl⟩ := Int.eq_nat_or_neg k
  · obtain ⟨j, hj⟩ := exists_natCast_value_ofInt (n := n) (by rwa [Int.natAbs_natCast] at hk)
    exact ⟨j, by rw [hj]; rfl⟩
  · obtain ⟨j, hj⟩ := exists_natCast_value_ofInt (n := n)
      (by rwa [Int.natAbs_neg, Int.natAbs_natCast] at hk)
    refine ⟨-j, ?_⟩
    rw [value_ofInt_neg, hj]
    push_cast
    rfl

end FlowTree.Binary64
