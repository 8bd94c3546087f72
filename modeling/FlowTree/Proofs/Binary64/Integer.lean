import FlowTree.Proofs.StoredNumber

/-!
# Integers as doubles

An integer of at most 53 places is a double without rounding, and so is the sum of two of them if
it has no more places either: the terms are lined up at their last places, added as integers, and
what rounding then does is to take off zeros or to put them on.
-/

namespace FlowTree.Binary64
open Float.Model (Format UnpackedFloat totalExponent)
open Float.Model.UnpackedFloat (Sign ExtendedMantissa shiftToExponent shiftToTargetExponent
  decreaseExponent)

/-! ### Rounding mantissas that end in zeros -/

theorem ofMantissaAndAccuracy_shiftRight (m k : Nat) :
    ExtendedMantissa.ofMantissaAndAccuracy (m * 2 ^ k) .exact >>> k =
      ExtendedMantissa.ofMantissaAndAccuracy m .exact := by
  show Nat.repeat ExtendedMantissa.shiftRightOne k _ = _
  induction k generalizing m with
  | zero => rw [Nat.pow_zero, Nat.mul_one, Nat.repeat]
  | succ k ih =>
    have hone : ExtendedMantissa.shiftRightOne (.ofMantissaAndAccuracy (m * 2) .exact) =
        .ofMantissaAndAccuracy m .exact := by
      simp [ExtendedMantissa.shiftRightOne, ExtendedMantissa.ofMantissaAndAccuracy]
    rw [Nat.repeat, Nat.pow_succ', ← Nat.mul_assoc, ih, hone]

theorem log2_mul_two_pow {n : Nat} (hn : 0 < n) (k : Nat) : (n * 2 ^ k).log2 = n.log2 + k := by
  obtain ⟨hlow, hhigh⟩ := (Nat.log2_eq_iff (Nat.ne_of_gt hn)).1 (Eq.refl n.log2)
  have hpos : 0 < n * 2 ^ k := Nat.mul_pos hn (Nat.two_pow_pos k)
  have hlow' := Nat.mul_le_mul_right (2 ^ k) hlow
  have hhigh' := Nat.mul_lt_mul_of_pos_right hhigh (Nat.two_pow_pos k)
  rw [← Nat.pow_add] at hlow' hhigh'
  rw [Nat.add_right_comm] at hhigh'
  exact (Nat.log2_eq_iff (Nat.ne_of_gt hpos)).2 ⟨hlow', hhigh'⟩

/-- The last place of a number that ends in zeros, moved further down. -/
theorem decreaseExponent_mul (n k j : Nat) :
    decreaseExponent (n * 2 ^ k) (-k) (-j) = (n * 2 ^ max k j, -((max k j : Nat) : Int)) := by
  rw [decreaseExponent, Nat.shiftLeft_eq, Nat.mul_assoc, ← Nat.pow_add]
  refine Prod.ext ?_ ?_
  · show n * 2 ^ (k + (-(k : Int) - -(j : Int)).toNat) = _
    congr 2
    omega
  · show -(k : Int) - (-(k : Int) - -(j : Int)).toNat = _
    omega

/-- How many places of a mantissa follow those of the integer. -/
def places (n : Nat) : Nat :=
  52 - n.log2

section
variable {n : Nat} (hn : 0 < n) (hlt : n < 2 ^ 53)
include hn hlt

theorem log2_le : n.log2 ≤ 52 :=
  Nat.le_of_lt_succ ((Nat.log2_lt (Nat.ne_of_gt hn)).2 hlt)

/-- The integer fills a mantissa. -/
theorem mul_places : 2 ^ 52 ≤ n * 2 ^ places n ∧ n * 2 ^ places n < 2 ^ 53 := by
  have hlog : (n * 2 ^ places n).log2 = 52 := by
    have hle := log2_le hn hlt
    rw [log2_mul_two_pow hn, places]
    omega
  have hpos : 0 < n * 2 ^ places n := Nat.mul_pos hn (Nat.two_pow_pos _)
  exact (Nat.log2_eq_iff (Nat.ne_of_gt hpos)).1 hlog

theorem targetExponent_mul (k : Nat) :
    Format.binary64.targetExponent (totalExponent (n * 2 ^ k) (-k)) = -(places n : Int) := by
  have hle := log2_le hn hlt
  show max (((n * 2 ^ k).log2 : Int) + 1 + -k - 53) (-1074) = -(places n : Int)
  rw [log2_mul_two_pow hn, places]
  omega

theorem shiftToTargetExponent_mul {k : Nat} (hk : places n ≤ k) :
    shiftToTargetExponent .binary64 (n * 2 ^ k) (-k) .exact =
      (.ofMantissaAndAccuracy (n * 2 ^ places n) .exact, -(places n : Int)) := by
  obtain ⟨d, rfl⟩ : ∃ d, k = places n + d := ⟨k - places n, by omega⟩
  unfold shiftToTargetExponent shiftToExponent
  simp only [targetExponent_mul hn hlt]
  rw [show (-(places n : Int) - -((places n + d : Nat) : Int)).toNat = d by omega, Nat.pow_add,
    ← Nat.mul_assoc, ofMantissaAndAccuracy_shiftRight]
  congr 1
  omega

/-- A whole number of at most 53 places is not rounded, wherever its last place is. -/
theorem round_mul (s : Sign) (k : Nat) (h : 0 < n * 2 ^ places n) :
    UnpackedFloat.round .binary64 s (n * 2 ^ k) (-k) =
      .finite s (n * 2 ^ places n) (-(places n : Int)) h := by
  have hfirst := shiftToTargetExponent_mul hn hlt (Nat.le_max_right k (places n))
  have hsecond := shiftToTargetExponent_mul hn hlt (Nat.le_refl (places n))
  have hrounded (m : Nat) :
      (ExtendedMantissa.ofMantissaAndAccuracy m .exact).roundedMantissa = m := rfl
  have hmantissa (m : Nat) :
      (ExtendedMantissa.ofMantissaAndAccuracy m .exact).mantissa = m := rfl
  unfold UnpackedFloat.round UnpackedFloat.roundWithAccuracy
  simp only [targetExponent_mul hn hlt, decreaseExponent_mul, hfirst, hrounded, hsecond, hmantissa]
  exact dif_neg (Nat.ne_of_gt h)

end

/-! ### Doubles that are integers -/

theorem parts_ofInt {n : Int} (hn : n ≠ 0) (hlt : n.natAbs < 2 ^ 53) :
    parts (ofInt n) =
      .fin (decide (n < 0)) (n.natAbs * 2 ^ places n.natAbs) (-(places n.natAbs : Int)) := by
  obtain ⟨hlow, hhigh⟩ := mul_places (Int.natAbs_pos.2 hn) hlt
  exact ofRatio_one hlow hhigh (Nat.sub_le ..)

theorem same_zero_iff (x : Float) : Same x (ofInt 0) ↔ x = 0.0 ∨ x = -0.0 := by
  rw [ofInt_zero]
  constructor
  · rintro (rfl | ⟨hx, -⟩)
    · exact .inl rfl
    · exact hx
  · exact fun hx => .inr ⟨hx, .inl rfl⟩

theorem same_ofInt_iff {x : Float} {n : Int} (hn : n ≠ 0) (hlt : n.natAbs < 2 ^ 53) :
    Same x (ofInt n) ↔ x = ofInt n := by
  constructor
  · rintro (rfl | ⟨-, hzero⟩)
    · rfl
    · -- an integer other than zero is no zero
      have hkey := key_of_zero hzero
      have hpos := mul_places (Int.natAbs_pos.2 hn) hlt
      have hmag := Parts.magnitude_pos (decide (n < 0)) (Nat.lt_of_lt_of_le (by decide) hpos.1)
        (-(places n.natAbs : Int))
      rw [key, parts_ofInt hn hlt, Parts.key] at hkey
      split at hkey <;> omega
  · rintro rfl
    exact .refl _

/-- What a double that is an integer is to the arithmetic of doubles. -/
theorem unpacked_of_same {x : Float} {n : Int} (h : Same x (ofInt n)) (hlt : n.natAbs < 2 ^ 53) :
    (n = 0 ∧ ∃ neg, (parts x).unpacked = .zero (signOf neg)) ∨
      (n ≠ 0 ∧ ∃ hpos, (parts x).unpacked = .finite (signOf (decide (n < 0)))
        (n.natAbs * 2 ^ places n.natAbs) (-(places n.natAbs : Int)) hpos) := by
  by_cases hn : n = 0
  · subst hn
    refine .inl ⟨rfl, ?_⟩
    obtain ⟨neg, hparts⟩ := exists_parts_of_zero ((same_zero_iff x).1 h)
    exact ⟨neg, by rw [hparts, Parts.unpacked_zero]⟩
  · obtain rfl := (same_ofInt_iff hn hlt).1 h
    have hpos : 0 < n.natAbs * 2 ^ places n.natAbs :=
      Nat.lt_of_lt_of_le (by decide) (mul_places (Int.natAbs_pos.2 hn) hlt).1
    refine .inr ⟨hn, hpos, ?_⟩
    rw [parts_ofInt hn hlt, Parts.unpacked_of_pos _ hpos]

theorem same_pack_zero (neg : Bool) : Same (.ofModel (.pack (.zero (signOf neg)))) (ofInt 0) := by
  refine (same_zero_iff _).2 ?_
  cases neg with
  | false =>
    have hpack := ofModel_pack_parts 0.0
    rw [parts_zero] at hpack
    exact .inl hpack
  | true =>
    have hpack := ofModel_pack_parts (-0.0)
    rw [parts_neg_zero] at hpack
    exact .inr hpack

theorem same_pack {n : Int} (hn : n ≠ 0) (hlt : n.natAbs < 2 ^ 53)
    (h : 0 < n.natAbs * 2 ^ places n.natAbs) :
    Same (.ofModel (.pack (.finite (signOf (decide (n < 0))) (n.natAbs * 2 ^ places n.natAbs)
      (-(places n.natAbs : Int)) h))) (ofInt n) := by
  have hpack := ofModel_pack_parts (ofInt n)
  rw [parts_ofInt hn hlt, Parts.unpacked_of_pos _ h] at hpack
  exact .inl hpack

/-! ### Sums -/

theorem apply_signOf (n : Int) (k : Nat) :
    (signOf (decide (n < 0))).apply ((n.natAbs * 2 ^ k : Nat) : Int) = n * 2 ^ k := by
  rcases lt_or_ge n 0 with hneg | hpos
  · rw [decide_eq_true hneg]
    show -((n.natAbs * 2 ^ k : Nat) : Int) = n * 2 ^ k
    rw [Int.natCast_mul, Int.ofNat_natAbs_of_nonpos (Int.le_of_lt hneg), Int.neg_mul, Int.neg_neg]
    rfl
  · rw [decide_eq_false (Int.not_lt.2 hpos)]
    show ((n.natAbs * 2 ^ k : Nat) : Int) = n * 2 ^ k
    rw [Int.natCast_mul, Int.natAbs_of_nonneg hpos]
    rfl

theorem same_normalize {n : Int} (hlt : n.natAbs < 2 ^ 53) (k : Nat) :
    Same (.ofModel (.pack (UnpackedFloat.normalize .binary64 (n * 2 ^ k) (-k) .positive)))
      (ofInt n) := by
  have hpow : (0 : Int) < 2 ^ k := Int.pow_pos (by decide)
  have hmul : (n * 2 ^ k).natAbs = n.natAbs * 2 ^ k := by
    rw [Int.natAbs_mul, Int.natAbs_pow]
    rfl
  unfold UnpackedFloat.normalize
  rcases Int.lt_trichotomy n 0 with hneg | rfl | hpos
  · have hprod : n * 2 ^ k < 0 := Int.mul_neg_of_neg_of_pos hneg hpow
    have habs : 0 < n.natAbs := Int.natAbs_pos.2 (Int.ne_of_lt hneg)
    have hfull := mul_places habs hlt
    have hsame := same_pack (Int.ne_of_lt hneg) hlt (Nat.lt_of_lt_of_le (by decide) hfull.1)
    rw [Int.compare_eq_lt.2 hprod]
    simp only []
    rw [show (-(n * 2 ^ k)).toNat = n.natAbs * 2 ^ k by omega, round_mul habs hlt]
    rwa [decide_eq_true hneg] at hsame
  · rw [Int.zero_mul, Int.compare_eq_eq.2 rfl]
    exact same_pack_zero false
  · have hprod : 0 < n * 2 ^ k := Int.mul_pos hpos hpow
    have habs : 0 < n.natAbs := Int.natAbs_pos.2 (Int.ne_of_gt hpos)
    have hfull := mul_places habs hlt
    have hsame := same_pack (Int.ne_of_gt hpos) hlt (Nat.lt_of_lt_of_le (by decide) hfull.1)
    rw [Int.compare_eq_gt.2 hprod]
    simp only []
    rw [show (n * 2 ^ k).toNat = n.natAbs * 2 ^ k by omega, round_mul habs hlt]
    rwa [decide_eq_false (Int.not_lt.2 (Int.le_of_lt hpos))] at hsame

/-- The sum of two integers is exact as long as it fits. -/
theorem same_add {x y : Float} {m n : Int} (hx : Same x (ofInt m)) (hy : Same y (ofInt n))
    (hm : m.natAbs < 2 ^ 53) (hn : n.natAbs < 2 ^ 53) (hsum : (m + n).natAbs < 2 ^ 53) :
    Same (x + y) (ofInt (m + n)) := by
  show Same (.ofModel (.pack (UnpackedFloat.add .binary64 x.toModel.unpack y.toModel.unpack))) _
  have hxmodel := ofModel_pack_parts x
  have hymodel := ofModel_pack_parts y
  rw [unpack_toModel, unpack_toModel]
  rcases unpacked_of_same hx hm with ⟨rfl, neg, hxu⟩ | ⟨hm0, hmpos, hxu⟩
  · rcases unpacked_of_same hy hn with ⟨rfl, neg', hyu⟩ | ⟨hn0, hnpos, hyu⟩
    · obtain ⟨neg'', hadd⟩ : ∃ neg'', UnpackedFloat.add .binary64 (parts x).unpacked
          (parts y).unpacked = .zero (signOf neg'') := by
        rw [hxu, hyu]
        cases neg with
        | false => exact ⟨false, by cases neg' <;> rfl⟩
        | true => exact ⟨neg', by cases neg' <;> rfl⟩
      rw [hadd, Int.add_zero]
      exact same_pack_zero neg''
    · have hadd : UnpackedFloat.add .binary64 (parts x).unpacked (parts y).unpacked =
          (parts y).unpacked := by
        rw [hxu, hyu]
        rfl
      rw [hadd, hymodel, Int.zero_add]
      exact hy
  · rcases unpacked_of_same hy hn with ⟨rfl, neg', hyu⟩ | ⟨hn0, hnpos, hyu⟩
    · have hadd : UnpackedFloat.add .binary64 (parts x).unpacked (parts y).unpacked =
          (parts x).unpacked := by
        rw [hxu, hyu]
        rfl
      rw [hadd, hxmodel, Int.add_zero]
      exact hx
    · -- both mantissas are lined up at the lower of their last places
      obtain ⟨k, hk⟩ : ∃ k, max (places m.natAbs) (places n.natAbs) = k := ⟨_, rfl⟩
      have hmin : min (-(places m.natAbs : Int)) (-(places n.natAbs : Int)) = -k := by omega
      have hmax (a : Int) (ha : places a.natAbs ≤ k) : max (places a.natAbs) k = k :=
        Nat.max_eq_right ha
      have hadd : UnpackedFloat.add .binary64 (parts x).unpacked (parts y).unpacked =
          UnpackedFloat.normalize .binary64 ((m + n) * 2 ^ k) (-k) .positive := by
        rw [hxu, hyu, UnpackedFloat.add]
        simp only [hmin, decreaseExponent_mul, hmax m (by omega), hmax n (by omega), apply_signOf,
          Int.add_mul]
      rw [hadd]
      exact same_normalize hsum k

theorem same_neg {x : Float} {n : Int} (h : Same x (ofInt n)) (hlt : n.natAbs < 2 ^ 53) :
    Same (-x) (ofInt (-n)) := by
  by_cases hn : n = 0
  · subst hn
    refine (same_zero_iff (-x)).2 ?_
    rcases (same_zero_iff x).1 h with rfl | rfl
    · exact .inr rfl
    · refine .inl (parts_inj ?_)
      rw [parts_neg, parts_neg_zero, parts_zero]
      rfl
  · obtain rfl := (same_ofInt_iff hn hlt).1 h
    refine .inl (parts_inj ?_)
    have hflip : (!decide (n < 0)) = decide (-n < 0) := by
      rw [← decide_not]
      exact decide_eq_decide.2 (by omega)
    rw [parts_neg, parts_ofInt hn hlt, parts_ofInt (Int.neg_ne_zero.2 hn) (by rwa [Int.natAbs_neg]),
      Int.natAbs_neg, Parts.neg, hflip]

/-! ### Integers as stored values -/

theorem abs_ofInt_le {n : Int} (hn : n ≠ 0) (hle : n.natAbs ≤ maxSafeInteger) :
    (ofInt n).abs ≤ ofInt maxSafeInteger := by
  have hlt : n.natAbs < 2 ^ 53 := Nat.lt_of_le_of_lt hle (by decide)
  have habs : parts (ofInt n).abs =
      .fin false (n.natAbs * 2 ^ places n.natAbs) (-(places n.natAbs : Int)) := by
    rw [parts_abs, parts_ofInt hn hlt]
    rfl
  have hmax : parts (ofInt maxSafeInteger) = .fin false maxSafeInteger 0 := parts_ofInt_largest
  obtain ⟨-, hhigh⟩ := mul_places (Int.natAbs_pos.2 hn) hlt
  have hplaces : places n.natAbs ≤ 52 := Nat.sub_le ..
  rw [le_iff (isNaN_eq_false habs nofun) (isNaN_eq_false hmax nofun), key, key, habs, hmax,
    Parts.key_of_not_negative rfl, Parts.key_of_not_negative rfl]
  simp only [Parts.magnitude]
  rcases Nat.eq_zero_or_pos (places n.natAbs) with hzero | hpos
  · rw [hzero, Nat.pow_zero, Nat.mul_one]
    omega
  · unfold maxSafeInteger
    omega

theorem toInt_ofInt {n : Int} (hn : n ≠ 0) (hlt : n.natAbs < 2 ^ 53) : toInt (ofInt n) = n := by
  have hbelow : wholeBelow (n.natAbs * 2 ^ places n.natAbs) (-(places n.natAbs : Int)) =
      n.natAbs := by
    have hdvd := wholeBelow_mul (m := n.natAbs * 2 ^ places n.natAbs) ⟨_, Nat.mul_comm ..⟩
    exact Nat.eq_of_mul_eq_mul_right (Nat.two_pow_pos _) hdvd
  rw [toInt, parts_ofInt hn hlt]
  simp only [hbelow, decide_eq_true_eq]
  split <;> omega

theorem isWhole_ofInt {n : Int} (hn : n ≠ 0) (hlt : n.natAbs < 2 ^ 53) :
    isWhole (ofInt n) = true := by
  rw [isWhole, parts_ofInt hn hlt]
  simp only [Bool.or_eq_true, beq_iff_eq, Nat.one_shiftLeft, Int.neg_neg, Int.toNat_natCast,
    Nat.mul_mod_left, or_true]

end FlowTree.Binary64

namespace FlowTree
open Binary64

/-- A double that is a safe integer is stored as that integer. -/
theorem Json.ofFloat_of_same {x : Float} {n : Int} (h : Same x (ofInt n))
    (hle : n.natAbs ≤ maxSafeInteger) : ofFloat x = .int n := by
  rw [ofFloat_congr h]
  by_cases hn : n = 0
  · subst hn
    decide +kernel
  · have hlt : n.natAbs < 2 ^ 53 := Nat.lt_of_le_of_lt hle (by decide)
    have hsafe : isSafeWhole (ofInt n) = true := by
      rw [isSafeWhole, isWhole_ofInt hn hlt]
      exact decide_eq_true (abs_ofInt_le hn hle)
    rw [ofFloat, parts_ofInt hn hlt]
    simp only [hsafe, if_true, toInt_ofInt hn hlt]

end FlowTree
