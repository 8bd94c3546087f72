import FlowTree.Proofs.Binary64.Order

/-!
# Doubles without a fraction

A whole double of at most 53 places is got back from the integer that it stands for: such an
integer takes up all its places in the mantissa, so nothing is rounded. Only the sign of a zero is
lost.
-/

namespace FlowTree.Binary64
open Float.Model (Format)

/-! ### Signs -/

/-- The same parts without a sign. -/
def Parts.abs : Parts → Parts
  | .nan => .nan
  | .inf _ => .inf false
  | .fin _ m e => .fin false m e

theorem Parts.unpacked_abs (p : Parts) : p.abs.unpacked = p.unpacked.abs := by
  cases p with
  | nan => rfl
  | inf neg => rfl
  | fin neg m e =>
    rcases Nat.eq_zero_or_pos m with rfl | hm
    · rfl
    · rw [unpacked_of_pos neg hm, abs, unpacked_of_pos false hm]
      rfl

theorem Parts.canonical_abs {p : Parts} (h : p.Canonical) : p.abs.Canonical := by
  cases p <;> exact h

theorem parts_abs (x : Float) : parts x.abs = (parts x).abs := by
  show parts (.ofModel (.pack x.toModel.unpack.abs)) = _
  rw [unpack_toModel, ← Parts.unpacked_abs, parts_pack (Parts.canonical_abs (canonical_parts x))]

/-! ### Rounding what needs no rounding -/

theorem nearestEven_one (n : Nat) : nearestEven n 1 = n := by
  simp [nearestEven, Nat.mod_one]

theorem log2_eq {n k : Nat} (hlow : 2 ^ 52 ≤ n * 2 ^ k) (hhigh : n * 2 ^ k < 2 ^ 53)
    (hk : k ≤ 52) : n.log2 = 52 - k := by
  have hpow : 2 ^ (52 - k) * 2 ^ k = 2 ^ 52 := by
    rw [← Nat.pow_add, Nat.sub_add_cancel hk]
  have hn : 2 ^ (52 - k) ≤ n :=
    Nat.le_of_mul_le_mul_right (hpow ▸ hlow) (Nat.two_pow_pos k)
  have hn' : n < 2 ^ (52 - k + 1) := by
    refine Nat.lt_of_mul_lt_mul_right (a := 2 ^ k) ?_
    rw [Nat.pow_succ, Nat.mul_right_comm, hpow]
    exact hhigh
  have hne : n ≠ 0 := by
    rintro rfl
    exact absurd hn (Nat.not_le.2 (Nat.two_pow_pos _))
  exact (Nat.log2_eq_iff hne).2 ⟨hn, hn'⟩

/-- The last place of a whole number that fills the mantissa when `k` places follow it. -/
theorem lastPlace_one {n k : Nat} (hlow : 2 ^ 52 ≤ n * 2 ^ k) (hhigh : n * 2 ^ k < 2 ^ 53)
    (hk : k ≤ 52) : lastPlace n 1 = -k := by
  have hstart : max (-1074) ((n.log2 : Int) - (1 : Nat).log2 - 53) = -(k + 1 : Nat) := by
    rw [log2_eq hlow hhigh hk, show (1 : Nat).log2 = 0 from rfl]
    omega
  have hunits : inUnits n 1 (-(k + 1 : Nat)) = (n <<< (k + 1), 1) := by
    rw [inUnits, if_neg (by omega)]
    rfl
  have hfull : (1 <<< 53 : Nat) ≤ n <<< (k + 1) := by
    rw [Nat.shiftLeft_eq, Nat.shiftLeft_eq, Nat.pow_succ 2 k, ← Nat.mul_assoc]
    omega
  unfold lastPlace
  simp only [hstart, hunits, if_pos hfull]
  omega

theorem inUnits_one (n k : Nat) : inUnits n 1 (-k : Int) = (n * 2 ^ k, 1) := by
  unfold inUnits
  split
  · obtain rfl : k = 0 := by omega
    simp
  · simp [Nat.shiftLeft_eq]

theorem magnitudeBits_one {n k : Nat} (hlow : 2 ^ 52 ≤ n * 2 ^ k) (hhigh : n * 2 ^ k < 2 ^ 53)
    (hk : k ≤ 52) (neg : Bool) :
    magnitudeBits n 1 = (Parts.fin neg (n * 2 ^ k) (-k)).magnitude := by
  have hn : n ≠ 0 := by
    rintro rfl
    omega
  have hc : (Parts.fin neg (n * 2 ^ k) (-k)).Canonical := ⟨hhigh, by omega, by omega, .inl hlow⟩
  have hlt := Parts.magnitude_fin_lt hc
  unfold magnitudeBits
  simp only [if_neg hn, lastPlace_one hlow hhigh hk, inUnits_one, nearestEven_one]
  simp only [Parts.magnitude] at hlt ⊢
  rw [Nat.shiftLeft_eq, Nat.shiftLeft_eq, Nat.min_eq_left hlt.le]

theorem ofRatio_one {neg : Bool} {n k : Nat} (hlow : 2 ^ 52 ≤ n * 2 ^ k)
    (hhigh : n * 2 ^ k < 2 ^ 53) (hk : k ≤ 52) :
    parts (ofRatio neg n 1) = .fin neg (n * 2 ^ k) (-k) := by
  have hc : (Parts.fin neg (n * 2 ^ k) (-k)).Canonical := ⟨hhigh, by omega, by omega, .inl hlow⟩
  have hword : (if neg then 1 <<< 63 else 0) + magnitudeBits n 1 =
      (Parts.fin neg (n * 2 ^ k) (-k)).word := by
    rw [magnitudeBits_one hlow hhigh hk neg, Parts.word, Nat.one_shiftLeft]
    cases neg with
    | false => rw [if_neg Bool.false_ne_true, Parts.negative, Bool.toNat_false, Nat.zero_mul]
    | true => rw [if_pos rfl, Parts.negative, Bool.toNat_true, Nat.one_mul]
  rw [ofRatio, hword, parts_ofBits hc]

/-! ### Whole doubles -/

theorem wholeBelow_mul {m k : Nat} (hdvd : 2 ^ k ∣ m) : wholeBelow m (-k) * 2 ^ k = m := by
  unfold wholeBelow
  split
  · obtain rfl : k = 0 := by omega
    simp
  · rw [Nat.shiftRight_eq_div_pow, show (-(-k : Int)).toNat = k by omega,
      Nat.div_mul_cancel hdvd]

theorem ofInt_zero : ofInt 0 = 0.0 := by
  decide +kernel

/-- The largest integer below which all others are doubles too. -/
theorem parts_ofInt_largest : parts (ofInt 9007199254740991) = .fin false 9007199254740991 0 := by
  decide +kernel

/-- The exponent of a double that is no larger than the largest of 53 places. -/
theorem exp_le_zero {x : Float} {neg : Bool} {m : Nat} {e : Int} (hx : parts x = .fin neg m e)
    (hle : x.abs ≤ ofInt 9007199254740991) : e ≤ 0 := by
  have habs : parts x.abs = .fin false m e := by rw [parts_abs, hx]; rfl
  have hmax := isNaN_eq_false parts_ofInt_largest nofun
  have hkey := (le_iff (isNaN_eq_false habs nofun) hmax).1 hle
  obtain ⟨hm, -, -, hn⟩ := hx ▸ canonical_parts x
  rw [key, key, habs, parts_ofInt_largest, Parts.key_of_not_negative rfl, Parts.key_of_not_negative rfl] at hkey
  simp only [Parts.magnitude] at hkey
  omega

/-- The last places of a whole double are zeros, and there are at most 52 of them. -/
theorem zeros_of_isWhole {x : Float} (hw : isWhole x = true) {neg : Bool} {m k : Nat}
    (hx : parts x = .fin neg m (-k)) (hm : 0 < m) : 2 ^ k ∣ m ∧ 2 ^ 52 ≤ m ∧ k ≤ 52 := by
  obtain ⟨hlt, -, -, hn⟩ := hx ▸ canonical_parts x
  have hdvd : 2 ^ k ∣ m := by
    simp only [isWhole, hx, Bool.or_eq_true, decide_eq_true_eq, beq_iff_eq, Nat.one_shiftLeft] at hw
    rcases hw with h0 | hmod
    · obtain rfl : k = 0 := by omega
      exact one_dvd m
    · rw [show (-(-k : Int)).toNat = k by omega] at hmod
      exact Nat.dvd_of_mod_eq_zero hmod
  have hle : k ≤ 52 := by
    have : 2 ^ k < 2 ^ 53 := (Nat.le_of_dvd hm hdvd).trans_lt hlt
    exact Nat.le_of_lt_succ ((Nat.pow_lt_pow_iff_right (by decide)).1 this)
  refine ⟨hdvd, ?_, hle⟩
  rcases hn with hn | hn
  · exact hn
  · omega

/-- A whole double of at most 53 places is the integer that it stands for, up to the sign of a
zero. -/
theorem ofInt_toInt {x : Float} (hw : isWhole x = true)
    (hle : x.abs ≤ ofInt 9007199254740991) : Same (ofInt (toInt x)) x := by
  cases hx : parts x with
  | nan => simp [isWhole, hx] at hw
  | inf neg => simp [isWhole, hx] at hw
  | fin neg m e =>
    obtain ⟨k, rfl⟩ : ∃ k : Nat, e = -k :=
      ⟨(-e).toNat, by have := exp_le_zero hx hle; omega⟩
    have htoInt : toInt x = if neg then -(wholeBelow m (-k) : Int) else wholeBelow m (-k) := by
      rw [toInt, hx]
    rcases Nat.eq_zero_or_pos m with rfl | hm
    · have hzero : toInt x = 0 := by
        have : wholeBelow 0 (-k) = 0 := by
          unfold wholeBelow
          split <;> simp
        rw [htoInt, this]
        split <;> rfl
      have hkey : key x = 0 := by
        rw [key, hx]
        exact Parts.key_zero (hx ▸ canonical_parts x)
      rw [hzero]
      exact .inr ⟨.inl ofInt_zero, eq_zero_of_key hkey⟩
    · obtain ⟨hdvd, hlow, hk⟩ := zeros_of_isWhole hw hx hm
      obtain ⟨hlt, -, -, -⟩ := hx ▸ canonical_parts x
      have hmul := wholeBelow_mul hdvd
      have hpos : 0 < wholeBelow m (-k) := by
        refine Nat.pos_of_ne_zero fun h => ?_
        rw [h, Nat.zero_mul] at hmul
        omega
      have hround : ofInt (toInt x) = ofRatio neg (wholeBelow m (-k)) 1 := by
        rw [htoInt, ofInt]
        cases neg with
        | false =>
          rw [if_neg Bool.false_ne_true, decide_eq_false (by omega), Int.natAbs_natCast]
        | true =>
          rw [if_pos rfl, decide_eq_true (by omega), Int.natAbs_neg, Int.natAbs_natCast]
      refine .inl (parts_inj ?_)
      rw [hround, ofRatio_one (by rw [hmul]; exact hlow) (by rw [hmul]; exact hlt) hk, hmul, hx]

end FlowTree.Binary64
