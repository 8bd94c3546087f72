import FlowTree.Proofs.Binary64.Sum

/-!
# Integers as finite doubles

A word of 64 bits is far from the largest double, so the double nearest to it is finite.
-/

namespace FlowTree.Binary64

/-- A double is finite if its magnitude bits are below those of an infinity. -/
theorem isFinite_ofBits (neg : Bool) {magnitude : Nat} (h : magnitude < 2047 * 2 ^ 52) :
    (Float.ofBits (UInt64.ofNat (neg.toNat * 2 ^ 63 + magnitude))).isFinite = true := by
  rw [isFinite_iff]
  by_cases hsub : magnitude < 2 ^ 52
  · have hc : (Parts.fin neg magnitude (-1074)).Canonical := ⟨by omega, by omega, by omega, .inr rfl⟩
    have hword : neg.toNat * 2 ^ 63 + magnitude = (Parts.fin neg magnitude (-1074)).word := by
      simp [Parts.word, Parts.negative, Parts.magnitude]
    exact ⟨_, _, _, hword ▸ parts_ofBits hc⟩
  · let p : Parts := .fin neg (magnitude % 2 ^ 52 + 2 ^ 52) ((magnitude / 2 ^ 52 : Nat) - 1075)
    have hc : p.Canonical := ⟨by omega, by omega, by omega, .inl (by omega)⟩
    have hword : neg.toNat * 2 ^ 63 + magnitude = p.word := by
      show _ = neg.toNat * 2 ^ 63 + ((_ - 1075 + 1074 : Int).toNat * 2 ^ 52 + _)
      omega
    exact ⟨_, _, _, hword ▸ parts_ofBits hc⟩

theorem nearestEven_le (num den : Nat) : nearestEven num den ≤ num / den + 1 := by
  unfold nearestEven
  simp only []
  split <;> omega

/-- The last place is none of those that the mantissa has no room for. -/
theorem lastPlace_one_mem (n : Nat) :
    (n.log2 : Int) - 53 ≤ lastPlace n 1 ∧ lastPlace n 1 ≤ max (-1074) ((n.log2 : Int) - 53) + 1 := by
  have hone : (1 : Nat).log2 = 0 := rfl
  unfold lastPlace
  simp only [hone]
  split <;> omega

theorem inUnits_one_lt {n : Nat} {e : Int} (h : (n.log2 : Int) - 53 ≤ e) :
    (inUnits n 1 e).1 / (inUnits n 1 e).2 < 2 ^ 54 := by
  have hn : n < 2 ^ (n.log2 + 1) := Nat.lt_log2_self
  unfold inUnits
  split
  · have hle : 2 ^ (n.log2 + 1) ≤ 2 ^ 54 * 2 ^ e.toNat := by
      rw [← Nat.pow_add]
      exact Nat.pow_le_pow_right (by decide) (by omega)
    simp only [Nat.one_shiftLeft]
    exact Nat.div_lt_of_lt_mul (by rw [Nat.mul_comm]; exact hn.trans_le hle)
  · have hle : 2 ^ (n.log2 + 1) * 2 ^ (-e).toNat ≤ 2 ^ 54 := by
      rw [← Nat.pow_add]
      exact Nat.pow_le_pow_right (by decide) (by omega)
    simp only [Nat.shiftLeft_eq, Nat.div_one]
    exact (Nat.mul_lt_mul_of_pos_right hn (Nat.two_pow_pos _)).trans_le hle

theorem isFinite_ofInt {n : Int} (h : n.natAbs ≤ 2 ^ 64) : (ofInt n).isFinite = true := by
  have hlog : n.natAbs.log2 ≤ 64 := by
    rcases Nat.eq_zero_or_pos n.natAbs with hzero | hpos
    · rw [hzero]
      exact Nat.zero_le 64
    · exact Nat.le_of_lt_succ ((Nat.log2_lt hpos.ne').2 (by omega))
  have hbits : magnitudeBits n.natAbs 1 < 2047 * 2 ^ 52 := by
    obtain ⟨hlow, hhigh⟩ := lastPlace_one_mem n.natAbs
    have hmant := inUnits_one_lt hlow
    have hround := nearestEven_le (inUnits n.natAbs 1 (lastPlace n.natAbs 1)).1
      (inUnits n.natAbs 1 (lastPlace n.natAbs 1)).2
    unfold magnitudeBits
    simp only [Nat.shiftLeft_eq]
    split <;> omega
  have hword : (if decide (n < 0) then 1 <<< 63 else 0) + magnitudeBits n.natAbs 1 =
      (decide (n < 0)).toNat * 2 ^ 63 + magnitudeBits n.natAbs 1 := by
    cases decide (n < 0) <;> rfl
  rw [ofInt, ofRatio, hword]
  exact isFinite_ofBits _ hbits

end FlowTree.Binary64
