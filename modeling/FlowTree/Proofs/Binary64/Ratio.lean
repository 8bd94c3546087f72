import FlowTree.Proofs.Binary64.Rounding

/-!
# Quotients of naturals as doubles

A number has one last place (`LastPlace.unique`), and `lastPlace` finds it from the logarithms of a
quotient that the number is. So `ofRatio` depends on the quotient only and not on the two naturals
that it is written with, and it gives back a double whose value the quotient is.
-/

namespace FlowTree.Binary64

/-! ### The last place of a quotient -/

theorem LastPlace.unique {q : ℚ} {s t : Int} (hs : LastPlace q s) (ht : LastPlace q t) : s = t := by
  have hle {s t : Int} (hs : LastPlace q s) (ht : LastPlace q t) : t ≤ s := by
    by_contra hlt
    have hfull : (2 : ℚ) ^ (t + 52) ≤ q := by
      have hlow := hs.low
      exact ht.full.resolve_left (by omega)
    have hpow := (zpow_lt_zpow_iff_right₀ (by norm_num : (1 : ℚ) < 2)).1 (hfull.trans_lt hs.lt)
    omega
  exact le_antisymm (hle ht hs) (hle hs ht)

/-- The value of a double has its last place where the double has it. -/
theorem Parts.Canonical.lastPlace {neg : Bool} {m : Nat} {e : Int} (h : (fin neg m e).Canonical) :
    LastPlace (m * 2 ^ e) e := by
  obtain ⟨hm, he, -, hn⟩ := h
  have hpow : (0 : ℚ) < 2 ^ e := by positivity
  refine ⟨he, ?_, hn.symm.imp_right fun hn => ?_⟩
  · rw [add_comm, zpow_add₀ two_ne_zero]
    refine mul_lt_mul_of_pos_right ?_ hpow
    exact_mod_cast hm
  · rw [add_comm, zpow_add₀ two_ne_zero]
    refine mul_le_mul_of_nonneg_right ?_ hpow.le
    exact_mod_cast hn

theorem inUnits_pos {num den : Nat} (hd : 0 < den) (e : Int) : 0 < (inUnits num den e).2 := by
  unfold inUnits
  split
  · rw [Nat.shiftLeft_eq]
    positivity
  · exact hd

theorem inUnits_div (num den : Nat) (e : Int) :
    ((inUnits num den e).1 / (inUnits num den e).2 : ℚ) = num / den / 2 ^ e := by
  unfold inUnits
  split
  · obtain ⟨k, rfl⟩ : ∃ k : Nat, e = k := ⟨e.toNat, by omega⟩
    rw [Nat.shiftLeft_eq, Int.toNat_natCast, zpow_natCast, Nat.cast_mul, div_div]
    push_cast
    rfl
  · obtain ⟨k, rfl⟩ : ∃ k : Nat, e = -k := ⟨(-e).toNat, by omega⟩
    rw [Nat.shiftLeft_eq, neg_neg, Int.toNat_natCast, zpow_neg, zpow_natCast, div_inv_eq_mul]
    push_cast
    ring

section
variable {num den : Nat}

/-- A quotient is within a factor of two of the quotient of the leading places. -/
theorem ratio_mem (hn : 0 < num) (hd : 0 < den) :
    (2 : ℚ) ^ ((num.log2 : Int) - den.log2 - 1) ≤ num / den ∧
      (num / den : ℚ) < 2 ^ ((num.log2 : Int) - den.log2 + 1) := by
  have hd' : (0 : ℚ) < den := by exact_mod_cast hd
  have hdlow : ((2 ^ den.log2 : Nat) : ℚ) ≤ den := by exact_mod_cast Nat.log2_self_le hd.ne'
  have hdhigh : (den : ℚ) ≤ (2 ^ (den.log2 + 1) : Nat) := by exact_mod_cast Nat.lt_log2_self.le
  have hnlow : ((2 ^ num.log2 : Nat) : ℚ) ≤ num := by exact_mod_cast Nat.log2_self_le hn.ne'
  have hnhigh : (num : ℚ) < (2 ^ (num.log2 + 1) : Nat) := by exact_mod_cast Nat.lt_log2_self
  constructor
  · rw [le_div_iff₀ hd']
    calc (2 : ℚ) ^ ((num.log2 : Int) - den.log2 - 1) * den
        ≤ 2 ^ ((num.log2 : Int) - den.log2 - 1) * (2 ^ (den.log2 + 1) : Nat) := by gcongr
      _ = (2 ^ num.log2 : Nat) := by
          rw [mul_comm, zpow_natCast_mul, Nat.cast_pow, Nat.cast_two, ← zpow_natCast]
          congr 1
          push_cast
          ring
      _ ≤ num := hnlow
  · rw [div_lt_iff₀ hd']
    calc (num : ℚ) < (2 ^ (num.log2 + 1) : Nat) := hnhigh
      _ = 2 ^ ((num.log2 : Int) - den.log2 + 1) * (2 ^ den.log2 : Nat) := by
          rw [mul_comm, zpow_natCast_mul, Nat.cast_pow, Nat.cast_two, ← zpow_natCast]
          congr 1
          push_cast
          ring
      _ ≤ 2 ^ ((num.log2 : Int) - den.log2 + 1) * den := by gcongr

theorem lastPlace_spec (hn : 0 < num) (hd : 0 < den) :
    LastPlace (num / den) (lastPlace num den) := by
  obtain ⟨hlow, hhigh⟩ := ratio_mem hn hd
  obtain ⟨s, hs⟩ : ∃ s, max (-1074) ((num.log2 : Int) - den.log2 - 53) = s := ⟨_, rfl⟩
  have hfilled : (inUnits num den s).2 <<< 53 ≤ (inUnits num den s).1 ↔
      (2 : ℚ) ^ (s + 53) ≤ num / den := by
    have hpos : (0 : ℚ) < (inUnits num den s).2 := by exact_mod_cast inUnits_pos hd s
    rw [add_comm, zpow_add₀ two_ne_zero, ← le_div_iff₀ (by positivity), ← inUnits_div,
      le_div_iff₀ hpos, Nat.shiftLeft_eq, mul_comm, ← Nat.cast_le (α := ℚ)]
    push_cast
    rfl
  unfold lastPlace
  simp only [hs]
  split
  · rename_i h
    refine ⟨by omega, hhigh.trans_le (zpow_le_zpow_right₀ (by norm_num) (by omega)), .inr ?_⟩
    rw [add_assoc]
    exact hfilled.1 h
  · rename_i h
    refine ⟨by omega, not_le.1 (mt hfilled.2 h), ?_⟩
    by_cases hlowest : s = -1074
    · exact .inl hlowest
    · -- the place was not raised to the lowest one
      refine .inr ?_
      rwa [show s + 52 = (num.log2 : Int) - den.log2 - 1 by omega]

end

/-! ### Rounding a quotient -/

theorem nearestEven_mul (num den : Nat) {k : Nat} (hk : 0 < k) :
    nearestEven (num * k) (den * k) = nearestEven num den := by
  have hlt : 2 * (num % den * k) < den * k ↔ 2 * (num % den) < den := by
    rw [← Nat.mul_assoc, Nat.mul_lt_mul_right hk]
  have heq : 2 * (num % den * k) = den * k ↔ 2 * (num % den) = den := by
    rw [← Nat.mul_assoc, Nat.mul_left_inj hk.ne']
  simp only [nearestEven, Nat.mul_div_mul_right _ _ hk, Nat.mul_mod_mul_right, hlt, heq]

theorem nearestEven_congr {num den num' den' : Nat} (hd : 0 < den) (hd' : 0 < den')
    (h : (num / den : ℚ) = num' / den') : nearestEven num den = nearestEven num' den' := by
  have hcross : num * den' = num' * den := by
    rw [div_eq_div_iff (by exact_mod_cast hd.ne') (by exact_mod_cast hd'.ne')] at h
    exact_mod_cast h
  rw [← nearestEven_mul num den hd', hcross, Nat.mul_comm den, nearestEven_mul num' den' hd]

theorem magnitudeBits_congr {num den num' den' : Nat} (hd : 0 < den) (hd' : 0 < den')
    (h : (num / den : ℚ) = num' / den') : magnitudeBits num den = magnitudeBits num' den' := by
  have hd0 : (den : ℚ) ≠ 0 := by exact_mod_cast hd.ne'
  have hd0' : (den' : ℚ) ≠ 0 := by exact_mod_cast hd'.ne'
  have hzero : num = 0 ↔ num' = 0 := by
    have hiff : (num / den : ℚ) = 0 ↔ (num' / den' : ℚ) = 0 := by rw [h]
    rw [div_eq_zero_iff, or_iff_left hd0, div_eq_zero_iff, or_iff_left hd0'] at hiff
    exact_mod_cast hiff
  unfold magnitudeBits
  by_cases hn : num = 0
  · rw [if_pos hn, if_pos (hzero.1 hn)]
  · have hn' := mt hzero.2 hn
    have hplace : lastPlace num den = lastPlace num' den' :=
      (lastPlace_spec (Nat.pos_of_ne_zero hn) hd).unique
        (h ▸ lastPlace_spec (Nat.pos_of_ne_zero hn') hd')
    have hunits : ((inUnits num den (lastPlace num den)).1 /
        (inUnits num den (lastPlace num den)).2 : ℚ) =
        (inUnits num' den' (lastPlace num den)).1 / (inUnits num' den' (lastPlace num den)).2 := by
      rw [inUnits_div, inUnits_div, h]
    simp only [if_neg hn, if_neg hn', ← hplace,
      nearestEven_congr (inUnits_pos hd _) (inUnits_pos hd' _) hunits]

/-- Two quotients that are one number are rounded to one double. -/
theorem ofRatio_congr (neg : Bool) {num den num' den' : Nat} (hd : 0 < den) (hd' : 0 < den')
    (h : (num / den : ℚ) = num' / den') : ofRatio neg num den = ofRatio neg num' den' := by
  rw [ofRatio, ofRatio, magnitudeBits_congr hd hd' h]

/-! ### Quotients that are doubles -/

theorem magnitudeBits_of_value (neg : Bool) {num den m : Nat} {e : Int} (hd : 0 < den)
    (hc : (Parts.fin neg m e).Canonical) (h : (num / den : ℚ) = m * 2 ^ e) :
    magnitudeBits num den = (Parts.fin neg m e).magnitude := by
  have hpow : (2 : ℚ) ^ e ≠ 0 := by positivity
  unfold magnitudeBits
  by_cases hn : num = 0
  · have hm : m = 0 := by
      rw [hn, Nat.cast_zero, zero_div, eq_comm, mul_eq_zero, or_iff_left hpow] at h
      exact_mod_cast h
    obtain ⟨-, -, -, hn'⟩ := hc
    rw [if_pos hn]
    simp only [Parts.magnitude]
    omega
  · have hplace : lastPlace num den = e :=
      (lastPlace_spec (Nat.pos_of_ne_zero hn) hd).unique (h ▸ hc.lastPlace)
    have hexact : nearestEven (inUnits num den e).1 (inUnits num den e).2 = m := by
      have hunits : ((inUnits num den e).1 / (inUnits num den e).2 : ℚ) = m / (1 : Nat) := by
        rw [inUnits_div, h, Nat.cast_one, div_one, mul_div_cancel_right₀ _ hpow]
      rw [nearestEven_congr (inUnits_pos hd e) Nat.one_pos hunits, nearestEven_one]
    have hlt := Parts.magnitude_fin_lt hc
    simp only [if_neg hn, hplace, hexact]
    simp only [Parts.magnitude] at hlt ⊢
    rw [Nat.shiftLeft_eq, Nat.shiftLeft_eq, Nat.min_eq_left hlt.le]

theorem ofRatio_eq (neg : Bool) (num den : Nat) :
    ofRatio neg num den =
      Float.ofBits (UInt64.ofNat (neg.toNat * 2 ^ 63 + magnitudeBits num den)) := by
  cases neg <;> rfl

/-- A quotient that is the value of a double is rounded to this double. -/
theorem parts_ofRatio {neg : Bool} {num den m : Nat} {e : Int} (hd : 0 < den)
    (hc : (Parts.fin neg m e).Canonical) (h : (num / den : ℚ) = m * 2 ^ e) :
    parts (ofRatio neg num den) = .fin neg m e := by
  have hword : neg.toNat * 2 ^ 63 + magnitudeBits num den = (Parts.fin neg m e).word := by
    rw [magnitudeBits_of_value neg hd hc h]
    rfl
  rw [ofRatio_eq, hword, parts_ofBits hc]

theorem parts_ofDyadic {neg : Bool} {m : Nat} {e : Int} (hc : (Parts.fin neg m e).Canonical) :
    parts (ofDyadic neg m e) = .fin neg m e := by
  unfold ofDyadic
  split
  · obtain ⟨k, rfl⟩ : ∃ k : Nat, e = k := ⟨e.toNat, by omega⟩
    refine parts_ofRatio Nat.one_pos hc ?_
    rw [Nat.shiftLeft_eq, Int.toNat_natCast, zpow_natCast]
    push_cast
    ring
  · obtain ⟨k, rfl⟩ : ∃ k : Nat, e = -k := ⟨(-e).toNat, by omega⟩
    refine parts_ofRatio ?_ hc ?_
    · rw [Nat.one_shiftLeft]
      positivity
    · rw [Nat.one_shiftLeft, neg_neg, Int.toNat_natCast, zpow_neg, zpow_natCast, div_eq_mul_inv]
      push_cast
      rfl

/-! ### Signs and infinities -/

theorem magnitudeBits_le (num den : Nat) : magnitudeBits num den ≤ 2047 * 2 ^ 52 := by
  unfold magnitudeBits
  split
  · exact Nat.zero_le _
  · exact (Nat.min_le_right _ _).trans_eq (Nat.shiftLeft_eq ..)

/-- The sign of a quotient is only set. -/
theorem ofRatio_true (num den : Nat) : ofRatio true num den = -ofRatio false num den := by
  -- the bits of the magnitude leave the highest bit of the word to the sign
  have hbits := magnitudeBits_le num den
  obtain ⟨E, m, hE, hm, hsplit⟩ : ∃ E m, E < 2048 ∧ m < 2 ^ 52 ∧
      magnitudeBits num den = E * 2 ^ 52 + m :=
    ⟨magnitudeBits num den / 2 ^ 52, magnitudeBits num den % 2 ^ 52, by omega, by omega, by omega⟩
  have hword (neg : Bool) : parts (ofRatio neg num den) =
      Parts.ofWord (neg.toNat * 2 ^ 63 + (E * 2 ^ 52 + m)) := by
    have hneg := neg.toNat_le
    rw [ofRatio_eq, parts_ofBits_ofNat (by omega), hsplit]
  refine parts_inj ?_
  rw [parts_neg, hword, hword, Parts.ofWord_fields true hE hm, Parts.ofWord_fields false hE hm]
  split
  · split <;> rfl
  · split <;> rfl

end FlowTree.Binary64
