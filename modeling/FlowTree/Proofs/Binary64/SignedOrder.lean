import FlowTree.Proofs.Binary64.Sign

/-!
# The order of doubles of either sign

Finite doubles are ordered by their values whatever their signs are: a negation turns the order of
the keys round as it does that of the values. A sum is finite only if its terms are.
-/

namespace FlowTree.Binary64
open Float.Model (UnpackedFloat)

variable {x y : Float}

theorem Parts.key_neg {p : Parts} (h : p ≠ .nan) : p.neg.key = -p.key := by
  cases p with
  | nan => exact absurd rfl h
  | inf neg => cases neg <;> simp [Parts.neg, key, negative, magnitude]
  | fin neg m e => cases neg <;> simp [Parts.neg, key, negative, magnitude]

theorem key_neg (h : x.isNaN = false) : key (-x) = -key x := by
  rw [key, parts_neg, Parts.key_neg (parts_ne_nan h)]
  rfl

theorem Nonneg.key_nonneg (h : Nonneg x) : 0 ≤ key x := by
  obtain ⟨m, e, -, -, hkey⟩ := h.exists_parts
  rw [hkey]
  exact Int.natCast_nonneg _

theorem Nonneg.key_pos_iff (h : Nonneg x) : 0 < key x ↔ 0 < value x := by
  have hzero : key 0.0 = 0 := key_of_zero (.inl rfl)
  have hiff := nonneg_zero.key_lt_iff h
  rwa [hzero, value_zero] at hiff

theorem key_lt_iff_of_isFinite (hx : x.isFinite = true) (hy : y.isFinite = true) :
    key x < key y ↔ value x < value y := by
  have hkx := key_neg (isNaN_of_isFinite hx)
  have hky := key_neg (isNaN_of_isFinite hy)
  have hvx := value_neg x
  have hvy := value_neg y
  rcases nonneg_or_neg hx with hx | hx <;> rcases nonneg_or_neg hy with hy | hy
  · exact hx.key_lt_iff hy
  · have hk := hy.key_nonneg
    have hv := hy.value_nonneg
    refine iff_of_false ?_ ?_
    · linarith [hx.key_nonneg]
    · linarith [hx.value_nonneg]
  · -- neither is below the other if both are zero
    have hpos : 0 < key (-x) ∨ 0 < key y ↔ 0 < value (-x) ∨ 0 < value y :=
      or_congr hx.key_pos_iff hy.key_pos_iff
    have hkx' := hx.key_nonneg
    have hky' := hy.key_nonneg
    have hvx' := hx.value_nonneg
    have hvy' := hy.value_nonneg
    constructor
    · intro h
      rcases hpos.1 (by omega) with hv | hv <;> linarith
    · intro h
      have hv : 0 < value (-x) ∨ 0 < value y := by
        by_contra hle
        rw [not_or, not_lt, not_lt] at hle
        linarith [hle.1, hle.2]
      rcases hpos.2 hv with hk | hk <;> omega
  · have hiff := hy.key_lt_iff hx
    rw [hkx, hky, hvx, hvy] at hiff
    rwa [neg_lt_neg_iff, neg_lt_neg_iff] at hiff

theorem lt_iff_of_isFinite (hx : x.isFinite = true) (hy : y.isFinite = true) :
    x < y ↔ value x < value y := by
  rw [lt_iff (isNaN_of_isFinite hx) (isNaN_of_isFinite hy), key_lt_iff_of_isFinite hx hy]

/-! ### Finite sums -/

theorem isFinite_of_pack {u : UnpackedFloat} (h : (Float.ofModel (.pack u)).isFinite = true) :
    u.isFinite = true := by
  cases u with
  | notANumber => exact absurd h (by decide +kernel)
  | infinity s => cases s <;> exact absurd h (by decide +kernel)
  | zero s => rfl
  | finite s m e hm => rfl

theorem unpacked_isFinite_of_add {u v : UnpackedFloat}
    (h : (UnpackedFloat.add .binary64 u v).isFinite = true) :
    u.isFinite = true ∧ v.isFinite = true := by
  cases u with
  | notANumber => cases h
  | infinity s =>
    cases v with
    | infinity s' =>
      rw [UnpackedFloat.add] at h
      split at h <;> cases h
    | notANumber | zero | finite => cases h
  | zero s =>
    cases v with
    | notANumber | infinity => cases h
    | zero | finite => exact ⟨rfl, rfl⟩
  | finite s m e hm =>
    cases v with
    | notANumber | infinity => cases h
    | zero | finite => exact ⟨rfl, rfl⟩

theorem isFinite_of_add (h : (x + y).isFinite = true) : x.isFinite = true ∧ y.isFinite = true :=
  unpacked_isFinite_of_add (isFinite_of_pack h)

theorem isFinite_of_sub (h : (x - y).isFinite = true) : x.isFinite = true ∧ y.isFinite = true := by
  rw [← add_neg] at h
  rw [← isFinite_neg y]
  exact isFinite_of_add h

end FlowTree.Binary64
