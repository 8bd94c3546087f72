import FlowTree.Proofs.Binary64.Sum
import FlowTree.World.StatTemplate

/-!
# Numbers as stored values

A double that is stored as a value is got back as the same number, but for the sign of a zero, and
what is not finite is stored by its name. To bring a number into a range yields a number of the
range, whatever the number is; what is no number stays as it is.
-/

namespace FlowTree

open Binary64

/-! ### Values and doubles -/

namespace Json

theorem ofFloat_congr {x y : Float} (h : Same x y) : ofFloat x = ofFloat y := by
  rcases h with rfl | ⟨rfl | rfl, rfl | rfl⟩
  · rfl
  all_goals decide +kernel

theorem ofFloat_of_isNaN {x : Float} (h : x.isNaN = true) : ofFloat x = .str "NaN" := by
  rw [ofFloat, (isNaN_iff x).1 h]

/-- A stored double is the same number when it is read. -/
theorem toNumber_ofFloat (locale : Locale) (x : Float) :
    ∃ y, (ofFloat x).toNumber locale = .ok y ∧ Same y x := by
  unfold ofFloat
  cases hx : parts x with
  | nan => exact ⟨notANumber, rfl, .inl (parts_inj (Eq.trans (by decide +kernel) hx.symm))⟩
  | inf neg =>
    refine ⟨infinity neg, ?_, .inl (parts_inj (Eq.trans ?_ hx.symm))⟩
    · cases neg <;> rfl
    · cases neg <;> decide +kernel
  | fin neg m e =>
    simp only []
    split
    · rename_i hsafe
      obtain ⟨hw, hle⟩ := Bool.and_eq_true_iff.1 hsafe
      exact ⟨_, rfl, ofInt_toInt hw (of_decide_eq_true hle)⟩
    · exact ⟨x, rfl, .refl x⟩

theorem coerceTo_number {locale : Locale} {v : Json} (hv : ∀ n, v ≠ num n) :
    v.coerceTo locale .number = (v.toNumber locale).map ofFloat := by
  cases v with
  | num n => exact absurd rfl (hv n)
  | _ => rfl

/-- A double is stored as a number exactly if it is finite. -/
theorem ofFloat_of_isFinite {x : Float} (h : x.isFinite = true) :
    ∃ k, ofFloat x = .num k ∧ Same k.toFloat x := by
  obtain ⟨neg, m, e, hx⟩ := (isFinite_iff x).1 h
  obtain ⟨y, hy, hsame⟩ := toNumber_ofFloat {} x
  unfold ofFloat at hy ⊢
  rw [hx] at hy ⊢
  simp only [] at hy ⊢
  split
  · rename_i hsafe
    rw [if_pos hsafe] at hy
    cases hy
    exact ⟨_, rfl, hsame⟩
  · exact ⟨_, rfl, .refl x⟩

theorem isFinite_of_ofFloat {x : Float} {k : Number} (h : ofFloat x = .num k) :
    k.toFloat.isFinite = true := by
  have hx : x.isFinite = true := by
    rw [isFinite_iff]
    unfold ofFloat at h
    cases hx : parts x with
    | nan => rw [hx] at h; cases h
    | inf neg => rw [hx] at h; cases h
    | fin neg m e => exact ⟨neg, m, e, rfl⟩
  obtain ⟨k', hk, hsame⟩ := ofFloat_of_isFinite hx
  rw [h] at hk
  cases hk
  rwa [hsame.isFinite_eq]

end Json

/-! ### Ranges -/

namespace StatTemplate
variable {t : StatTemplate} {x y lo hi : Float}

theorem clamp_of_isNaN (t : StatTemplate) (h : x.isNaN = true) : t.clamp x = x := by
  have hmin (min : Float) : ¬x < min := not_lt_of_isNaN (.inl h)
  have hmax (max : Float) : ¬max < x := not_lt_of_isNaN (.inr h)
  unfold clamp
  cases t.rangeMin <;> cases t.rangeMax <;> simp only [GT.gt, hmin, hmax, if_false]

/-- A number that is brought into a range is in the range. -/
theorem clamp_mem (hlo : t.rangeMin = some lo) (hhi : t.rangeMax = some hi) (hle : lo ≤ hi)
    (hx : x.isNaN = false) : lo ≤ t.clamp x ∧ t.clamp x ≤ hi := by
  obtain ⟨hlon, hhin⟩ := isNaN_of_le hle
  rw [clamp, hlo, hhi]
  simp only [GT.gt]
  rw [le_iff hlon hhin] at hle
  by_cases hbelow : x < lo
  · have hnot : ¬hi < lo := by rw [lt_iff hhin hlon]; omega
    rw [if_pos hbelow, if_neg hnot, le_iff hlon hlon, le_iff hlon hhin]
    omega
  · rw [if_neg hbelow]
    rw [lt_iff hx hlon] at hbelow
    by_cases habove : hi < x
    · rw [if_pos habove, le_iff hlon hhin, le_iff hhin hhin]
      omega
    · rw [if_neg habove, le_iff hlon hx, le_iff hx hhin]
      rw [lt_iff hhin hx] at habove
      omega

theorem same_ite {p q : Prop} [Decidable p] [Decidable q] (hpq : p ↔ q) (bound : Float)
    (h : Same x y) : Same (if p then bound else x) (if q then bound else y) := by
  by_cases hp : p
  · rw [if_pos hp, if_pos (hpq.1 hp)]
    exact .refl bound
  · rw [if_neg hp, if_neg (mt hpq.2 hp)]
    exact h

theorem clamp_congr (t : StatTemplate) (h : Same x y) : Same (t.clamp x) (t.clamp y) := by
  unfold clamp
  have hmin : ∀ min, Same (if x < min then min else x) (if y < min then min else y) :=
    fun min => same_ite (h.lt_congr min).1 min h
  cases t.rangeMin with
  | none =>
    cases t.rangeMax with
    | none => exact h
    | some max => exact same_ite (h.lt_congr max).2 max h
  | some min =>
    cases t.rangeMax with
    | none => exact hmin min
    | some max => exact same_ite ((hmin min).lt_congr max).2 max (hmin min)

end StatTemplate

end FlowTree
