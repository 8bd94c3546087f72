import FlowTree.Proofs.Binary64.Nearest
import FlowTree.Rule.Split

/-!
# Totals

A total of doubles that are not negative is rounded with each of its terms. As long as it is finite
it never falls from one term to the next, and with few terms it is near the exact sum. Once it is
infinite it stays so.
-/

namespace FlowTree.Binary64
open Float.Model (UnpackedFloat)

variable {x y : Float}

/-! ### Infinity -/

theorem parts_inf_add (hx : parts x = .inf false) (hy : Nonneg y) : parts (x + y) = .inf false := by
  have hadd : UnpackedFloat.add .binary64 (parts x).unpacked (parts y).unpacked =
      (parts x).unpacked := by
    rcases hy.unpacked with ⟨s, hyu, -⟩ | ⟨m, e, hm, hyu, -⟩ <;> rw [hx, hyu] <;> rfl
  show parts (.ofModel (.pack (UnpackedFloat.add .binary64 x.toModel.unpack y.toModel.unpack))) = _
  rw [unpack_toModel, unpack_toModel, hadd, ofModel_pack_parts, hx]

theorem nearest_div_inf (hx : Nonneg x) (hy : parts y = .inf false) : Nearest 0 (x / y) := by
  obtain ⟨s, hdiv⟩ : ∃ s, UnpackedFloat.div .binary64 (parts x).unpacked (parts y).unpacked =
      .zero s := by
    rcases hx.unpacked with ⟨s, hxu, -⟩ | ⟨m, e, hm, hxu, -⟩ <;> rw [hxu, hy] <;> exact ⟨_, rfl⟩
  show Nearest 0 (.ofModel (.pack (UnpackedFloat.div .binary64 x.toModel.unpack y.toModel.unpack)))
  rw [unpack_toModel, unpack_toModel, hdiv]
  exact (roundedAt_zero s).rounds.of_le (by positivity)

/-! ### One more term -/

theorem totalShare_concat (xs : List Float) (x : Float) :
    totalShare (xs ++ [x]) = totalShare xs + x :=
  List.foldl_append

theorem totalShare_cases {xs : List Float} (h : ∀ x ∈ xs, Nonneg x) :
    Nonneg (totalShare xs) ∨ parts (totalShare xs) = .inf false := by
  induction xs using List.reverseRecOn with
  | nil => exact .inl nonneg_zero
  | append_singleton xs x ih =>
    obtain ⟨hxs, hx⟩ := List.forall_mem_append.1 h
    rw [totalShare_concat]
    rcases ih hxs with htotal | hinf
    · exact (rounds_add htotal (hx x List.mem_cons_self)).imp Nearest.nonneg And.left
    · exact .inr (parts_inf_add hinf (hx x List.mem_cons_self))

/-- A finite total with one more term is the double nearest to the sum of the total before and the
term, and the total before was finite. -/
theorem Nonneg.of_concat {xs : List Float} (h : ∀ x ∈ xs, Nonneg x) (hx : Nonneg x)
    (htotal : Nonneg (totalShare (xs ++ [x]))) : Nonneg (totalShare xs) ∧
      Nearest (value (totalShare xs) + value x) (totalShare (xs ++ [x])) := by
  rw [totalShare_concat] at htotal ⊢
  rcases totalShare_cases h with hbefore | hinf
  · exact ⟨hbefore, (rounds_add hbefore hx).of_isFinite htotal.finite⟩
  · obtain ⟨neg, m, e, hparts⟩ := (isFinite_iff _).1 htotal.finite
    rw [parts_inf_add hinf hx] at hparts
    cases hparts

/-- What holds of no terms and is kept by one more holds of all terms with a finite total. -/
theorem totalShare_induction {motive : List Float → Prop} (nil : motive [])
    (concat : ∀ xs x, (∀ y ∈ xs, Nonneg y) → Nonneg x → Nonneg (totalShare xs) →
      Nearest (value (totalShare xs) + value x) (totalShare (xs ++ [x])) →
      motive xs → motive (xs ++ [x])) {xs : List Float} (h : ∀ x ∈ xs, Nonneg x)
    (htotal : Nonneg (totalShare xs)) : motive xs := by
  induction xs using List.reverseRecOn with
  | nil => exact nil
  | append_singleton xs x ih =>
    obtain ⟨hxs, hx⟩ := List.forall_mem_append.1 h
    obtain ⟨hbefore, hnearest⟩ := Nonneg.of_concat hxs (hx x List.mem_cons_self) htotal
    exact concat xs x hxs (hx x List.mem_cons_self) hbefore hnearest (ih hxs hbefore)

theorem error_concat {u k s t x z : ℚ} (hu : 0 ≤ u) (hu' : u ≤ 1) (hk : 0 ≤ k) (hs : 0 ≤ s)
    (ht : 0 ≤ t) (hx : 0 ≤ x) (herror : |z - (t + x)| ≤ (t + x) * u) (hlow : (1 - k) * s ≤ t)
    (hhigh : (1 - k) * t ≤ s) :
    (1 - (k + u)) * (s + x) ≤ z ∧ (1 - (k + u)) * z ≤ s + x := by
  obtain ⟨hbelow, habove⟩ := abs_le.1 herror
  constructor
  · calc (1 - (k + u)) * (s + x) ≤ (1 - u) * ((1 - k) * s + x) := by
          nlinarith [mul_nonneg hk hx, mul_nonneg (mul_nonneg hk hu) hs]
      _ ≤ (1 - u) * (t + x) := by
          refine mul_le_mul_of_nonneg_left ?_ (by linarith)
          linarith
      _ ≤ z := by linarith
  · rcases le_or_gt (1 - (k + u)) 0 with hneg | hpos
    · have hz : 0 ≤ z := by nlinarith
      exact (mul_nonpos_of_nonpos_of_nonneg hneg hz).trans (by linarith)
    · calc (1 - (k + u)) * z ≤ (1 - (k + u)) * ((1 + u) * (t + x)) :=
            mul_le_mul_of_nonneg_left (by linarith) hpos.le
        _ ≤ (1 - k) * (t + x) := by
            rw [← mul_assoc]
            refine mul_le_mul_of_nonneg_right ?_ (by linarith)
            nlinarith
        _ ≤ s + x := by nlinarith [mul_nonneg hk hx]

section
variable {xs ys : List Float} (h : ∀ x ∈ xs, Nonneg x)
include h

/-! ### Growth -/

theorem Nonneg.of_prefix (htotal : Nonneg (totalShare xs)) (hys : ys <+: xs) :
    Nonneg (totalShare ys) ∧ value (totalShare ys) ≤ value (totalShare xs) := by
  refine totalShare_induction (motive := fun xs => Nonneg (totalShare xs) → ys <+: xs →
    Nonneg (totalShare ys) ∧ value (totalShare ys) ≤ value (totalShare xs)) ?_ ?_ h htotal htotal
    hys
  · intro hnil hys
    rw [List.prefix_nil.1 hys]
    exact ⟨hnil, le_rfl⟩
  · intro xs x _ hx hbefore hnearest ih htotal hys
    rcases List.prefix_concat_iff.1 hys with rfl | hys
    · exact ⟨htotal, le_rfl⟩
    · obtain ⟨hfinite, hle⟩ := ih hbefore hys
      exact ⟨hfinite, hle.trans (hnearest.add_mem hbefore hx).1⟩

theorem value_le_totalShare (htotal : Nonneg (totalShare xs)) :
    ∀ x ∈ xs, value x ≤ value (totalShare xs) := by
  refine totalShare_induction (motive := fun xs => ∀ x ∈ xs, value x ≤ value (totalShare xs))
    nofun ?_ h htotal
  intro xs x _ hx hbefore hnearest ih y hy
  rcases List.mem_append.1 hy with hy | hy
  · exact (ih y hy).trans (hnearest.add_mem hbefore hx).1
  · rw [List.mem_singleton.1 hy]
    exact ((add_comm _ (value x) ▸ hnearest).add_mem hx hbefore).1

/-! ### The exact sum -/

theorem sum_value_nonneg : 0 ≤ (xs.map value).sum := by
  refine List.sum_nonneg fun v hv => ?_
  obtain ⟨x, hx, rfl⟩ := List.mem_map.1 hv
  exact (h x hx).value_nonneg

theorem value_totalShare_le (htotal : Nonneg (totalShare xs)) :
    value (totalShare xs) ≤ 2 * (xs.map value).sum := by
  refine totalShare_induction
    (motive := fun xs => value (totalShare xs) ≤ 2 * (xs.map value).sum) ?_ ?_ h htotal
  · simp [totalShare, value_zero]
  · intro xs x _ hx hbefore hnearest ih
    rw [List.map_append, List.sum_append, List.map_singleton, List.sum_singleton]
    linarith [(hnearest.add_mem hbefore hx).2]

theorem nonneg_totalShare (hsum : (xs.map value).sum ≤ 2 ^ (1022 : Int)) :
    Nonneg (totalShare xs) := by
  induction xs using List.reverseRecOn with
  | nil => exact nonneg_zero
  | append_singleton xs x ih =>
    obtain ⟨hxs, hx⟩ := List.forall_mem_append.1 h
    have hx := hx x List.mem_cons_self
    rw [List.map_append, List.sum_append, List.map_singleton, List.sum_singleton] at hsum
    have hbefore := ih hxs (by linarith [hx.value_nonneg])
    rw [totalShare_concat]
    refine ((rounds_add hbefore hx).of_le ?_).nonneg
    calc value (totalShare xs) + value x ≤ 2 * ((xs.map value).sum + value x) := by
          linarith [value_totalShare_le hxs hbefore, hx.value_nonneg]
      _ ≤ 2 * 2 ^ (1022 : Int) := mul_le_mul_of_nonneg_left hsum zero_le_two
      _ = 2 ^ (1023 : Int) := (zpow_one_add₀ two_ne_zero 1022).symm

theorem totalShare_of_zeros (hzero : ∀ x ∈ xs, value x = 0) :
    Nonneg (totalShare xs) ∧ value (totalShare xs) = 0 := by
  have hsum : (xs.map value).sum = 0 := by
    refine List.sum_eq_zero fun v hv => ?_
    obtain ⟨x, hx, rfl⟩ := List.mem_map.1 hv
    exact hzero x hx
  have htotal := nonneg_totalShare h (by rw [hsum]; positivity)
  have hle := value_totalShare_le h htotal
  rw [hsum, mul_zero] at hle
  exact ⟨htotal, le_antisymm hle htotal.value_nonneg⟩

/-- Each term adds at most half a last place to the relative error. -/
theorem totalShare_error (htotal : Nonneg (totalShare xs)) :
    (1 - xs.length / 2 ^ 53) * (xs.map value).sum ≤ value (totalShare xs) ∧
      (1 - xs.length / 2 ^ 53) * value (totalShare xs) ≤ (xs.map value).sum := by
  refine totalShare_induction (motive := fun xs =>
    (1 - xs.length / 2 ^ 53) * (xs.map value).sum ≤ value (totalShare xs) ∧
      (1 - xs.length / 2 ^ 53) * value (totalShare xs) ≤ (xs.map value).sum) ?_ ?_ h htotal
  · exact ⟨by simp [totalShare, value_zero], by simp [totalShare, value_zero]⟩
  · rintro xs x hxs hx hbefore hnearest ⟨hlow, hhigh⟩
    have herror := hnearest.add_error hbefore hx
    rw [← mul_one_div] at herror
    rw [List.map_append, List.sum_append, List.map_singleton, List.sum_singleton,
      List.length_append, List.length_singleton, Nat.cast_add, Nat.cast_one, add_div]
    exact error_concat (by positivity) (by norm_num) (by positivity) (sum_value_nonneg hxs)
      hbefore.value_nonneg hx.value_nonneg herror hlow hhigh

end

theorem value_lt_of_add {z : Float} (hx : Nonneg x) (hy : Nonneg y)
    (hz : Nearest (value x + value y) z) (hpos : 0 < value y)
    (hle : value x ≤ 2 ^ 52 * value y) : value x < value z := by
  have herror := (abs_le.1 (hz.add_error hx hy)).1
  have hhalf : (value x + value y) / 2 ^ 53 < value y := by
    rw [div_lt_iff₀ (by positivity)]
    linarith
  linarith

end FlowTree.Binary64
