import FlowTree.Proofs.Operation
import Mathlib.Algebra.Order.Field.Rat
import Mathlib.Algebra.BigOperators.Ring.List
import Mathlib.Algebra.Order.BigOperators.Group.List
import Mathlib.Data.Rat.Cast.OfScientific
import Mathlib.Order.Interval.Set.Basic
import Mathlib.Tactic.FieldSimp
import Mathlib.Tactic.Linarith
import Mathlib.Tactic.NormNum.OfScientific
import Mathlib.Tactic.Ring

/-!
# The ladder over exact numbers

A draw picks a split if it is below the split's rung and below no rung before, or if the split is
the last one (`pickRung_eq_iff`), and a rung is the total of the heights up to it. Over rational
numbers the draws from 0 to 100 are so cut into one piece for each split, in their order, and each
piece is as long as the share says.
-/

namespace FlowTree
open Operation

/-! ### Rungs and draws -/

theorem getElem_runningTotals {α : Type} [Add α] (start : α) (heights : List α) {i : Nat}
    (hi : i < (runningTotals start heights).length) :
    (runningTotals start heights)[i] = (heights.take (i + 1)).foldl (· + ·) start := by
  induction heights generalizing start i with
  | nil => exact absurd hi (Nat.not_lt_zero i)
  | cons h hs ih =>
    cases i with
    | zero => rfl
    | succ i => exact ih (start + h) _

theorem pickRung_eq_iff {α : Type} [LT α] [DecidableLT α] {rungs : List α} {draw : α} {i : Nat}
    (hi : i < rungs.length) : pickRung rungs draw = i ↔
      (∀ j (hj : j < i), ¬ draw < rungs[j]) ∧ (draw < rungs[i] ∨ i + 1 = rungs.length) := by
  unfold pickRung
  cases hfind : rungs.findIdx? fun r => decide (draw < r) with
  | none =>
    have habove (j : Nat) (hj : j < rungs.length) : ¬ draw < rungs[j] := by
      simpa using List.findIdx?_eq_none_iff.1 hfind _ (List.getElem_mem hj)
    rw [Option.getD_none]
    constructor
    · intro h
      exact ⟨fun j hj => habove j (by omega), .inr (by omega)⟩
    · rintro ⟨-, h | h⟩
      · exact absurd h (habove i hi)
      · omega
  | some k =>
    obtain ⟨hk, hbelow, hbefore⟩ := List.findIdx?_eq_some_iff_getElem.1 hfind
    simp only [decide_eq_true_eq] at hbelow hbefore
    rw [Option.getD_some]
    constructor
    · rintro rfl
      exact ⟨hbefore, .inl hbelow⟩
    · rintro ⟨hbefore', h⟩
      rcases Nat.lt_trichotomy k i with hlt | heq | hgt
      · exact absurd hbelow (hbefore' k hlt)
      · exact heq
      · rcases h with h | h
        · exact absurd h (hbefore i hgt)
        · omega

/-! ### Exact heights -/

section
variable {shares : List ℚ}

theorem totalShare_eq_sum (shares : List ℚ) : totalShare shares = shares.sum := by
  rw [totalShare, List.sum_eq_foldl]
  norm_num

/-- The parts of 100 that the shares take up. -/
def exactHeights (shares : List ℚ) : List ℚ :=
  shares.map (rungHeight (shares.length : ℚ) (totalShare shares))

/-- Where the draws for the split at a position begin, and 100 behind the last one. -/
def exactCut (shares : List ℚ) (i : Nat) : ℚ :=
  if i < shares.length then ((exactHeights shares).take i).sum else 100

theorem rungHeight_eq (n total share : ℚ) : rungHeight n total share =
    if total = 0 then 100 / n else if total ≤ 100 then share else share * 100 / total := by
  unfold rungHeight
  norm_num only [beq_iff_eq, gt_iff_lt]
  split
  · rfl
  · by_cases h : total ≤ 100
    · rw [if_neg (not_lt.2 h), if_pos h]
    · rw [if_pos (not_le.1 h), if_neg h]
      ring

theorem rungHeight_nonneg {n total share : ℚ} (hn : 0 ≤ n) (htotal : 0 ≤ total)
    (hshare : 0 ≤ share) : 0 ≤ rungHeight n total share := by
  rw [rungHeight_eq]
  split
  · exact div_nonneg (by norm_num) hn
  · split
    · exact hshare
    · exact div_nonneg (mul_nonneg hshare (by norm_num)) htotal

/-- The heights fill 100 unless the shares sum to less, and then they fill as much. -/
theorem sum_exactHeights (hne : shares ≠ []) : (exactHeights shares).sum =
    if shares.sum = 0 then 100 else if shares.sum ≤ 100 then shares.sum else 100 := by
  have hn : (shares.length : ℚ) ≠ 0 := by
    simpa using hne
  have hheight : rungHeight (shares.length : ℚ) shares.sum = fun share => _ :=
    funext fun share => rungHeight_eq _ _ share
  rw [exactHeights, totalShare_eq_sum, hheight]
  split
  · rw [List.map_const', List.sum_replicate, nsmul_eq_mul]
    field_simp
  · rename_i htotal
    split
    · rw [List.map_id']
    · simp only [mul_div_assoc]
      rw [List.sum_map_mul_right, List.map_id']
      field_simp

theorem sum_exactHeights_le (hne : shares ≠ []) : (exactHeights shares).sum ≤ 100 := by
  rw [sum_exactHeights hne]
  split
  · rfl
  · split
    · assumption
    · rfl

theorem exactHeights_nonneg (hpos : ∀ x ∈ shares, 0 ≤ x) : ∀ h ∈ exactHeights shares, 0 ≤ h := by
  intro h hh
  obtain ⟨x, hx, rfl⟩ := List.mem_map.1 hh
  rw [totalShare_eq_sum]
  exact rungHeight_nonneg (Nat.cast_nonneg _) (List.sum_nonneg hpos) (hpos x hx)

theorem getElem_rungsOf {n : ℚ} {i : Nat} (hi : i < (rungsOf n shares).length) :
    (rungsOf n shares)[i] =
      ((shares.map (rungHeight n (totalShare shares))).take (i + 1)).sum := by
  rw [← totalShare_eq_sum]
  exact getElem_runningTotals ..

/-- No rung before the `i`-th is above the draw exactly if the heights before it do not exceed the
draw together. -/
theorem forall_rung_le_iff {heights : List ℚ} (hpos : ∀ h ∈ heights, 0 ≤ h) {draw : ℚ}
    (hdraw : 0 ≤ draw) (i : Nat) :
    (∀ j < i, (heights.take (j + 1)).sum ≤ draw) ↔ (heights.take i).sum ≤ draw := by
  constructor
  · intro h
    cases i with
    | zero => exact hdraw
    | succ i => exact h i (Nat.lt_succ_self i)
  · intro h j hj
    have hsub : (heights.take (j + 1)).Sublist (heights.take i) :=
      (List.take_prefix_take_left (Nat.succ_le_of_lt hj)).sublist
    exact (hsub.sum_le_sum fun x hx => hpos x (List.mem_of_mem_take hx)).trans h

theorem exactCut_zero (hne : shares ≠ []) : exactCut shares 0 = 0 :=
  if_pos (List.length_pos_iff.2 hne)

theorem exactCut_length (shares : List ℚ) : exactCut shares shares.length = 100 :=
  if_neg (Nat.lt_irrefl _)

/-- The draws for a split make up its height. Those for the last one also make up what the heights
leave of 100. -/
theorem exactCut_succ {i : Nat} {share : ℚ} (hshare : shares[i]? = some share) :
    exactCut shares (i + 1) = exactCut shares i + rungHeight (shares.length : ℚ) shares.sum share +
      if i + 1 = shares.length then 100 - (exactHeights shares).sum else 0 := by
  obtain ⟨hi, rfl⟩ := List.getElem?_eq_some_iff.1 hshare
  have hlength : (exactHeights shares).length = shares.length := List.length_map _
  have hi' : i < (exactHeights shares).length := hlength ▸ hi
  have hnext := List.sum_take_succ (exactHeights shares) i hi'
  have hheight : (exactHeights shares)[i] =
      rungHeight (shares.length : ℚ) shares.sum shares[i] := by
    rw [← totalShare_eq_sum]
    exact List.getElem_map ..
  rw [hheight] at hnext
  rw [exactCut, exactCut, if_pos hi]
  by_cases hlast : i + 1 = shares.length
  · have hall : (exactHeights shares).take (i + 1) = exactHeights shares :=
      List.take_of_length_le (by omega)
    rw [hall] at hnext
    rw [if_neg (by omega), if_pos hlast]
    linarith
  · rw [if_pos (by omega), if_neg hlast]
    linarith

theorem exactCut_mem (hne : shares ≠ []) (hpos : ∀ x ∈ shares, 0 ≤ x) (i : Nat) :
    0 ≤ exactCut shares i ∧ exactCut shares i ≤ 100 := by
  have hheights := exactHeights_nonneg hpos
  rw [exactCut]
  split
  · refine ⟨List.sum_nonneg fun x hx => hheights x (List.mem_of_mem_take hx), ?_⟩
    exact ((List.take_sublist i _).sum_le_sum hheights).trans (sum_exactHeights_le hne)
  · exact ⟨by norm_num, le_rfl⟩

theorem exactCut_le_succ (hne : shares ≠ []) (hpos : ∀ x ∈ shares, 0 ≤ x) {i : Nat}
    (hi : i < shares.length) : exactCut shares i ≤ exactCut shares (i + 1) := by
  have hsucc := exactCut_succ (List.getElem?_eq_getElem hi)
  have hheight : 0 ≤ rungHeight (shares.length : ℚ) shares.sum shares[i] :=
    rungHeight_nonneg (Nat.cast_nonneg _) (List.sum_nonneg hpos) (hpos _ (List.getElem_mem hi))
  have hrest := sum_exactHeights_le hne
  split at hsucc <;> linarith

theorem exactCut_succ_sub (hne : shares ≠ []) {i : Nat} {share : ℚ}
    (hshare : shares[i]? = some share) : exactCut shares (i + 1) - exactCut shares i =
      if shares.sum = 0 then 100 / (shares.length : ℚ)
      else if shares.sum ≤ 100 then share + (if i + 1 = shares.length then 100 - shares.sum else 0)
      else share * 100 / shares.sum := by
  rw [exactCut_succ hshare, rungHeight_eq, sum_exactHeights hne]
  split_ifs <;> ring

theorem pickRung_rungsOf_iff (hpos : ∀ x ∈ shares, 0 ≤ x) {i : Nat} (hi : i < shares.length)
    {draw : ℚ} (hdraw : draw ∈ Set.Ico 0 100) :
    pickRung (rungsOf (shares.length : ℚ) shares) draw = i ↔
      draw ∈ Set.Ico (exactCut shares i) (exactCut shares (i + 1)) := by
  have hlength : (rungsOf (shares.length : ℚ) shares).length = shares.length := by
    rw [rungsOf, length_runningTotals, List.length_map]
  have hbelow := forall_rung_le_iff (exactHeights_nonneg hpos) hdraw.1 i
  have hi' : i < (rungsOf (shares.length : ℚ) shares).length := by rwa [hlength]
  rw [pickRung_eq_iff hi', Set.mem_Ico, exactCut, if_pos hi, ← hbelow]
  simp only [getElem_rungsOf, not_lt, hlength]
  refine and_congr Iff.rfl ?_
  rw [exactCut]
  split
  · exact or_iff_left (by omega)
  · exact iff_of_true (.inr (by omega)) hdraw.2

/-- Over rational numbers the draws from 0 to 100 that pick a split make up an interval. The
intervals follow each other in the order of the splits from 0 to 100, each as long as the share of
its split, or as its part of the total if that is above 100, or all of one length if all shares are
zero. The last one takes what is left. -/
theorem pickRung_exact (hne : shares ≠ []) (hpos : ∀ x ∈ shares, 0 ≤ x) :
    (∀ draw, pickRung (rungsOf (shares.length : ℚ) shares) draw < shares.length) ∧
      exactCut shares 0 = 0 ∧ exactCut shares shares.length = 100 ∧
      ∀ i share, shares[i]? = some share →
        {draw | draw ∈ Set.Ico 0 100 ∧ pickRung (rungsOf (shares.length : ℚ) shares) draw = i} =
            Set.Ico (exactCut shares i) (exactCut shares (i + 1)) ∧
          exactCut shares i ≤ exactCut shares (i + 1) ∧
          exactCut shares (i + 1) - exactCut shares i =
            (if shares.sum = 0 then 100 / (shares.length : ℚ)
              else if shares.sum ≤ 100 then
                share + (if i + 1 = shares.length then 100 - shares.sum else 0)
              else share * 100 / shares.sum) ∧
          (share = 0 → i + 1 ≠ shares.length → (∃ x ∈ shares, x ≠ 0) →
            ∀ draw ∈ Set.Ico (0 : ℚ) 100,
              pickRung (rungsOf (shares.length : ℚ) shares) draw ≠ i) := by
  have hlength : (rungsOf (shares.length : ℚ) shares).length = shares.length := by
    rw [rungsOf, length_runningTotals, List.length_map]
  have hrungs : rungsOf (shares.length : ℚ) shares ≠ [] := by
    rw [← List.length_pos_iff, hlength]
    exact List.length_pos_iff.2 hne
  refine ⟨fun draw => (pickRung_lt hrungs draw).trans_eq hlength, exactCut_zero hne,
    exactCut_length shares, fun i share hshare => ?_⟩
  have hi : i < shares.length := (List.getElem?_eq_some_iff.1 hshare).1
  have hcut := exactCut_succ_sub hne hshare
  refine ⟨?_, exactCut_le_succ hne hpos hi, hcut, ?_⟩
  · ext draw
    constructor
    · rintro ⟨hdraw, hpick⟩
      exact (pickRung_rungsOf_iff hpos hi hdraw).1 hpick
    · intro h
      have hdraw : draw ∈ Set.Ico (0 : ℚ) 100 :=
        ⟨(exactCut_mem hne hpos i).1.trans h.1, h.2.trans_le (exactCut_mem hne hpos (i + 1)).2⟩
      exact ⟨hdraw, (pickRung_rungsOf_iff hpos hi hdraw).2 h⟩
  · rintro rfl hlast ⟨x, hx, hne'⟩ draw hdraw hpick
    have htotal : shares.sum ≠ 0 := by
      have hpos' : 0 < x := lt_of_le_of_ne (hpos x hx) hne'.symm
      exact (hpos'.trans_le (List.single_le_sum hpos x hx)).ne'
    have hmem := (pickRung_rungsOf_iff hpos hi hdraw).1 hpick
    rw [if_neg htotal, if_neg hlast, add_zero, zero_mul, zero_div, ite_self, sub_eq_zero] at hcut
    rw [hcut] at hmem
    exact absurd hmem.2 (not_lt.2 hmem.1)

/-- Of 100 the first of three takes 30, the second nothing, and the last one its 30 and the rest. -/
theorem pickRung_exact_of_zero_share :
    {draw | draw ∈ Set.Ico 0 100 ∧ pickRung (rungsOf (3 : ℚ) [30, 0, 30]) draw = 2} =
        Set.Ico 30 100 ∧
      ∀ draw ∈ Set.Ico (0 : ℚ) 100, pickRung (rungsOf (3 : ℚ) [30, 0, 30]) draw ≠ 1 := by
  have hne : ([30, 0, 30] : List ℚ) ≠ [] := List.cons_ne_nil _ _
  obtain ⟨-, -, -, hsplits⟩ := pickRung_exact hne (by decide +kernel)
  obtain ⟨hdraws, -⟩ := hsplits 2 30 rfl
  obtain ⟨-, -, -, hnever⟩ := hsplits 1 0 rfl
  have hfrom : exactCut [30, 0, 30] 2 = 30 := by decide +kernel
  have hto : exactCut [30, 0, 30] 3 = 100 := by decide +kernel
  rw [hfrom, hto] at hdraws
  exact ⟨hdraws, hnever rfl (by decide) ⟨30, by decide +kernel, by decide +kernel⟩⟩

end

end FlowTree
