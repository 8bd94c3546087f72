import FlowTree.Proofs.Binary64.Total
import FlowTree.Proofs.Ladder

/-!
# Dominant splits

A split with at least half of all shares is drawn by the rung before its own. That rung is below
100, and what is before the split is not so large that it would swallow the split's height. So it is
with shares that are kept, with shares that are scaled down and with even ones, as long as the total
is finite. If the total is infinite all rungs are zero, and only the last split is ever drawn.
-/

namespace FlowTree
open Binary64 Operation

theorem parts_hundred : parts 100.0 = .fin false (100 * 2 ^ 46) (-46) := by
  decide +kernel

theorem nonneg_hundred : Nonneg 100.0 :=
  nonneg_of_parts parts_hundred

theorem value_hundred : value 100.0 = 100 := by
  rw [value_of_parts parts_hundred]
  norm_num

/-- Some draw from 0 to 100 picks the position. -/
def Drawable (rungs : List Float) (i : Nat) : Prop :=
  ∃ draw : Float, 0.0 ≤ draw ∧ draw < 100.0 ∧ pickRung rungs draw = i

/-! ### The rung before -/

section
variable {xs : List Float} {i : Nat} (h : ∀ x ∈ xs, Nonneg x)
include h

theorem nonneg_take (k : Nat) : ∀ x ∈ xs.take k, Nonneg x :=
  fun x hx => h x (List.mem_of_mem_take hx)

/-- With a term that the total before does not swallow the total rises. -/
theorem totalShare_take_lt (htotal : Nonneg (totalShare xs)) (hi : i < xs.length)
    (hpos : 0 < value xs[i]) (hle : value (totalShare (xs.take i)) ≤ 2 ^ 52 * value xs[i]) :
    value (totalShare (xs.take i)) < value (totalShare (xs.take (i + 1))) := by
  have hx := h _ (List.getElem_mem hi)
  have hnext := (htotal.of_prefix h (List.take_prefix (i + 1) xs)).1
  rw [← List.take_concat_get' xs i hi] at hnext ⊢
  obtain ⟨hbefore, hnearest⟩ := Nonneg.of_concat (nonneg_take h i) hx hnext
  exact value_lt_of_add hbefore hx hnearest hpos hle

theorem drawable_of_rise (htotal : Nonneg (totalShare xs)) (hi : i < xs.length)
    (hbelow : value (totalShare (xs.take i)) < 100)
    (hrise : value (totalShare (xs.take i)) < value (totalShare (xs.take (i + 1)))) :
    Drawable (runningTotals 0.0 xs) i := by
  have htake (k : Nat) := htotal.of_prefix h (List.take_prefix k xs)
  have hbefore := (htake i).1
  have hrung {j : Nat} (hj : j < (runningTotals 0.0 xs).length) :
      (runningTotals 0.0 xs)[j] = totalShare (xs.take (j + 1)) :=
    getElem_runningTotals ..
  refine ⟨totalShare (xs.take i), ?_, ?_, (pickRung_eq_iff ?_).2 ⟨?_, .inl ?_⟩⟩
  · rw [nonneg_zero.le_iff hbefore, value_zero]
    exact hbefore.value_nonneg
  · rwa [hbefore.lt_iff nonneg_hundred, value_hundred]
  · rwa [length_runningTotals]
  · intro j hj
    rw [hrung, hbefore.lt_iff (htake _).1, not_lt]
    exact (hbefore.of_prefix (nonneg_take h i) (List.take_prefix_take_left (Nat.succ_le_of_lt hj))).2
  · rwa [hrung, hbefore.lt_iff (htake _).1]

theorem sum_take_add_le (hi : i < xs.length) :
    ((xs.take i).map value).sum + value xs[i] ≤ (xs.map value).sum := by
  have hsucc := List.sum_take_succ (xs.map value) i (by rwa [List.length_map])
  rw [List.getElem_map, ← List.map_take, ← List.map_take] at hsucc
  rw [← hsucc]
  refine ((List.take_sublist _ _).map value).sum_le_sum fun v hv => ?_
  obtain ⟨x, hx, rfl⟩ := List.mem_map.1 hv
  exact (h x hx).value_nonneg

end

/-! ### Shares that are kept -/

section
variable {shares : List Float} {i : Nat} (h : ∀ x ∈ shares, Nonneg x)
  (htotal : Nonneg (totalShare shares)) (hi : i < shares.length)
include h htotal

theorem drawable_of_kept (hpos : 0 < value (totalShare shares))
    (hle : value (totalShare shares) ≤ 100)
    (hhalf : (shares.map value).sum ≤ 2 * value shares[i]) :
    Drawable (runningTotals 0.0 shares) i := by
  have hbefore := (htotal.of_prefix h (List.take_prefix i shares)).1
  have hsum := sum_take_add_le h hi
  have hdouble := value_totalShare_le h htotal
  have hsmall := value_totalShare_le (nonneg_take h i) hbefore
  have hrise := totalShare_take_lt h htotal hi (by linarith) (by linarith)
  have hnext := (htotal.of_prefix h (List.take_prefix (i + 1) shares)).2
  exact drawable_of_rise h htotal hi (by linarith) hrise

end

/-! ### Shares that are scaled down -/

/-- Few terms have a total within a third of their sum. -/
theorem totalShare_near {xs : List Float} (h : ∀ x ∈ xs, Nonneg x)
    (htotal : Nonneg (totalShare xs)) (hlength : xs.length ≤ 2 ^ 51) :
    3 / 4 * (xs.map value).sum ≤ value (totalShare xs) ∧
      3 / 4 * value (totalShare xs) ≤ (xs.map value).sum := by
  have hlength : (xs.length : ℚ) ≤ 2 ^ 51 := by exact_mod_cast hlength
  have hfactor : 3 / 4 ≤ (1 - xs.length / 2 ^ 53 : ℚ) := by linarith
  obtain ⟨hlow, hhigh⟩ := totalShare_error h htotal
  exact ⟨(mul_le_mul_of_nonneg_right hfactor (sum_value_nonneg h)).trans hlow,
    (mul_le_mul_of_nonneg_right hfactor htotal.value_nonneg).trans hhigh⟩

/-- The height of a share if the total is above 100. -/
def scaled (total share : Float) : Float :=
  share / total * 100.0

section
variable {t : Float} (ht : Nonneg t) (hpos : 0 < value t)
include ht hpos

/-- Two roundings change a scaled share by less than a hundredth and a tiny amount. -/
theorem scaled_error {x : Float} (hx : Nonneg x) (hle : value x ≤ value t) : Nonneg (scaled t x) ∧
    |value (scaled t x) - 100 * (value x / value t)| ≤ value x / value t + 1 / 2 ^ 60 := by
  have hlarge : (2 : ℚ) ^ (10 : Int) ≤ 2 ^ (1023 : Int) :=
    zpow_le_zpow_right₀ (by norm_num) (by norm_num)
  have hratio : 0 ≤ value x / value t := div_nonneg hx.value_nonneg hpos.le
  have hratio' : value x / value t ≤ 1 := (div_le_one hpos).2 hle
  have hdiv := (rounds_div hx ht hpos).of_le ((hratio'.trans (by norm_num)).trans hlarge)
  have hquotient := abs_le.1 (hdiv.abs_sub_le hratio)
  have hmul := rounds_mul hdiv.nonneg nonneg_hundred
  rw [value_hundred] at hmul
  have hmul := hmul.of_le ((show _ ≤ (2 : ℚ) ^ (10 : Int) by linarith).trans hlarge)
  have hproduct := abs_le.1 (hmul.abs_sub_le (by linarith [hdiv.nonneg.value_nonneg]))
  refine ⟨hmul.nonneg, ?_⟩
  rw [abs_le, scaled]
  constructor <;> linarith

variable {xs : List Float} (hxs : ∀ x ∈ xs, Nonneg x ∧ value x ≤ value t)
include hxs

theorem nonneg_scaled : ∀ y ∈ xs.map (scaled t), Nonneg y := by
  intro y hy
  obtain ⟨x, hx, rfl⟩ := List.mem_map.1 hy
  exact (scaled_error ht hpos (hxs x hx).1 (hxs x hx).2).1

theorem sum_scaled_le : ((xs.map (scaled t)).map value).sum ≤
    101 * ((xs.map value).sum / value t) + xs.length / 2 ^ 60 := by
  induction xs with
  | nil => simp
  | cons x xs ih =>
    obtain ⟨⟨hx, hle⟩, hrest⟩ := List.forall_mem_cons.1 hxs
    have herror := abs_le.1 (scaled_error ht hpos hx hle).2
    have hsum := ih hrest
    rw [List.map_cons, List.map_cons, List.sum_cons, List.map_cons, List.sum_cons, add_div,
      List.length_cons, Nat.cast_add, Nat.cast_one, add_div]
    linarith

variable (hlength : xs.length ≤ 2 ^ 51)
include hlength

theorem nonneg_totalShare_scaled (hsum : (xs.map value).sum ≤ 2 * value t) :
    Nonneg (totalShare (xs.map (scaled t))) := by
  have hlength : (xs.length : ℚ) ≤ 2 ^ 51 := by exact_mod_cast hlength
  have hratio : (xs.map value).sum / value t ≤ 2 := (div_le_iff₀ hpos).2 hsum
  have hscaled := sum_scaled_le ht hpos hxs
  refine nonneg_totalShare (nonneg_scaled ht hpos hxs) ?_
  calc ((xs.map (scaled t)).map value).sum ≤ 2 ^ (10 : Int) := by linarith
    _ ≤ 2 ^ (1022 : Int) := zpow_le_zpow_right₀ (by norm_num) (by norm_num)

/-- Two thirds of the total are scaled to so much below 100 that roundings do not make up for it. -/
theorem totalShare_scaled_lt (hsum : (xs.map value).sum ≤ 2 / 3 * value t) :
    value (totalShare (xs.map (scaled t))) < 100 := by
  have hfinite := nonneg_totalShare_scaled ht hpos hxs hlength (by linarith)
  have hnear := (totalShare_near (nonneg_scaled ht hpos hxs) hfinite (by rwa [List.length_map])).2
  have hlength : (xs.length : ℚ) ≤ 2 ^ 51 := by exact_mod_cast hlength
  have hratio : (xs.map value).sum / value t ≤ 2 / 3 := (div_le_iff₀ hpos).2 hsum
  linarith [sum_scaled_le ht hpos hxs]

end

theorem drawable_of_scaled {shares : List Float} {i : Nat} (h : ∀ x ∈ shares, Nonneg x)
    (htotal : Nonneg (totalShare shares)) (hi : i < shares.length)
    (hpos : 0 < value (totalShare shares)) (hlength : shares.length ≤ 2 ^ 51)
    (hhalf : (shares.map value).sum ≤ 2 * value shares[i]) :
    Drawable (runningTotals 0.0 (shares.map (scaled (totalShare shares)))) i := by
  obtain ⟨t, ht⟩ : ∃ t, totalShare shares = t := ⟨_, rfl⟩
  obtain ⟨hlow, hhigh⟩ := totalShare_near h htotal hlength
  have hle := value_le_totalShare h htotal
  rw [ht] at htotal hpos hlow hhigh hle ⊢
  have hscaled : ∀ x ∈ shares, Nonneg x ∧ value x ≤ value t := fun x hx => ⟨h x hx, hle x hx⟩
  have hnonneg := nonneg_scaled htotal hpos hscaled
  have hfinite := nonneg_totalShare_scaled htotal hpos hscaled hlength (by linarith)
  have hi' : i < (shares.map (scaled t)).length := by rwa [List.length_map]
  have hbelow : value (totalShare ((shares.map (scaled t)).take i)) < 100 := by
    have hbefore := sum_take_add_le h hi
    rw [← List.map_take]
    exact totalShare_scaled_lt htotal hpos (fun x hx => hscaled x (List.mem_of_mem_take hx))
      ((List.length_take_le' ..).trans hlength) (by linarith)
  have hheight : 1 ≤ value (shares.map (scaled t))[i] := by
    have hx := List.getElem_mem hi
    have herror := abs_le.1 (scaled_error htotal hpos (h _ hx) (hle _ hx)).2
    have hratio : 3 / 8 ≤ value shares[i] / value t := by
      rw [le_div_iff₀ hpos]
      linarith
    rw [List.getElem_map]
    linarith
  exact drawable_of_rise hnonneg hfinite hi' hbelow
    (totalShare_take_lt hnonneg hfinite hi' (by linarith) (by linarith))

/-! ### Even shares -/

section
variable {n i : Nat} (hi : i < n) (hn : n ≤ 1000)
include hi hn

theorem even_height : Nonneg (100.0 / ofInt n) ∧ 1 / 20 ≤ value (100.0 / ofInt n) ∧
    n * value (100.0 / ofInt n) ≤ 100 + 1 / 1000 := by
  have hpos : 0 < n := by omega
  have hone : (1 : ℚ) ≤ n := by exact_mod_cast hpos
  have hn' : (n : ℚ) ≤ 1000 := by exact_mod_cast hn
  have hvalue := value_ofInt hpos (by omega)
  have hdiv := rounds_div nonneg_hundred (nonneg_of_parts (parts_ofInt_natCast hpos (by omega)))
    (by linarith)
  rw [value_hundred, hvalue] at hdiv
  have hdiv := hdiv.of_le <| calc
    (100 / n : ℚ) ≤ 2 ^ (10 : Int) := (div_le_self (by norm_num) hone).trans (by norm_num)
    _ ≤ 2 ^ (1023 : Int) := zpow_le_zpow_right₀ (by norm_num) (by norm_num)
  obtain ⟨hlow, hhigh⟩ := abs_le.1 (hdiv.abs_sub_le (by positivity))
  have hexact : (1 / 10 : ℚ) ≤ 100 / n := by
    rw [le_div_iff₀ (by linarith)]
    linarith
  refine ⟨hdiv.nonneg, by linarith, ?_⟩
  calc n * value (100.0 / ofInt n) ≤ n * (100 / n * (1 + 1 / 2 ^ 53) + 1 / 2 ^ 70) :=
        mul_le_mul_of_nonneg_left (by linarith) (by linarith)
    _ = 100 * (1 + 1 / 2 ^ 53) + n / 2 ^ 70 := by field_simp
    _ ≤ 100 + 1 / 1000 := by linarith

theorem drawable_of_even :
    Drawable (runningTotals 0.0 (List.replicate n (100.0 / ofInt n))) i := by
  obtain ⟨hheight, hlow, hhigh⟩ := even_height hi hn
  generalize (100.0 / ofInt n : Float) = h at *
  have hmem (k : Nat) : ∀ x ∈ List.replicate k h, Nonneg x := fun x hx =>
    List.eq_of_mem_replicate hx ▸ hheight
  have hsum (k : Nat) : ((List.replicate k h).map value).sum = k * value h := by
    rw [List.map_replicate, List.sum_replicate, nsmul_eq_mul]
  have hfinite : Nonneg (totalShare (List.replicate n h)) := by
    refine nonneg_totalShare (hmem n) ?_
    calc ((List.replicate n h).map value).sum = n * value h := hsum n
      _ ≤ 2 ^ (10 : Int) := by linarith
      _ ≤ 2 ^ (1022 : Int) := zpow_le_zpow_right₀ (by norm_num) (by norm_num)
  have htake : (List.replicate n h).take i = List.replicate i h := by
    rw [List.take_replicate, min_eq_left hi.le]
  have hbefore := (hfinite.of_prefix (hmem n) (List.take_prefix i _)).1
  have hi' : (i : ℚ) + 1 ≤ n := by exact_mod_cast hi
  have hn' : (n : ℚ) ≤ 1000 := by exact_mod_cast hn
  have hexact : i * value h ≤ 100 + 1 / 1000 - value h := by
    linarith [mul_le_mul_of_nonneg_right hi' hheight.value_nonneg]
  have hbelow : value (totalShare ((List.replicate n h).take i)) < 100 := by
    rw [htake] at hbefore ⊢
    have herror := (totalShare_error (hmem i) hbefore).2
    rw [List.length_replicate, hsum] at herror
    have hfactor : (1 - 1000 / 2 ^ 53 : ℚ) ≤ 1 - i / 2 ^ 53 := by linarith
    linarith [mul_le_mul_of_nonneg_right hfactor hbefore.value_nonneg]
  have hlength : i < (List.replicate n h).length := by rwa [List.length_replicate]
  refine drawable_of_rise (hmem n) hfinite hlength hbelow
    (totalShare_take_lt (hmem n) hfinite hlength ?_ ?_)
  · rw [List.getElem_replicate]
    linarith
  · rw [List.getElem_replicate]
    linarith

end

/-! ### Shares with an infinite total -/

section
variable {shares : List Float} {i : Nat} (h : ∀ x ∈ shares, Nonneg x)
include h

theorem rungs_eq_zero (hinf : parts (totalShare shares) = .inf false) :
    ∀ rung ∈ runningTotals 0.0 (shares.map (scaled (totalShare shares))),
      Nonneg rung ∧ value rung = 0 := by
  have hheights : ∀ x ∈ shares.map (scaled (totalShare shares)), Nonneg x ∧ value x = 0 := by
    intro y hy
    obtain ⟨x, hx, rfl⟩ := List.mem_map.1 hy
    have hdiv := nearest_div_inf (h x hx) hinf
    have hmul := rounds_mul hdiv.nonneg nonneg_hundred
    rw [hdiv.value_eq_zero, zero_mul] at hmul
    have hzero := hmul.of_le (by positivity)
    exact ⟨hzero.nonneg, hzero.value_eq_zero⟩
  intro rung hrung
  obtain ⟨j, hj, rfl⟩ := List.getElem_of_mem hrung
  rw [getElem_runningTotals]
  exact totalShare_of_zeros (fun x hx => (hheights x (List.mem_of_mem_take hx)).1)
    fun x hx => (hheights x (List.mem_of_mem_take hx)).2

theorem drawable_iff_of_infinite (hinf : parts (totalShare shares) = .inf false)
    (hi : i < shares.length) :
    Drawable (runningTotals 0.0 (shares.map (scaled (totalShare shares)))) i ↔
      i + 1 = shares.length := by
  have hzero := rungs_eq_zero h hinf
  have hlength : (runningTotals 0.0 (shares.map (scaled (totalShare shares)))).length =
      shares.length := by
    rw [length_runningTotals, List.length_map]
  generalize runningTotals 0.0 (shares.map (scaled (totalShare shares))) = rungs at *
  rw [← hlength] at hi ⊢
  have habove {draw : Float} (hdraw : 0.0 ≤ draw) : ∀ rung ∈ rungs, ¬ draw < rung :=
    fun rung hrung => (hzero rung hrung).1.not_lt_of_value_eq_zero (hzero rung hrung).2 hdraw
  constructor
  · rintro ⟨draw, hdraw, -, hpick⟩
    obtain ⟨-, hlt | hlast⟩ := (pickRung_eq_iff hi).1 hpick
    · exact absurd hlt (habove hdraw _ (List.getElem_mem hi))
    · exact hlast
  · intro hlast
    have hle : (0.0 : Float) ≤ 0.0 := (nonneg_zero.le_iff nonneg_zero).2 le_rfl
    refine ⟨0.0, hle, ?_, (pickRung_eq_iff hi).2 ⟨fun j hj => ?_, .inr hlast⟩⟩
    · rw [nonneg_zero.lt_iff nonneg_hundred, value_zero, value_hundred]
      norm_num
    · exact habove hle _ (List.getElem_mem _)

end

/-! ### Ladders -/

theorem ladder_eq_ok {splits : List Split} {rungs : List Float} (h : ladder splits = .ok rungs) :
    (∀ s ∈ splits, Nonneg s.share) ∧
      rungs = rungsOf (ofInt splits.length) (splits.map Split.share) := by
  simp only [ladder] at h
  split at h
  · cases h
  · split at h
    · cases h
    · rename_i hshares
      cases h
      refine ⟨fun s hs => ?_, by rw [List.length_map]⟩
      simp only [List.any_map, List.any_eq_true, not_exists, not_and] at hshares
      have hs := hshares s hs
      simp only [Function.comp_apply, Bool.or_eq_true, Bool.not_eq_true', decide_eq_true_eq,
        not_or, Bool.not_eq_false] at hs
      exact ⟨hs.1, hs.2⟩

section
variable {shares : List Float} (n : Float)

theorem rungsOf_of_zero (hzero : (totalShare shares == 0.0) = true) :
    rungsOf n shares = runningTotals 0.0 (List.replicate shares.length (100.0 / n)) := by
  have hheight : rungHeight n (totalShare shares) = fun _ => 100.0 / n :=
    funext fun _ => if_pos hzero
  rw [rungsOf, hheight, List.map_const']

theorem rungsOf_of_le (hzero : ¬ (totalShare shares == 0.0) = true)
    (hle : ¬ 100.0 < totalShare shares) : rungsOf n shares = runningTotals 0.0 shares := by
  have hheight : rungHeight n (totalShare shares) = fun share => share :=
    funext fun _ => (if_neg hzero).trans (if_neg hle)
  rw [rungsOf, hheight, List.map_id']

theorem rungsOf_of_lt (hzero : ¬ (totalShare shares == 0.0) = true)
    (hlt : 100.0 < totalShare shares) :
    rungsOf n shares = runningTotals 0.0 (shares.map (scaled (totalShare shares))) := by
  have hheight : rungHeight n (totalShare shares) = scaled (totalShare shares) :=
    funext fun _ => (if_neg hzero).trans (if_pos hlt)
  rw [rungsOf, hheight]

end

section
variable {shares : List Float} {i : Nat} (h : ∀ x ∈ shares, Nonneg x) (hi : i < shares.length)
  (hhalf : (shares.map value).sum ≤ 2 * value shares[i])
  (hzero : (∀ x ∈ shares, value x = 0) → shares.length ≤ 1000)
  (hlength : 100.0 < totalShare shares → shares.length ≤ 2 ^ 51)
include h hi hhalf hzero hlength

theorem drawable_of_finite (htotal : Nonneg (totalShare shares)) :
    Drawable (rungsOf (ofInt shares.length) shares) i := by
  by_cases hnone : (totalShare shares == 0.0) = true
  · rw [rungsOf_of_zero _ hnone]
    refine drawable_of_even hi (hzero fun x hx => ?_)
    have hle := value_le_totalShare h htotal x hx
    rw [htotal.beq_zero_iff.1 hnone] at hle
    exact le_antisymm hle (h x hx).value_nonneg
  · have hpos : 0 < value (totalShare shares) :=
      lt_of_le_of_ne htotal.value_nonneg fun heq => hnone (htotal.beq_zero_iff.2 heq.symm)
    by_cases hlt : 100.0 < totalShare shares
    · rw [rungsOf_of_lt _ hnone hlt]
      exact drawable_of_scaled h htotal hi hpos (hlength hlt) hhalf
    · rw [rungsOf_of_le _ hnone hlt]
      rw [nonneg_hundred.lt_iff htotal, value_hundred, not_lt] at hlt
      exact drawable_of_kept h htotal hi hpos hlt hhalf

theorem drawable_iff : Drawable (rungsOf (ofInt shares.length) shares) i ↔
    (totalShare shares).isFinite = true ∨ i + 1 = shares.length := by
  rcases totalShare_cases h with htotal | hinf
  · exact iff_of_true (drawable_of_finite h hi hhalf hzero hlength htotal) (.inl htotal.finite)
  · have heq : totalShare shares = 1.0 / 0.0 :=
      parts_inj (hinf.trans (by decide +kernel : parts (1.0 / 0.0) = .inf false).symm)
    have hnone : ¬ (totalShare shares == 0.0) = true := by
      rw [heq]
      decide +kernel
    have hlt : 100.0 < totalShare shares := by
      rw [heq]
      decide +kernel
    have hfinite : ¬ (totalShare shares).isFinite = true := by
      rw [heq]
      decide +kernel
    rw [rungsOf_of_lt _ hnone hlt, or_iff_right hfinite]
    exact drawable_iff_of_infinite h hinf hi

end

/-- A split with at least half of all shares, and any split if all of at most 1000 shares are zero,
is picked by a draw from 0 to 100 exactly if the total of the shares is finite or it is the last
one. Where the shares are scaled down, so many splits as would not fit in any memory are left out,
since the roundings of all their heights together could make up for a whole share. -/
theorem pickRung_dominant {splits : List Split} {rungs : List Float} {i : Nat} {s : Split}
    (hladder : ladder splits = .ok rungs) (hsplit : splits[i]? = some s)
    (hhalf : (splits.map fun t => value t.share).sum ≤ 2 * value s.share)
    (hzero : (∀ t ∈ splits, value t.share = 0) → splits.length ≤ 1000)
    (hlength : 100.0 < totalShare (splits.map Split.share) → splits.length ≤ 2 ^ 51) :
    Drawable rungs i ↔
      (totalShare (splits.map Split.share)).isFinite = true ∨ i + 1 = splits.length := by
  obtain ⟨hnonneg, rfl⟩ := ladder_eq_ok hladder
  obtain ⟨hi, rfl⟩ := List.getElem?_eq_some_iff.1 hsplit
  have hcount : (splits.map Split.share).length = splits.length := List.length_map _
  rw [← hcount] at hi hzero hlength ⊢
  refine drawable_iff (List.forall_mem_map.2 hnonneg) hi ?_ ?_ hlength
  · rwa [List.map_map, List.getElem_map]
  · exact fun h => hzero (List.forall_mem_map.1 h)

/-- Half of what is shared out can be drawn although it has to be scaled down. -/
theorem pickRung_dominant_of_scaled :
    ladder [⟨"a", 50.0⟩, ⟨"b", 100.0⟩, ⟨"c", 50.0⟩] = .ok [25.0, 75.0, 100.0] ∧
      Drawable [25.0, 75.0, 100.0] 1 := by
  have hladder : ladder [⟨"a", 50.0⟩, ⟨"b", 100.0⟩, ⟨"c", 50.0⟩] = .ok [25.0, 75.0, 100.0] := by
    decide +kernel
  have hfifty : value 50.0 = 50 := by
    rw [show (50.0 : Float) = ofInt (50 : Nat) by decide +kernel, value_ofInt] <;> norm_num
  refine ⟨hladder, (pickRung_dominant hladder rfl ?_ ?_ fun _ => by decide).2
    (.inl (by decide +kernel))⟩
  · rw [List.map_cons, List.map_cons, List.map_cons, List.map_nil, value_hundred, hfifty]
    norm_num
  · exact fun _ => by decide

/-- Each of two shares is finite and half of all, but the total is infinite, and no draw picks the
first. -/
theorem dominant_split_starved :
    ladder [⟨"a", 1e308⟩, ⟨"b", 1e308⟩] = .ok [0.0, 0.0] ∧ value 1e308 ≠ 0 ∧
      value 1e308 + value 1e308 ≤ 2 * value 1e308 ∧ ¬ Drawable [0.0, 0.0] 0 := by
  have hladder : ladder [⟨"a", 1e308⟩, ⟨"b", 1e308⟩] = .ok [0.0, 0.0] := by
    decide +kernel
  have hmem : ∀ x ∈ ([1e308, 1e308] : List Float), Nonneg x :=
    List.forall_mem_map.2 (ladder_eq_ok hladder).1
  have hinf : parts (totalShare [1e308, 1e308]) = .inf false := by
    decide +kernel
  have hrungs : runningTotals 0.0 ([1e308, 1e308].map (scaled (totalShare [1e308, 1e308]))) =
      [0.0, 0.0] := by
    decide +kernel
  have hdraw := drawable_iff_of_infinite hmem hinf (by decide : 0 < 2)
  rw [hrungs] at hdraw
  refine ⟨hladder, ?_, (two_mul _).ge, fun hfirst => ?_⟩
  · exact (hmem 1e308 List.mem_cons_self).beq_zero_iff.not.1 (by decide +kernel)
  · exact absurd (hdraw.1 hfirst) (by decide)

end FlowTree
