import FlowTree.Proofs.Binary64.Scaling
import FlowTree.Proofs.Operand

/-!
# Rounding again

A rounding node scales by a power of ten, takes the whole number and divides, each time in doubles.
Its result is a number unless the scaled number overflows. A node that rounds this result again gives
the same result if the scaled number has more than 52 places, for it is whole then and a quotient is
got back from what it is multiplied to. If it has fewer, then the result is the same exactly if the
same whole number is found again (`rounding_again`): with two digits and more a product can lie on
the wrong side of the whole number that it stands for.
-/

namespace FlowTree

namespace Binary64

variable {whole dual : Float → Float} {W : ℚ → Nat} {d : Nat} {f x y : Float}

/-- `x` scaled by `f`, taken to a whole number and scaled back. -/
def rescale (whole : Float → Float) (f x : Float) : Float :=
  whole (x * f) / f

/-- The whole number that `x` is taken to is found again from its quotient. -/
def FoundAgain (whole : Float → Float) (f x : Float) : Prop :=
  Same (whole (rescale whole f x * f)) (whole (x * f))

/-- What scaling by `10 ^ d` to a whole number gives, once and again. -/
structure Rescaled (whole : Float → Float) (d : Nat) (f x : Float) : Prop where
  isFinite_iff : (rescale whole f x).isFinite = true ↔ |value x| * 10 ^ d < overflow
  again_iff : (rescale whole f x).isFinite = true →
    (Same (rescale whole f (rescale whole f x)) (rescale whole f x) ↔
      2 ^ 52 < |value (x * f)| ∨ FoundAgain whole f x)
  found : (rescale whole f x).isFinite = true → d ≤ 1 → |value (x * f)| ≤ 2 ^ 52 →
    FoundAgain whole f x

/-! ### Doubles that are not negative -/

theorem Takes.eq_self_of_large (hw : Takes whole W) (hx : Nonneg x) (h : 2 ^ 52 ≤ value x) :
    whole x = x := by
  obtain ⟨n, hn⟩ := hx.whole_of_large h
  have hvalue : value (whole x) = value x := by
    rw [hw.value_eq x hx, hn, hw.natCast]
  refine (((hw.nonneg x hx).same_iff hx).2 hvalue).resolve_right fun hzero => ?_
  rw [value_of_zero hzero.2] at h
  norm_num at h

theorem Takes.le_of_le (hw : Takes whole W) (hx : Nonneg x) {k : Nat} (h : value x ≤ k) :
    ∃ n ≤ k, value (whole x) = n :=
  ⟨_, (hw.mono h).trans_eq (hw.natCast k), hw.value_eq x hx⟩

namespace Scale
variable (hf : Scale d f) (hw : Takes whole W) (hx : Nonneg x)
include hf hw hx

theorem nonneg_rescale (hs : (x * f).isFinite = true) : Nonneg (rescale whole f x) :=
  hf.nonneg_div (hw.nonneg _ (hf.nearest_mul hx hs).nonneg)

theorem isFinite_rescale_iff : (rescale whole f x).isFinite = true ↔ (x * f).isFinite = true := by
  refine ⟨fun hy => ?_, fun hs => (hf.nonneg_rescale hw hx hs).finite⟩
  by_contra hs
  have hinf := hf.parts_inf_div (hf.parts_inf_mul hx hs)
  rw [rescale, hw.other _ (Bool.eq_false_iff.2 hs)] at hy
  obtain ⟨neg, m, e, hparts⟩ := (isFinite_iff _).1 hy
  rw [hinf] at hparts
  cases hparts

variable (hs : (x * f).isFinite = true)
include hs

theorem nonneg_again : Nonneg (rescale whole f x * f) := by
  have hsn := (hf.nearest_mul hx hs).nonneg
  have hN := hw.nonneg _ hsn
  rcases le_or_gt (value (x * f)) (2 ^ 52 : Nat) with hle | hlarge
  · obtain ⟨n, hn', hn⟩ := hw.le_of_le hsn hle
    exact (hf.nearest_mul (hf.nonneg_div hN) (hf.isFinite_up hN hn hn')).nonneg
  · have hself := hw.eq_self_of_large hsn (by exact_mod_cast hlarge.le)
    rw [rescale, hself]
    exact (hf.nearest_mul (hf.nonneg_div hsn) (hf.isFinite_again hx hs)).nonneg

theorem foundAgain_iff : FoundAgain whole f x ↔
    value (whole (rescale whole f x * f)) = value (whole (x * f)) :=
  (hw.nonneg _ (hf.nonneg_again hw hx hs)).same_iff (hw.nonneg _ (hf.nearest_mul hx hs).nonneg)

theorem foundAgain_of_value (h : value (rescale whole f x * f) = value (whole (x * f))) :
    FoundAgain whole f x := by
  rw [hf.foundAgain_iff hw hx hs, hw.value_eq _ (hf.nonneg_again hw hx hs), h,
    hw.value_eq _ (hf.nearest_mul hx hs).nonneg, hw.natCast]

/-- With one digit at most, what a whole number is scaled back to is that number. -/
theorem foundAgain_of_le_one (hd : d ≤ 1) (hle : value (x * f) ≤ 2 ^ 52) :
    FoundAgain whole f x := by
  have hsn := (hf.nearest_mul hx hs).nonneg
  have hN := hw.nonneg _ hsn
  refine hf.foundAgain_of_value hw hx hs ?_
  rcases Nat.le_one_iff_eq_zero_or_eq_one.1 hd with rfl | rfl
  · exact (hf.mul_unit (hf.nonneg_div hN)).2.trans (hf.div_unit hN)
  · obtain ⟨n, hn', hn⟩ := hw.le_of_le (k := 2 ^ 52) hsn (by exact_mod_cast hle)
    rcases Nat.eq_zero_or_pos n with rfl | hpos
    · rw [Nat.cast_zero] at hn
      exact (hf.up_zero hN hn).trans hn.symm
    · exact (hf.up_exact hN hn hpos hn').trans hn.symm

theorem again_iff : Same (rescale whole f (rescale whole f x)) (rescale whole f x) ↔
    2 ^ 52 < value (x * f) ∨ FoundAgain whole f x := by
  have hsn := (hf.nearest_mul hx hs).nonneg
  have hN := hw.nonneg _ hsn
  have hb := hf.nonneg_again hw hx hs
  have hsame : Same (rescale whole f (rescale whole f x)) (rescale whole f x) ↔
      value (whole (rescale whole f x * f) / f) = value (whole (x * f) / f) :=
    (hf.nonneg_div (hw.nonneg _ hb)).same_iff (hf.nonneg_div hN)
  rw [hsame]
  rcases le_or_gt (value (x * f)) (2 ^ 52) with hle | hlarge
  · obtain ⟨n, hn', hn⟩ := hw.le_of_le (k := 2 ^ 52) hsn (by exact_mod_cast hle)
    rw [hf.foundAgain_iff hw hx hs, or_iff_right (not_lt.2 hle)]
    exact (hf.again_small hw hN hn hn').2
  · refine iff_of_true ?_ (.inl hlarge)
    rcases Nat.eq_zero_or_pos d with rfl | hd
    · have hvalue := (hf.mul_unit (hf.nonneg_div hN)).2.trans (hf.div_unit hN)
      have hfound := hf.foundAgain_of_value hw hx hs hvalue
      exact hf.div_congr (hw.nonneg _ hb) hN ((hf.foundAgain_iff hw hx hs).1 hfound)
    · -- both whole numbers are the doubles themselves
      obtain ⟨hbn, hb52, hagain⟩ := hf.again_large hd hx hs hlarge
      rw [rescale, hw.eq_self_of_large hsn hlarge.le, hw.eq_self_of_large hbn hb52]
      exact hagain

end Scale

theorem Scale.rescaled (hf : Scale d f) (hw : Takes whole W) (hx : Nonneg x) :
    Rescaled whole d f x := by
  have hfinite := hf.isFinite_rescale_iff hw hx
  refine ⟨?_, fun hy => ?_, fun hy hd hle => ?_⟩
  · rw [hfinite, hf.isFinite_mul_iff hx, abs_of_nonneg hx.value_nonneg]
  · have hs := hfinite.1 hy
    rw [abs_of_nonneg (hf.nearest_mul hx hs).nonneg.value_nonneg]
    exact hf.again_iff hw hx hs
  · exact hf.foundAgain_of_le_one hw hx (hfinite.1 hy) hd ((le_abs_self _).trans hle)

/-- Up to 51 places what a whole number is scaled back to is less than a half from it. -/
theorem Scale.foundAgain_round (hf : Scale d f) (hx : Nonneg x) (hs : (x * f).isFinite = true)
    (hle : value (x * f) ≤ 2 ^ 51) : FoundAgain round f x := by
  have hw := takes_round
  have hsn := (hf.nearest_mul hx hs).nonneg
  have hN := hw.nonneg _ hsn
  obtain ⟨n, hn', hn⟩ := hw.le_of_le (k := 2 ^ 51) hsn (by exact_mod_cast hle)
  rcases Nat.eq_zero_or_pos n with rfl | hpos
  · rw [Nat.cast_zero] at hn
    exact hf.foundAgain_of_value hw hx hs ((hf.up_zero hN hn).trans hn.symm)
  · have herr := abs_lt.1 (hf.up_error hN hn hpos (hn'.trans (by norm_num)))
    have hmax : (n : ℚ) ≤ 2 ^ 51 := by exact_mod_cast hn'
    rw [hf.foundAgain_iff hw hx hs, hw.value_eq _ (hf.nonneg_again hw hx hs), hn, Nat.cast_inj,
      Nat.floor_eq_iff (by linarith [(hf.nonneg_again hw hx hs).value_nonneg]), rescale]
    constructor <;> linarith [herr.1, herr.2]

/-- Nothing is left of a zero. -/
theorem Scale.rescale_zero (hf : Scale d f) (hw : Takes whole W) (h : x = 0.0 ∨ x = -0.0) :
    Nonneg (rescale whole f x) ∧ value (rescale whole f x) = 0 := by
  have hx : Nonneg x := by
    rcases h with rfl | rfl
    · exact nonneg_zero
    · have hparts : parts (-0.0) = .fin true 0 (-1074) := by
        decide +kernel
      exact (nearest_of_zero hparts).nonneg
  have hzero := value_of_zero h
  have hs : (x * f).isFinite = true := by
    rw [hf.isFinite_mul_iff hx, hzero, zero_mul, overflow, sub_pos]
    exact zpow_lt_zpow_right₀ (by norm_num) (by norm_num)
  have hmul := hf.nearest_mul hx hs
  rw [hzero, zero_mul] at hmul
  have hN := hw.value_eq _ hmul.nonneg
  rw [hmul.value_eq_zero, ← Nat.cast_zero, hw.natCast, Nat.cast_zero] at hN
  have hdiv := hf.nearest_div (hw.nonneg _ hmul.nonneg)
  rw [hN, zero_div] at hdiv
  exact ⟨hdiv.nonneg, hdiv.value_eq_zero⟩

theorem Scale.rescale_congr (hf : Scale d f) (hw : Takes whole W) (h : Same x y) :
    Same (rescale whole f x) (rescale whole f y) := by
  rcases h with rfl | ⟨hx, hy⟩
  · exact .refl _
  · obtain ⟨hxn, hxv⟩ := hf.rescale_zero hw hx
    obtain ⟨hyn, hyv⟩ := hf.rescale_zero hw hy
    exact (hxn.same_iff hyn).2 (hxv.trans hyv.symm)

/-! ### Both signs -/

section
variable (hdual : ∀ x, whole (-x) = -dual x)
include hdual

theorem rescale_neg (f x : Float) : rescale whole f (-x) = -rescale dual f x := by
  rw [rescale, neg_mul_eq, hdual, neg_div_eq, rescale]

theorem foundAgain_neg : FoundAgain whole f (-x) ↔ FoundAgain dual f x := by
  rw [FoundAgain, rescale_neg hdual, neg_mul_eq, neg_mul_eq, hdual, hdual, same_neg_iff, FoundAgain]

theorem Rescaled.neg (h : Rescaled dual d f x) : Rescaled whole d f (-x) := by
  refine ⟨?_, ?_, ?_⟩
  · rw [rescale_neg hdual, isFinite_neg, value_neg, abs_neg]
    exact h.isFinite_iff
  · rw [rescale_neg hdual, rescale_neg hdual, isFinite_neg, same_neg_iff, neg_mul_eq, value_neg,
      abs_neg, foundAgain_neg hdual]
    exact h.again_iff
  · rw [rescale_neg hdual, isFinite_neg, neg_mul_eq, value_neg, abs_neg, foundAgain_neg hdual]
    exact h.found

end

end Binary64

open Binary64

/-! ### Numbers as stored values -/

namespace Json
variable {x y : Float}

theorem ofFloat_eq_iff : ofFloat x = ofFloat y ↔ Same x y := by
  refine ⟨fun h => ?_, ofFloat_congr⟩
  obtain ⟨u, hu, hx⟩ := toNumber_ofFloat {} x
  obtain ⟨w, hw, hy⟩ := toNumber_ofFloat {} y
  rw [h, hw] at hu
  cases hu
  exact hx.symm.trans hy

theorem ofFloat_eq_num_iff : (∃ k, ofFloat x = .num k) ↔ x.isFinite = true := by
  constructor
  · rintro ⟨k, hk⟩
    obtain ⟨u, hu, hx⟩ := toNumber_ofFloat {} x
    rw [hk] at hu
    cases hu
    rw [← hx.isFinite_eq]
    exact isFinite_of_ofFloat hk
  · intro h
    obtain ⟨k, hk, -⟩ := ofFloat_of_isFinite h
    exact ⟨k, hk⟩

end Json

/-! ### Rounding nodes -/

namespace Operation
variable {op : Tag} {d : Nat} {x : Float}

/-- The rounding to a whole number that an operation names. -/
def wholeOf : Tag → Float → Float
  | .ceil => ceil
  | .floor => floor
  | _ => round

theorem takes_wholeOf (op : Tag) : ∃ W, Takes (wholeOf op) W := by
  unfold wholeOf
  split
  · exact ⟨_, takes_ceil⟩
  · exact ⟨_, takes_floor⟩
  · exact ⟨_, takes_round⟩

theorem wholeOf_neg (op : Tag) : ∃ op', ∀ x, wholeOf op (-x) = -wholeOf op' x := by
  unfold wholeOf
  split
  · exact ⟨.floor, ceil_neg⟩
  · exact ⟨.ceil, floor_neg⟩
  · exact ⟨.round, round_neg⟩

theorem rescaled_of_isFinite {f : Float} (hf : Scale d f) (op : Tag) (hx : x.isFinite = true) :
    Rescaled (wholeOf op) d f x := by
  rcases nonneg_or_neg hx with hnonneg | hnonneg
  · obtain ⟨W, hw⟩ := takes_wholeOf op
    exact hf.rescaled hw hnonneg
  · obtain ⟨op', hneg⟩ := wholeOf_neg op
    obtain ⟨W, hw⟩ := takes_wholeOf op'
    rw [← neg_neg_eq x]
    exact (hf.rescaled hw hnonneg).neg hneg

theorem foundAgain_round_of_isFinite {f : Float} (hf : Scale d f) (hx : x.isFinite = true)
    (hy : (rescale round f x).isFinite = true) (hle : |value (x * f)| ≤ 2 ^ 51) :
    FoundAgain round f x := by
  have hnonneg {x : Float} (hx : Nonneg x) (hy : (rescale round f x).isFinite = true)
      (hle : |value (x * f)| ≤ 2 ^ 51) : FoundAgain round f x :=
    hf.foundAgain_round hx ((hf.isFinite_rescale_iff takes_round hx).1 hy)
      ((le_abs_self _).trans hle)
  rcases nonneg_or_neg hx with h | h
  · exact hnonneg h hy hle
  · rw [← neg_neg_eq x, foundAgain_neg round_neg]
    refine hnonneg h ?_ ?_
    · rw [rescale_neg round_neg, isFinite_neg]
      exact hy
    · rw [neg_mul_eq, value_neg, abs_neg]
      exact hle

/-- Without digits nothing is scaled. -/
theorem rescale_unit {f : Float} (hf : Scale 0 f) (hx : x.isFinite = true) :
    Same (round x) (rescale round f x) := by
  have hnonneg {x : Float} (hx : Nonneg x) : Same (round x) (rescale round f x) := by
    obtain ⟨hs, hvalue⟩ := hf.mul_unit hx
    have hN := takes_round.nonneg _ hs
    refine ((takes_round.nonneg x hx).same_iff (hf.nonneg_div hN)).2 ?_
    rw [hf.div_unit hN, takes_round.value_eq _ hs, hvalue, takes_round.value_eq x hx]
  rcases nonneg_or_neg hx with h | h
  · exact hnonneg h
  · rw [← neg_neg_eq x, round_neg, rescale_neg round_neg]
    exact (hnonneg h).neg

theorem roundBy?_eq (hop : op = .ceil ∨ op = .floor ∨ op = .round) (hd : d ≤ 15)
    (hx : x.isFinite = true) :
    ∃ y, roundBy? op d x = some y ∧ Same y (rescale (wholeOf op) (powTen d) x) := by
  rcases hop with rfl | rfl | rfl
  · exact ⟨_, rfl, .refl _⟩
  · exact ⟨_, rfl, .refl _⟩
  · refine ⟨_, rfl, ?_⟩
    unfold roundTo
    split
    · obtain rfl : d = 0 := by omega
      exact rescale_unit (scale_powTen hd) hx
    · exact .refl _

theorem digitsOf_le (n : Node) : digitsOf n ≤ 15 :=
  Nat.min_le_right _ 15

section
variable {locale : Locale} {n : Node} {prev v : Json} {vars : Variables}
  (hop : n.op = .ceil ∨ n.op = .floor ∨ n.op = .round)
include hop

theorem rounding_eq (hv : valueOrPrevious n "value" prev vars = .ok v)
    (hx : v.toNumber locale = .ok x) (hfinite : x.isFinite = true) :
    rounding locale n prev vars =
      .ok (.ofFloat (rescale (wholeOf n.op) (powTen (digitsOf n)) x)) := by
  obtain ⟨y, hy, hsame⟩ := roundBy?_eq hop (digitsOf_le n) hfinite
  rw [← Json.ofFloat_congr hsame]
  unfold rounding
  rw [hv]
  simp only [NodeError.ok_bind, hx, hy]
  rfl

/-- A rounding node takes a finite number to a number exactly if the scaled number does not overflow.
A node with the same operation and the same digits then leaves the result alone exactly if the scaled
number has more than 52 places or the whole number that it was taken to is found again. It always is
with one digit at most, and up to 51 places by the rounding to the nearest. -/
theorem rounding_again (hv : valueOrPrevious n "value" prev vars = .ok v)
    (hx : v.toNumber locale = .ok x) (hfinite : x.isFinite = true) :
    let factor := powTen (digitsOf n)
    let whole := wholeOf n.op
    ∃ result, rounding locale n prev vars = .ok result ∧
      ((∃ k, result = .num k) ↔ |value x| * 10 ^ digitsOf n < overflow) ∧
      ((∃ k, result = .num k) → ∀ {n' : Node} {prev' : Json} {vars' : Variables},
        n'.op = n.op → digitsOf n' = digitsOf n →
        valueOrPrevious n' "value" prev' vars' = .ok result →
        (rounding locale n' prev' vars' = .ok result ↔ 2 ^ 52 < |value (x * factor)| ∨
          Same (whole (whole (x * factor) / factor * factor)) (whole (x * factor))) ∧
        (digitsOf n ≤ 1 ∨ n.op = .round ∧ |value (x * factor)| ≤ 2 ^ 51 →
          rounding locale n' prev' vars' = .ok result)) := by
  intro factor whole
  have hf := scale_powTen (digitsOf_le n)
  have h := rescaled_of_isFinite hf n.op hfinite
  refine ⟨_, rounding_eq hop hv hx hfinite, Json.ofFloat_eq_num_iff.trans h.isFinite_iff, ?_⟩
  intro hnum n' prev' vars' hop' hdigits hv'
  have hy : (rescale whole factor x).isFinite = true := Json.ofFloat_eq_num_iff.1 hnum
  obtain ⟨y, hread, hsame⟩ := Json.toNumber_ofFloat locale (rescale whole factor x)
  have hagain : rounding locale n' prev' vars' = .ok (.ofFloat (rescale whole factor x)) ↔
      Same (rescale whole factor (rescale whole factor x)) (rescale whole factor x) := by
    obtain ⟨W, hw⟩ := takes_wholeOf n.op
    have hcongr := hf.rescale_congr hw hsame
    rw [rounding_eq (hop'.symm ▸ hop) hv' hread (hsame.isFinite_eq.trans hy), hop', hdigits,
      Except.ok.injEq, Json.ofFloat_eq_iff]
    exact ⟨hcongr.symm.trans, hcongr.trans⟩
  rw [hagain, h.again_iff hy]
  refine ⟨Iff.rfl, fun hcase => ?_⟩
  by_cases hlarge : 2 ^ 52 < |value (x * factor)|
  · exact .inl hlarge
  · refine .inr (?_ : FoundAgain whole factor x)
    rcases hcase with hd | ⟨hround, hle⟩
    · exact h.found hy hd (not_lt.1 hlarge)
    · have hwhole : whole = round := congrArg wholeOf hround
      rw [hwhole] at hy ⊢
      exact foundAgain_round_of_isFinite hf hfinite hy hle

end

theorem rounding_again_of_floor :
    let n : Node := ⟨.floor, "n", [("digits", .int 1)], []⟩
    rounding {} n (.double 1.26) {} = .ok (.double 1.2) ∧
      rounding {} n (.double 1.2) {} = .ok (.double 1.2) := by
  intro n
  have hop : n.op = .ceil ∨ n.op = .floor ∨ n.op = .round := .inr (.inl rfl)
  have hfirst : rounding {} n (.double 1.26) {} = .ok (.double 1.2) := by
    decide +kernel
  have hv : valueOrPrevious n "value" (.double 1.26) {} = .ok (.double 1.26) := rfl
  have hx : (Json.double 1.26).toNumber {} = .ok 1.26 := rfl
  obtain ⟨result, hresult, -, hagain⟩ := rounding_again hop hv hx (by decide +kernel)
  cases hresult.symm.trans hfirst
  exact ⟨hfirst, (hagain ⟨_, rfl⟩ rfl rfl rfl).2 (.inl (by decide))⟩

/-- A scaled number that overflows, and results with two digits that are moved again. -/
theorem rounding_moves_again :
    let rounded (op : Tag) (digits : Int) (x : Float) : Except NodeError Json :=
      rounding {} ⟨op, "n", [("digits", .int digits)], []⟩ (.double x) {}
    rounded .round 15 1e300 = .ok (.str "Infinity") ∧
      rounded .round 2 35253116034927.766 = .ok (.double 35253116034927.77) ∧
      rounded .round 2 35253116034927.77 = .ok (.double 35253116034927.78) ∧
      rounded .ceil 2 0.275 = .ok (.double 0.28) ∧ rounded .ceil 2 0.28 = .ok (.double 0.29) ∧
      rounded .floor 2 0.295 = .ok (.double 0.29) ∧
      rounded .floor 2 0.29 = .ok (.double 0.28) := by
  refine ⟨?_, ?_, ?_, ?_, ?_, ?_, ?_⟩ <;> decide +kernel

end Operation

end FlowTree
