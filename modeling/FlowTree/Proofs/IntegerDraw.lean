import FlowTree.Proofs.Binary64.Int64
import FlowTree.Proofs.Binary64.SignedOrder
import FlowTree.Proofs.Operation
import FlowTree.Script.Host

/-!
# Draws of integers

A node and a function of scripts draw integers between two doubles. Both round the bounds inward
and hold them within 64 bits before they ask whether an integer is left. So they fail where there
is none, and what they draw is in the range, as long as no bound is beyond the limit on its side.
From there on the limit is drawn, in the range or not.
-/

namespace FlowTree
open Binary64

/-- A way to draw integers that keeps to the bounds it is given. -/
def KeepsBounds {σ : Type} (drawInt : Int → Int → σ → Int × σ) : Prop :=
  ∀ lo hi s, lo ≤ hi → lo ≤ (drawInt lo hi s).1 ∧ (drawInt lo hi s).1 ≤ hi

theorem Generator.integer_keepsBounds : KeepsBounds Generator.integer := by
  intro lo hi g hle
  unfold Generator.integer
  split
  · exact ⟨le_rfl, hle⟩
  · rename_i hlt
    have hpos : 0 < hi - lo + 1 := by omega
    have hlow := Int.emod_nonneg (g.next64.1 : Int) hpos.ne'
    have hhigh := Int.emod_lt_of_pos (g.next64.1 : Int) hpos
    constructor
    · show lo ≤ lo + (g.next64.1 : Int) % (hi - lo + 1)
      omega
    · show lo + (g.next64.1 : Int) % (hi - lo + 1) ≤ hi
      omega

theorem RandomSource.drawInt_keepsBounds : KeepsBounds RandomSource.drawInt := by
  intro lo hi s hle
  cases s with
  | generated g => exact Generator.integer_keepsBounds lo hi g hle
  | scripted fs last =>
    simp only [RandomSource.drawInt]
    split
    · exact ⟨le_rfl, hle⟩
    · exact ⟨le_max_left _ _, max_le hle (min_le_left _ _)⟩

variable {min max : Float}

/-! ### Nodes -/

namespace Operation
variable {locale : Locale} {n : Node} {prev : Json} {vars : Variables}

theorem randomRange_eq (hmin : numberOf locale n "min" prev vars = .ok min)
    (hmax : numberOf locale n "max" prev vars = .ok max) :
    randomRange locale n prev vars =
      if !(max - min).isFinite then .error (.validation (.randomSpan min max))
      else if min > max then .error (.validation (.randomOrder min max))
      else .ok (min, max) := by
  unfold randomRange
  rw [hmin, hmax]
  simp only [bind, Except.bind]
  split
  · rfl
  · split <;> rfl

theorem integerRange_eq (min max : Float) :
    integerRange min max =
      if toInt64 (floor max) < toInt64 (ceil min) then
        .error (.validation (.randomNoInteger min max))
      else .ok (toInt64 (ceil min), toInt64 (floor max)) := by
  unfold integerRange
  simp only []
  split <;> rfl

theorem randomBy_integer (draw : Float → Float → RandomSource → Float × RandomSource)
    {drawInt : Int → Int → RandomSource → Int × RandomSource} {r : Run}
    (hdraw : KeepsBounds drawInt) (hflag : n.flag "integer" = true)
    (hmin : numberOf locale n "min" prev r.ctx.vars = .ok min)
    (hmax : numberOf locale n "max" prev r.ctx.vars = .ok max) :
    match randomBy draw drawInt locale n prev r with
    | .error .. => (max - min).isFinite = false ∨ max < min ∨ ¬HasInteger min max
    | .ok v _ => (max - min).isFinite = true ∧ ¬max < min ∧ HasInteger min max ∧
        ∃ k, v = .int k ∧ Held min max k := by
  rw [randomBy_run, randomRange_eq hmin hmax]
  cases hspan : (max - min).isFinite with
  | false => exact .inl rfl
  | true =>
    obtain ⟨hmax', hmin'⟩ := isFinite_of_sub hspan
    rw [Bool.not_true, if_neg Bool.false_ne_true]
    by_cases horder : max < min
    · rw [if_pos horder]
      exact .inr (.inl horder)
    · rw [if_neg horder]
      simp only [hflag, if_true, integerRange_eq]
      by_cases hlt : toInt64 (floor max) < toInt64 (ceil min)
      · rw [if_pos hlt]
        exact .inr (.inr ((toInt64_floor_lt_iff hmin' hmax').1 hlt).1)
      · have hle := not_lt.1 hlt
        obtain ⟨hlow, hhigh⟩ := hdraw _ _ r.world.random hle
        rw [if_neg hlt]
        refine ⟨trivial, horder, ?_, _, rfl, hmin', hmax', hlow, hhigh⟩
        rw [lt_iff_of_isFinite hmax' hmin', not_lt] at horder
        rcases (toInt64_ceil_le_iff hmin' hmax').1 hle with hsome | hlarge
        · exact hsome
        · exact hasInteger_of_large hmin' hmax' horder hlarge

end Operation

/-! ### Scripts -/

namespace Script
variable {call : Caller} {args : List Val} {m m₁ m₂ : Machine}

namespace Host

theorem isFinite_of_checked {v : Val} {message : String} {x : Float}
    (h : (do
      let y := (← v.number call).toFloat
      if y.isFinite then return y else Machine.typeError message : Exec Float) m = .ok x m₁) :
    x.isFinite = true := by
  obtain ⟨number, m', -, h⟩ := Exec.bind_eq_ok h
  simp only [] at h
  split at h
  · rename_i hfinite
    obtain ⟨rfl, -⟩ := EStateM.Result.ok.inj h
    exact hfinite
  · cases h

theorem isFinite_of_finite {i : Nat} {name : String} {x : Float}
    (h : finite call args i name m = .ok x m₁) : x.isFinite = true := by
  unfold finite at h
  cases hv : args[i]? with
  | none =>
    rw [hv] at h
    cases h
  | some v =>
    rw [hv] at h
    cases v with
    | primitive p =>
      cases p with
      | undefined | null => cases h
      | bool | num | str => exact isFinite_of_checked h
    | native | ref => exact isFinite_of_checked h

theorem randomIntBy_run {drawInt : Int → Int → Generator → Int × Generator}
    (hmin : finite call args 0 "min" m = .ok min m₁)
    (hmax : finite call args 1 "max" m₁ = .ok max m₂) :
    randomIntBy drawInt call args m =
      if toInt64 (floor max) < toInt64 (ceil min) then
        Machine.typeError "randomInt: min must not exceed max" m₂
      else
        let (k, generator) := drawInt (toInt64 (ceil min)) (toInt64 (floor max)) m₂.generator
        .ok (.double (ofInt k)) { m₂ with generator } := by
  simp only [randomIntBy, Exec.bind_run, hmin, hmax]
  split <;> rfl

theorem randomIntBy_integer {drawInt : Int → Int → Generator → Int × Generator}
    (hdraw : KeepsBounds drawInt) (hmin : finite call args 0 "min" m = .ok min m₁)
    (hmax : finite call args 1 "max" m₁ = .ok max m₂) :
    match randomIntBy drawInt call args m with
    | .error .. => ¬HasInteger min max ∧ value max < 2 ^ 63 ∧ -2 ^ 63 < value min
    | .ok v _ => (HasInteger min max ∨ 2 ^ 63 ≤ value max ∨ value min ≤ -2 ^ 63) ∧
        ∃ k, v = .double (ofInt k) ∧ Held min max k := by
  have hmin' := isFinite_of_finite hmin
  have hmax' := isFinite_of_finite hmax
  rw [randomIntBy_run hmin hmax]
  by_cases hlt : toInt64 (floor max) < toInt64 (ceil min)
  · rw [if_pos hlt]
    exact (toInt64_floor_lt_iff hmin' hmax').1 hlt
  · have hle := not_lt.1 hlt
    obtain ⟨hlow, hhigh⟩ := hdraw _ _ m₂.generator hle
    rw [if_neg hlt]
    exact ⟨(toInt64_ceil_le_iff hmin' hmax').1 hle, _, rfl, hmin', hmax', hlow, hhigh⟩

end Host

end Script

/-! ### Both -/

/-- An integer is drawn unless there is none, and it is in the range unless a bound is beyond the
limit of 64 bits on its side. Then it is that limit. A script gets it as a double, and it also gets
one where its range is without integers and lies beyond the limit. -/
theorem integer_draws (min max : Float) :
    (∀ (draw : Float → Float → RandomSource → Float × RandomSource)
      (drawInt : Int → Int → RandomSource → Int × RandomSource) (locale : Locale) (n : Node)
      (prev : Json) (r : Run), KeepsBounds drawInt → n.flag "integer" = true →
      Operation.numberOf locale n "min" prev r.ctx.vars = .ok min →
      Operation.numberOf locale n "max" prev r.ctx.vars = .ok max →
      match Operation.randomBy draw drawInt locale n prev r with
      | .error .. => (max - min).isFinite = false ∨ max < min ∨ ¬HasInteger min max
      | .ok v _ => (max - min).isFinite = true ∧ ¬max < min ∧ HasInteger min max ∧
          ∃ k : Int, v = .int k ∧
            (Within min max k ↔ value min < 2 ^ 63 ∧ -2 ^ 63 ≤ value max) ∧
            (2 ^ 63 ≤ value min → k = maxInt64) ∧ (value max < -2 ^ 63 → k = minInt64)) ∧
    (∀ (drawInt : Int → Int → Generator → Int × Generator) (call : Script.Caller)
      (args : List Script.Val) (m m₁ m₂ : Script.Machine), KeepsBounds drawInt →
      Script.Host.finite call args 0 "min" m = .ok min m₁ →
      Script.Host.finite call args 1 "max" m₁ = .ok max m₂ →
      match Script.Host.randomIntBy drawInt call args m with
      | .error .. => ¬HasInteger min max ∧ value max < 2 ^ 63 ∧ -2 ^ 63 < value min
      | .ok v _ => (HasInteger min max ∨ 2 ^ 63 ≤ value max ∨ value min ≤ -2 ^ 63) ∧
          ∃ x : Float, v = .double x ∧ x.isFinite = true ∧ (∃ k : Int, value x = k) ∧
            (Within min max (value x) ↔ value min ≤ 2 ^ 63 ∧ -2 ^ 63 ≤ value max) ∧
            (2 ^ 63 ≤ value min → value x = 2 ^ 63) ∧
            (value max < -2 ^ 63 → value x = -2 ^ 63)) := by
  constructor
  · intro draw drawInt locale n prev r hdraw hflag hmin hmax
    have hresult := Operation.randomBy_integer draw hdraw hflag hmin hmax
    revert hresult
    cases Operation.randomBy draw drawInt locale n prev r with
    | error err r' => exact id
    | ok v r' =>
      rintro ⟨hspan, horder, hsome, k, rfl, hheld⟩
      exact ⟨hspan, horder, hsome, k, rfl, hheld.within_iff, hheld.eq_maxInt64, hheld.eq_minInt64⟩
  · intro drawInt call args m m₁ m₂ hdraw hmin hmax
    have hresult := Script.Host.randomIntBy_integer hdraw hmin hmax
    revert hresult
    cases Script.Host.randomIntBy drawInt call args m with
    | error cut m' => exact id
    | ok v m' =>
      rintro ⟨hsome, k, rfl, hheld⟩
      refine ⟨hsome, _, rfl, isFinite_ofInt hheld.natAbs_le,
        exists_intCast_value_ofInt hheld.natAbs_le, hheld.within_value_iff, ?_, ?_⟩
      · intro h
        rw [hheld.eq_maxInt64 h, value_ofInt_maxInt64]
      · intro h
        rw [hheld.eq_minInt64 h, value_ofInt_minInt64]

theorem integer_draws_of_ones :
    let n : Node := ⟨.random, "n", [("integer", .bool true),
      ("min", (Ref.literal (.double 0.5)).toJson), ("max", (Ref.literal (.double 1.5)).toJson)], []⟩
    let args : List Script.Val := [.double 0.5, .double 1.5]
    let call : Script.Caller := fun f _ _ => pure f
    (∃ r, Operation.random {} n .null ⟨{}, {}⟩ = .ok (.int 1) r) ∧ Within 0.5 1.5 (1 : Int) ∧
      (∃ m, Script.Host.randomInt call args { generator := ⟨0⟩ } = .ok (.double 1.0) m) ∧
      Within 0.5 1.5 (value 1.0) := by
  intro n args call
  have hlow : value 0.5 = 1 / 2 := by
    rw [value_of_parts (m := 2 ^ 52) (e := -53) (by decide +kernel)]
    norm_num
  have hhigh : value 1.5 = 3 / 2 := by
    rw [value_of_parts (m := 3 * 2 ^ 51) (e := -52) (by decide +kernel)]
    norm_num
  have hnode := (integer_draws 0.5 1.5).1 RandomSource.draw RandomSource.drawInt {} n .null
    ⟨{}, {}⟩ RandomSource.drawInt_keepsBounds rfl rfl rfl
  have hscript := (integer_draws 0.5 1.5).2 Generator.integer call args { generator := ⟨0⟩ } _ _
    Generator.integer_keepsBounds rfl rfl
  refine ⟨⟨_, rfl⟩, ?_, ⟨_, rfl⟩, ?_⟩
  · obtain ⟨-, -, -, k, hk, hwithin, -⟩ := hnode
    obtain rfl : 1 = k := Number.int.inj (Json.num.inj hk)
    exact hwithin.2 (by rw [hlow, hhigh]; norm_num)
  · obtain ⟨-, x, hx, -, -, hwithin, -⟩ := hscript
    obtain rfl : 1.0 = x :=
      Script.Numeric.double.inj (Script.Primitive.num.inj (Script.Val.primitive.inj hx))
    exact hwithin.2 (by rw [hlow, hhigh]; norm_num)

/-- The integers from `2 ^ 63` on are beyond what is drawn. -/
theorem integer_draw_leaves_range :
    let n : Node := ⟨.random, "n", [("integer", .bool true),
      ("min", (Ref.literal (.int 9223372036854775808)).toJson),
      ("max", (Ref.literal (.int 9223372036854775808)).toJson)], []⟩
    let args : List Script.Val := [.double 1e19, .double 1e19]
    let call : Script.Caller := fun f _ _ => pure f
    (∃ r, Operation.random {} n .null ⟨{}, {}⟩ = .ok (.int 9223372036854775807) r) ∧
      ¬Within 9223372036854775808.0 9223372036854775808.0 (9223372036854775807 : Int) ∧
      (∃ m, Script.Host.randomInt call args { generator := ⟨0⟩ } =
        .ok (.double 9223372036854775808.0) m) ∧
      ¬Within 1e19 1e19 (value 9223372036854775808.0) := by
  intro n args call
  have hbound : value 9223372036854775808.0 = 2 ^ 63 := by
    rw [value_of_parts (m := 2 ^ 52) (e := 11) (by decide +kernel)]
    norm_num
  have hlarge : value 1e19 = 10 ^ 19 := by
    rw [value_of_parts (m := 4882812500000000) (e := 11) (by decide +kernel)]
    norm_num
  refine ⟨⟨_, rfl⟩, ?_, ⟨_, rfl⟩, ?_⟩
  · rw [Within, hbound]
    norm_num
  · rw [Within, hbound, hlarge]
    norm_num

end FlowTree
