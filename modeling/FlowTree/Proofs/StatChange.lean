import FlowTree.Proofs.Perform
import FlowTree.Proofs.StoredNumber

/-!
# Changes of stats

A node on a number stat aims at a number and brings it into the range of the stat. What it gives,
what the player has then and what the context says are one value. An addition starts from the number
that the player has stored, which is zero for whatever is stored otherwise, and not from the value
that the context has for the stat.
-/

namespace FlowTree

open Operation Binary64

/-! ### Stored stats -/

theorem Fields.insert_insert (k : String) (v w : Json) (fs : Fields) :
    insert k w (insert k v fs) = insert k w fs := by
  induction fs with
  | nil => simp [insert]
  | cons f fs ih =>
    obtain ⟨l, u⟩ := f
    by_cases heq : k = l
    · simp [insert, heq]
    · by_cases hlt : k < l
      · simp [insert, heq, hlt]
      · simp [insert, heq, hlt, ih]

namespace Player

theorem setStat_setStat (p : Player) (id : String) (v w : Json) :
    (p.setStat id v).setStat id w = p.setStat id w := by
  simp only [setStat, Fields.insert_insert]

theorem stats_addSegment (p : Player) (id : String) : (p.addSegment id).stats = p.stats := by
  unfold addSegment
  split <;> rfl

theorem stats_enterFlow (p : Player) (flow : String) : (p.enterFlow flow).stats = p.stats := by
  unfold enterFlow
  split <;> rfl

end Player

/-! ### Numbers that nodes aim at -/

/-- The number that an operation would give to a stat without a range. -/
def aim (op : Tag) (stored amount : Float) : Float :=
  match op with
  | .statAdd => stored + amount
  | .statSubtract => stored - amount
  | _ => amount

/-- The value that an operation gives to a number stat. -/
def StatTemplate.reach (t : StatTemplate) (op : Tag) (stored amount : Float) : Json :=
  .ofFloat (t.clamp (aim op stored amount))

theorem settle_addToStat (locale : Locale) (t : StatTemplate) (stat : String) (p : Player)
    (a : Float) :
    settle locale t stat (p.addToStat stat a) =
      .ok (.ofFloat (t.clamp (p.numericStat stat + a)),
        p.setStat stat (.ofFloat (t.clamp (p.numericStat stat + a)))) := by
  obtain ⟨y, hy, hsame⟩ := Json.toNumber_ofFloat locale (p.numericStat stat + a)
  have hread : (((p.addToStat stat a).stat? stat).getD .null).toNumber locale = .ok y := by
    simpa [Player.addToStat] using hy
  have hclamp : Json.ofFloat (t.clamp y) = .ofFloat (t.clamp (p.numericStat stat + a)) :=
    Json.ofFloat_congr (t.clamp_congr hsame)
  rw [settle, hread]
  simp only [Except.map, hclamp]
  split
  · rw [Player.addToStat, Player.setStat_setStat]
  · -- the sum was in range, so that it is stored already
    rename_i hequal
    have hstay : Same (t.clamp y) y := same_of_beq (by simpa [bne] using hequal)
    rw [Player.addToStat, ← hclamp, Json.ofFloat_congr hstay, Json.ofFloat_congr hsame]

theorem statValue_number (locale : Locale) {t : StatTemplate} (ht : t.type = .number) (v : Json) :
    statValue locale t v = (v.toNumber locale).map fun a => .ofFloat (t.clamp a) := by
  have hcoerced (w : Json) (hw : v.coerceTo locale .number = .ok w) :
      statValue locale t v = (w.toNumber locale).map fun a => .ofFloat (t.clamp a) := by
    simp only [statValue, ht, hw]
    rfl
  by_cases hnum : ∃ k, v = .num k
  · obtain ⟨k, rfl⟩ := hnum
    exact hcoerced _ rfl
  · have hcoerce := @Json.coerceTo_number locale v (not_exists.1 hnum)
    cases hv : v.toNumber locale with
    | error err =>
      rw [hv] at hcoerce
      simp only [statValue, ht, hcoerce]
      rfl
    | ok a =>
      rw [hv] at hcoerce
      obtain ⟨y, hy, hsame⟩ := Json.toNumber_ofFloat locale a
      rw [hcoerced _ hcoerce, hy]
      exact congrArg Except.ok (Json.ofFloat_congr (t.clamp_congr hsame))

/-- What an operation does to a number stat. -/
theorem statEdit_number (locale : Locale) {op : Tag}
    (hop : op = .statAdd ∨ op = .statSubtract ∨ op = .statSet) {t : StatTemplate}
    (ht : t.type = .number) (stat : String) (input : Json) (p : Player) :
    statEdit locale op t stat input p = (input.toNumber locale).map fun a =>
      (t.reach op (p.numericStat stat) a,
        p.setStat stat (t.reach op (p.numericStat stat) a)) := by
  unfold statEdit
  rw [if_neg (not_not.2 ht)]
  rcases hop with rfl | rfl | rfl
  · cases input.toNumber locale with
    | error err => rfl
    | ok a => exact settle_addToStat locale t stat p a
  · cases input.toNumber locale with
    | error err => rfl
    | ok a =>
      have hsub := settle_addToStat locale t stat p (-a)
      rw [add_neg] at hsub
      exact hsub
  · simp only [statValue_number locale ht]
    cases input.toNumber locale <;> rfl

/-- The value that an operation gives to a stat of any type is the one that is stored. -/
theorem statEdit_eq_setStat {locale : Locale} {op : Tag} {t : StatTemplate} {stat : String}
    {input v : Json} {p p' : Player} (h : statEdit locale op t stat input p = .ok (v, p')) :
    p' = p.setStat stat v := by
  by_cases ht : t.type = .number
  · have hop : op = .statAdd ∨ op = .statSubtract ∨ op = .statSet := by
      cases op with
      | statAdd => exact .inl rfl
      | statSubtract => exact .inr (.inl rfl)
      | statSet => exact .inr (.inr rfl)
      | _ => cases h
    rw [statEdit_number locale hop ht] at h
    cases hnumber : input.toNumber locale with
    | error err => rw [hnumber] at h; cases h
    | ok a => rw [hnumber] at h; cases h; rfl
  · -- only a number stat can be added to or subtracted from
    unfold statEdit at h
    rw [if_pos ht] at h
    split at h
    · cases hv : statValue locale t input with
      | error err => rw [hv] at h; cases h
      | ok w => rw [hv] at h; cases h; rfl
    · cases h
    · cases h
    · cases h

/-! ### Nodes -/

/-- The node changes a number stat, by this amount or to it. -/
structure Node.ChangesStat (e : Engine) (n : Node) (prev : Json) (r : Run) (stat : String)
    (t : StatTemplate) (a : Float) : Prop where
  op : n.op = .statAdd ∨ n.op = .statSubtract ∨ n.op = .statSet
  given : idOf n "statId" prev r.ctx.vars = .ok stat
  declared : e.game.template? stat = some t
  number : t.type = .number
  amount : ∃ input, valueOf n "value" prev r.ctx.vars = .ok input ∧
    input.toNumber e.locale = .ok a

/-- The run after its flow gave a value to a stat. -/
def Run.setStat (r : Run) (stat : String) (v : Json) : Run :=
  (r.withPlayer (r.world.player.setStat stat v)).setContextual stat v

namespace Run

@[simp]
theorem stat?_setStat (r : Run) (stat : String) (v : Json) :
    (r.setStat stat v).world.player.stat? stat = some v :=
  Player.stat?_setStat_self ..

@[simp]
theorem contextual?_setStat (r : Run) (stat : String) (v : Json) :
    (r.setStat stat v).ctx.vars.contextual? stat = some v :=
  Variables.contextual?_setContextual_self ..

end Run

namespace Engine
variable {e : Engine} {call : Caller} {n : Node} {prev v : Json} {r r' : Run} {stat : String}
  {t : StatTemplate} {a : Float}

theorem perform_stat (op : n.op = .statAdd ∨ n.op = .statSubtract ∨ n.op = .statSet) :
    perform e call n prev r = statChange e n prev r := by
  rcases op with op | op | op <;> simp only [perform, op]

/-- What a node on a number stat does. -/
theorem perform_of_changesStat (h : n.ChangesStat e prev r stat t a) :
    perform e call n prev r =
      .ok (t.reach n.op (r.world.player.numericStat stat) a)
        (r.setStat stat (t.reach n.op (r.world.player.numericStat stat) a)) := by
  obtain ⟨input, hinput, hnumber⟩ := h.amount
  rw [perform_stat h.op, statChange_run, h.given]
  simp only [h.declared, hinput, statEdit_number e.locale h.op h.number, hnumber]
  rfl

/-- A node on a number stat that gives a value was given an amount. -/
theorem changesStat_of_ok (op : n.op = .statAdd ∨ n.op = .statSubtract ∨ n.op = .statSet)
    (given : idOf n "statId" prev r.ctx.vars = .ok stat)
    (declared : e.game.template? stat = some t) (number : t.type = .number)
    (h : perform e call n prev r = .ok v r') : ∃ a, n.ChangesStat e prev r stat t a := by
  rw [perform_stat op, statChange_run, given] at h
  simp only [declared] at h
  cases hinput : valueOf n "value" prev r.ctx.vars with
  | error err => rw [hinput] at h; cases h
  | ok input =>
    rw [hinput] at h
    simp only [statEdit_number e.locale op number] at h
    cases hnumber : input.toNumber e.locale with
    | error err => rw [hnumber] at h; cases h
    | ok a => exact ⟨a, op, given, declared, number, input, hinput, hnumber⟩

/-- An addition to a stat starts from the number that the player has stored, and from zero if none
is stored: no matter what the context has for the stat. -/
theorem statShift_from_stored (h : n.ChangesStat e prev r stat t a)
    (hshift : n.op = .statAdd ∨ n.op = .statSubtract) :
    ∃ x v r', perform e call n prev r = .ok v r' ∧
      v = .ofFloat (t.clamp (if n.op = .statAdd then x + a else x - a)) ∧
      r'.world.player.stat? stat = some v ∧ r'.ctx.vars.contextual? stat = some v ∧
      (∀ k, r.world.player.stat? stat = some (.num k) → (Json.num k).toNumber e.locale = .ok x) ∧
      ((∀ k, r.world.player.stat? stat ≠ some (.num k)) → x = 0.0) := by
  refine ⟨r.world.player.numericStat stat, _, _, perform_of_changesStat h, ?_, r.stat?_setStat ..,
    r.contextual?_setStat .., ?_, ?_⟩
  · rcases hshift with op | op
    · simp [StatTemplate.reach, aim, op]
    · simp [StatTemplate.reach, aim, op]
  · intro k hk
    simp [Player.numericStat, hk, Json.asFloat?, Json.toNumber]
  · intro hnone
    unfold Player.numericStat
    cases hstat : r.world.player.stat? stat with
    | none => rfl
    | some j =>
      cases j with
      | num k => exact absurd hstat (hnone k)
      | _ => rfl

theorem statShift_from_stored_of_full :
    let e : Engine :=
      { game := { templates := [(StatTemplate.number "energy").withRange 0.0 100.0] },
        timing := { clock := 0, elapsed := .ofMillis 0 } }
    let n : Node := ⟨.statAdd, "s",
      [("statId", .str "energy"), ("value", (Ref.literal (.str "50")).toJson)], []⟩
    let r : Run := ⟨{}, { player := { stats := [("energy", .int 90)] } }⟩
    ∃ r', e.perform (e.callerAt 0) n .null r = .ok (.int 100) r' ∧
      r'.world.player.stat? "energy" = some (.int 100) ∧
      r'.ctx.vars.contextual? "energy" = some (.int 100) := by
  intro e n r
  have hchanges : n.ChangesStat e .null r "energy" _ (Binary64.ofInt 50) :=
    ⟨.inl rfl, rfl, rfl, rfl, .str "50", rfl, rfl⟩
  obtain ⟨x, v, r', hp, hv, hstored, hcontext, hnumber, -⟩ :
      ∃ x v r', e.perform (e.callerAt 0) n .null r = .ok v r' ∧ _ :=
    statShift_from_stored hchanges (.inl rfl)
  have hx : Binary64.ofInt 90 = x := Except.ok.inj (hnumber (.int 90) rfl)
  have hfull : v = .int 100 := by
    rw [hv, ← hx, if_pos rfl]
    show Json.ofFloat (((StatTemplate.number "energy").withRange 0.0 100.0).clamp
      (Binary64.ofInt 90 + Binary64.ofInt 50)) = .int 100
    decide +kernel
  subst hfull
  exact ⟨r', hp, hstored, hcontext⟩

/-- The number that an addition starts from need not be the one that the flow sees: neither for a
stat that the player does not have, nor for one that an addition has made infinite before. -/
theorem statAdd_not_from_context :
    let e (t : StatTemplate) : Engine :=
      { game := { templates := [t] }, timing := { clock := 0, elapsed := .ofMillis 0 } }
    let add (stat : String) (amount : Int) : Node := ⟨.statAdd, "s",
      [("statId", .str stat), ("value", (Ref.literal (.int amount)).toJson)], []⟩
    let gold : StatTemplate := { StatTemplate.number "gold" with default := .int 10 }
    let r := (e gold).begin ⟨"f", add "gold" 5⟩ {} {}
    let power := StatTemplate.number "power"
    let q := (e power).begin ⟨"f", add "power" 1⟩ {}
      { player := { stats := [("power", .str "Infinity")] } }
    (r.ctx.vars.contextual? "gold" = some gold.default ∧
      gold.default.toNumber {} = .ok (Binary64.ofInt 10) ∧
      Json.ofFloat (gold.clamp (Binary64.ofInt 10 + Binary64.ofInt 5)) = .int 15 ∧
      ∃ r', (e gold).perform ((e gold).callerAt 0) (add "gold" 5) .null r = .ok (.int 5) r' ∧
        r'.world.player.stat? "gold" = some (.int 5)) ∧
    q.ctx.vars.contextual? "power" = some (.str "Infinity") ∧
      (Json.str "Infinity").toNumber {} = .ok (Binary64.infinity false) ∧
      Json.ofFloat (power.clamp (Binary64.infinity false + Binary64.ofInt 1)) = .str "Infinity" ∧
      ∃ q', (e power).perform ((e power).callerAt 0) (add "power" 1) .null q = .ok (.int 1) q' ∧
        q'.world.player.stat? "power" = some (.int 1) := by
  exact ⟨⟨rfl, rfl, rfl, _, rfl, rfl⟩, rfl, rfl, rfl, _, rfl, rfl⟩

end Engine

end FlowTree
