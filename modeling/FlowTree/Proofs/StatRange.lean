import FlowTree.Proofs.Segments
import FlowTree.Proofs.Session
import FlowTree.Proofs.StatChange

/-!
# Stats stay in their ranges

Whatever number a node on a stat is given, the stat is in its range afterwards: for a player whose
stored numbers are finite each sum is a number, and numbers are brought into the range. What is given
as no number is not: the range has nothing to say of it, and the stat is no number then.
-/

namespace FlowTree

open Operation Binary64

/-! ### Finite stats -/

namespace Player
variable {p p' : Player}

/-- The numbers among the stats are finite, as numbers are that can be written. -/
def Finite (p : Player) : Prop :=
  ∀ id k, p.stat? id = some (.num k) → k.toFloat.isFinite = true

theorem Finite.congr (h : p.Finite) (hp : p'.stats = p.stats) : p'.Finite := by
  intro id k hk
  exact h id k (by rw [← hk, stat?, stat?, hp])

theorem Finite.setStat (h : p.Finite) {id : String} {v : Json}
    (hv : ∀ k, v = .num k → k.toFloat.isFinite = true) : (p.setStat id v).Finite := by
  intro id' k hk
  by_cases hid : id' = id
  · subst hid
    rw [stat?_setStat_self] at hk
    exact hv k (Option.some.inj hk)
  · rw [stat?_setStat_of_ne hid] at hk
    exact h id' k hk

theorem Finite.numericStat (h : p.Finite) (id : String) : (p.numericStat id).isFinite = true := by
  unfold Player.numericStat
  cases hstat : p.stat? id with
  | none => decide +kernel
  | some j =>
    cases j with
    | num k => exact h id k hstat
    | _ => exact (by decide +kernel : (0.0 : Float).isFinite = true)

end Player

theorem StatTemplate.isFinite_of_reach {t : StatTemplate} {op : Tag} {stored a : Float} {k : Number}
    (h : t.reach op stored a = .num k) : k.toFloat.isFinite = true :=
  Json.isFinite_of_ofFloat h

/-- A stat that is no number stat is never given a number. -/
theorem statValue_ne_num {locale : Locale} {t : StatTemplate} (ht : t.type ≠ .number) {v w : Json}
    (h : statValue locale t v = .ok w) (k : Number) : w ≠ .num k := by
  rintro rfl
  cases htype : t.type with
  | number => exact ht htype
  | boolean =>
    simp only [statValue, htype, Json.coerceTo] at h
    cases v <;> cases h
  | string =>
    simp only [statValue, htype, Json.coerceTo] at h
    cases v <;> cases h

theorem finite_statEdit {locale : Locale} {op : Tag} {t : StatTemplate} {stat : String}
    {input v : Json} {p p' : Player} (h : statEdit locale op t stat input p = .ok (v, p'))
    (hp : p.Finite) : p'.Finite := by
  by_cases ht : t.type = .number
  · have hop : op = .statAdd ∨ op = .statSubtract ∨ op = .statSet := by
      cases op with
      | statAdd => exact .inl rfl
      | statSubtract => exact .inr (.inl rfl)
      | statSet => exact .inr (.inr rfl)
      | _ => cases h
    rw [statEdit_number locale hop ht] at h
    cases hnumber : input.toNumber locale with
    | error err => rw [hnumber] at h; cases h
    | ok a =>
      rw [hnumber] at h
      cases h
      exact hp.setStat fun k hk => StatTemplate.isFinite_of_reach hk
  · unfold statEdit at h
    rw [if_pos ht] at h
    split at h
    · cases hv : statValue locale t input with
      | error err => rw [hv] at h; cases h
      | ok w =>
        rw [hv] at h
        cases h
        exact hp.setStat fun k hk => absurd hk (statValue_ne_num ht hv k)
    · cases h
    · cases h
    · cases h

namespace Engine
variable {e : Engine} {call : Caller} {n : Node} {prev : Json} {r : Run}

theorem Outcome.finite {result : EStateM.Result NodeError Run Json}
    (h : Outcome e call n prev r result) (op : n.op ≠ .callCustomFlow)
    (hr : r.world.player.Finite) : (Action.resultRun result).world.player.Finite := by
  cases h with
  | assigned => exact hr.congr (Player.stats_addSegment ..)
  | segmentAdded => exact hr.congr (Player.stats_addSegment ..)
  | segmentRemoved => exact hr.congr rfl
  | statChanged stat t input v p _ given declared edited => exact finite_statEdit edited hr
  | called _ _ _ hop => exact absurd hop op
  | callFailed _ _ _ hop => exact absurd hop op
  | _ => exact hr

/-- Engines store no number that is not finite. -/
theorem keeps_finite (e : Engine) : e.Keeps fun w => w.player.Finite where
  warn _ _ h := h
  after call s op h := by
    obtain ⟨result, ho, ⟨log, hworld⟩, -⟩ := s.after_cases e call
    rw [hworld]
    exact ho.finite op h
  begin f inv w h := by
    refine h.congr ?_
    show (enter { w with pool := w.pool.checkout.2 } f).player.stats = w.player.stats
    unfold enter
    split
    · exact Player.stats_enterFlow ..
    · rfl
  finish _ _ h := h

/-! ### Ranges -/

/-- The number that a node aims at is none only if the amount is none. -/
theorem isNaN_aim (op : Tag) {stored : Float} (hstored : stored.isFinite = true) (a : Float) :
    (aim op stored a).isNaN = a.isNaN := by
  have hsum (b : Float) : (stored + b).isNaN = b.isNaN := by
    cases hb : b.isNaN with
    | true => exact isNaN_add_of_isNaN (.inr hb)
    | false => exact isNaN_add hstored hb
  unfold aim
  split
  · exact hsum a
  · rw [← add_neg, hsum, isNaN_neg]
  · rfl

/-- A stat of a range with finite ends is stored as a number of the range. -/
theorem exists_num_of_mem {lo hi x : Float} (hlo : lo.isFinite = true) (hhi : hi.isFinite = true)
    (hmem : lo ≤ x ∧ x ≤ hi) : ∃ k, Json.ofFloat x = .num k ∧ lo ≤ k.toFloat ∧ k.toFloat ≤ hi := by
  obtain ⟨hlox, hxhi⟩ := hmem
  obtain ⟨hlon, hxn⟩ := isNaN_of_le hlox
  have hhin := (isNaN_of_le hxhi).2
  obtain ⟨k, hk, hsame⟩ := Json.ofFloat_of_isFinite (isFinite_of_mem hlo hhi hlox hxhi)
  have hkn : k.toFloat.isNaN = false := hsame.isNaN_eq.trans hxn
  rw [le_iff hlon hxn] at hlox
  rw [le_iff hxn hhin] at hxhi
  refine ⟨k, hk, ?_, ?_⟩
  · rwa [le_iff hlon hkn, hsame.key_eq]
  · rwa [le_iff hkn hhin, hsame.key_eq]

/-- In every session a node on a ranged number stat leaves a number of the range, with the player,
in the context and as its value, whatever number it is given. Given what is no number, it leaves
none. -/
theorem stat_inRange {w : World} (hw : w.player.Finite) (acts : List HostAct) {e : Engine}
    {frames : List Frame} {m : Machine} (hreach : e.Reaches ⟨frames, playAll acts w⟩ m)
    {n : Node} {prev : Json} {r : Run} (hhandles : m.Handles n prev r)
    (op : n.op = .statAdd ∨ n.op = .statSubtract ∨ n.op = .statSet) {stat : String}
    (given : idOf n "statId" prev r.ctx.vars = .ok stat) {t : StatTemplate}
    (declared : e.game.template? stat = some t) (number : t.type = .number) {lo hi : Float}
    (hlo : t.rangeMin = some lo) (hhi : t.rangeMax = some hi) (hle : lo ≤ hi) {call : Caller}
    {v : Json} {r' : Run} (h : e.perform call n prev r = .ok v r') :
    r'.world.player.stat? stat = some v ∧ r'.ctx.vars.contextual? stat = some v ∧
      ∃ a, n.ChangesStat e prev r stat t a ∧
        (a.isNaN = true → v = .str "NaN") ∧
        (a.isNaN = false → ∃ x, v = .ofFloat x ∧ lo ≤ x ∧ x ≤ hi) ∧
        (a.isNaN = false → lo.isFinite = true → hi.isFinite = true →
          ∃ k, v = .num k ∧ lo ≤ k.toFloat ∧ k.toFloat ≤ hi) := by
  have hstart : (playAll acts w).player.Finite :=
    playAll_keeps (I := fun w => w.player.Finite) (fun e => e.keeps_finite)
      (fun backend w h => h.congr (by rw [World.player_deliver])) acts hw
  have hfinite : r.world.player.Finite := by
    rw [hhandles.2.1]
    exact (keeps_finite e).reaches hreach hstart
  obtain ⟨a, hchanges⟩ := changesStat_of_ok op given declared number h
  rw [perform_of_changesStat hchanges] at h
  obtain ⟨rfl, rfl⟩ := EStateM.Result.ok.inj h
  have hnan := isNaN_aim n.op (hfinite.numericStat stat) a
  have hmem (ha : a.isNaN = false) := t.clamp_mem hlo hhi hle (hnan.trans ha)
  refine ⟨r.stat?_setStat .., r.contextual?_setStat .., a, hchanges, fun ha => ?_, fun ha => ?_,
    fun ha hlo' hhi' => ?_⟩
  · rw [StatTemplate.reach, t.clamp_of_isNaN (hnan.trans ha)]
    exact Json.ofFloat_of_isNaN (hnan.trans ha)
  · exact ⟨_, rfl, hmem ha⟩
  · exact exists_num_of_mem hlo' hhi' (hmem ha)

theorem stat_inRange_of_infinity :
    let e : Engine :=
      { game := { templates := [(StatTemplate.number "energy").withRange 0.0 100.0] },
        timing := { clock := 0, elapsed := .ofMillis 0 } }
    let n : Node := ⟨.statAdd, "s",
      [("statId", .str "energy"), ("value", (Ref.literal (.str "Infinity")).toJson)], []⟩
    let acts := [.execute e ⟨"f", n⟩ {}, .deliver .rejecting]
    let r : Run := ⟨{}, playAll acts { player := { stats := [("energy", .int 90)] } }⟩
    ∃ v r', e.perform (e.callerAt 0) n .null r = .ok v r' ∧
      r'.world.player.stat? "energy" = some v ∧
      ∃ k, v = .num k ∧ 0.0 ≤ k.toFloat ∧ k.toFloat ≤ 100.0 := by
  intro e n acts r
  have hw : Player.Finite { stats := [("energy", .int 90)] } := by
    intro id k hk
    simp only [Player.stat?, Fields.get?, List.lookup_cons] at hk
    split at hk
    · cases hk
      decide +kernel
    · cases hk
  have hhandles : Machine.Handles ⟨[.run ⟨"f", n⟩ {} [(n, .null)]], r.world⟩ n .null r :=
    ⟨⟨rfl, by decide⟩, rfl, _, _, _, rfl⟩
  have hgiven : idOf n "statId" .null r.ctx.vars = .ok "energy" := rfl
  have hchanges : n.ChangesStat e .null r "energy" _ (Binary64.infinity false) :=
    ⟨.inl rfl, hgiven, rfl, rfl, .str "Infinity", rfl, rfl⟩
  have h : e.perform (e.callerAt 0) n .null r = _ := perform_of_changesStat hchanges
  obtain ⟨hstored, -, a, ha, -, -, hrange⟩ :=
    stat_inRange hw acts .refl hhandles (.inl rfl) hgiven rfl rfl rfl rfl (by decide +kernel) h
  have ha : a = Binary64.infinity false := by
    obtain ⟨input, hinput, hnumber⟩ := ha.amount
    cases hinput
    exact (Except.ok.inj hnumber).symm
  have hnan : a.isNaN = false := by
    rw [ha]
    decide +kernel
  exact ⟨_, _, h, hstored, hrange hnan (by decide +kernel) (by decide +kernel)⟩

/-- A stat of a range need not be in the range: what is no number is stored as it is. -/
theorem stat_leaves_range :
    let e : Engine :=
      { game := { templates := [(StatTemplate.number "energy").withRange 0.0 100.0] },
        timing := { clock := 0, elapsed := .ofMillis 0 } }
    let n : Node := ⟨.statSet, "s",
      [("statId", .str "energy"), ("value", (Ref.literal (.str "NaN")).toJson)], []⟩
    ∃ r', e.perform (e.callerAt 0) n .null ⟨{}, {}⟩ = .ok (.str "NaN") r' ∧
      r'.world.player.stat? "energy" = some (.str "NaN") ∧
      r'.ctx.vars.contextual? "energy" = some (.str "NaN") :=
  ⟨_, rfl, rfl, rfl⟩

end Engine

end FlowTree
