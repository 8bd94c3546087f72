import FlowTree.Proofs.Segments
import FlowTree.Proofs.Session

/-!
# Reports of segments

Each change of the player's segments is handed over to the backend, once and in order: whoever replays
the reports, in the order of the handing over, on the segments that the player had at first gets those
that the player has, and each report says something new. It makes no difference whether the backend
takes the reports.
-/

namespace FlowTree

open Operation

/-- What the backend is told of a player's segment. -/
inductive SegmentReport
  | added (id : String)
  | removed (id : String)
  deriving DecidableEq

namespace SegmentReport

/-- The segment that the payload of an action names. -/
def segmentId? (payload : Json) : Option String :=
  match payload with
  | .obj fields => (Fields.get? "segmentId" fields).bind Json.asString?
  | _ => none

/-- What an action reports, if it is one of those on segments. -/
def ofAction? (a : BackendAction) : Option SegmentReport :=
  if a.action = "addSegment" then (segmentId? a.payload).map added
  else if a.action = "removeSegment" then (segmentId? a.payload).map removed
  else none

/-- The segments once a report is taken over. -/
def replay (segments : List String) : SegmentReport → List String
  | added id => if id ∈ segments then segments else segments ++ [id]
  | removed id => segments.filter (· != id)

/-- The report says something new. -/
def Effective (segments : List String) : SegmentReport → Prop
  | added id => id ∉ segments
  | removed id => id ∈ segments

end SegmentReport

/-- The actions tell how the one list of segments became the other. -/
structure Mirrors (segments : List String) (actions : List BackendAction)
    (segments' : List String) : Prop where
  /-- Each action on a segment names one. -/
  named : ∀ a ∈ actions, a.action = "addSegment" ∨ a.action = "removeSegment" →
    ∃ report, SegmentReport.ofAction? a = some report
  effective : ∀ earlier report later,
    actions.filterMap SegmentReport.ofAction? = earlier ++ report :: later →
      report.Effective (earlier.foldl SegmentReport.replay segments)
  final : (actions.filterMap SegmentReport.ofAction?).foldl SegmentReport.replay segments = segments'

namespace Mirrors
variable {segments segments' segments'' : List String} {actions actions' : List BackendAction}

theorem nil (segments : List String) : Mirrors segments [] segments where
  named _ h := by cases h
  effective _ _ _ h := by simp at h
  final := rfl

theorem append (h : Mirrors segments actions segments') (h' : Mirrors segments' actions' segments'') :
    Mirrors segments (actions ++ actions') segments'' where
  named a ha := (List.mem_append.1 ha).elim (h.named a) (h'.named a)
  effective earlier report later hsplit := by
    rw [List.filterMap_append] at hsplit
    rcases List.append_eq_append_iff.1 hsplit with ⟨middle, rfl, htail⟩ | ⟨middle, hhead, htail⟩
    · rw [List.foldl_append, h.final]
      exact h'.effective middle report later htail
    · cases middle with
      | nil =>
        rw [List.append_nil] at hhead
        rw [← hhead, h.final]
        exact h'.effective [] report later htail.symm
      | cons first middle =>
        obtain ⟨rfl, -⟩ := List.cons.inj htail
        exact h.effective earlier report middle hhead
  final := by rw [List.filterMap_append, List.foldl_append, h.final, h'.final]

/-- An action that is a report. -/
theorem of_report {a : BackendAction} {report : SegmentReport}
    (ha : SegmentReport.ofAction? a = some report) (heffective : report.Effective segments) :
    Mirrors segments [a] (report.replay segments) where
  named b hb := fun _ => by
    obtain rfl := List.mem_singleton.1 hb
    exact ⟨report, ha⟩
  effective earlier report' later hsplit := by
    rw [List.filterMap_cons_some ha] at hsplit
    cases earlier with
    | nil =>
      obtain ⟨rfl, -⟩ := List.cons.inj hsplit
      exact heffective
    | cons first earlier => simp at hsplit
  final := by rw [List.filterMap_cons_some ha]; rfl

/-- An action that is none. -/
theorem of_other {a : BackendAction} (hadd : a.action ≠ "addSegment")
    (hremove : a.action ≠ "removeSegment") (segments : List String) :
    Mirrors segments [a] segments := by
  have ha : SegmentReport.ofAction? a = none := by
    rw [SegmentReport.ofAction?, if_neg hadd, if_neg hremove]
  refine ⟨fun b hb hname => ?_, fun earlier report later hsplit => ?_, ?_⟩
  · obtain rfl := List.mem_singleton.1 hb
    exact absurd hname (by simp [hadd, hremove])
  · rw [List.filterMap_cons_none ha] at hsplit
    simp at hsplit
  · rw [List.filterMap_cons_none ha]
    rfl

end Mirrors

/-- What was handed over between two worlds tells how the segments changed. -/
def Reported (w w' : World) : Prop :=
  ∃ actions, w'.handed = w.handed ++ actions ∧
    Mirrors w.player.segments actions w'.player.segments

namespace Reported
variable {w w' w'' : World} {e : Engine} {r : Run}

theorem of_same (hsegments : w'.player.segments = w.player.segments)
    (hhanded : w'.handed = w.handed) : Reported w w' := by
  refine ⟨[], by rw [hhanded, List.append_nil], ?_⟩
  rw [hsegments]
  exact .nil _

theorem trans (h : Reported w w') (h' : Reported w' w'') : Reported w w'' := by
  obtain ⟨actions, hhanded, hmirrors⟩ := h
  obtain ⟨actions', hhanded', hmirrors'⟩ := h'
  exact ⟨actions ++ actions', by rw [hhanded', hhanded, List.append_assoc],
    hmirrors.append hmirrors'⟩

theorem handed_handOver (r : Run) (e : Engine) (action : String) (payload : Json) :
    (r.handOver e action payload).world.handed =
      r.world.handed ++ [.make e.settings.backend action payload] := by
  simp [Run.handOver, World.handed]

/-- A change of segments that comes with its report. -/
theorem moveSegments {action id : String} {p : Player} {report : SegmentReport}
    (hreport : SegmentReport.ofAction? (.make e.settings.backend action
      (.obj [("segmentId", .str id)])) = some report)
    (heffective : report.Effective r.world.player.segments)
    (hp : p.segments = report.replay r.world.player.segments) :
    Reported r.world (r.moveSegments e action id p).world := by
  refine ⟨[.make e.settings.backend action (.obj [("segmentId", .str id)])],
    handed_handOver _ e action _, ?_⟩
  show Mirrors _ _ p.segments
  rw [hp]
  exact .of_report hreport heffective

theorem addSegment {id : String} (free : r.world.player.hasSegment id = false) :
    Reported r.world (r.moveSegments e "addSegment" id (r.world.player.addSegment id)).world := by
  have hnot : id ∉ r.world.player.segments := by
    simpa [Player.hasSegment] using free
  have hp : (r.world.player.addSegment id).segments =
      (SegmentReport.added id).replay r.world.player.segments := by
    rw [SegmentReport.replay, if_neg hnot, Player.addSegment, free]
    rfl
  exact moveSegments rfl hnot hp

theorem removeSegment {id : String} (held : r.world.player.hasSegment id = true) :
    Reported r.world
      (r.moveSegments e "removeSegment" id (r.world.player.removeSegment id)).world := by
  have hmem : id ∈ r.world.player.segments := by
    simpa [Player.hasSegment] using held
  have hp : (r.world.player.removeSegment id).segments =
      (SegmentReport.removed id).replay r.world.player.segments := rfl
  exact moveSegments rfl hmem hp

end Reported

namespace Engine
variable {e : Engine} {call : Caller} {n : Node} {prev : Json} {r : Run}

/-- A split test without a choice for the player holds the segment of none of its splits. -/
theorem hasSegment_of_free {splits : List Split} {flow slot : String} {held : String → Bool}
    (free : Split.sticky? splits flow slot held = none) {i : Nat} {s : Split}
    (hs : splits[i]? = some s) : held (Split.stickyKey flow slot s.slotId) = false := by
  have := List.findIdx?_eq_none_iff.1 free s (List.mem_of_getElem? hs)
  simpa using this

theorem Outcome.reported {result : EStateM.Result NodeError Run Json}
    (h : Outcome e call n prev r result) (op : n.op ≠ .callCustomFlow) :
    Reported r.world (Action.resultRun result).world := by
  cases h with
  | assigned splits rungs s _ given free picked =>
    exact Reported.addSegment (r := r.withRandom _) (hasSegment_of_free free picked)
  | segmentAdded id _ given free => exact .addSegment free
  | segmentRemoved id _ given held => exact .removeSegment held
  | statChanged stat t input v p _ given declared edited =>
    exact .of_same (segments_statEdit edited) rfl
  | called _ _ _ hop => exact absurd hop op
  | callFailed _ _ _ hop => exact absurd hop op
  | sent payload =>
    refine ⟨[.make e.settings.backend "sendEvent" payload],
      Reported.handed_handOver r e "sendEvent" payload, ?_⟩
    exact .of_other (show "sendEvent" ≠ "addSegment" by decide)
      (show "sendEvent" ≠ "removeSegment" by decide) _
  | _ => exact .of_same rfl rfl

/-- Engines report the changes of segments that they make. -/
theorem keeps_reported (e : Engine) (w : World) : e.Keeps (Reported w) where
  warn _ _ h := h.trans (.of_same rfl rfl)
  after call s op h := by
    obtain ⟨result, ho, ⟨log, hworld⟩, -⟩ := s.after_cases e call
    rw [hworld]
    exact (h.trans (ho.reported op)).trans (.of_same rfl rfl)
  begin f inv w' h := by
    refine h.trans (.of_same (segments_begin (e := e) f inv w') ?_)
    show (enter { w' with pool := w'.pool.checkout.2 } f).handed = w'.handed
    unfold enter
    split <;> rfl
  finish f r h := h.trans (.of_same rfl rfl)

end Engine

/-- However many flows run and triggers are fired in a session, what is handed over to the backend
tells how the player's segments changed. -/
theorem playAll_mirrors (acts : List HostAct) (w : World) :
    ∃ actions, (playAll acts w).handed = w.handed ++ actions ∧
      Mirrors w.player.segments actions (playAll acts w).player.segments := by
  refine playAll_keeps (I := Reported w) (fun e => e.keeps_reported w) ?_ acts (.of_same rfl rfl)
  intro backend w' h
  refine h.trans (.of_same ?_ (World.handed_deliver backend w'))
  rw [World.player_deliver]

end FlowTree
