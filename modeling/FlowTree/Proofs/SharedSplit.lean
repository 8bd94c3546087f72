import FlowTree.Proofs.Interleaving
import FlowTree.Proofs.StickySplit
import Mathlib.Logic.Function.Iterate

/-!
# Split tests that share a player

An evaluation of a split test turns to the player and to the random source several times: it asks
for one segment after the other, draws, joins a segment and asks for all of them. Other evaluations
of the same node may come in between. None of the segments that are held at the end is there
without an evaluation that has drawn its split and joined it, and each evaluation that has drawn
has joined the segment of its own split. So two evaluations agree unless both have drawn, and
differently, before either of them joined.
-/

namespace FlowTree

open Operation

/-- What an evaluation that has drawn a split still has to do, from here to the end. -/
inductive Errand
  | join
  | list
  | send
  | done
  deriving DecidableEq

/-- How far an evaluation of a split test is. -/
inductive Stage
  /-- None of the splits before the position `i` was held when it was asked for. -/
  | asking (i : Nat)
  | found (i : Nat)
  | drawn (i : Nat) (s : Split) (errand : Errand)
  | failed (err : NodeError)
  deriving DecidableEq

namespace Stage

/-- The next call of an evaluation and what is done with its answer. -/
def next (e : Engine) (slot : String) (splits : List Split) (rungs : List Float) (r : Run) :
    Stage → Stage × Run
  | asking i =>
    match splits[i]? with
    | some s =>
      if r.world.player.hasSegment (Split.stickyKey r.ctx.flowId slot s.slotId) then (found i, r)
      else (asking (i + 1), r)
    | none =>
      let (x, random) := r.world.random.draw 0.0 100.0
      match splits[pickRung rungs x]? with
      | some s => (drawn (pickRung rungs x) s .join, r.withRandom random)
      | none =>
        (failed (.validation (.note ("split index " ++ toString (pickRung rungs x) ++
          " out of range"))), r.withRandom random)
  | drawn i s .join =>
    (drawn i s .list, r.withPlayer
      (r.world.player.addSegment (Split.stickyKey r.ctx.flowId slot s.slotId)))
  | drawn i s .list =>
    (drawn i s .send, r.setContextual Engine.segmentVariable (.strings r.world.player.segments))
  | drawn i s .send =>
    (drawn i s .done, r.handOver e "addSegment"
      (.obj [("segmentId", .str (Split.stickyKey r.ctx.flowId slot s.slotId))]))
  | drawn i s .done => (drawn i s .done, r)
  | found i => (found i, r)
  | failed err => (failed err, r)

def result? (r : Run) : Stage → Option (EStateM.Result NodeError Run Json)
  | found i | drawn i _ .done => some (.ok (.int i) r)
  | failed err => some (.error err r)
  | _ => none

def index? : Stage → Option Nat
  | found i | drawn i _ .done => some i
  | _ => none

/-! ### An evaluation by itself -/

section
variable (e : Engine) (slot : String) (splits : List Split) (rungs : List Float)

def advance (x : Stage × Run) : Stage × Run :=
  next e slot splits rungs x.2 x.1

theorem advance_asking (r : Run) (i : Nat)
    (hfree : ∀ j < i, ∀ s, splits[j]? = some s →
      r.world.player.hasSegment (Split.stickyKey r.ctx.flowId slot s.slotId) = false) :
    ∃ k, (advance e slot splits rungs)^[k] (asking i, r) =
      match Split.sticky? splits r.ctx.flowId slot r.world.player.hasSegment with
      | some j => (found j, r)
      | none => (asking (max i splits.length), r) := by
  obtain ⟨d, hd⟩ : ∃ d, splits.length - i = d := ⟨_, rfl⟩
  induction d generalizing i with
  | zero =>
    have hnone : Split.sticky? splits r.ctx.flowId slot r.world.player.hasSegment = none := by
      refine List.findIdx?_eq_none_iff.2 fun s hs => ?_
      obtain ⟨j, hj, hget⟩ := List.mem_iff_getElem.1 hs
      exact hfree j (by omega) s (hget ▸ List.getElem?_eq_getElem hj)
    have hmax : max i splits.length = i := by omega
    exact ⟨0, by simp only [hnone, hmax, Function.iterate_zero, id]⟩
  | succ d ih =>
    have hi : i < splits.length := by omega
    have hget : splits[i]? = some splits[i] := List.getElem?_eq_getElem hi
    cases hheld : r.world.player.hasSegment
      (Split.stickyKey r.ctx.flowId slot splits[i].slotId) with
    | true =>
      have hsticky : Split.sticky? splits r.ctx.flowId slot r.world.player.hasSegment = some i := by
        refine List.findIdx?_eq_some_iff_getElem.2 ⟨hi, hheld, fun j hj => ?_⟩
        have hj' : j < splits.length := by omega
        simp [hfree j hj splits[j] (List.getElem?_eq_getElem hj')]
      refine ⟨1, ?_⟩
      simp only [hsticky, Function.iterate_one, advance, next, hget, hheld, if_true]
    | false =>
      obtain ⟨k, hk⟩ := ih (i + 1) (fun j hj s hs => by
        rcases Nat.lt_succ_iff_lt_or_eq.1 hj with hj | rfl
        · exact hfree j hj s hs
        · rw [hget] at hs
          exact Option.some.inj hs ▸ hheld) (by omega)
      refine ⟨k + 1, ?_⟩
      have hmax : max (i + 1) splits.length = max i splits.length := by omega
      rw [Function.iterate_succ_apply, ← hmax, ← hk]
      simp only [advance, next, hget, hheld, Bool.false_eq_true, if_false]

theorem advance_drawn (r : Run) (i : Nat) (s : Split) :
    (advance e slot splits rungs)^[3] (drawn i s .join, r) =
      (drawn i s .done, r.moveSegments e "addSegment" (Split.stickyKey r.ctx.flowId slot s.slotId)
        (r.world.player.addSegment (Split.stickyKey r.ctx.flowId slot s.slotId))) := rfl

variable {splits rungs} in
/-- With no one in between, the calls of an evaluation make the operation of the node. -/
theorem splitTest_eq_advance {n : Node} (hsplits : splitsOf n = .ok (splits, rungs)) (r : Run) :
    ∃ k stage r', (advance e n.slotId splits rungs)^[k] (asking 0, r) = (stage, r') ∧
      stage.result? r' = some (splitTest e n r) := by
  obtain ⟨k, hk⟩ := advance_asking e n.slotId splits rungs r 0
    (fun j hj => absurd hj (Nat.not_lt_zero j))
  rw [splitTest_run, hsplits]
  cases hsticky : Split.sticky? splits r.ctx.flowId n.slotId r.world.player.hasSegment with
  | some i =>
    simp only [hsticky] at hk
    refine ⟨k, _, _, hk, ?_⟩
    simp only [hsticky]
    rfl
  | none =>
    simp only [hsticky, Nat.zero_max] at hk
    obtain ⟨s, hpick⟩ := getElem?_pickRung hsplits (r.world.random.draw 0.0 100.0).1
    have hpast : splits[splits.length]? = none := List.getElem?_eq_none (Nat.le_refl _)
    have hdraw : advance e n.slotId splits rungs (asking splits.length, r) =
        (drawn (pickRung rungs (r.world.random.draw 0.0 100.0).1) s .join,
          r.withRandom (r.world.random.draw 0.0 100.0).2) := by
      simp only [advance, next, hpast, hpick]
    have hend := advance_drawn e n.slotId splits rungs
      (r.withRandom (r.world.random.draw 0.0 100.0).2)
      (pickRung rungs (r.world.random.draw 0.0 100.0).1) s
    rw [← hdraw, ← hk, ← Function.iterate_succ_apply, ← Function.iterate_add_apply] at hend
    refine ⟨_, _, _, hend, ?_⟩
    simp only [hsticky, hpick]
    rfl

end

/-! ### What one call can do -/

/-- The calls of an evaluation, apart from what they answer with. -/
inductive Move (slot : String) (splits : List Split) : Stage → Run → Stage → Run → Prop
  | held {i : Nat} {s : Split} {r : Run} (get : splits[i]? = some s)
    (held : r.world.player.hasSegment (Split.stickyKey r.ctx.flowId slot s.slotId) = true) :
    Move slot splits (asking i) r (found i) r
  | free {i : Nat} {s : Split} {r : Run} (get : splits[i]? = some s)
    (free : r.world.player.hasSegment (Split.stickyKey r.ctx.flowId slot s.slotId) = false) :
    Move slot splits (asking i) r (asking (i + 1)) r
  | drew {i j : Nat} {s : Split} {r : Run} (past : splits[i]? = none) (get : splits[j]? = some s)
    (source : RandomSource) : Move slot splits (asking i) r (drawn j s .join) (r.withRandom source)
  | joined {i : Nat} {s : Split} {r : Run} :
    Move slot splits (drawn i s .join) r (drawn i s .list) (r.withPlayer
      (r.world.player.addSegment (Split.stickyKey r.ctx.flowId slot s.slotId)))
  | listed {i : Nat} {s : Split} {r : Run} (segments : Json) :
    Move slot splits (drawn i s .list) r (drawn i s .send)
      (r.setContextual Engine.segmentVariable segments)
  | sent {i : Nat} {s : Split} {r : Run} (e : Engine) (payload : Json) :
    Move slot splits (drawn i s .send) r (drawn i s .done) (r.handOver e "addSegment" payload)
  | ended {stage : Stage} {r : Run} (settled : (stage.result? r).isSome) :
    Move slot splits stage r stage r

theorem next_move {n : Node} {splits : List Split} {rungs : List Float}
    (hsplits : splitsOf n = .ok (splits, rungs)) (e : Engine) (slot : String) (stage : Stage)
    (r : Run) :
    Move slot splits stage r (stage.next e slot splits rungs r).1
      (stage.next e slot splits rungs r).2 := by
  cases stage with
  | asking i =>
    simp only [next]
    split
    · rename_i s hget
      split
      · rename_i hheld
        exact .held hget hheld
      · rename_i hfree
        exact .free hget (Bool.eq_false_iff.2 hfree)
    · rename_i hpast
      obtain ⟨s, hpick⟩ := getElem?_pickRung hsplits (r.world.random.draw 0.0 100.0).1
      simp only [hpick]
      exact .drew hpast hpick _
  | found i => exact .ended rfl
  | drawn i s errand =>
    cases errand with
    | join => exact .joined
    | list => exact .listed _
    | send => exact .sent e _
    | done => exact .ended rfl
  | failed err => exact .ended rfl

/-! ### What holds of one evaluation -/

/-- The split that an evaluation has found or drawn is one of those that are given, and is held if
the evaluation has come so far. -/
def Sound (splits : List Split) (held : String → Prop) : Stage → Prop
  | asking _ => True
  | found i => ∃ t, splits[i]? = some t ∧ held t.slotId
  | drawn i t errand => splits[i]? = some t ∧ (errand ≠ .join → held t.slotId)
  | failed _ => False

/-- An evaluation that has drawn this split and joined its segment. -/
def Joined (split : String) (stage : Stage) : Prop :=
  ∃ i t errand, stage = drawn i t errand ∧ errand ≠ .join ∧ t.slotId = split

/-- How many calls an evaluation still makes at most. -/
def left (splits : List Split) : Stage → Nat
  | asking i => splits.length - i + 4
  | drawn _ _ .join => 3
  | drawn _ _ .list => 2
  | drawn _ _ .send => 1
  | _ => 0

def Holds (flow slot : String) (p : Player) (split : String) : Prop :=
  p.hasSegment (Split.stickyKey flow slot split) = true

theorem holds_addSegment {flow slot : String} {p : Player} (split t : String) :
    Holds flow slot (p.addSegment (Split.stickyKey flow slot split)) t ↔
      t = split ∨ Holds flow slot p t := by
  by_cases ht : t = split
  · subst ht
    exact ⟨fun _ => .inl rfl, fun _ => Player.hasSegment_addSegment_self ..⟩
  · have hkey : Split.stickyKey flow slot t ≠ Split.stickyKey flow slot split :=
      fun h => ht (Split.stickyKey_inj h)
    rw [Holds, Player.hasSegment_addSegment_of_ne hkey]
    exact ⟨.inr, fun h => h.resolve_left ht⟩

variable {flow slot : String} {splits : List Split} {stage stage' : Stage} {r r' : Run}

theorem Sound.mono {held held' : String → Prop} (h : stage.Sound splits held)
    (hmono : ∀ t, held t → held' t) : stage.Sound splits held' := by
  cases stage with
  | asking i => trivial
  | found i =>
    obtain ⟨t, hget, hheld⟩ := h
    exact ⟨t, hget, hmono _ hheld⟩
  | drawn i t errand => exact ⟨h.1, fun hjoined => hmono _ (h.2 hjoined)⟩
  | failed err => exact h

namespace Move

theorem flowId (h : Move slot splits stage r stage' r') : r'.ctx.flowId = r.ctx.flowId := by
  cases h <;> rfl

theorem sound (h : Move slot splits stage r stage' r')
    (hs : stage.Sound splits (Holds r.ctx.flowId slot r.world.player)) :
    stage'.Sound splits (Holds r.ctx.flowId slot r'.world.player) := by
  cases h with
  | held get held => exact ⟨_, get, held⟩
  | free => trivial
  | drew past get source => exact ⟨get, fun hjoin => absurd rfl hjoin⟩
  | joined => exact ⟨hs.1, fun _ => (holds_addSegment ..).2 (.inl rfl)⟩
  | listed => exact ⟨hs.1, fun _ => hs.2 (by decide)⟩
  | sent => exact ⟨hs.1, fun _ => hs.2 (by decide)⟩
  | ended => exact hs

theorem keeps_joined (h : Move slot splits stage r stage' r') {t : String}
    (hjoined : stage.Joined t) : stage'.Joined t := by
  obtain ⟨i, u, errand, rfl, hjoin, hu⟩ := hjoined
  cases h with
  | joined => exact absurd rfl hjoin
  | listed => exact ⟨i, u, .send, rfl, by decide, hu⟩
  | sent => exact ⟨i, u, .done, rfl, by decide, hu⟩
  | ended => exact ⟨i, u, errand, rfl, hjoin, hu⟩

theorem held_cases (h : Move slot splits stage r stage' r') {t : String}
    (ht : Holds r.ctx.flowId slot r'.world.player t) :
    Holds r.ctx.flowId slot r.world.player t ∨ stage'.Joined t := by
  cases h with
  | @joined i s =>
    rcases (holds_addSegment ..).1 ht with rfl | ht
    · exact .inr ⟨i, s, .list, rfl, by decide, rfl⟩
    · exact .inl ht
  | _ => exact .inl ht

theorem keeps_held (h : Move slot splits stage r stage' r') {t : String}
    (ht : Holds r.ctx.flowId slot r.world.player t) :
    Holds r.ctx.flowId slot r'.world.player t := by
  cases h with
  | joined => exact (holds_addSegment ..).2 (.inr ht)
  | _ => exact ht

theorem left_le (h : Move slot splits stage r stage' r') :
    stage'.left splits ≤ stage.left splits - 1 := by
  cases h with
  | held get => exact Nat.zero_le _
  | free get =>
    have hlt := (List.getElem?_eq_some_iff.1 get).1
    simp only [left]
    omega
  | drew => simp only [left]; omega
  | joined | listed | sent => exact Nat.le_refl _
  | ended settled =>
    cases stage with
    | drawn i s errand => cases errand <;> first | exact Nat.le_refl _ | cases settled
    | asking i => cases settled
    | found | failed => exact Nat.le_refl _

end Move

/-- An evaluation that has not yet asked for the segment of the split at `i`, or has found one. -/
def Warned (i : Nat) : Stage → Prop
  | asking k => k ≤ i
  | found _ => True
  | _ => False

/-- An evaluation goes no way of its own while a segment is held that it still asks for. -/
theorem Move.warned (h : Move slot splits stage r stage' r') {i : Nat} {t : Split}
    (hget : splits[i]? = some t) (hheld : Holds r.ctx.flowId slot r.world.player t.slotId)
    (hs : stage.Warned i) : stage'.Warned i := by
  cases h with
  | held => trivial
  | @free k u _ get free =>
    have hne : k ≠ i := by
      rintro rfl
      rw [hget] at get
      obtain rfl := Option.some.inj get
      exact absurd hheld (Bool.eq_false_iff.1 free)
    exact Nat.lt_of_le_of_ne hs hne
  | drew past get =>
    have hlt := (List.getElem?_eq_some_iff.1 hget).1
    have hle := List.getElem?_eq_none_iff.1 past
    exact absurd (Nat.le_trans hle hs) (Nat.not_le.2 hlt)
  | joined | listed | sent => exact hs
  | ended => exact hs

theorem index?_of_left {held : String → Prop} (h : stage.Sound splits held)
    (hleft : stage.left splits = 0) : ∃ i, stage.index? = some i := by
  cases stage with
  | asking i => simp [left] at hleft
  | found i => exact ⟨i, rfl⟩
  | drawn i s errand => cases errand <;> first | exact ⟨i, rfl⟩ | cases hleft
  | failed err => exact h.elim

theorem index?_eq_some {i : Nat} (h : stage.index? = some i) :
    stage = found i ∨ ∃ t, stage = drawn i t .done := by
  cases stage with
  | asking j => cases h
  | found j =>
    cases h
    exact .inl rfl
  | drawn j s errand =>
    cases errand <;> cases h
    exact .inr ⟨s, rfl⟩
  | failed err => cases h

theorem Joined.eq_drawn {t : String} {i : Nat} (h : stage.Joined t) (hi : stage.index? = some i) :
    ∃ u, stage = drawn i u .done ∧ u.slotId = t := by
  obtain ⟨j, u, errand, rfl, -, hu⟩ := h
  rcases index?_eq_some hi with hfound | ⟨t', hdrawn⟩
  · cases hfound
  · cases hdrawn
    exact ⟨u, rfl, hu⟩

end Stage

/-! ### Evaluations in turns -/

def evaluate {ι : Type} (e : Engine) (slot : String) (splits : List Split) (rungs : List Float)
    (_ : ι) (x : Stage × Context) (w : World) : (Stage × Context) × World :=
  let (stage, r) := x.1.next e slot splits rungs ⟨x.2, w⟩
  ((stage, r.ctx), r.world)

section
variable {ι : Type} {flow slot : String} {splits : List Split}

/-- All evaluations have selected one split, and of the segments of the node the player holds
exactly one. -/
def Agree (flow slot : String) (splits : List Split) (s : Parties ι (Stage × Context) World) :
    Prop :=
  (∃ i, ∀ p, (s.own p).1.index? = some i) ∧
    ∃! t, t ∈ splits.map Split.slotId ∧ Stage.Holds flow slot s.common.player t

structure Evaluating (flow slot : String) (splits : List Split)
    (s : Parties ι (Stage × Context) World) : Prop where
  flowId : ∀ p, (s.own p).2.flowId = flow
  sound : ∀ p, (s.own p).1.Sound splits (Stage.Holds flow slot s.common.player)
  /-- What is held was joined by one of them. -/
  joined : ∀ t ∈ splits.map Split.slotId, Stage.Holds flow slot s.common.player t →
    ∃ p, (s.own p).1.Joined t

namespace Evaluating
variable {e : Engine} {n : Node} {rungs : List Float} {s : Parties ι (Stage × Context) World}

theorem start (hflow : ∀ p, (s.own p).2.flowId = flow) (hstart : ∀ p, (s.own p).1 = .asking 0)
    (hfree : Split.sticky? splits flow slot s.common.player.hasSegment = none) :
    Evaluating flow slot splits s where
  flowId := hflow
  sound p := by
    rw [hstart p]
    trivial
  joined t ht hheld := by
    obtain ⟨u, hu, rfl⟩ := List.mem_map.1 ht
    have hnot := List.findIdx?_eq_none_iff.1 hfree u hu
    exact absurd hheld (Bool.eq_false_iff.1 hnot)

theorem holds_iff (h : Evaluating flow slot splits s)
    (hover : ∀ p, ∃ i, (s.own p).1.index? = some i) {t : String}
    (ht : t ∈ splits.map Split.slotId) :
    Stage.Holds flow slot s.common.player t ↔
      ∃ p i u, (s.own p).1 = .drawn i u .done ∧ u.slotId = t := by
  constructor
  · intro hheld
    obtain ⟨p, hp⟩ := h.joined t ht hheld
    obtain ⟨i, hi⟩ := hover p
    obtain ⟨u, hdrawn, hu⟩ := hp.eq_drawn hi
    exact ⟨p, i, u, hdrawn, hu⟩
  · rintro ⟨p, i, u, hdrawn, rfl⟩
    have hsound := h.sound p
    rw [hdrawn] at hsound
    exact hsound.2 (by decide)

theorem selected (h : Evaluating flow slot splits s) {p : ι} {i : Nat}
    (hi : (s.own p).1.index? = some i) :
    ∃ t, splits[i]? = some t ∧ Stage.Holds flow slot s.common.player t.slotId := by
  have hsound := h.sound p
  rcases Stage.index?_eq_some hi with hfound | ⟨t, hdrawn⟩
  · rw [hfound] at hsound
    exact hsound
  · rw [hdrawn] at hsound
    exact ⟨t, hsound.1, hsound.2 (by decide)⟩

/-- An evaluation that goes the way of another one leaves it to that one to draw. -/
theorem exists_drawn (h : Evaluating flow slot splits s)
    (hover : ∀ p, ∃ i, (s.own p).1.index? = some i) (p : ι) :
    ∃ q i t, (s.own q).1 = .drawn i t .done := by
  obtain ⟨i, hi⟩ := hover p
  obtain ⟨t, hget, hheld⟩ := h.selected hi
  have hmem : t.slotId ∈ splits.map Split.slotId :=
    List.mem_map_of_mem (List.mem_of_getElem? hget)
  obtain ⟨q, j, u, hdrawn, -⟩ := (h.holds_iff hover hmem).1 hheld
  exact ⟨q, j, u, hdrawn⟩

/-- Evaluations agree if those of them that have drawn do. -/
theorem agree_iff [Nonempty ι] (h : Evaluating flow slot splits s)
    (hnodup : (splits.map Split.slotId).Nodup)
    (hover : ∀ p, ∃ i, (s.own p).1.index? = some i) :
    Agree flow slot splits s ↔ ∀ p q i j t u, (s.own p).1 = .drawn i t .done →
      (s.own q).1 = .drawn j u .done → i = j := by
  constructor
  · rintro ⟨⟨k, hk⟩, -⟩ p q i j t u hp hq
    have hi := hk p
    have hj := hk q
    rw [hp] at hi
    rw [hq] at hj
    exact Option.some.inj (hi.trans hj.symm)
  · intro hone
    obtain ⟨q, i, t, hdrawn⟩ := h.exists_drawn hover (Classical.arbitrary ι)
    have hget (p : ι) (j : Nat) (u : Split) (hp : (s.own p).1 = .drawn j u .done) :
        splits[j]? = some u := by
      have hsound := h.sound p
      rw [hp] at hsound
      exact hsound.1
    have hq : splits[i]? = some t := hget q i t hdrawn
    -- a held segment is that of the one split that was drawn
    have honly (u : String) (hu : u ∈ splits.map Split.slotId)
        (hheld : Stage.Holds flow slot s.common.player u) : u = t.slotId := by
      obtain ⟨p, j, v, hp, rfl⟩ := (h.holds_iff hover hu).1 hheld
      obtain rfl := hone p q j i v t hp hdrawn
      have hv := hget p j v hp
      rw [hq] at hv
      exact congrArg Split.slotId (Option.some.inj hv).symm
    have hmem : t.slotId ∈ splits.map Split.slotId := List.mem_map_of_mem (List.mem_of_getElem? hq)
    refine ⟨⟨i, fun p => ?_⟩, t.slotId, ⟨hmem, ?_⟩, fun u hu => honly u hu.1 hu.2⟩
    · obtain ⟨j, hj⟩ := hover p
      obtain ⟨u, hget, hheld⟩ := h.selected hj
      have hslot := honly u.slotId (List.mem_map_of_mem (List.mem_of_getElem? hget)) hheld
      have hsame : (splits.map Split.slotId)[j]? = (splits.map Split.slotId)[i]? := by
        rw [List.getElem?_map, List.getElem?_map, hget, hq]
        exact congrArg some hslot
      have hlt : j < (splits.map Split.slotId).length := by
        rw [List.length_map]
        exact (List.getElem?_eq_some_iff.1 hget).1
      rw [hj, (List.getElem?_inj hlt hnodup).1 hsame]
    · exact (h.holds_iff hover hmem).2 ⟨q, i, t, hdrawn, rfl⟩

variable [DecidableEq ι]

theorem move (e : Engine) (slot : String) (hsplits : splitsOf n = .ok (splits, rungs))
    (s : Parties ι (Stage × Context) World) (p : ι) :
    Stage.Move slot splits (s.own p).1 ⟨(s.own p).2, s.common⟩
      ((s.turn (evaluate e slot splits rungs) p).own p).1
      ⟨((s.turn (evaluate e slot splits rungs) p).own p).2,
        (s.turn (evaluate e slot splits rungs) p).common⟩ := by
  rw [Parties.own_turn_self, Parties.common_turn]
  exact Stage.next_move hsplits e slot (s.own p).1 ⟨(s.own p).2, s.common⟩

/-- An evaluation that has all turns makes its calls one after the other. -/
theorem play_replicate (s : Parties ι (Stage × Context) World) (p : ι) (k : Nat) :
    let s' := s.play (evaluate e slot splits rungs) (List.replicate k p)
    let x := (Stage.advance e slot splits rungs)^[k] ((s.own p).1, ⟨(s.own p).2, s.common⟩)
    s'.own p = (x.1, x.2.ctx) ∧ s'.common = x.2.world := by
  induction k generalizing s with
  | zero => exact ⟨rfl, rfl⟩
  | succ k ih =>
    have hturn := ih (s.turn (evaluate e slot splits rungs) p)
    rw [Parties.own_turn_self, Parties.common_turn] at hturn
    exact hturn

/-- So it does what the node does. -/
theorem play_splitTest (hsplits : splitsOf n = .ok (splits, rungs))
    {s : Parties ι (Stage × Context) World} {p : ι} (hstart : (s.own p).1 = .asking 0) :
    ∃ k, let s' := s.play (evaluate e n.slotId splits rungs) (List.replicate k p)
      (s'.own p).1.result? ⟨(s'.own p).2, s'.common⟩ =
        some (splitTest e n ⟨(s.own p).2, s.common⟩) := by
  obtain ⟨k, stage, r, hadvance, hresult⟩ :=
    Stage.splitTest_eq_advance e hsplits ⟨(s.own p).2, s.common⟩
  refine ⟨k, ?_⟩
  obtain ⟨hown, hcommon⟩ := play_replicate (e := e) s p k
  rw [hstart, hadvance] at hown hcommon
  simp only [hown, hcommon]
  exact hresult

theorem turn (hsplits : splitsOf n = .ok (splits, rungs)) (h : Evaluating flow slot splits s)
    (p : ι) : Evaluating flow slot splits (s.turn (evaluate e slot splits rungs) p) := by
  have hmove := move e slot hsplits s p
  have hown (q : ι) (hq : q ≠ p) :
      (s.turn (evaluate e slot splits rungs) p).own q = s.own q := Parties.own_turn_of_ne hq
  have hflow : (s.own p).2.flowId = flow := h.flowId p
  generalize s.turn (evaluate e slot splits rungs) p = s' at hmove hown
  refine ⟨fun q => ?_, fun q => ?_, fun t ht hheld => ?_⟩
  · by_cases hq : q = p
    · subst hq
      exact hmove.flowId.trans hflow
    · rw [hown q hq]
      exact h.flowId q
  · by_cases hq : q = p
    · subst hq
      have hsound := hmove.sound (by rw [hflow]; exact h.sound q)
      rwa [hflow] at hsound
    · rw [hown q hq]
      refine (h.sound q).mono fun t ht => ?_
      have hkeeps := hmove.keeps_held (t := t) (by rw [hflow]; exact ht)
      rwa [hflow] at hkeeps
  · rcases hmove.held_cases (t := t) (by rw [hflow]; exact hheld) with hbefore | hjoined
    · rw [hflow] at hbefore
      obtain ⟨q, hq⟩ := h.joined t ht hbefore
      refine ⟨q, ?_⟩
      by_cases hqp : q = p
      · subst hqp
        exact hmove.keeps_joined hq
      · rwa [hown q hqp]
    · exact ⟨p, hjoined⟩

theorem play (hsplits : splitsOf n = .ok (splits, rungs)) (h : Evaluating flow slot splits s)
    (schedule : List ι) :
    Evaluating flow slot splits (s.play (evaluate e slot splits rungs) schedule) :=
  Parties.play_keeps (fun _ p hs => hs.turn hsplits p) schedule h

theorem left_play (hsplits : splitsOf n = .ok (splits, rungs)) (schedule : List ι) (p : ι)
    (s : Parties ι (Stage × Context) World) :
    ((s.play (evaluate e slot splits rungs) schedule).own p).1.left splits ≤
      (s.own p).1.left splits - schedule.count p := by
  induction schedule generalizing s with
  | nil => exact Nat.le_refl _
  | cons q schedule ih =>
    rw [Parties.play_cons]
    refine Nat.le_trans (ih _) ?_
    by_cases hq : p = q
    · subst hq
      have hleft := (move e slot hsplits s p).left_le
      rw [List.count_cons_self]
      omega
    · refine Nat.le_of_eq ?_
      rw [Parties.own_turn_of_ne hq, List.count_cons_of_ne (Ne.symm hq)]

/-- As long as no other evaluation has got past the split of one that has joined, none draws. -/
theorem warned_play (hsplits : splitsOf n = .ok (splits, rungs)) {i : Nat} {t : Split}
    (hget : splits[i]? = some t) {p : ι} (h : Evaluating flow slot splits s)
    (hheld : Stage.Holds flow slot s.common.player t.slotId)
    (hwarned : ∀ q, q ≠ p → (s.own q).1.Warned i) (schedule : List ι) :
    ∀ q, q ≠ p → ((s.play (evaluate e slot splits rungs) schedule).own q).1.Warned i := by
  refine (Parties.play_keeps (P := fun s => Evaluating flow slot splits s ∧
    Stage.Holds flow slot s.common.player t.slotId ∧ ∀ q, q ≠ p → (s.own q).1.Warned i)
    (fun s k hs => ?_) schedule ⟨h, hheld, hwarned⟩).2.2
  obtain ⟨h, hheld, hwarned⟩ := hs
  have hmove := move e slot hsplits s k
  have hheld' : Stage.Holds (s.own k).2.flowId slot s.common.player t.slotId := by
    rw [h.flowId k]
    exact hheld
  refine ⟨h.turn hsplits k, ?_, fun q hq => ?_⟩
  · have hkeeps := hmove.keeps_held hheld'
    rwa [h.flowId k] at hkeeps
  · by_cases hqk : q = k
    · subst hqk
      exact hmove.warned hget hheld' (hwarned q hq)
    · rw [Parties.own_turn_of_ne hqk]
      exact hwarned q hq

end Evaluating

/-- Evaluations of a node that take turns in any order each select a split whose segment is held,
after a number of calls that is known before. At least one of them has drawn, and the segments that
are held are those of the splits that were drawn. If the splits have different ids, the evaluations
agree unless two of them have drawn different splits; and they do agree if one has joined its
segment before any other one gets to ask for it. An evaluation that has all turns, whatever was done
to the world before, does what the node does. -/
theorem splitTests_agree_iff [DecidableEq ι] [Nonempty ι] (e : Engine) (n : Node)
    (rungs : List Float) (hsplits : splitsOf n = .ok (splits, rungs)) (schedule : List ι)
    (s : Parties ι (Stage × Context) World) (hflow : ∀ p, (s.own p).2.flowId = flow)
    (hstart : ∀ p, (s.own p).1 = .asking 0)
    (hfree : Split.sticky? splits flow n.slotId s.common.player.hasSegment = none) :
    let after (schedule : List ι) := s.play (evaluate e n.slotId splits rungs) schedule
    let stage (schedule : List ι) (p : ι) : Stage := ((after schedule).own p).1
    let holds := Stage.Holds flow n.slotId (after schedule).common.player
    ((∀ p, splits.length + 4 ≤ schedule.count p) →
      ∀ p, ∃ i, (stage schedule p).index? = some i) ∧
    ((∀ p, ∃ i, (stage schedule p).index? = some i) →
      (∀ p i, (stage schedule p).index? = some i → ∃ t, splits[i]? = some t ∧ holds t.slotId) ∧
      (∃ p i t, stage schedule p = .drawn i t .done) ∧
      (∀ t ∈ splits.map Split.slotId, holds t ↔
        ∃ p i u, stage schedule p = .drawn i u .done ∧ u.slotId = t) ∧
      ((splits.map Split.slotId).Nodup →
        (Agree flow n.slotId splits (after schedule) ↔ ∀ p q i j t u,
          stage schedule p = .drawn i t .done → stage schedule q = .drawn j u .done → i = j) ∧
        ∀ before later p i t errand, schedule = before ++ later →
          stage before p = .drawn i t errand → errand ≠ .join →
          (∀ q, q ≠ p → ∃ k ≤ i, stage before q = .asking k) →
          Agree flow n.slotId splits (after schedule))) ∧
    ∀ p w, ∃ k,
      let alone := Parties.play (evaluate e n.slotId splits rungs) (.replicate k p) ⟨s.own, w⟩
      (alone.own p).1.result? ⟨(alone.own p).2, alone.common⟩ =
        some (splitTest e n ⟨(s.own p).2, w⟩) := by
  intro after stage holds
  have hall (schedule : List ι) : Evaluating flow n.slotId splits (after schedule) :=
    (Evaluating.start hflow hstart hfree).play hsplits schedule
  refine ⟨fun hturns p => ?_, fun hover => ⟨fun p i => (hall schedule).selected,
    (hall schedule).exists_drawn hover (Classical.arbitrary ι),
    fun t => (hall schedule).holds_iff hover, fun hnodup => ⟨(hall schedule).agree_iff hnodup hover,
      fun before later p i t errand hcut hp hjoin hothers => ?_⟩⟩,
    fun p w => Evaluating.play_splitTest hsplits (hstart p)⟩
  · have hleft : (stage schedule p).left splits ≤ (s.own p).1.left splits - schedule.count p :=
      Evaluating.left_play hsplits schedule p s
    have hstartLeft : (s.own p).1.left splits = splits.length + 4 := by
      rw [hstart p]
      rfl
    have hcount := hturns p
    exact Stage.index?_of_left ((hall schedule).sound p) (by omega)
  · have hlater :
        after schedule = (after before).play (evaluate e n.slotId splits rungs) later := by
      show s.play _ schedule = _
      rw [hcut, Parties.play_append]
    have hsound := (hall before).sound p
    rw [show ((after before).own p).1 = _ from hp] at hsound
    have hwarned := (hall before).warned_play (e := e) hsplits hsound.1 (hsound.2 hjoin)
      (fun q hq => by
        obtain ⟨k, hk, hstage⟩ := hothers q hq
        rw [show ((after before).own q).1 = _ from hstage]
        exact hk) later
    rw [← hlater] at hwarned
    refine ((hall schedule).agree_iff hnodup hover).2 fun q q' j k u v hq hq' => ?_
    -- only the one that had joined can have drawn
    have honly (q : ι) (j : Nat) (u : Split) (hq : ((after schedule).own q).1 = .drawn j u .done) :
        q = p := by
      by_contra hne
      have hno := hwarned q hne
      rw [hq] at hno
      exact hno
    obtain rfl := honly q j u hq
    obtain rfl := honly q' k v hq'
    rw [hq] at hq'
    cases hq'
    rfl

end

theorem splitTests_agree_in_turn :
    let e : Engine := { timing := { clock := 0, elapsed := .ofMillis 0 } }
    let share (id : String) : Json := .obj [("share", .int 50), ("slotId", .str id)]
    let node : Node := ⟨.splitTest, "n", [("splits", .arr [share "a", share "b"])], []⟩
    let splits : List Split := [⟨"a", 50.0⟩, ⟨"b", 50.0⟩]
    let s : Parties Bool (Stage × Context) World :=
      ⟨fun _ => (.asking 0, { flowId := "f" }), { random := .scripted [0.25, 0.75] 0.0 }⟩
    let before : List Bool := .replicate 4 true
    let later : List Bool := .replicate 2 true ++ .replicate 6 false
    let s' := s.play (evaluate e "n" splits [50.0, 100.0]) (before ++ later)
    splitsOf node = .ok (splits, [50.0, 100.0]) ∧ Agree "f" "n" splits s' ∧
      s'.common.player.segments = ["flow_f_splitTest_n_a"] := by
  intro e share node splits s before later s'
  have hsplits : splitsOf node = .ok (splits, [50.0, 100.0]) := rfl
  obtain ⟨hover, hend, -⟩ := splitTests_agree_iff e node [50.0, 100.0] hsplits (before ++ later) s
    (show ∀ p, (s.own p).2.flowId = "f" from fun _ => rfl) (fun _ => rfl) rfl
  obtain ⟨-, -, -, hdistinct⟩ := hend (hover (by decide))
  obtain ⟨-, hcut⟩ := hdistinct (by decide)
  refine ⟨hsplits, hcut before later true 0 ⟨"a", 50.0⟩ .list rfl rfl (by decide)
    fun q hq => ?_, rfl⟩
  obtain rfl : q = false := by simpa using hq
  exact ⟨0, Nat.le_refl 0, rfl⟩

/-- Evaluations that both draw before either joins part ways, and the player holds the segments of
both. Where two splits have one id, they part ways without a race. -/
theorem splitTests_disagree :
    let e : Engine := { timing := { clock := 0, elapsed := .ofMillis 0 } }
    let share (n : Int) (id : String) : Json := .obj [("share", .int n), ("slotId", .str id)]
    let node (splits : List Json) : Node := ⟨.splitTest, "n", [("splits", .arr splits)], []⟩
    let even : List Split := [⟨"a", 50.0⟩, ⟨"b", 50.0⟩]
    let twins : List Split := [⟨"a", 0.0⟩, ⟨"a", 100.0⟩]
    let s : Parties Bool (Stage × Context) World :=
      ⟨fun _ => (.asking 0, { flowId := "f" }), { random := .scripted [0.25, 0.75] 0.0 }⟩
    let race := s.play (evaluate e "n" even [50.0, 100.0])
      (.replicate 3 true ++ .replicate 6 false ++ .replicate 3 true)
    let inTurn := s.play (evaluate e "n" twins [0.0, 100.0])
      (.replicate 6 true ++ .replicate 6 false)
    splitsOf (node [share 50 "a", share 50 "b"]) = .ok (even, [50.0, 100.0]) ∧
      splitsOf (node [share 0 "a", share 100 "a"]) = .ok (twins, [0.0, 100.0]) ∧
      Split.sticky? even "f" "n" s.common.player.hasSegment = none ∧
      Split.sticky? twins "f" "n" s.common.player.hasSegment = none ∧
      (race.own true).1.index? = some 0 ∧ (race.own false).1.index? = some 1 ∧
      race.common.player.segments = ["flow_f_splitTest_n_b", "flow_f_splitTest_n_a"] ∧
      ¬ Agree "f" "n" even race ∧
      (inTurn.own true).1.index? = some 1 ∧ (inTurn.own false).1.index? = some 0 ∧
      ¬ Agree "f" "n" twins inTurn := by
  intro e share node even twins s race inTurn
  have hrace : (race.own true).1.index? = some 0 ∧ (race.own false).1.index? = some 1 := by
    decide +kernel
  have hinTurn : (inTurn.own true).1.index? = some 1 ∧ (inTurn.own false).1.index? = some 0 := by
    decide +kernel
  have hsegments : race.common.player.segments =
      ["flow_f_splitTest_n_b", "flow_f_splitTest_n_a"] := by
    decide +kernel
  refine ⟨rfl, rfl, rfl, rfl, hrace.1, hrace.2, hsegments, ?_, hinTurn.1, hinTurn.2, ?_⟩
  · rintro ⟨⟨i, hi⟩, -⟩
    have hsame := (hrace.1.symm.trans (hi true)).trans ((hi false).symm.trans hrace.2)
    cases hsame
  · rintro ⟨⟨i, hi⟩, -⟩
    have hsame := (hinTurn.1.symm.trans (hi true)).trans ((hi false).symm.trans hinTurn.2)
    cases hsame

end FlowTree
