import FlowTree.Proofs.Binary64.Integer
import FlowTree.Proofs.Interleaving
import FlowTree.Proofs.StatChange

/-!
# Calls that share a stat

A call that adds to a stat reads it in one section and writes it in another, and other calls may
come in between. What such a call writes goes back to what it has read, so the calls that have
written since then are lost. Those that are left are the survivors, and the stat ends as if they
alone had been made, one after the other.
-/

namespace FlowTree

open Binary64

/-! ### Calls of two sections -/

/-- How far a call is that reads in one section and writes in another. -/
inductive Progress (β : Type)
  | ahead
  | between (read : β)
  | ended
  deriving DecidableEq

def Progress.map {β γ : Type} (f : β → γ) : Progress β → Progress γ
  | ahead => ahead
  | between read => between (f read)
  | ended => ended

def inSections {ι β σ : Type} (read : σ → β) (write : ι → β → σ → σ) (i : ι) :
    Progress β → σ → Progress β × σ
  | .ahead, s => (.between (read s), s)
  | .between x, s => (.ended, write i x s)
  | .ended, s => (.ended, s)

section
variable {ι : Type} [DecidableEq ι]

/-- What has come of calls: those that are not lost, in the order in which they count. A call keeps
those that it has read, and itself. -/
abbrev Survival (ι : Type) := Parties ι (Progress (List ι)) (List ι)

def Survival.turn (s : Survival ι) (i : ι) : Survival ι :=
  Parties.turn (inSections id fun i kept _ => kept ++ [i]) s i

def surviving (schedule : List ι) : Survival ι :=
  schedule.foldl Survival.turn ⟨fun _ => .ahead, []⟩

def survivors (schedule : List ι) : List ι :=
  (surviving schedule).common

/-- Each call finds what it has read when it writes. -/
def Undisturbed (schedule : List ι) : Prop :=
  ∀ before i later kept, schedule = before ++ i :: later →
    (surviving before).own i = .between kept → kept = survivors before

theorem surviving_concat (schedule : List ι) (i : ι) :
    surviving (schedule ++ [i]) = (surviving schedule).turn i := by
  rw [surviving, List.foldl_append]
  rfl

/-! ### Lost calls -/

structure Survival.Sound (s : Survival ι) : Prop where
  nodup : s.common.Nodup
  ended : ∀ j ∈ s.common, s.own j = .ended
  kept : (∃ j, s.own j = .ended) → s.common ≠ []
  read_nodup : ∀ i kept, s.own i = .between kept → kept.Nodup
  read_ended : ∀ i kept, s.own i = .between kept → ∀ j ∈ kept, s.own j = .ended
  /-- If what a call has read is no longer there, another one has written since. -/
  missed : ∀ i kept, s.own i = .between kept → kept = s.common ∨ ∃ j ∈ s.common, j ∉ kept

namespace Survival
variable {s : Survival ι} {i j : ι} {kept : List ι}

theorem own_turn_of_ne (hne : j ≠ i) : (s.turn i).own j = s.own j :=
  Parties.own_turn_of_ne hne

theorem own_turn_self : (s.turn i).own i =
    match s.own i with
    | .ahead => .between s.common
    | .between _ | .ended => .ended := by
  rw [turn, Parties.own_turn_self]
  cases s.own i <;> rfl

theorem common_turn : (s.turn i).common =
    match s.own i with
    | .between kept => kept ++ [i]
    | .ahead | .ended => s.common := by
  rw [turn, Parties.common_turn]
  cases s.own i <;> rfl

theorem ended_turn_iff :
    (s.turn i).own j = .ended ↔ s.own j = .ended ∨ (j = i ∧ ∃ kept, s.own i = .between kept) := by
  by_cases hj : j = i
  · subst hj
    rw [own_turn_self]
    cases s.own j <;> simp
  · rw [own_turn_of_ne hj]
    simp [hj]

theorem between_turn (h : (s.turn i).own j = .between kept) :
    s.own j = .between kept ∨ (j = i ∧ s.own i = .ahead ∧ kept = s.common) := by
  by_cases hj : j = i
  · subst hj
    rw [own_turn_self] at h
    cases hown : s.own j with
    | ahead =>
      rw [hown] at h
      cases h
      exact .inr ⟨rfl, rfl, rfl⟩
    | between read =>
      rw [hown] at h
      cases h
    | ended =>
      rw [hown] at h
      cases h
  · rw [own_turn_of_ne hj] at h
    exact .inl h

omit [DecidableEq ι] in
theorem not_ended_of_between (h : s.own i = .between kept) (hj : s.own j = .ended) : j ≠ i := by
  rintro rfl
  rw [h] at hj
  cases hj

namespace Sound

omit [DecidableEq ι] in
theorem start : Sound (⟨fun _ => .ahead, []⟩ : Survival ι) where
  nodup := List.nodup_nil
  ended _ hj := absurd hj List.not_mem_nil
  kept h := absurd h.choose_spec nofun
  read_nodup _ _ := nofun
  read_ended _ _ := nofun
  missed _ _ := nofun

omit [DecidableEq ι] in
/-- A call that is still to be written was read by no other one. -/
theorem not_mem_of_between (h : s.Sound) (hi : s.own i = .between kept) {read : List ι}
    (hj : s.own j = .between read) : i ∉ read := fun hmem => by
  have hended := h.read_ended j read hj i hmem
  rw [hi] at hended
  cases hended

theorem turn (h : s.Sound) (i : ι) : (s.turn i).Sound := by
  have hkeeps (j : ι) (hj : s.own j = .ended) : (s.turn i).own j = .ended :=
    ended_turn_iff.2 (.inl hj)
  cases hi : s.own i with
  | between kept =>
    have hcommon : (s.turn i).common = kept ++ [i] := by rw [common_turn, hi]
    have hread (j : ι) (read : List ι) (hj : (s.turn i).own j = .between read) :
        s.own j = .between read := by
      rcases between_turn hj with hj | ⟨-, hahead, -⟩
      · exact hj
      · rw [hi] at hahead
        cases hahead
    refine ⟨?_, fun j hj => ?_, fun _ => ?_, fun j read hj => h.read_nodup j read (hread j read hj),
      fun j read hj k hk => hkeeps k (h.read_ended j read (hread j read hj) k hk),
      fun j read hj => ?_⟩
    · rw [hcommon, ← List.concat_eq_append]
      exact (h.read_nodup i kept hi).concat (h.not_mem_of_between hi hi)
    · rw [hcommon] at hj
      rcases List.mem_append.1 hj with hj | hj
      · exact hkeeps j (h.read_ended i kept hi j hj)
      · exact ended_turn_iff.2 (.inr ⟨List.mem_singleton.1 hj, kept, hi⟩)
    · rw [hcommon]
      exact List.append_ne_nil_of_right_ne_nil kept (List.cons_ne_nil i [])
    · rw [hcommon]
      refine .inr ⟨i, List.mem_append_right _ List.mem_cons_self, ?_⟩
      exact h.not_mem_of_between hi (hread j read hj)
  | ahead | ended =>
    -- nothing is written, and what is read is what stands there
    have hcommon : (s.turn i).common = s.common := by rw [common_turn, hi]
    have hread (j : ι) (read : List ι) (hj : (s.turn i).own j = .between read) :
        s.own j = .between read ∨ read = s.common := by
      rcases between_turn hj with hj | ⟨-, -, hread⟩
      · exact .inl hj
      · exact .inr hread
    refine ⟨by rw [hcommon]; exact h.nodup, fun j hj => ?_, fun ⟨j, hj⟩ => ?_,
      fun j read hj => ?_, fun j read hj k hk => hkeeps k ?_, fun j read hj => ?_⟩
    · rw [hcommon] at hj
      exact hkeeps j (h.ended j hj)
    · rw [hcommon]
      rcases ended_turn_iff.1 hj with hj | ⟨-, kept, hkept⟩
      · exact h.kept ⟨j, hj⟩
      · rw [hi] at hkept
        cases hkept
    · rcases hread j read hj with hj | rfl
      · exact h.read_nodup j read hj
      · exact h.nodup
    · rcases hread j read hj with hj | rfl
      · exact h.read_ended j read hj k hk
      · exact h.ended k hk
    · rw [hcommon]
      rcases hread j read hj with hj | rfl
      · exact h.missed j read hj
      · exact .inl rfl

/-- If no call is lost after a turn, none was lost before, and what was written then went back to
what stood there. -/
theorem full_turn_iff (h : s.Sound) (i : ι) :
    (∀ j, (s.turn i).own j = .ended → j ∈ (s.turn i).common) ↔
      (∀ j, s.own j = .ended → j ∈ s.common) ∧
        ∀ kept, s.own i = .between kept → kept = s.common := by
  cases hi : s.own i with
  | between kept =>
    have hcommon : (s.turn i).common = kept ++ [i] := by rw [common_turn, hi]
    simp only [ended_turn_iff, hcommon, List.mem_append, List.mem_singleton]
    constructor
    · intro hfull
      have hkept (j : ι) (hj : s.own j = .ended) : j ∈ kept :=
        (hfull j (.inl hj)).resolve_right (not_ended_of_between hi hj)
      have hsame : kept = s.common := by
        rcases h.missed i kept hi with hsame | ⟨j, hj, hnotmem⟩
        · exact hsame
        · exact absurd (hkept j (h.ended j hj)) hnotmem
      refine ⟨fun j hj => hsame ▸ hkept j hj, ?_⟩
      rintro _ ⟨⟩
      exact hsame
    · rintro ⟨hfull, hsame⟩ j (hj | ⟨rfl, -⟩)
      · rw [hsame kept rfl]
        exact .inl (hfull j hj)
      · exact .inr rfl
  | ahead | ended =>
    have hcommon : (s.turn i).common = s.common := by rw [common_turn, hi]
    have hended (j : ι) : (s.turn i).own j = .ended ↔ s.own j = .ended := by
      rw [ended_turn_iff, hi]
      exact or_iff_left fun hwrites => nomatch hwrites.2.choose_spec
    simp only [hended, hcommon]
    exact ⟨fun hfull => ⟨hfull, fun _ => nofun⟩, And.left⟩

end Sound

end Survival

theorem surviving_sound (schedule : List ι) : (surviving schedule).Sound :=
  Parties.play_keeps (fun _ i hs => hs.turn i) schedule .start

theorem ended_of_count {schedule : List ι} {i : ι} (h : 2 ≤ schedule.count i) :
    (surviving schedule).own i = .ended := by
  have hcount (schedule : List ι) :
      match (surviving schedule).own i with
      | .ahead => schedule.count i = 0
      | .between _ => schedule.count i ≤ 1
      | .ended => True := by
    induction schedule using List.reverseRecOn with
    | nil => exact List.count_nil
    | append_singleton schedule j ih =>
      rw [surviving_concat, List.count_append]
      by_cases hj : i = j
      · subst hj
        rw [Survival.own_turn_self, List.count_singleton_self]
        cases hown : (surviving schedule).own i with
        | ahead =>
          rw [hown] at ih
          exact Nat.le_of_eq (congrArg (· + 1) ih)
        | between | ended => trivial
      · have hzero : [j].count i = 0 := List.count_eq_zero.2 (by simpa using hj)
        rw [Survival.own_turn_of_ne hj, hzero]
        exact ih
  have hbound := hcount schedule
  cases hown : (surviving schedule).own i with
  | ahead =>
    rw [hown] at hbound
    exact absurd (hbound ▸ h) (by decide)
  | between read =>
    rw [hown] at hbound
    exact absurd (Nat.le_trans h hbound) (by decide)
  | ended => rfl

/-- No call is lost exactly if each finds what it has read when it writes. -/
theorem undisturbed_iff (schedule : List ι) :
    Undisturbed schedule ↔ ∀ j, (surviving schedule).own j = .ended → j ∈ survivors schedule := by
  induction schedule using List.reverseRecOn with
  | nil => exact ⟨fun _ j => nofun, fun _ before i later kept h => by simp at h⟩
  | append_singleton schedule i ih =>
    have hturn := (surviving_sound schedule).full_turn_iff i
    rw [← surviving_concat] at hturn
    rw [survivors, hturn, ← survivors, ← ih]
    constructor
    · intro h
      refine ⟨fun before j later kept hcut => h before j (later ++ [i]) kept ?_, fun kept => ?_⟩
      · rw [hcut, List.append_assoc, List.cons_append]
      · exact h schedule i [] kept rfl
    · rintro ⟨h, hlast⟩ before j later kept hcut
      rcases List.eq_nil_or_concat' later with rfl | ⟨later, k, rfl⟩
      · obtain ⟨rfl, hj⟩ := List.append_inj' hcut rfl
        cases hj
        exact hlast kept
      · rw [← List.cons_append, ← List.append_assoc] at hcut
        obtain ⟨rfl, -⟩ := List.append_inj' hcut rfl
        exact h before j later kept rfl

end

/-! ### Calls that add to a stat -/

inductive StatCall
  | add (amount : Float)
  | subtract (amount : Float)

namespace StatCall

def signed : StatCall → Float
  | add amount => amount
  | subtract amount => -amount

def perform (id : String) : StatCall → Player → Player
  | add amount, p => p.addToStat id amount
  | subtract amount, p => p.subtractFromStat id amount

theorem perform_eq (id : String) (c : StatCall) (p : Player) :
    c.perform id p = p.setStat id (.ofFloat (p.numericStat id + c.signed)) := by
  cases c <;> rfl

def Moves : StatCall → Int → Prop
  | add amount, n => Same amount (ofInt n)
  | subtract amount, n => Same amount (ofInt (-n))

theorem Moves.signed {c : StatCall} {n : Int} (h : c.Moves n) (hn : n.natAbs < 2 ^ 53) :
    Same c.signed (ofInt n) := by
  cases c with
  | add amount => exact h
  | subtract amount =>
    have hneg := same_neg (n := -n) h (by rwa [Int.natAbs_neg])
    rwa [Int.neg_neg] at hneg

end StatCall

section
variable {ι : Type} (id : String) (calls : ι → StatCall)

/-- The calls of a list, each made when the one before has ended. -/
def performAll (is : List ι) (p : Player) : Player :=
  is.foldl (fun p i => (calls i).perform id p) p

theorem performAll_concat (is : List ι) (i : ι) (p : Player) :
    performAll id calls (is ++ [i]) p = (calls i).perform id (performAll id calls is p) :=
  List.foldl_append

/-- Whatever calls there were before, a written stat takes their place. -/
theorem setStat_performAll (is : List ι) (p : Player) (v : Json) :
    (performAll id calls is p).setStat id v = p.setStat id v := by
  induction is using List.reverseRecOn with
  | nil => rfl
  | append_singleton is i ih =>
    rw [performAll_concat, StatCall.perform_eq, Player.setStat_setStat, ih]

def callTurn (i : ι) : Progress Float → Player → Progress Float × Player :=
  inSections (fun p => p.numericStat id)
    (fun i x p => p.setStat id (.ofFloat (x + (calls i).signed))) i

/-- The two sections of a call, with nothing in between, make the call. -/
theorem callTurn_callTurn (i : ι) (p : Player) :
    let (stage, p') := callTurn id calls i .ahead p
    callTurn id calls i stage p' = (.ended, (calls i).perform id p) := by
  show (Progress.ended, p.setStat id _) = _
  rw [StatCall.perform_eq]

variable [DecidableEq ι]

theorem play_twice {s : Parties ι (Progress Float) Player} {i : ι} (h : s.own i = .ahead) :
    (s.play (callTurn id calls) [i, i]).own i = .ended ∧
      (s.play (callTurn id calls) [i, i]).common = (calls i).perform id s.common := by
  have hcall := callTurn_callTurn id calls i s.common
  rw [← h] at hcall
  simp only [Parties.play, List.foldl_cons, List.foldl_nil, Parties.own_turn_self,
    Parties.common_turn, hcall, and_self]

/-- Players whose stat is what the surviving calls make of it. -/
structure Follows (p : Player) (s : Parties ι (Progress Float) Player) (kept : Survival ι) :
    Prop where
  common : s.common = performAll id calls kept.common p
  own : ∀ i, s.own i = (kept.own i).map fun is => (performAll id calls is p).numericStat id

theorem Follows.turn {p : Player} {s : Parties ι (Progress Float) Player} {kept : Survival ι}
    (h : Follows id calls p s kept) (i : ι) :
    Follows id calls p (s.turn (callTurn id calls) i) (kept.turn i) where
  common := by
    have hown := h.own i
    rw [Parties.common_turn, Survival.common_turn]
    cases hi : kept.own i with
    | ahead =>
      rw [hi] at hown
      rw [hown]
      exact h.common
    | between is =>
      rw [hi] at hown
      rw [hown, performAll_concat, StatCall.perform_eq, setStat_performAll]
      show s.common.setStat id _ = _
      rw [h.common, setStat_performAll]
    | ended =>
      rw [hi] at hown
      rw [hown]
      exact h.common
  own j := by
    by_cases hj : j = i
    · subst hj
      have hown := h.own j
      rw [Parties.own_turn_self, Survival.own_turn_self]
      cases hi : kept.own j with
      | ahead =>
        rw [hi] at hown
        rw [hown, h.common]
        rfl
      | between is =>
        rw [hi] at hown
        rw [hown]
        rfl
      | ended =>
        rw [hi] at hown
        rw [hown]
        rfl
    · rw [Parties.own_turn_of_ne hj, Survival.own_turn_of_ne hj]
      exact h.own j

theorem follows_play (p : Player) (schedule : List ι) :
    Follows id calls p (Parties.play (callTurn id calls) schedule ⟨fun _ => .ahead, p⟩)
      (surviving schedule) := by
  induction schedule using List.reverseRecOn with
  | nil => exact ⟨rfl, fun _ => rfl⟩
  | append_singleton schedule i ih =>
    rw [Parties.play_append, surviving_concat]
    exact ih.turn id calls i

end

/-! ### Integer amounts -/

/-- All sums of these amounts are safe integers, with and without the number they start from. -/
structure SafeSums {ι : Type} (v : Int) (a : ι → Int) : Prop where
  without : ∀ S : Finset ι, (∑ i ∈ S, a i).natAbs ≤ maxSafeInteger
  within : ∀ S : Finset ι, (v + ∑ i ∈ S, a i).natAbs ≤ maxSafeInteger

section
variable {ι : Type} [DecidableEq ι] {id : String} {calls : ι → StatCall} {a : ι → Int} {p : Player}
  {v : Int}

omit [DecidableEq ι] in
theorem SafeSums.amount (h : SafeSums v a) (i : ι) : (a i).natAbs < 2 ^ 53 := by
  have hle := h.without {i}
  rw [Finset.sum_singleton] at hle
  exact Nat.lt_of_le_of_lt hle (by decide)

theorem SafeSums.sum (h : SafeSums v a) {is : List ι} (hnodup : is.Nodup) :
    (v + (is.map a).sum).natAbs ≤ maxSafeInteger := by
  rw [← List.sum_toFinset a hnodup]
  exact h.within is.toFinset

theorem Player.numericStat_setStat_of_same {x : Float} {n : Int} (h : Same x (ofInt n))
    (hle : n.natAbs ≤ maxSafeInteger) (p : Player) :
    (p.setStat id (.ofFloat x)).numericStat id = ofInt n := by
  rw [numericStat, stat?_setStat_self, Json.ofFloat_of_same h hle]
  rfl

theorem numericStat_performAll (hv : Same (p.numericStat id) (ofInt v))
    (hmoves : ∀ i, (calls i).Moves (a i)) (hsafe : SafeSums v a) {is : List ι}
    (hnodup : is.Nodup) :
    Same ((performAll id calls is p).numericStat id) (ofInt (v + (is.map a).sum)) ∧
      (is ≠ [] → (performAll id calls is p).stat? id = some (.int (v + (is.map a).sum))) := by
  induction is using List.reverseRecOn with
  | nil =>
    rw [List.map_nil, List.sum_nil, Int.add_zero]
    exact ⟨hv, fun hne => absurd rfl hne⟩
  | append_singleton is i ih =>
    have hbefore : is.Nodup := hnodup.of_append_left
    have hsum : v + ((is ++ [i]).map a).sum = v + (is.map a).sum + a i := by
      rw [List.map_append, List.sum_append, List.map_singleton, List.sum_singleton, Int.add_assoc]
    have hle := hsafe.sum hnodup
    have hlt (n : Int) (hn : n.natAbs ≤ maxSafeInteger) : n.natAbs < 2 ^ 53 :=
      Nat.lt_of_le_of_lt hn (by decide)
    rw [hsum] at hle ⊢
    have hnext := same_add (ih hbefore).1 ((hmoves i).signed (hsafe.amount i))
      (hlt _ (hsafe.sum hbefore)) (hsafe.amount i) (hlt _ hle)
    rw [performAll_concat, StatCall.perform_eq]
    refine ⟨?_, fun _ => ?_⟩
    · rw [Player.numericStat_setStat_of_same hnext hle]
      exact .refl _
    · rw [Player.stat?_setStat_self, Json.ofFloat_of_same hnext hle]

/-- Calls that add integers to a stat, in sections that take turns in any order. Each ends after two
turns, and the stat is then the sum of its initial value and the amounts of the survivors, as if
the others had not been made. So it is the sum of all amounts exactly if those of the lost calls
cancel out, and no call is lost exactly if each finds what it has read when it writes. A call whose
two turns come one after the other is made as it is by itself. -/
theorem stat_of_survivors [Fintype ι] [Nonempty ι] (hv : Same (p.numericStat id) (ofInt v))
    (hmoves : ∀ i, (calls i).Moves (a i)) (hsafe : SafeSums v a) (schedule : List ι) :
    let s := Parties.play (callTurn id calls) schedule ⟨fun _ => .ahead, p⟩
    let kept := survivors schedule
    kept.Nodup ∧ s.common = performAll id calls kept p ∧
      Same (s.common.numericStat id) (ofInt (v + (kept.map a).sum)) ∧
      ((∀ i, 2 ≤ schedule.count i) → ∀ i, s.own i = .ended) ∧
      ((∀ i, s.own i = .ended) →
        s.common.stat? id = some (.int (v + (kept.map a).sum)) ∧
        (s.common.stat? id = some (.int (v + ∑ i, a i)) ↔ ∑ i with i ∉ kept, a i = 0) ∧
        ((∀ i, i ∈ kept) ↔ Undisturbed schedule)) ∧
      ∀ (t : Parties ι (Progress Float) Player) i, t.own i = .ahead →
        (t.play (callTurn id calls) [i, i]).own i = .ended ∧
          (t.play (callTurn id calls) [i, i]).common = (calls i).perform id t.common := by
  intro s kept
  have hfollows := follows_play id calls p schedule
  have hsound := surviving_sound schedule
  have hnodup : kept.Nodup := hsound.nodup
  have hcommon : s.common = performAll id calls kept p := hfollows.common
  obtain ⟨hsame, hstored⟩ := numericStat_performAll hv hmoves hsafe hnodup
  have hended (i : ι) : s.own i = .ended ↔ (surviving schedule).own i = .ended := by
    rw [show s.own i = _ from hfollows.own i]
    cases (surviving schedule).own i <;> simp [Progress.map]
  refine ⟨hnodup, hcommon, hcommon ▸ hsame,
    fun hturns i => (hended i).2 (ended_of_count (hturns i)), fun hover => ?_,
    fun t i hahead => play_twice id calls hahead⟩
  have hne : kept ≠ [] := hsound.kept ⟨Classical.arbitrary ι, (hended _).1 (hover _)⟩
  have hstat : s.common.stat? id = some (.int (v + (kept.map a).sum)) := hcommon ▸ hstored hne
  refine ⟨hstat, ?_, ?_⟩
  · have hsplit : ∑ i, a i = (kept.map a).sum + ∑ i with i ∉ kept, a i := by
      have hin : Finset.univ.filter (· ∈ kept) = kept.toFinset := by
        ext i
        simp
      rw [← List.sum_toFinset a hnodup, ← hin, Finset.sum_filter_add_sum_filter_not]
    have hint : s.common.stat? id = some (.int (v + ∑ i, a i)) ↔
        v + (kept.map a).sum = v + ∑ i, a i := by
      rw [hstat, Option.some_inj]
      constructor
      · exact fun h => Number.int.inj (Json.num.inj h)
      · exact congrArg Json.int
    rw [hint, hsplit]
    omega
  · rw [undisturbed_iff]
    exact ⟨fun hall j _ => hall j, fun hfull i => hfull i ((hended i).1 (hover i))⟩

end

/-- Of two calls that read before either writes, the one that writes first is lost. -/
theorem stat_of_survivors_of_race :
    let calls (i : Bool) : StatCall := if i then .add 5.0 else .subtract 3.0
    let a (i : Bool) : Int := if i then 5 else -3
    let p : Player := { stats := [("gold", .int 10)] }
    let schedule : List Bool := [true, false, true, false]
    let s := Parties.play (callTurn "gold" calls) schedule ⟨fun _ => .ahead, p⟩
    Same (p.numericStat "gold") (ofInt 10) ∧ (∀ i, (calls i).Moves (a i)) ∧ SafeSums 10 a ∧
      survivors schedule = [false] ∧ s.common.stat? "gold" = some (.int 7) ∧
      ¬ Undisturbed schedule := by
  intro calls a p schedule s
  have hv : Same (p.numericStat "gold") (ofInt 10) := .refl _
  have hmoves (i : Bool) : (calls i).Moves (a i) := by
    cases i
    · exact .inl (by decide +kernel)
    · exact .inl (by decide +kernel)
  have hsafe : SafeSums 10 a := ⟨by decide, by decide⟩
  obtain ⟨-, -, -, hturns, hend, -⟩ := stat_of_survivors hv hmoves hsafe schedule
  obtain ⟨hstat, -, hdisturbed⟩ := hend (hturns (by decide))
  refine ⟨hv, hmoves, hsafe, rfl, hstat, fun h => ?_⟩
  have hmem : true ∈ survivors schedule := hdisturbed.2 h true
  exact absurd hmem (by decide)

/-- The stat is not always the sum of its initial value and all amounts: a race loses a call, and
without a race a sum with a fraction may be rounded. -/
theorem stat_sum_fails :
    let calls (i : Bool) : StatCall := if i then .add 5.0 else .add 7.0
    let p : Player := { stats := [("gold", .int 10)] }
    let race := Parties.play (callTurn "gold" calls) [true, false, true, false] ⟨fun _ => .ahead, p⟩
    let undone (i : Bool) : StatCall := if i then .add 1.0 else .subtract 1.0
    let q : Player := { stats := [("gold", .double 0.1)] }
    let inTurn :=
      Parties.play (callTurn "gold" undone) [true, true, false, false] ⟨fun _ => .ahead, q⟩
    (∀ i, race.own i = .ended) ∧ race.common.stat? "gold" = some (.int 17) ∧
      (∀ i, inTurn.own i = .ended) ∧
      inTurn.common.stat? "gold" = some (.double 0.10000000000000009) ∧
      inTurn.common.stat? "gold" ≠ q.stat? "gold" := by
  intro calls p race undone q inTurn
  have hinTurn : inTurn.common.stat? "gold" = some (.double 0.10000000000000009) := by
    decide +kernel
  refine ⟨by decide +kernel, by decide +kernel, by decide +kernel, hinTurn, ?_⟩
  rw [hinTurn]
  decide +kernel

end FlowTree
