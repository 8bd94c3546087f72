import Mathlib.Data.List.TakeWhile
import FlowTree.Script.Pattern

/-!
# What patterns match

A pattern matches a text that stands between two others piece by piece (`Matches`). The search for a
match takes a run of blanks as long as possible and never goes back to a shorter one. It finds a
match wherever there is one if a word comes after each run (`isSettled`): the run then has to end
where the blanks do. Where a text is put in front of another one or behind it, in a line of its own,
nothing changes at the ends of the other one that a pattern could notice.
-/

namespace FlowTree.Script.Pattern

/-- The pattern matches the text `m` behind the character `before` and in front of the text
`after`. -/
inductive Matches : Pattern → Option Char → List Char → List Char → Prop
  | nil (before : Option Char) (after : List Char) : Matches [] before [] after
  | oneOf {words : List String} {w : String} {p : Pattern} {before : Option Char}
    {m after : List Char} (mem : w ∈ words)
    (rest : Matches p (w.toList.getLast?.or before) m after) :
    Matches (.oneOf words :: p) before (w.toList ++ m) after
  | gap {blanks : List Char} {p : Pattern} {before : Option Char} {m after : List Char}
    (blank : ∀ c ∈ blanks, Text.isBlank c = true)
    (rest : Matches p (blanks.getLast?.or before) m after) :
    Matches (.gap :: p) before (blanks ++ m) after
  | blank {c : Char} {p : Pattern} {before : Option Char} {m after : List Char}
    (blank : Text.isBlank c = true) (rest : Matches p (some c) m after) :
    Matches (.blank :: p) before (c :: m) after
  | edge {p : Pattern} {before : Option Char} {m after : List Char}
    (here : atEdge before (m ++ after) = true) (rest : Matches p before m after) :
    Matches (.edge :: p) before m after
  | lineStart {p : Pattern} {before : Option Char} {m after : List Char}
    (here : before.all (· = '\n') = true) (rest : Matches p before m after) :
    Matches (.lineStart :: p) before m after

/-- The pattern matches somewhere in the text. -/
def Occurs (p : Pattern) (s : List Char) : Prop :=
  ∃ pre m post, s = pre ++ (m ++ post) ∧ Matches p pre.getLast? m post

/-- The pattern starts with a word, and that with no blank. -/
def startsWithWord : Pattern → Bool
  | .oneOf words :: _ => words.all fun w => w.toList.head?.any (!Text.isBlank ·)
  | _ => false

/-- After each run of blanks comes a word. -/
def isSettled : Pattern → Bool
  | [] => true
  | .gap :: p => startsWithWord p && isSettled p
  | _ :: p => isSettled p

variable {p : Pattern} {before before' : Option Char} {s m after after' : List Char}

/-! ### The search -/

theorem matches_of_match? (h : p.match? before s = some m) :
    ∃ after, s = m ++ after ∧ Matches p before m after := by
  induction p generalizing before s m with
  | nil =>
    obtain rfl : [] = m := by simpa [match?] using h
    exact ⟨s, rfl, .nil before s⟩
  | cons piece p ih =>
    cases piece with
    | oneOf words =>
      rw [match?] at h
      obtain ⟨w, hw, h⟩ := List.exists_of_findSome?_eq_some h
      split at h
      · rename_i hprefix
        obtain ⟨s, rfl⟩ := List.isPrefixOf_iff_prefix.1 hprefix
        rw [List.drop_left] at h
        obtain ⟨m, hm, rfl⟩ := Option.map_eq_some_iff.1 h
        obtain ⟨after, rfl, hmatch⟩ := ih hm
        exact ⟨after, (List.append_assoc ..).symm, .oneOf hw hmatch⟩
      · cases h
    | gap =>
      rw [match?] at h
      obtain ⟨m, hm, rfl⟩ := Option.map_eq_some_iff.1 h
      obtain ⟨after, hrest, hmatch⟩ := ih hm
      refine ⟨after, ?_, .gap (fun c hc => List.mem_takeWhile_imp hc) hmatch⟩
      rw [List.append_assoc, ← hrest, List.takeWhile_append_dropWhile]
    | blank =>
      cases s with
      | nil => cases h
      | cons c s =>
        simp only [match?] at h
        split at h
        · rename_i hblank
          obtain ⟨m, hm, rfl⟩ := Option.map_eq_some_iff.1 h
          obtain ⟨after, rfl, hmatch⟩ := ih hm
          exact ⟨after, rfl, .blank hblank hmatch⟩
        · cases h
    | edge =>
      rw [match?] at h
      split at h
      · rename_i hedge
        obtain ⟨after, rfl, hmatch⟩ := ih h
        exact ⟨after, rfl, .edge hedge hmatch⟩
      · cases h
    | lineStart =>
      rw [match?] at h
      split at h
      · rename_i hstart
        obtain ⟨after, rfl, hmatch⟩ := ih h
        exact ⟨after, rfl, .lineStart hstart hmatch⟩
      · cases h

theorem Matches.head_of_startsWithWord (h : Matches p before m after)
    (hp : p.startsWithWord = true) : ∃ c s, m ++ after = c :: s ∧ Text.isBlank c = false := by
  cases h with
  | @oneOf words w p _ m _ hw _ =>
    have hhead := List.all_eq_true.1 hp w hw
    cases hword : w.toList with
    | nil =>
      rw [hword] at hhead
      cases hhead
    | cons c cs =>
      rw [hword] at hhead
      exact ⟨c, cs ++ m ++ after, by simp, by simpa using hhead⟩
  | nil | gap | blank | edge | lineStart => cases hp

theorem isSome_match? (h : Matches p before m after) (hp : p.isSettled = true) :
    (p.match? before (m ++ after)).isSome = true := by
  induction h with
  | nil => rfl
  | @oneOf words w p before m after hw _ ih =>
    rw [match?, List.findSome?_isSome_iff]
    refine ⟨w, hw, ?_⟩
    rw [List.append_assoc, if_pos (List.isPrefixOf_iff_prefix.2 (List.prefix_append ..)),
      List.drop_left, Option.isSome_map]
    exact ih hp
  | @gap blanks p before m after hblanks hrest ih =>
    rw [isSettled, Bool.and_eq_true] at hp
    obtain ⟨c, s, hhead, hc⟩ := hrest.head_of_startsWithWord hp.1
    have htake : (blanks ++ m ++ after).takeWhile Text.isBlank = blanks := by
      rw [List.append_assoc, List.takeWhile_append_of_pos hblanks, hhead,
        List.takeWhile_cons_of_neg (by simp [hc]), List.append_nil]
    have hdrop : (blanks ++ m ++ after).dropWhile Text.isBlank = m ++ after := by
      rw [List.append_assoc, List.dropWhile_append_of_pos hblanks, hhead,
        List.dropWhile_cons_of_neg (by simp [hc])]
    simp only [match?, htake, hdrop, Option.isSome_map]
    exact ih hp.2
  | blank hc _ ih =>
    simp only [List.cons_append, match?, hc, if_true, Option.isSome_map]
    exact ih hp
  | edge here _ ih =>
    rw [match?, if_pos here]
    exact ih hp
  | lineStart here _ ih =>
    rw [match?, if_pos here]
    exact ih hp

theorem isSome_findFrom?_nil :
    (p.findFrom? before []).isSome = (p.match? before []).isSome := by
  rw [findFrom?]
  cases p.match? before [] <;> rfl

theorem isSome_findFrom?_cons (c : Char) : (p.findFrom? before (c :: s)).isSome =
    ((p.match? before (c :: s)).isSome || (p.findFrom? (some c) s).isSome) := by
  rw [findFrom?]
  cases p.match? before (c :: s) <;> rfl

theorem isSome_findFrom?_iff : (p.findFrom? before s).isSome = true ↔
    ∃ pre post, s = pre ++ post ∧ (p.match? (pre.getLast?.or before) post).isSome = true := by
  induction s generalizing before with
  | nil =>
    rw [isSome_findFrom?_nil]
    constructor
    · intro h
      exact ⟨[], [], rfl, h⟩
    · rintro ⟨pre, post, hs, h⟩
      obtain ⟨rfl, rfl⟩ := List.append_eq_nil_iff.1 hs.symm
      exact h
  | cons c s ih =>
    rw [isSome_findFrom?_cons, Bool.or_eq_true, ih]
    have hlast (pre : List Char) :
        (c :: pre).getLast?.or before = pre.getLast?.or (some c) := by
      rw [List.getLast?_cons, Option.some_or, ← Option.or_some]
    constructor
    · rintro (h | ⟨pre, post, rfl, h⟩)
      · exact ⟨[], c :: s, rfl, h⟩
      · refine ⟨c :: pre, post, rfl, ?_⟩
        rwa [hlast]
    · rintro ⟨pre, post, hs, h⟩
      cases pre with
      | nil =>
        obtain rfl : c :: s = post := hs
        exact .inl h
      | cons d pre =>
        obtain ⟨rfl, rfl⟩ := List.cons.inj hs
        rw [hlast] at h
        exact .inr ⟨pre, post, rfl, h⟩

/-- The search finds a match exactly where there is one. -/
theorem isSome_find?_iff (hp : p.isSettled = true) : (p.find? s).isSome = true ↔ p.Occurs s := by
  rw [find?, isSome_findFrom?_iff]
  constructor
  · rintro ⟨pre, post, rfl, h⟩
    rw [Option.or_none] at h
    obtain ⟨m, hm⟩ := Option.isSome_iff_exists.1 h
    obtain ⟨after, rfl, hmatch⟩ := matches_of_match? hm
    exact ⟨pre, m, after, rfl, hmatch⟩
  · rintro ⟨pre, m, post, rfl, hmatch⟩
    refine ⟨pre, m ++ post, rfl, ?_⟩
    rw [Option.or_none]
    exact isSome_match? hmatch hp

/-! ### Surroundings -/

/-- Of what comes behind it a match knows whether it starts a word. -/
theorem Matches.congr_after (h : Matches p before m after)
    (hword : after.head?.any Text.isWord = after'.head?.any Text.isWord) :
    Matches p before m after' := by
  induction h with
  | nil before => exact .nil before after'
  | oneOf hw _ ih => exact .oneOf hw (ih hword)
  | gap hblanks _ ih => exact .gap hblanks (ih hword)
  | blank hc _ ih => exact .blank hc (ih hword)
  | @edge p before m after here _ ih =>
    refine .edge ?_ (ih hword)
    cases m with
    | nil =>
      rw [List.nil_append, atEdge, ← hword]
      exact here
    | cons c m => exact here
  | lineStart here _ ih => exact .lineStart here (ih hword)

/-- Of what comes in front of it a match knows whether it ends a word and whether it ends a line. -/
structure SameEnd (before before' : Option Char) : Prop where
  word : before.any Text.isWord = before'.any Text.isWord
  line : before.all (· = '\n') = before'.all (· = '\n')

theorem SameEnd.or (h : SameEnd before before') (last : Option Char) :
    SameEnd (last.or before) (last.or before') := by
  cases last with
  | none => exact h
  | some c => exact ⟨rfl, rfl⟩

theorem Matches.congr_before (h : Matches p before m after) (hsame : SameEnd before before') :
    Matches p before' m after := by
  induction h generalizing before' with
  | nil _ after => exact .nil before' after
  | oneOf hw _ ih => exact .oneOf hw (ih (hsame.or _))
  | gap hblanks _ ih => exact .gap hblanks (ih (hsame.or _))
  | blank hc hrest => exact .blank hc hrest
  | edge here _ ih =>
    rw [atEdge, hsame.word] at here
    exact .edge here (ih hsame)
  | lineStart here _ ih =>
    rw [hsame.line] at here
    exact .lineStart here (ih hsame)

theorem Occurs.append_left (h : p.Occurs s) (t : List Char) : p.Occurs (s ++ '\n' :: t) := by
  obtain ⟨pre, m, post, rfl, hmatch⟩ := h
  refine ⟨pre, m, post ++ '\n' :: t, by simp, hmatch.congr_after ?_⟩
  cases post with
  | nil =>
    have hbreak : Text.isWord '\n' = false := by decide
    simp [hbreak]
  | cons c post => rfl

theorem Occurs.append_right (h : p.Occurs s) (t : List Char) : p.Occurs (t ++ '\n' :: s) := by
  obtain ⟨pre, m, post, rfl, hmatch⟩ := h
  refine ⟨t ++ '\n' :: pre, m, post, by simp, hmatch.congr_before ?_⟩
  cases pre with
  | nil =>
    rw [List.getLast?_append, List.getLast?_nil, List.getLast?_singleton, Option.some_or]
    exact ⟨by decide, by decide⟩
  | cons c pre =>
    rw [List.getLast?_append, List.getLast?_cons_cons, List.getLast?_cons, Option.some_or]
    exact ⟨rfl, rfl⟩

/-! ### Words of a match -/

theorem Matches.exists_word (h : Matches p before m after) {words : List String}
    (hp : .oneOf words ∈ p) : ∃ w ∈ words, w.toList <:+: m := by
  induction h with
  | nil => cases hp
  | @oneOf words' w p before m after hw _ ih =>
    rcases List.mem_cons.1 hp with heq | hp
    · obtain rfl : words = words' := Piece.oneOf.inj heq
      exact ⟨w, hw, (List.prefix_append _ m).isInfix⟩
    · obtain ⟨w', hw', hinfix⟩ := ih hp
      exact ⟨w', hw', hinfix.trans (List.suffix_append _ m).isInfix⟩
  | @gap blanks p before m after _ _ ih =>
    obtain ⟨w, hw, hinfix⟩ := ih ((List.mem_cons.1 hp).resolve_left Piece.noConfusion)
    exact ⟨w, hw, hinfix.trans (List.suffix_append _ m).isInfix⟩
  | @blank c p before m after _ _ ih =>
    obtain ⟨w, hw, hinfix⟩ := ih ((List.mem_cons.1 hp).resolve_left Piece.noConfusion)
    exact ⟨w, hw, hinfix.trans (List.suffix_cons c m).isInfix⟩
  | edge _ _ ih | lineStart _ _ ih =>
    exact ih ((List.mem_cons.1 hp).resolve_left Piece.noConfusion)

theorem Occurs.exists_word (h : p.Occurs s) {words : List String} (hp : .oneOf words ∈ p) :
    ∃ w ∈ words, w.toList <:+: s := by
  obtain ⟨pre, m, post, rfl, hmatch⟩ := h
  obtain ⟨w, hw, hinfix⟩ := hmatch.exists_word hp
  exact ⟨w, hw, hinfix.trans ⟨pre, post, by simp⟩⟩

end FlowTree.Script.Pattern
