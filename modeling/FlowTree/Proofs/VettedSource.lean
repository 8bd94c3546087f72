import FlowTree.Proofs.PatternMatch
import FlowTree.Script.Vetting

/-!
# Vetted sources

A source breaks a rule exactly where the pattern of the rule occurs in it. So a call of a denied name
is found wherever it stands, a source stays rejected when other lines are put around it, and a
source in which no word of the rules stands is accepted.
-/

namespace FlowTree.Script

namespace Pattern

variable {p : Pattern} {ws : List String}

/-- The words among which the pattern chooses, choice by choice. -/
def choices (p : Pattern) : List (List String) :=
  p.filterMap fun
    | .oneOf words => some words
    | _ => none

/-- The words of the pattern. Signs such as the opening parenthesis are none. -/
def words (p : Pattern) : List String :=
  p.choices.flatten.filter (·.toList.all Text.isWord)

theorem oneOf_mem_of_mem_choices (h : ws ∈ p.choices) : .oneOf ws ∈ p := by
  obtain ⟨piece, hmem, hwords⟩ := List.mem_filterMap.1 h
  cases piece with
  | oneOf words =>
    obtain rfl : words = ws := Option.some.inj hwords
    exact hmem
  | gap | blank | edge | lineStart => cases hwords

theorem atEdge_of_word {before : Option Char} {w s : List Char}
    (hbefore : before.all (!Text.isWord ·) = true) (hw : w.head?.any Text.isWord = true) :
    atEdge before (w ++ s) = true := by
  have hfalse : before.any Text.isWord = false := by
    cases before with
    | none => rfl
    | some c => simpa using hbefore
  cases w with
  | nil => cases hw
  | cons c cs =>
    rw [atEdge, hfalse]
    simpa using hw

theorem occurs_call {name : String} {before blanks : List Char} (after : List Char)
    (hname : name ∈ ws) (hword : name.toList.head?.any Text.isWord = true)
    (hbefore : before.getLast?.all (!Text.isWord ·) = true)
    (hblanks : ∀ c ∈ blanks, Text.isBlank c = true) :
    (Vetting.call ws).Occurs (before ++ (name.toList ++ (blanks ++ '(' :: after))) := by
  have hopen : "(" ∈ ["("] := List.mem_singleton_self _
  refine ⟨before, name.toList ++ (blanks ++ "(".toList), after, by simp, ?_⟩
  rw [← List.append_nil "(".toList]
  refine .edge ?_ (.oneOf hname (.gap hblanks (.oneOf hopen (.nil _ after))))
  rw [List.append_assoc]
  exact atEdge_of_word hbefore hword

end Pattern

namespace Vetting

/-- The names of which no source may contain a call. -/
def deniedCalls : List String :=
  ["require", "import", "fetch", "spawn", "spawnSync", "execSync", "execFile", "fork", "setTimeout",
    "setInterval", "setImmediate", "queueMicrotask", "requestAnimationFrame", "eval", "Function",
    "importScripts"]

/-- The words of the rules. -/
def words : List String :=
  rules.flatMap (·.2.words)

theorem isSettled_of_mem_rules : ∀ rule ∈ rules, rule.2.isSettled = true := by
  decide

/-- Each rule requires a word. -/
theorem exists_choice_of_mem_rules :
    ∀ rule ∈ rules, ∃ ws ∈ rule.2.choices, ∀ w ∈ ws, w ∈ rule.2.words := by
  decide +kernel

theorem exists_rule_of_mem_deniedCalls :
    ∀ name ∈ deniedCalls, ∃ rule ∈ rules, rule.2 = call rule.2.words ∧ name ∈ rule.2.words := by
  decide +kernel

theorem head_of_mem_deniedCalls :
    ∀ name ∈ deniedCalls, name.toList.head?.any Text.isWord = true := by
  decide

end Vetting

section

variable {source : String} {rule : Danger × Pattern}

theorem isSome_violation?_iff (hrule : rule ∈ Vetting.rules) :
    (violation? source rule).isSome = true ↔ rule.2.Occurs source.toList := by
  rw [violation?, Option.isSome_map]
  exact Pattern.isSome_find?_iff (Vetting.isSettled_of_mem_rules rule hrule)

theorem violations_eq_nil_iff :
    violations source = [] ↔ ∀ rule ∈ Vetting.rules, ¬ rule.2.Occurs source.toList := by
  rw [violations, List.filterMap_eq_nil_iff]
  refine forall₂_congr fun rule hrule => ?_
  rw [← isSome_violation?_iff hrule, Option.not_isSome_iff_eq_none]

theorem vet_of_forall_not_occurs
    (h : ∀ rule ∈ Vetting.rules, ¬ rule.2.Occurs source.toList) : vet source = .ok () := by
  rw [vet, violations_eq_nil_iff.2 h]

theorem vet_of_occurs (hrule : rule ∈ Vetting.rules) (h : rule.2.Occurs source.toList) :
    ∃ message, vet source = .error (.unsafeCode message) := by
  have hne : violations source ≠ [] := fun hnil => violations_eq_nil_iff.1 hnil rule hrule h
  rw [vet]
  cases hvs : violations source with
  | nil => exact absurd hvs hne
  | cons v vs => exact ⟨_, rfl⟩

theorem vet_call {name before blanks : String} (after : String) (hname : name ∈ Vetting.deniedCalls)
    (hbefore : before.toList.getLast?.all (!Text.isWord ·) = true)
    (hblanks : blanks.toList.all Text.isBlank = true) :
    ∃ message, vet (before ++ name ++ blanks ++ "(" ++ after) = .error (.unsafeCode message) := by
  obtain ⟨rule, hrule, hcall, hmem⟩ := Vetting.exists_rule_of_mem_deniedCalls name hname
  refine vet_of_occurs hrule ?_
  have hsource : (before ++ name ++ blanks ++ "(" ++ after).toList =
      before.toList ++ (name.toList ++ (blanks.toList ++ '(' :: after.toList)) := by simp
  rw [hsource, hcall]
  exact Pattern.occurs_call after.toList hmem (Vetting.head_of_mem_deniedCalls name hname) hbefore
    (List.all_eq_true.1 hblanks)

theorem violation?_lines (a b : String) (hrule : rule ∈ Vetting.rules)
    (h : (violation? a rule).isSome = true ∨ (violation? b rule).isSome = true) :
    (violation? (a ++ "\n" ++ b) rule).isSome = true := by
  rw [isSome_violation?_iff hrule, isSome_violation?_iff hrule] at h
  have hlines : (a ++ "\n" ++ b).toList = a.toList ++ '\n' :: b.toList := by simp
  rw [isSome_violation?_iff hrule, hlines]
  rcases h with h | h
  · exact h.append_left b.toList
  · exact h.append_right a.toList

/-- A source breaks a rule only if it contains one of the words of that rule. -/
theorem exists_word_of_violation? (hrule : rule ∈ Vetting.rules)
    (h : (violation? source rule).isSome = true) :
    ∃ w ∈ rule.2.words, w.toList <:+: source.toList := by
  obtain ⟨ws, hws, hwords⟩ := Vetting.exists_choice_of_mem_rules rule hrule
  obtain ⟨w, hw, hinfix⟩ := ((isSome_violation?_iff hrule).1 h).exists_word
    (Pattern.oneOf_mem_of_mem_choices hws)
  exact ⟨w, hwords w hw, hinfix⟩

theorem vet_of_no_word (h : ∀ w ∈ Vetting.words, ¬ w.toList <:+: source.toList) :
    vet source = .ok () := by
  refine vet_of_forall_not_occurs fun rule hrule hoccurs => ?_
  obtain ⟨w, hw, hinfix⟩ :=
    exists_word_of_violation? hrule ((isSome_violation?_iff hrule).2 hoccurs)
  exact h w (List.mem_flatMap.2 ⟨rule, hrule, hw⟩) hinfix

end

/-- A call of a denied name is rejected behind any text that does not end in the middle of a word,
with any blanks in front of its parenthesis and any text after it. Lines around a source break no
rule less, and no source is rejected in which none of the words of the rules stands. -/
theorem vet_placement :
    (∀ name ∈ Vetting.deniedCalls, ∀ before blanks after : String,
      before.toList.getLast?.all (!Text.isWord ·) = true → blanks.toList.all Text.isBlank = true →
        ∃ message, vet (before ++ name ++ blanks ++ "(" ++ after) = .error (.unsafeCode message)) ∧
    (∀ a b : String, ∀ rule ∈ Vetting.rules,
      (violation? a rule).isSome = true ∨ (violation? b rule).isSome = true →
        (violation? (a ++ "\n" ++ b) rule).isSome = true) ∧
    ∀ source : String, (∀ w ∈ Vetting.words, ¬ w.toList <:+: source.toList) →
      vet source = .ok () := by
  refine ⟨?_, ?_, ?_⟩
  · intro name hname before blanks after hbefore hblanks
    exact vet_call after hname hbefore hblanks
  · intro a b rule hrule h
    exact violation?_lines a b hrule h
  · intro source h
    exact vet_of_no_word h

theorem vet_placement_of_samples :
    (∃ message, vet ("a+" ++ "eval" ++ "\u2003\n" ++ "(" ++ "b)") = .error (.unsafeCode message)) ∧
    (violation? ("a" ++ "\n" ++ "import b") (.moduleAccess, Vetting.statement "import")).isSome =
      true ∧
    vet "return a" = .ok () := by
  obtain ⟨hcall, hlines, haccept⟩ := vet_placement
  refine ⟨?_, ?_, ?_⟩
  · exact hcall "eval" (by decide) "a+" "\u2003\n" "b)" (by decide) (by decide)
  · exact hlines "a" "import b" (.moduleAccess, Vetting.statement "import") (by decide)
      (.inr (by decide))
  · exact haccept "return a" (by decide +kernel)

end FlowTree.Script
