import FlowTree.Proofs.Decimal.Layout
import FlowTree.Text.Blank

/-!
# The characters of a number

The invariant notation has few characters: digits, signs, the letters of an exponent and of the
names, and one point at most. No other text is read (`spelled_of_readFloat?`). None of them is a
blank, so that nothing is cut off at the ends of a text that is read (`trim_of_readFloat?`).
-/

namespace FlowTree

theorem Text.trim_eq_self {cs : List Char} (h : ∀ c ∈ cs, isBlank c = false) : trim cs = cs := by
  have hdrop : ∀ ds : List Char, (∀ c ∈ ds, isBlank c = false) → ds.dropWhile isBlank = ds := by
    intro ds hds
    cases ds with
    | nil => rfl
    | cons d ds => rw [List.dropWhile_cons, hds d List.mem_cons_self, if_neg Bool.false_ne_true]
  rw [trim, dropRightWhile, hdrop cs h, hdrop cs.reverse fun c hc => h c (List.mem_reverse.1 hc),
    List.reverse_reverse]

namespace Decimal

/-- A digit, a sign, or a letter of an exponent or of a name, in either case. -/
def inNotation (c : Char) : Bool :=
  isDigit c || ['+', '-', 'e', 'i', 'n', 'f', 't', 'y', 'a'].contains c.toLower

/-- Only characters of the notation, and at most one point among them. -/
structure Spelled (cs : List Char) : Prop where
  chars : ∀ c ∈ cs, c = '.' ∨ inNotation c = true
  points : cs.count '.' ≤ 1

theorem inNotation_of_isDigit {c : Char} (h : isDigit c = true) : inNotation c = true := by
  rw [inNotation, h, Bool.true_or]

theorem range_of_inNotation {c : Char} (h : inNotation c = true) :
    43 ≤ c.toNat ∧ c.toNat ≤ 122 := by
  rcases Bool.or_eq_true_iff.1 h with hdigit | hletter
  · simp only [isDigit, Bool.and_eq_true, decide_eq_true_eq] at hdigit
    omega
  · unfold Char.toLower at hletter
    split at hletter
    · rename_i hupper
      have hlo : 65 ≤ c.toNat := UInt32.le_iff_toNat_le.1 hupper.1
      have hhi : c.toNat ≤ 90 := UInt32.le_iff_toNat_le.1 hupper.2
      omega
    · have hall : ['+', '-', 'e', 'i', 'n', 'f', 't', 'y', 'a'].all
          (fun d => decide (43 ≤ d.toNat ∧ d.toNat ≤ 122)) = true := rfl
      exact of_decide_eq_true (List.all_eq_true.1 hall c (List.contains_iff_mem.1 hletter))

namespace Spelled
variable {cs ds : List Char}

theorem count_point (h : ∀ c ∈ cs, inNotation c = true) : cs.count '.' = 0 :=
  List.count_eq_zero.2 fun hpoint => Bool.false_ne_true (h '.' hpoint)

theorem of_forall (h : ∀ c ∈ cs, inNotation c = true) : Spelled cs where
  chars c hc := .inr (h c hc)
  points := by
    rw [count_point h]
    exact Nat.zero_le 1

theorem append (h : Spelled cs) (hds : ∀ c ∈ ds, inNotation c = true) : Spelled (cs ++ ds) where
  chars c hc := (List.mem_append.1 hc).elim (h.chars c) fun hc => .inr (hds c hc)
  points := by
    rw [List.count_append, count_point hds]
    exact h.points

theorem prepend (hds : ∀ c ∈ ds, inNotation c = true) (h : Spelled cs) : Spelled (ds ++ cs) where
  chars c hc := (List.mem_append.1 hc).elim (fun hc => .inr (hds c hc)) (h.chars c)
  points := by
    rw [List.count_append, count_point hds, Nat.zero_add]
    exact h.points

theorem not_isBlank (h : Spelled cs) : ∀ c ∈ cs, Text.isBlank c = false := by
  intro c hc
  have hrange : 43 ≤ c.toNat ∧ c.toNat ≤ 122 := by
    rcases h.chars c hc with rfl | hnotation
    · decide
    · exact range_of_inNotation hnotation
  simp only [Text.isBlank, Text.blankRanges, Text.inRanges, Bool.or_false, Bool.if_false_left,
    Bool.and_eq_false_imp, Bool.not_eq_eq_eq_not, Bool.not_true, decide_eq_false_iff_not, not_lt,
    Bool.or_eq_false_iff, not_le]
  omega

end Spelled

/-! ### The parts of a number -/

theorem splitSign_eq (cs : List Char) :
    ∃ sign, cs = sign ++ (splitSign cs).2 ∧ ∀ c ∈ sign, inNotation c = true := by
  unfold splitSign
  split
  · exact ⟨['-'], rfl, List.all_eq_true.1 rfl⟩
  · exact ⟨['+'], rfl, List.all_eq_true.1 rfl⟩
  · exact ⟨[], rfl, by simp⟩

theorem splitFraction_eq (cs : List Char) :
    ∃ point, cs = point ++ ((splitFraction cs).1 ++ (splitFraction cs).2) ∧ Spelled point ∧
      ∀ c ∈ (splitFraction cs).1, inNotation c = true := by
  unfold splitFraction
  split
  · rename_i cs
    refine ⟨['.'], ?_, ⟨fun c hc => .inl (List.mem_singleton.1 hc), le_rfl⟩, fun c hc => ?_⟩
    · rw [List.takeWhile_append_dropWhile]
      rfl
    · exact inNotation_of_isDigit (List.mem_takeWhile_imp hc)
  · exact ⟨[], rfl, .of_forall (by simp), by simp⟩

theorem inNotation_of_readExponent? {cs : List Char} {e : Int} (h : readExponent? cs = some e) :
    ∀ c ∈ cs, inNotation c = true := by
  rcases cases_of_readExponent? h with rfl | ⟨mark, cs, rfl, hmark⟩
  · simp
  · have hmarkIn : inNotation mark = true := by rcases hmark with rfl | rfl <;> rfl
    obtain ⟨sign, hcs, hsign⟩ := splitSign_eq cs
    rw [readExponent?, if_pos hmark] at h
    simp only [] at h
    split at h
    · rename_i hdigits
      rw [hcs]
      intro c hc
      rcases List.mem_cons.1 hc with rfl | hc
      · exact hmarkIn
      · exact (List.mem_append.1 hc).elim (hsign c)
          fun hc => inNotation_of_isDigit (List.all_eq_true.1 hdigits.2 c hc)
    · cases h

theorem spelled_of_readUnsigned? {neg : Bool} {cs : List Char} {n : Numeral}
    (h : readUnsigned? neg cs = some n) : Spelled cs := by
  obtain ⟨point, hcs, hpoint, hfraction⟩ := splitFraction_eq (cs.dropWhile isDigit)
  have hwhole : ∀ c ∈ cs.takeWhile isDigit, inNotation c = true :=
    fun c hc => inNotation_of_isDigit (List.mem_takeWhile_imp hc)
  unfold readUnsigned? at h
  simp only [] at h
  split at h
  · cases h
  · obtain ⟨e, hexp, -⟩ := Option.map_eq_some_iff.1 h
    rw [← List.takeWhile_append_dropWhile (p := isDigit) (l := cs), hcs]
    refine .prepend hwhole (hpoint.append fun c hc => ?_)
    exact (List.mem_append.1 hc).elim (hfraction c) (inNotation_of_readExponent? hexp c)

/-- Only the names of numbers that are not finite have letters other than that of an exponent. -/
theorem inNotation_of_name {name : String} {cs : List Char}
    (hname : name = "inf" ∨ name = "infinity" ∨ name = "nan")
    (h : String.ofList (cs.map Char.toLower) = name) : ∀ c ∈ cs, inNotation c = true := by
  have hletters :
      name.toList.all ['+', '-', 'e', 'i', 'n', 'f', 't', 'y', 'a'].contains = true := by
    rcases hname with rfl | rfl | rfl <;> rfl
  intro c hc
  have hlower : c.toLower ∈ name.toList := by
    rw [← h, String.toList_ofList]
    exact List.mem_map_of_mem hc
  rw [inNotation, List.all_eq_true.1 hletters _ hlower, Bool.or_true]

/-- No other character is read, and no second point. -/
theorem spelled_of_readFloat? {cs : List Char} {x : Float} (h : readFloat? cs = some x) :
    Spelled cs := by
  obtain ⟨sign, hcs, hsign⟩ := splitSign_eq cs
  rw [hcs]
  refine .prepend hsign ?_
  unfold readFloat? at h
  simp only [] at h
  split at h
  · rename_i hname
    exact .of_forall (inNotation_of_name (hname.imp_right .inl) rfl)
  · split at h
    · rename_i hname
      exact .of_forall (inNotation_of_name (.inr (.inr hname)) rfl)
    · obtain ⟨n, hn, -⟩ := Option.map_eq_some_iff.1 h
      exact spelled_of_readUnsigned? hn

theorem trim_of_readFloat? {cs : List Char} {x : Float} (h : readFloat? cs = some x) :
    Text.trim cs = cs :=
  Text.trim_eq_self (spelled_of_readFloat? h).not_isBlank

end Decimal

end FlowTree
