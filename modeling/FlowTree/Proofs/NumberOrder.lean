import FlowTree.Proofs.Coercion
import FlowTree.Proofs.RoundTrip

/-!
# Equality and order of numbers

Equality compares how two numbers are displayed, order compares them as doubles. Where neither is an
integer beyond the safe ones, two numbers are displayed alike exactly if they are one double. An
integer beyond them keeps all its digits in its display, but not as a double, and no double is
displayed like it: so it equals nothing but itself, while the order does not tell it from the
integers and doubles next to it (`display_eq_iff`).
-/

namespace FlowTree
open Binary64

/-! ### Doubles that are in no order -/

namespace Binary64
variable {x y : Float}

theorem same_iff_le (hx : x.isNaN = false) (hy : y.isNaN = false) :
    Same x y ↔ x ≥ y ∧ x ≤ y := by
  show _ ↔ y ≤ x ∧ x ≤ y
  rw [le_iff hx hy, le_iff hy hx]
  constructor
  · intro h
    exact ⟨h.key_eq.ge, h.key_eq.le⟩
  · rintro ⟨hge, hle⟩
    exact same_of_key_eq hx hy (le_antisymm hle hge)

theorem not_same_iff_lt (hx : x.isNaN = false) (hy : y.isNaN = false) :
    ¬Same x y ↔ x < y ∨ x > y := by
  show _ ↔ x < y ∨ y < x
  rw [same_iff_le hx hy, lt_iff hx hy, lt_iff hy hx]
  show ¬(y ≤ x ∧ x ≤ y) ↔ _
  rw [le_iff hx hy, le_iff hy hx]
  omega

theorem natAbs_toInt_le (hle : x.abs ≤ ofInt maxSafeInteger) :
    (toInt x).natAbs ≤ maxSafeInteger := by
  unfold toInt
  cases hx : parts x with
  | nan => exact Nat.zero_le _
  | inf neg => exact Nat.zero_le _
  | fin neg m e =>
    have he := exp_le_zero hx hle
    obtain ⟨hm, -⟩ := hx ▸ canonical_parts x
    have hwhole : wholeBelow m e ≤ m := by
      unfold wholeBelow
      split
      · obtain rfl : e = 0 := by omega
        exact le_rfl
      · exact Nat.shiftRight_le ..
    simp only []
    unfold maxSafeInteger
    split <;> omega

end Binary64

/-! ### Texts of integers and of doubles -/

namespace Decimal

theorem mark_mem_positionalText (ds : List Char) (k : Int) : '.' ∈ positionalText true ds k := by
  unfold positionalText
  split
  · simp
  · simp only []
    split
    · simp
    · simp

theorem mark_mem_exponentText (ds : List Char) (k : Int) : 'e' ∈ exponentText ds k := by
  unfold exponentText
  simp

/-- A stored double has a point or an exponent, by which it is told from an integer. -/
theorem toString_ne_write (n : Int) {x : Float} (hx : x.isFinite = true) :
    toString n ≠ Layout.data.write x := by
  obtain ⟨neg, m, e, hparts⟩ := (isFinite_iff x).1 hx
  intro h
  have hdigits : ∀ c ∈ (toString n).toList, c = '-' ∨ isDigit c = true := by
    intro c hc
    rw [toList_toString] at hc
    split at hc
    · exact (List.mem_cons.1 hc).imp_right isDigit_of_mem_toDigits
    · exact .inr (isDigit_of_mem_toDigits hc)
  rw [h, Layout.write, hparts] at hdigits
  simp only [String.toList_ofList] at hdigits
  obtain ⟨c, hmem, hmark⟩ : ∃ c, c ∈ (if Layout.data.positional ((shortest neg m e).exp +
      (Nat.toDigits 10 (shortest neg m e).digits).length - 1) then
        positionalText Layout.data.pointAlways (Nat.toDigits 10 (shortest neg m e).digits)
          ((shortest neg m e).exp + (Nat.toDigits 10 (shortest neg m e).digits).length - 1)
      else exponentText (Nat.toDigits 10 (shortest neg m e).digits)
        ((shortest neg m e).exp + (Nat.toDigits 10 (shortest neg m e).digits).length - 1)) ∧
      (c = '.' ∨ c = 'e') := by
    split
    · exact ⟨_, mark_mem_positionalText _ _, .inl rfl⟩
    · exact ⟨_, mark_mem_exponentText _ _, .inr rfl⟩
  have hc := hdigits c (by cases neg <;> simp [hmem])
  rcases hmark with rfl | rfl <;> revert hc <;> decide

end Decimal

/-! ### Numbers that are displayed alike -/

namespace Number
variable {a b : Number}

/-- The number is a double or an integer that is one without rounding. -/
def IsSafe : Number → Prop
  | int n => n.natAbs ≤ maxSafeInteger
  | double _ => True

/-- A safe number is displayed as its double is stored. -/
theorem display_of_isSafe (ha : a.toFloat.isFinite = true) (h : a.IsSafe) :
    (Json.ofFloat a.toFloat).display = a.display := by
  cases a with
  | int n =>
    show (Json.ofFloat (ofInt n)).display = _
    rw [Json.ofFloat_of_same (.refl _) h]
    rfl
  | double x =>
    obtain ⟨neg, m, e, hx⟩ := (isFinite_iff x).1 ha
    show (Json.ofFloat x).display = _
    rw [Json.ofFloat, hx, display]
    simp only []
    split
    · rfl
    · rename_i hsafe
      show display (.double x) = _
      rw [display, if_neg hsafe]

theorem isSafe_of_display_eq {n : Int} (hb : b.toFloat.isFinite = true)
    (h : (int n).display = b.display) : int n = b ∨ (int n).IsSafe ∧ b.IsSafe := by
  cases b with
  | int m => exact .inl (congrArg int (Int.repr_injective h))
  | double x =>
    refine .inr ⟨?_, trivial⟩
    unfold display at h
    simp only [] at h
    split at h
    · rename_i hsafe
      obtain rfl := Int.repr_injective h
      exact natAbs_toInt_le (of_decide_eq_true (Bool.and_eq_true_iff.1 hsafe).2)
    · exact absurd h (Decimal.toString_ne_write n hb)

theorem display_eq_iff (ha : a.toFloat.isFinite = true) (hb : b.toFloat.isFinite = true) :
    a.display = b.display ↔
      Same a.toFloat b.toFloat ∧ (a = b ∨ a.IsSafe ∧ b.IsSafe) := by
  constructor
  · intro h
    refine ⟨?_, ?_⟩
    · obtain ⟨x, hx, hxa⟩ := a.readFloat?_display
      obtain ⟨y, hy, hyb⟩ := b.readFloat?_display
      rw [h, hy] at hx
      obtain rfl := Option.some.inj hx
      exact hxa.symm.trans hyb
    · cases a with
      | int n => exact isSafe_of_display_eq hb h
      | double x =>
        cases b with
        | int m => exact (isSafe_of_display_eq ha h.symm).imp Eq.symm And.symm
        | double y => exact .inr ⟨trivial, trivial⟩
  · rintro ⟨hsame, rfl | ⟨hsafe, hsafe'⟩⟩
    · rfl
    · rw [← display_of_isSafe ha hsafe, ← display_of_isSafe hb hsafe', Json.ofFloat_congr hsame]

end Number

/-! ### Conditions on numbers -/

/-- Two numbers are equal exactly if neither is below the other, unless one of them is an integer
beyond the safe ones: that one equals no other number, even if the order does not tell them apart.
Switches match a number with the number of a case in the same way. -/
theorem equal_iff_ordered {a b : Number} (ha : a.Proper) (hb : b.Proper) (locale : Locale)
    (prev : Json) (vars : Variables) {left right : Ref}
    (hleft : left.resolveOrNull prev vars = .num a)
    (hright : right.resolveOrNull prev vars = .num b) (fieldType : Option String) :
    let holds (c : Comparison) : Prop :=
      ({ left, right, comparison := c } : Condition).holds prev vars locale = .ok true
    let told : Prop := a = b ∨ a.IsSafe ∧ b.IsSafe
    (holds .equal ↔ (holds .greaterOrEqual ∧ holds .lessOrEqual) ∧ told) ∧
    (holds .notEqual ↔ (holds .less ∨ holds .greater) ∨ ¬told) ∧
    (SwitchCase.accepts fieldType (.num a) { value := .num b } = true ↔
      (holds .greaterOrEqual ∧ holds .lessOrEqual) ∧ told) := by
  intro holds told
  have hxa := isNaN_of_isFinite ha.isFinite
  have hyb := isNaN_of_isFinite hb.isFinite
  have hcondition (c : Comparison) :
      holds c ↔ c.holds locale (.num a) (.num b) = .ok true := by
    show c.holds locale (left.resolveOrNull prev vars) (right.resolveOrNull prev vars) = _ ↔ _
    rw [hleft, hright]
  have hnumeric (test : Float → Float → Bool) :
      Comparison.numeric locale test (.num a) (.num b) = .ok true ↔
        test a.toFloat b.toFloat = true := by
    show Except.ok (test a.toFloat b.toFloat) = .ok true ↔ _
    rw [Except.ok.injEq]
  have hordered : holds .greaterOrEqual ∧ holds .lessOrEqual ↔ Same a.toFloat b.toFloat := by
    rw [hcondition, hcondition, Comparison.holds, Comparison.holds, hnumeric, hnumeric,
      decide_eq_true_iff, decide_eq_true_iff, same_iff_le hxa hyb]
  have happart : holds .less ∨ holds .greater ↔ ¬Same a.toFloat b.toFloat := by
    rw [hcondition, hcondition, Comparison.holds, Comparison.holds, hnumeric, hnumeric,
      decide_eq_true_iff, decide_eq_true_iff, not_same_iff_lt hxa hyb]
  have hdisplay := Number.display_eq_iff ha.isFinite hb.isFinite
  rw [hordered, happart, hcondition, hcondition]
  refine ⟨?_, ?_, ?_⟩
  · show Except.ok (a.display == b.display) = .ok true ↔ _
    rw [Except.ok.injEq, beq_iff_eq, hdisplay]
  · show Except.ok (a.display != b.display) = .ok true ↔ _
    rw [Except.ok.injEq, bne_iff_ne, ne_eq, hdisplay, not_and_or]
  · show (true && (a.display == b.display)) = true ↔ _
    rw [Bool.true_and, beq_iff_eq, hdisplay]

theorem equal_iff_ordered_of_mixed :
    let a : Number := .int 9007199254740991
    let b : Number := .double 9007199254740991.0
    let holds (c : Comparison) : Prop :=
      (⟨.literal (.num a), .previous, c⟩ : Condition).holds (.num b) {} {} = .ok true
    a.Proper ∧ b.Proper ∧ holds .equal ∧ holds .greaterOrEqual ∧ holds .lessOrEqual ∧
      ¬holds .notEqual := by
  intro a b holds
  have ha : a.Proper := ⟨by decide, by decide⟩
  have hb : b.Proper := (by decide +kernel : (9007199254740991.0 : Float).isFinite = true)
  have hleft : (Ref.literal (.num a)).resolveOrNull (.num b) {} = .num a := rfl
  have hright : Ref.previous.resolveOrNull (.num b) {} = .num b := rfl
  obtain ⟨hequal, -, -⟩ := equal_iff_ordered ha hb {} (.num b) {} hleft hright none
  have h : holds .equal := by decide +kernel
  exact ⟨ha, hb, h, (hequal.1 h).1.1, (hequal.1 h).1.2, by decide +kernel⟩

/-- The order does not tell two neighbours beyond the safe integers apart, but equality does. -/
theorem equal_finer_than_order :
    let a : Json := .int 9007199254740993
    let b : Json := .int 9007199254740992
    let holds (c : Comparison) : Prop :=
      (⟨.literal a, .literal b, c⟩ : Condition).holds .null {} {} = .ok true
    ¬(holds .equal ↔ holds .greaterOrEqual ∧ holds .lessOrEqual) ∧
      ¬(holds .notEqual ↔ holds .less ∨ holds .greater) ∧
      ¬(SwitchCase.accepts none a { value := b } = true ↔
        holds .greaterOrEqual ∧ holds .lessOrEqual) := by
  decide +kernel

end FlowTree
