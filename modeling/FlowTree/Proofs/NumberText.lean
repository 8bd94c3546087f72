import FlowTree.Proofs.Decimal.Notation
import FlowTree.Value.Coercion

/-!
# The readings of a number

A text is read as a number as it stands, with the separator of the device as its point, or with
commas and points exchanged. Unless the separator is a character of the notation itself, all of
these that are numbers are one and the same text (`eq_of_mem_readings`). So the order in which they
are tried says nothing, and devices with a point and with a comma read the same numbers
(`parseNumber?_unambiguous`).
-/

namespace FlowTree
open Decimal

def withPoint (separator : Char) (cs : List Char) : List Char :=
  cs.map fun c => if c = separator then '.' else c

/-- The texts that are tried, in this order. -/
def readings (locale : Locale) (cs : List Char) : List (List Char) :=
  [cs, withPoint locale.separator cs, swapSeparators cs]

theorem readNumber?_eq (locale : Locale) (cs : List Char) :
    readNumber? locale cs = (readings locale cs).findSome? readFloat? := by
  have hself : withPoint '.' cs = cs := by
    refine (List.map_congr_left fun c _ => ?_).trans (List.map_id cs)
    split
    · rename_i h
      exact h.symm
    · rfl
  unfold readNumber? readings
  simp only [List.findSome?_cons, List.findSome?_nil]
  split
  · rename_i h
    rw [h, hself]
    cases readFloat? cs <;> cases readFloat? (swapSeparators cs) <;> rfl
  · unfold withPoint
    cases readFloat? cs <;> cases readFloat? (cs.map _) <;> cases readFloat? (swapSeparators cs) <;>
      rfl

theorem parseNumber?_eq (locale : Locale) (s : String) :
    parseNumber? locale s = (readings locale (Text.trim s.toList)).findSome? readFloat? := by
  unfold parseNumber?
  simp only []
  split
  · rename_i h
    rw [h]
    rfl
  · exact readNumber?_eq locale _

/-- What is in the notation is read as it stands, whatever the separator. -/
theorem parseNumber?_of_readFloat? (locale : Locale) {s : String} {x : Float}
    (h : readFloat? s.toList = some x) : parseNumber? locale s = some x := by
  rw [parseNumber?_eq, trim_of_readFloat? h, readings, List.findSome?_cons, h]

/-! ### One text -/

section
variable {locale : Locale} {cs a : List Char}

/-- Of the texts that are tried none but this one can be a number. -/
theorem eq_of_mem_readings (hsep : inNotation locale.separator = false)
    (ha : a ∈ readings locale cs) (h : Spelled a) :
    a = cs.map fun c => if c = ',' ∨ c = locale.separator then '.' else c := by
  have hcomma : ¬(',' = '.' ∨ inNotation ',' = true) := by decide
  rw [← Bool.not_eq_true] at hsep
  rcases List.mem_cons.1 ha with rfl | ha
  · -- as it stands: it has neither a comma nor the separator, unless that is the point
    refine (List.map_id a).symm.trans (List.map_congr_left fun c hc => ?_)
    have hchar := h.chars c hc
    split
    · rename_i heq
      rcases heq with rfl | rfl
      · exact absurd hchar hcomma
      · exact hchar.resolve_right hsep
    · rfl
  rcases List.mem_cons.1 ha with rfl | ha
  · -- with the separator as point: a comma that is left would be no character of the notation
    refine List.map_congr_left fun c hc => ?_
    have hchar := h.chars _ (List.mem_map_of_mem hc)
    by_cases heq : c = locale.separator
    · rw [if_pos heq, if_pos (.inr heq)]
    · rw [if_neg heq] at hchar
      rw [if_neg heq, if_neg]
      rintro (rfl | heq')
      · exact hcomma hchar
      · exact heq heq'
  · -- exchanged: there was no point, which would be a comma now, and no other separator
    obtain rfl := List.mem_singleton.1 ha
    refine List.map_congr_left fun c hc => ?_
    have hchar := h.chars _ (List.mem_map_of_mem hc)
    by_cases heq : c = ','
    · rw [if_pos heq, if_pos (.inl heq)]
    · rw [if_neg heq] at hchar
      by_cases hpoint : c = '.'
      · rw [if_pos hpoint] at hchar
        exact absurd hchar hcomma
      · rw [if_neg hpoint] at hchar
        rw [if_neg heq, if_neg hpoint, if_neg]
        rintro (heq' | rfl)
        · exact heq heq'
        · exact hsep (hchar.resolve_left hpoint)

theorem readFloat?_agree (hsep : inNotation locale.separator = false) :
    ∀ a ∈ readings locale cs, ∀ b ∈ readings locale cs, ∀ x y,
      readFloat? a = some x → readFloat? b = some y → x = y := by
  intro a ha b hb x y hx hy
  have heq : a = b := (eq_of_mem_readings hsep ha (spelled_of_readFloat? hx)).trans
    (eq_of_mem_readings hsep hb (spelled_of_readFloat? hy)).symm
  rw [heq, hy] at hx
  exact (Option.some.inj hx).symm

end

-- a separator that is a character of the notation can make two numbers of one text
example : readFloat? "1e5".toList = some 100000.0 ∧
    readFloat? (withPoint 'e' "1e5".toList) = some 1.5 :=
  ⟨rfl, rfl⟩

/-! ### Any order -/

section
variable {α β : Type} {f : α → Option β} {l l' : List α}

theorem findSome?_eq_some_iff_of_agree
    (h : ∀ a ∈ l, ∀ b ∈ l, ∀ x y, f a = some x → f b = some y → x = y) {x : β} :
    l.findSome? f = some x ↔ ∃ a ∈ l, f a = some x := by
  refine ⟨List.exists_of_findSome?_eq_some, fun ⟨a, ha, hx⟩ => ?_⟩
  obtain ⟨y, hy⟩ := Option.isSome_iff_exists.1
    (List.findSome?_isSome_iff.2 ⟨a, ha, Option.isSome_iff_exists.2 ⟨x, hx⟩⟩)
  obtain ⟨b, hb, hby⟩ := List.exists_of_findSome?_eq_some hy
  rw [hy, h b hb a ha y x hby hx]

theorem findSome?_eq_of_perm (hperm : l'.Perm l)
    (h : ∀ a ∈ l, ∀ b ∈ l, ∀ x y, f a = some x → f b = some y → x = y) :
    l.findSome? f = l'.findSome? f := by
  have h' : ∀ a ∈ l', ∀ b ∈ l', ∀ x y, f a = some x → f b = some y → x = y :=
    fun a ha b hb => h a (hperm.mem_iff.1 ha) b (hperm.mem_iff.1 hb)
  refine Option.ext fun x => ?_
  rw [findSome?_eq_some_iff_of_agree h, findSome?_eq_some_iff_of_agree h']
  simp only [hperm.mem_iff]

end

/-! ### Commas and points -/

theorem count_withPoint (cs : List Char) :
    (withPoint ',' cs).count '.' = cs.count ',' + cs.count '.' := by
  induction cs with
  | nil => rfl
  | cons c cs ih =>
    have hcons : withPoint ',' (c :: cs) = (if c = ',' then '.' else c) :: withPoint ',' cs := rfl
    rw [hcons, List.count_cons, ih, List.count_cons, List.count_cons]
    by_cases hcomma : c = ','
    · subst hcomma
      simp only [if_true, beq_self_eq_true, show (',' == '.') = false from rfl, Bool.false_eq_true,
        if_false]
      omega
    · simp only [if_neg hcomma, beq_eq_false_iff_ne.2 hcomma, Bool.false_eq_true, if_false]
      omega

/-- A number has a comma or a point, not both. -/
theorem not_mem_and_mem {cs : List Char} (h : Spelled (withPoint ',' cs)) :
    ¬(',' ∈ cs ∧ '.' ∈ cs) := by
  rintro ⟨hcomma, hpoint⟩
  have hcount := h.points
  have hcommas := List.count_pos_iff.2 hcomma
  have hpoints := List.count_pos_iff.2 hpoint
  rw [count_withPoint] at hcount
  omega

theorem parseNumber?_eq_some_iff {locale : Locale}
    (hsep : locale.separator = ',' ∨ locale.separator = '.') (s : String) (x : Float) :
    parseNumber? locale s = some x ↔
      readFloat? (withPoint ',' (Text.trim s.toList)) = some x ∧
        ¬(',' ∈ Text.trim s.toList ∧ '.' ∈ Text.trim s.toList) := by
  have hnotation : inNotation locale.separator = false := by
    rcases hsep with hsep | hsep <;> rw [hsep] <;> rfl
  generalize hcs : Text.trim s.toList = cs
  have hone : (cs.map fun c => if c = ',' ∨ c = locale.separator then '.' else c) =
      withPoint ',' cs := by
    refine List.map_congr_left fun c _ => ?_
    by_cases hcomma : c = ','
    · rw [if_pos hcomma, if_pos (.inl hcomma)]
    · rw [if_neg hcomma]
      split
      · rename_i heq
        rcases hsep with hsep | hsep
        · exact absurd (heq.elim id (·.trans hsep)) hcomma
        · exact ((heq.resolve_left hcomma).trans hsep).symm
      · rfl
  rw [parseNumber?_eq, hcs, findSome?_eq_some_iff_of_agree (readFloat?_agree hnotation)]
  constructor
  · rintro ⟨a, ha, hx⟩
    have hspelled := spelled_of_readFloat? hx
    obtain rfl := (eq_of_mem_readings hnotation ha hspelled).trans hone
    exact ⟨hx, not_mem_and_mem hspelled⟩
  · rintro ⟨hx, hnot⟩
    rcases not_and_or.1 hnot with hcomma | hpoint
    · refine ⟨cs, List.mem_cons_self, ?_⟩
      rw [← hx]
      refine congrArg readFloat? ((List.map_id cs).symm.trans (List.map_congr_left fun c hc => ?_))
      rw [if_neg (ne_of_mem_of_not_mem hc hcomma)]
      rfl
    · refine ⟨swapSeparators cs, by simp [readings], ?_⟩
      rw [← hx]
      refine congrArg readFloat? (List.map_congr_left fun c hc => ?_)
      rw [if_neg (ne_of_mem_of_not_mem hc hpoint)]

example : parseNumber? ⟨','⟩ "1.234,5" = none :=
  rfl

/-- All readings of a text that are numbers are the same number, in whatever order they are tried.
With a comma and with a point as its separator a device reads the same numbers, those of texts that
have one kind of the two and are in the notation with a point for each comma. -/
theorem parseNumber?_unambiguous :
    (∀ (locale : Locale) (s : String), inNotation locale.separator = false →
      (∀ a ∈ readings locale (Text.trim s.toList), ∀ b ∈ readings locale (Text.trim s.toList),
        ∀ x y, readFloat? a = some x → readFloat? b = some y → x = y) ∧
      ∀ order : List (List Char), order.Perm (readings locale (Text.trim s.toList)) →
        parseNumber? locale s = order.findSome? readFloat?) ∧
    ∀ s : String, parseNumber? ⟨','⟩ s = parseNumber? ⟨'.'⟩ s ∧
      ∀ x, parseNumber? ⟨'.'⟩ s = some x ↔
        readFloat? (withPoint ',' (Text.trim s.toList)) = some x ∧
          ¬(',' ∈ Text.trim s.toList ∧ '.' ∈ Text.trim s.toList) := by
  refine ⟨fun locale s hsep => ⟨readFloat?_agree hsep, fun order horder => ?_⟩, fun s => ⟨?_, ?_⟩⟩
  · rw [parseNumber?_eq]
    exact findSome?_eq_of_perm horder (readFloat?_agree hsep)
  · exact Option.ext fun x => (parseNumber?_eq_some_iff (.inl rfl) s x).trans
      (parseNumber?_eq_some_iff (.inr rfl) s x).symm
  · exact parseNumber?_eq_some_iff (.inr rfl) s

theorem parseNumber?_reversed :
    inNotation '٫' = false ∧
      parseNumber? ⟨'٫'⟩ " 1٫5 " =
        (readings ⟨'٫'⟩ (Text.trim " 1٫5 ".toList)).reverse.findSome? readFloat? ∧
      parseNumber? ⟨'٫'⟩ " 1٫5 " = some 1.5 :=
  ⟨rfl, (parseNumber?_unambiguous.1 ⟨'٫'⟩ " 1٫5 " rfl).2 _ (List.reverse_perm _), rfl⟩

end FlowTree
