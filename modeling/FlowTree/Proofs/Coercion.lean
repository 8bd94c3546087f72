import FlowTree.Proofs.NumberText
import FlowTree.Proofs.StoredNumber

/-!
# Coerced values

The display form of a number is in the invariant notation, so that on every device it is read as
the same number (`toNumber_display`). What is coerced is settled: a value of the target type, or the
stored form of a number that is not finite, and to coerce it again changes nothing
(`coerce_idempotent`).
-/

namespace FlowTree
open Binary64

/-! ### The display form of a number -/

theorem Number.readFloat?_text (n : Number) :
    Decimal.readFloat? n.text.toList = some n.toFloat := by
  cases n with
  | int n => exact Decimal.readFloat?_toString n
  | double x => exact Decimal.readFloat?_write Decimal.Layout.readable_data x

/-- A double that is shown as an integer is this integer. -/
theorem Number.readFloat?_display (n : Number) :
    ∃ y, Decimal.readFloat? n.display.toList = some y ∧ Same y n.toFloat := by
  cases n with
  | int n => exact ⟨_, readFloat?_text (.int n), .refl _⟩
  | double x =>
    unfold Number.display
    simp only []
    split
    · rename_i hsafe
      obtain ⟨hwhole, hle⟩ := Bool.and_eq_true_iff.1 hsafe
      exact ⟨_, Decimal.readFloat?_toString _, ofInt_toInt hwhole (of_decide_eq_true hle)⟩
    · exact ⟨x, readFloat?_text (.double x), .refl x⟩

namespace Json
variable {locale : Locale} {v w : Json}

theorem toNumber_of_readFloat? {s : String} {x : Float}
    (h : Decimal.readFloat? s.toList = some x) : (str s).toNumber locale = .ok x := by
  rw [toNumber, parseNumber?_of_readFloat? locale h]

theorem cases_of_coerceTo (h : v.coerceTo locale .number = .ok w) :
    (∃ n, v = num n ∧ w = num n) ∨ ∃ x, v.toNumber locale = .ok x ∧ w = ofFloat x := by
  by_cases hv : ∃ n, v = num n
  · obtain ⟨n, rfl⟩ := hv
    exact .inl ⟨n, rfl, (Except.ok.inj h).symm⟩
  · rw [coerceTo_number (not_exists.1 hv)] at h
    cases hx : v.toNumber locale with
    | error e => rw [hx] at h; cases h
    | ok x => rw [hx] at h; exact .inr ⟨x, rfl, (Except.ok.inj h).symm⟩

/-- To coerce a value to a number keeps its number. -/
theorem toNumber_of_coerceTo (h : v.coerceTo locale .number = .ok w) :
    ∃ x y, v.toNumber locale = .ok x ∧ w.toNumber locale = .ok y ∧ Same y x := by
  rcases cases_of_coerceTo h with ⟨n, rfl, rfl⟩ | ⟨x, hx, rfl⟩
  · exact ⟨n.toFloat, n.toFloat, rfl, rfl, .refl _⟩
  · obtain ⟨y, hy, hsame⟩ := toNumber_ofFloat locale x
    exact ⟨x, y, hx, hy, hsame⟩

/-- The text that is shown for a number is read as this number, whatever separator the device has. It
is the text that the number is coerced to, and what this one is coerced back to is read as the number
as well. -/
theorem toNumber_display (locale : Locale) (n : Number) :
    (∃ x y, (num n).toNumber locale = .ok x ∧ (str (num n).display).toNumber locale = .ok y ∧
      Same y x) ∧
    ∃ x u y, (num n).toNumber locale = .ok x ∧
      (num n).coerce locale "string" = .ok (str (num n).display) ∧
      (str (num n).display).coerce locale "number" = .ok u ∧ u.toNumber locale = .ok y ∧
      Same y x := by
  obtain ⟨y, hread, hsame⟩ := n.readFloat?_display
  have hy : (str (num n).display).toNumber locale = .ok y := toNumber_of_readFloat? hread
  refine ⟨⟨_, y, rfl, hy, hsame⟩, ?_⟩
  have hback : (str (num n).display).coerceTo locale .number = .ok (ofFloat y) := by
    rw [coerceTo_number (fun _ => Json.noConfusion), hy]
    rfl
  obtain ⟨y', z, hy', hz, hsame'⟩ := toNumber_of_coerceTo hback
  rw [hy] at hy'
  obtain rfl := Except.ok.inj hy'
  exact ⟨_, _, z, rfl, rfl, hback, hz, hsame'.trans hsame⟩

/-! ### Settled values -/

/-- What a value of some target type is coerced to. -/
inductive Settled : Target → Json → Prop
  | number (n : Number) : Settled .number (num n)
  | stored (x : Float) : Settled .number (ofFloat x)
  | boolean (b : Bool) : Settled .boolean (bool b)
  | string (s : String) : Settled .string (str s)

theorem settled_of_coerceTo {t : Target} (h : v.coerceTo locale t = .ok w) : Settled t w := by
  cases t with
  | number =>
    rcases cases_of_coerceTo h with ⟨n, -, rfl⟩ | ⟨x, -, rfl⟩
    · exact .number n
    · exact .stored x
  | boolean => cases v <;> exact Except.ok.inj h ▸ .boolean _
  | string => cases v <;> exact Except.ok.inj h ▸ .string _

/-- A name of a number that is not finite stands for this number again. -/
theorem coerceTo_ofFloat (locale : Locale) (x : Float) :
    (ofFloat x).coerceTo locale .number = .ok (ofFloat x) := by
  obtain ⟨y, hy, hsame⟩ := toNumber_ofFloat locale x
  by_cases hnum : ∃ n, ofFloat x = num n
  · obtain ⟨n, hn⟩ := hnum
    rw [hn]
    rfl
  · rw [coerceTo_number (not_exists.1 hnum), hy, ← ofFloat_congr hsame]
    rfl

theorem coerceTo_of_settled {t : Target} (h : Settled t w) : w.coerceTo locale t = .ok w := by
  cases h with
  | stored x => exact coerceTo_ofFloat locale x
  | _ => rfl

/-- A coerced value is coerced to itself, also on a device with another separator. -/
theorem coerce_idempotent {target : String} (h : v.coerce locale target = .ok w)
    (locale' : Locale) : w.coerce locale' target = .ok w := by
  unfold coerce at h ⊢
  cases ht : Target.ofName? target with
  | none =>
    rw [ht] at h
    cases h
  | some t =>
    rw [ht] at h
    exact coerceTo_of_settled (settled_of_coerceTo h)

theorem coerce_coerce_infinity :
    (str " -inf ").coerce ⟨'f'⟩ "number" = .ok (str "-Infinity") ∧
      (str "-Infinity").coerce ⟨'-'⟩ "number" = .ok (str "-Infinity") :=
  have h : (str " -inf ").coerce ⟨'f'⟩ "number" = .ok (str "-Infinity") := rfl
  ⟨h, coerce_idempotent h ⟨'-'⟩⟩

end Json

end FlowTree
