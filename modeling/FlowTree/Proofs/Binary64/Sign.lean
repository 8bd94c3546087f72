import FlowTree.Proofs.Binary64.Nearest
import FlowTree.Proofs.Binary64.Ratio

/-!
# Signs

The arithmetic of doubles treats both signs alike: a product or a quotient with a negated double is
negated, and so is a whole number that is next to one, on its other side.
-/

namespace FlowTree.Binary64
open Float.Model (Format UnpackedFloat)
open Float.Model.UnpackedFloat (Accuracy Sign packComponents roundWithAccuracy)

variable {x y : Float}

theorem Parts.neg_neg_eq (p : Parts) : p.neg.neg = p := by
  cases p with
  | nan => rfl
  | inf b => exact congrArg inf b.not_not
  | fin b m e => exact congrArg (fin · m e) b.not_not

theorem neg_neg_eq (x : Float) : - -x = x := by
  refine parts_inj ?_
  rw [parts_neg, parts_neg, Parts.neg_neg_eq]

theorem value_neg (x : Float) : value (-x) = -value x := by
  unfold value
  rw [parts_neg]
  cases parts x with
  | nan => exact neg_zero.symm
  | inf neg => exact neg_zero.symm
  | fin neg m e => cases neg <;> simp [Parts.neg]

theorem isFinite_neg (x : Float) : (-x).isFinite = x.isFinite := by
  rw [Bool.eq_iff_iff, isFinite_iff, isFinite_iff, parts_neg]
  constructor
  · rintro ⟨neg, m, e, h⟩
    exact ⟨!neg, m, e, by rw [← Parts.neg_neg_eq (parts x), h, Parts.neg]⟩
  · rintro ⟨neg, m, e, h⟩
    exact ⟨!neg, m, e, by rw [h, Parts.neg]⟩

theorem Same.neg (h : Same x y) : Same (-x) (-y) := by
  rcases h with rfl | ⟨hx, hy⟩
  · exact .refl _
  · have hzero {z : Float} (hz : z = 0.0 ∨ z = -0.0) : -z = 0.0 ∨ -z = -0.0 := by
      rcases hz with rfl | rfl
      · exact .inr rfl
      · exact .inl (neg_neg_eq _)
    exact .inr ⟨hzero hx, hzero hy⟩

theorem same_neg_iff : Same (-x) (-y) ↔ Same x y := by
  refine ⟨fun h => ?_, Same.neg⟩
  have h' := h.neg
  rwa [neg_neg_eq, neg_neg_eq] at h'

/-- A finite double or its negation is not negative. -/
theorem nonneg_or_neg (h : x.isFinite = true) : Nonneg x ∨ Nonneg (-x) := by
  obtain ⟨neg, m, e, hx⟩ := (isFinite_iff x).1 h
  cases neg with
  | false => exact .inl (nonneg_of_parts hx)
  | true => exact .inr (nonneg_of_parts (by rw [parts_neg, hx]; rfl))

/-! ### Products and quotients -/

theorem ofWord_packComponents_neg (s : Sign) (E : BitVec 11) (m : BitVec 52) :
    Parts.ofWord (packComponents .binary64 (-s) E m).toNat =
      (Parts.ofWord (packComponents .binary64 s E m).toNat).neg := by
  obtain ⟨neg, rfl⟩ := exists_signOf s
  rw [neg_signOf, toNat_packComponents, toNat_packComponents, toNat_toBitVec_signOf,
    toNat_toBitVec_signOf, Nat.add_assoc, Nat.add_assoc, Parts.ofWord_fields _ E.isLt m.isLt,
    Parts.ofWord_fields _ E.isLt m.isLt]
  split
  · split <;> rfl
  · split <;> rfl

theorem neg_ofModel_pack (u : UnpackedFloat) :
    -(Float.ofModel (.pack u)) = .ofModel (.pack u.neg) := by
  refine parts_inj ?_
  rw [parts_neg]
  show (Parts.ofWord (UnpackedFloat.pack .binary64 u).toNat).neg =
    Parts.ofWord (UnpackedFloat.pack .binary64 u.neg).toNat
  cases u with
  | notANumber => rfl
  | infinity s => exact (ofWord_packComponents_neg s _ _).symm
  | zero s => exact (ofWord_packComponents_neg s _ _).symm
  | finite s m e hm =>
    simp only [UnpackedFloat.neg, UnpackedFloat.pack]
    split
    · exact (ofWord_packComponents_neg s _ _).symm
    · split <;> exact (ofWord_packComponents_neg s _ _).symm

theorem roundWithAccuracy_neg (s : Sign) (m : Nat) (e : Int) (acc : Accuracy) :
    roundWithAccuracy .binary64 (-s) m e acc = (roundWithAccuracy .binary64 s m e acc).neg := by
  unfold roundWithAccuracy
  simp only []
  split <;> rfl

theorem sign_neg_mul (s t : Sign) : -s * t = -(s * t) := by
  cases s <;> cases t <;> rfl

theorem sign_neg_div (s t : Sign) : -s / t = -(s / t) := by
  cases s <;> cases t <;> rfl

theorem unpacked_neg_mul (u v : UnpackedFloat) :
    UnpackedFloat.mul .binary64 u.neg v = (UnpackedFloat.mul .binary64 u v).neg := by
  cases u <;> cases v <;>
    simp only [UnpackedFloat.neg, UnpackedFloat.mul, sign_neg_mul, roundWithAccuracy_neg]

theorem unpacked_neg_div (u v : UnpackedFloat) :
    UnpackedFloat.div .binary64 u.neg v = (UnpackedFloat.div .binary64 u v).neg := by
  cases u <;> cases v <;>
    simp only [UnpackedFloat.neg, UnpackedFloat.div, sign_neg_div, roundWithAccuracy_neg]

theorem neg_mul_eq (x y : Float) : -x * y = -(x * y) := by
  show Float.ofModel (.pack (UnpackedFloat.mul .binary64 (-x).toModel.unpack y.toModel.unpack)) =
    -(Float.ofModel (.pack (UnpackedFloat.mul .binary64 x.toModel.unpack y.toModel.unpack)))
  rw [unpack_neg, unpacked_neg_mul, neg_ofModel_pack]

theorem neg_div_eq (x y : Float) : -x / y = -(x / y) := by
  show Float.ofModel (.pack (UnpackedFloat.div .binary64 (-x).toModel.unpack y.toModel.unpack)) =
    -(Float.ofModel (.pack (UnpackedFloat.div .binary64 x.toModel.unpack y.toModel.unpack)))
  rw [unpack_neg, unpacked_neg_div, neg_ofModel_pack]

/-! ### Whole numbers -/

theorem ofRatio_not (neg : Bool) (num den : Nat) :
    ofRatio (!neg) num den = -ofRatio neg num den := by
  cases neg with
  | false => exact ofRatio_true num den
  | true => rw [ofRatio_true, neg_neg_eq]; rfl

theorem mapWhole_neg {f g : Bool → Nat → Int → Nat} (h : ∀ neg m e, f (!neg) m e = g neg m e)
    (x : Float) : mapWhole f (-x) = -mapWhole g x := by
  unfold mapWhole
  rw [parts_neg]
  cases parts x with
  | nan => rfl
  | inf neg => rfl
  | fin neg m e =>
    show ofRatio (!neg) (f (!neg) m e) 1 = -ofRatio neg (g neg m e) 1
    rw [h, ofRatio_not]

theorem ceil_neg (x : Float) : ceil (-x) = -floor x :=
  mapWhole_neg (fun neg _ _ => by cases neg <;> rfl) x

theorem floor_neg (x : Float) : floor (-x) = -ceil x :=
  mapWhole_neg (fun neg _ _ => by cases neg <;> rfl) x

theorem round_neg (x : Float) : round (-x) = -round x :=
  mapWhole_neg (fun _ _ _ => rfl) x

end FlowTree.Binary64
