import FlowTree.Proofs.Binary64.Whole

/-!
# Sums of doubles

A sum is a number unless one of its terms is none or the terms are infinities of different signs.
To subtract is to add the negated double.
-/

namespace FlowTree.Binary64
open Float.Model (Format UnpackedFloat)

/-! ### Results that are numbers -/

theorem exists_signOf (s : Float.Model.UnpackedFloat.Sign) : ∃ neg, s = signOf neg := by
  cases s with
  | positive => exact ⟨false, rfl⟩
  | negative => exact ⟨true, rfl⟩

theorem ofWord_packComponents_ne_nan (s : Float.Model.UnpackedFloat.Sign) {E : BitVec 11}
    {m : BitVec 52} (h : E.toNat = 2047 → m.toNat = 0) :
    Parts.ofWord (UnpackedFloat.packComponents .binary64 s E m).toNat ≠ .nan := by
  obtain ⟨neg, rfl⟩ := exists_signOf s
  rw [toNat_packComponents, toNat_toBitVec_signOf, Nat.add_assoc,
    Parts.ofWord_fields neg E.isLt m.isLt]
  split
  · rename_i hE
    rw [if_pos (h hE)]
    nofun
  · split <;> nofun

/-- Whatever is packed is a number unless it was none before. -/
theorem isNaN_pack {u : UnpackedFloat} (h : u ≠ .notANumber) :
    (Float.ofModel (.pack u)).isNaN = false := by
  refine isNaN_eq_false (p := Parts.ofWord (UnpackedFloat.pack .binary64 u).toNat) rfl ?_
  cases u with
  | notANumber => exact absurd rfl h
  | infinity s => exact ofWord_packComponents_ne_nan s fun _ => rfl
  | zero s => exact ofWord_packComponents_ne_nan s fun _ => rfl
  | finite s m e hm =>
    unfold UnpackedFloat.pack
    simp only []
    split
    · exact ofWord_packComponents_ne_nan s fun _ => rfl
    · rename_i hE
      have hlt : ¬2048 ≤ (e + Format.binary64.exponentBias +
          Format.binary64.mantissaBitsWithoutImplicit).toNat + 1 := hE
      split
      · refine ofWord_packComponents_ne_nan s fun h => ?_
        have hmod := BitVec.toNat_ofNat (e + Format.binary64.exponentBias +
          Format.binary64.mantissaBitsWithoutImplicit).toNat 11
        have : (e + Format.binary64.exponentBias +
          Format.binary64.mantissaBitsWithoutImplicit).toNat % 2 ^ 11 = 2047 := hmod.symm.trans h
        omega
      · exact ofWord_packComponents_ne_nan s nofun

theorem normalize_ne_notANumber (m e : Int) (s : Float.Model.UnpackedFloat.Sign) :
    UnpackedFloat.normalize .binary64 m e s ≠ .notANumber := by
  have hround : ∀ s' n, UnpackedFloat.round .binary64 s' n e ≠ .notANumber := by
    intro s' n
    unfold UnpackedFloat.round UnpackedFloat.roundWithAccuracy
    simp only []
    split <;> nofun
  unfold UnpackedFloat.normalize
  split
  · exact hround _ _
  · nofun
  · exact hround _ _

theorem isFinite_iff (x : Float) : x.isFinite = true ↔ ∃ neg m e, parts x = .fin neg m e := by
  show x.toModel.unpack.isFinite = true ↔ _
  rw [unpack_toModel]
  cases parts x with
  | nan => exact iff_of_false Bool.false_ne_true nofun
  | inf neg => exact iff_of_false Bool.false_ne_true nofun
  | fin neg m e =>
    refine iff_of_true ?_ ⟨neg, m, e, rfl⟩
    rcases Nat.eq_zero_or_pos m with rfl | hm
    · rfl
    · rw [Parts.unpacked_of_pos neg hm]
      rfl

theorem Same.isFinite_eq {x y : Float} (h : Same x y) : x.isFinite = y.isFinite := by
  rcases h with rfl | ⟨hx, hy⟩
  · rfl
  · obtain ⟨neg, hx⟩ := exists_parts_of_zero hx
    obtain ⟨neg', hy⟩ := exists_parts_of_zero hy
    rw [(isFinite_iff x).2 ⟨neg, _, _, hx⟩, (isFinite_iff y).2 ⟨neg', _, _, hy⟩]

/-- What lies between finite doubles is finite. -/
theorem isFinite_of_mem {lo hi x : Float} (hlo : lo.isFinite = true) (hhi : hi.isFinite = true)
    (hlox : lo ≤ x) (hxhi : x ≤ hi) : x.isFinite = true := by
  obtain ⟨neg, m, e, hlop⟩ := (isFinite_iff lo).1 hlo
  obtain ⟨neg', m', e', hhip⟩ := (isFinite_iff hi).1 hhi
  obtain ⟨hlon, hxn⟩ := isNaN_of_le hlox
  have hhin := (isNaN_of_le hxhi).2
  rw [le_iff hlon hxn, key, key, hlop] at hlox
  rw [le_iff hxn hhin, key, key, hhip] at hxhi
  cases hx : parts x with
  | nan => exact absurd hx (parts_ne_nan hxn)
  | inf neg'' =>
    rw [hx] at hlox hxhi
    cases neg'' with
    | false => exact absurd (Parts.key_fin_lt (hhip ▸ canonical_parts hi)).2 (Int.not_lt.2 hxhi)
    | true => exact absurd (Parts.key_fin_lt (hlop ▸ canonical_parts lo)).1 (Int.not_lt.2 hlox)
  | fin neg'' m'' e'' => exact (isFinite_iff x).2 ⟨neg'', m'', e'', hx⟩

theorem isNaN_add {x y : Float} (hx : x.isFinite = true) (hy : y.isNaN = false) :
    (x + y).isNaN = false := by
  obtain ⟨neg, m, e, hp⟩ := (isFinite_iff x).1 hx
  show (Float.ofModel (.pack (UnpackedFloat.add .binary64 x.toModel.unpack y.toModel.unpack))).isNaN
    = false
  apply isNaN_pack
  rw [unpack_toModel, unpack_toModel, hp]
  cases hq : parts y with
  | nan => exact absurd hq (parts_ne_nan hy)
  | inf neg' =>
    rcases Nat.eq_zero_or_pos m with rfl | hm
    · nofun
    · rw [Parts.unpacked_of_pos neg hm]
      nofun
  | fin neg' m' e' =>
    rcases Nat.eq_zero_or_pos m with rfl | hm <;> rcases Nat.eq_zero_or_pos m' with rfl | hm'
    · cases neg <;> cases neg' <;> nofun
    · rw [Parts.unpacked_of_pos neg' hm']
      nofun
    · rw [Parts.unpacked_of_pos neg hm]
      nofun
    · rw [Parts.unpacked_of_pos neg hm, Parts.unpacked_of_pos neg' hm']
      exact normalize_ne_notANumber _ _ _

theorem isNaN_add_of_isNaN {x y : Float} (h : x.isNaN = true ∨ y.isNaN = true) :
    (x + y).isNaN = true := by
  show (Float.ofModel (.pack (UnpackedFloat.add .binary64 x.toModel.unpack y.toModel.unpack))).isNaN
    = true
  have hadd : UnpackedFloat.add .binary64 x.toModel.unpack y.toModel.unpack = .notANumber := by
    rw [unpack_toModel, unpack_toModel]
    rcases h with h | h
    · rw [(isNaN_iff x).1 h]
      rfl
    · rw [(isNaN_iff y).1 h]
      cases (parts x).unpacked <;> rfl
  rw [hadd]
  decide +kernel

/-! ### Differences -/

/-- The same parts with the other sign. -/
def Parts.neg : Parts → Parts
  | .nan => .nan
  | .inf neg => .inf !neg
  | .fin neg m e => .fin (!neg) m e

theorem neg_signOf (neg : Bool) : -signOf neg = signOf !neg := by
  cases neg <;> rfl

theorem Parts.unpacked_neg (p : Parts) : p.neg.unpacked = p.unpacked.neg := by
  cases p with
  | nan => rfl
  | inf neg => cases neg <;> rfl
  | fin neg m e =>
    rcases Nat.eq_zero_or_pos m with rfl | hm
    · cases neg <;> rfl
    · rw [Parts.neg, unpacked_of_pos neg hm, unpacked_of_pos _ hm, UnpackedFloat.neg, neg_signOf]

theorem Parts.canonical_neg {p : Parts} (h : p.Canonical) : p.neg.Canonical := by
  cases p <;> exact h

theorem parts_neg (x : Float) : parts (-x) = (parts x).neg := by
  show parts (.ofModel (.pack x.toModel.unpack.neg)) = _
  rw [unpack_toModel, ← Parts.unpacked_neg, parts_pack (Parts.canonical_neg (canonical_parts x))]

theorem isNaN_neg (x : Float) : (-x).isNaN = x.isNaN := by
  rw [Bool.eq_iff_iff, isNaN_iff, isNaN_iff, parts_neg]
  cases parts x <;> simp [Parts.neg]

theorem unpack_neg (x : Float) : (-x).toModel.unpack = x.toModel.unpack.neg := by
  rw [unpack_toModel, parts_neg, Parts.unpacked_neg, ← unpack_toModel]

theorem add_neg_eq_sub (u v : UnpackedFloat) :
    UnpackedFloat.add .binary64 u v.neg = UnpackedFloat.sub .binary64 u v := by
  have happly : ∀ (s : Float.Model.UnpackedFloat.Sign) (n : Int), (-s).apply n = -s.apply n := by
    intro s n
    cases s
    · exact (Int.neg_neg n).symm
    · rfl
  cases u with
  | finite s m e hm =>
    cases v with
    | finite s' m' e' hm' =>
      simp only [UnpackedFloat.neg, UnpackedFloat.add, UnpackedFloat.sub, happly,
        Int.sub_eq_add_neg]
    | _ => rfl
  | _ => cases v <;> rfl

/-- To add the negated double is to subtract. -/
theorem add_neg (x y : Float) : x + -y = x - y := by
  show Float.ofModel (.pack (UnpackedFloat.add .binary64 x.toModel.unpack (-y).toModel.unpack)) =
    .ofModel (.pack (UnpackedFloat.sub .binary64 x.toModel.unpack y.toModel.unpack))
  rw [unpack_neg, add_neg_eq_sub]

end FlowTree.Binary64
