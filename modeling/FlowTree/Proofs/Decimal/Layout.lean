import FlowTree.Decimal.Layout
import FlowTree.Proofs.Decimal.Numeral

/-!
# Written doubles are read back

The shortest digits of a double are found by reading numerals, or else are all of its digits, so
that they are read as the double (`toFloat_shortest`). A layout moves the point and adds zeros and
an exponent, but the numeral that is read from its text has the value of the one that was written.
So whatever the layout, the text of a double is read as this double (`readFloat?_write`).
-/

namespace FlowTree.Decimal
open Binary64

/-! ### Digits -/

theorem isDigit_of_mem_toDigits {n : Nat} {c : Char} (h : c ∈ Nat.toDigits 10 n) :
    isDigit c = true := by
  have hdigit := Nat.isDigit_of_mem_toDigits (by decide) (by decide) h
  simp only [Char.isDigit, Bool.and_eq_true, decide_eq_true_eq, ge_iff_le,
    UInt32.le_iff_toNat_le] at hdigit
  simp only [isDigit, Bool.and_eq_true, decide_eq_true_eq]
  exact hdigit

theorem ofDigits_toDigits (n : Nat) : ofDigits (Nat.toDigits 10 n) = n :=
  Nat.ofDigitChars_ten_toDigits

theorem ofDigits_append (cs ds : List Char) :
    ofDigits (cs ++ ds) = 10 ^ ds.length * ofDigits cs + ofDigits ds := by
  show Nat.ofDigitChars 10 (cs ++ ds) 0 = _
  rw [Nat.ofDigitChars_append, Nat.ofDigitChars_eq_ofDigitChars_zero]
  rfl

theorem ofDigits_zeros (k : Nat) : ofDigits (List.replicate k '0') = 0 := by
  show Nat.ofDigitChars 10 (List.replicate k '0') 0 = 0
  rw [Nat.ofDigitChars_replicate_zero, Nat.mul_zero]

theorem ofDigits_append_zeros (ds : List Char) (k : Nat) :
    ofDigits (ds ++ List.replicate k '0') = 10 ^ k * ofDigits ds := by
  rw [ofDigits_append, ofDigits_zeros, List.length_replicate, Nat.add_zero]

theorem ofDigits_zeros_append (k : Nat) (ds : List Char) :
    ofDigits (List.replicate k '0' ++ ds) = ofDigits ds := by
  rw [ofDigits_append, ofDigits_zeros, Nat.mul_zero, Nat.zero_add]

theorem isDigit_of_mem_zeros {k : Nat} {c : Char} (h : c ∈ List.replicate k '0') :
    isDigit c = true := by
  rw [List.eq_of_mem_replicate h]
  rfl

/-! ### Reading numerals -/

/-- Behind a sign, the text is read as a numeral with this value. -/
def Writes (neg : Bool) (cs : List Char) (q : ℚ) : Prop :=
  ∃ n, readUnsigned? neg cs = some n ∧ n.neg = neg ∧ n.value = q

section
variable {rest : List Char} {e : Int}

/-- After the digits of a numeral there is its exponent or nothing. -/
theorem cases_of_readExponent? (h : readExponent? rest = some e) :
    rest = [] ∨ ∃ c cs, rest = c :: cs ∧ (c = 'e' ∨ c = 'E') := by
  cases rest with
  | nil => exact .inl rfl
  | cons c cs =>
    refine .inr ⟨c, cs, rfl, ?_⟩
    by_contra hc
    rw [readExponent?, if_neg hc] at h
    cases h

theorem takeWhile_of_readExponent? (h : readExponent? rest = some e) :
    rest.takeWhile isDigit = [] ∧ rest.dropWhile isDigit = rest ∧
      splitFraction rest = ([], rest) := by
  rcases cases_of_readExponent? h with rfl | ⟨c, cs, rfl, rfl | rfl⟩
  · exact ⟨rfl, rfl, rfl⟩
  · exact ⟨rfl, rfl, rfl⟩
  · exact ⟨rfl, rfl, rfl⟩

theorem writes_whole (neg : Bool) (whole : List Char) (hwhole : ∀ c ∈ whole, isDigit c = true) (hne : whole ≠ [])
    (h : readExponent? rest = some e) :
    Writes neg (whole ++ rest) (ofDigits whole * 10 ^ e) := by
  obtain ⟨htake, hdrop, hsplit⟩ := takeWhile_of_readExponent? h
  refine ⟨⟨neg, ofDigits whole, e⟩, ?_, rfl, rfl⟩
  unfold readUnsigned?
  rw [List.takeWhile_append_of_pos hwhole, List.dropWhile_append_of_pos hwhole, htake, hdrop,
    hsplit]
  simp [hne, h]

theorem writes_fraction (neg : Bool) (whole fraction : List Char)
    (hwhole : ∀ c ∈ whole, isDigit c = true) (hne : whole ≠ [])
    (hfraction : ∀ c ∈ fraction, isDigit c = true) (h : readExponent? rest = some e) :
    Writes neg (whole ++ '.' :: (fraction ++ rest))
      (ofDigits (whole ++ fraction) * 10 ^ (e - fraction.length)) := by
  obtain ⟨htake, hdrop, -⟩ := takeWhile_of_readExponent? h
  have hpoint : isDigit '.' = false := rfl
  have hsplit : splitFraction ('.' :: (fraction ++ rest)) = (fraction, rest) := by
    rw [splitFraction, List.takeWhile_append_of_pos hfraction,
      List.dropWhile_append_of_pos hfraction, htake, hdrop, List.append_nil]
  refine ⟨⟨neg, ofDigits (whole ++ fraction), e - fraction.length⟩, ?_, rfl, rfl⟩
  unfold readUnsigned?
  rw [List.takeWhile_append_of_pos hwhole, List.dropWhile_append_of_pos hwhole,
    List.takeWhile_cons, List.dropWhile_cons, hpoint]
  simp [hne, h, hsplit]

end

/-- A numeral starts with a digit or a point. -/
theorem exists_head_of_readUnsigned? {neg : Bool} {cs : List Char} {n : Numeral}
    (h : readUnsigned? neg cs = some n) : ∃ c ds, cs = c :: ds ∧ (isDigit c = true ∨ c = '.') := by
  cases cs with
  | nil => cases h
  | cons c ds =>
    refine ⟨c, ds, rfl, ?_⟩
    by_contra hc
    obtain ⟨hdigit, hpoint⟩ := not_or.1 hc
    have hsplit : splitFraction (c :: ds) = ([], c :: ds) := by
      unfold splitFraction
      split
      · rename_i heq
        exact absurd (List.cons.inj heq).1 hpoint
      · rfl
    rw [Bool.not_eq_true] at hdigit
    simp [readUnsigned?, hdigit, hsplit] at h

/-- What follows the sign of a numeral is neither a sign nor a name. -/
theorem readFloat?_of_readUnsigned? {neg : Bool} {cs : List Char} {n : Numeral}
    (h : readUnsigned? neg cs = some n) :
    readFloat? (if neg then '-' :: cs else cs) = some n.toFloat := by
  obtain ⟨c, ds, rfl, hc⟩ := exists_head_of_readUnsigned? h
  -- in the order of characters, digits and the point lie between the signs and the letters
  have hrange : 46 ≤ c.toNat ∧ c.toNat ≤ 57 := by
    rcases hc with hc | rfl
    · simp only [isDigit, Bool.and_eq_true, decide_eq_true_eq] at hc
      omega
    · decide
  have hsplit : splitSign (if neg then '-' :: c :: ds else c :: ds) = (neg, c :: ds) := by
    cases neg with
    | true => rfl
    | false =>
      have hsign (s : Char) (hs : s.toNat < 46) : c ≠ s := by
        rintro rfl
        omega
      rw [if_neg Bool.false_ne_true]
      unfold splitSign
      split
      · rename_i heq
        exact absurd (List.cons.inj heq).1 (hsign '-' (by decide))
      · rename_i heq
        exact absurd (List.cons.inj heq).1 (hsign '+' (by decide))
      · rfl
  have hname (k : Char) (ks : List Char) (hk : 57 < k.toNat) :
      String.ofList ((c :: ds).map Char.toLower) ≠ String.ofList (k :: ks) := by
    intro heq
    have hhead := (List.cons.inj (String.ofList_injective heq)).1
    have hlower : c.toLower = c := by
      unfold Char.toLower
      rw [dif_neg]
      rintro ⟨hupper, -⟩
      have : 65 ≤ c.toNat := UInt32.le_iff_toNat_le.1 hupper
      omega
    rw [hlower] at hhead
    rw [← hhead] at hk
    omega
  unfold readFloat?
  simp only [hsplit]
  rw [if_neg, if_neg, h, Option.map_some]
  · exact hname 'n' ['a', 'n'] (by decide)
  · exact not_or.2 ⟨hname 'i' ['n', 'f'] (by decide),
      hname 'i' ['n', 'f', 'i', 'n', 'i', 't', 'y'] (by decide)⟩

/-! ### The forms of a text -/

section
variable {neg : Bool} {ds : List Char}

/-- Below one, zeros stand between the point and the digits. -/
theorem writes_of_lt_one (hds : ∀ c ∈ ds, isDigit c = true) {k : Int} (hk : k < 0) :
    Writes neg ('0' :: '.' :: (List.replicate (-k - 1).toNat '0' ++ ds))
      (ofDigits ds * 10 ^ (k + 1 - ds.length)) := by
  obtain ⟨z, hz⟩ : ∃ z, (-k - 1).toNat = z := ⟨_, rfl⟩
  have hend : readExponent? [] = some 0 := rfl
  have hwrites := writes_fraction neg (List.replicate 1 '0') (List.replicate z '0' ++ ds)
    (fun _ => isDigit_of_mem_zeros) (by simp)
    (fun c hc => (List.mem_append.1 hc).elim isDigit_of_mem_zeros (hds c)) hend
  rw [List.append_nil, ofDigits_zeros_append, ofDigits_zeros_append, List.length_append,
    List.length_replicate] at hwrites
  have hexp : (0 : Int) - ((z + ds.length : Nat) : Int) = k + 1 - ds.length := by omega
  rw [hz, ← hexp]
  exact hwrites

/-- From one on, the point comes among the digits or behind zeros. -/
theorem writes_of_one_le (pointAlways : Bool) (hds : ∀ c ∈ ds, isDigit c = true) (hne : ds ≠ [])
    (w : Nat) (hw : 0 < w) :
    Writes neg
      (let whole := ds.take w ++ List.replicate (w - ds.length) '0'
      if ds.drop w ≠ [] then whole ++ '.' :: ds.drop w
      else if pointAlways then whole ++ ['.', '0']
      else whole) (ofDigits ds * 10 ^ ((w : Int) - ds.length)) := by
  have hwhole : ∀ c ∈ ds.take w ++ List.replicate (w - ds.length) '0', isDigit c = true :=
    fun c hc => (List.mem_append.1 hc).elim (fun hc => hds c (List.mem_of_mem_take hc))
      isDigit_of_mem_zeros
  have hwhole_ne : ds.take w ++ List.replicate (w - ds.length) '0' ≠ [] := by
    simp [hne, hw.ne']
  have hend : readExponent? [] = some 0 := rfl
  simp only []
  split
  · -- the point is among the digits, and no zeros are needed
    rename_i hfraction
    rw [ne_eq, List.drop_eq_nil_iff] at hfraction
    have hwrites := writes_fraction neg _ (ds.drop w) hwhole hwhole_ne
      (fun c hc => hds c (List.mem_of_mem_drop hc)) hend
    have hzeros : w - ds.length = 0 := by omega
    have hexp : (0 : Int) - ((ds.length - w : Nat) : Int) = w - ds.length := by omega
    rw [hzeros, List.replicate_zero, List.append_nil, List.append_nil, List.take_append_drop,
      List.length_drop, hexp] at hwrites
    rw [hzeros, List.replicate_zero, List.append_nil]
    exact hwrites
  · rename_i hfraction
    rw [ne_eq, not_not, List.drop_eq_nil_iff] at hfraction
    have hvalue : ((ofDigits (ds.take w ++ List.replicate (w - ds.length) '0') : Nat) : ℚ) =
        ofDigits ds * 10 ^ ((w : Int) - ds.length) := by
      rw [List.take_of_length_le hfraction, ofDigits_append_zeros, Nat.cast_mul, mul_comm,
        Nat.cast_pow, Nat.cast_ofNat, ← zpow_natCast, Nat.cast_sub hfraction]
    split
    · have hwrites := writes_fraction neg _ (List.replicate 1 '0') hwhole hwhole_ne
        (fun _ => isDigit_of_mem_zeros) hend
      have hone :
          ((10 ^ 1 : Nat) : ℚ) * (10 : ℚ) ^ ((0 : Int) - (List.replicate 1 '0').length) = 1 := by
        norm_num
      rw [ofDigits_append_zeros, Nat.cast_mul, hvalue, mul_right_comm, hone, one_mul] at hwrites
      exact hwrites
    · have hwrites := writes_whole neg _ hwhole hwhole_ne hend
      rw [List.append_nil, hvalue, zpow_zero, mul_one] at hwrites
      exact hwrites

theorem writes_positionalText (pointAlways : Bool) (hds : ∀ c ∈ ds, isDigit c = true)
    (hne : ds ≠ []) (k : Int) :
    Writes neg (positionalText pointAlways ds k) (ofDigits ds * 10 ^ (k + 1 - ds.length)) := by
  unfold positionalText
  split
  · rename_i hk
    exact writes_of_lt_one hds hk
  · rename_i hk
    have hplaces : k + 1 = ((k.toNat + 1 : Nat) : Int) := by omega
    rw [hplaces]
    exact writes_of_one_le pointAlways hds hne (k.toNat + 1) (Nat.succ_pos _)

theorem readExponent?_written (k : Int) :
    readExponent? ('e' :: (if k < 0 then '-' else '+') :: Nat.toDigits 10 k.natAbs) = some k := by
  have hdigits : (Nat.toDigits 10 k.natAbs).all isDigit = true :=
    List.all_eq_true.2 fun c => isDigit_of_mem_toDigits
  have hread : Nat.toDigits 10 k.natAbs ≠ [] ∧ (Nat.toDigits 10 k.natAbs).all isDigit = true :=
    ⟨Nat.toDigits_ne_nil, hdigits⟩
  have hminus (ds : List Char) : splitSign ('-' :: ds) = (true, ds) := rfl
  have hplus (ds : List Char) : splitSign ('+' :: ds) = (false, ds) := rfl
  rw [readExponent?, if_pos (.inl rfl)]
  by_cases hk : k < 0
  · simp only [if_pos hk, hminus, if_pos hread, ofDigits_toDigits, if_true, Option.some.injEq]
    omega
  · simp only [if_neg hk, hplus, if_pos hread, ofDigits_toDigits, Bool.false_eq_true, if_false,
      Option.some.injEq]
    omega

theorem writes_exponentText (hds : ∀ c ∈ ds, isDigit c = true) (hne : ds ≠ []) (k : Int) :
    Writes neg (exponentText ds k) (ofDigits ds * 10 ^ (k + 1 - ds.length)) := by
  have hend := readExponent?_written k
  unfold exponentText
  cases ds with
  | nil => exact absurd rfl hne
  | cons d more =>
    cases more with
    | nil =>
      have hwrites := writes_whole neg [d] hds hne hend
      have hexp : k + 1 - (([d] : List Char).length : Int) = k := by simp
      rw [hexp]
      exact hwrites
    | cons d' more =>
      have hwrites := writes_fraction neg [d] (d' :: more)
        (fun c hc => hds c (List.mem_append_left (d' :: more) hc)) (List.cons_ne_nil _ _)
        (fun c hc => hds c (List.mem_cons_of_mem d hc)) hend
      have hexp : k + 1 - ((d :: d' :: more).length : Int) = k - (d' :: more).length := by
        simp only [List.length_cons]
        omega
      rw [hexp]
      exact hwrites

end

/-! ### Integers -/

theorem toList_toString (n : Int) :
    (toString n).toList =
      if decide (n < 0) then '-' :: Nat.toDigits 10 n.natAbs else Nat.toDigits 10 n.natAbs := by
  cases n with
  | ofNat n =>
    have hnot : ¬Int.ofNat n < 0 := Int.not_lt.2 (Int.natCast_nonneg n)
    rw [decide_eq_false hnot, if_neg Bool.false_ne_true]
    exact Nat.toList_repr
  | negSucc n =>
    rw [decide_eq_true (Int.negSucc_lt_zero n), if_pos rfl]
    show ("-" ++ (n + 1).repr).toList = _
    rw [String.toList_append, Nat.toList_repr]
    rfl

/-- The text of an integer is read as the double nearest to it. -/
theorem readFloat?_toString (n : Int) : readFloat? (toString n).toList = some (ofInt n) := by
  have hdigits : ∀ c ∈ Nat.toDigits 10 n.natAbs, isDigit c = true :=
    fun c => isDigit_of_mem_toDigits
  have hend : readExponent? [] = some 0 := rfl
  obtain ⟨n', hread, hneg, hvalue⟩ :=
    writes_whole (decide (n < 0)) _ hdigits Nat.toDigits_ne_nil hend
  rw [List.append_nil] at hread
  rw [toList_toString, readFloat?_of_readUnsigned? hread, ofInt, ← Numeral.toFloat_whole]
  refine congrArg some (Numeral.toFloat_congr hneg ?_)
  rw [hvalue, ofDigits_toDigits, Numeral.value]

/-! ### The shortest digits -/

theorem value_stripZeros (digits : Nat) (exp : Int) :
    ((stripZeros digits exp).1 : ℚ) * 10 ^ (stripZeros digits exp).2 = digits * 10 ^ exp := by
  induction digits, exp using stripZeros.induct with
  | case1 digits exp h ih =>
    rw [stripZeros, dif_pos h, ih, zpow_add_one₀ (by norm_num)]
    have hdigits : ((digits / 10 : Nat) : ℚ) * 10 = digits := by
      exact_mod_cast (by omega : digits / 10 * 10 = digits)
    rw [mul_comm ((10 : ℚ) ^ exp), ← mul_assoc, hdigits]
  | case2 digits exp h => rw [stripZeros, dif_neg h]

theorem value_expansion (m : Nat) (e : Int) : (expansion m e).value = m * 2 ^ e := by
  unfold expansion
  split
  · obtain ⟨k, rfl⟩ : ∃ k : Nat, e = k := ⟨e.toNat, by omega⟩
    rw [Numeral.value, Nat.shiftLeft_eq, Int.toNat_natCast, zpow_natCast]
    push_cast
    ring
  · obtain ⟨k, rfl⟩ : ∃ k : Nat, e = -k := ⟨(-e).toNat, by omega⟩
    have hten : (10 : ℚ) ^ k = 5 ^ k * 2 ^ k := by rw [← mul_pow]; norm_num
    rw [Numeral.value, neg_neg, Int.toNat_natCast, zpow_neg, zpow_neg, zpow_natCast, zpow_natCast,
      hten, Nat.pow_eq]
    push_cast
    field_simp

theorem neg_expansion (m : Nat) (e : Int) : (expansion m e).neg = false := by
  unfold expansion
  split <;> rfl

section
variable {x : Float} {num den : Nat}

/-- What is found on a grid has been read. -/
theorem toFloat_of_onGrid? {k : Int} {n : Numeral} (h : onGrid? x num den k = some n) :
    n.neg = false ∧ n.toFloat = x := by
  have hhit {n : Numeral} (h : (n.toFloat.toBits == x.toBits) = true) : n.toFloat = x := by
    rw [← Float.ofBits_toBits n.toFloat, eq_of_beq h, Float.ofBits_toBits]
  unfold onGrid? at h
  simp only [] at h
  split at h
  · rename_i hlow
    cases h
    exact ⟨rfl, hhit (Bool.and_eq_true_iff.1 hlow).1⟩
  · split at h
    · rename_i hhigh
      cases h
      exact ⟨rfl, hhit hhigh⟩
    · cases h

theorem toFloat_of_searchGrids {place : Int} {tries : Nat} {n : Numeral}
    (h : searchGrids x num den place tries = some n) : n.neg = false ∧ n.toFloat = x := by
  induction tries generalizing place with
  | zero => cases h
  | succ tries ih =>
    rcases Option.or_eq_some_iff.1 h with hfound | ⟨-, hlater⟩
    · exact toFloat_of_onGrid? hfound
    · exact ih hlater

end

theorem neg_shortest (neg : Bool) (m : Nat) (e : Int) : (shortest neg m e).neg = neg := by
  unfold shortest
  split <;> rfl

/-- The shortest digits of a double are read as this double. -/
theorem toFloat_shortest {x : Float} {neg : Bool} {m : Nat} {e : Int}
    (hx : parts x = .fin neg m e) : (shortest neg m e).toFloat = x := by
  have hc : (Parts.fin neg m e).Canonical := hx ▸ canonical_parts x
  unfold shortest
  split
  · rename_i hm
    subst hm
    refine parts_inj ((Numeral.parts_toFloat hc ?_).trans hx.symm)
    simp [Numeral.value]
  · simp only []
    -- what is found is read as the double without its sign, and so is the expansion
    obtain ⟨found, hfound⟩ : ∃ found, (searchGrids (ofDyadic false m e) (inUnits m 1 (-e)).1
        (inUnits m 1 (-e)).2 (leadingPlace (inUnits m 1 (-e)).1 (inUnits m 1 (-e)).2) 17).getD
        (expansion m e) = found := ⟨_, rfl⟩
    rw [hfound]
    have hpositive : (Parts.fin false m e).Canonical := hc
    have hdyadic : parts (ofDyadic false m e) = .fin false m e := parts_ofDyadic hpositive
    have hread : found.neg = false ∧ found.toFloat = ofDyadic false m e := by
      rw [← hfound]
      cases hsearch : searchGrids (ofDyadic false m e) (inUnits m 1 (-e)).1 (inUnits m 1 (-e)).2
          (leadingPlace (inUnits m 1 (-e)).1 (inUnits m 1 (-e)).2) 17 with
      | some n => exact toFloat_of_searchGrids hsearch
      | none =>
        have hparts := Numeral.parts_toFloat (n := expansion m e) (m := m) (e := e)
          (by rw [neg_expansion]; exact hc) (value_expansion m e)
        rw [neg_expansion] at hparts
        exact ⟨neg_expansion m e, parts_inj (hparts.trans hdyadic.symm)⟩
    have hunsigned : (⟨false, (stripZeros found.digits found.exp).1,
        (stripZeros found.digits found.exp).2⟩ : Numeral).toFloat = ofDyadic false m e := by
      rw [← hread.2]
      exact Numeral.toFloat_congr hread.1.symm (value_stripZeros found.digits found.exp)
    refine parts_inj (Eq.trans ?_ hx.symm)
    cases neg with
    | false => rw [hunsigned, hdyadic]
    | true => rw [Numeral.toFloat_negative, parts_neg, hunsigned, hdyadic]; rfl

/-! ### Layouts -/

/-- The names of a layout are those that are read. -/
structure Layout.Readable (l : Layout) : Prop where
  nan : readFloat? l.nan.toList = some notANumber
  unbounded : ∀ neg : Bool,
    readFloat? (if neg then '-' :: l.infinity.toList else l.infinity.toList) =
      some (Binary64.infinity neg)

theorem Layout.readable_data : Layout.data.Readable :=
  ⟨rfl, fun neg => by cases neg <;> rfl⟩

/-- The text of a double is read as this double. -/
theorem readFloat?_write {l : Layout} (hl : l.Readable) (x : Float) :
    readFloat? (l.write x).toList = some x := by
  unfold Layout.write
  cases hx : parts x with
  | nan =>
    have hnan : x = notANumber := parts_inj (hx.trans (by decide +kernel))
    rw [hnan]
    exact hl.nan
  | inf neg =>
    have hinf : x = infinity neg := parts_inj (hx.trans (Numeral.parts_infinity neg).symm)
    simp only [String.toList_ofList]
    rw [hl.unbounded neg, hinf]
  | fin neg m e =>
    simp only [String.toList_ofList]
    obtain ⟨n, hn⟩ : ∃ n, shortest neg m e = n := ⟨_, rfl⟩
    obtain ⟨ds, hds⟩ : ∃ ds, Nat.toDigits 10 n.digits = ds := ⟨_, rfl⟩
    rw [hn, hds]
    have hdigits : ∀ c ∈ ds, isDigit c = true := fun c hc => isDigit_of_mem_toDigits (hds ▸ hc)
    have hne : ds ≠ [] := hds ▸ Nat.toDigits_ne_nil
    obtain ⟨k, hk⟩ : ∃ k : Int, n.exp + ds.length - 1 = k := ⟨_, rfl⟩
    have hvalue : (ofDigits ds : ℚ) * 10 ^ (k + 1 - ds.length) = n.value := by
      rw [← hds, ofDigits_toDigits, hds, Numeral.value]
      congr 2
      omega
    rw [hk]
    obtain ⟨n', hread, hneg, hvalue'⟩ : Writes neg (if l.positional k then
        positionalText l.pointAlways ds k else exponentText ds k) n.value := by
      rw [← hvalue]
      split
      · exact writes_positionalText l.pointAlways hdigits hne k
      · exact writes_exponentText hdigits hne k
    rw [readFloat?_of_readUnsigned? hread, ← toFloat_shortest hx, hn]
    refine congrArg some (Numeral.toFloat_congr ?_ hvalue')
    rw [hneg, ← hn, neg_shortest]

end FlowTree.Decimal
