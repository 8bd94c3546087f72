import Mathlib.Data.String.Basic
import FlowTree.Json.Basic

/-!
# Entries of objects

The entries of an object are in the strict order of their keys. So they are told by what they bind
(`Ordered.ext`), and to merge is to have the later binding of a key win, one merge after the other
in whatever way they are grouped (`merge_assoc`).
-/

namespace FlowTree

namespace Fields
variable {k : String} {v : Json} {fs fs' fs'' : Fields}

/-- The keys increase. -/
def Ordered (fs : Fields) : Prop :=
  fs.Pairwise fun b c => b.1 < c.1

theorem ordered_nil : Ordered [] :=
  .nil

theorem Ordered.tail {b : String × Json} (h : Ordered (b :: fs)) : fs.Ordered :=
  h.of_cons

theorem Ordered.lt_of_mem {b c : String × Json} (h : Ordered (b :: fs)) (hc : c ∈ fs) :
    b.1 < c.1 :=
  List.rel_of_pairwise_cons h hc

theorem key_of_mem_insert {b : String × Json} (hb : b ∈ insert k v fs) : b = (k, v) ∨ b ∈ fs := by
  induction fs with
  | nil => exact .inl (List.mem_singleton.1 hb)
  | cons c fs ih =>
    obtain ⟨l, w⟩ := c
    rw [insert] at hb
    split at hb
    · rcases List.mem_cons.1 hb with rfl | hb
      · exact .inl rfl
      · exact .inr (List.mem_cons_of_mem _ hb)
    · split at hb
      · exact List.mem_cons.1 hb
      · rcases List.mem_cons.1 hb with rfl | hb
        · exact .inr List.mem_cons_self
        · exact (ih hb).imp_right (List.mem_cons_of_mem _)

theorem Ordered.insert (h : fs.Ordered) (k : String) (v : Json) : (insert k v fs).Ordered := by
  induction fs with
  | nil => exact List.pairwise_singleton _ _
  | cons c fs ih =>
    obtain ⟨l, w⟩ := c
    rw [Fields.insert]
    split
    · rename_i heq
      subst heq
      exact List.pairwise_cons.2 ⟨fun b hb => h.lt_of_mem hb, h.tail⟩
    · rename_i hne
      split
      · rename_i hlt
        refine List.pairwise_cons.2 ⟨fun b hb => ?_, h⟩
        rcases List.mem_cons.1 hb with rfl | hb
        · exact hlt
        · exact hlt.trans (h.lt_of_mem hb)
      · rename_i hle
        have hlt : l < k := lt_of_le_of_ne (not_lt.1 hle) (Ne.symm hne)
        refine List.pairwise_cons.2 ⟨fun b hb => ?_, ih h.tail⟩
        rcases key_of_mem_insert hb with rfl | hb
        · exact hlt
        · exact h.lt_of_mem hb

theorem Ordered.merge (h : fs.Ordered) (fs' : Fields) : (merge fs fs').Ordered := by
  induction fs' generalizing fs with
  | nil => exact h
  | cons b fs' ih => exact ih (h.insert b.1 b.2)

/-! ### Bindings -/

theorem get?_cons (b : String × Json) (fs : Fields) (k : String) :
    get? k (b :: fs) = if k = b.1 then some b.2 else get? k fs := by
  obtain ⟨l, w⟩ := b
  by_cases hk : k = l
  · simp [get?, hk]
  · have hb : (k == l) = false := by simpa using hk
    simp [get?, List.lookup_cons, hb, hk]

theorem get?_eq_none_iff : get? k fs = none ↔ k ∉ fs.map Prod.fst := by
  simp only [get?, List.lookup_eq_none_iff, bne_iff_ne, List.mem_map, not_exists, not_and]
  exact forall₂_congr fun _ _ => ne_comm

theorem mem_of_get? (h : get? k fs = some v) : (k, v) ∈ fs := by
  induction fs with
  | nil => cases h
  | cons b fs ih =>
    rw [get?_cons] at h
    split at h
    · rename_i hk
      obtain rfl := Option.some.inj h
      exact hk ▸ List.mem_cons_self
    · exact List.mem_cons_of_mem b (ih h)

theorem Ordered.nodup_keys (h : fs.Ordered) : (fs.map Prod.fst).Nodup :=
  List.pairwise_map.2 (h.imp fun hlt => hlt.ne)

/-- Where a key is bound only once, what it is bound to does not depend on where. -/
theorem get?_eq_some_iff_mem (h : (fs.map Prod.fst).Nodup) : get? k fs = some v ↔ (k, v) ∈ fs := by
  refine ⟨mem_of_get?, fun hmem => ?_⟩
  induction fs with
  | nil => cases hmem
  | cons b fs ih =>
    obtain ⟨hb, hnodup⟩ := List.nodup_cons.1 h
    rw [get?_cons]
    rcases List.mem_cons.1 hmem with rfl | hmem
    · exact if_pos rfl
    · have hne : k ≠ b.1 := fun heq => hb (heq ▸ List.mem_map_of_mem hmem)
      rw [if_neg hne]
      exact ih hnodup hmem

theorem Ordered.get?_of_mem (h : fs.Ordered) (hmem : (k, v) ∈ fs) : get? k fs = some v :=
  (get?_eq_some_iff_mem h.nodup_keys).2 hmem

theorem get?_of_perm (h : fs.Perm fs') (hnodup : (fs.map Prod.fst).Nodup) (k : String) :
    get? k fs = get? k fs' := by
  refine Option.ext fun v => ?_
  rw [get?_eq_some_iff_mem hnodup, get?_eq_some_iff_mem ((h.map Prod.fst).nodup hnodup), h.mem_iff]

/-- Entries in order are told by what they bind. -/
theorem Ordered.ext (h : fs.Ordered) (h' : fs'.Ordered) (heq : ∀ k, get? k fs = get? k fs') :
    fs = fs' := by
  have hmem (b : String × Json) : b ∈ fs ↔ b ∈ fs' := by
    constructor
    · intro hb
      exact mem_of_get? ((heq b.1).symm.trans (h.get?_of_mem hb))
    · intro hb
      exact mem_of_get? ((heq b.1).trans (h'.get?_of_mem hb))
  have hnodup : fs.Nodup := h.imp fun hlt heq => hlt.ne (congrArg Prod.fst heq)
  have hnodup' : fs'.Nodup := h'.imp fun hlt heq => hlt.ne (congrArg Prod.fst heq)
  have hperm : fs.Perm fs' := (List.perm_ext_iff_of_nodup hnodup hnodup').2 hmem
  exact hperm.eq_of_pairwise (fun _ _ _ _ hlt hgt => absurd hgt hlt.not_gt) h h'

theorem get?_merge_of_nodup (h' : (fs'.map Prod.fst).Nodup) (fs : Fields) (k : String) :
    get? k (merge fs fs') = (get? k fs').or (get? k fs) := by
  induction fs' generalizing fs with
  | nil => rfl
  | cons b fs' ih =>
    obtain ⟨hb, hnodup⟩ := List.nodup_cons.1 h'
    show get? k (merge (insert b.1 b.2 fs) fs') = _
    rw [ih hnodup, get?_cons]
    split
    · rename_i hk
      subst hk
      rw [get?_eq_none_iff.2 hb, get?_insert_self]
      rfl
    · rename_i hk
      rw [get?_insert_of_ne hk]

/-- Of two bindings of a key the later one wins. -/
theorem get?_merge (h' : fs'.Ordered) (fs : Fields) (k : String) :
    get? k (merge fs fs') = (get? k fs').or (get? k fs) :=
  get?_merge_of_nodup h'.nodup_keys fs k

theorem merge_nil (h : fs.Ordered) : merge [] fs = fs := by
  refine (ordered_nil.merge fs).ext h fun k => ?_
  rw [get?_merge h]
  exact Option.or_none

theorem merge_assoc (h : fs.Ordered) (h' : fs'.Ordered) (h'' : fs''.Ordered) :
    merge (merge fs fs') fs'' = merge fs (merge fs' fs'') := by
  refine ((h.merge fs').merge fs'').ext (h.merge _) fun k => ?_
  rw [get?_merge h'', get?_merge h', get?_merge (h'.merge fs''), get?_merge h'', Option.or_assoc]

end Fields

end FlowTree
