set_option autoImplicit false

/-!
# Sorted maps

Maps from texts that keep their keys in ascending order, so that equal contents have one form. Texts
are ordered by code points, which is the order of their UTF-8 bytes.
-/
namespace GeneratorKit

/-- Entries with strictly ascending keys. -/
structure SortedMap (α : Type) where
  entries : List (String × α)
  sorted : entries.Pairwise (·.1 < ·.1)

namespace SortedMap

variable {α : Type}

/-- Puts a value in its place among ascending keys; one under the same key is replaced. -/
def place (k : String) (v : α) : List (String × α) → List (String × α)
  | [] => [(k, v)]
  | (j, w) :: rest =>
    if k < j then (k, v) :: (j, w) :: rest
    else if k = j then (k, v) :: rest
    else (j, w) :: place k v rest

theorem mem_place {k : String} {v : α} {es : List (String × α)} {e : String × α}
    (h : e ∈ place k v es) : e = (k, v) ∨ e ∈ es := by
  induction es with
  | nil => simp_all [place]
  | cons f es ih =>
    obtain ⟨j, w⟩ := f
    rw [place] at h
    split at h
    · exact List.mem_cons.1 h
    · split at h
      · exact (List.mem_cons.1 h).imp_right (List.mem_cons_of_mem _)
      · rcases List.mem_cons.1 h with rfl | h
        · exact .inr List.mem_cons_self
        · exact (ih h).imp_right (List.mem_cons_of_mem _)

theorem sorted_place (k : String) (v : α) {es : List (String × α)}
    (h : es.Pairwise (·.1 < ·.1)) : (place k v es).Pairwise (·.1 < ·.1) := by
  induction es with
  | nil => simp [place]
  | cons e es ih =>
    obtain ⟨j, w⟩ := e
    have ⟨hj, hs⟩ := List.pairwise_cons.1 h
    rw [place]
    split
    · next hk =>
      refine List.pairwise_cons.2 ⟨fun e he => ?_, h⟩
      rcases List.mem_cons.1 he with rfl | he
      · exact hk
      · exact String.lt_trans hk (hj e he)
    · next hk =>
      split
      · next hj' =>
        subst hj'
        exact List.pairwise_cons.2 ⟨hj, hs⟩
      · next hne =>
        refine List.pairwise_cons.2 ⟨fun e he => ?_, ih hs⟩
        rcases mem_place he with rfl | he
        · exact Std.lt_of_le_of_ne (String.not_lt.1 hk) fun e => hne e.symm
        · exact hj e he

def empty : SortedMap α := ⟨[], .nil⟩

def insert (m : SortedMap α) (k : String) (v : α) : SortedMap α :=
  ⟨place k v m.entries, sorted_place k v m.sorted⟩

/-- The map of a list of pairs, in which a later value for a key wins. -/
def ofList (pairs : List (String × α)) : SortedMap α :=
  pairs.foldl (fun m (k, v) => m.insert k v) empty

theorem eq_of_entries {m n : SortedMap α} (h : m.entries = n.entries) : m = n := by
  cases m
  cases h
  rfl

theorem place_append {k : String} (v : α) {es : List (String × α)} (h : ∀ e ∈ es, e.1 < k) :
    place k v es = es ++ [(k, v)] := by
  induction es with
  | nil => rfl
  | cons e es ih =>
    have he : e.1 < k := h e List.mem_cons_self
    rw [place, if_neg (String.lt_asymm he), if_neg (String.ne_of_lt he).symm,
      ih fun f hf => h f (List.mem_cons_of_mem e hf)]
    rfl

/-- A map is the map of its entries. -/
theorem ofList_entries (m : SortedMap α) : ofList m.entries = m := by
  suffices h : ∀ (es : List (String × α)) (n : SortedMap α), (n.entries ++ es).Pairwise (·.1 < ·.1) →
      (es.foldl (fun m (k, v) => m.insert k v) n).entries = n.entries ++ es from
    eq_of_entries (h m.entries empty m.sorted)
  intro es
  induction es with
  | nil => exact fun n _ => (List.append_nil n.entries).symm
  | cons e es ih =>
    intro n h
    have hplace : (n.insert e.1 e.2).entries = n.entries ++ [e] :=
      place_append e.2 fun f hf => (List.pairwise_append.1 h).2.2 f hf e List.mem_cons_self
    rw [List.foldl_cons, ih _ (by rw [hplace, List.append_assoc]; exact h), hplace, List.append_assoc]
    rfl

/-- The value under a key. -/
def get? (m : SortedMap α) (k : String) : Option α := m.entries.lookup k

theorem lookup_cons_ite (k : String) (v : α) (j : String) (es : List (String × α)) :
    ((k, v) :: es).lookup j = if j = k then some v else es.lookup j := by
  rw [List.lookup_cons]
  by_cases hj : j = k
  · rw [if_pos hj, beq_iff_eq.2 hj]
  · rw [if_neg hj, beq_eq_false_iff_ne.2 hj]

theorem lookup_place (k : String) (v : α) (j : String) (es : List (String × α)) :
    (place k v es).lookup j = if j = k then some v else es.lookup j := by
  induction es with
  | nil => exact lookup_cons_ite k v j []
  | cons e es ih =>
    obtain ⟨i, w⟩ := e
    rw [place]
    split
    · exact lookup_cons_ite k v j _
    · split
      · next hk => rw [lookup_cons_ite, lookup_cons_ite, hk]; split <;> rfl
      · next hk =>
        rw [lookup_cons_ite, lookup_cons_ite, ih]
        by_cases hi : j = i
        · have hne : ¬ j = k := fun he => hk (he.symm.trans hi)
          rw [if_pos hi, if_neg hne, if_pos hi]
        · rw [if_neg hi, if_neg hi]

theorem get?_insert (m : SortedMap α) (k : String) (v : α) (j : String) :
    (m.insert k v).get? j = if j = k then some v else m.get? j :=
  lookup_place k v j m.entries

theorem nodup_entries (m : SortedMap α) : m.entries.Nodup :=
  List.Pairwise.imp (fun h he => String.ne_of_lt h (congrArg Prod.fst he)) m.sorted

theorem get?_eq_some_iff {m : SortedMap α} {k : String} {v : α} : m.get? k = some v ↔ (k, v) ∈ m.entries := by
  rw [get?, List.lookup_eq_some_iff]
  constructor
  · rintro ⟨before, after, hm, _⟩
    exact hm ▸ List.mem_append_right before List.mem_cons_self
  · intro h
    obtain ⟨before, after, hm⟩ := List.append_of_mem h
    refine ⟨before, after, hm, fun e he => ?_⟩
    have hlt : e.1 < k := (List.pairwise_append.1 (hm ▸ m.sorted)).2.2 e he (k, v) List.mem_cons_self
    exact bne_iff_ne.2 (String.ne_of_lt hlt).symm

/-- Maps with the same values are the same, in whatever order the values came in. -/
theorem ext_get? {m n : SortedMap α} (h : ∀ k, m.get? k = n.get? k) : m = n := by
  have hperm : m.entries.Perm n.entries := by
    rw [List.perm_ext_iff_of_nodup m.nodup_entries n.nodup_entries]
    rintro ⟨k, v⟩
    rw [← get?_eq_some_iff, ← get?_eq_some_iff, h k]
  have hantisymm (e f : String × α) (_ : e ∈ m.entries) (_ : f ∈ n.entries) (hef : e.1 < f.1)
      (hfe : f.1 < e.1) : e = f := absurd hfe (String.lt_asymm hef)
  exact eq_of_entries (hperm.eq_of_pairwise hantisymm m.sorted n.sorted)

instance [BEq α] : BEq (SortedMap α) := ⟨fun a b => a.entries == b.entries⟩

end SortedMap

end GeneratorKit
