set_option autoImplicit false

/-!
# Ordered maps

Maps that keep their keys in the order in which they were first inserted. Inserting a key again
changes its value and not its place. Two maps are equal when they hold the same entries in any order.
-/
namespace GeneratorKit

/-- Entries with distinct keys, oldest key first. -/
@[ext] structure OrderedMap (κ α : Type) where
  entries : List (κ × α)
  nodup : (entries.map Prod.fst).Nodup

namespace OrderedMap

variable {κ α : Type} [DecidableEq κ]

def find? (k : κ) : List (κ × α) → Option α
  | [] => none
  | (j, v) :: rest => if j = k then some v else find? k rest

/-- Replaces the value under `k` where it stands, or adds it at the end. -/
def put (k : κ) (v : α) : List (κ × α) → List (κ × α)
  | [] => [(k, v)]
  | (j, w) :: rest => if j = k then (k, v) :: rest else (j, w) :: put k v rest

theorem keys_put (k : κ) (v : α) (es : List (κ × α)) :
    (put k v es).map Prod.fst =
      if k ∈ es.map Prod.fst then es.map Prod.fst else es.map Prod.fst ++ [k] := by
  induction es with
  | nil => simp [put]
  | cons e es ih =>
    obtain ⟨j, w⟩ := e
    by_cases h : j = k
    · simp [put, h]
    · have hk : ¬ k = j := fun e => h e.symm
      simp only [put, h, if_false, List.map_cons, ih, List.mem_cons, hk, false_or]
      split <;> rfl

theorem nodup_put (k : κ) (v : α) {es : List (κ × α)} (h : (es.map Prod.fst).Nodup) :
    ((put k v es).map Prod.fst).Nodup := by
  rw [keys_put]
  split
  · exact h
  · next hk =>
    refine List.nodup_append.2 ⟨h, by simp, ?_⟩
    rintro a ha b hb rfl
    exact hk (List.mem_singleton.1 hb ▸ ha)

theorem find?_put (k j : κ) (v : α) (es : List (κ × α)) :
    find? j (put k v es) = if k = j then some v else find? j es := by
  induction es with
  | nil => simp [put, find?]
  | cons e es ih =>
    obtain ⟨i, w⟩ := e
    by_cases h : i = k
    · subst h
      by_cases hj : i = j <;> simp [put, find?, hj]
    · by_cases hi : i = j
      · subst hi
        simp [put, find?, h, Ne.symm h]
      · simp [put, find?, h, hi, ih]

theorem put_put (k : κ) (v w : α) (es : List (κ × α)) : put k w (put k v es) = put k w es := by
  induction es with
  | nil => simp [put]
  | cons e es ih =>
    obtain ⟨j, u⟩ := e
    by_cases h : j = k <;> simp [put, h, ih]

theorem put_of_find? {k : κ} {v : α} {es : List (κ × α)} (h : find? k es = some v) :
    put k v es = es := by
  induction es with
  | nil => cases h
  | cons e es ih =>
    obtain ⟨j, w⟩ := e
    by_cases hj : j = k
    · obtain rfl : w = v := by simpa [find?, hj] using h
      simp [put, hj]
    · rw [put, if_neg hj, ih (by simpa [find?, hj] using h)]

theorem find?_filter (keep : κ → Bool) (j : κ) (es : List (κ × α)) :
    find? j (es.filter (keep ·.1)) = if keep j then find? j es else none := by
  induction es with
  | nil => simp [find?]
  | cons e es ih =>
    obtain ⟨i, v⟩ := e
    by_cases hj : i = j
    · subst hj
      cases hk : keep i <;> simp_all [find?]
    · cases hk : keep i <;> simp_all [find?]

theorem find?_eq_none_of_not_mem {k : κ} {es : List (κ × α)} (h : k ∉ es.map Prod.fst) :
    find? k es = none := by
  induction es with
  | nil => rfl
  | cons e es ih =>
    obtain ⟨hk, hes⟩ := not_or.1 (mt List.mem_cons.2 h)
    rw [find?, if_neg (Ne.symm hk), ih hes]

def sum (f : α → Nat) : List (κ × α) → Nat
  | [] => 0
  | (_, v) :: rest => f v + sum f rest

theorem sum_put (f : α → Nat) (k : κ) (v : α) (es : List (κ × α)) :
    sum f (put k v es) + ((find? k es).map f).getD 0 = sum f es + f v := by
  induction es with
  | nil => simp [put, find?, sum]
  | cons e es ih =>
    obtain ⟨j, w⟩ := e
    by_cases h : j = k
    · simp only [put, find?, h, if_true, sum, Option.map_some, Option.getD_some]
      omega
    · simp only [put, find?, h, if_false, sum]
      omega

theorem sum_filter (f : α → Nat) (k : κ) {es : List (κ × α)} (h : (es.map Prod.fst).Nodup) :
    sum f (es.filter (·.1 ≠ k)) + ((find? k es).map f).getD 0 = sum f es := by
  induction es with
  | nil => simp [find?, sum]
  | cons e es ih =>
    obtain ⟨j, w⟩ := e
    obtain ⟨hj, hes⟩ := List.nodup_cons.1 h
    have he := ih hes
    by_cases hk : j = k
    · subst hk
      rw [find?_eq_none_of_not_mem hj] at he
      simp_all [find?, sum]
      omega
    · simp_all [find?, sum]
      omega

def empty : OrderedMap κ α := ⟨[], List.nodup_nil⟩

instance : Inhabited (OrderedMap κ α) := ⟨empty⟩

def insert (m : OrderedMap κ α) (k : κ) (v : α) : OrderedMap κ α :=
  ⟨put k v m.entries, nodup_put k v m.nodup⟩

def get? (m : OrderedMap κ α) (k : κ) : Option α := find? k m.entries

def keys (m : OrderedMap κ α) : List κ := m.entries.map Prod.fst

def values (m : OrderedMap κ α) : List α := m.entries.map Prod.snd

def size (m : OrderedMap κ α) : Nat := m.entries.length

def isEmpty (m : OrderedMap κ α) : Bool := m.entries.isEmpty

/-- The entries whose keys are kept; their order does not change. -/
def filterKeys (m : OrderedMap κ α) (keep : κ → Bool) : OrderedMap κ α :=
  ⟨m.entries.filter (keep ·.1), m.nodup.sublist (List.filter_sublist.map _)⟩

def erase (m : OrderedMap κ α) (k : κ) : OrderedMap κ α := m.filterKeys (· ≠ k)

/-- The map of a list of pairs, in which a later value for a key wins. -/
def ofList (pairs : List (κ × α)) : OrderedMap κ α :=
  pairs.foldl (fun m (k, v) => m.insert k v) empty

theorem get?_insert (m : OrderedMap κ α) (k j : κ) (v : α) :
    (m.insert k v).get? j = if k = j then some v else m.get? j :=
  find?_put k j v m.entries

theorem get?_filterKeys (m : OrderedMap κ α) (keep : κ → Bool) (k : κ) :
    (m.filterKeys keep).get? k = if keep k then m.get? k else none :=
  find?_filter keep k m.entries

theorem get?_erase (m : OrderedMap κ α) (k j : κ) :
    (m.erase k).get? j = if k = j then none else m.get? j := by
  rw [erase, get?_filterKeys]
  by_cases h : k = j
  · simp [h]
  · simp [h, Ne.symm h]

theorem insert_insert (m : OrderedMap κ α) (k : κ) (v w : α) :
    (m.insert k v).insert k w = m.insert k w :=
  OrderedMap.ext (put_put k v w m.entries)

theorem insert_of_get? {m : OrderedMap κ α} {k : κ} {v : α} (h : m.get? k = some v) :
    m.insert k v = m :=
  OrderedMap.ext (put_of_find? h)

def total (m : OrderedMap κ α) (f : α → Nat) : Nat := sum f m.entries

theorem total_insert (m : OrderedMap κ α) (f : α → Nat) (k : κ) (v : α) :
    (m.insert k v).total f + ((m.get? k).map f).getD 0 = m.total f + f v :=
  sum_put f k v m.entries

theorem total_erase (m : OrderedMap κ α) (f : α → Nat) (k : κ) :
    (m.erase k).total f + ((m.get? k).map f).getD 0 = m.total f :=
  sum_filter f k m.nodup

theorem total_eq_zero {m : OrderedMap κ α} (h : ∀ k, m.get? k = none) (f : α → Nat) :
    m.total f = 0 := by
  obtain ⟨es, hes⟩ := m
  cases es with
  | nil => rfl
  | cons e es => simpa [get?, find?] using h e.1

theorem keys_insert (m : OrderedMap κ α) (k : κ) (v : α) :
    (m.insert k v).keys = if k ∈ m.keys then m.keys else m.keys ++ [k] :=
  keys_put k v m.entries

theorem isSome_get? (m : OrderedMap κ α) (k : κ) : (m.get? k).isSome = true ↔ k ∈ m.keys := by
  rw [get?, keys]
  induction m.entries with
  | nil => simp [find?]
  | cons e es ih =>
    obtain ⟨j, v⟩ := e
    by_cases h : j = k
    · simp [find?, h]
    · simp [find?, h, Ne.symm h, ih]

theorem find?_mem {e : κ × α} {es : List (κ × α)} (h : (es.map Prod.fst).Nodup) (he : e ∈ es) :
    find? e.1 es = some e.2 := by
  induction es with
  | nil => cases he
  | cons f es ih =>
    obtain ⟨hf, hes⟩ := List.nodup_cons.1 h
    rcases List.mem_cons.1 he with rfl | he
    · simp [find?]
    · have hne : f.1 ≠ e.1 := fun heq => hf (heq ▸ List.mem_map_of_mem he)
      rw [find?, if_neg hne, ih hes he]

/-- The values stand in the order of their keys. -/
theorem map_get?_keys (m : OrderedMap κ α) : m.keys.map m.get? = m.values.map some := by
  rw [keys, values, List.map_map, List.map_map]
  exact List.map_congr_left fun e he => find?_mem m.nodup he

theorem ofList_concat (ps : List (κ × α)) (p : κ × α) : ofList (ps ++ [p]) = (ofList ps).insert p.1 p.2 := by
  rw [ofList, List.foldl_append]
  rfl

/-- A map of pairs holds the last value for each key. -/
theorem get?_ofList (ps : List (κ × α)) (k : κ) : (ofList ps).get? k = (ps.findRev? (·.1 = k)).map (·.2) := by
  suffices h : ∀ qs : List (κ × α), (ofList qs.reverse).get? k = (qs.reverse.findRev? (·.1 = k)).map (·.2) by
    simpa using h ps.reverse
  intro qs
  induction qs with
  | nil => rfl
  | cons q qs ih =>
    rw [List.reverse_cons, ofList_concat, get?_insert, ih]
    by_cases h : q.1 = k <;> simp [h]

theorem eraseDups_concat (ks : List κ) (k : κ) :
    (ks ++ [k]).eraseDups = if k ∈ ks then ks.eraseDups else ks.eraseDups ++ [k] := by
  rw [List.eraseDups_append]
  by_cases h : k ∈ ks
  · simp [List.removeAll, h]
  · simp [List.removeAll, h, List.eraseDups_cons]

/-- A map of pairs has its keys in the order in which they first occur. -/
theorem keys_ofList (ps : List (κ × α)) : (ofList ps).keys = (ps.map Prod.fst).eraseDups := by
  suffices h : ∀ qs : List (κ × α), (ofList qs.reverse).keys = (qs.reverse.map Prod.fst).eraseDups by
    simpa using h ps.reverse
  intro qs
  induction qs with
  | nil => rfl
  | cons q qs ih =>
    rw [List.reverse_cons, ofList_concat, keys_insert, ih, List.map_append, List.map_cons, List.map_nil,
      eraseDups_concat]
    simp only [List.mem_eraseDups]

theorem put_of_not_mem {k : κ} {es : List (κ × α)} (h : k ∉ es.map Prod.fst) (v : α) :
    put k v es = es ++ [(k, v)] := by
  induction es with
  | nil => rfl
  | cons e es ih =>
    obtain ⟨hk, hes⟩ := not_or.1 (mt List.mem_cons.2 h)
    rw [put, if_neg (Ne.symm hk), ih hes, List.cons_append]

/-- A map of pairs with distinct keys holds them as they stand. -/
theorem entries_ofList {ps : List (κ × α)} (h : (ps.map Prod.fst).Nodup) : (ofList ps).entries = ps := by
  suffices hm : ∀ (qs : List (κ × α)) (m : OrderedMap κ α), ((m.entries ++ qs).map Prod.fst).Nodup →
      (qs.foldl (fun m (k, v) => m.insert k v) m).entries = m.entries ++ qs from hm ps empty h
  intro qs
  induction qs with
  | nil => exact fun m _ => (List.append_nil _).symm
  | cons q qs ih =>
    intro m hq
    have hk : q.1 ∉ m.entries.map Prod.fst := by
      rw [List.map_append, List.map_cons] at hq
      exact fun hm => (List.nodup_append.1 hq).2.2 _ hm _ List.mem_cons_self rfl
    have he : (m.insert q.1 q.2).entries = m.entries ++ [q] := put_of_not_mem hk q.2
    have happ : (m.insert q.1 q.2).entries ++ qs = m.entries ++ q :: qs := by
      rw [he, List.append_assoc, List.singleton_append]
    rw [List.foldl_cons, ih _ (happ ▸ hq), happ]

/-- Same size and the same value under every key. -/
instance [DecidableEq α] : BEq (OrderedMap κ α) :=
  ⟨fun a b => a.size == b.size && a.entries.all fun (k, v) => b.get? k == some v⟩

end OrderedMap

end GeneratorKit
