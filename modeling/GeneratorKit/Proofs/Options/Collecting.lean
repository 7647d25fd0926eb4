import GeneratorKit.Options.Basic
import Mathlib.Data.List.Perm.Subperm

set_option autoImplicit false

/-!
# Collecting options

Options are collected from pairs and further pairs inserted one by one. What comes of it is settled by the pairs in
their order: the last value for each key, at the place where the key was first met (`collected_gathers`). Equality
forgets the places, so it holds exactly where all lookups agree (`OrderedMap.beq_iff_get?`), and equal options give
the same answers to every reader.
-/
namespace GeneratorKit

namespace OrderedMap

variable {κ α : Type}

theorem nodup_entries (m : OrderedMap κ α) : m.entries.Nodup :=
  List.Pairwise.of_map _ (fun _ _ hne he => hne (congrArg Prod.fst he)) m.nodup

variable [DecidableEq κ]

theorem find?_eq_some_iff {k : κ} {v : α} {es : List (κ × α)} (h : (es.map Prod.fst).Nodup) :
    find? k es = some v ↔ (k, v) ∈ es := by
  refine ⟨fun hf => ?_, fun he => find?_mem (e := (k, v)) h he⟩
  induction es with
  | nil => cases hf
  | cons e es ih =>
    obtain ⟨j, w⟩ := e
    by_cases hj : j = k
    · obtain rfl : w = v := by simpa [find?, hj] using hf
      rw [hj]
      exact List.mem_cons_self
    · rw [find?, if_neg hj] at hf
      exact List.mem_cons_of_mem _ (ih (List.nodup_cons.1 h).2 hf)

theorem get?_eq_some_iff {m : OrderedMap κ α} {k : κ} {v : α} : m.get? k = some v ↔ (k, v) ∈ m.entries :=
  find?_eq_some_iff m.nodup

/-- Maps are equal when their entries are, in whatever order. -/
theorem beq_iff_perm [DecidableEq α] (a b : OrderedMap κ α) :
    (a == b) = true ↔ a.entries.Perm b.entries := by
  have hall : (a.entries.all fun e => b.get? e.1 == some e.2) = true ↔ a.entries ⊆ b.entries := by
    simp only [List.all_eq_true, beq_iff_eq, List.subset_def]
    exact forall₂_congr fun e _ => get?_eq_some_iff
  change (a.size == b.size && a.entries.all fun e => b.get? e.1 == some e.2) = true ↔ _
  rw [Bool.and_eq_true, beq_iff_eq, hall]
  constructor
  · rintro ⟨hsize, hsub⟩
    -- as many entries as the other, none of them twice and all of them there
    exact (List.subperm_of_subset a.nodup_entries hsub).perm_of_length_le (Nat.le_of_eq hsize.symm)
  · exact fun hp => ⟨hp.length_eq, hp.subset⟩

/-- Maps are equal when they hold the same value under every key. -/
theorem beq_iff_get? [DecidableEq α] (a b : OrderedMap κ α) :
    (a == b) = true ↔ ∀ k, a.get? k = b.get? k := by
  rw [beq_iff_perm, List.perm_ext_iff_of_nodup a.nodup_entries b.nodup_entries]
  constructor
  · intro h k
    refine Option.ext fun v => ?_
    rw [get?_eq_some_iff, get?_eq_some_iff]
    exact h (k, v)
  · rintro h ⟨k, v⟩
    rw [← get?_eq_some_iff, ← get?_eq_some_iff, h k]

theorem entries_eq (m : OrderedMap κ α) :
    m.entries.map (fun e => (e.1, some e.2)) = m.keys.map fun k => (k, m.get? k) := by
  rw [keys, List.map_map]
  exact List.map_congr_left fun e he => Prod.ext rfl (find?_mem m.nodup he).symm

theorem ofList_append (ps qs : List (κ × α)) :
    ofList (ps ++ qs) = qs.foldl (fun m (k, v) => m.insert k v) (ofList ps) := by
  rw [ofList, List.foldl_append]
  rfl

end OrderedMap

namespace Options

/-- The options of some pairs, with others inserted after that. -/
def collected (initial later : List (String × String)) : Options :=
  later.foldl (fun o (k, v) => o.insert k v) (OrderedMap.ofList initial)

/-- What options owe to the pairs that they come from. -/
structure Gathers (ps : List (String × String)) (o : Options) : Prop where
  /-- The last pair with a key has the say. -/
  raw (k : String) : o.raw k = (ps.findRev? (·.1 = k)).map (·.2)
  /-- The first pair with a key has given it its place. -/
  entries : o.entries.map (fun e => (e.1, some e.2)) =
    (ps.map Prod.fst).eraseDups.map fun k => (k, (ps.findRev? (·.1 = k)).map (·.2))
  size : o.size = (ps.map Prod.fst).eraseDups.length

theorem collected_eq (initial later : List (String × String)) :
    collected initial later = OrderedMap.ofList (initial ++ later) :=
  (OrderedMap.ofList_append initial later).symm

theorem gathers_ofList (ps : List (String × String)) : Gathers ps (OrderedMap.ofList ps) where
  raw := OrderedMap.get?_ofList ps
  entries := by
    rw [OrderedMap.entries_eq, OrderedMap.keys_ofList]
    exact List.map_congr_left fun k _ => by rw [OrderedMap.get?_ofList]
  size := by
    rw [← OrderedMap.keys_ofList, OrderedMap.keys, List.length_map]
    rfl

/-- Options that no question tells apart. -/
structure SameAnswers (o p : Options) : Prop where
  get {α : Type} (r : Reader α) (key : String) : get r o key = get r p key
  getOrDefault {α : Type} (r : Reader α) (key : String) : getOrDefault r o key = getOrDefault r p key
  getFlag (key : String) : getFlag o key = getFlag p key

theorem sameAnswers_of_raw {o p : Options} (h : ∀ k, o.raw k = p.raw k) : SameAnswers o p := by
  have hproperty (key : String) : o.property key = p.property key := h _
  have hget {α : Type} (r : Reader α) (key : String) : get r o key = get r p key := by
    rw [get, get, hproperty]
  exact ⟨hget, fun r key => by rw [getOrDefault, getOrDefault, hget], fun key => by
    rw [getFlag, getFlag, hproperty]⟩

/-- Collected options depend on the pairs in their order and on nothing else. Which of them are given from the start
does not matter, and for equality and for readers their order matters no more than it does for lookups. -/
theorem collected_gathers :
    (∀ initial later, Gathers (initial ++ later) (collected initial later)) ∧
      (∀ initial later initial' later', initial ++ later = initial' ++ later' →
        collected initial later = collected initial' later') ∧
      ∀ initial later initial' later', let o := collected initial later
        let p := collected initial' later'
        ((o == p) = true ↔ ∀ k, o.raw k = p.raw k) ∧ ((o == p) = true → SameAnswers o p) := by
  refine ⟨fun initial later => ?_, fun initial later initial' later' h => ?_,
    fun initial later initial' later' => ?_⟩
  · rw [collected_eq]
    exact gathers_ofList _
  · rw [collected_eq, collected_eq, h]
  · intro o p
    have hraw : (o == p) = true ↔ ∀ k, o.raw k = p.raw k := OrderedMap.beq_iff_get? o p
    exact ⟨hraw, fun h => sameAnswers_of_raw (hraw.1 h)⟩

-- A value is set once more, and the keys are first met in another order.
theorem collected_gathers_reordered :
    let initial := [("build_property.N", "1"), ("b", ""), ("build_property.N", " 2 ")]
    let o := collected initial []
    let p := collected [("b", "")] [("build_property.N", " 2 ")]
    collected initial [] = collected [("build_property.N", "1")] [("b", ""), ("build_property.N", " 2 ")] ∧
      o.entries = [("build_property.N", " 2 "), ("b", "")] ∧ o.entries ≠ p.entries ∧ (o == p) = true ∧
      get (.integer ⟨true, 32⟩) o "N" = .ok (some 2) ∧ get (.integer ⟨true, 32⟩) p "N" = .ok (some 2) := by
  intro initial o p
  have heq : (o == p) = true := by decide +kernel
  have hsplit := collected_gathers.2.1 initial [] [("build_property.N", "1")]
    [("b", ""), ("build_property.N", " 2 ")] rfl
  have hsame := (collected_gathers.2.2 initial [] [("b", "")] [("build_property.N", " 2 ")]).2 heq
  have hp : get (.integer ⟨true, 32⟩) p "N" = .ok (some 2) := by decide +kernel
  exact ⟨hsplit, by decide +kernel, by decide +kernel, heq, (hsame.get _ "N").trans hp, hp⟩

end Options

end GeneratorKit
