import GeneratorKit.Diagnostics.Bag
import GeneratorKit.Proofs.Diagnostics.Equality
import Mathlib.Data.List.DropRight
import Mathlib.Data.List.Perm.Subperm
import Mathlib.Order.Bounds.Defs

set_option autoImplicit false

/-!
# Histories of a bag

What a bag holds and answers, in terms of the records that were added since it was last reported
(`collects_replay`). It does not matter how they came in: one by one, many at once, or when the bag was made.
-/
namespace GeneratorKit.Diagnostics.Bag

inductive Event where
  | push (r : Record)
  | extend (rs : List Record)
  | report (sink : List Notice)

namespace Event

def added : Event → List Record
  | .push r => [r]
  | .extend rs => rs
  | .report _ => []

def reports : Event → Bool
  | .report _ => true
  | .push _ | .extend _ => false

end Event

def apply (b : Bag) : Event → Bag
  | .push r => (b.push r).2
  | .extend rs => b.extend rs
  | .report sink => (b.report sink).1

def replay (b : Bag) (es : List Event) : Bag := es.foldl apply b

/-- The records that were added since the last report, or from the start on if there was none. -/
def since (start : List Record) (es : List Event) : List Record :=
  (if es.any Event.reports then [] else start) ++ (es.rtakeWhile (!·.reports)).flatMap Event.added

/-- The records that are not equal to an earlier one, in their order. -/
def firstSeen (rs : List Record) : List Record :=
  (rs.zipIdx.filter fun p => !(rs.take p.2).any (· == p.1)).map (·.1)

theorem firstSeen_concat (rs : List Record) (r : Record) :
    firstSeen (rs ++ [r]) = firstSeen rs ++ if rs.any (· == r) then [] else [r] := by
  have hold : ∀ p ∈ rs.zipIdx, (rs ++ [r]).take p.2 = rs.take p.2 := by
    intro p hp
    have hi := (List.mem_zipIdx hp).2.1
    exact List.take_append_of_le_length (by omega)
  rw [firstSeen, List.zipIdx_append, List.filter_append, List.map_append, firstSeen]
  congr 1
  · rw [List.filter_congr fun p hp => by rw [hold p hp]]
  · cases h : rs.any (· == r) <;> simp [h]

theorem firstSeen_subset (rs : List Record) : firstSeen rs ⊆ rs := by
  intro r hr
  obtain ⟨p, hp, rfl⟩ := List.mem_map.1 hr
  exact List.fst_mem_of_mem_zipIdx (List.mem_filter.1 hp).1

/-- What equal records have in common, one of all records has if one of the first ones has it. -/
theorem any_firstSeen {P : Record → Bool} (hP : ∀ a b : Record, a == b → P a = P b)
    (rs : List Record) : (firstSeen rs).any P = rs.any P := by
  induction rs using List.reverseRecOn with
  | nil => rfl
  | append_singleton rs r ih =>
    rw [firstSeen_concat, List.any_append, List.any_append, ih]
    cases hr : rs.any (· == r) with
    | false => rfl
    | true =>
      obtain ⟨a, ha, he⟩ := List.any_eq_true.1 hr
      cases hp : P r with
      | false => simp [hp]
      | true =>
        have hany : rs.any P = true := List.any_eq_true.2 ⟨a, ha, (hP a r he).trans hp⟩
        simp [hany]

theorem any_beq_firstSeen (rs : List Record) (r : Record) :
    (firstSeen rs).any (· == r) = rs.any (· == r) :=
  any_firstSeen (fun _ _ h => BEq.congr_left h) rs

theorem isError_congr {a b : Record} (h : a == b) : a.isError = b.isError := by
  have hd : a.descriptor == b.descriptor := (Bool.and_eq_true_iff.1 h).1
  rw [Record.isError, Record.severity, eq_of_beq hd]
  rfl

/-- Records of which no two are equal are no more than others that have an equal one for each. -/
theorem length_le_of_unequal {us ks : List Record} (hu : us.Pairwise fun a b => (a == b) = false)
    (hk : ∀ u ∈ us, ks.any (· == u) = true) : us.length ≤ ks.length := by
  -- each record stands for the first one among the others that is equal to it
  let stand (u : Record) : Option Record := ks.find? (· == u)
  have hstand : ∀ u ∈ us, ∃ k, stand u = some k ∧ k ∈ ks ∧ k == u := by
    intro u hm
    obtain ⟨k, hs⟩ := Option.isSome_iff_exists.1 (List.find?_isSome.2 (List.any_eq_true.1 (hk u hm)))
    exact ⟨k, hs, List.mem_of_find?_eq_some hs, by simpa using List.find?_some hs⟩
  have hnodup : (us.map stand).Nodup := by
    refine List.pairwise_map.2 (hu.imp_of_mem fun {u v} hum hvm huv he => ?_)
    obtain ⟨k, hs, _, hku⟩ := hstand u hum
    obtain ⟨l, ht, _, hlv⟩ := hstand v hvm
    obtain rfl : k = l := by simpa [hs, ht] using he
    rw [BEq.trans (BEq.symm hku) hlv] at huv
    cases huv
  have hsub : us.map stand ⊆ ks.map some := by
    intro o ho
    obtain ⟨u, hum, rfl⟩ := List.mem_map.1 ho
    obtain ⟨k, hs, hm, _⟩ := hstand u hum
    rw [hs]
    exact List.mem_map_of_mem hm
  simpa using (hnodup.subperm hsub).length_le

theorem ext_records {a b : Bag} (h : a.records = b.records) : a = b := by
  cases a
  cases b
  cases h
  rfl

theorem push_fst (b : Bag) (r : Record) : (b.push r).1 = !b.contains r := by
  unfold push
  split <;> simp_all

theorem push_records (b : Bag) (r : Record) :
    (b.push r).2.records = b.records ++ if b.contains r then [] else [r] := by
  unfold push
  split <;> simp_all

theorem push_fst_iff (b : Bag) (r : Record) :
    (b.push r).1 = true ↔ ∀ a ∈ b.records, (a == r) = false := by
  rw [push_fst, contains, Bool.not_eq_true', List.any_eq_false]
  simp only [Bool.not_eq_true]

theorem push_firstSeen {b : Bag} {rs : List Record} (h : b.records = firstSeen rs) (r : Record) :
    (b.push r).2.records = firstSeen (rs ++ [r]) := by
  rw [push_records, firstSeen_concat, contains, h, any_beq_firstSeen]

theorem extend_firstSeen {b : Bag} {rs : List Record} (h : b.records = firstSeen rs)
    (added : List Record) : (b.extend added).records = firstSeen (rs ++ added) := by
  induction added generalizing b rs with
  | nil => rw [List.append_nil, ← h, extend, List.foldl_nil]
  | cons r added ih =>
    have hr := ih (push_firstSeen h r)
    rw [List.append_assoc, List.singleton_append] at hr
    exact hr

theorem ofList_records (rs : List Record) : (ofList rs).records = firstSeen rs := by
  have hempty : empty.records = firstSeen [] := rfl
  exact extend_firstSeen hempty rs

theorem since_concat (start : List Record) (es : List Event) (e : Event) :
    since start (es ++ [e]) = if e.reports then [] else since start es ++ e.added := by
  cases he : e.reports <;>
    simp [since, List.any_append, he]

theorem apply_firstSeen {b : Bag} {rs : List Record} (h : b.records = firstSeen rs) (e : Event) :
    (b.apply e).records = firstSeen (if e.reports then [] else rs ++ e.added) := by
  cases e with
  | push r => exact push_firstSeen h r
  | extend added => exact extend_firstSeen h added
  | report sink => rfl

theorem replay_records (start : List Record) (es : List Event) :
    ((ofList start).replay es).records = firstSeen (since start es) := by
  induction es using List.reverseRecOn with
  | nil => simpa [replay, since] using ofList_records start
  | append_singleton es e ih =>
    rw [since_concat, replay, List.foldl_concat]
    exact apply_firstSeen ih e

/-- What a bag is and answers when these records were added since it was last empty. -/
structure Collects (added : List Record) (b : Bag) : Prop where
  records : b.records = firstSeen added
  collected : b = ofList added
  push (r : Record) : (b.push r).1 = true ↔ ∀ a ∈ b.records, (a == r) = false
  size : IsGreatest {n | ∃ us ⊆ added, us.Pairwise (fun a b => (a == b) = false) ∧ us.length = n} b.size
  errors : b.hasErrors = true ↔ ∃ r ∈ added, r.severity = .error
  report (sink : List Notice) : b.report sink = (empty, sink ++ (firstSeen added).map Notice.of)
  again (sink : List Notice) (r : Record) : ((b.report sink).1.push r).1 = true

theorem collects_of_records {added : List Record} {b : Bag} (h : b.records = firstSeen added) :
    Collects added b where
  records := h
  collected := ext_records (h.trans (ofList_records added).symm)
  push := push_fst_iff b
  size := by
    refine ⟨⟨b.records, h ▸ firstSeen_subset added, b.distinct, rfl⟩, ?_⟩
    rintro n ⟨us, hsub, hu, rfl⟩
    refine length_le_of_unequal hu fun u hm => ?_
    rw [h, any_beq_firstSeen]
    exact List.any_eq_true.2 ⟨u, hsub hm, BEq.rfl⟩
  errors := by
    rw [hasErrors, h, any_firstSeen (fun _ _ => isError_congr), List.any_eq_true]
    simp only [Record.isError, Severity.isError, decide_eq_true_eq]
  report sink := by rw [Bag.report, h]
  again sink r := rfl

/-- Whatever was added and reported before, a bag is the set of the records added since the last report, each
with the first of its equals, in the order in which these came. -/
theorem collects_replay (start : List Record) (es : List Event) :
    Collects (since start es) ((ofList start).replay es) :=
  collects_of_records (replay_records start es)

/-- Of two spellings of a path the first is kept; after a report the second is as good as the first. -/
example :
    let moved (path : String) : Record := (Record.make (.make "G1" "t" "m" "Usage" .warning)).atLocation
      ⟨⟨path⟩, ⟨3, 4⟩, ⟨⟨0, 3⟩, ⟨0, 7⟩⟩⟩
    let paths (b : Bag) := b.records.map fun r => r.location.map (·.path.text)
    let es : List Event := [.push (moved "src/a"), .extend [moved "src/b", moved "src//a/."]]
    paths ((ofList []).replay es) = [some "src/a", some "src/b"] ∧
      paths ((ofList []).replay (es ++ [.report [], .push (moved "src//a/.")])) = [some "src//a/."] := by
  decide +kernel

end GeneratorKit.Diagnostics.Bag
