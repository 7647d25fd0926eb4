import GeneratorKit.Proofs.Diagnostics.BagHistory

set_option autoImplicit false

/-!
# Batches of outcomes

Outcomes come in batches. Each batch is taken apart into its values and its diagnostics, and these go into a bag that
is reported in the end. Whether a batch is split in one pass or looked through twice, and whether the batches come one
after the other or all at once, the same is gathered (`gathered_alike`).
-/
namespace GeneratorKit.Diagnostics

variable {α : Type}

/-- What has been gathered: the values, all diagnostics, and a bag that these were added to. -/
structure Harvest (α : Type) where
  values : List α
  diagnostics : List Record
  bag : Bag

namespace Harvest

def empty : Harvest α := ⟨[], [], .empty⟩

def add (h : Harvest α) (part : List α × List Record) : Harvest α :=
  ⟨h.values ++ part.1, h.diagnostics ++ part.2, h.bag.extend part.2⟩

/-- What is gathered from batches, each of which is taken apart on its own. -/
def gather (takeApart : List (Outcome α) → List α × List Record) (batches : List (List (Outcome α))) :
    Harvest α :=
  batches.foldl (fun h batch => h.add (takeApart batch)) empty

end Harvest

/-- The values and the diagnostics of a batch, each looked for by themselves. -/
def Outcome.views (batch : List (Outcome α)) : List α × List Record := (values batch, allDiagnostics batch)

theorem Bag.extend_append (b : Bag) (rs ss : List Record) : b.extend (rs ++ ss) = (b.extend rs).extend ss :=
  List.foldl_append

namespace Harvest

theorem add_add (h : Harvest α) (p q : List α × List Record) :
    (h.add p).add q = h.add (p.1 ++ q.1, p.2 ++ q.2) := by
  simp only [add, List.append_assoc, Bag.extend_append]

theorem add_nil (h : Harvest α) : h.add ([], []) = h := by
  simp only [add, List.append_nil]
  rfl

theorem views_append (batch rest : List (Outcome α)) : Outcome.views (batch ++ rest) =
    ((Outcome.views batch).1 ++ (Outcome.views rest).1, (Outcome.views batch).2 ++ (Outcome.views rest).2) := by
  simp only [Outcome.views, Outcome.values, Outcome.allDiagnostics, List.filterMap_append, List.flatMap_append]

theorem foldl_add_views (h : Harvest α) (batches : List (List (Outcome α))) :
    batches.foldl (fun h batch => h.add (Outcome.views batch)) h = h.add (Outcome.views batches.flatten) := by
  induction batches generalizing h with
  | nil => exact (add_nil h).symm
  | cons batch batches ih => rw [List.foldl_cons, ih, add_add, ← views_append, List.flatten_cons]

theorem gather_views (batches : List (List (Outcome α))) :
    gather Outcome.views batches = empty.add (Outcome.views batches.flatten) :=
  foldl_add_views empty batches

theorem split_eq_views : Outcome.split (α := α) = Outcome.views := funext Outcome.split_eq

structure Gathers (batches : List (List (Outcome α))) (h : Harvest α) : Prop where
  values : h.values.map some = (batches.flatten.map (·.value)).filter Option.isSome
  diagnostics : h.diagnostics = (batches.map fun batch => (batch.map (·.diagnostics)).flatten).flatten
  /-- The first of equal diagnostics is reported, and no other. -/
  report (sink : List Notice) : ∃ rs, h.bag.report sink = (.empty, sink ++ rs.map Notice.of) ∧
    rs = Bag.firstSeen h.diagnostics ∧ rs.Pairwise fun a b => (a == b) = false
  errors : h.bag.hasErrors = true ↔ ∃ batch ∈ batches, ∃ o ∈ batch, o.hasErrors = true

theorem map_some_values (batch : List (Outcome α)) :
    (Outcome.values batch).map some = (batch.map (·.value)).filter Option.isSome := by
  induction batch with
  | nil => rfl
  | cons o batch ih =>
    rw [Outcome.values] at ih
    cases ho : o.value <;> simp [Outcome.values, ho, ih]

theorem allDiagnostics_flatten (batches : List (List (Outcome α))) : Outcome.allDiagnostics batches.flatten =
    (batches.map fun batch => (batch.map (·.diagnostics)).flatten).flatten := by
  induction batches with
  | nil => rfl
  | cons batch batches ih =>
    rw [Outcome.allDiagnostics] at ih ⊢
    rw [List.flatten_cons, List.flatMap_append, ih, List.map_cons, List.flatten_cons, List.flatMap_def]

theorem exists_error_iff (batches : List (List (Outcome α))) :
    (∃ r ∈ Outcome.allDiagnostics batches.flatten, r.severity = .error) ↔
      ∃ batch ∈ batches, ∃ o ∈ batch, o.hasErrors = true := by
  simp only [Outcome.allDiagnostics, Outcome.hasErrors, List.mem_flatMap, List.mem_flatten, List.any_eq_true,
    Record.isError, Severity.isError, decide_eq_true_eq]
  constructor
  · rintro ⟨r, ⟨o, ⟨batch, hb, ho⟩, hr⟩, he⟩
    exact ⟨batch, hb, o, ho, r, hr, he⟩
  · rintro ⟨batch, hb, o, ho, r, hr, he⟩
    exact ⟨r, ⟨o, ⟨batch, hb, ho⟩, hr⟩, he⟩

theorem gathers_views (batches : List (List (Outcome α))) :
    Gathers batches (empty.add (Outcome.views batches.flatten)) := by
  have hrecords : (Bag.ofList (Outcome.allDiagnostics batches.flatten)).records =
      Bag.firstSeen (Outcome.allDiagnostics batches.flatten) := Bag.ofList_records _
  have hcollects := Bag.collects_of_records hrecords
  exact
    { values := map_some_values _
      diagnostics := allDiagnostics_flatten batches
      report := fun sink => ⟨_, hcollects.report sink, rfl, hrecords ▸ Bag.distinct _⟩
      errors := hcollects.errors.trans (exists_error_iff batches) }

/-- The same is gathered from batches however they are taken apart, one by one or all at once: every present value in
order, and all diagnostics in order, with or without a value. Of equal diagnostics only the first is reported, and the
bag has errors when an outcome of a batch has. -/
theorem gathered_alike (batches : List (List (Outcome α))) :
    gather Outcome.split batches = gather Outcome.views batches ∧
      gather Outcome.split [batches.flatten] = gather Outcome.views batches ∧
      Gathers batches (gather Outcome.views batches) := by
  have hone : [batches.flatten].flatten = batches.flatten := List.flatten_singleton
  rw [split_eq_views, gather_views, gather_views, hone]
  exact ⟨rfl, rfl, gathers_views batches⟩

-- A diagnostic of two batches is reported once, and that of a failure counts as well.
example :
    let r := Record.make (.make "G1" "t" "m" "Usage" .error)
    let h := gather Outcome.split [[.ok "A", .failed r], [.withDiagnostic "B" r]]
    h.values = ["A", "B"] ∧ h.diagnostics.length = 2 ∧ h.bag.records.length = 1 ∧ h.bag.hasErrors = true := by
  decide +kernel

end Harvest

end GeneratorKit.Diagnostics
