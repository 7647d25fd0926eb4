import GeneratorKit.Diagnostics.Record

set_option autoImplicit false

/-!
# Outcomes

A result, if there is one, with the diagnostics of the work that led to it. A batch of outcomes splits
into its values and its diagnostics (`split_eq`).
-/
namespace GeneratorKit.Diagnostics

structure Outcome (α : Type) where
  value : Option α
  diagnostics : List Record
  deriving BEq

namespace Outcome

variable {α β : Type}

def ok (a : α) : Outcome α := ⟨some a, []⟩

def failed (r : Record) : Outcome α := ⟨none, [r]⟩

def withDiagnostic (a : α) (r : Record) : Outcome α := ⟨some a, [r]⟩

def hasValue (o : Outcome α) : Bool := o.value.isSome

def hasErrors (o : Outcome α) : Bool := o.diagnostics.any Record.isError

def map (f : α → β) (o : Outcome α) : Outcome β := ⟨o.value.map f, o.diagnostics⟩

def values (batch : List (Outcome α)) : List α := batch.filterMap (·.value)

def allDiagnostics (batch : List (Outcome α)) : List Record := batch.flatMap (·.diagnostics)

/-- The values and the diagnostics of a batch, collected in one pass. -/
def split (batch : List (Outcome α)) : List α × List Record :=
  batch.foldl (fun (vs, ds) o => (vs ++ o.value.toList, ds ++ o.diagnostics)) ([], [])

theorem split_eq (batch : List (Outcome α)) : split batch = (values batch, allDiagnostics batch) := by
  suffices h : ∀ vs ds, batch.foldl (fun (vs, ds) o => (vs ++ o.value.toList, ds ++ o.diagnostics))
      (vs, ds) = (vs ++ values batch, ds ++ allDiagnostics batch) from h [] []
  induction batch with
  | nil => simp [values, allDiagnostics]
  | cons o batch ih =>
    intro vs ds
    rw [List.foldl_cons, ih]
    cases h : o.value <;> simp [values, allDiagnostics, h]

end Outcome

end GeneratorKit.Diagnostics
