import GeneratorKit.Diagnostics.Outcome
import GeneratorKit.Map.Ordered

set_option autoImplicit false

/-!
# Outcome caches

The outcomes of a run under keys, and whether those of the next run differ. An equal outcome does not
replace the one that is kept.
-/
namespace GeneratorKit.Diagnostics

/-- How an outcome relates to the one that was kept before. -/
inductive Freshness where
  | added
  | modified
  | unchanged
  deriving DecidableEq, Repr

def Freshness.isUnchanged (f : Freshness) : Bool := f = .unchanged

/-- Outcomes by key, in the order in which the keys came in. -/
abbrev Cache (κ α : Type) := OrderedMap κ (Outcome α)

namespace Cache

variable {κ α : Type} [DecidableEq κ] [BEq α]

def update (c : Cache κ α) (k : κ) (o : Outcome α) : Freshness × Cache κ α :=
  match OrderedMap.get? c k with
  | some kept => if kept == o then (.unchanged, c) else (.modified, OrderedMap.insert c k o)
  | none => (.added, OrderedMap.insert c k o)

def remove (c : Cache κ α) (k : κ) : Option (Outcome α) × Cache κ α :=
  (OrderedMap.get? c k, OrderedMap.erase c k)

def retain (c : Cache κ α) (keep : κ → Bool) : Cache κ α := OrderedMap.filterKeys c keep

def outcomes (c : Cache κ α) : List (Outcome α) := OrderedMap.values c

end Cache

end GeneratorKit.Diagnostics
