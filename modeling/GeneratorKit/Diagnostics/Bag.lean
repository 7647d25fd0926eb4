import GeneratorKit.Diagnostics.Record

set_option autoImplicit false

/-!
# Diagnostic bags

A bag collects records until they are reported, each of equal ones once, in the order in which they
were first added.
-/
namespace GeneratorKit.Diagnostics

/-- Records of which no two are equal. -/
structure Bag where
  records : List Record
  distinct : records.Pairwise fun a b => (a == b) = false

namespace Bag

def empty : Bag := ⟨[], .nil⟩

def contains (b : Bag) (r : Record) : Bool := b.records.any (· == r)

def push (b : Bag) (r : Record) : Bool × Bag :=
  if h : b.contains r = true then (false, b)
  else (true, ⟨b.records ++ [r], by
    refine List.pairwise_append.2 ⟨b.distinct, by simp, fun a ha c hc => ?_⟩
    rw [List.mem_singleton.1 hc]
    simpa [contains] using fun e => h (List.any_eq_true.2 ⟨a, ha, e⟩)⟩)

def extend (b : Bag) (rs : List Record) : Bag := rs.foldl (fun b r => (b.push r).2) b

def ofList (rs : List Record) : Bag := empty.extend rs

def size (b : Bag) : Nat := b.records.length

def isEmpty (b : Bag) : Bool := b.records.isEmpty

def hasErrors (b : Bag) : Bool := b.records.any Record.isError

/-- Empties the bag into a sink, behind what was reported there before. -/
def report (b : Bag) (sink : List Notice) : Bag × List Notice :=
  (empty, sink ++ b.records.map Notice.of)

end Bag

end GeneratorKit.Diagnostics
