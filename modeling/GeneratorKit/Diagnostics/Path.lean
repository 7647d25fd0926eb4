set_option autoImplicit false

/-!
# Paths

A path keeps its text and is compared by its components, so that different spellings of one path are
equal: repeated and trailing slashes do not count, nor does a dot other than a leading one.
-/
namespace GeneratorKit.Diagnostics

inductive Component where
  | root
  | current
  | parent
  | name (s : String)
  deriving DecidableEq, Repr

namespace Component

/-- The place in the order of components: names come last, among each other by their bytes. -/
def key : Component → Nat × String
  | .root => (0, "")
  | .current => (1, "")
  | .parent => (2, "")
  | .name s => (3, s)

theorem key_inj {a b : Component} (h : a.key = b.key) : a = b := by
  cases a <;> cases b <;> simp_all [key]

instance : Ord Component :=
  ⟨fun a b => (compare a.key.1 b.key.1).then (compare a.key.2 b.key.2)⟩

/-- Component by component; a path comes before what it is the beginning of. -/
def compareAll : List Component → List Component → Ordering
  | [], [] => .eq
  | [], _ :: _ => .lt
  | _ :: _, [] => .gt
  | a :: as, b :: bs => (compare a b).then (compareAll as bs)

/-- The component of a segment that is not at the beginning; empty segments and dots are none. -/
def ofSegment (cs : List Char) : Option Component :=
  if cs = [] ∨ cs = ['.'] then none
  else if cs = ['.', '.'] then some .parent
  else some (.name (String.ofList cs))

end Component

def segments : List Char → List (List Char)
  | [] => [[]]
  | c :: cs =>
    if c = '/' then [] :: segments cs
    else match segments cs with
      | [] => [[c]]
      | s :: ss => (c :: s) :: ss

structure Path where
  text : String
  deriving Repr

namespace Path

def components (p : Path) : List Component :=
  match p.text.toList with
  | '/' :: cs => .root :: (segments cs).filterMap Component.ofSegment
  | cs => match segments cs with
    | ['.'] :: ss => .current :: ss.filterMap Component.ofSegment
    | ss => ss.filterMap Component.ofSegment

instance : BEq Path := ⟨fun p q => p.components == q.components⟩

instance : Ord Path := ⟨fun p q => Component.compareAll p.components q.components⟩

end Path

end GeneratorKit.Diagnostics
