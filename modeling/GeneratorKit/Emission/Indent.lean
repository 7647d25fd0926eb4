set_option autoImplicit false

/-!
# Indentation units
-/
namespace GeneratorKit.Emission

inductive Indent where
  | spaces (width : Nat)
  | tab
  deriving DecidableEq, Repr

namespace Indent

def twoSpaces : Indent := .spaces 2

def fourSpaces : Indent := .spaces 4

instance : Inhabited Indent := ⟨fourSpaces⟩

def widest : Nat := 16

def unit : Indent → String
  | .spaces width => String.ofList (List.replicate (min width widest) ' ')
  | .tab => "\t"

end Indent

end GeneratorKit.Emission
