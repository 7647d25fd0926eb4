import GeneratorKit.Code.Accessibility
import GeneratorKit.Fault

set_option autoImplicit false

/-!
# What stops an emission

A refusal is the answer to a request that cannot be met; the caller may go on from it. A stop is what
ends a run of edits: a refusal that nobody took care of, or a fault.
-/
namespace GeneratorKit.Emission

inductive Refusal where
  | unbalancedScope
  | unclosedScopes (depth : Nat)
  | unmappedAccessibility (a : Code.Accessibility)
  | format
  | invalidLength (requested size : Nat)
  deriving DecidableEq, Repr

def Refusal.message : Refusal → String
  | .unbalancedScope => "scope closed at indent level 0 without a matching open"
  | .unclosedScopes depth =>
    Text.decimal depth ++ " scope(s) still open when the source was built"
  | .unmappedAccessibility a => "accessibility '" ++ a.name ++ "' has no keyword"
  | .format => "a Display implementation returned an error unexpectedly"
  | .invalidLength requested size =>
    "cannot set length to " ++ Text.decimal requested ++ "; builder holds " ++ Text.decimal size ++
      " bytes"

inductive Stop where
  | refusal (r : Refusal)
  | fault (f : Fault)
  deriving DecidableEq, Repr

def Stop.message : Stop → String
  | .refusal r => r.message
  | .fault f => f.message

end GeneratorKit.Emission
