import GeneratorKit.Text.Numeral

set_option autoImplicit false

/-!
# Faults

Breaches of a limit or a precondition. Nothing but the end of the work at hand can answer them.
-/
namespace GeneratorKit

inductive Fault where
  /-- A sum of machine words that does not fit. -/
  | overflow
  /-- A request for more bytes than can be addressed. -/
  | capacity
  | cutPastEnd (length size : Nat)
  | cutInsideCharacter (length : Nat)
  deriving DecidableEq, Repr

def Fault.message : Fault → String
  | .overflow => "attempt to add with overflow"
  | .capacity => "capacity overflow"
  | .cutPastEnd length size =>
    "cannot truncate to " ++ Text.decimal length ++ " bytes; buffer holds " ++ Text.decimal size
  | .cutInsideCharacter length =>
    "truncation at byte " ++ Text.decimal length ++ " splits a character"

end GeneratorKit
