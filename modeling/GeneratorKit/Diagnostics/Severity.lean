set_option autoImplicit false

/-!
# Severities
-/
namespace GeneratorKit.Diagnostics

inductive Severity where
  | info
  | warning
  | error
  deriving DecidableEq, Repr

/-- The levels that a reporting front end tells apart. -/
inductive ReportLevel where
  | advice
  | warning
  | error
  deriving DecidableEq, Repr

namespace Severity

def all : List Severity := [.info, .warning, .error]

def text : Severity → String
  | .info => "info"
  | .warning => "warning"
  | .error => "error"

def named? (s : String) : Option Severity := all.find? (·.text = s)

theorem named?_text (s : Severity) : named? s.text = some s := by cases s <;> rfl

def isError (s : Severity) : Bool := s = .error

/-- The place in the order from the mildest on. -/
def rank : Severity → Nat
  | .info => 0
  | .warning => 1
  | .error => 2

instance : Ord Severity := ⟨fun a b => compare a.rank b.rank⟩

instance : LE Severity := ⟨fun a b => a.rank ≤ b.rank⟩

instance (a b : Severity) : Decidable (a ≤ b) := inferInstanceAs (Decidable (a.rank ≤ b.rank))

def reportLevel : Severity → ReportLevel
  | .info => .advice
  | .warning => .warning
  | .error => .error

end Severity

end GeneratorKit.Diagnostics
