import GeneratorKit.Diagnostics.Severity

set_option autoImplicit false

/-!
# Diagnostic descriptors

What all diagnostics of one kind have in common. A message is made from its format by putting an
argument in every place for it, in one pass: what an argument brings in is not looked at again.
-/
namespace GeneratorKit.Diagnostics

structure Descriptor where
  id : String
  title : String
  messageFormat : String
  category : String
  severity : Severity
  enabled : Bool
  help : Option String
  deriving DecidableEq, Repr

/-- Puts an argument in every place that the format leaves for it. -/
def substitute (argument : List Char) : List Char → List Char
  | [] => []
  | '{' :: '0' :: '}' :: cs => argument ++ substitute argument cs
  | c :: cs => c :: substitute argument cs

namespace Descriptor

/-- A descriptor that is enabled and has no help. -/
def make (id title messageFormat category : String) (severity : Severity) : Descriptor :=
  ⟨id, title, messageFormat, category, severity, true, none⟩

def withHelp (d : Descriptor) (help : String) : Descriptor := { d with help := some help }

def disabled (d : Descriptor) : Descriptor := { d with enabled := false }

/-- The message for an argument; the format itself when there is none. -/
def message (d : Descriptor) : Option String → String
  | none => d.messageFormat
  | some a => String.ofList (substitute a.toList d.messageFormat.toList)

end Descriptor

end GeneratorKit.Diagnostics
