import GeneratorKit.Diagnostics.Descriptor
import GeneratorKit.Diagnostics.Location
import GeneratorKit.Map.Sorted

set_option autoImplicit false

/-!
# Diagnostic records

A diagnostic as a value that can be kept and compared from run to run. Records are equal when all
their parts are; paths count by their components.
-/
namespace GeneratorKit.Diagnostics

structure Record where
  descriptor : Descriptor
  location : Option Location
  argument : Option String
  properties : SortedMap String
  deriving BEq

namespace Record

def make (d : Descriptor) : Record := ⟨d, none, none, .empty⟩

def atLocation (r : Record) (l : Location) : Record := { r with location := some l }

def locate {α : Type} [Located α] (r : Record) (a : α) : Record := r.atLocation (.of a)

def withArgument (r : Record) (a : String) : Record := { r with argument := some a }

def withProperty (r : Record) (key value : String) : Record :=
  { r with properties := r.properties.insert key value }

def id (r : Record) : String := r.descriptor.id

def severity (r : Record) : Severity := r.descriptor.severity

def isError (r : Record) : Bool := r.severity.isError

def message (r : Record) : String := r.descriptor.message r.argument

end Record

structure Notice where
  id : String
  severity : Severity
  message : String
  category : String
  location : Option Location
  help : Option String
  deriving BEq

namespace Notice

def of (r : Record) : Notice :=
  ⟨r.id, r.severity, r.message, r.descriptor.category, r.location, r.descriptor.help⟩

/-- The location, if there is one, the severity, the id and the message. -/
def display (n : Notice) : Except Fault String := do
  let place ← match n.location with
    | some l => (l.display).map (· ++ ": ")
    | none => .ok ""
  return place ++ n.severity.text ++ " " ++ n.id ++ ": " ++ n.message

end Notice

end GeneratorKit.Diagnostics
