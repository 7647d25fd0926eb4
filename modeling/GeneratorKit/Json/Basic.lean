set_option autoImplicit false

/-!
# JSON values

Values as far as the library's records need them. A string with an unpaired surrogate escape is well
formed but is no text, so its text is missing. A number with a sign, a fraction or an exponent is told
apart from a natural number and not kept.
-/
namespace GeneratorKit

inductive Json where
  | null
  | bool (value : Bool)
  | natural (value : Nat)
  | inexact
  | string (text : Option String)
  | array (items : List Json)
  | object (fields : List (Option String × Json))

namespace Json

def ofString (s : String) : Json := .string (some s)

def ofOption {α : Type} (encode : α → Json) : Option α → Json
  | none => .null
  | some a => encode a

def record (fields : List (String × Json)) : Json :=
  .object (fields.map fun (name, value) => (some name, value))

end Json

end GeneratorKit
