import GeneratorKit.Json.Basic

set_option autoImplicit false

/-!
# Decoding JSON values

A decoder turns a value into a record of the library. It is given the number of containers that may
still be opened; values that it skips do not count. `depthLimit` is that number at the outside.
-/
namespace GeneratorKit.Json

def depthLimit : Nat := 127

/-- A decoder, given the number of containers that it may open inside each other. -/
abbrev Decoder (α : Type) := Nat → Json → Option α

def decodeString : Decoder String
  | _, .string s => s
  | _, _ => none

def decodeBool : Decoder Bool
  | _, .bool b => some b
  | _, _ => none

def decodeBelow (bound : Nat) : Decoder Nat
  | _, .natural n => if n < bound then some n else none
  | _, _ => none

def decodeOption {α : Type} (d : Decoder α) : Decoder (Option α)
  | _, .null => some none
  | depth, v => (d depth v).map some

def decodeList {α : Type} (d : Decoder α) : Decoder (List α)
  | depth + 1, .array items => items.mapM (d depth)
  | _, _ => none

def decodeEntries {α : Type} (d : Decoder α) : Decoder (List (String × α))
  | depth + 1, .object fields => fields.mapM fun (k, v) => do return (← k, ← d depth v)
  | _, _ => none

/-- The name of a variant without content: alone, or as the only key of an object that holds null. -/
def decodeVariant : Decoder String
  | _, .string s => s
  | _ + 1, .object [(k, .null)] => k
  | _, _ => none

/-- The values of the named fields, in the order of the names. They come from an object, where other
fields are skipped and none of these may stand twice, or from an array of all of them in order, where
the last `spare` ones may be left out. -/
def decodeFields (names : List String) (spare : Nat) : Json → Option (List (Option Json))
  | .object fields =>
    if fields.all (·.1.isSome) ∧ names.all fun n => fields.countP (·.1 = some n) ≤ 1 then
      some (names.map fun n => (fields.find? (·.1 = some n)).map (·.2))
    else none
  | .array items =>
    if items.length ≤ names.length ∧ names.length ≤ items.length + spare then
      some (items.map some ++ List.replicate (names.length - items.length) none)
    else none
  | _ => none

def required {α : Type} (d : Decoder α) (depth : Nat) (field : Option Json) : Option α :=
  field.bind (d depth)

/-- A field that counts as null when it is missing. -/
def optional {α : Type} (d : Decoder α) (depth : Nat) (field : Option Json) : Option (Option α) :=
  decodeOption d depth (field.getD .null)

end GeneratorKit.Json
