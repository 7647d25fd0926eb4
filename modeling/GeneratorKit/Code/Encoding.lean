import GeneratorKit.Code.Accessibility
import GeneratorKit.Code.TypeRef
import GeneratorKit.Json.Decode

set_option autoImplicit false

/-!
# JSON forms of code descriptions

A level or special type is its name, a type reference an object with its kind as the only key.
-/
namespace GeneratorKit.Code

def Accessibility.toJson (a : Accessibility) : Json := .ofString a.name

def Accessibility.ofJson : Json.Decoder Accessibility := fun depth v =>
  (Json.decodeVariant depth v).bind named?

def SpecialType.toJson (t : SpecialType) : Json := .ofString t.metadataName

def SpecialType.ofJson : Json.Decoder SpecialType := fun depth v =>
  (Json.decodeVariant depth v).bind named?

namespace TypeRef

mutual

def toJson : TypeRef → Json
  | .special t => .record [("Special", t.toJson)]
  | .named space name args => .record [("Named", .record
      [("namespace", .ofOption .ofString space), ("name", .ofString name),
        ("args", .array (toJsonAll args))])]
  | .array e => .record [("Array", toJson e)]
  | .nullable t => .record [("Nullable", toJson t)]
  | .parameter name => .record [("Parameter", .ofString name)]

def toJsonAll : List TypeRef → List Json
  | [] => []
  | t :: ts => toJson t :: toJsonAll ts

end

def ofJson : Json.Decoder TypeRef
  | depth + 1, .object [(some "Special", v)] => (SpecialType.ofJson depth v).map .special
  | depth + 1, .object [(some "Array", v)] => (ofJson depth v).map .array
  | depth + 1, .object [(some "Nullable", v)] => (ofJson depth v).map .nullable
  | depth + 1, .object [(some "Parameter", v)] => (Json.decodeString depth v).map .parameter
  | depth + 3, .object [(some "Named", v)] => do
    let [space, name, some (.array args)] ← Json.decodeFields ["namespace", "name", "args"] 0 v
      | none
    let space ← Json.optional Json.decodeString (depth + 1) space
    let name ← Json.required Json.decodeString (depth + 1) name
    let args ← args.mapM (ofJson depth)
    return .named space name args
  | _, _ => none

end TypeRef

end GeneratorKit.Code
