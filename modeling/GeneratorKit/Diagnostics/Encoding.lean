import GeneratorKit.Diagnostics.Outcome
import GeneratorKit.Json.Decode

set_option autoImplicit false

/-!
# JSON forms of diagnostics

Records are objects with their fields in a fixed order. Properties are left out when there are none.
-/
namespace GeneratorKit.Diagnostics

def Severity.toJson (s : Severity) : Json := .ofString s.text

def Severity.ofJson : Json.Decoder Severity := fun depth v =>
  (Json.decodeVariant depth v).bind named?

namespace Descriptor

def toJson (d : Descriptor) : Json :=
  .record [("id", .ofString d.id), ("title", .ofString d.title),
    ("message_format", .ofString d.messageFormat), ("category", .ofString d.category),
    ("default_severity", d.severity.toJson), ("enabled_by_default", .bool d.enabled),
    ("help", .ofOption .ofString d.help)]

def ofJson : Json.Decoder Descriptor
  | depth + 1, v => do
    let [id, title, messageFormat, category, severity, enabled, help] ← Json.decodeFields
      ["id", "title", "message_format", "category", "default_severity", "enabled_by_default",
        "help"] 0 v | none
    return {
      id := ← Json.required Json.decodeString depth id
      title := ← Json.required Json.decodeString depth title
      messageFormat := ← Json.required Json.decodeString depth messageFormat
      category := ← Json.required Json.decodeString depth category
      severity := ← Json.required Severity.ofJson depth severity
      enabled := ← Json.required Json.decodeBool depth enabled
      help := ← Json.optional Json.decodeString depth help }
  | 0, _ => none

end Descriptor

namespace Position

def toJson (p : Position) : Json :=
  .record [("line", .natural p.line.toNat), ("character", .natural p.character.toNat)]

def ofJson : Json.Decoder Position
  | depth + 1, v => do
    let [line, character] ← Json.decodeFields ["line", "character"] 0 v | none
    let line ← Json.required (Json.decodeBelow 0x100000000) depth line
    let character ← Json.required (Json.decodeBelow 0x100000000) depth character
    return ⟨.ofNat line, .ofNat character⟩
  | 0, _ => none

end Position

namespace LineSpan

def toJson (s : LineSpan) : Json := .record [("start", s.start.toJson), ("end", s.stop.toJson)]

def ofJson : Json.Decoder LineSpan
  | depth + 1, v => do
    let [start, stop] ← Json.decodeFields ["start", "end"] 0 v | none
    return ⟨← Json.required Position.ofJson depth start, ← Json.required Position.ofJson depth stop⟩
  | 0, _ => none

end LineSpan

namespace TextSpan

def toJson (s : TextSpan) : Json :=
  .record [("start", .natural s.start.toNat), ("length", .natural s.length.toNat)]

def ofJson : Json.Decoder TextSpan
  | depth + 1, v => do
    let [start, length] ← Json.decodeFields ["start", "length"] 0 v | none
    let start ← Json.required (Json.decodeBelow 0x10000000000000000) depth start
    let length ← Json.required (Json.decodeBelow 0x10000000000000000) depth length
    return ⟨.ofNat start, .ofNat length⟩
  | 0, _ => none

end TextSpan

namespace Location

def toJson (l : Location) : Json :=
  .record [("file_path", .ofString l.path.text), ("text_span", l.textSpan.toJson),
    ("line_span", l.lineSpan.toJson)]

def ofJson : Json.Decoder Location
  | depth + 1, v => do
    let [path, textSpan, lineSpan] ← Json.decodeFields ["file_path", "text_span", "line_span"] 0 v
      | none
    let path ← Json.required Json.decodeString depth path
    return ⟨⟨path⟩, ← Json.required TextSpan.ofJson depth textSpan,
      ← Json.required LineSpan.ofJson depth lineSpan⟩
  | 0, _ => none

end Location

namespace Record

def propertiesJson (m : SortedMap String) : Json :=
  .record (m.entries.map fun (k, v) => (k, .ofString v))

def toJson (r : Record) : Json :=
  .record ([("descriptor", r.descriptor.toJson),
    ("location", .ofOption Location.toJson r.location),
    ("message_arg", .ofOption .ofString r.argument)] ++
      if r.properties.entries.isEmpty then []
      else [("properties", propertiesJson r.properties)])

def ofJson : Json.Decoder Record
  | depth + 1, v => do
    let [descriptor, location, argument, properties] ← Json.decodeFields
      ["descriptor", "location", "message_arg", "properties"] 1 v | none
    let entries ← match properties with
      | none => some []
      | some v => Json.decodeEntries Json.decodeString depth v
    return ⟨← Json.required Descriptor.ofJson depth descriptor,
      ← Json.optional Location.ofJson depth location,
      ← Json.optional Json.decodeString depth argument, .ofList entries⟩
  | 0, _ => none

end Record

namespace Outcome

variable {α : Type}

def toJson (encode : α → Json) (o : Outcome α) : Json :=
  .record [("value", .ofOption encode o.value), ("diagnostics", .array (o.diagnostics.map Record.toJson))]

def ofJson (decode : Json.Decoder α) : Json.Decoder (Outcome α)
  | depth + 1, v => do
    let [value, diagnostics] ← Json.decodeFields ["value", "diagnostics"] 0 v | none
    return ⟨← Json.optional decode depth value,
      ← Json.required (Json.decodeList Record.ofJson) depth diagnostics⟩
  | 0, _ => none

end Outcome

end GeneratorKit.Diagnostics
