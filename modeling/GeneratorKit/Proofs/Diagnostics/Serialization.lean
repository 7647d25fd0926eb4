import GeneratorKit.Diagnostics.Encoding
import GeneratorKit.Proofs.Diagnostics.Equality
import GeneratorKit.Proofs.Json.Decoding
import GeneratorKit.Proofs.Json.RoundTrip

set_option autoImplicit false

/-!
# Serialized outcomes

Each record is decoded from its form when as many containers may be opened as the form nests. So an outcome
survives being written as a text and read back (`ofJson_read_text`).
-/
namespace GeneratorKit.Diagnostics
variable (depth : Nat)

theorem Severity.ofJson_toJson (s : Severity) : ofJson depth s.toJson = some s :=
  named?_text s

theorem Descriptor.ofJson_toJson (d : Descriptor) : ofJson (depth + 1) d.toJson = some d := by
  have hhelp := Json.decodeOption_ofString depth d.help
  rw [ofJson, toJson, Json.decodeFields_record _ _ (by simp)]
  simp [List.lookup_cons, Json.required, Json.optional, hhelp, Severity.ofJson_toJson, Json.ofString,
    Json.decodeString, Json.decodeBool]

theorem Position.ofJson_toJson (p : Position) : ofJson (depth + 1) p.toJson = some p := by
  rw [ofJson, toJson, Json.decodeFields_record _ _ (by simp)]
  simp [List.lookup_cons, Json.required, Json.decodeBelow_uint32]

theorem LineSpan.ofJson_toJson (s : LineSpan) : ofJson (depth + 2) s.toJson = some s := by
  rw [ofJson, toJson, Json.decodeFields_record _ _ (by simp)]
  simp [List.lookup_cons, Json.required, Position.ofJson_toJson]

theorem TextSpan.ofJson_toJson (s : TextSpan) : ofJson (depth + 1) s.toJson = some s := by
  rw [ofJson, toJson, Json.decodeFields_record _ _ (by simp)]
  simp [List.lookup_cons, Json.required, Json.decodeBelow_uint64]

theorem Location.ofJson_toJson (l : Location) : ofJson (depth + 3) l.toJson = some l := by
  have hpath : Json.decodeString (depth + 2) (.ofString l.path.text) = some l.path.text := rfl
  have htext := TextSpan.ofJson_toJson (depth + 1) l.textSpan
  have hline := LineSpan.ofJson_toJson depth l.lineSpan
  rw [ofJson, toJson, Json.decodeFields_record _ _ (by simp)]
  simp [List.lookup_cons, Json.required, hpath, htext, hline]

theorem Record.ofJson_toJson (r : Record) : ofJson (depth + 4) r.toJson = some r := by
  have hdescriptor := Descriptor.ofJson_toJson (depth + 2) r.descriptor
  have hlocation := Json.decodeOption_ofOption (fun _ => Json.noConfusion) (Location.ofJson_toJson depth)
    r.location
  have hargument := Json.decodeOption_ofString (depth + 3) r.argument
  have hproperties : Json.decodeEntries Json.decodeString (depth + 3) (propertiesJson r.properties) =
      some r.properties.entries := Json.decodeEntries_record fun _ _ => rfl
  rw [ofJson, toJson, Json.decodeFields_record _ _ (by split <;> simp)]
  split
  · next hempty =>
    have hnone : SortedMap.ofList [] = r.properties := by
      rw [← List.isEmpty_iff.1 hempty, r.properties.ofList_entries]
    simp [List.lookup_cons, Json.required, Json.optional, hdescriptor, hlocation, hargument, hnone]
  · simp [List.lookup_cons, Json.required, Json.optional, hdescriptor, hlocation, hargument, hproperties,
      r.properties.ofList_entries]

namespace Outcome

/-- An outcome is decoded from its form when its value is, and no value takes the form of a missing one. -/
theorem ofJson_toJson {α : Type} {decode : Json.Decoder α} {encode : α → Json}
    (hnull : ∀ a, encode a ≠ .null) (hvalue : ∀ a, decode (depth + 5) (encode a) = some a) (o : Outcome α) :
    ofJson decode (depth + 6) (o.toJson encode) = some o := by
  have hoption := Json.decodeOption_ofOption hnull hvalue o.value
  have hlist : Json.decodeList Record.ofJson (depth + 5) (.array (o.diagnostics.map Record.toJson)) =
      some o.diagnostics := Json.decodeList_array fun r _ => Record.ofJson_toJson depth r
  rw [ofJson, toJson, Json.decodeFields_record _ _ (by simp)]
  simp [List.lookup_cons, Json.required, Json.optional, hoption, hlist]

/-- What is read back from the text of an outcome is an equal one, with the same value and the same diagnostics,
down to the spelling of their paths, and so with the same text. -/
theorem ofJson_read_text (o : Outcome String) : ∃ o' : Outcome String,
    (Json.read (o.toJson .ofString).text).bind (ofJson Json.decodeString Json.depthLimit) = some o' ∧
    (o' == o) = true ∧ o'.value = o.value ∧ o'.diagnostics = o.diagnostics ∧
    (o'.toJson .ofString).text = (o.toJson .ofString).text := by
  have hdecode : ofJson Json.decodeString Json.depthLimit (o.toJson .ofString) = some o :=
    ofJson_toJson _ (fun _ => Json.noConfusion) (fun _ => rfl) o
  refine ⟨o, ?_, BEq.rfl, rfl, rfl, rfl⟩
  rw [Json.read_text, Option.bind_some, hdecode]

end Outcome

end GeneratorKit.Diagnostics
