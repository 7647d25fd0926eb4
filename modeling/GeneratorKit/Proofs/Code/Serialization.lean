import GeneratorKit.Code.Encoding
import GeneratorKit.Proofs.Json.Decoding
import GeneratorKit.Proofs.Json.RoundTrip

set_option autoImplicit false

/-!
# Serialized types

A type can nest without bound, and what decodes it opens only so many containers inside each other. So it is decoded
from its form exactly when the form nests no deeper than that (`ofJson_toJson`), and reading the text of a type gives
this type or nothing (`ofJson_read_text_eq`).
-/
namespace GeneratorKit

namespace Json

mutual

/-- How many arrays and objects stand inside each other. -/
def nesting : Json → Nat
  | .array items => nestingAll items + 1
  | .object fields => nestingFields fields + 1
  | _ => 0

def nestingAll : List Json → Nat
  | [] => 0
  | v :: vs => max (nesting v) (nestingAll vs)

def nestingFields : List (Option String × Json) → Nat
  | [] => 0
  | (_, v) :: fs => max (nesting v) (nestingFields fs)

end

end Json

namespace Code.TypeRef

section Nesting
variable (t : SpecialType) (e : TypeRef) (space : Option String) (name : String) (args : List TypeRef)

theorem nesting_special : (special t).toJson.nesting = 1 := rfl

theorem nesting_named : (named space name args).toJson.nesting = Json.nestingAll (toJsonAll args) + 3 := by
  cases space <;>
    simp [toJson, Json.record, Json.ofOption, Json.ofString, Json.nesting, Json.nestingFields]

theorem nesting_array : (array e).toJson.nesting = e.toJson.nesting + 1 := by
  simp [toJson, Json.record, Json.nesting, Json.nestingFields]

theorem nesting_nullable : (nullable e).toJson.nesting = e.toJson.nesting + 1 := by
  simp [toJson, Json.record, Json.nesting, Json.nestingFields]

theorem nesting_parameter : (parameter name).toJson.nesting = 1 := rfl

end Nesting

section Decoding
variable (depth : Nat) (t : SpecialType) (e : TypeRef) (space : Option String) (name : String) (args : List TypeRef)

theorem ofJson_special : ofJson (depth + 1) (special t).toJson = some (special t) := by
  have hname : SpecialType.ofJson depth t.toJson = some t := SpecialType.named?_metadataName t
  rw [toJson, Json.record, List.map_cons, List.map_nil, ofJson, hname]
  rfl

theorem ofJson_named : ofJson (depth + 3) (named space name args).toJson =
    ((toJsonAll args).mapM (ofJson depth)).map (named space name) := by
  have hspace := Json.decodeOption_ofString (depth + 1) space
  rw [toJson, Json.record, List.map_cons, List.map_nil, ofJson, Json.decodeFields_record _ _ (by simp)]
  simp [List.lookup_cons, Json.optional, Json.required, hspace, Json.ofString, Json.decodeString,
    Option.map_eq_bind]

theorem ofJson_array : ofJson (depth + 1) (array e).toJson = (ofJson depth e.toJson).map array := by
  rw [toJson, Json.record, List.map_cons, List.map_nil, ofJson]

theorem ofJson_nullable : ofJson (depth + 1) (nullable e).toJson = (ofJson depth e.toJson).map nullable := by
  rw [toJson, Json.record, List.map_cons, List.map_nil, ofJson]

theorem ofJson_parameter : ofJson (depth + 1) (parameter name).toJson = some (parameter name) := by
  rw [toJson, Json.record, List.map_cons, List.map_nil, ofJson]
  rfl

/-- A named type takes three levels even without arguments, for these stand in a list. -/
theorem ofJson_named_of_lt (h : depth < 3) : ofJson depth (named space name args).toJson = none := by
  match depth, h with
  | 0, _ => rfl
  | 1, _ => rfl
  | 2, _ => rfl

end Decoding

-- Each level of a type takes the levels of its own form; an argument has those that its list leaves.
mutual

/-- A type is decoded from its form when as many containers may be opened as the form nests, and else not at all. -/
theorem ofJson_toJson : ∀ (t : TypeRef) (depth : Nat),
    ofJson depth t.toJson = if t.toJson.nesting ≤ depth then some t else none
  | .special t, 0 => rfl
  | .special t, depth + 1 => by
    rw [ofJson_special, nesting_special, if_pos (by omega)]
  | .named space name args, depth => by
    rw [nesting_named]
    by_cases h : depth < 3
    · rw [ofJson_named_of_lt depth space name args h, if_neg (by omega)]
    · obtain ⟨rest, rfl⟩ : ∃ rest, depth = rest + 3 := ⟨depth - 3, by omega⟩
      rw [ofJson_named, mapM_ofJson args rest]
      split
      · rw [if_pos (by omega), Option.map_some]
      · rw [if_neg (by omega), Option.map_none]
  | .array e, 0 => rfl
  | .array e, depth + 1 => by
    rw [ofJson_array, nesting_array, ofJson_toJson e depth]
    split
    · rw [if_pos (by omega), Option.map_some]
    · rw [if_neg (by omega), Option.map_none]
  | .nullable e, 0 => rfl
  | .nullable e, depth + 1 => by
    rw [ofJson_nullable, nesting_nullable, ofJson_toJson e depth]
    split
    · rw [if_pos (by omega), Option.map_some]
    · rw [if_neg (by omega), Option.map_none]
  | .parameter name, 0 => rfl
  | .parameter name, depth + 1 => by
    rw [ofJson_parameter, nesting_parameter, if_pos (by omega)]

theorem mapM_ofJson : ∀ (ts : List TypeRef) (depth : Nat), (toJsonAll ts).mapM (ofJson depth) =
    if Json.nestingAll (toJsonAll ts) ≤ depth then some ts else none
  | [], depth => rfl
  | t :: ts, depth => by
    rw [toJsonAll, List.mapM_cons, ofJson_toJson t depth, mapM_ofJson ts depth, Json.nestingAll]
    by_cases ht : t.toJson.nesting ≤ depth
    · by_cases hts : Json.nestingAll (toJsonAll ts) ≤ depth
      · rw [if_pos ht, if_pos hts, if_pos (by omega)]
        rfl
      · rw [if_pos ht, if_neg hts, if_neg (by omega)]
        rfl
    · have hmax : ¬ max t.toJson.nesting (Json.nestingAll (toJsonAll ts)) ≤ depth := by omega
      rw [if_neg ht, if_neg hmax]
      rfl

end

/-- Types of one form are equal: with as many levels as the form nests, either is decoded from it. -/
theorem toJson_inj {t u : TypeRef} (h : t.toJson = u.toJson) : t = u := by
  have ht : ofJson t.toJson.nesting t.toJson = some t := by rw [ofJson_toJson, if_pos (Nat.le_refl _)]
  have hu : ofJson t.toJson.nesting t.toJson = some u := by rw [h, ofJson_toJson, if_pos (Nat.le_refl _)]
  exact Option.some_inj.1 (ht.symm.trans hu)

theorem text_inj {t u : TypeRef} (h : t.toJson.text = u.toJson.text) : t = u :=
  toJson_inj (Option.some_inj.1 ((Json.read_text t.toJson).symm.trans (h ▸ Json.read_text u.toJson)))

/-- The text of a type is read back as this type when it nests at most 127 levels, and as none else. Two types have
one text only if they are equal. -/
theorem ofJson_read_text_eq (t u : TypeRef) :
    (Json.read t.toJson.text).bind (ofJson Json.depthLimit) =
        (if t.toJson.nesting ≤ 127 then some t else none) ∧
      (t.toJson.text = u.toJson.text ↔ t = u) := by
  refine ⟨?_, text_inj, fun h => congrArg (fun t => t.toJson.text) h⟩
  rw [Json.read_text, Option.bind_some, ofJson_toJson, Json.depthLimit]

/-- An argument stands three levels below its type. -/
example : (named none "List" [array (nullable int)]).toJson.nesting = 3 + (1 + 1 + 1) := rfl

end Code.TypeRef

end GeneratorKit
