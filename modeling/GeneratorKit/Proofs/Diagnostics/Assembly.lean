import GeneratorKit.Diagnostics.Encoding
import GeneratorKit.Json.Printer
import GeneratorKit.Proofs.Diagnostics.Equality

set_option autoImplicit false

/-!
# Assembling records

A record is given its details one after the other, and a later one takes the place of an earlier one of its kind. So
only the last location, the last argument and the last value for each key are left in a record, whatever order and
repetitions they came in, and records are equal exactly when these are (`assembled_alike`).
-/
namespace GeneratorKit.Diagnostics

/-- What a record can be given. -/
inductive Detail : Type 1 where
  | source {α : Type} [Located α] (a : α)
  | location (l : Location)
  | argument (a : String)
  | property (key value : String)

namespace Detail

def location? : Detail → Option Location
  | @source _ _ a => some (.of a)
  | .location l => some l
  | .argument _ | .property .. => none

def argument? : Detail → Option String
  | .argument a => some a
  | @source .. | .location _ | .property .. => none

def value? (key : String) : Detail → Option String
  | .property k v => if key = k then some v else none
  | @source .. | .location _ | .argument _ => none

end Detail

namespace Record

def give (r : Record) : Detail → Record
  | @Detail.source _ _ a => r.locate a
  | .location l => r.atLocation l
  | .argument a => r.withArgument a
  | .property key value => r.withProperty key value

def assemble (r : Record) (ds : List Detail) : Record := ds.foldl give r

/-- The last location among some details, or else what the record has. -/
def lastLocation (r : Record) (ds : List Detail) : Option Location :=
  (ds.findSomeRev? Detail.location?).or r.location

def lastArgument (r : Record) (ds : List Detail) : Option String :=
  (ds.findSomeRev? Detail.argument?).or r.argument

def lastValue (r : Record) (ds : List Detail) (key : String) : Option String :=
  (ds.findSomeRev? (Detail.value? key)).or (r.properties.get? key)

/-- A part that each detail either settles or leaves alone is settled by the last one that does. -/
theorem part_assemble {α : Type} (part : Record → Option α) (settles : Detail → Option α)
    (h : ∀ r d, part (give r d) = (settles d).or (part r)) (r : Record) (ds : List Detail) :
    part (r.assemble ds) = (ds.findSomeRev? settles).or (part r) := by
  -- the first detail makes another record, to which the others are given
  induction ds generalizing r with
  | nil => rfl
  | cons d ds ih =>
    have hlast : (d :: ds).findSomeRev? settles = (ds.findSomeRev? settles).or (settles d) := by
      rw [List.findSomeRev?]
      cases ds.findSomeRev? settles <;> rfl
    rw [hlast, Option.or_assoc, ← h]
    exact ih (give r d)

theorem location_assemble (r : Record) (ds : List Detail) : (r.assemble ds).location = r.lastLocation ds :=
  part_assemble location Detail.location? (fun _ d => by cases d <;> rfl) r ds

theorem argument_assemble (r : Record) (ds : List Detail) : (r.assemble ds).argument = r.lastArgument ds :=
  part_assemble argument Detail.argument? (fun _ d => by cases d <;> rfl) r ds

theorem value_assemble (r : Record) (ds : List Detail) (key : String) :
    (r.assemble ds).properties.get? key = r.lastValue ds key := by
  refine part_assemble (·.properties.get? key) (Detail.value? key) (fun r d => ?_) r ds
  cases d with
  | property k v =>
    change (r.properties.insert k v).get? key = _
    rw [SortedMap.get?_insert, Detail.value?]
    split <;> rfl
  | source _ | location _ | argument _ => rfl

theorem descriptor_assemble (r : Record) (ds : List Detail) : (r.assemble ds).descriptor = r.descriptor := by
  induction ds generalizing r with
  | nil => rfl
  | cons d ds ih => exact (ih (give r d)).trans (by cases d <;> rfl)

theorem properties_assemble_eq_iff (r s : Record) (ds es : List Detail) :
    (r.assemble ds).properties = (s.assemble es).properties ↔ ∀ key, r.lastValue ds key = s.lastValue es key := by
  simp only [← value_assemble]
  exact ⟨fun h key => congrArg (·.get? key) h, SortedMap.ext_get?⟩

theorem eq_of_parts {r s : Record} (hd : r.descriptor = s.descriptor) (hl : r.location = s.location)
    (ha : r.argument = s.argument) (hp : r.properties = s.properties) : r = s := by
  cases r
  cases s
  cases hd
  cases hl
  cases ha
  cases hp
  rfl

/-- Records that nothing tells apart. -/
structure Indistinct (r s : Record) : Prop where
  equal : (r == s) = true
  json : r.toJson.text = s.toJson.text
  message : r.message = s.message
  notice : Notice.of r = Notice.of s

theorem indistinct_of_eq {r s : Record} (h : r = s) : Indistinct r s := h ▸ ⟨BEq.rfl, rfl, rfl, rfl⟩

structure AssembledAlike (r s : Record) (ds es : List Detail) : Prop where
  indistinct (hl : r.lastLocation ds = s.lastLocation es) (ha : r.lastArgument ds = s.lastArgument es)
    (hv : ∀ key, r.lastValue ds key = s.lastValue es key) : Indistinct (r.assemble ds) (s.assemble es)
  equal_iff : (r.assemble ds == s.assemble es) = true ↔ (r.lastLocation ds == s.lastLocation es) = true ∧
    r.lastArgument ds = s.lastArgument es ∧ ∀ key, r.lastValue ds key = s.lastValue es key
  /-- It is the same whether a location is attached as it is or as the place of something. -/
  locate (l : Location) : r.locate l = r.atLocation l

/-- Records with the same descriptor that end up with the same last location, the same last argument and the same last
value for each key are the same, however they were assembled. If one of these differs, the records are unequal. -/
theorem assembled_alike {r s : Record} (h : r.descriptor = s.descriptor) (ds es : List Detail) :
    AssembledAlike r s ds es := by
  have hdescriptor : (r.assemble ds).descriptor = (s.assemble es).descriptor := by
    rw [descriptor_assemble, descriptor_assemble, h]
  refine ⟨fun hl ha hv => indistinct_of_eq (eq_of_parts hdescriptor ?_ ?_ ?_), ?_, fun _ => rfl⟩
  · rw [location_assemble, location_assemble, hl]
  · rw [argument_assemble, argument_assemble, ha]
  · exact (properties_assemble_eq_iff r s ds es).2 hv
  · rw [beq_iff, location_assemble, location_assemble, argument_assemble, argument_assemble,
      properties_assemble_eq_iff]
    exact and_iff_right hdescriptor

-- The properties come in another order, and some details are overruled.
theorem assembled_alike_reordered :
    let r := make (.make "G1" "t" "m" "Usage" .warning)
    let place (path : String) : Location := ⟨⟨path⟩, ⟨3, 4⟩, ⟨⟨0, 3⟩, ⟨0, 7⟩⟩⟩
    let ds : List Detail := [.property "fix" "none", .location (place "b"), .property "fix" "add", .argument "A",
      .source (place "a"), .property "at" "top"]
    let es : List Detail := [.property "at" "top", .argument "B", .location (place "a"), .argument "A",
      .property "fix" "add"]
    r.descriptor = r.descriptor ∧ Indistinct (r.assemble ds) (r.assemble es) ∧
      ¬ (r.assemble ds == r.assemble (es ++ [.property "at" "end"])) = true ∧
      (r.assemble (es ++ [.location (place "src/a")]) == r.assemble (es ++ [.location (place "src//a")])) = true := by
  intro r place ds es
  have hvalues (key : String) : r.lastValue ds key = r.lastValue es key := by
    by_cases hat : key = "at" <;> by_cases hfix : key = "fix" <;>
      simp_all [ds, es, lastValue, List.findSomeRev?, Detail.value?]
  refine ⟨rfl, (assembled_alike rfl ds es).indistinct rfl rfl hvalues, ?_, ?_⟩
  · rw [(assembled_alike rfl ds _).equal_iff]
    rintro ⟨_, _, hat⟩
    exact absurd (hat "at") (by decide)
  · exact (assembled_alike rfl _ _).equal_iff.2 ⟨by decide +kernel, rfl, fun _ => rfl⟩

end Record

end GeneratorKit.Diagnostics
