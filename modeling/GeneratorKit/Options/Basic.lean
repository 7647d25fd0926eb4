import GeneratorKit.Map.Ordered
import GeneratorKit.Options.Reader
import GeneratorKit.Toml.Printer
import GeneratorKit.Toml.Resolution

set_option autoImplicit false

/-!
# Build options

A flat set of text options, in the order in which they were first given. The properties of a project
stand under a common beginning of their keys and are read into types on demand.
-/
namespace GeneratorKit

abbrev Options := OrderedMap String String

namespace Options

def propertyStart : String := "build_property."

/-- A property whose text is no value of the wanted type. -/
structure Invalid where
  key : String
  value : String
  reason : Reason
  deriving DecidableEq, Repr

def Invalid.message (e : Invalid) : String :=
  "invalid value '" ++ e.value ++ "' for build property '" ++ e.key ++ "': " ++ e.reason.message

def raw (o : Options) (key : String) : Option String := OrderedMap.get? o key

def property (o : Options) (key : String) : Option String := raw o (propertyStart ++ key)

/-- Reads a text as it is, and without the blanks around it when that fails. -/
def readTrimmed {α : Type} (r : Reader α) (s : String) : Except Reason α :=
  match r.read s with
  | .ok a => .ok a
  | .error e => if Text.trim s = s then .error e else r.read (Text.trim s)

def get {α : Type} (r : Reader α) (o : Options) (key : String) : Except Invalid (Option α) :=
  match property o key with
  | none => .ok none
  | some s => match readTrimmed r s with
    | .ok a => .ok (some a)
    | .error e => .error ⟨key, s, e⟩

def getOrDefault {α : Type} (r : Reader α) (o : Options) (key : String) : Except Invalid α :=
  (get r o key).map (·.getD r.default)

/-- A switch: on or off in any case, off when it is blank or not set. -/
def getFlag (o : Options) (key : String) : Except Invalid Bool :=
  match property o key with
  | none => .ok false
  | some s =>
    let word := (Text.strip s.toList).map Char.toLower
    if word = "true".toList then .ok true
    else if word = "false".toList ∨ word = [] then .ok false
    else .error ⟨key, s, .notFlag⟩

mutual

/-- Puts a value into the options: a scalar or an array as one of them, a table entry by entry, with the
key and a dot in front of the keys of the entries. -/
def flattenValue (o : Options) (key : String) : Toml.Value Toml.Scalar → Options
  | .table entries => flattenTable o (key ++ ".") entries
  | .scalar (.string s) => OrderedMap.insert o key s
  | v => OrderedMap.insert o key v.text

def flattenTable (o : Options) (start : String) : List (String × Toml.Value Toml.Scalar) → Options
  | [] => o
  | (k, v) :: es => flattenTable (flattenValue o (start ++ k) v) start es

end

def ofTable (entries : List (String × Toml.Value Toml.Scalar)) : Options :=
  flattenTable OrderedMap.empty "" entries

def ofToml (s : String) : Option Options := (Toml.read s).map ofTable

end Options

end GeneratorKit
