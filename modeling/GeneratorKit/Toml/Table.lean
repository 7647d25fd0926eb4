import GeneratorKit.Map.Sorted
import GeneratorKit.Toml.Reader

set_option autoImplicit false

/-!
# Assembling TOML tables

The entries and sections of a document are put together into one table. A table remembers how it came
about, since that decides what may still be added to it.
-/
namespace GeneratorKit.Toml

/-- How a table came about: named by a header or a document of its own, passed through by the path of
a header, or passed through by the path of an entry. -/
inductive Origin where
  | named
  | passed
  | dotted
  deriving DecidableEq

/-- A value that can still change while a document is assembled. -/
inductive Node where
  | value (v : Value Literal)
  | table (origin : Origin) (entries : List (String × Node))
  | rows (tables : List (List (String × Node)))

abbrev Entries := List (String × Node)

/-- Follows a path and changes the table at its end. Missing tables are made on the way. The path of
an entry may not enter a table that a header has named; no path enters a finished value. -/
def descend (dotted : Bool) (change : Origin → Entries → Option Entries) :
    List String → Origin → Entries → Option Entries
  | [], origin, es => change origin es
  | k :: ks, _, es =>
    match es.lookup k with
    | none => do
      let made := if dotted then Origin.dotted else .passed
      return SortedMap.place k (.table made (← descend dotted change ks made [])) es
    | some (.table origin inner) => do
      guard (¬(dotted ∧ origin = .named))
      return SortedMap.place k (.table origin (← descend dotted change ks origin inner)) es
    | some (.rows tables) => do
      let inner ← tables.getLast?
      let inner ← descend dotted change ks .named inner
      return SortedMap.place k (.rows (tables.dropLast ++ [inner])) es
    | some (.value _) => none

/-- Adds an entry. Its key has to be new, and the table it goes to has to be made by dotted keys
exactly if the entry has a path. -/
def addEntry (name : KeyPath) (node : Node) : Entries → Option Entries :=
  let dotted := !name.path.isEmpty
  descend dotted (fun origin es => do
    guard (dotted = (origin = .dotted))
    guard (es.lookup name.key).isNone
    return SortedMap.place name.key node es) name.path .named

mutual

def Node.toValue : Node → Value Literal
  | .value v => v
  | .table _ es => .table (toValues es)
  | .rows tables => .array (toTables tables)

def toValues : List (String × Node) → List (String × Value Literal)
  | [] => []
  | (k, n) :: es => (k, n.toValue) :: toValues es

def toTables : List (List (String × Node)) → List (Value Literal)
  | [] => []
  | es :: rest => .table (toValues es) :: toTables rest

end

mutual

def ofTerm : Term → Option (Value Literal)
  | .scalar l => some (.scalar l)
  | .array items => (ofTerms items).map .array
  | .table entries => (addTerms entries []).map fun es => .table (toValues es)

def ofTerms : List Term → Option (List (Value Literal))
  | [] => some []
  | t :: ts => do return (← ofTerm t) :: (← ofTerms ts)

def addTerms : List (KeyPath × Term) → Entries → Option Entries
  | [], es => some es
  | (name, t) :: rest, es => do
    let v ← ofTerm t
    let es ← addEntry name (.value v) es
    addTerms rest es

end

/-- Adds a section. A table may be named once, also when it has been passed through before; a row
goes to an array of rows. -/
def addSection (s : Section) (root : Entries) : Option Entries :=
  match s.header with
  | .table name =>
    descend false (fun _ es => do
      let inner ← match es.lookup name.key with
        | none => some []
        | some (.table .passed inner) => some inner
        | some _ => none
      return SortedMap.place name.key (.table .named (← addTerms s.entries inner)) es)
      name.path .named root
  | .row name =>
    descend false (fun _ es => do
      let above ← match es.lookup name.key with
        | none => some []
        | some (.rows tables) => some tables
        | some _ => none
      return SortedMap.place name.key (.rows (above ++ [← addTerms s.entries []])) es)
      name.path .named root

/-- The table of a document: its entries with ascending keys. -/
def Document.table (d : Document) : Option (List (String × Value Literal)) := do
  let root ← addTerms d.entries []
  let root ← d.sections.foldlM (fun root s => addSection s root) root
  return toValues root

end GeneratorKit.Toml
