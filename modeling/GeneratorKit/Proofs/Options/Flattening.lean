import GeneratorKit.Options.Basic
import GeneratorKit.Proofs.Toml.Ascending

set_option autoImplicit false

/-!
# The options of a document

A table is a tree whose leaves are the values that are no tables. Each leaf is reached by one path of keys, and the
leaves stand in the order of their paths (`ordered_tableLeaves`). The options of the table are its leaves under their
joined paths. Joining keeps paths apart as long as no key has a dot in it (`path_eq_of_key_eq`). With a dot in a key,
two leaves may meet at one option: it stands where the first of them was met and has the text of the last.
-/
namespace GeneratorKit.Options
open Toml

/-- A value that is no table, with the keys that lead to it from the outermost table inwards. -/
structure Leaf where
  path : List String
  text : String
  deriving DecidableEq, Repr

namespace Leaf

def key (l : Leaf) : String := ".".intercalate l.path

def under (k : String) (l : Leaf) : Leaf := ⟨k :: l.path, l.text⟩

def pair (l : Leaf) : String × String := (l.key, l.text)

/-- No key on the way to the leaf has a dot in it. -/
def Dotless (l : Leaf) : Prop := ∀ k ∈ l.path, '.' ∉ k.toList

variable {l m : Leaf}

theorem key_under (k : String) (h : l.path ≠ []) : (l.under k).key = k ++ "." ++ l.key :=
  String.intercalate_cons_of_ne_nil h

theorem key_under_append (s k : String) (l : Leaf) : (l.under (s ++ k)).key = s ++ (l.under k).key :=
  String.intercalate_cons_append

theorem Dotless.splitOn_key (h : l.Dotless) (hl : l.path ≠ []) :
    l.key.toList.splitOn '.' = l.path.map String.toList := by
  rw [key, String.toList_intercalate]
  refine List.splitOn_intercalate '.' (fun cs hc => ?_) (by simpa using hl)
  obtain ⟨k, hk, rfl⟩ := List.mem_map.1 hc
  exact h k hk

/-- A joined path that has dots only between its keys gives back its keys, the empty ones too. -/
theorem path_eq_of_key_eq (hl : l.Dotless) (hm : m.Dotless) (nl : l.path ≠ []) (nm : m.path ≠ [])
    (h : l.key = m.key) : l.path = m.path := by
  have hs : l.path.map String.toList = m.path.map String.toList := by
    rw [← hl.splitOn_key nl, ← hm.splitOn_key nm, h]
  exact List.map_inj_right (fun _ _ => String.toList_inj.1) |>.1 hs

end Leaf

section Trees

mutual

/-- The leaves of a value, depth first. A scalar or an array is itself a leaf. -/
def valueLeaves : Value Scalar → List Leaf
  | .table entries => tableLeaves entries
  | .scalar (.string s) => [⟨[], s⟩]
  | v => [⟨[], v.text⟩]

def tableLeaves : List (String × Value Scalar) → List Leaf
  | [] => []
  | (k, v) :: es => (valueLeaves v).map (.under k) ++ tableLeaves es

end

theorem exists_of_mem_tableLeaves {es : List (String × Value Scalar)} {l : Leaf} (h : l ∈ tableLeaves es) :
    ∃ e ∈ es, ∃ m ∈ valueLeaves e.2, m.under e.1 = l := by
  induction es with
  | nil => cases h
  | cons e es ih =>
    rcases List.mem_append.1 h with h | h
    · obtain ⟨m, hm, rfl⟩ := List.mem_map.1 h
      exact ⟨e, List.mem_cons_self, m, hm, rfl⟩
    · obtain ⟨f, hf, m, hm, rfl⟩ := ih h
      exact ⟨f, List.mem_cons_of_mem e hf, m, hm, rfl⟩

theorem path_ne_nil {es : List (String × Value Scalar)} {l : Leaf} (h : l ∈ tableLeaves es) : l.path ≠ [] := by
  obtain ⟨e, _, m, _, rfl⟩ := exists_of_mem_tableLeaves h
  exact List.cons_ne_nil _ _

-- The beginning that is carried inwards is the joined path of the keys passed so far, and all tables write into the
-- same options, so what is there already is arbitrary.
mutual

theorem flattenValue_eq : ∀ (o : Options) (key : String) (v : Value Scalar), flattenValue o key v =
    ((valueLeaves v).map fun l => (l.under key).pair).foldl (fun o (k, s) => OrderedMap.insert o k s) o
  | o, key, .table entries => by
    rw [flattenValue, flattenTable_eq, valueLeaves]
    refine congrArg (List.foldl _ o) (List.map_congr_left fun l hl => ?_)
    rw [Leaf.pair, Leaf.key_under key (path_ne_nil hl)]
    rfl
  | o, key, .scalar (.string s) => by
    simp [flattenValue, valueLeaves, Leaf.pair, Leaf.under, Leaf.key]
  | o, key, .scalar (.integer _) | o, key, .scalar (.boolean _) | o, key, .scalar (.float _)
  | o, key, .scalar (.dateTime _) | o, key, .array _ => by
    simp [flattenValue, valueLeaves, Leaf.pair, Leaf.under, Leaf.key]

theorem flattenTable_eq : ∀ (o : Options) (start : String) (es : List (String × Value Scalar)),
    flattenTable o start es =
      ((tableLeaves es).map fun l => (start ++ l.key, l.text)).foldl (fun o (k, s) => OrderedMap.insert o k s) o
  | _, _, [] => rfl
  | o, start, (k, v) :: es => by
    rw [flattenTable, flattenValue_eq, flattenTable_eq, tableLeaves, List.map_append, List.foldl_append, List.map_map]
    refine congrArg (List.foldl _ · _) (congrArg (List.foldl _ o) (List.map_congr_left fun l _ => ?_))
    rw [Leaf.pair, Leaf.key_under_append]
    rfl

end

mutual

theorem ordered_valueLeaves : ∀ {v : Value Scalar}, v.Ascending → (valueLeaves v).Pairwise (·.path < ·.path)
  | .table _, .table keys h => ordered_tableLeaves keys h
  | .scalar (.string _), _ | .scalar (.integer _), _ | .scalar (.boolean _), _ | .scalar (.float _), _
  | .scalar (.dateTime _), _ | .array _, _ => List.pairwise_singleton _ _

/-- The leaves of a table stand in the order of their paths, key by key. -/
theorem ordered_tableLeaves : ∀ {es : List (String × Value Scalar)}, es.Pairwise (·.1 < ·.1) →
    (∀ e ∈ es, e.2.Ascending) → (tableLeaves es).Pairwise (·.path < ·.path)
  | [], _, _ => .nil
  | (k, v) :: es, keys, h => by
    obtain ⟨hk, hes⟩ := List.pairwise_cons.1 keys
    refine List.pairwise_append.2 ⟨?_, ?_, ?_⟩
    · refine List.pairwise_map.2 ((ordered_valueLeaves (h _ List.mem_cons_self)).imp fun hlt => ?_)
      exact List.cons_lt_cons_iff.2 (.inr ⟨rfl, hlt⟩)
    · exact ordered_tableLeaves hes fun e he => h e (List.mem_cons_of_mem _ he)
    · intro l hl m hm
      obtain ⟨l, _, rfl⟩ := List.mem_map.1 hl
      obtain ⟨e, he, m, _, rfl⟩ := exists_of_mem_tableLeaves hm
      exact List.cons_lt_cons_iff.2 (.inl (hk e he))

end

end Trees

section Pruning

mutual

/-- Takes out the tables that have no leaf, at any depth. -/
def prune : Value Scalar → Value Scalar
  | .table entries => .table (pruneEntries entries)
  | v => v

def pruneEntries : List (String × Value Scalar) → List (String × Value Scalar)
  | [] => []
  | (k, v) :: es =>
    match prune v with
    | .table [] => pruneEntries es
    | w => (k, w) :: pruneEntries es

end

mutual

theorem valueLeaves_prune : ∀ v : Value Scalar, valueLeaves (prune v) = valueLeaves v
  | .table entries => by
    rw [prune, valueLeaves, valueLeaves, tableLeaves_pruneEntries]
  | .scalar _ | .array _ => by rw [prune]; nofun

theorem tableLeaves_pruneEntries : ∀ es : List (String × Value Scalar),
    tableLeaves (pruneEntries es) = tableLeaves es
  | [] => rfl
  | (k, v) :: es => by
    have hv := valueLeaves_prune v
    rw [pruneEntries, tableLeaves]
    split
    · next hp =>
      rw [hp] at hv
      rw [tableLeaves_pruneEntries, ← hv]
      rfl
    · rw [tableLeaves, hv, tableLeaves_pruneEntries]

end

mutual

theorem prune_eq_of_leafless : ∀ {v : Value Scalar}, valueLeaves v = [] → prune v = .table []
  | .table _, h => congrArg Value.table (pruneEntries_eq_of_leafless h)
  | .scalar (.string _), h | .scalar (.integer _), h | .scalar (.boolean _), h | .scalar (.float _), h
  | .scalar (.dateTime _), h | .array _, h => absurd h (List.cons_ne_nil _ _)

theorem pruneEntries_eq_of_leafless : ∀ {es : List (String × Value Scalar)},
    tableLeaves es = [] → pruneEntries es = []
  | [], _ => rfl
  | (k, v) :: es, h => by
    obtain ⟨hv, hes⟩ := List.append_eq_nil_iff.1 h
    rw [pruneEntries, prune_eq_of_leafless (List.map_eq_nil_iff.1 hv)]
    exact pruneEntries_eq_of_leafless hes

end

theorem pruneEntries_eq_nil_iff {es : List (String × Value Scalar)} :
    pruneEntries es = [] ↔ tableLeaves es = [] := by
  refine ⟨fun h => ?_, pruneEntries_eq_of_leafless⟩
  rw [← tableLeaves_pruneEntries, h, tableLeaves]

theorem ofTable_pruneEntries (es : List (String × Value Scalar)) : ofTable (pruneEntries es) = ofTable es := by
  rw [ofTable, ofTable, flattenTable_eq, flattenTable_eq, tableLeaves_pruneEntries]

end Pruning

section Options

variable (es : List (String × Value Scalar))

theorem ofTable_eq : ofTable es = OrderedMap.ofList ((tableLeaves es).map Leaf.pair) := by
  rw [ofTable, flattenTable_eq]
  simp only [String.empty_append]
  rfl

theorem raw_ofTable (k : String) :
    raw (ofTable es) k = ((tableLeaves es).findRev? (·.key = k)).map (·.text) := by
  rw [raw, ofTable_eq, OrderedMap.get?_ofList]
  simp only [List.findRev?_eq_find?_reverse, ← List.map_reverse, List.find?_map, Option.map_map]
  rfl

theorem keys_ofTable : (ofTable es).keys = ((tableLeaves es).map Leaf.key).eraseDups := by
  rw [ofTable_eq, OrderedMap.keys_ofList, List.map_map]
  rfl

/-- The options are those of the leaves, a leaf giving way to a later one with the same joined path. -/
structure Flattens (o : Options) : Prop where
  /-- The leaves are met in the order of their paths, key by key. -/
  ordered : (tableLeaves es).Pairwise (·.path < ·.path)
  /-- The last leaf with a joined path has the say. -/
  raw (k : String) : o.raw k = ((tableLeaves es).findRev? (·.key = k)).map (·.text)
  /-- The first leaf with a joined path has given it its place. -/
  keys : o.keys = ((tableLeaves es).map Leaf.key).eraseDups
  values : o.values.map some = o.keys.map o.raw
  property (k : String) : o.property k = o.raw (".".intercalate ["build_property", k])
  pruned : ofTable (pruneEntries es) = o
  leafless : o.isEmpty = true ↔ pruneEntries es = []
  /-- With no dot in a key nothing is lost. -/
  separate : (∀ l ∈ tableLeaves es, l.Dotless) →
    ((tableLeaves es).map Leaf.key).Nodup ∧ o.entries = (tableLeaves es).map Leaf.pair ∧
      o.size = (tableLeaves es).length ∧ ∀ l ∈ tableLeaves es, o.raw l.key = some l.text

variable {es}

theorem nodup_keys (ho : (tableLeaves es).Pairwise (·.path < ·.path)) (hd : ∀ l ∈ tableLeaves es, l.Dotless) :
    ((tableLeaves es).map Leaf.key).Nodup := by
  refine List.pairwise_map.2 (ho.imp_of_mem fun {l m} hl hm hlt hkey => ?_)
  have hpath : l.path = m.path :=
    Leaf.path_eq_of_key_eq (hd l hl) (hd m hm) (path_ne_nil hl) (path_ne_nil hm) hkey
  rw [hpath] at hlt
  exact List.lt_irrefl _ hlt

theorem isEmpty_ofTable : (ofTable es).isEmpty = true ↔ tableLeaves es = [] := by
  have hk : (ofTable es).keys = [] ↔ tableLeaves es = [] := by
    rw [keys_ofTable]
    cases tableLeaves es <;> simp [List.eraseDups_cons]
  rw [← hk, OrderedMap.isEmpty, List.isEmpty_iff, OrderedMap.keys, List.map_eq_nil_iff]

theorem entries_ofTable (h : ((tableLeaves es).map Leaf.key).Nodup) :
    (ofTable es).entries = (tableLeaves es).map Leaf.pair := by
  rw [ofTable_eq]
  refine OrderedMap.entries_ofList ?_
  rw [List.map_map]
  exact h

theorem flattens_of_ascending (h : AscendingEntries es) : Flattens es (ofTable es) where
  ordered := ordered_tableLeaves h.keys h.values
  raw := raw_ofTable es
  keys := keys_ofTable es
  values := (OrderedMap.map_get?_keys _).symm
  property _ := rfl
  pruned := ofTable_pruneEntries es
  leafless := isEmpty_ofTable.trans pruneEntries_eq_nil_iff.symm
  separate hd := by
    have hn := nodup_keys (ordered_tableLeaves h.keys h.values) hd
    have he := entries_ofTable hn
    refine ⟨hn, he, ?_, fun l hl => ?_⟩
    · rw [OrderedMap.size, he, List.length_map]
    · exact OrderedMap.find?_mem (e := l.pair) (ofTable es).nodup (he ▸ List.mem_map_of_mem hl)

/-- Every table is flattened so when its keys and those of its tables ascend, as they do in what is read from a
document. -/
theorem flattens_ofTable :
    (∀ es, AscendingEntries es → Flattens es (ofTable es)) ∧
      ∀ s es, Toml.read s = some es → AscendingEntries es ∧ ofToml s = some (ofTable es) := by
  refine ⟨fun _ => flattens_of_ascending, fun s es h => ⟨ascending_read h, ?_⟩⟩
  rw [ofToml, h, Option.map_some]

-- The leaf at b of the table a is met first, before the one at a-x. The quoted key comes last and has the say.
theorem flattens_ofTable_quoted : ∃ es, Toml.read "\"a.b\" = 1\na-x = true\n[a]\nb = \"n\"\n[c]\n" = some es ∧
    Flattens es (ofTable es) ∧ (ofTable es).entries = [("a.b", "1"), ("a-x", "true")] := by
  have h : (Toml.read "\"a.b\" = 1\na-x = true\n[a]\nb = \"n\"\n[c]\n").map (fun es => (ofTable es).entries) =
      some [("a.b", "1"), ("a-x", "true")] := by decide +kernel
  obtain ⟨es, hes, hentries⟩ := Option.map_eq_some_iff.1 h
  exact ⟨es, hes, flattens_ofTable.1 es (flattens_ofTable.2 _ es hes).1, hentries⟩

end Options

end GeneratorKit.Options
