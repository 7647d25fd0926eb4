import GeneratorKit.Toml.Resolution
import Mathlib.Data.Option.Basic

set_option autoImplicit false

/-!
# Tables in the order of their keys

A document may give its entries in any order and add to a table from many places. However it is assembled, the keys
of every table in it ascend (`ascending_read`), so no key stands twice in one table.
-/
namespace GeneratorKit.Toml

section Values
variable {α : Type}

/-- The keys of every table in a value ascend. -/
inductive Value.Ascending : Value α → Prop where
  | scalar (a : α) : Ascending (.scalar a)
  | array {items : List (Value α)} (h : ∀ v ∈ items, Ascending v) : Ascending (.array items)
  | table {entries : List (String × Value α)} (keys : entries.Pairwise (·.1 < ·.1))
    (h : ∀ e ∈ entries, Ascending e.2) : Ascending (.table entries)

/-- The keys of a table, and of every table in it, ascend. -/
structure AscendingEntries (es : List (String × Value α)) : Prop where
  keys : es.Pairwise (·.1 < ·.1)
  values : ∀ e ∈ es, e.2.Ascending

theorem Value.ascending_table {es : List (String × Value α)} : (Value.table es).Ascending ↔ AscendingEntries es := by
  constructor
  · rintro (_ | _ | ⟨hk, hv⟩)
    exact ⟨hk, hv⟩
  · exact fun h => .table h.keys h.values

/-- Entries with the same keys ascend alike. -/
theorem ascending_of_keys {β : Type} {es : List (String × α)} {fs : List (String × β)}
    (hk : fs.map (·.1) = es.map (·.1)) (h : es.Pairwise (·.1 < ·.1)) : fs.Pairwise (·.1 < ·.1) := by
  have he : (es.map (·.1)).Pairwise (· < ·) := List.pairwise_map.2 h
  rw [← hk] at he
  exact List.pairwise_map.1 he

end Values

section Nodes

inductive Node.Ascending : Node → Prop where
  | value {v : Value Literal} (h : v.Ascending) : Ascending (.value v)
  | table {origin : Origin} {es : Entries} (keys : es.Pairwise (·.1 < ·.1)) (h : ∀ e ∈ es, Ascending e.2) :
    Ascending (.table origin es)
  | rows {tables : List Entries} (keys : ∀ es ∈ tables, es.Pairwise (·.1 < ·.1))
    (h : ∀ es ∈ tables, ∀ e ∈ es, Ascending e.2) : Ascending (.rows tables)

structure Entries.Ascending (es : Entries) : Prop where
  keys : es.Pairwise (·.1 < ·.1)
  nodes : ∀ e ∈ es, e.2.Ascending

namespace Entries.Ascending

theorem nil : Entries.Ascending [] := ⟨.nil, by simp⟩

theorem table {es : Entries} (h : es.Ascending) (origin : Origin) : (Node.table origin es).Ascending :=
  .table h.keys h.nodes

theorem place {es : Entries} {n : Node} (h : es.Ascending) (hn : n.Ascending) (k : String) :
    Entries.Ascending (SortedMap.place k n es) where
  keys := SortedMap.sorted_place k n h.keys
  nodes e he := by
    rcases SortedMap.mem_place he with rfl | he
    · exact hn
    · exact h.nodes e he

theorem lookup {es : Entries} {k : String} {n : Node} (h : es.Ascending) (hk : es.lookup k = some n) :
    n.Ascending := by
  obtain ⟨before, after, rfl, _⟩ := List.lookup_eq_some_iff.1 hk
  exact h.nodes (k, n) (by simp)

theorem inner {es inner : Entries} {k : String} {origin : Origin} (h : es.Ascending)
    (hk : es.lookup k = some (.table origin inner)) : inner.Ascending := by
  cases h.lookup hk with
  | table keys h => exact ⟨keys, h⟩

theorem row {es row : Entries} {tables : List Entries} {k : String} (h : es.Ascending)
    (hk : es.lookup k = some (.rows tables)) (hr : row ∈ tables) : row.Ascending := by
  cases h.lookup hk with
  | rows keys h => exact ⟨keys row hr, h row hr⟩

end Entries.Ascending

theorem ascending_rows {tables : List Entries} (h : ∀ es ∈ tables, es.Ascending) : (Node.rows tables).Ascending :=
  .rows (fun es he => (h es he).keys) fun es he => (h es he).nodes

/-- What changes one table into an ascending one does so at the end of any path. -/
theorem descend_ascending {dotted : Bool} {change : Origin → Entries → Option Entries}
    (hc : ∀ {origin es fs}, Entries.Ascending es → change origin es = some fs → Entries.Ascending fs) :
    ∀ {ks : List String} {origin : Origin} {es fs : Entries}, es.Ascending →
      descend dotted change ks origin es = some fs → fs.Ascending
  | [], _, _, _, h, hd => hc h hd
  | k :: ks, _, es, fs, h, hd => by
    rw [descend] at hd
    split at hd
    · simp only [Option.bind_eq_bind, Option.bind_eq_some_iff] at hd
      obtain ⟨inner, hinner, hd⟩ := hd
      obtain rfl := Option.some_inj.1 hd
      exact h.place ((descend_ascending hc .nil hinner).table _) k
    · next origin inner hk =>
      simp only [Option.bind_eq_bind, Option.bind_eq_some_iff] at hd
      obtain ⟨_, _, inner', hinner, hd⟩ := hd
      obtain rfl := Option.some_inj.1 hd
      exact h.place ((descend_ascending hc (h.inner hk) hinner).table _) k
    · next tables hk =>
      simp only [Option.bind_eq_bind, Option.bind_eq_some_iff] at hd
      obtain ⟨last, hlast, inner, hinner, hd⟩ := hd
      obtain rfl := Option.some_inj.1 hd
      refine h.place (ascending_rows fun row hr => ?_) k
      rcases List.mem_append.1 hr with hr | hr
      · exact h.row hk ((List.dropLast_sublist tables).subset hr)
      · rw [List.mem_singleton.1 hr]
        exact descend_ascending hc (h.row hk (List.mem_of_getLast? hlast)) hinner
    · cases hd

theorem addEntry_ascending {name : KeyPath} {n : Node} {es fs : Entries} (hn : n.Ascending) (h : es.Ascending)
    (ha : addEntry name n es = some fs) : fs.Ascending := by
  refine descend_ascending (fun {origin es fs} h hc => ?_) h ha
  simp only [Option.bind_eq_bind, Option.bind_eq_some_iff] at hc
  obtain ⟨_, _, _, _, hc⟩ := hc
  obtain rfl := Option.some_inj.1 hc
  exact h.place hn name.key

theorem keys_toValues (es : Entries) : (toValues es).map (·.1) = es.map (·.1) := by
  induction es with
  | nil => rfl
  | cons e es ih => rw [toValues, List.map_cons, ih, List.map_cons]

mutual

theorem toValue_ascending : ∀ {n : Node}, n.Ascending → n.toValue.Ascending
  | .value _, .value h => h
  | .table _ es, .table keys h => .table (ascending_of_keys (keys_toValues es) keys) (toValues_ascending h)
  | .rows _, .rows keys h => .array (toTables_ascending keys h)

theorem toValues_ascending : ∀ {es : Entries}, (∀ e ∈ es, e.2.Ascending) → ∀ e ∈ toValues es, e.2.Ascending
  | [], _, _, he => by cases he
  | (k, n) :: es, h, e, he => by
    rcases List.mem_cons.1 he with rfl | he
    · exact toValue_ascending (h (k, n) List.mem_cons_self)
    · exact toValues_ascending (fun e he => h e (List.mem_cons_of_mem _ he)) e he

theorem toTables_ascending : ∀ {tables : List Entries}, (∀ es ∈ tables, es.Pairwise (·.1 < ·.1)) →
    (∀ es ∈ tables, ∀ e ∈ es, e.2.Ascending) → ∀ v ∈ toTables tables, v.Ascending
  | [], _, _, _, hv => by cases hv
  | es :: rest, keys, h, v, hv => by
    rcases List.mem_cons.1 hv with rfl | hv
    · exact .table (ascending_of_keys (keys_toValues es) (keys es List.mem_cons_self))
        (toValues_ascending (h es List.mem_cons_self))
    · exact toTables_ascending (fun es he => keys es (List.mem_cons_of_mem _ he))
        (fun es he => h es (List.mem_cons_of_mem _ he)) v hv

end

theorem ascending_toValues {es : Entries} (h : es.Ascending) : AscendingEntries (toValues es) :=
  ⟨ascending_of_keys (keys_toValues es) h.keys, toValues_ascending h.nodes⟩

end Nodes

section Documents

-- A term is nested in two ways: as an item, and as the value of an entry that goes to a table under assembly.
mutual

theorem ofTerm_ascending : ∀ {t : Term} {v : Value Literal}, ofTerm t = some v → v.Ascending
  | .scalar l, v, h => by
    obtain rfl := Option.some_inj.1 h
    exact .scalar l
  | .array items, v, h => by
    obtain ⟨vs, hvs, rfl⟩ := Option.map_eq_some_iff.1 h
    exact .array (ofTerms_ascending hvs)
  | .table entries, v, h => by
    obtain ⟨es, hes, rfl⟩ := Option.map_eq_some_iff.1 h
    exact Value.ascending_table.2 (ascending_toValues (addTerms_ascending .nil hes))

theorem ofTerms_ascending : ∀ {ts : List Term} {vs : List (Value Literal)}, ofTerms ts = some vs →
    ∀ v ∈ vs, v.Ascending
  | [], vs, h, v, hv => by
    obtain rfl := Option.some_inj.1 h
    cases hv
  | t :: ts, vs, h, v, hv => by
    simp only [ofTerms, Option.bind_eq_bind, Option.bind_eq_some_iff] at h
    obtain ⟨w, hw, ws, hws, h⟩ := h
    obtain rfl := Option.some_inj.1 h
    rcases List.mem_cons.1 hv with rfl | hv
    · exact ofTerm_ascending hw
    · exact ofTerms_ascending hws v hv

theorem addTerms_ascending : ∀ {ts : List (KeyPath × Term)} {es fs : Entries}, es.Ascending →
    addTerms ts es = some fs → fs.Ascending
  | [], es, fs, h, ha => by
    obtain rfl := Option.some_inj.1 ha
    exact h
  | (name, t) :: rest, es, fs, h, ha => by
    simp only [addTerms, Option.bind_eq_bind, Option.bind_eq_some_iff] at ha
    obtain ⟨v, hv, gs, hgs, ha⟩ := ha
    exact addTerms_ascending (addEntry_ascending (.value (ofTerm_ascending hv)) h hgs) ha

end

theorem addSection_ascending {s : Section} {root fs : Entries} (h : root.Ascending)
    (ha : addSection s root = some fs) : fs.Ascending := by
  rw [addSection] at ha
  split at ha
  · next name _ =>
    refine descend_ascending (fun {origin es fs} h hc => ?_) h ha
    have named {inner gs : Entries} (hi : inner.Ascending) (hg : addTerms s.entries inner = some gs) :
        Entries.Ascending (SortedMap.place name.key (.table .named gs) es) :=
      h.place ((addTerms_ascending hi hg).table .named) name.key
    simp only [Option.bind_eq_bind] at hc
    split at hc
    · rw [Option.bind_some] at hc
      obtain ⟨gs, hg, hc⟩ := Option.bind_eq_some_iff.1 hc
      exact Option.some_inj.1 hc ▸ named .nil hg
    · next inner hk =>
      rw [Option.bind_some] at hc
      obtain ⟨gs, hg, hc⟩ := Option.bind_eq_some_iff.1 hc
      exact Option.some_inj.1 hc ▸ named (h.inner hk) hg
    · cases hc
  · next name _ =>
    refine descend_ascending (fun {origin es fs} h hc => ?_) h ha
    have below {above : List Entries} {row : Entries} (hb : ∀ es ∈ above, es.Ascending)
        (hr : addTerms s.entries [] = some row) :
        Entries.Ascending (SortedMap.place name.key (.rows (above ++ [row])) es) := by
      refine h.place (ascending_rows fun es he => ?_) name.key
      rcases List.mem_append.1 he with he | he
      · exact hb es he
      · exact List.mem_singleton.1 he ▸ addTerms_ascending .nil hr
    simp only [Option.bind_eq_bind] at hc
    split at hc
    · rw [Option.bind_some] at hc
      obtain ⟨row, hr, hc⟩ := Option.bind_eq_some_iff.1 hc
      exact Option.some_inj.1 hc ▸ below (by simp) hr
    · next tables hk =>
      rw [Option.bind_some] at hc
      obtain ⟨row, hr, hc⟩ := Option.bind_eq_some_iff.1 hc
      exact Option.some_inj.1 hc ▸ below (fun es he => h.row hk he) hr
    · cases hc

theorem foldlM_addSection_ascending {ss : List Section} {root fs : Entries} (h : root.Ascending)
    (hf : ss.foldlM (fun root s => addSection s root) root = some fs) : fs.Ascending := by
  induction ss generalizing root with
  | nil => exact Option.some_inj.1 hf ▸ h
  | cons s ss ih =>
    rw [List.foldlM_cons] at hf
    obtain ⟨next, hn, hf⟩ := Option.bind_eq_some_iff.1 hf
    exact ih (addSection_ascending h hn) hf

theorem table_ascending {d : Document} {es : List (String × Value Literal)} (h : d.table = some es) :
    AscendingEntries es := by
  simp only [Document.table, Option.bind_eq_bind, Option.bind_eq_some_iff] at h
  obtain ⟨root, hroot, fs, hfs, h⟩ := h
  exact Option.some_inj.1 h ▸ ascending_toValues (foldlM_addSection_ascending (addTerms_ascending .nil hroot) hfs)

mutual

theorem resolve?_ascending : ∀ {v : Value Literal} {w : Value Scalar},
    v.Ascending → v.resolve? = some w → w.Ascending
  | .scalar l, w, _, h => by
    obtain ⟨s, _, rfl⟩ := Option.map_eq_some_iff.1 h
    exact .scalar s
  | .array items, w, .array hv, h => by
    obtain ⟨ws, hws, rfl⟩ := Option.map_eq_some_iff.1 h
    exact .array (resolveItems?_ascending hv hws)
  | .table entries, w, .table keys hv, h => by
    rw [Value.resolve?] at h
    split at h
    · obtain ⟨d, _, rfl⟩ := Option.map_eq_some_iff.1 h
      exact .scalar _
    · obtain ⟨es, hes, rfl⟩ := Option.map_eq_some_iff.1 h
      exact .table (ascending_of_keys (keys_of_resolveEntries? hes) keys) (resolveEntries?_ascending hv hes)

theorem resolveItems?_ascending : ∀ {vs : List (Value Literal)} {ws : List (Value Scalar)},
    (∀ v ∈ vs, v.Ascending) → resolveItems? vs = some ws → ∀ w ∈ ws, w.Ascending
  | [], ws, _, h, w, hw => by
    obtain rfl := Option.some_inj.1 h
    cases hw
  | v :: vs, ws, hv, h, w, hw => by
    simp only [resolveItems?, Option.bind_eq_bind, Option.bind_eq_some_iff] at h
    obtain ⟨r, hr, rs, hrs, h⟩ := h
    obtain rfl := Option.some_inj.1 h
    rcases List.mem_cons.1 hw with rfl | hw
    · exact resolve?_ascending (hv v List.mem_cons_self) hr
    · exact resolveItems?_ascending (fun v hm => hv v (List.mem_cons_of_mem _ hm)) hrs w hw

theorem resolveEntries?_ascending : ∀ {es : List (String × Value Literal)} {rs : List (String × Value Scalar)},
    (∀ e ∈ es, e.2.Ascending) → resolveEntries? es = some rs → ∀ e ∈ rs, e.2.Ascending
  | [], rs, _, h, e, he => by
    obtain rfl := Option.some_inj.1 h
    cases he
  | (k, v) :: es, rs, hv, h, e, he => by
    simp only [resolveEntries?, Option.bind_eq_bind, Option.bind_eq_some_iff] at h
    obtain ⟨r, hr, rest, hrest, h⟩ := h
    obtain rfl := Option.some_inj.1 h
    rcases List.mem_cons.1 he with rfl | he
    · exact resolve?_ascending (hv (k, v) List.mem_cons_self) hr
    · exact resolveEntries?_ascending (fun e hm => hv e (List.mem_cons_of_mem _ hm)) hrest e he

end

/-- The keys of every table ascend in what is read from a document. -/
theorem ascending_read {s : String} {es : List (String × Value Scalar)} (h : read s = some es) :
    AscendingEntries es := by
  simp only [read, Option.bind_eq_bind, Option.bind_eq_some_iff] at h
  obtain ⟨d, _, ls, hls, h⟩ := h
  have hl := table_ascending hls
  exact ⟨ascending_of_keys (keys_of_resolveEntries? h) hl.keys, resolveEntries?_ascending hl.values h⟩

end Documents

end GeneratorKit.Toml
