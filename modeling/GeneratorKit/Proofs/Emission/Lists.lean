import GeneratorKit.Emission.Lists
import GeneratorKit.Proofs.Emission.Statement
import GeneratorKit.Proofs.Emission.Twins

set_option autoImplicit false

/-!
# Separators

Two ways to put separators between items: one after every item and the last one dropped, or one before every item
but the first. Both write the items joined by the separator (`run_separated`, `run_joined`), and on the way neither
takes anything from the text that was there (`Writer.Keeps`). The text has got longer exactly when there is a
separator to drop (`size_lt_size_run_trailed`). Joining stops behind the separator of the first item that fails
(`lists_add`).
-/
namespace GeneratorKit.Emission
open Code Storage

/-- Whether an edit does nothing but write, perhaps in vain. -/
def Edit.writes : Edit → Bool
  | .text _ | .indent | .rendering _ | .pieces _ => true
  | _ => false

namespace Writer

/-- The level is still that of a draft, and the text still begins with what the draft holds. -/
structure Holds (d : Draft) (w : Writer) : Prop where
  level : w.level = d.level
  text : ∃ s, w.text = d.text ++ s

/-- On the way of a run no writer has lost anything that a draft holds. -/
def Keeps (d : Draft) (w : Writer) (es : List Edit) : Prop :=
  ∀ before, before <+: es → Holds d (w.run before).1

variable {d : Draft} {w : Writer}

theorem holds_draft (w : Writer) : Holds w.draft w := ⟨rfl, "", String.append_empty.symm⟩

theorem Holds.append (h : Holds d w) (hw : w.Sound) (s : String) : Holds d (w.append s).1 := by
  have hv := Buffer.append_view hw.buffer hw.pool s
  unfold Writer.append
  rcases hr : w.buffer.append s w.pool with ⟨p, f | b⟩
  · exact ⟨h.level, h.text⟩
  · rw [hr] at hv
    obtain ⟨t, ht⟩ := h.text
    have htext : b.text = w.text ++ s := View.append_text hv.symm
    exact ⟨h.level, t ++ s, by rw [Writer.text, htext, ht, String.append_assoc]⟩

theorem Holds.appendAll (h : Holds d w) (hw : w.Sound) (ss : List String) :
    Holds d (Writer.appendAll ss w).1 := by
  induction ss generalizing w with
  | nil => exact h
  | cons s ss ih =>
    have hs := h.append hw s
    have hsound := (append_tracks hw s).sound
    rw [Writer.appendAll]
    rcases hr : w.append s with ⟨v, _ | stop⟩
    · rw [hr] at hs hsound
      exact ih hs hsound
    · rwa [hr] at hs

theorem Holds.appendRendering (h : Holds d w) (hw : w.Sound) (r : Rendering) :
    Holds d (w.appendRendering r).1 := by
  have hall := h.appendAll hw r.pieces
  have hown := (holds_draft w).appendAll hw r.pieces
  unfold Writer.appendRendering
  rcases hr : Writer.appendAll r.pieces w with ⟨v, _ | stop⟩
  · rw [hr] at hall hown
    cases r.fails with
    | false => exact hall
    | true =>
      -- the way back leads to the text that was there before the rendering began
      obtain ⟨s, hs⟩ := hown.text
      have hc : Text.cut? v.buffer.text w.size = some w.text := by
        rw [show v.buffer.text = w.text ++ s from hs]
        exact Text.cut?_append w.text s
      simp only [Buffer.truncate_eq, hc, if_true]
      exact ⟨hall.level, h.text⟩
  · rwa [hr] at hall

theorem Holds.step (h : Holds d w) (hw : w.Sound) {e : Edit} (he : e.writes = true) : Holds d (w.step e).1 := by
  cases e with
  | text s => exact h.append hw s
  | indent => exact h.appendAll hw _
  | rendering r => exact h.appendRendering hw r
  | pieces r => exact h.appendAll hw r.pieces
  | _ => cases he

theorem Holds.run (h : Holds d w) (hw : w.Sound) {es : List Edit} (he : ∀ e ∈ es, e.writes = true) :
    Holds d (w.run es).1 := by
  induction es generalizing w with
  | nil => exact h
  | cons e es ih =>
    have hs := h.step hw (he e (by simp))
    have hsound := (step_tracks hw e).sound
    rw [Writer.run]
    rcases hr : w.step e with ⟨v, _ | stop⟩
    · rw [hr] at hs hsound
      exact ih hs hsound fun f hf => he f (by simp [hf])
    · rwa [hr] at hs

theorem Holds.keeps (h : Holds d w) (hw : w.Sound) {es : List Edit} (he : ∀ e ∈ es, e.writes = true) :
    Keeps d w es :=
  fun _ hb => h.run hw fun e hmem => he e (hb.subset hmem)

theorem Keeps.holds {es : List Edit} (h : Keeps d w es) : Holds d (w.run es).1 :=
  h es (List.prefix_refl es)

theorem Keeps.append {es fs : List Edit} (h : Keeps d w es) (hw : w.Sound)
    (hfs : ∀ v : Writer, v.Sound → Holds d v → w.run es = (v, none) → Keeps d v fs) :
    Keeps d w (es ++ fs) := by
  intro before hb
  rcases List.prefix_or_prefix_of_prefix hb (List.prefix_append es fs) with hb | ⟨after, rfl⟩
  · exact h before hb
  · have ha : after <+: fs := (List.prefix_append_right_inj es).1 hb
    have hholds := h.holds
    have hsound := (run_tracks hw es).sound
    rw [run_append]
    rcases hr : w.run es with ⟨v, _ | stop⟩
    · rw [hr] at hholds hsound
      exact hfs v hsound hholds hr after ha
    · rwa [hr] at hholds

/-- A draft that is still held loses nothing when what is dropped came after it. -/
theorem keeps_dropLast {s u : String} (hl : w.level = d.level) (ht : w.text = d.text ++ s ++ u) :
    Keeps d w [.dropLast u.utf8ByteSize] := by
  intro before hb
  have hsize : w.size - u.utf8ByteSize = (d.text ++ s).utf8ByteSize := by
    rw [show w.size = w.text.utf8ByteSize from rfl, ht, String.utf8ByteSize_append]
    omega
  rcases List.prefix_cons_iff.1 hb with rfl | ⟨after, rfl, ha⟩
  · exact ⟨hl, s ++ u, by rw [run, ht, String.append_assoc]⟩
  · rw [List.prefix_nil.1 ha, run, step, hsize, truncate_eq, ht, Text.cut?_append]
    exact ⟨hl, s, rfl⟩

/-- The edits add a text before they stop, and on the way they take nothing from what was there. Only for want of
room can it be otherwise. -/
structure Adds (w : Writer) (es : List Edit) (text : String) (stop : Option Stop) : Prop where
  outcome : ((w.run es).2 = stop ∧ (w.run es).1.text = w.text ++ text) ∨ NoRoom (w.run es).2 (w.peak es)
  kept : Keeps w.draft w es

theorem adds_of_run (h : w.Sound) {es : List Edit} {text : String} {stop : Option Stop}
    (hrun : w.draft.run w.indent.unit es = (w.draft.add text, stop)) (hk : Keeps w.draft w es) :
    w.Adds es text stop := by
  refine ⟨?_, hk⟩
  have ht := run_tracks h es
  rw [hrun] at ht
  exact ht.ends.imp_left fun ⟨hstop, _, htext⟩ => ⟨hstop, htext⟩

end Writer

theorem intercalate_cons (sep s : String) (ss : List String) :
    sep.intercalate (s :: ss) = s ++ String.join (ss.map (sep ++ ·)) := by
  induction ss generalizing s with
  | nil => simp
  | cons t ts ih => rw [String.intercalate_cons_cons, ih, List.map_cons, String.join_cons, String.append_assoc,
      String.append_assoc]

section Joining

variable (unit sep : String) (d : Draft) {rs : List Rendering}

/-- What comes in a joined list behind its first item. -/
def further (sep : String) (rs : List Rendering) : List Edit := rs.flatMap fun r => [.text sep, .rendering r]

theorem run_further (h : ∀ r ∈ rs, r.fails = false) :
    d.run unit (further sep rs) = (d.add (String.join (rs.map fun r => sep ++ r.text)), none) := by
  induction rs generalizing d with
  | nil => simp [further, Draft.run, Draft.add]
  | cons r rs ih =>
    have hr : r.fails = false := h r (by simp)
    have hrest := ih ((d.add sep).add r.text) fun q hq => h q (by simp [hq])
    rw [further] at hrest ⊢
    simp only [List.flatMap_cons, List.cons_append, List.nil_append, Draft.run, Draft.step, hr, hrest,
      Bool.false_eq_true, if_false, List.map_cons, String.join_cons]
    simp only [Draft.add, String.append_assoc]

/-- A joined list adds its items with the separator between them. -/
theorem run_joined (h : ∀ r ∈ rs, r.fails = false) :
    d.run unit (joined sep rs) = (d.add (sep.intercalate (rs.map Rendering.text)), none) := by
  cases rs with
  | nil => simp [joined, Draft.run, Draft.add]
  | cons r rs =>
    have hr : r.fails = false := h r (by simp)
    have hrest := run_further unit sep (d.add r.text) fun q hq => h q (List.mem_cons_of_mem r hq)
    rw [further] at hrest
    simp only [joined, Draft.run, Draft.step, hr, Bool.false_eq_true, if_false, hrest]
    rw [List.map_cons, intercalate_cons, List.map_map, Draft.add, Draft.add, Draft.add, String.append_assoc]
    rfl

/-- The separator in front of an item is written before the item is looked at. -/
theorem run_joined_failing (h : ∀ r ∈ rs, r.fails = false) {bad : Rendering} (hb : bad.fails = true)
    (rest : List Rendering) : d.run unit (joined sep (rs ++ bad :: rest)) =
      (d.add (sep.intercalate (rs.map Rendering.text) ++ if rs = [] then "" else sep),
        some (.refusal .format)) := by
  cases rs with
  | nil =>
    simp [joined, Draft.run, Draft.step, hb, Draft.add]
  | cons r rs =>
    have hsplit : joined sep ((r :: rs) ++ bad :: rest) =
        joined sep (r :: rs) ++ (.text sep :: .rendering bad :: further sep rest) := by
      simp [joined, further]
    rw [hsplit, Draft.run_append, run_joined unit sep d h]
    simp [Draft.run, Draft.step, hb, Draft.add, String.append_assoc]

theorem joined_writes (rs : List Rendering) : ∀ e ∈ joined sep rs, e.writes = true := by
  intro e he
  cases rs with
  | nil => cases he
  | cons r rs =>
    simp only [joined, List.mem_cons, List.mem_flatMap, List.not_mem_nil, or_false] at he
    rcases he with rfl | ⟨q, _, rfl | rfl⟩ <;> rfl

end Joining

section Separating

variable (unit : String) (d : Draft) {items : List (List String)}

/-- The texts of items with a separator after each. -/
def trailed (items : List (List String)) : List String := items.flatMap (· ++ [separator])

theorem join_trailed (h : items ≠ []) :
    String.join (trailed items) = separator.intercalate (items.map String.join) ++ separator := by
  induction items with
  | nil => exact absurd rfl h
  | cons item items ih =>
    rw [trailed, List.flatMap_cons, String.join_append, String.join_append, String.join_cons, String.join_nil,
      String.append_empty, List.map_cons]
    by_cases hi : items = []
    · subst hi
      simp
    · have hm : items.map String.join ≠ [] := mt List.map_eq_nil_iff.1 hi
      rw [String.intercalate_cons_of_ne_nil hm, ← trailed, ih hi, String.append_assoc, String.append_assoc,
        String.append_assoc]

theorem flatMap_trailed (items : List (List String)) :
    (items.map (·.map Edit.text)).flatMap (· ++ [Edit.text separator]) = (trailed items).map .text := by
  rw [List.flatMap_map, trailed, List.map_flatMap]
  simp only [List.map_append, List.map_cons, List.map_nil]

theorem separated_eq (h : items ≠ []) : separated (items.map (·.map Edit.text)) =
    (trailed items).map .text ++ [.dropLast separator.utf8ByteSize] := by
  rw [← flatMap_trailed]
  obtain ⟨item, rest, rfl⟩ := List.exists_cons_of_ne_nil h
  rfl

/-- Comparing lengths tells whether there is a separator to drop. -/
theorem size_lt_size_run_trailed :
    d.size < (d.run unit ((trailed items).map .text)).1.size ↔ items ≠ [] := by
  rw [run_texts, Draft.size_add]
  refine ⟨?_, fun h => ?_⟩
  · rintro hlt rfl
    simp [trailed] at hlt
  · have hsep : separator.utf8ByteSize = 2 := rfl
    rw [join_trailed h, String.utf8ByteSize_append, hsep]
    omega

/-- A separated list adds its items with the separator between them. -/
theorem run_separated : d.run unit (separated (items.map (·.map .text))) =
    (d.add (separator.intercalate (items.map String.join)), none) := by
  by_cases h : items = []
  · subst h
    simp [separated, Draft.run, Draft.add]
  · have hadd (s t : String) : d.add (s ++ t) = (d.add s).add t := by
      rw [Draft.add, Draft.add, Draft.add, String.append_assoc]
    rw [separated_eq h, Draft.run_append, run_texts, join_trailed h, hadd]
    exact (Draft.run_single unit _ _).trans (Draft.step_dropLast unit _ separator)

end Separating

namespace Writer

variable {w : Writer}

theorem texts_write (ts : List String) : ∀ e ∈ ts.map Edit.text, e.writes = true := by
  intro e he
  obtain ⟨t, _, rfl⟩ := List.mem_map.1 he
  rfl

/-- Looking at the length of the text comes to the same as looking at the items. -/
theorem run_separated_eq (h : w.Sound) (items : List (List String)) :
    w.run (separated (items.map (·.map .text))) = w.appendSeparated (items.map (·.map .text)) := by
  rw [appendSeparated, flatMap_trailed]
  have ht := run_tracks h ((trailed items).map .text)
  rcases hr : w.run ((trailed items).map .text) with ⟨v, _ | stop⟩
  · rw [hr] at ht
    have hlt : w.size < v.size ↔ items ≠ [] := by
      have hd : _ ↔ items ≠ [] := size_lt_size_run_trailed w.indent.unit w.draft
      rwa [ht.eq_of_none] at hd
    simp only [andThen, trimSeparator, hlt]
    by_cases hi : items = []
    · subst hi
      exact hr
    · rw [if_pos hi, separated_eq hi, run_append, hr]
      exact run_single v _
  · have hi : items ≠ [] := by
      rintro rfl
      cases hr
    rw [separated_eq hi, run_append, hr]
    rfl

/-- The last separator is dropped from behind the items, so nothing that was there before is touched. -/
theorem keeps_separated {d : Draft} (hd : Holds d w) (h : w.Sound) (items : List (List String)) :
    Keeps d w (separated (items.map (·.map .text))) := by
  by_cases hi : items = []
  · subst hi
    exact hd.keeps h nofun
  · rw [separated_eq hi]
    refine (hd.keeps h (texts_write _)).append h fun v _ _ hv => ?_
    have ht := run_tracks h ((trailed items).map .text)
    rw [hv, Emission.run_texts, join_trailed hi] at ht
    have hdraft : v.draft = w.draft.add (separator.intercalate (items.map String.join) ++ separator) :=
      congrArg Prod.fst ht.eq_of_none.symm
    obtain ⟨s, hs⟩ := hd.text
    refine keeps_dropLast (s := s ++ separator.intercalate (items.map String.join))
      ((congrArg Draft.level hdraft).trans hd.level) ?_
    rw [show v.text = _ from congrArg Draft.text hdraft, Draft.add, draft_text, hs, String.append_assoc,
      String.append_assoc, String.append_assoc]

theorem keeps_generics {d : Draft} (hd : Holds d w) (h : w.Sound) (items : List (List String)) :
    Keeps d w (.text "<" :: separated (items.map (·.map .text)) ++ [.text ">"]) := by
  have hinner : Keeps d w ([.text "<"] ++ separated (items.map (·.map .text))) :=
    (hd.keeps h (texts_write ["<"])).append h fun v hv hdv _ => keeps_separated hdv hv items
  exact hinner.append h fun v hv hdv _ => hdv.keeps hv (texts_write [">"])

end Writer

theorem map_argument (items : List (TypeName × String)) :
    (items.map fun (t, name) => argument t name) =
      (items.map fun (t, name) => [t.text, " ", name]).map (·.map .text) := by
  rw [List.map_map]
  rfl

theorem map_typeName (ts : List TypeName) :
    ts.map typeName = (ts.map fun t => [t.text]).map (·.map .text) := by
  rw [List.map_map]
  rfl

theorem generics_of_ne_nil {ts : List TypeName} (h : ts ≠ []) :
    generics ts = .text "<" :: separated (ts.map typeName) ++ [.text ">"] := by
  rw [generics, if_neg (by simpa using h)]

def argumentText (item : TypeName × String) : String := item.1.text ++ " " ++ item.2

/-- Items as renderings that do not fail. -/
def Renders (rs : List Rendering) (texts : List String) : Prop :=
  (∀ r ∈ rs, r.fails = false) ∧ rs.map Rendering.text = texts

namespace Writer

variable {w : Writer}

theorem run_arguments_eq (h : w.Sound) (items : List (TypeName × String)) :
    w.run (arguments items) = w.appendSeparated (items.map fun (t, name) => argument t name) := by
  rw [arguments, map_argument]
  exact run_separated_eq h _

theorem run_generics_eq (h : w.Sound) (ts : List TypeName) : w.run (generics ts) = w.appendGenerics ts := by
  by_cases hts : ts = []
  · subst hts
    rfl
  · rw [generics_of_ne_nil hts, appendGenerics, if_neg (by simpa using hts), map_typeName, List.cons_append, run_cons,
      step]
    have hv := (append_tracks h "<").sound
    rcases hr : w.append "<" with ⟨v, _ | stop⟩
    · rw [hr] at hv
      simp only [andThen]
      rw [run_append, run_separated_eq hv]
      rcases v.appendSeparated _ with ⟨u, _ | stop⟩
      · exact run_single u _
      · rfl
    · rfl

theorem adds_nil (h : w.Sound) : w.Adds [] "" none :=
  adds_of_run h (by simp [Draft.run, Draft.add, draft]) ((holds_draft w).keeps h nofun)

theorem adds_provided (h : w.Sound) (condition : Bool) {es : List Edit} {text : String} (he : w.Adds es text none) :
    w.Adds (provided condition es) (if condition then text else "") none := by
  cases condition with
  | false => exact adds_nil h
  | true => exact he

theorem adds_arguments (h : w.Sound) (items : List (TypeName × String)) :
    w.Adds (arguments items) (separator.intercalate (items.map argumentText)) none := by
  have htexts : (items.map fun (t, name) => [t.text, " ", name]).map String.join = items.map argumentText := by
    rw [List.map_map]
    exact List.map_congr_left fun item _ => by simp [argumentText, String.append_assoc]
  rw [arguments, map_argument, ← htexts]
  exact adds_of_run h (run_separated _ _) (keeps_separated (holds_draft w) h _)

theorem adds_generics (h : w.Sound) (ts : List TypeName) :
    w.Adds (generics ts)
      (if ts = [] then "" else "<" ++ separator.intercalate (ts.map TypeName.text) ++ ">") none := by
  by_cases hts : ts = []
  · subst hts
    exact adds_nil h
  · have htexts : (ts.map fun t => [t.text]).map String.join = ts.map TypeName.text := by
      rw [List.map_map]
      exact List.map_congr_left fun t _ => by simp
    rw [generics_of_ne_nil hts, map_typeName, if_neg hts, ← htexts]
    refine adds_of_run h ?_ (keeps_generics (holds_draft w) h _)
    rw [Draft.run_append, Draft.run, Draft.step]
    simp only [run_separated, Draft.run_single, Draft.step, Draft.add, String.append_assoc]

theorem adds_joined (h : w.Sound) (sep : String) {rs : List Rendering} (hrs : ∀ r ∈ rs, r.fails = false) :
    w.Adds (joined sep rs) (sep.intercalate (rs.map Rendering.text)) none :=
  adds_of_run h (run_joined _ sep _ hrs) ((holds_draft w).keeps h (joined_writes sep rs))

end Writer

/-- A list that writes a separator too many and trims it, if the text has got longer, adds the same text as a joined
list of the same items. A joined list stops at the first item that fails, behind the items before it and the separator
in front of it; where it depends on a condition that does not hold, nothing is added. None of them changes the level or
takes anything from the text before it. -/
theorem lists_add {w : Writer} (h : w.Sound) :
    (∀ items : List (TypeName × String),
      let text := separator.intercalate (items.map argumentText)
      w.run (arguments items) = w.appendSeparated (items.map fun (t, name) => argument t name) ∧
        w.Adds (arguments items) text none ∧
          ∀ rs, Renders rs (items.map argumentText) → w.Adds (joined separator rs) text none) ∧
    (∀ ts : List TypeName,
      let text := separator.intercalate (ts.map TypeName.text)
      w.run (generics ts) = w.appendGenerics ts ∧
        w.Adds (generics ts) (if ts = [] then "" else "<" ++ text ++ ">") none ∧
          ∀ rs, Renders rs (ts.map TypeName.text) → w.Adds (joined separator rs) text none) ∧
    (∀ t : TypeRef, (TypeName.reference t).text = t.display) ∧
    (∀ (condition : Bool) (sep : String) (rs : List Rendering), (∀ r ∈ rs, r.fails = false) →
      w.Adds (joinedIf condition sep rs)
        (if condition then sep.intercalate (rs.map Rendering.text) else "") none) ∧
    ∀ (sep : String) (rs : List Rendering) (bad : Rendering) (rest : List Rendering),
      (∀ r ∈ rs, r.fails = false) → bad.fails = true →
        w.Adds (joined sep (rs ++ bad :: rest))
          (sep.intercalate (rs.map Rendering.text) ++ if rs = [] then "" else sep) (some (.refusal .format)) := by
  have hjoined (texts : List String) (rs : List Rendering) (hr : Renders rs texts) :
      w.Adds (joined separator rs) (separator.intercalate texts) none :=
    hr.2 ▸ w.adds_joined h separator hr.1
  refine ⟨fun items => ⟨w.run_arguments_eq h items, w.adds_arguments h items, hjoined _⟩,
    fun ts => ⟨w.run_generics_eq h ts, w.adds_generics h ts, hjoined _⟩, fun t => rfl,
    fun condition sep rs hrs => w.adds_provided h condition (w.adds_joined h sep hrs),
    fun sep rs bad rest hrs hbad => ?_⟩
  exact Writer.adds_of_run h (run_joined_failing _ sep _ hrs hbad rest)
    ((Writer.holds_draft w).keeps h (joined_writes sep _))

/-- The text ends with a separator, and so do items; the buffer has no room for what is to come. -/
theorem lists_add_trailing :
    let w : Writer := ⟨2, .tab, ⟨⟨4, "f, "⟩, 4, false⟩, .standard⟩
    let items : List (TypeName × String) := [(.literal "é, ", ""), (.reference (.array .int), ", ")]
    let failing : List Rendering := [.of ["é", ", "], ⟨["lost"], true⟩, .of ["late"]]
    w.Sound ∧ (w.run (arguments items)).2 = none ∧ (w.run (arguments items)).1.text = "f, é,  , int[] , " ∧
      (w.run (joined ", " failing)).2 = some (.refusal .format) ∧
        (w.run (joined ", " failing)).1.text = "f, é, , " := by
  intro w items failing
  have hw : w.Sound := ⟨⟨by decide, by decide, by decide⟩, Pool.sound_withLimits _ _⟩
  have hlists := lists_add hw
  have harguments := (hlists.1 items).2.1.outcome.resolve_right fun h => absurd h.long (by decide +kernel)
  have hfailing := (hlists.2.2.2.2 ", " [.of ["é", ", "]] ⟨["lost"], true⟩ [.of ["late"]] (by decide) rfl).outcome
    |>.resolve_right fun h => absurd h.long (by decide +kernel)
  exact ⟨hw, harguments.1, harguments.2.trans (by decide +kernel), hfailing.1, hfailing.2.trans (by decide +kernel)⟩

end GeneratorKit.Emission
