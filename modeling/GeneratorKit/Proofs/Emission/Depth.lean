import GeneratorKit.Proofs.Emission.Statement

set_option autoImplicit false

/-!
# Levels and lines

Statements, openings, closings and changes of the level, in any order, well nested or not. Each is a sequence of
strokes: a row, or a change of the level by one. Strokes that get to their end do so from any deeper level, and
what they write there is the same lines with the further indentation in front (`Stroke.runAll_shift`,
`run_deeper`).
-/
namespace GeneratorKit.Emission
open Storage

section Lines

/-- Puts characters in front of every line, the next one only if it begins here. -/
def shiftFrom (front : List Char) : Bool → List Char → List Char
  | _, [] => []
  | fresh, c :: cs => (if fresh then front else []) ++ c :: shiftFrom front (c == '\n') cs

def shiftLines (front s : String) : String := String.ofList (shiftFrom front.toList true s.toList)

def OneLine (s : String) : Prop := '\n' ∉ s.toList

instance (s : String) : Decidable (OneLine s) := inferInstanceAs (Decidable ('\n' ∉ s.toList))

/-- A text whose last line is at its end, if it has one. -/
def WholeLines (s : String) : Prop := ∀ c ∈ s.toList.getLast?, c = '\n'

variable {front cs : List Char}

theorem shiftFrom_append (front : List Char) (fresh : Bool) (cs ds : List Char) :
    shiftFrom front fresh (cs ++ ds) =
      shiftFrom front fresh cs ++ shiftFrom front (cs.getLast?.elim fresh (· == '\n')) ds := by
  induction cs generalizing fresh with
  | nil => rfl
  | cons c cs ih =>
    have hlast : (c :: cs).getLast?.elim fresh (· == '\n') = cs.getLast?.elim (c == '\n') (· == '\n') := by
      rw [List.getLast?_cons]
      cases cs.getLast? <;> rfl
    rw [List.cons_append, shiftFrom, ih, shiftFrom, hlast, List.append_assoc, List.cons_append]

/-- What is left of a line is not shifted. -/
theorem shiftFrom_rest (h : '\n' ∉ cs) : shiftFrom front false (cs ++ ['\n']) = cs ++ ['\n'] := by
  induction cs with
  | nil => rfl
  | cons c cs ih =>
    obtain ⟨hc, hcs⟩ := not_or.1 (mt List.mem_cons.2 h)
    rw [List.cons_append, shiftFrom, beq_false_of_ne (Ne.symm hc), ih hcs]
    rfl

theorem shiftFrom_line (h : '\n' ∉ cs) : shiftFrom front true (cs ++ ['\n']) = front ++ (cs ++ ['\n']) := by
  cases cs with
  | nil => rfl
  | cons c cs =>
    obtain ⟨hc, hcs⟩ := not_or.1 (mt List.mem_cons.2 h)
    rw [List.cons_append, shiftFrom, beq_false_of_ne (Ne.symm hc), shiftFrom_rest hcs]
    rfl

theorem shiftLines_append_line (front : String) {s t : String} (hs : WholeLines s) (ht : OneLine t) :
    shiftLines front (s ++ (t ++ "\n")) = shiftLines front s ++ (front ++ (t ++ "\n")) := by
  have hfresh : s.toList.getLast?.elim true (· == '\n') = true := by
    cases hl : s.toList.getLast? with
    | none => rfl
    | some c => exact beq_iff_eq.2 (hs c hl)
  have hn : "\n".toList = ['\n'] := rfl
  apply String.toList_inj.1
  simp only [shiftLines, String.toList_append, String.toList_ofList, hn]
  rw [shiftFrom_append, hfresh, shiftFrom_line ht]

-- Empty lines are shifted too, and nothing is put behind the end of the last line.
example : shiftLines "> " "a\n\n b\n" = "> a\n> \n>  b\n" := by decide

theorem shiftLines_empty (front : String) : shiftLines front "" = "" := rfl

theorem wholeLines_append_line (s t : String) : WholeLines (s ++ (t ++ "\n")) := by
  intro c hc
  have hn : "\n".toList = ['\n'] := rfl
  rw [String.toList_append, String.toList_append, hn, ← List.append_assoc, List.getLast?_concat] at hc
  exact (Option.some.inj hc).symm

theorem oneLine_append {s t : String} : OneLine (s ++ t) ↔ OneLine s ∧ OneLine t := by
  rw [OneLine, String.toList_append, List.mem_append, not_or]
  rfl

theorem oneLine_join {parts : List String} (h : ∀ s ∈ parts, OneLine s) : OneLine (String.join parts) := by
  induction parts with
  | nil => decide
  | cons s ss ih =>
    rw [String.join_cons, oneLine_append]
    exact ⟨h s (by simp), ih fun t ht => h t (by simp [ht])⟩

theorem Indent.oneLine_unit (i : Indent) : OneLine i.unit := by
  cases i with
  | spaces width => simp [OneLine, unit]
  | tab => decide

end Lines

/-- So many units of indentation. -/
def margin (unit : String) (level : Nat) : String := String.join (List.replicate level unit)

theorem margin_add (unit : String) (k level : Nat) :
    margin unit (level + k) = margin unit k ++ margin unit level := by
  rw [margin, Nat.add_comm, ← List.replicate_append_replicate, String.join_append]
  rfl

theorem row_eq (unit : String) (level : Nat) (s : String) :
    row unit level s = margin unit level ++ s ++ "\n" := rfl

theorem row_add (unit : String) (level k : Nat) (s : String) :
    row unit (level + k) s = margin unit k ++ row unit level s := by
  rw [row_eq, margin_add, row_eq, String.append_assoc, String.append_assoc, String.append_assoc]

/-- The same text with so many further units in front of every line, and the level to go with it. -/
def Draft.shift (unit : String) (k : Nat) (d : Draft) : Draft :=
  ⟨d.level + k, shiftLines (margin unit k) d.text⟩

theorem Draft.shift_add_row {unit : String} (hu : OneLine unit) (k : Nat) {d : Draft}
    (hd : WholeLines d.text) {s : String} (hs : OneLine s) :
    (d.shift unit k).add (row unit (d.shift unit k).level s) = (d.add (row unit d.level s)).shift unit k ∧
      WholeLines (d.add (row unit d.level s)).text := by
  have hline : OneLine (margin unit d.level ++ s) :=
    oneLine_append.2 ⟨oneLine_join fun t ht => List.eq_of_mem_replicate ht ▸ hu, hs⟩
  refine ⟨?_, wholeLines_append_line _ _⟩
  simp only [shift, add, row_add]
  rw [row_eq, shiftLines_append_line _ hd hline]

/-- What the edits of statements and scopes consist of. -/
inductive Stroke where
  | row (parts : List String)
  | deepen
  | rise

namespace Stroke

def edits : Stroke → List Edit
  | .row parts => lineOf parts
  | .deepen => [.deepen]
  | .rise => [.rise]

def Flat : Stroke → Prop
  | .row parts => OneLine (String.join parts)
  | .deepen | .rise => True

variable {unit : String} {d e : Draft}

/-- A stroke that does not stop shifts with the level at which it begins. -/
theorem run_shift (hu : OneLine unit) (k : Nat) {q : Stroke} (hq : q.Flat) (hd : WholeLines d.text)
    (hrun : d.run unit q.edits = (e, none)) (hl : e.level + k < levelLimit) :
    (d.shift unit k).run unit q.edits = (e.shift unit k, none) ∧ WholeLines e.text := by
  cases q with
  | row parts =>
    rw [edits, run_lineOf] at hrun
    obtain rfl : d.add _ = e := congrArg Prod.fst hrun
    obtain ⟨hshift, hwhole⟩ := Draft.shift_add_row hu k hd hq
    exact ⟨by rw [edits, run_lineOf, hshift], hwhole⟩
  | deepen =>
    rw [edits, Draft.run_single, Draft.step] at hrun
    split at hrun
    · obtain rfl : Draft.mk (d.level + 1) d.text = e := congrArg Prod.fst hrun
      have hroom : (d.shift unit k).level + 1 < levelLimit := by
        rw [Draft.shift]
        simp only at hl ⊢
        omega
      refine ⟨?_, hd⟩
      rw [edits, Draft.run_single, Draft.step, if_pos hroom, Draft.shift, Draft.shift, Nat.add_right_comm]
    · cases hrun
  | rise =>
    obtain ⟨_ | n, text⟩ := d
    · cases hrun
    · obtain rfl : Draft.mk n text = e := congrArg Prod.fst hrun
      refine ⟨?_, hd⟩
      rw [Draft.shift, Nat.add_right_comm]
      rfl

theorem edits_grow (q : Stroke) : ∀ e ∈ q.edits, e.grows = true := by
  cases q with
  | row parts => exact lineOf_grows parts
  | deepen | rise => decide

/-- Strokes that do not stop shift with the level at which they begin, as long as all levels can be counted. -/
theorem runAll_shift (hu : OneLine unit) (k : Nat) {qs : List Stroke} (hq : ∀ q ∈ qs, q.Flat)
    (hd : WholeLines d.text) (hrun : d.run unit (qs.flatMap edits) = (e, none))
    (hl : ∀ before, before <+: qs.flatMap edits → (d.run unit before).1.level + k < levelLimit) :
    (d.shift unit k).run unit (qs.flatMap edits) = (e.shift unit k, none) := by
  induction qs generalizing d with
  | nil =>
    obtain rfl : d = e := congrArg Prod.fst hrun
    rfl
  | cons q qs ih =>
    rw [List.flatMap_cons] at hrun hl ⊢
    rw [Draft.run_append] at hrun ⊢
    rcases hfirst : d.run unit q.edits with ⟨c, _ | stop⟩
    · rw [hfirst] at hrun
      have hafter (before : List Edit) : (d.run unit (q.edits ++ before)).1 = (c.run unit before).1 := by
        rw [Draft.run_append, hfirst]
      have hlevel : c.level + k < levelLimit := by
        have hc := hl q.edits (List.prefix_append _ _)
        rwa [hfirst] at hc
      obtain ⟨hshift, hwhole⟩ := run_shift hu k (hq q (by simp)) hd hfirst hlevel
      rw [hshift]
      refine ih (fun p hp => hq p (by simp [hp])) hwhole hrun fun before hbefore => ?_
      rw [← hafter]
      exact hl _ ((List.prefix_append_right_inj _).2 hbefore)
    · rw [hfirst] at hrun
      cases hrun

end Stroke

/-- What a caller can ask for to write lines and to change the level. -/
inductive Move where
  | leaf (l : Leaf)
  | opening (o : Opening)
  | turn (t : Turn)
  | close
  | deepen
  | rise

namespace Move

def edits : Move → List Edit
  | .leaf l => l.edits
  | .opening o => o.edits
  | .turn t => t.edits
  | .close => closeScope
  | .deepen => [.deepen]
  | .rise => [.rise]

def arguments : Move → List String
  | .leaf l => l.arguments
  | .opening o => o.arguments
  | .turn t => t.arguments
  | .close | .deepen | .rise => []

end Move

theorem oneLine_of_mem_phrases : ∀ s ∈ phrases, OneLine s := by decide

theorem oneLine_of_composed {arguments parts : List String} (h : ∀ s ∈ arguments, OneLine s)
    (hp : Composed arguments parts) : OneLine (String.join parts) :=
  oneLine_join fun s hs => (hp s hs).elim (h s) (oneLine_of_mem_phrases s)

theorem Move.exists_strokes {m : Move} (h : ∀ s ∈ m.arguments, OneLine s) :
    ∃ qs : List Stroke, m.edits = qs.flatMap Stroke.edits ∧ ∀ q ∈ qs, q.Flat := by
  have hbrace : OneLine (String.join ["\x7b"]) ∧ OneLine (String.join ["\x7d"]) := by decide
  cases m with
  | leaf l =>
    refine ⟨[.row l.parts], ?_, by simpa [Stroke.Flat] using oneLine_of_composed h l.composed⟩
    rw [edits, Leaf.edits_eq]
    simp [Stroke.edits]
  | opening o =>
    rcases o.exists_parts with ⟨he, _⟩ | ⟨parts, he, _, hp⟩
    · refine ⟨[.row ["\x7b"], .deepen], ?_, by simpa [Stroke.Flat] using hbrace.1⟩
      rw [edits, he]
      rfl
    · have hheader : OneLine (String.join parts) := oneLine_of_composed h hp
      refine ⟨[.row parts, .row ["\x7b"], .deepen], ?_, by simpa [Stroke.Flat, hheader] using hbrace.1⟩
      rw [edits, he]
      rfl
  | turn t =>
    obtain ⟨parts, he, _, hp⟩ := t.exists_parts
    have hheader : OneLine (String.join parts) := oneLine_of_composed h hp
    refine ⟨[.rise, .row ["\x7d"], .row parts, .row ["\x7b"], .deepen], ?_,
      by simpa [Stroke.Flat, hheader] using hbrace.symm⟩
    rw [edits, he]
    rfl
  | close => exact ⟨[.rise, .row ["\x7d"]], rfl, by simpa [Stroke.Flat] using hbrace.2⟩
  | deepen => exact ⟨[.deepen], rfl, by simp [Stroke.Flat]⟩
  | rise => exact ⟨[.rise], rfl, by simp [Stroke.Flat]⟩

theorem Move.exists_strokesAll {moves : List Move} (h : ∀ m ∈ moves, ∀ s ∈ m.arguments, OneLine s) :
    ∃ qs : List Stroke, moves.flatMap Move.edits = qs.flatMap Stroke.edits ∧ ∀ q ∈ qs, q.Flat := by
  induction moves with
  | nil => exact ⟨[], rfl, nofun⟩
  | cons m ms ih =>
    obtain ⟨qs, hqs, hflat⟩ := exists_strokes (h m (by simp))
    obtain ⟨rs, hrs, hflats⟩ := ih fun n hn => h n (by simp [hn])
    refine ⟨qs ++ rs, ?_, fun q hq => (List.mem_append.1 hq).elim (hflat q) (hflats q)⟩
    rw [List.flatMap_cons, List.flatMap_append, hqs, hrs]

namespace Writer

/-- The draft of a run that gets to its end. -/
theorem draft_run_of_none {w : Writer} (h : w.Sound) {es : List Edit} (hrun : (w.run es).2 = none) :
    w.draft.run w.indent.unit es = ((w.run es).1.draft, none) := by
  have ht := run_tracks h es
  rcases hr : w.run es with ⟨v, _ | stop⟩
  · rw [hr] at ht
    exact ht.eq_of_none
  · rw [hr] at hrun
    cases hrun

theorem run_of_prefix {w : Writer} {before es : List Edit} (hp : before <+: es) (hrun : (w.run es).2 = none) :
    (w.run before).2 = none := by
  obtain ⟨after, rfl⟩ := hp
  rw [run_append] at hrun
  rcases hr : w.run before with ⟨v, _ | stop⟩
  · rfl
  · rw [hr] at hrun
    cases hrun

/-- Writers that have written nothing yet, the second so many levels deeper. Each has its own storage. -/
structure Deeper (k : Nat) (w v : Writer) : Prop where
  upper : w.Sound
  lower : v.Sound
  indent : v.indent = w.indent
  level : v.level = w.level + k
  upper_text : w.text = ""
  lower_text : v.text = ""

theorem Deeper.draft {k : Nat} {w v : Writer} (h : Deeper k w v) :
    v.draft = w.draft.shift w.indent.unit k := by
  have hv : v.draft = ⟨w.level + k, ""⟩ := by rw [Writer.draft, h.level, h.lower_text]
  have hw : w.draft = ⟨w.level, ""⟩ := by rw [Writer.draft, h.upper_text]
  rw [hv, hw, Draft.shift, shiftLines_empty]

end Writer

/-- Moves in any order that get to their end do so from a deeper level as well, and end as much deeper. What they
write is the same lines, each with the further units in front. Only a text of more than half of what can be
addressed may stop them, for want of room. -/
theorem run_deeper {k : Nat} {w v : Writer} (h : w.Deeper k v) {moves : List Move}
    (hm : ∀ m ∈ moves, ∀ s ∈ m.arguments, OneLine s)
    (hrun : (w.run (moves.flatMap Move.edits)).2 = none)
    (hl : ∀ before, before <+: moves.flatMap Move.edits → (w.run before).1.level + k < levelLimit) :
    let r := w.run (moves.flatMap Move.edits)
    let q := v.run (moves.flatMap Move.edits)
    let text := shiftLines (margin w.indent.unit k) r.1.text
    (q.2 = none ∧ q.1.level = r.1.level + k ∧ q.1.text = text) ∨ NoRoom q.2 text.utf8ByteSize := by
  intro r q text
  obtain ⟨qs, he, hflat⟩ := Move.exists_strokesAll hm
  have hgrows : ∀ e ∈ moves.flatMap Move.edits, e.grows = true := by
    intro e hmem
    obtain ⟨q, _, hmem⟩ := List.mem_flatMap.1 (he ▸ hmem)
    exact q.edits_grow e hmem
  have hdraft : w.draft.run w.indent.unit (moves.flatMap Move.edits) = (r.1.draft, none) :=
    Writer.draft_run_of_none h.upper hrun
  have hlevel : ∀ before, before <+: moves.flatMap Move.edits →
      (w.draft.run w.indent.unit before).1.level + k < levelLimit := by
    intro before hbefore
    rw [Writer.draft_run_of_none h.upper (Writer.run_of_prefix hbefore hrun)]
    exact hl before hbefore
  have hwhole : WholeLines w.draft.text := by
    rw [Writer.draft_text, h.upper_text]
    nofun
  have hshift : v.draft.run v.indent.unit (moves.flatMap Move.edits) = (r.1.draft.shift w.indent.unit k, none) := by
    rw [h.draft, h.indent, he]
    rw [he] at hdraft hlevel
    exact Stroke.runAll_shift w.indent.oneLine_unit k hflat hwhole hdraft hlevel
  have ht := Writer.run_tracks_of_grows h.lower hgrows
  rw [hshift] at ht
  exact ht.ends

-- The level is lowered and raised by hand, the branch closes a scope that was never opened, and both scopes that are
-- open at the end stay so.
theorem run_deeper_unbalanced :
    let w : Writer := ⟨1, .spaces 40, ⟨⟨8, ""⟩, 8, false⟩, .standard⟩
    let v : Writer := ⟨3, .spaces 40, ⟨⟨4, ""⟩, 4, false⟩, .withLimits 0 0⟩
    let moves : List Move := [.rise, .leaf (.line ""), .deepen, .turn .elseOpen, .opening .bare]
    let es := moves.flatMap Move.edits
    let t := String.ofList (List.replicate 16 ' ')
    let text := t ++ t ++ "\n" ++ t ++ t ++ "\x7d\n" ++ t ++ t ++ "else\n" ++ t ++ t ++ "\x7b\n" ++
      t ++ t ++ t ++ "\x7b\n"
    w.Deeper 2 v ∧ (w.run es).2 = none ∧ (v.run es).2 = none ∧ (v.run es).1.level = 4 ∧
      (v.run es).1.text = text := by
  intro w v moves es t text
  have hd : w.Deeper 2 v :=
    ⟨⟨⟨by decide, by decide, by decide⟩, Pool.sound_withLimits _ _⟩,
      ⟨⟨by decide, by decide, by decide⟩, Pool.sound_withLimits _ _⟩, rfl, rfl, rfl, rfl⟩
  have hm : ∀ m ∈ moves, ∀ s ∈ m.arguments, OneLine s := by decide +kernel
  have hrun : (w.run es).2 = none := by decide +kernel
  have hl : ∀ n ≤ es.length, (w.run (es.take n)).1.level + 2 < levelLimit := by decide +kernel
  have htext : shiftLines (margin w.indent.unit 2) (w.run es).1.text = text := by decide +kernel
  have hlevel : (w.run es).1.level = 2 := by decide +kernel
  rcases run_deeper hd hm hrun fun before hb => List.prefix_iff_eq_take.1 hb ▸ hl _ hb.length_le with
    ⟨hstop, hv, ht⟩ | hroom
  · exact ⟨hd, hrun, hstop, by rw [hv, hlevel], ht.trans htext⟩
  · rw [htext] at hroom
    exact absurd hroom.long (by decide +kernel)

end GeneratorKit.Emission
