import GeneratorKit.Proofs.Emission.Command
import GeneratorKit.Proofs.Emission.Statement
import GeneratorKit.Proofs.Emission.Writer

set_option autoImplicit false

/-!
# Guards

Scopes that close themselves, with or without a header, one inside the other. However the innermost body stops,
the guards around it close one after another, each with one line (`guards_close`).
-/
namespace GeneratorKit.Emission
open Storage

theorem run_closeLine (unit : String) (level : Nat) (text : String) :
    (Draft.mk level text).run unit closeLine = (⟨level, text ++ closeRow unit level⟩, none) :=
  run_lineOf unit ⟨level, text⟩ ["\x7d"]

theorem closeLine_grows : ∀ e ∈ closeLine, e.grows = true := by decide

def opening : Option String → List Edit
  | none => openScope
  | some header => line header ++ openScope

namespace Writer

variable {w : Writer}

/-- Where there is a scope to close, the guard closes it as a closing edit does. -/
theorem closeGuard_eq {n : Nat} (h : w.Sound) (hl : w.level = n + 1) :
    w.closeGuard = w.run closeScope := by
  have ht := run_tracks h closeScope
  rw [show w.draft = ⟨n + 1, w.text⟩ from congrArg (Draft.mk · w.text) hl, run_closeScope] at ht
  unfold closeGuard
  split
  · next v r hr =>
    rw [hr] at ht
    cases ht.noRoom_of_some.stopped
  · rfl

/-- A guard writes one closing line, a level below the one it finds, or at the ground if it finds that. -/
theorem closeGuard_tracks (h : w.Sound) :
    Tracks w w.closeGuard
      (⟨w.level - 1, w.text ++ closeRow w.indent.unit (w.level - 1)⟩, none)
      (w.size + (closeRow w.indent.unit (w.level - 1)).utf8ByteSize) := by
  rcases hl : w.level with _ | n
  · have hg : w.closeGuard = w.run closeLine := by
      rw [closeGuard, closeScope, run_rise_zero hl]
    have ht := run_tracks_of_grows h closeLine_grows
    rw [show w.draft = ⟨0, w.text⟩ from congrArg (Draft.mk · w.text) hl, run_closeLine, Draft.size,
      String.utf8ByteSize_append] at ht
    rw [hg]
    exact ht
  · have ht := run_tracks_of_grows h closeScope_grows
    rw [show w.draft = ⟨n + 1, w.text⟩ from congrArg (Draft.mk · w.text) hl, run_closeScope, Draft.size,
      String.utf8ByteSize_append] at ht
    rw [closeGuard_eq h hl]
    exact ht

end Writer

theorem Draft.run_opening (unit : String) (d : Draft) (header : Option String) :
    d.run unit (opening header) =
      if d.level + 1 < levelLimit then
        (⟨d.level + 1, d.text ++ headerRow unit d.level header ++ openRow unit d.level⟩, none)
      else (⟨d.level, d.text ++ headerRow unit d.level header ++ openRow unit d.level⟩,
        some (.fault .overflow)) := by
  have hopen (d : Draft) : d.run unit openScope = if d.level + 1 < levelLimit then
      (⟨d.level + 1, d.text ++ openRow unit d.level⟩, none)
    else (⟨d.level, d.text ++ openRow unit d.level⟩, some (.fault .overflow)) := by
    rw [openScope, Draft.run_append, line, run_lineOf]
    by_cases hl : d.level + 1 < levelLimit <;>
      simp [Draft.run, Draft.step, Draft.add, hl, openRow]
  cases header with
  | none => rw [opening, hopen, headerRow, String.append_empty]
  | some header =>
    rw [opening, Draft.run_append, line, run_lineOf, headerRow]
    simp only [hopen, Draft.add, String.join_cons, String.join_nil, String.append_empty]

/-- A scope that could be opened starts a level deeper, behind the lines that open it. -/
theorem Writer.opened_of_none {w v : Writer} (h : w.Sound) {header : Option String}
    (ho : w.run (opening header) = (v, none)) :
    v.level = w.level + 1 ∧
      v.text = w.text ++ headerRow w.indent.unit w.level header ++ openRow w.indent.unit w.level := by
  have ht := (run_tracks h (opening header))
  rw [ho, Draft.run_opening] at ht
  have he := ht.eq_of_none
  split at he
  · have hd : _ = v.draft := congrArg Prod.fst he
    exact ⟨(congrArg Draft.level hd).symm, (congrArg Draft.text hd).symm⟩
  · cases congrArg Prod.snd he

namespace Command
open Writer

def guard (header : Option String) (body : List Command) : Command :=
  match header with
  | none => .scope body
  | some header => .block header body

theorem run_guard_result (header : Option String) (body : List Command) (item : String) (w : Writer) :
    (run (guard header body) item w).result = match w.run (opening header) with
      | (v, none) => ((runAll body item v).writer.closeGuard.1,
        (runAll body item v).stop.or (runAll body item v).writer.closeGuard.2)
      | stopped => stopped := by
  cases header <;> rw [guard, run, guarded_result] <;> rfl

/-- A guarded scope with what its body does before and after a scope inside. -/
structure Layer where
  header : Option String
  before : List Command
  after : List Command

/-- Layers one inside the other, around a core. -/
def nest : List Layer → List Command → List Command
  | [], core => core
  | l :: ls, core => [guard l.header (l.before ++ nest ls core ++ l.after)]

/-- On the way to the core all scopes are opened, and what comes before the next one keeps the level. -/
inductive Reaches (item : String) : List Layer → Writer → Writer → Prop where
  | core (w : Writer) : Reaches item [] w w
  | layer {l : Layer} {ls : List Layer} {w u v x : Writer}
    (opens : w.run (opening l.header) = (u, none))
    (before : (runAll l.before item u).result = (v, none))
    (level : v.level = u.level) (inside : Reaches item ls v x) :
    Reaches item (l :: ls) w x

theorem Reaches.of_none {item : String} {l : Layer} {ls : List Layer} {w x : Writer}
    (ho : (w.run (opening l.header)).2 = none)
    (hb : (runAll l.before item (w.run (opening l.header)).1).stop = none)
    (hl : (runAll l.before item (w.run (opening l.header)).1).writer.level =
      (w.run (opening l.header)).1.level)
    (hx : Reaches item ls (runAll l.before item (w.run (opening l.header)).1).writer x) :
    Reaches item (l :: ls) w x :=
  .layer (Prod.ext rfl ho) (Prod.ext rfl hb) hl hx

/-- The closing lines of so many guards, from a level downward. -/
def closings (unit : String) (level : Nat) : Nat → String
  | 0 => ""
  | n + 1 => closings unit level n ++ closeRow unit (level - (n + 1))

/-- What a body left, behind it the closing lines of the guards around it, and nothing else that stopped. -/
structure Closed (unit : String) (n : Nat) (c r : BodyRun) : Prop where
  text : r.writer.text = c.writer.text ++ closings unit c.writer.level n
  level : r.writer.level = c.writer.level - n
  stop : r.stop = c.stop

theorem continues_of_layer {item : String} {l : Layer} {w u v : Writer} (hw : w.Sound)
    (opens : w.run (opening l.header) = (u, none))
    (before : (runAll l.before item u).result = (v, none)) : Continues w v := by
  have hu : Continues w u := by
    have ho := Writer.run_continues hw (opening l.header)
    rwa [opens] at ho
  have hv : Continues u v := by
    have hb := runAll_continues l.before item hu.sound
    rwa [show (runAll l.before item u).writer = v from congrArg Prod.fst before] at hb
  exact hu.trans hv

/-- The core lies as many levels deeper as there are layers around it. -/
theorem Reaches.level {item : String} {ls : List Layer} {w x : Writer} (h : Reaches item ls w x)
    (hw : w.Sound) : x.level = w.level + ls.length := by
  induction h with
  | core w => rfl
  | layer opens before level inside ih =>
    have hl := (opened_of_none hw opens).1
    have hx := ih (continues_of_layer hw opens before).sound
    rw [List.length_cons]
    omega

/-- What comes after an inner part does not run where that part stops. -/
theorem runAll_around {item : String} {before inner after : List Command} {u v : Writer}
    (hb : (runAll before item u).result = (v, none))
    (hs : (runAll inner item v).stop ≠ none ∨ after = []) :
    (runAll (before ++ inner ++ after) item u).result = (runAll inner item v).result := by
  rw [List.append_assoc, runAll_append, hb]
  simp only
  rcases hs with hs | rfl
  · rw [runAll_append]
    rcases hr : runAll inner item v with ⟨y, log, _ | stop⟩
    · rw [hr] at hs
      exact absurd rfl hs
    · rfl
  · rw [List.append_nil]

/-- One more guard adds its line, or finds no room for it. Either way what stopped before stays the stop. -/
theorem Closed.guard {unit : String} {n : Nat} {c y z : BodyRun} (h : Closed unit n c y)
    (hy : y.writer.Sound) (hu : y.writer.indent.unit = unit)
    (hz : z.result = (y.writer.closeGuard.1, y.stop.or y.writer.closeGuard.2)) :
    Closed unit (n + 1) c z ∨ ∃ stop,
      NoRoom stop (c.writer.text ++ closings unit c.writer.level (n + 1)).utf8ByteSize ∧
        z.stop = c.stop.or stop := by
  have hlevel : y.writer.level - 1 = c.writer.level - (n + 1) := by
    rw [h.level]
    omega
  have htext : y.writer.text ++ closeRow unit (y.writer.level - 1) =
      c.writer.text ++ closings unit c.writer.level (n + 1) := by
    rw [h.text, hlevel, closings, String.append_assoc]
  have hstop : z.stop = c.stop.or y.writer.closeGuard.2 := by
    rw [← h.stop]
    exact congrArg Prod.snd hz
  have ht := closeGuard_tracks hy
  rw [hu, htext, hlevel] at ht
  rcases ht.ends with ⟨hn, hl, hs⟩ | hroom
  · have hw : z.writer = y.writer.closeGuard.1 := congrArg Prod.fst hz
    exact .inl ⟨hw ▸ hs, hw ▸ hl, by rw [hstop, hn, Option.or_none]⟩
  · refine .inr ⟨_, ?_, hstop⟩
    rw [← htext, hlevel, String.utf8ByteSize_append]
    exact hroom

/-- The guards around a core close behind it. When one of them finds no room, those outside it keep that stop. -/
theorem runAll_nest {item : String} {ls : List Layer} {core : List Command} {w x : Writer}
    (hw : w.Sound) (h : Reaches item ls w x) {c : BodyRun} (hc : runAll core item x = c)
    (hstop : c.stop ≠ none ∨ ∀ l ∈ ls, l.after = []) :
    Closed w.indent.unit ls.length c (runAll (nest ls core) item w) ∨ ∃ stop,
      NoRoom stop (c.writer.text ++ closings w.indent.unit c.writer.level ls.length).utf8ByteSize ∧
        (runAll (nest ls core) item w).stop = c.stop.or stop := by
  induction h with
  | core w =>
    rw [nest, hc]
    exact .inl ⟨String.append_empty.symm, rfl, rfl⟩
  | @layer l ls w u v x opens before level inside ih =>
    have hv := continues_of_layer hw opens before
    have hy := hv.trans (runAll_continues (nest ls core) item hv.sound)
    have hclose (hs : (runAll (nest ls core) item v).stop ≠ none ∨ l.after = []) :
        (runAll (nest (l :: ls) core) item w).result = ((runAll (nest ls core) item v).writer.closeGuard.1,
          (runAll (nest ls core) item v).stop.or (runAll (nest ls core) item v).writer.closeGuard.2) := by
      rw [nest, runAll_single, run_guard_result, opens]
      exact congrArg (fun q : Result => (q.1.closeGuard.1, q.2.or q.1.closeGuard.2)) (runAll_around before hs)
    rw [← hv.indent]
    rcases ih hv.sound hc (hstop.imp_right fun ha k hk => ha k (List.mem_cons_of_mem l hk)) with
      hin | ⟨stop, hroom, hin⟩
    · refine hin.guard hy.sound (congrArg Indent.unit (hy.indent.trans hv.indent.symm)) (hclose ?_)
      rw [hin.stop]
      exact hstop.imp_right fun ha => ha l List.mem_cons_self
    · -- the guards inside have stopped for want of room, so nothing of this layer comes after them
      have hs : (runAll (nest ls core) item v).stop ≠ none := by
        rw [hin, hroom.stopped]
        cases c.stop <;> nofun
      have hz : (runAll (nest (l :: ls) core) item w).stop = _ := congrArg Prod.snd (hclose (.inl hs))
      refine .inr ⟨stop.or (runAll (nest ls core) item v).writer.closeGuard.2, (hroom.or _).mono ?_, ?_⟩
      · simp only [List.length_cons, closings, String.utf8ByteSize_append]
        omega
      · rw [hz, hin, Option.or_assoc]

/-- A guard closes with one line behind whatever its body left, wherever the body stopped. In a nest whose
layers keep the level, a core that stops somewhere at its own level, before anything else could run, is left
with the closing lines of all layers, the innermost first, at the level where the nest began. Only a text of
more than half of what can be addressed may find no room; a run that has not stopped before then stops for it. -/
theorem guards_close {w : Writer} (h : w.Sound) (item : String) :
    (∀ (header : Option String) (body : List Command) (v : Writer),
      w.run (opening header) = (v, none) →
      let c := runAll body item v
      let r := run (guard header body) item w
      let text := c.writer.text ++ closeRow w.indent.unit (max c.writer.level 1 - 1)
      (r.writer.text = text ∧ r.writer.level = max c.writer.level 1 - 1 ∧ r.result.2 = c.stop ∧
        c.writer.closeGuard.2 = none) ∨
      (NoRoom c.writer.closeGuard.2 text.utf8ByteSize ∧ r.result.2 = c.stop.or c.writer.closeGuard.2)) ∧
    ∀ (ls : List Layer) (core : List Command) (x : Writer), Reaches item ls w x →
      let c := runAll core item x
      let r := runAll (nest ls core) item w
      let text := c.writer.text ++ closings w.indent.unit (w.level + ls.length) ls.length
      c.writer.level = x.level → (c.stop ≠ none ∨ ∀ l ∈ ls, l.after = []) →
      (r.writer.text = text ∧ r.writer.level = w.level ∧ r.stop = c.stop) ∨
        ∃ stop, NoRoom stop text.utf8ByteSize ∧ r.stop = c.stop.or stop := by
  constructor
  · intro header body v hv c r text
    have hvs := Writer.run_continues h (opening header)
    rw [hv] at hvs
    have hcs := hvs.trans (runAll_continues body item hvs.sound)
    have hr : r.result = (c.writer.closeGuard.1, c.stop.or c.writer.closeGuard.2) := by
      rw [show r.result = _ from run_guard_result header body item w, hv]
    have ht := closeGuard_tracks hcs.sound
    rw [hcs.indent, show c.writer.level - 1 = max c.writer.level 1 - 1 by omega] at ht
    rcases ht.ends with ⟨hn, hl, hs⟩ | hroom
    · have hw : r.writer = c.writer.closeGuard.1 := congrArg Prod.fst hr
      exact .inl ⟨hw ▸ hs, hw ▸ hl, by rw [hr, hn, Option.or_none], hn⟩
    · refine .inr ⟨?_, congrArg Prod.snd hr⟩
      rw [String.utf8ByteSize_append]
      exact hroom
  · intro ls core x hx c r text hlevel hstop
    have hc : c.writer.level = w.level + ls.length := hlevel.trans (hx.level h)
    have hn := runAll_nest h hx rfl hstop
    rw [hc] at hn
    refine hn.imp_left fun hcl => ⟨?_, ?_, hcl.stop⟩
    · rw [hcl.text, hc]
    · rw [hcl.level, hc, Nat.add_sub_cancel]

/-- A body that set the level to zero, and a stop in the middle of a line two scopes deep. -/
theorem guards_close_stopped :
    let w : Writer := ⟨1, .spaces 2, ⟨⟨4, "x\n"⟩, 4, false⟩, .standard⟩
    let lowered := run (guard none [.emit [.setLevel 0, .text "y"]]) "" w
    let ls : List Layer := [⟨some "lock (a)", [.emit (line "one")], [.emit (line "two")]⟩, ⟨none, [], []⟩]
    let core : List Command := [.emit [.text "half"], .emit [.refuse .format], .emit (line "three")]
    let r := runAll (nest ls core) "" w
    w.Sound ∧ lowered.writer.text = "x\n  \x7b\ny\x7d\n" ∧ lowered.writer.level = 0 ∧
      r.writer.text = "x\n  lock (a)\n  \x7b\n    one\n    \x7b\nhalf    \x7d\n  \x7d\n" ∧
      r.writer.level = 1 ∧ r.stop = some (.refusal .format) := by
  intro w lowered ls core r
  have hw : w.Sound := ⟨⟨by decide, by decide, by decide⟩, Pool.sound_withLimits _ _⟩
  have hopen : w.run (opening none) = ((w.run (opening none)).1, none) :=
    Prod.ext rfl (by decide +kernel)
  have hr : Reaches "" ls w _ :=
    .of_none (by decide +kernel) (by decide +kernel) (by decide +kernel)
      (.of_none (by decide +kernel) (by decide +kernel) (by decide +kernel) (.core _))
  obtain ⟨hone, hnest⟩ := guards_close hw ""
  have hbody := hone none [.emit [.setLevel 0, .text "y"]] _ hopen
  have hcore := hnest ls core _ hr (by decide +kernel) (.inl (by decide +kernel))
  obtain ⟨ht, _⟩ := hbody.resolve_right fun hn => absurd hn.1.long (by decide +kernel)
  obtain ⟨hrt, _, hrs⟩ := hcore.resolve_right fun ⟨_, hn, _⟩ => absurd hn.long (by decide +kernel)
  have hlevels : lowered.writer.level = 0 ∧ r.writer.level = 1 := by decide +kernel
  exact ⟨hw, ht.trans (by decide +kernel), hlevels.1, hrt.trans (by decide +kernel), hlevels.2,
    hrs.trans (by decide +kernel)⟩

end Command

end GeneratorKit.Emission
