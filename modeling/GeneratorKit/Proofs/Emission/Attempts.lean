import GeneratorKit.Proofs.Emission.Twins
import GeneratorKit.Proofs.Emission.Writer

set_option autoImplicit false

/-!
# Attempts that may be refused

All but renderings are checked before anything is written. A rendering that fails is taken back, wherever the
writer has moved its text in the meantime. Either way nobody notices that a refused attempt was ever made
(`refused_unnoticed`).
-/
namespace GeneratorKit.Emission
open Storage

inductive Attempt where
  | rendering (r : Rendering)
  | dedent
  | close
  | truncate (length : Nat)
  | accessibility (a : Code.Accessibility)
  | turn (t : Turn)

namespace Attempt

def edits : Attempt → List Edit
  | .rendering r => [.rendering r]
  | .dedent => [.rise]
  | .close => closeScope
  | .truncate length => [.truncate length]
  | .accessibility a => Emission.accessibility a
  | .turn t => t.edits

/-- Why an attempt has to fail, as far as it can be told from what is written already. -/
def refusal? (d : Draft) : Attempt → Option Refusal
  | .rendering r => if r.fails then some .format else none
  | .dedent | .close | .turn _ => if d.level = 0 then some .unbalancedScope else none
  | .truncate length =>
    match Text.cut? d.text length with
    | some _ => none
    | none => some (.invalidLength length d.size)
  | .accessibility a =>
    match a.keyword? with
    | some _ => none
    | none => some (.unmappedAccessibility a)

/-- A text can be cut between any two of its characters and nowhere else. -/
theorem refusal?_truncate_eq_none_iff (d : Draft) (length : Nat) :
    (truncate length).refusal? d = none ↔ ∃ t u, d.text = t ++ u ∧ t.utf8ByteSize = length := by
  rw [refusal?]
  constructor
  · intro h
    rcases hcut : Text.cut? d.text length with _ | t
    · rw [hcut] at h
      cases h
    · obtain ⟨⟨u, hu⟩, ht⟩ := (Text.cut?_eq_some_iff _ _ _).1 hcut
      exact ⟨t, u, hu, ht⟩
  · rintro ⟨t, u, hu, ht⟩
    rw [(Text.cut?_eq_some_iff _ _ _).2 ⟨⟨u, hu⟩, ht⟩]

/-- Whether an attempt is checked before anything is written for it. -/
def checked : Attempt → Bool
  | .rendering _ => false
  | _ => true

def task (handled : Bool) (c : Attempt) : Task := .ofEdits handled c.edits

theorem run_checked {c : Attempt} (hc : c.checked = true) {w : Writer} {r : Refusal}
    (hr : c.refusal? w.draft = some r) : w.run c.edits = (w, some (.refusal r)) := by
  cases c with
  | rendering q => cases hc
  | dedent | close =>
    obtain ⟨hl, hs⟩ := Option.ite_none_right_eq_some.1 hr
    cases hs
    exact Writer.run_rise_zero hl _
  | turn t =>
    obtain ⟨hl, hs⟩ := Option.ite_none_right_eq_some.1 hr
    cases hs
    obtain ⟨parts, he, _⟩ := t.exists_parts
    rw [edits, he]
    exact Writer.run_rise_zero hl _
  | truncate length =>
    rw [refusal?, Writer.draft_text] at hr
    rw [edits, Writer.run_single, Writer.step, Writer.truncate_eq]
    rcases hcut : Text.cut? w.text length with _ | s
    · rw [hcut] at hr
      cases hr
      rfl
    · rw [hcut] at hr
      cases hr
  | accessibility a =>
    rw [refusal?] at hr
    rw [edits, Emission.accessibility]
    rcases ha : a.keyword? with _ | keyword
    · rw [ha] at hr
      cases hr
      rfl
    · rw [ha] at hr
      cases hr

theorem run_rendering (unit : String) (d : Draft) {q : Rendering} {r : Refusal}
    (hr : (rendering q).refusal? d = some r) :
    d.run unit (rendering q).edits = (d, some (.refusal r)) := by
  obtain ⟨hf, hs⟩ := Option.ite_none_right_eq_some.1 hr
  cases hs
  rw [edits, Draft.run, Draft.step, if_pos hf]

/-- What is not refused is done, as far as a draft is concerned. -/
theorem run_of_none (unit : String) {d : Draft} (hl : d.level < levelLimit) {c : Attempt}
    (hr : c.refusal? d = none) : (d.run unit c.edits).2 = none := by
  have hopen (hz : d.level ≠ 0) : ∃ n, d = ⟨n + 1, d.text⟩ := by
    obtain ⟨n, hn⟩ := Nat.exists_eq_add_one.2 (Nat.pos_of_ne_zero hz)
    exact ⟨n, congrArg (Draft.mk · d.text) hn⟩
  cases c with
  | rendering q =>
    have hf : q.fails = false := by simpa [refusal?] using hr
    rw [edits, Draft.run, Draft.step, hf]
    rfl
  | dedent =>
    obtain ⟨n, hd⟩ := hopen (by simpa [refusal?] using hr)
    rw [hd]
    rfl
  | close =>
    obtain ⟨n, hd⟩ := hopen (by simpa [refusal?] using hr)
    rw [hd, edits, run_closeScope]
  | turn t =>
    obtain ⟨n, hd⟩ := hopen (by simpa [refusal?] using hr)
    have hn : n + 1 < levelLimit := by rwa [hd] at hl
    rw [hd, edits, t.run_edits unit n d.text hn]
  | truncate length =>
    obtain ⟨t, u, htext, rfl⟩ := (refusal?_truncate_eq_none_iff d length).1 hr
    rw [edits, Draft.run_single, Draft.step, Draft.cut, htext, Text.cut?_append]
  | accessibility a =>
    rw [refusal?] at hr
    rw [edits, Emission.accessibility]
    rcases ha : a.keyword? with _ | keyword
    · rw [ha] at hr
      cases hr
    · rfl

end Attempt

/-- Nothing tells a session from the one before: not what is written, nor what any tasks answer and write, as
long as none of their texts takes more than half of what can be addressed. -/
structure Session.Unnoticed (s t : Session) : Prop where
  text : t.writer.text = s.writer.text
  size : t.writer.size = s.writer.size
  level : t.writer.level = s.writer.level
  later : ∀ ts, 2 * s.peak ts ≤ addressLimit → (t.run ts).2 = (s.run ts).2 ∧
    (t.run ts).1.writer.text = (s.run ts).1.writer.text ∧
    (t.run ts).1.writer.level = (s.run ts).1.writer.level

theorem Session.Twins.unnoticed {s t : Session} (h : Twins s t) : s.Unnoticed t := by
  refine ⟨h.writer.text, h.writer.size, h.writer.level, fun ts hroom => ?_⟩
  obtain ⟨hrun, hanswers⟩ := h.run hroom
  exact ⟨hanswers, hrun.writer.text, hrun.writer.level⟩

namespace Attempt

variable {s : Session} {c : Attempt}

/-- An attempt that finds no room on the way to a text of more than half of what can be addressed. -/
def Overruns (s : Session) (handled : Bool) (c : Attempt) : Prop :=
  s.FindsNoRoom handled c.edits (s.writer.peak c.edits)

theorem step_checked (hlive : s.live = true) (handled : Bool) (hc : c.checked = true) {r : Refusal}
    (hr : c.refusal? s.writer.draft = some r) :
    s.step (c.task handled) = (s, .ofStop handled (some (.refusal r))) := by
  rw [task, Session.step_ofEdits hlive, run_checked hc hr]

theorem step_rendering (h : s.Sound) (hlive : s.live = true) (handled : Bool) {q : Rendering} {r : Refusal}
    (hr : (rendering q).refusal? s.writer.draft = some r) :
    ((s.step ((rendering q).task handled)).2 = .ofStop handled (some (.refusal r)) ∧
        s.Twins (s.step ((rendering q).task handled)).1) ∨ Overruns s handled (.rendering q) := by
  have ht := Writer.run_tracks h (rendering q).edits
  rw [run_rendering _ _ hr] at ht
  rcases ht.outcome with ho | hroom
  · obtain ⟨hdraft, hstop⟩ := Prod.mk.inj ho
    rw [task, Session.step_ofEdits hlive]
    exact .inl ⟨congrArg (Answer.ofStop handled) hstop, ⟨h, ht.sound, hdraft, ht.indent⟩, rfl, rfl, rfl⟩
  · exact .inr (Session.findsNoRoom_of_noRoom hlive handled hroom)

theorem step_of_none (h : s.Sound) (hlive : s.live = true) (hlevel : s.writer.level < levelLimit)
    (handled : Bool) (hr : c.refusal? s.writer.draft = none) :
    (s.step (c.task handled)).2 = .reply .done [] ∨ Overruns s handled c := by
  rcases (Writer.run_tracks h c.edits).outcome with ho | hroom
  · have hdone := run_of_none s.writer.indent.unit hlevel hr
    rw [← ho] at hdone
    rw [task, Session.step_ofEdits hlive]
    exact .inl (congrArg (Answer.ofStop handled) hdone)
  · exact .inr (Session.findsNoRoom_of_noRoom hlive handled hroom)

/-- A refused attempt leaves no trace. One that is checked beforehand changes nothing at all; a rendering that
fails may have moved the text to another block, and only a text of more than half of what can be addressed
could tell. An attempt that is not refused is done, or there is no room for such a text. Whatever becomes of it,
the text fits its block, then and after any further tasks. -/
theorem refused_unnoticed (h : s.Sound) (hlive : s.live = true) (hlevel : s.writer.level < levelLimit)
    (c : Attempt) (handled : Bool) {t : Session} {answer : Answer}
    (hstep : s.step (c.task handled) = (t, answer)) :
    (∀ ts, (t.run ts).1.writer.size ≤ (t.run ts).1.writer.buffer.capacity) ∧
      match c.refusal? s.writer.draft with
      | some r =>
        (answer = .ofStop handled (some (.refusal r)) ∧ s.Unnoticed t ∧ (c.checked = true → t = s)) ∨
          (c.checked = false ∧ Overruns s handled c)
      | none => answer = .reply .done [] ∨ Overruns s handled c := by
  have hsound := Session.step_sound h (c.task handled)
  rw [hstep] at hsound
  refine ⟨fun ts => (Session.run_sound hsound ts).buffer.size_le, ?_⟩
  rcases hr : c.refusal? s.writer.draft with _ | r
  · have hn := step_of_none h hlive hlevel handled hr
    rwa [hstep] at hn
  cases hc : c.checked with
  | false =>
    obtain ⟨q, rfl⟩ : ∃ q, c = .rendering q := by
      cases c <;> first | exact ⟨_, rfl⟩ | cases hc
    have hq := step_rendering h hlive handled hr
    rw [hstep] at hq
    rcases hq with ⟨ha, ht⟩ | ho
    · exact .inl ⟨ha, ht.unnoticed, nofun⟩
    · exact .inr ⟨rfl, ho⟩
  | true =>
    obtain ⟨rfl, rfl⟩ := Prod.mk.inj (hstep.symm.trans (step_checked hlive handled hc hr))
    exact .inl ⟨rfl, (Session.Twins.refl h).unnoticed, fun _ => rfl⟩

/-- A rendering that fails has moved the text to a block of the pool. -/
theorem refused_unnoticed_moved :
    let s : Session := ⟨.spaces 2, 4, ⟨1, .spaces 2, ⟨⟨4, "\x7b\n"⟩, 4, false⟩, .standard⟩, true⟩
    let c : Attempt := .rendering ⟨["é", "€uro", "😀"], true⟩
    let t := (s.step (c.task true)).1
    let later : List Task := [.command (.emit (line "é")), .command (.attempt closeScope), .build]
    t.writer.buffer.pooled = true ∧ (s.step (c.task true)).2 = .reply (.refused .format) [] ∧
      t.writer.text = "\x7b\n" ∧ t.writer.level = 1 ∧
      (t.run later).2 = [.reply .done [], .reply .done [], .taken "\x7b\n  é\n\x7d\n"] := by
  intro s c t later
  have hs : s.Sound := ⟨⟨by decide, by decide, by decide⟩, Pool.sound_withLimits _ _⟩
  have hc := (refused_unnoticed hs rfl (by decide) c true rfl).2
  obtain ⟨ha, hu, _⟩ := hc.resolve_right fun ho => absurd ho.2.answer (by decide +kernel)
  obtain ⟨hlater, _⟩ := hu.later later (by decide +kernel)
  exact ⟨by decide +kernel, ha, hu.text, hu.level, hlater.trans (by decide +kernel)⟩

end Attempt

end GeneratorKit.Emission
