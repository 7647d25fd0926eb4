import GeneratorKit.Proofs.Emission.Sheet
import GeneratorKit.Proofs.Emission.Slots

set_option autoImplicit false

/-!
# Isolation

What can be seen in the slots of a name is decided by the actions under that name, on plain strings
(`run_alone`). Pools, and what others do with them, have no part in it.
-/
namespace GeneratorKit.Emission
open Storage

namespace Deed

/-- The name of the slots that a deed may change. -/
def name : Deed → String
  | .make slot _ _ _ | .edit slot _ | .finish slot => slot.name
  | .adopt name _ => name

end Deed

/-- Whether an action is one on the buffer or the writer of a name. -/
def Action.concerns (name : String) (a : Action) : Bool := a.deed?.map Deed.name = some name

theorem Action.exists_deed {name : String} {a : Action} (h : a.concerns name = true) :
    ∃ d, a.deed? = some d ∧ d.name = name :=
  Option.map_eq_some_iff.1 (of_decide_eq_true h)

structure Page where
  indent : Indent
  draft : Draft
  deriving DecidableEq

def Desk.sheet (d : Desk) : Sheet := ⟨d.level, d.indent, d.holding.buffer.view⟩

def Sheet.page (t : Sheet) : Page := ⟨t.indent, t.level, t.view.text⟩

namespace Slot

def keepSheet : Slot → Sheet → Sheet
  | .buffer _, t => ⟨0, default, t.view⟩
  | .writer _, t => t

def keepPage : Slot → Page → Page
  | .buffer _, p => ⟨default, 0, p.draft.text⟩
  | .writer _, p => p

theorem keep_sheet (j : Slot) (d : Desk) : (j.keep d).sheet = j.keepSheet d.sheet := by
  cases j <;> rfl

theorem keepSheet_page (j : Slot) (t : Sheet) : (j.keepSheet t).page = j.keepPage t.page := by
  cases j <;> rfl

end Slot

abbrev Pages := Slot → Option Page

namespace Pages

def set (ps : Pages) (j : Slot) (p : Option Page) : Pages := fun k => if j = k then p else ps k

def perform (ps : Pages) : Deed → Pages
  | .make j indent _ _ => ps.set j (some (j.keepPage ⟨indent, 0, ""⟩))
  | .edit j es => ps.set j ((ps j).map fun p =>
    j.keepPage { p with draft := (p.draft.run p.indent.unit es).1 })
  | .finish j => ps.set j none
  | .adopt name indent =>
    match ps (.buffer name) with
    | none => ps
    | some p => (ps.set (.buffer name) none).set (.writer name) (some ⟨indent, 0, p.draft.text⟩)

def step (ps : Pages) (a : Action) : Pages :=
  match a.deed? with
  | some d => ps.perform d
  | none => ps

def run (ps : Pages) (as : List Action) : Pages := as.foldl step ps

end Pages

namespace Workshop

variable {s t : Workshop} {k : Slot}

def sheet? (s : Workshop) (k : Slot) : Option Sheet := (s.slot k).map Desk.sheet

theorem sheet?_setSlot (s : Workshop) (j k : Slot) (d : Desk) :
    (s.setSlot j d).sheet? k = if j = k then some (j.keepSheet d.sheet) else s.sheet? k := by
  rw [sheet?, slot_setSlot]
  split
  · rw [Option.map_some, Slot.keep_sheet]
  · rfl

theorem sheet?_clearSlot (s : Workshop) (j k : Slot) :
    (s.clearSlot j).sheet? k = if j = k then none else s.sheet? k := by
  rw [sheet?, slot_clearSlot]
  split <;> rfl

@[simp] theorem sheet?_release (s : Workshop) (j k : Slot) : (s.release j).sheet? k = s.sheet? k := by
  rw [sheet?, slot_release, sheet?]

theorem sheet?_putBack (s : Workshop) (j k : Slot) (common : Bool) (w : Writer) :
    (s.putBack j common w).sheet? k = if j = k then some (j.keepSheet w.sheet) else s.sheet? k := by
  rw [putBack, sheet?_setSlot, sheet?, slot_setPool]
  rfl

theorem slot_perform_of_ne {d : Deed} (h : d.name ≠ k.name) : (s.perform d).1.slot k = s.slot k := by
  cases d with
  | make j indent capacity common =>
    have hj : j ≠ k := fun e => h (congrArg Slot.name e)
    rw [perform]
    split
    · rw [slot_setSlot, if_neg hj, slot_release]
    · rfl
  | edit j es =>
    have hj : j ≠ k := fun e => h (congrArg Slot.name e)
    rw [perform]
    split
    · rfl
    · rw [putBack, slot_setSlot, if_neg hj, slot_setPool]
  | finish j =>
    have hj : j ≠ k := fun e => h (congrArg Slot.name e)
    rw [perform]
    split
    · rfl
    · rw [slot_clearSlot, if_neg hj, slot_release]
  | adopt name indent =>
    have hb : Slot.buffer name ≠ k := fun e => h (congrArg Slot.name e)
    have hw : Slot.writer name ≠ k := fun e => h (congrArg Slot.name e)
    rw [perform]
    split
    · rfl
    · rw [slot_setSlot, if_neg hw, slot_clearSlot, if_neg hb, slot_release]

theorem slot_cases {j : Slot} (h : s.sheet? j = t.sheet? j) :
    (s.slot j = none ∧ t.slot j = none) ∨
      ∃ d e, s.slot j = some d ∧ t.slot j = some e ∧ d.sheet = e.sheet := by
  unfold sheet? at h
  rcases hd : s.slot j with _ | d <;> rcases he : t.slot j with _ | e <;> rw [hd, he] at h
  · exact .inl ⟨rfl, rfl⟩
  · cases h
  · cases h
  · exact .inr ⟨d, e, rfl, rfl, Option.some.inj h⟩

/-- Workshops in which the slots of a name look the same. -/
def Alike (name : String) (s t : Workshop) : Prop := ∀ k : Slot, k.name = name → s.sheet? k = t.sheet? k

/-- A deed keeps slots alike, whatever the pools are. -/
theorem Alike.perform (hs : s.Sound) (ht : t.Sound) {d : Deed} (h : Alike d.name s t) :
    Alike d.name (s.perform d).1 (t.perform d).1 := by
  intro k hk
  have hkk := h k hk
  cases d with
  | make j indent capacity common =>
    rw [Workshop.perform, Workshop.perform]
    rcases Buffer.withCapacity capacity with f | b
    · exact hkk
    · simp only [sheet?_setSlot, sheet?_release, hkk]
  | edit j es =>
    rw [Workshop.perform, Workshop.perform]
    rcases slot_cases (h j rfl) with ⟨hd, he⟩ | ⟨d, e, hd, he, hde⟩
    · rw [hd, he]
      exact hkk
    · have hr := Writer.run_seen (hs.writer hd) (ht.writer he) hde es
      have hw : ((s.writer d).run es).1.sheet = ((t.writer e).run es).1.sheet := congrArg Prod.fst hr
      simp only [hd, he, sheet?_putBack, hw, hkk]
  | finish j =>
    rw [Workshop.perform, Workshop.perform]
    rcases slot_cases (h j rfl) with ⟨hd, he⟩ | ⟨d, e, hd, he, _⟩
    · rw [hd, he]
      exact hkk
    · simp only [hd, he, sheet?_clearSlot, sheet?_release, hkk]
  | adopt name indent =>
    rw [Workshop.perform, Workshop.perform]
    rcases slot_cases (h (.buffer name) rfl) with ⟨hd, he⟩ | ⟨d, e, hd, he, hde⟩
    · rw [hd, he]
      exact hkk
    · have hv : (Desk.mk 0 indent d.holding).sheet = (Desk.mk 0 indent e.holding).sheet :=
        congrArg (fun u : Sheet => Sheet.mk 0 indent u.view) hde
      simp only [hd, he, sheet?_setSlot, sheet?_clearSlot, sheet?_release, hv, hkk]

/-- Workshops whose slots of a name hold what is on the pages. -/
def Shows (name : String) (s : Workshop) (ps : Pages) : Prop :=
  ∀ k : Slot, k.name = name → (s.sheet? k).map Sheet.page = ps k

theorem Shows.slot_cases {j : Slot} {ps : Pages} (h : Shows j.name s ps) :
    (s.slot j = none ∧ ps j = none) ∨ ∃ d, s.slot j = some d ∧ ps j = some d.sheet.page := by
  have hj := h j rfl
  unfold sheet? at hj
  cases hd : s.slot j with
  | none =>
    rw [hd] at hj
    exact .inl ⟨rfl, hj.symm⟩
  | some d =>
    rw [hd] at hj
    exact .inr ⟨d, rfl, hj.symm⟩

theorem page_run {w : Writer} (hw : w.Sound) (es : List Edit) (hroom : short (w.run es).2 = false) :
    (w.run es).1.sheet.page = ⟨w.indent, (w.draft.run w.indent.unit es).1⟩ := by
  have ht := Writer.run_tracks hw es
  rcases ht.outcome with ho | ⟨hc, _⟩
  · rw [← ho]
    exact congrArg (Page.mk · (w.run es).1.draft) ht.indent
  · rw [hc] at hroom
    simp [short] at hroom

/-- A deed that finds room does to the text what it does to a plain string. -/
theorem Shows.perform (hs : s.Sound) {d : Deed} {ps : Pages} (h : Shows d.name s ps)
    (hroom : short (s.perform d).2 = false) : Shows d.name (s.perform d).1 (ps.perform d) := by
  intro k hk
  have hkk := h k hk
  cases d with
  | make j indent capacity common =>
    rw [Workshop.perform] at hroom ⊢
    rcases hb : Buffer.withCapacity capacity with f | b
    · rw [hb, Buffer.withCapacity_error hb] at hroom
      simp [short] at hroom
    · have hv : b.view = ⟨"", capacity, false⟩ := (Buffer.sound_withCapacity hb).2
      simp only [sheet?_setSlot, sheet?_release, Pages.perform, Pages.set]
      split
      · rw [Option.map_some, Slot.keepSheet_page, Desk.sheet, hv]
        rfl
      · exact hkk
  | edit j es =>
    rw [Workshop.perform] at hroom ⊢
    rcases h.slot_cases with ⟨hd, hp⟩ | ⟨d, hd, hp⟩
    · simp only [hd, Pages.perform, Pages.set, hp, Option.map_none]
      split
      · next hj => rw [hkk, ← hj, hp]
      · exact hkk
    · simp only [hd] at hroom ⊢
      have hw := page_run (hs.writer hd) es hroom
      simp only [sheet?_putBack, Pages.perform, Pages.set, hp, Option.map_some]
      split
      · rw [Option.map_some, Slot.keepSheet_page, hw]
        rfl
      · exact hkk
  | finish j =>
    rw [Workshop.perform]
    rcases h.slot_cases with ⟨hd, hp⟩ | ⟨d, hd, hp⟩
    · simp only [hd, Pages.perform, Pages.set]
      split
      · next hj => rw [hkk, ← hj, hp]
      · exact hkk
    · simp only [hd, sheet?_clearSlot, sheet?_release, Pages.perform, Pages.set]
      split
      · rfl
      · exact hkk
  | adopt name indent =>
    rw [Workshop.perform]
    rcases Shows.slot_cases (j := .buffer name) h with ⟨hd, hp⟩ | ⟨d, hd, hp⟩
    · simp only [hd, Pages.perform, hp]
      exact hkk
    · simp only [hd, sheet?_setSlot, sheet?_clearSlot, sheet?_release, Pages.perform, Pages.set, hp]
      split
      · rfl
      · split
        · rfl
        · exact hkk

theorem slot_step_of_other (hs : s.Sound) {a : Action} (h : a.concerns k.name = false) :
    (s.step a).1.slot k = s.slot k := by
  cases hd : a.deed? with
  | some d =>
    rw [step_of_deed s hd]
    refine slot_perform_of_ne fun hn => ?_
    simp [Action.concerns, hd, hn] at h
  | none =>
    cases a with
    | request r => exact (hs.request hd).2 k
    | make name indent capacity common | adopt name indent | edit name es | finish name => cases hd

theorem Alike.run (hs : s.Sound) (ht : t.Sound) {name : String} (h : Alike name s t)
    (as : List Action) : Alike name (s.run as).1 (t.run (as.filter (·.concerns name))).1 := by
  induction as generalizing s t with
  | nil => exact h
  | cons a as ih =>
    cases ha : a.concerns name with
    | false =>
      rw [List.filter_cons_of_neg (by simp [ha])]
      refine ih (hs.step a) ht fun k hk => ?_
      rw [sheet?, slot_step_of_other hs (hk ▸ ha)]
      exact h k hk
    | true =>
      obtain ⟨d, hd, rfl⟩ := Action.exists_deed ha
      rw [List.filter_cons_of_pos (by simp [ha]), Workshop.run, Workshop.run]
      refine ih (hs.step a) (ht.step a) ?_
      rw [step_of_deed s hd, step_of_deed t hd]
      exact h.perform hs ht

theorem Shows.run (hs : s.Sound) {name : String} {ps : Pages} (h : Shows name s ps)
    {as : List Action} (hroom : true ∉ (s.run as).2) :
    Shows name (s.run as).1 (ps.run (as.filter (·.concerns name))) := by
  induction as generalizing s ps with
  | nil => exact h
  | cons a as ih =>
    rw [Workshop.run] at hroom ⊢
    obtain ⟨hr, hroom⟩ := not_or.1 (mt List.mem_cons.2 hroom)
    cases ha : a.concerns name with
    | false =>
      rw [List.filter_cons_of_neg (by simp [ha])]
      refine ih (hs.step a) (fun k hk => ?_) hroom
      rw [sheet?, slot_step_of_other hs (hk ▸ ha)]
      exact h k hk
    | true =>
      obtain ⟨d, hd, rfl⟩ := Action.exists_deed ha
      rw [List.filter_cons_of_pos (by simp [ha]), Pages.run, List.foldl_cons, Pages.step, hd]
      refine ih (hs.step a) ?_ hroom
      rw [step_of_deed s hd] at hr ⊢
      exact h.perform hs (by simpa using Ne.symm hr)

theorem sheet?_fresh (maxRetained maxBlockSize : Nat) (k : Slot) :
    (fresh maxRetained maxBlockSize).sheet? k = none := by
  cases k <;> rfl

/-- After any actions on any blocks, buffers and writers, what can be seen in a slot is what its own actions
alone lead to, with a pool of any other limits; and where no room ran out, its text and its level are
what they lead to on plain strings. -/
theorem run_alone (maxRetained maxBlockSize otherRetained otherBlockSize : Nat) (as : List Action)
    (k : Slot) :
    let s := (fresh maxRetained maxBlockSize).run as
    let own := as.filter (·.concerns k.name)
    s.1.sheet? k = ((fresh otherRetained otherBlockSize).run own).1.sheet? k ∧
      (true ∉ s.2 → (s.1.sheet? k).map Sheet.page = Pages.run (fun _ => none) own k) := by
  have hs := sound_fresh maxRetained maxBlockSize
  have ht := sound_fresh otherRetained otherBlockSize
  have ha : Alike k.name (fresh maxRetained maxBlockSize) (fresh otherRetained otherBlockSize) := by
    intro j _
    rw [sheet?_fresh, sheet?_fresh]
  have hp : Shows k.name (fresh maxRetained maxBlockSize) fun _ => none := by
    intro j _
    rw [sheet?_fresh]
    rfl
  exact ⟨ha.run hs ht as k rfl, fun hroom => hp.run hs hroom k rfl⟩

/-- A block comes back to the pool full of the text of others and is used again, while the writer `w` grows
twice and takes back a line. -/
theorem run_alone_recycled :
    let as : List Action := [.request (.rent "x" 40), .request (.fill "x" "junk"),
      .make "w" .tab 2 false, .request (.make "b" 1 false), .request (.giveBack "x"),
      .edit "w" (line "one"), .request (.append "b" ["xyz", "xyz"]), .edit "w" (openScope ++ line "two"),
      .request (.drop "b"), .edit "w" [.dropLast 5, .text "three"]]
    let k := Slot.writer "w"
    let s := (fresh 4 64).run as
    true ∉ s.2 ∧
      s.1.sheet? k = ((fresh 0 0).run (as.filter (·.concerns "w"))).1.sheet? k ∧
      (s.1.sheet? k).map Sheet.page = some ⟨.tab, 1, "one\n\x7b\nthree"⟩ := by
  intro as k s
  have hroom : true ∉ s.2 := by decide +kernel
  have h := run_alone 4 64 0 0 as k
  exact ⟨hroom, h.1, (h.2 hroom).trans (by decide +kernel)⟩

end Workshop

end GeneratorKit.Emission
