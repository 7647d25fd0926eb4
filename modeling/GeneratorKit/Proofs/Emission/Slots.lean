import GeneratorKit.Proofs.Emission.Workshop

set_option autoImplicit false

/-!
# Sound workshops

What deeds do to slots and pools. Everything in a workshop is sound after any actions (`run_sound`).
-/
namespace GeneratorKit.Emission
open Storage

namespace Workshop

variable (s : Workshop)

@[simp] theorem poolOf_setSlot (slot : Slot) (d : Desk) (common : Bool) :
    (s.setSlot slot d).poolOf common = s.poolOf common := by
  cases slot <;> cases common <;> rfl

@[simp] theorem poolOf_clearSlot (slot : Slot) (common : Bool) :
    (s.clearSlot slot).poolOf common = s.poolOf common := by
  cases slot <;> cases common <;> rfl

theorem poolOf_setPool_eq (common other : Bool) (p : Pool) :
    (s.setPool common p).poolOf other = if common = other then p else s.poolOf other := by
  cases common <;> cases other <;> rfl

@[simp] theorem blocks_setSlot (slot : Slot) (d : Desk) :
    (s.setSlot slot d).shelf.blocks = s.shelf.blocks := by
  cases slot <;> rfl

@[simp] theorem blocks_clearSlot (slot : Slot) :
    (s.clearSlot slot).shelf.blocks = s.shelf.blocks := by
  cases slot <;> rfl

@[simp] theorem blocks_setPool (common : Bool) (p : Pool) :
    (s.setPool common p).shelf.blocks = s.shelf.blocks := by
  cases common <;> rfl

@[simp] theorem slot_setPool (common : Bool) (p : Pool) (k : Slot) :
    (s.setPool common p).slot k = s.slot k := by
  cases k <;> simp [slot, setPool]

theorem slot_setSlot (j k : Slot) (d : Desk) :
    (s.setSlot j d).slot k = if j = k then some (j.keep d) else s.slot k := by
  cases j with
  | buffer name =>
    cases k with
    | buffer other =>
      simp only [setSlot, slot, Shelf.setBuffer, OrderedMap.get?_insert, Slot.buffer.injEq]
      split <;> rfl
    | writer other => rfl
  | writer name =>
    cases k with
    | buffer other => rfl
    | writer other =>
      simp only [setSlot, slot, OrderedMap.get?_insert, Slot.writer.injEq]
      rfl

theorem slot_clearSlot (j k : Slot) :
    (s.clearSlot j).slot k = if j = k then none else s.slot k := by
  cases j with
  | buffer name =>
    cases k with
    | buffer other =>
      simp only [clearSlot, slot, OrderedMap.get?_erase, Slot.buffer.injEq]
      split <;> rfl
    | writer other => rfl
  | writer name =>
    cases k with
    | buffer other => rfl
    | writer other => simp only [clearSlot, slot, OrderedMap.get?_erase, Slot.writer.injEq]

@[simp] theorem slot_release (j k : Slot) : (s.release j).slot k = s.slot k := by
  unfold release
  split
  · rfl
  · exact slot_setPool s _ _ k

structure Sound (s : Workshop) : Prop where
  pools : ∀ common, (s.poolOf common).Sound
  blocks : ∀ name b, s.shelf.blocks.get? name = some b → b.capacity ≤ addressLimit
  slots : ∀ k d, s.slot k = some d → d.holding.buffer.Sound

theorem sound_start {pool common : Pool} (hp : pool.Sound) (hc : common.Sound) :
    (start pool common).Sound := by
  refine ⟨fun c => ?_, fun name b h => ?_, fun k d h => ?_⟩
  · cases c
    · exact hp
    · exact hc
  · cases h
  · cases k <;> cases h

variable {s}

theorem Sound.writer (h : s.Sound) {k : Slot} {d : Desk} (hk : s.slot k = some d) :
    (s.writer d).Sound := ⟨h.slots k d hk, h.pools d.holding.common⟩

theorem Sound.setPool (h : s.Sound) (common : Bool) {p : Pool} (hp : p.Sound) :
    (s.setPool common p).Sound := by
  refine ⟨fun c => ?_, ?_, ?_⟩
  · rw [poolOf_setPool_eq]
    split
    · exact hp
    · exact h.pools c
  · simpa using h.blocks
  · simpa using h.slots

theorem Sound.setSlot (h : s.Sound) (j : Slot) {d : Desk} (hd : d.holding.buffer.Sound) :
    (s.setSlot j d).Sound := by
  refine ⟨by simpa using h.pools, by simpa using h.blocks, fun k e hk => ?_⟩
  rw [slot_setSlot] at hk
  split at hk
  · cases hk
    cases j <;> exact hd
  · exact h.slots k e hk

theorem Sound.clearSlot (h : s.Sound) (j : Slot) : (s.clearSlot j).Sound := by
  refine ⟨by simpa using h.pools, by simpa using h.blocks, fun k e hk => ?_⟩
  rw [slot_clearSlot] at hk
  split at hk
  · cases hk
  · exact h.slots k e hk

theorem Sound.release (h : s.Sound) (j : Slot) : (s.release j).Sound := by
  unfold Workshop.release
  split
  · exact h
  · next d hd =>
    have hw := h.writer hd
    exact h.setPool _ (hw.buffer.release hw.pool)

theorem Sound.putBack (h : s.Sound) (j : Slot) (common : Bool) {w : Writer} (hw : w.Sound) :
    (s.putBack j common w).Sound := (h.setPool common hw.pool).setSlot j hw.buffer

theorem Sound.perform (h : s.Sound) (d : Deed) : (s.perform d).1.Sound := by
  cases d with
  | make j indent capacity common =>
    rw [Workshop.perform]
    split
    · next b hb => exact (h.release j).setSlot j (Buffer.sound_withCapacity hb).1
    · exact h
  | edit j es =>
    rw [Workshop.perform]
    split
    · exact h
    · next d hd => exact h.putBack j _ (Writer.run_continues (h.writer hd) es).sound
  | finish j =>
    rw [Workshop.perform]
    split
    · exact h
    · exact (h.release j).clearSlot j
  | adopt name indent =>
    rw [Workshop.perform]
    split
    · exact h
    · next d hd =>
      refine Sound.setSlot ((h.release _).clearSlot _) (.writer name) ?_
      exact h.slots (.buffer name) d hd

theorem Sound.setShelf (h : s.Sound) {t : Shelf} (hb : t.buffers = s.shelf.buffers)
    (hc : t.common = s.shelf.common) (hp : t.pool.Sound)
    (ht : ∀ name b, t.blocks.get? name = some b → b.capacity ≤ addressLimit) :
    ({ s with shelf := t } : Workshop).Sound ∧
      ∀ k, ({ s with shelf := t } : Workshop).slot k = s.slot k := by
  have hk : ∀ k, ({ s with shelf := t } : Workshop).slot k = s.slot k := by
    intro k
    cases k with
    | buffer name => rw [slot, hb, slot]
    | writer name => rfl
  refine ⟨⟨fun c => ?_, ht, fun k d hd => h.slots k d (hk k ▸ hd)⟩, hk⟩
  cases c with
  | false => exact hp
  | true =>
    change t.common.Sound
    rw [hc]
    exact h.pools true

theorem Sound.insertBlock (h : s.Sound) {name : String} {b : Block} (hb : b.capacity ≤ addressLimit) :
    ∀ other c, (s.shelf.blocks.insert name b).get? other = some c → c.capacity ≤ addressLimit := by
  intro other c hc
  rw [OrderedMap.get?_insert] at hc
  split at hc
  · cases hc
    exact hb
  · exact h.blocks other c hc

/-- Handling blocks leaves the buffers and writers as they are. -/
theorem Sound.request (h : s.Sound) {r : Request} (hr : deedOf? r = none) :
    (s.step (.request r)).1.Sound ∧ ∀ k, (s.step (.request r)).1.slot k = s.slot k := by
  have hpool : s.shelf.pool.Sound := h.pools false
  rw [Workshop.step]
  cases r with
  | rent name size =>
    have hp := hpool.rent size
    rw [Shelf.step]
    rcases hrent : s.shelf.pool.rent size with ⟨p, f | b⟩
    · rw [hrent] at hp
      exact h.setShelf rfl rfl hp h.blocks
    · rw [hrent] at hp
      have hb : b.capacity ≤ addressLimit := hpool.rent_ok (congrArg Prod.snd hrent)
      exact h.setShelf rfl rfl hp (h.insertBlock hb)
  | allocate name size =>
    rw [Shelf.step]
    rcases ha : Block.allocate size with f | b
    · exact h.setShelf rfl rfl hpool h.blocks
    · exact h.setShelf rfl rfl hpool (h.insertBlock (Block.allocate_ok ha))
  | fill name text =>
    rw [Shelf.step]
    cases hn : s.shelf.blocks.get? name with
    | none => exact h.setShelf rfl rfl hpool h.blocks
    | some b => exact h.setShelf rfl rfl hpool (h.insertBlock (h.blocks name b hn))
  | giveBack name =>
    rw [Shelf.step]
    cases hn : s.shelf.blocks.get? name with
    | none => exact h.setShelf rfl rfl hpool h.blocks
    | some b =>
      refine h.setShelf rfl rfl (hpool.giveBack (h.blocks name b hn)) fun other c hc => ?_
      rw [OrderedMap.get?_erase] at hc
      split at hc
      · cases hc
      · exact h.blocks other c hc
  | make | append | write | truncate | clear | text | trimmed | finish | drop => cases hr

theorem Sound.step (h : s.Sound) (a : Action) : (s.step a).1.Sound := by
  cases hd : a.deed? with
  | some d =>
    rw [step_of_deed s hd]
    exact h.perform d
  | none =>
    cases a with
    | request r => exact (h.request hd).1
    | make name indent capacity common | adopt name indent | edit name es | finish name => cases hd

theorem run_sound (h : s.Sound) (as : List Action) : (s.run as).1.Sound := by
  induction as generalizing s with
  | nil => exact h
  | cons a as ih => exact ih (h.step a)

/-- A workshop with a pool of its own beside the common one. -/
def fresh (maxRetained maxBlockSize : Nat) : Workshop :=
  start (.withLimits maxRetained maxBlockSize) .standard

theorem sound_fresh (maxRetained maxBlockSize : Nat) : (fresh maxRetained maxBlockSize).Sound :=
  sound_start (Pool.sound_withLimits _ _) (Pool.sound_withLimits _ _)

end Workshop

end GeneratorKit.Emission
