import GeneratorKit.Proofs.Emission.Ledger
import GeneratorKit.Proofs.Emission.Slots

set_option autoImplicit false

/-!
# Accounts

The counters of a pool that only buffers and writers use. Its loans are the times that buffers grew, and
its blocks that are out are those of the buffers that live (`run_accounts`).
-/
namespace GeneratorKit.Emission
open Storage

/-- The blocks of the pool of its own that a holding has; those of the common pool are not counted. -/
def ownBlocks (h : Holding) : Nat := if h.common then 0 else heldBy h.buffer

namespace Workshop

/-- The number of buffers, in writers or not, that hold a block of the pool. -/
def live (s : Workshop) : Nat :=
  s.shelf.buffers.total ownBlocks + s.desks.total fun d => ownBlocks d.holding

def heldIn (s : Workshop) (j : Slot) : Nat := ((s.slot j).map fun d => ownBlocks d.holding).getD 0

theorem heldIn_of_some {s : Workshop} {j : Slot} {d : Desk} (h : s.slot j = some d) :
    s.heldIn j = ownBlocks d.holding := by
  rw [heldIn, h]
  rfl

theorem heldIn_buffer (s : Workshop) (name : String) :
    s.heldIn (.buffer name) = ((s.shelf.buffers.get? name).map ownBlocks).getD 0 := by
  rw [heldIn, slot, Option.map_map]
  rfl

theorem heldIn_writer (s : Workshop) (name : String) : s.heldIn (.writer name) =
    ((s.desks.get? name).map fun d => ownBlocks d.holding).getD 0 := rfl

theorem live_setSlot (s : Workshop) (j : Slot) (d : Desk) :
    (s.setSlot j d).live + s.heldIn j = s.live + ownBlocks d.holding := by
  cases j with
  | buffer name =>
    have ht := s.shelf.buffers.total_insert ownBlocks name d.holding
    simp only [live, setSlot, Shelf.setBuffer, heldIn_buffer]
    omega
  | writer name =>
    have ht := s.desks.total_insert (fun d => ownBlocks d.holding) name d
    simp only [live, setSlot, heldIn_writer]
    omega

theorem live_clearSlot (s : Workshop) (j : Slot) : (s.clearSlot j).live + s.heldIn j = s.live := by
  cases j with
  | buffer name =>
    have ht := s.shelf.buffers.total_erase ownBlocks name
    simp only [live, clearSlot, heldIn_buffer]
    omega
  | writer name =>
    have ht := s.desks.total_erase (fun d => ownBlocks d.holding) name
    simp only [live, clearSlot, heldIn_writer]
    omega

@[simp] theorem live_setPool (s : Workshop) (common : Bool) (p : Pool) :
    (s.setPool common p).live = s.live := by
  cases common <;> rfl

theorem live_eq_zero {s : Workshop} (h : ∀ k, s.slot k = none) : s.live = 0 := by
  have hb : ∀ name, s.shelf.buffers.get? name = none := fun name =>
    Option.map_eq_none_iff.1 (h (.buffer name))
  rw [live, OrderedMap.total_eq_zero hb, OrderedMap.total_eq_zero fun name => h (.writer name)]

def growths (s : Workshop) : Deed → Nat
  | .edit j es =>
    match s.slot j with
    | some d => if d.holding.common then 0 else (s.writer d).growths es
    | none => 0
  | _ => 0

def growthsOf (s : Workshop) : List Action → Nat
  | [] => 0
  | a :: as => (a.deed?.map s.growths).getD 0 + (s.step a).1.growthsOf as

abbrev Books (s t : Workshop) (loans : Nat) : Prop :=
  Ledger (s.poolOf false) (t.poolOf false) s.live t.live loans

variable {s : Workshop}

/-- Giving back what a slot holds leaves a slot to be filled or cleared. -/
theorem release_books (s : Workshop) (j : Slot) (k : Nat) :
    Ledger (s.poolOf false) ((s.release j).poolOf false) (s.heldIn j + k) k 0 := by
  unfold release
  cases hj : s.slot j with
  | none =>
    rw [show s.heldIn j + k = k by simp [heldIn, hj]]
    exact .refl _ k
  | some d =>
    simp only [heldIn_of_some hj, ownBlocks, poolOf_setPool_eq]
    cases hc : d.holding.common with
    | true => simpa using Ledger.refl (s.poolOf false) k
    | false =>
      have hr := release_ledger d.holding.buffer (s.poolOf d.holding.common)
      rw [hc] at hr
      simpa [writer, Writer.release, hc] using hr.frame k

theorem live_release (s : Workshop) (j : Slot) : (s.release j).live = s.live := by
  unfold release
  split
  · rfl
  · exact live_setPool s _ _

theorem heldIn_release (s : Workshop) (j k : Slot) : (s.release j).heldIn k = s.heldIn k := by
  rw [heldIn, slot_release, heldIn]

/-- Where a slot was released and its block is no longer held, the books agree without a loan. -/
theorem books_of_release {s t : Workshop} {j : Slot}
    (hp : t.poolOf false = (s.release j).poolOf false) (hl : t.live + s.heldIn j = s.live) :
    Books s t 0 := by
  have hr := release_books s j t.live
  rw [← hp, show s.heldIn j + t.live = s.live by omega] at hr
  exact hr

theorem live_putBack (s : Workshop) {j : Slot} {d : Desk} (hd : s.slot j = some d) (w : Writer) :
    (s.putBack j d.holding.common w).live + ownBlocks d.holding =
      s.live + ownBlocks ⟨w.buffer, d.holding.common⟩ := by
  have hl := live_setSlot (s.setPool d.holding.common w.pool) j
    ⟨w.level, w.indent, w.buffer, d.holding.common⟩
  rwa [heldIn, slot_setPool, ← heldIn, heldIn_of_some hd, live_setPool] at hl

theorem edit_books (hs : s.Sound) {j : Slot} {es : List Edit} {d : Desk} (hd : s.slot j = some d)
    (hroom : ((s.writer d).run es).2 ≠ some (.fault .capacity)) :
    Books s (s.putBack j d.holding.common ((s.writer d).run es).1)
      (if d.holding.common then 0 else (s.writer d).growths es) := by
  have hl := live_putBack s hd ((s.writer d).run es).1
  have hb := Writer.run_books (hs.writer hd) hroom
  have hp : (s.writer d).pool = s.poolOf d.holding.common := rfl
  have hq : (s.putBack j d.holding.common ((s.writer d).run es).1).poolOf false =
      if d.holding.common = false then ((s.writer d).run es).1.pool else s.poolOf false := by
    rw [putBack, poolOf_setSlot, poolOf_setPool_eq]
  cases hc : d.holding.common with
  | true =>
    -- the common pool has its own books
    simp only [hc, ownBlocks, if_true, Nat.add_zero] at hl
    rw [hc] at hq
    rw [Books, hq, hl]
    exact .refl _ _
  | false =>
    simp only [hc, ownBlocks, Bool.false_eq_true, if_false] at hl
    rw [hc] at hq hp
    obtain ⟨hrented, hreturned, hretained, hlimit⟩ := hb
    rw [hp] at hrented hreturned hretained hlimit
    rw [show (s.writer d).buffer = d.holding.buffer from rfl] at hreturned
    rw [Books, hq]
    refine ⟨hrented, ?_, hretained, hlimit⟩
    simp only [if_true, Bool.false_eq_true, if_false]
    omega

theorem perform_books (hs : s.Sound) {d : Deed} (hroom : short (s.perform d).2 = false) :
    Books s (s.perform d).1 (s.growths d) := by
  cases d with
  | make j indent capacity common =>
    rw [perform]
    rcases hb : Buffer.withCapacity capacity with f | b
    · exact .refl _ _
    · have hl := live_setSlot (s.release j) j ⟨0, indent, b, common⟩
      have hv : b.pooled = false := congrArg View.pooled (Buffer.sound_withCapacity hb).2
      have ho : ownBlocks ⟨b, common⟩ = 0 := by simp [ownBlocks, heldBy, hv]
      rw [heldIn_release, live_release, ho] at hl
      exact books_of_release (poolOf_setSlot _ _ _ _) hl
  | edit j es =>
    rw [perform] at hroom ⊢
    rw [growths]
    cases hd : s.slot j with
    | none => exact .refl _ _
    | some d =>
      simp only [hd] at hroom ⊢
      exact edit_books hs hd (by simpa [short] using hroom)
  | finish j =>
    rw [perform]
    cases hd : s.slot j with
    | none => exact .refl _ _
    | some d =>
      have hl := live_clearSlot (s.release j) j
      rw [heldIn_release, live_release] at hl
      exact books_of_release (poolOf_clearSlot _ _ _) hl
  | adopt name indent =>
    rw [perform]
    cases hd : s.slot (.buffer name) with
    | none => exact .refl _ _
    | some d =>
      have hc := live_clearSlot (s.release (.writer name)) (.buffer name)
      have hl := live_setSlot ((s.release (.writer name)).clearSlot (.buffer name)) (.writer name)
        ⟨0, indent, d.holding⟩
      have hj : ((s.release (.writer name)).clearSlot (.buffer name)).heldIn (.writer name) =
          s.heldIn (.writer name) := by
        rw [heldIn, slot_clearSlot, if_neg (by simp), slot_release, heldIn]
      rw [heldIn_release, live_release, heldIn_of_some hd] at hc
      rw [hj] at hl
      refine books_of_release (j := .writer name) ?_ (by simp only at hl ⊢; omega)
      rw [poolOf_setSlot, poolOf_clearSlot]

theorem run_books (hs : s.Sound) {as : List Action} (huse : ∀ a ∈ as, a.deed?.isSome = true)
    (hroom : true ∉ (s.run as).2) : Books s (s.run as).1 (s.growthsOf as) := by
  induction as generalizing s with
  | nil => exact .refl _ _
  | cons a as ih =>
    rw [run] at hroom ⊢
    obtain ⟨hr, hroom⟩ := not_or.1 (mt List.mem_cons.2 hroom)
    obtain ⟨d, hd⟩ := Option.isSome_iff_exists.1 (huse a (by simp))
    rw [growthsOf, hd]
    refine Ledger.trans ?_ (ih (hs.step a) (fun b hb => huse b (by simp [hb])) hroom)
    rw [step_of_deed s hd] at hr ⊢
    exact perform_books hs (by simpa using Ne.symm hr)

/-- The counters of the pool after so many growths. -/
structure Accounts (s : Workshop) (maxRetained loans : Nat) : Prop where
  rented : s.shelf.pool.rented = loans
  lent : s.shelf.pool.rented = s.shelf.pool.returned + s.live
  outstanding : s.shelf.pool.outstanding = s.live
  retained : s.shelf.pool.retained ≤ min maxRetained s.shelf.pool.returned
  settled : (∀ k, s.slot k = none) →
    s.shelf.pool.rented = s.shelf.pool.returned ∧ s.shelf.pool.outstanding = 0

theorem accounts_of_books {maxRetained maxBlockSize loans : Nat} {t : Workshop} (ht : t.Sound)
    (h : Books (fresh maxRetained maxBlockSize) t loans) : Accounts t maxRetained loans := by
  have hlive : (fresh maxRetained maxBlockSize).live = 0 := rfl
  have hp : (fresh maxRetained maxBlockSize).poolOf false = .withLimits maxRetained maxBlockSize := rfl
  have hfew : t.shelf.pool.retained ≤ t.shelf.pool.maxRetained := (ht.pools false).few
  obtain ⟨hrented, hreturned, hretained, hlimit⟩ := h
  rw [hp, show t.poolOf false = t.shelf.pool from rfl] at hrented hreturned hretained hlimit
  rw [hlive] at hreturned
  simp only [Pool.withLimits, Pool.retained, List.length_nil, Nat.zero_add, Nat.add_zero]
    at hrented hreturned hretained hlimit hfew ⊢
  have hlent : t.shelf.pool.rented = t.shelf.pool.returned + t.live := by omega
  refine ⟨hrented, hlent, ?_, ?_, fun hempty => ?_⟩
  · rw [Pool.outstanding]
    omega
  · rw [← hlimit]
    exact Nat.le_min.2 ⟨hfew, hretained⟩
  · have hz := live_eq_zero hempty
    rw [Pool.outstanding]
    omega

/-- Whatever buffers and writers did, as long as they were alone with a fresh pool and found room, every
growth was a loan, and the blocks that were not given back are those of the buffers that live. -/
theorem run_accounts (maxRetained maxBlockSize : Nat) {as : List Action}
    (huse : ∀ a ∈ as, a.deed?.isSome = true)
    (hroom : true ∉ ((fresh maxRetained maxBlockSize).run as).2) :
    Accounts ((fresh maxRetained maxBlockSize).run as).1 maxRetained
      ((fresh maxRetained maxBlockSize).growthsOf as) := by
  have hs := sound_fresh maxRetained maxBlockSize
  exact accounts_of_books (run_sound hs as) (run_books hs huse hroom)

/-- Two buffers grow four times, twice in a rendering that fails; one ends as a writer whose scope is open, the
other lives on. -/
theorem run_accounts_adopted :
    let as : List Action := [.request (.make "a" 2 false), .request (.append "a" ["xyz"]),
      .adopt "a" .tab, .make "b" .tab 1 false, .edit "b" [.rendering ⟨["12", "345"], true⟩],
      .edit "a" openScope, .finish "a"]
    let s := ((fresh 1 64).run as).1
    Accounts s 1 ((fresh 1 64).growthsOf as) ∧ (fresh 1 64).growthsOf as = 4 ∧ s.live = 1 := by
  intro as s
  have huse : ∀ a ∈ as, a.deed?.isSome = true := by simp [as, Action.deed?, deedOf?]
  have h := run_accounts 1 64 huse (by decide +kernel)
  exact ⟨h, by decide +kernel, by decide +kernel⟩

end Workshop

end GeneratorKit.Emission
