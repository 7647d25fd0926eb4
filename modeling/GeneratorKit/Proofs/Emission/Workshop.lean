import GeneratorKit.Proofs.Emission.Command
import GeneratorKit.Proofs.Emission.Writer
import GeneratorKit.Proofs.Storage.Shelf

set_option autoImplicit false

/-!
# Workshops

Writers beside the blocks and buffers of a shelf, all of them on its pools, whose actions may come in any
order. Buffers and writers are kept in slots, and what a request does to a buffer is what edits do to a
writer in its slot (`step_request`).
-/
namespace GeneratorKit.Emission
open Storage

/-- A writer without its pool. -/
structure Desk where
  level : Nat
  indent : Indent
  holding : Holding

structure Workshop where
  shelf : Shelf
  desks : OrderedMap String Desk

inductive Slot where
  | buffer (name : String)
  | writer (name : String)
  deriving DecidableEq

namespace Slot

def name : Slot → String
  | .buffer name | .writer name => name

/-- A buffer has neither a level nor an indentation. -/
def keep : Slot → Desk → Desk
  | .buffer _, d => ⟨0, default, d.holding⟩
  | .writer _, d => d

end Slot

inductive Action where
  | request (r : Request)
  | make (name : String) (indent : Indent) (capacity : Nat) (common : Bool)
  /-- Makes a writer of the buffer of the same name. -/
  | adopt (name : String) (indent : Indent)
  | edit (name : String) (edits : List Edit)
  /-- Ends a writer: its text is built, even if that is refused, or taken, or dropped. -/
  | finish (name : String)

inductive Deed where
  | make (slot : Slot) (indent : Indent) (capacity : Nat) (common : Bool)
  | edit (slot : Slot) (edits : List Edit)
  | finish (slot : Slot)
  | adopt (name : String) (indent : Indent)

/-- What is done to buffers, if it is anything but the handling of blocks. -/
def deedOf? : Request → Option Deed
  | .make name capacity common => some (.make (.buffer name) default capacity common)
  | .append name texts => some (.edit (.buffer name) (texts.map .text))
  | .write name r => some (.edit (.buffer name) [.pieces r])
  | .truncate name length => some (.edit (.buffer name) [.truncate length])
  | .clear name => some (.edit (.buffer name) [.clear])
  | .text name | .trimmed name => some (.edit (.buffer name) [])
  | .finish name | .drop name => some (.finish (.buffer name))
  | .rent .. | .allocate .. | .fill .. | .giveBack _ => none

def Action.deed? : Action → Option Deed
  | .request r => deedOf? r
  | .make name indent capacity common => some (.make (.writer name) indent capacity common)
  | .adopt name indent => some (.adopt name indent)
  | .edit name es => some (.edit (.writer name) es)
  | .finish name => some (.finish (.writer name))

def short (stop : Option Stop) : Bool := stop = some (.fault .capacity)

def shortReply : Storage.Reply → Bool
  | .fault .capacity => true
  | _ => false

namespace Workshop

def start (pool common : Pool) : Workshop := ⟨⟨pool, common, .empty, .empty⟩, .empty⟩

def poolOf (s : Workshop) (common : Bool) : Pool := s.shelf.poolOf common

def setPool (s : Workshop) (common : Bool) (p : Pool) : Workshop :=
  { s with shelf := s.shelf.setPool common p }

def slot (s : Workshop) : Slot → Option Desk
  | .buffer name => (s.shelf.buffers.get? name).map fun h => ⟨0, default, h⟩
  | .writer name => s.desks.get? name

def setSlot (s : Workshop) : Slot → Desk → Workshop
  | .buffer name, d => { s with shelf := s.shelf.setBuffer name d.holding }
  | .writer name, d => { s with desks := s.desks.insert name d }

def clearSlot (s : Workshop) : Slot → Workshop
  | .buffer name => { s with shelf := { s.shelf with buffers := s.shelf.buffers.erase name } }
  | .writer name => { s with desks := s.desks.erase name }

/-- The writer of a desk with its pool at hand. -/
def writer (s : Workshop) (d : Desk) : Writer :=
  ⟨d.level, d.indent, d.holding.buffer, s.poolOf d.holding.common⟩

/-- Puts the writer of a slot back with the pool as it left it. -/
def putBack (s : Workshop) (slot : Slot) (common : Bool) (w : Writer) : Workshop :=
  (s.setPool common w.pool).setSlot slot ⟨w.level, w.indent, w.buffer, common⟩

def release (s : Workshop) (slot : Slot) : Workshop :=
  match s.slot slot with
  | none => s
  | some d => s.setPool d.holding.common (s.writer d).release

def perform (s : Workshop) : Deed → Workshop × Option Stop
  | .make slot indent capacity common =>
    match Buffer.withCapacity capacity with
    | .ok b => ((s.release slot).setSlot slot ⟨0, indent, b, common⟩, none)
    | .error f => (s, some (.fault f))
  | .edit slot es =>
    match s.slot slot with
    | none => (s, none)
    | some d => (s.putBack slot d.holding.common ((s.writer d).run es).1, ((s.writer d).run es).2)
  | .finish slot =>
    match s.slot slot with
    | none => (s, none)
    | some _ => ((s.release slot).clearSlot slot, none)
  | .adopt name indent =>
    match s.slot (.buffer name) with
    | none => (s, none)
    | some d =>
      (((s.release (.writer name)).clearSlot (.buffer name)).setSlot (.writer name)
        ⟨0, indent, d.holding⟩, none)

/-- What an action leaves and whether room ran out. -/
def step (s : Workshop) : Action → Workshop × Bool
  | .request r => ({ s with shelf := (s.shelf.step r).1 }, shortReply (s.shelf.step r).2)
  | .make name indent capacity common => does (.make (.writer name) indent capacity common)
  | .adopt name indent => does (.adopt name indent)
  | .edit name es => does (.edit (.writer name) es)
  | .finish name => does (.finish (.writer name))
where
  does (d : Deed) : Workshop × Bool := ((s.perform d).1, short (s.perform d).2)

end Workshop

/-- Appending to a buffer of a shelf is appending to a writer that has the buffer. -/
theorem appendAll_eq {s : Shelf} {name : String} {common : Bool} {b : Buffer}
    (hs : s.buffers.get? name = some ⟨b, common⟩) (level : Nat) (indent : Indent) (ts : List String) :
    Shelf.appendAll name common ts b s =
      let r := Writer.appendAll ts ⟨level, indent, b, s.poolOf common⟩
      ((s.setPool common r.1.pool).setBuffer name ⟨r.1.buffer, common⟩, match r.2 with
        | some (.fault f) => some f
        | _ => none) := by
  induction ts generalizing s b with
  | nil =>
    simp only [Shelf.appendAll, Writer.appendAll, Shelf.setPool_poolOf, Shelf.setBuffer_of_get? hs]
  | cons t ts ih =>
    rw [Shelf.appendAll, Writer.appendAll, Writer.append]
    rcases hb : b.append t (s.poolOf common) with ⟨p, f | c⟩
    · simp only
      rw [Shelf.setBuffer_of_get? (by simpa using hs)]
    · have hc : ((s.setPool common p).setBuffer name ⟨c, common⟩).buffers.get? name =
          some ⟨c, common⟩ := by
        rw [Shelf.setBuffer, OrderedMap.get?_insert, if_pos rfl]
      have hi := ih hc
      rw [Shelf.poolOf_setBuffer, Shelf.poolOf_setPool] at hi
      simp only [hi, Shelf.setPool_setBuffer, Shelf.setPool_setPool, Shelf.setBuffer_setBuffer]

namespace Workshop

theorem putBack_of_pool {s : Workshop} {common : Bool} {w : Writer} (h : w.pool = s.poolOf common)
    (slot : Slot) : s.putBack slot common w = s.setSlot slot ⟨w.level, w.indent, w.buffer, common⟩ := by
  rw [putBack, h, setPool, poolOf, Shelf.setPool_poolOf]

theorem shortReply_fault (f : Fault) : shortReply (.fault f) = short (some (.fault f)) := by
  cases f <;> simp [shortReply, short]

theorem shortReply_answer {reply : Storage.Reply} (h : shortReply reply = false) (t : Shelf)
    (stop : Option Stop) : shortReply (Shelf.answer reply (t, match stop with
      | some (.fault f) => some f
      | _ => none)).2 = short stop := by
  rcases stop with _ | r | f
  · exact h
  · exact h
  · exact shortReply_fault f

theorem answer_fst (reply : Storage.Reply) (t : Shelf) (f : Option Fault) :
    (Shelf.answer reply (t, f)).1 = t := by
  cases f <;> rfl

theorem release_buffer (s : Workshop) (name : String) :
    s.release (.buffer name) = { s with shelf := s.shelf.release name } := by
  cases h : s.shelf.buffers.get? name with
  | none =>
    rw [release, slot, Shelf.release, h]
    rfl
  | some g =>
    rw [release, slot, Shelf.release, h]
    rfl

/-- What a request does to a buffer is what the deed does to its slot. -/
theorem step_request (s : Workshop) {r : Request} {d : Deed} (hd : deedOf? r = some d) :
    s.step (.request r) = ((s.perform d).1, short (s.perform d).2) := by
  cases r with
  | rent name size | allocate name size | fill name text | giveBack name => cases hd
  | make name capacity common =>
    cases hd
    rw [step, perform, Shelf.step, release_buffer]
    rcases Buffer.withCapacity capacity with f | b
    · rw [shortReply_fault]
    · rfl
  | finish name | drop name =>
    cases hd
    rw [step, perform, Shelf.step, Shelf.step.on, slot, release_buffer]
    cases h : s.shelf.buffers.get? name <;> rfl
  | append name texts =>
    cases hd
    rw [step, perform, Shelf.step, Shelf.step.on, slot]
    cases h : s.shelf.buffers.get? name with
    | none => rfl
    | some g =>
      simp only [Option.map_some, Writer.run_texts, appendAll_eq h 0 default]
      rw [shortReply_answer rfl, answer_fst]
      rfl
  | write name r =>
    cases hd
    rw [step, perform, Shelf.step, Shelf.step.on, slot]
    cases h : s.shelf.buffers.get? name with
    | none => rfl
    | some g =>
      simp only [Option.map_some, Writer.run_single, Writer.step, appendAll_eq h 0 default]
      rw [shortReply_answer rfl, answer_fst]
      rfl
  | truncate name length =>
    cases hd
    rw [step, perform, Shelf.step, Shelf.step.on, slot]
    cases h : s.shelf.buffers.get? name with
    | none => rfl
    | some g =>
      have hg : s.shelf.setBuffer name ⟨g.buffer, g.common⟩ = s.shelf := Shelf.setBuffer_of_get? h
      simp only [Option.map_some, Writer.run_single, Writer.step]
      rw [Buffer.truncate_eq, Writer.truncate_eq]
      rw [show (s.writer ⟨0, default, g⟩).text = g.buffer.text from rfl]
      rcases Text.cut? g.buffer.text length with _ | t
      · simp only
        rw [putBack_of_pool rfl, setSlot, writer, hg]
        split <;> rfl
      · rw [putBack_of_pool rfl]
        rfl
  | clear name =>
    cases hd
    rw [step, perform, Shelf.step, Shelf.step.on, slot]
    cases h : s.shelf.buffers.get? name with
    | none => rfl
    | some g =>
      simp only [Option.map_some, Writer.run_single, Writer.step]
      rw [putBack_of_pool rfl]
      rfl
  | text name | trimmed name =>
    cases hd
    rw [step, perform, Shelf.step, Shelf.step.on, slot]
    cases h : s.shelf.buffers.get? name with
    | none => rfl
    | some g =>
      have hg : s.shelf.setBuffer name ⟨g.buffer, g.common⟩ = s.shelf := Shelf.setBuffer_of_get? h
      simp only [Option.map_some, Writer.run]
      rw [putBack_of_pool rfl, setSlot, writer, hg]
      rfl

theorem step_of_deed (s : Workshop) {a : Action} {d : Deed} (h : a.deed? = some d) :
    s.step a = ((s.perform d).1, short (s.perform d).2) := by
  cases a with
  | request r => exact step_request s h
  | make name indent capacity common | adopt name indent | edit name es | finish name =>
    cases h
    rfl

def run (s : Workshop) : List Action → Workshop × List Bool
  | [] => (s, [])
  | a :: as => (((s.step a).1.run as).1, (s.step a).2 :: ((s.step a).1.run as).2)

end Workshop

end GeneratorKit.Emission
