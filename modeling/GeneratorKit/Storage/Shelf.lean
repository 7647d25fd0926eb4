import GeneratorKit.Map.Ordered
import GeneratorKit.Storage.Buffer
import GeneratorKit.Text.Rendering

set_option autoImplicit false

/-!
# Shelves

Blocks and buffers under names, around one pool. Some buffers may use a second pool, which belongs to
all shelves. A new thing under a name that is taken replaces the old one, which is then released.
-/
namespace GeneratorKit.Storage

/-- A buffer and whether it uses the common pool. -/
structure Holding where
  buffer : Buffer
  common : Bool

structure Shelf where
  pool : Pool
  common : Pool
  blocks : OrderedMap String Block
  buffers : OrderedMap String Holding

inductive Request where
  | rent (name : String) (size : Nat)
  /-- Makes a block that does not come from the pool. -/
  | allocate (name : String) (size : Nat)
  | fill (name : String) (text : String)
  | giveBack (name : String)
  | make (name : String) (capacity : Nat) (common : Bool)
  | append (name : String) (texts : List String)
  | write (name : String) (rendering : Rendering)
  | truncate (name : String) (length : Nat)
  | clear (name : String)
  | text (name : String)
  | trimmed (name : String)
  /-- Ends a buffer and hands out its text. -/
  | finish (name : String)
  | drop (name : String)

inductive Reply where
  | done
  | block (capacity size : Nat)
  | flag (b : Bool)
  | text (s : String)
  | fault (f : Fault)
  | missing

namespace Shelf

def withPool (pool : Pool) : Shelf := ⟨pool, .standard, .empty, .empty⟩

def buffer? (s : Shelf) (name : String) : Option Buffer := (s.buffers.get? name).map (·.buffer)

def poolOf (s : Shelf) (common : Bool) : Pool := if common then s.common else s.pool

def setPool (s : Shelf) (common : Bool) (p : Pool) : Shelf :=
  if common then { s with common := p } else { s with pool := p }

def setBlock (s : Shelf) (name : String) (b : Block) : Shelf × Reply :=
  ({ s with blocks := s.blocks.insert name b }, .block b.capacity b.text.utf8ByteSize)

def setBuffer (s : Shelf) (name : String) (h : Holding) : Shelf :=
  { s with buffers := s.buffers.insert name h }

def release (s : Shelf) (name : String) : Shelf :=
  match s.buffers.get? name with
  | none => s
  | some h => s.setPool h.common (h.buffer.release (s.poolOf h.common))

def remove (s : Shelf) (name : String) : Shelf :=
  let s := s.release name
  { s with buffers := s.buffers.erase name }

/-- Appends texts one after another, up to the first that does not fit in any block. -/
def appendAll (name : String) (common : Bool) : List String → Buffer → Shelf → Shelf × Option Fault
  | [], _, s => (s, none)
  | t :: ts, b, s =>
    match b.append t (s.poolOf common) with
    | (p, .ok b) => appendAll name common ts b ((s.setPool common p).setBuffer name ⟨b, common⟩)
    | (p, .error f) => (s.setPool common p, some f)

def answer (r : Reply) : Shelf × Option Fault → Shelf × Reply
  | (s, none) => (s, r)
  | (s, some f) => (s, .fault f)

def step (s : Shelf) : Request → Shelf × Reply
  | .rent name size =>
    match s.pool.rent size with
    | (p, .ok b) => { s with pool := p }.setBlock name b
    | (p, .error f) => ({ s with pool := p }, .fault f)
  | .allocate name size =>
    match Block.allocate size with
    | .ok b => ({ s with blocks := s.blocks.insert name b }, .done)
    | .error f => (s, .fault f)
  | .fill name text =>
    match s.blocks.get? name with
    | some b => s.setBlock name { b with text := b.text ++ text }
    | none => (s, .missing)
  | .giveBack name =>
    match s.blocks.get? name with
    | some b => ({ s with pool := s.pool.giveBack b, blocks := s.blocks.erase name }, .done)
    | none => (s, .missing)
  | .make name capacity common =>
    match Buffer.withCapacity capacity with
    | .ok b => ((s.release name).setBuffer name ⟨b, common⟩, .done)
    | .error f => (s, .fault f)
  | .append name texts => on name fun h => answer .done (appendAll name h.common texts h.buffer s)
  | .write name r => on name fun h =>
    answer (.flag !r.fails) (appendAll name h.common r.pieces h.buffer s)
  | .truncate name length => on name fun h =>
    match h.buffer.truncate length with
    | .ok b => (s.setBuffer name { h with buffer := b }, .done)
    | .error f => (s, .fault f)
  | .clear name => on name fun h => (s.setBuffer name { h with buffer := h.buffer.clear }, .done)
  | .text name => on name fun h => (s, .text h.buffer.text)
  | .trimmed name => on name fun h => (s, .text h.buffer.trimmed)
  | .finish name => on name fun h => (s.remove name, .text h.buffer.text)
  | .drop name => on name fun _ => (s.remove name, .done)
where
  on (name : String) (act : Holding → Shelf × Reply) : Shelf × Reply :=
    match s.buffers.get? name with
    | some h => act h
    | none => (s, .missing)

end Shelf

end GeneratorKit.Storage
