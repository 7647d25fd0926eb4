import GeneratorKit.Storage.Pool
import GeneratorKit.Text.Bytes
import GeneratorKit.Text.Words

set_option autoImplicit false

/-!
# Growable buffers

A buffer starts in a block of its own. What does not fit moves the text to a block from a pool, of at
least twice the capacity; a block that came from the pool goes back there.
-/
namespace GeneratorKit.Storage

/-- A text in a block. The block may be larger than the capacity that the buffer goes by. -/
structure Buffer where
  block : Block
  capacity : Nat
  pooled : Bool

namespace Buffer

def standardCapacity : Nat := 256

def withCapacity (capacity : Nat) : Except Fault Buffer :=
  (Block.allocate capacity).map fun block => ⟨block, capacity, false⟩

def standard : Buffer := ⟨⟨standardCapacity, ""⟩, standardCapacity, false⟩

def text (b : Buffer) : String := b.block.text

def size (b : Buffer) : Nat := b.text.utf8ByteSize

def isEmpty (b : Buffer) : Bool := b.size = 0

def trimmed (b : Buffer) : String := Text.trim b.text

def setText (b : Buffer) (s : String) : Buffer := { b with block := { b.block with text := s } }

/-- Moves the text to a block of the pool with room for `more` bytes behind it. -/
def grow (b : Buffer) (more : Nat) (p : Pool) : Pool × Except Fault Buffer :=
  let capacity := max (b.capacity * 2) (b.size + more)
  match p.rent capacity with
  | (p, .error f) => (p, .error f)
  | (p, .ok block) =>
    let p := if b.pooled then p.giveBack b.block else p
    (p, .ok ⟨{ block with text := block.text ++ b.text }, capacity, true⟩)

/-- Writes a text behind what is there. When no block can be had, the buffer stays as it is. -/
def append (b : Buffer) (s : String) (p : Pool) : Pool × Except Fault Buffer :=
  if b.capacity - b.size < s.utf8ByteSize then
    match b.grow s.utf8ByteSize p with
    | (p, .ok b) => (p, .ok (b.setText (b.text ++ s)))
    | (p, .error f) => (p, .error f)
  else (p, .ok (b.setText (b.text ++ s)))

def truncate (b : Buffer) (length : Nat) : Except Fault Buffer :=
  if b.size < length then .error (.cutPastEnd length b.size)
  else match Text.cut? b.text length with
    | some s => .ok (b.setText s)
    | none => .error (.cutInsideCharacter length)

def clear (b : Buffer) : Buffer := b.setText ""

/-- Gives the block back to the pool if it came from there; the buffer is at its end. -/
def release (b : Buffer) (p : Pool) : Pool := if b.pooled then p.giveBack b.block else p

end Buffer

end GeneratorKit.Storage
