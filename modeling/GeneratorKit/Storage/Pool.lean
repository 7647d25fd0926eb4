import GeneratorKit.Fault

set_option autoImplicit false

/-!
# Block pools

A pool keeps blocks of storage that were given back and lends them again. It counts loans and
returns, and it holds at most `maxRetained` blocks of at most `maxBlockSize` bytes, all of them empty.
-/
namespace GeneratorKit.Storage

/-- Storage with room for `capacity` bytes. -/
structure Block where
  capacity : Nat
  text : String

def addressLimit : Nat := 0x7FFFFFFFFFFFFFFF

def Block.allocate (capacity : Nat) : Except Fault Block :=
  if capacity ≤ addressLimit then .ok ⟨capacity, ""⟩ else .error .capacity

/-- Loans and returns are counted by numbers without a limit. That counters of 64 bits start again at zero
after 2^64 loans or returns is left out. -/
structure Pool where
  maxRetained : Nat
  maxBlockSize : Nat
  idle : List Block
  rented : Nat
  returned : Nat

namespace Pool

def withLimits (maxRetained maxBlockSize : Nat) : Pool := ⟨maxRetained, maxBlockSize, [], 0, 0⟩

def standard : Pool := withLimits 32 0x100000

def lastFirst (bs : List Block) : List Block :=
  match bs.getLast? with
  | none => []
  | some b => b :: bs.dropLast

/-- The first block with room for `size` bytes, and the others; the last one takes its place. -/
def takeFirst (size : Nat) : List Block → Option (Block × List Block)
  | [] => none
  | b :: bs =>
    if size ≤ b.capacity then some (b, lastFirst bs)
    else (takeFirst size bs).map fun (found, rest) => (found, b :: rest)

/-- Lends a block with room for `size` bytes, an idle one if there is one. The loan is counted even
when a new block cannot be had. -/
def rent (p : Pool) (size : Nat) : Pool × Except Fault Block :=
  let p := { p with rented := p.rented + 1 }
  match takeFirst size p.idle with
  | some (b, rest) => ({ p with idle := rest }, .ok b)
  | none => (p, Block.allocate size)

/-- Takes a block back. It is emptied and kept, unless it or the pool is too large already. -/
def giveBack (p : Pool) (b : Block) : Pool :=
  let p := { p with returned := p.returned + 1 }
  if p.maxBlockSize < b.capacity then p
  else if p.idle.length < p.maxRetained then { p with idle := p.idle ++ [{ b with text := "" }] }
  else p

def outstanding (p : Pool) : Nat := p.rented - p.returned

def retained (p : Pool) : Nat := p.idle.length

end Pool

end GeneratorKit.Storage
