import GeneratorKit.Emission.Indent
import GeneratorKit.Emission.Stop
import GeneratorKit.Storage.Buffer
import GeneratorKit.Text.Rendering

set_option autoImplicit false

/-!
# Writers and edits

A writer holds the text written so far and the depth of the lines to come. Edits are the steps by
which it changes. A list of edits runs up to the first that stops; what was written until then stays
(`run_append`).
-/
namespace GeneratorKit.Emission
open Storage

/-- The text goes to a buffer, which takes its blocks from the pool. -/
structure Writer where
  level : Nat
  indent : Indent
  buffer : Buffer
  pool : Pool

namespace Writer

def make (indent : Indent) (buffer : Buffer) (pool : Pool) : Writer := ⟨0, indent, buffer, pool⟩

def text (w : Writer) : String := w.buffer.text

def size (w : Writer) : Nat := w.buffer.size

end Writer

/-- Levels are counted in 64-bit words. -/
def levelLimit : Nat := 0x10000000000000000

inductive Edit where
  | text (s : String)
  | indent
  /-- Appends a rendering, or nothing of it if it fails. -/
  | rendering (r : Rendering)
  /-- Appends the pieces of a rendering, also if it fails in the end. -/
  | pieces (r : Rendering)
  | deepen
  | rise
  | setLevel (n : Nat)
  | truncate (length : Nat)
  | dropLast (count : Nat)
  | clear
  | refuse (r : Refusal)

/-- What an edit or a list of edits leaves, and what stopped it. -/
abbrev Result := Writer × Option Stop

namespace Writer

/-- Goes on from a result that did not stop. -/
def andThen (r : Result) (f : Writer → Result) : Result :=
  match r with
  | (w, none) => f w
  | stopped => stopped

def append (w : Writer) (s : String) : Result :=
  match w.buffer.append s w.pool with
  | (p, .ok b) => ({ w with buffer := b, pool := p }, none)
  | (p, .error f) => ({ w with pool := p }, some (.fault f))

def appendAll : List String → Writer → Result
  | [], w => (w, none)
  | s :: ss, w =>
    match w.append s with
    | (w, none) => appendAll ss w
    | stopped => stopped

/-- Keeps so many bytes, which have to end between two characters. -/
def truncate (w : Writer) (length : Nat) : Result :=
  match w.buffer.truncate length with
  | .ok b => ({ w with buffer := b }, none)
  | .error _ => (w, some (.refusal (.invalidLength length w.size)))

/-- Appends a rendering and takes it back if it fails. -/
def appendRendering (w : Writer) (r : Rendering) : Result :=
  match appendAll r.pieces w with
  | (v, none) =>
    if r.fails then
      match v.buffer.truncate w.size with
      | .ok b => ({ v with buffer := b }, some (.refusal .format))
      | .error f => (v, some (.fault f))
    else (v, none)
  | stopped => stopped

def step (w : Writer) : Edit → Result
  | .text s => w.append s
  | .indent => appendAll (List.replicate w.level w.indent.unit) w
  | .rendering r => w.appendRendering r
  | .pieces r => appendAll r.pieces w
  | .deepen =>
    if w.level + 1 < levelLimit then ({ w with level := w.level + 1 }, none)
    else (w, some (.fault .overflow))
  | .rise =>
    match w.level with
    | 0 => (w, some (.refusal .unbalancedScope))
    | n + 1 => ({ w with level := n }, none)
  | .setLevel n => ({ w with level := n }, none)
  | .truncate length => w.truncate length
  | .dropLast count => w.truncate (w.size - count)
  | .clear => ({ w with level := 0, buffer := w.buffer.clear }, none)
  | .refuse r => (w, some (.refusal r))

def run (w : Writer) : List Edit → Result
  | [] => (w, none)
  | e :: es =>
    match w.step e with
    | (w, none) => w.run es
    | stopped => stopped

theorem run_append (w : Writer) (es fs : List Edit) :
    w.run (es ++ fs) =
      match w.run es with
      | (w, none) => w.run fs
      | stopped => stopped := by
  induction es generalizing w with
  | nil => rfl
  | cons e es ih =>
    simp only [List.cons_append, run]
    split
    · exact ih _
    · next h => split <;> simp_all

/-- The text of a writer whose scopes are all closed. -/
def build (w : Writer) : Except Refusal String :=
  if w.level = 0 then .ok w.text else .error (.unclosedScopes w.level)

/-- The pool after the end of the writer. -/
def release (w : Writer) : Pool := w.buffer.release w.pool

end Writer

end GeneratorKit.Emission
