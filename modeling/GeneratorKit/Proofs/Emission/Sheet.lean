import GeneratorKit.Proofs.Emission.Command
import GeneratorKit.Proofs.Emission.Writer

set_option autoImplicit false

/-!
# Sheets

What can be seen of a writer. Two sound writers that look the same look the same after every edit and
stop at the same one, whatever pools they use (`step_seen`, `run_seen`).
-/
namespace GeneratorKit.Emission
open Storage

structure Sheet where
  level : Nat
  indent : Indent
  view : View
  deriving DecidableEq

namespace Writer

def sheet (w : Writer) : Sheet := ⟨w.level, w.indent, w.buffer.view⟩

def seen (r : Result) : Sheet × Option Stop := (r.1.sheet, r.2)

theorem append_seen {w : Writer} (h : w.Sound) (s : String) :
    seen (w.append s) = match w.sheet.view.append s with
      | .ok u => ({ w.sheet with view := u }, none)
      | .error f => (w.sheet, some (.fault f)) := by
  have hv := Buffer.append_view h.buffer h.pool s
  rw [show w.sheet.view = w.buffer.view from rfl, ← hv, append]
  rcases w.buffer.append s w.pool with ⟨p, f | b⟩ <;> rfl

theorem seen_andThen {r q : Result} (h : seen r = seen q) {f : Writer → Result}
    (hf : r.1.sheet = q.1.sheet → seen (f r.1) = seen (f q.1)) :
    seen (andThen r f) = seen (andThen q f) := by
  obtain ⟨w, x⟩ := r
  obtain ⟨v, y⟩ := q
  obtain rfl : x = y := congrArg Prod.snd h
  cases x with
  | none => exact hf (congrArg Prod.fst h)
  | some stop => exact h

variable {w v : Writer}

theorem appendAll_seen (h : w.Sound) (hv : v.Sound) (e : w.sheet = v.sheet) (ss : List String) :
    seen (appendAll ss w) = seen (appendAll ss v) := by
  induction ss generalizing w v with
  | nil => exact congrArg (·, none) e
  | cons s ss ih =>
    have hs : seen (w.append s) = seen (v.append s) := by
      rw [append_seen h, append_seen hv, e]
    rw [appendAll_cons, appendAll_cons]
    exact seen_andThen hs (ih (append_tracks h s).sound (append_tracks hv s).sound)

theorem truncate_seen (e : w.sheet = v.sheet) (length : Nat) :
    seen (w.truncate length) = seen (v.truncate length) := by
  have ht : w.text = v.text := congrArg (·.view.text) e
  rw [truncate_eq, truncate_eq, ht]
  cases Text.cut? v.text length with
  | some s => exact congrArg (fun t => ({ t with view.text := s }, none)) e
  | none =>
    have hs : w.size = v.size := congrArg String.utf8ByteSize ht
    rw [hs]
    exact congrArg (·, some (Stop.refusal (.invalidLength length v.size))) e

theorem appendRendering_seen (h : w.Sound) (hv : v.Sound) (e : w.sheet = v.sheet) (r : Rendering) :
    seen (w.appendRendering r) = seen (v.appendRendering r) := by
  have ha := appendAll_seen h hv e r.pieces
  have hs : w.size = v.size := congrArg (·.view.size) e
  rw [appendRendering_eq, appendRendering_eq, hs]
  refine seen_andThen ha fun hr => ?_
  split
  · have ht : (appendAll r.pieces w).1.buffer.text = (appendAll r.pieces v).1.buffer.text :=
      congrArg (·.view.text) hr
    have hz : (appendAll r.pieces w).1.buffer.size = (appendAll r.pieces v).1.buffer.size :=
      congrArg String.utf8ByteSize ht
    rw [Buffer.truncate_eq, Buffer.truncate_eq, ht, hz]
    cases Text.cut? _ v.size with
    | some s => exact congrArg (fun t => ({ t with view.text := s }, some (Stop.refusal .format))) hr
    | none => exact congrArg (·, some (Stop.fault _)) hr
  · exact congrArg (·, none) hr

theorem step_seen (h : w.Sound) (hv : v.Sound) (he : w.sheet = v.sheet) (e : Edit) :
    seen (w.step e) = seen (v.step e) := by
  have hl : w.level = v.level := congrArg Sheet.level he
  have hi : w.indent = v.indent := congrArg Sheet.indent he
  have hs : w.size = v.size := congrArg (·.view.size) he
  cases e with
  | text s =>
    rw [step, step, append_seen h, append_seen hv, he]
  | indent =>
    rw [step, step, hl, hi]
    exact appendAll_seen h hv he _
  | rendering r => exact appendRendering_seen h hv he r
  | pieces r => exact appendAll_seen h hv he r.pieces
  | deepen =>
    rw [step, step, hl]
    split
    · exact congrArg (fun t => ({ t with level := v.level + 1 }, none)) he
    · exact congrArg (·, some (Stop.fault .overflow)) he
  | rise =>
    rw [step, step, hl]
    cases v.level with
    | zero => exact congrArg (·, some (Stop.refusal .unbalancedScope)) he
    | succ n => exact congrArg (fun t => ({ t with level := n }, none)) he
  | setLevel n => exact congrArg (fun t => ({ t with level := n }, none)) he
  | truncate length => exact truncate_seen he length
  | dropLast count =>
    rw [step, step, hs]
    exact truncate_seen he _
  | clear => exact congrArg (fun t => ({ t with level := 0, view.text := "" }, none)) he
  | refuse r => exact congrArg (·, some (Stop.refusal r)) he

theorem run_seen (h : w.Sound) (hv : v.Sound) (he : w.sheet = v.sheet) (es : List Edit) :
    seen (w.run es) = seen (v.run es) := by
  induction es generalizing w v with
  | nil => exact congrArg (·, none) he
  | cons e es ih =>
    rw [run_cons, run_cons]
    exact seen_andThen (step_seen h hv he e) (ih (step_tracks h e).sound (step_tracks hv e).sound)

end Writer

end GeneratorKit.Emission
