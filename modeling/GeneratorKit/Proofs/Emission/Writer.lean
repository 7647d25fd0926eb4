import GeneratorKit.Emission.Writer

set_option autoImplicit false

/-!
# Edits one after another

Runs of edits and of texts, put together from their steps.
-/
namespace GeneratorKit.Emission.Writer

theorem appendAll_cons (s : String) (ss : List String) (w : Writer) :
    appendAll (s :: ss) w = andThen (w.append s) (appendAll ss) := rfl

theorem run_cons (e : Edit) (es : List Edit) (w : Writer) :
    w.run (e :: es) = andThen (w.step e) (·.run es) := rfl

theorem appendRendering_eq (w : Writer) (r : Rendering) :
    w.appendRendering r = andThen (appendAll r.pieces w) fun v =>
      if r.fails then
        match v.buffer.truncate w.size with
        | .ok b => ({ v with buffer := b }, some (.refusal .format))
        | .error f => (v, some (.fault f))
      else (v, none) := by
  unfold appendRendering andThen
  rcases appendAll r.pieces w with ⟨v, _ | stop⟩ <;> rfl

theorem appendAll_single (w : Writer) (s : String) : appendAll [s] w = w.append s := by
  rw [appendAll]
  rcases w.append s with ⟨v, _ | stop⟩ <;> rfl

theorem run_single (w : Writer) (e : Edit) : w.run [e] = w.step e := by
  rw [run]
  rcases w.step e with ⟨v, _ | stop⟩ <;> rfl

theorem run_texts (w : Writer) (ts : List String) : w.run (ts.map .text) = appendAll ts w := by
  induction ts generalizing w with
  | nil => rfl
  | cons t ts ih =>
    rw [List.map_cons, run_cons, appendAll_cons, step]
    rcases w.append t with ⟨v, _ | stop⟩
    · exact ih v
    · rfl

theorem run_rise_zero {w : Writer} (h : w.level = 0) (es : List Edit) :
    w.run (.rise :: es) = (w, some (.refusal .unbalancedScope)) := by
  rw [run, step, h]

end GeneratorKit.Emission.Writer
