import GeneratorKit.Emission.Command
import GeneratorKit.Proofs.Emission.Draft

set_option autoImplicit false

/-!
# Runs of commands

What commands leave, put together from what edits and bodies leave. However commands are nested and
wherever they stop, the writer stays sound (`run_continues`, `runAll_continues`).
-/
namespace GeneratorKit.Emission

def BodyRun.result (r : BodyRun) : Result := (r.writer, r.stop)

def CommandRun.result (r : CommandRun) : Result :=
  (r.writer, match r.reply with
    | .error stop => some stop
    | .ok _ => none)

namespace Command

theorem runAll_append (cs ds : List Command) (item : String) (w : Writer) :
    (runAll (cs ++ ds) item w).result =
      match (runAll cs item w).result with
      | (v, none) => (runAll ds item v).result
      | stopped => stopped := by
  induction cs generalizing w with
  | nil => rfl
  | cons c cs ih =>
    rw [List.cons_append, runAll, runAll]
    rcases h : (run c item w).reply with stop | reply
    · rfl
    · exact ih _

theorem runAll_single (c : Command) (item : String) (w : Writer) :
    (runAll [c] item w).result = (run c item w).result := by
  rw [runAll, CommandRun.result]
  rcases run c item w with ⟨v, log, stop | reply⟩ <;> rfl

theorem guarded_result (body : Writer → BodyRun) (opened : Result) (reply : Writer → Reply) :
    (guarded body opened reply).result = match opened with
      | (w, none) => ((body w).writer.closeGuard.1, (body w).stop.or (body w).writer.closeGuard.2)
      | stopped => stopped := by
  rcases opened with ⟨w, _ | stop⟩
  · simp only [guarded, CommandRun.result]
    rcases (body w).stop.or (body w).writer.closeGuard.2 with _ | stop <;> rfl
  · rfl

theorem runAll_emit (es : List Edit) (item : String) (w : Writer) :
    (runAll [.emit es] item w).result = w.run es := by
  rw [runAll, run]
  rcases w.run es with ⟨v, _ | stop⟩ <;> rfl

end Command

namespace Writer

theorem Tracks.trans {w v : Writer} {d : Draft} {x : Draft × Option Stop} {r : Result} {m n : Nat}
    (h : Tracks w (v, none) (d, none) m) (hr : Tracks v r x n) : Tracks w r x n :=
  ⟨hr.sound, hr.indent.trans h.indent, hr.outcome⟩

/-- A sound writer that goes on from another one. -/
structure Continues (w v : Writer) : Prop where
  sound : v.Sound
  indent : v.indent = w.indent

theorem Sound.continues {w : Writer} (h : w.Sound) : Continues w w := ⟨h, rfl⟩

theorem Continues.trans {u v w : Writer} (h : Continues u v) (hw : Continues v w) : Continues u w :=
  ⟨hw.sound, hw.indent.trans h.indent⟩

theorem Tracks.continues {w : Writer} {r : Result} {x : Draft × Option Stop} {n : Nat}
    (h : Tracks w r x n) : Continues w r.1 := ⟨h.sound, h.indent⟩

theorem step_continues {w : Writer} (h : w.Sound) (e : Edit) : Continues w (w.step e).1 :=
  (step_tracks h e).continues

theorem run_continues {w : Writer} (h : w.Sound) (es : List Edit) : Continues w (w.run es).1 :=
  (run_tracks h es).continues

/-- The guard of a scope leaves a sound writer, whatever happened inside. -/
theorem closeGuard_continues {w : Writer} (h : w.Sound) : Continues w w.closeGuard.1 := by
  have hc := run_continues h closeScope
  unfold closeGuard
  split
  · next v r hr =>
    rw [hr] at hc
    exact hc.trans (run_continues hc.sound closeLine)
  · exact hc

end Writer

namespace Command
open Writer

theorem plain_writer (r : Result) (reply : Reply) : (plain r reply).writer = r.1 := by
  rcases r with ⟨w, _ | stop⟩ <;> rfl

theorem ofBody_writer (r : BodyRun) : (ofBody r).writer = r.writer := by
  unfold ofBody
  split <;> rfl

theorem guarded_continues {w : Writer} {body : Writer → BodyRun} {opened : Result}
    {reply : Writer → Reply} (ho : Continues w opened.1)
    (hb : ∀ v : Writer, v.Sound → Continues v (body v).writer) :
    Continues w (guarded body opened reply).writer := by
  have hr := congrArg Prod.fst (guarded_result body opened reply)
  rcases opened with ⟨v, _ | stop⟩
  · have hv := hb v ho.sound
    rw [show (guarded body (v, none) reply).writer = (body v).writer.closeGuard.1 from hr]
    exact (ho.trans hv).trans (closeGuard_continues hv.sound)
  · exact ho

theorem repeated_continues {body : String → Writer → BodyRun}
    (hb : ∀ (item : String) (v : Writer), v.Sound → Continues v (body item v).writer)
    (items : List String) {w : Writer} (h : w.Sound) :
    Continues w (repeated body items w).writer := by
  induction items generalizing w with
  | nil => exact h.continues
  | cons item items ih =>
    have hi := hb item w h
    rw [repeated]
    split
    · exact hi
    · exact hi.trans (ih hi.sound)

mutual

theorem run_continues (c : Command) (item : String) {w : Writer} (h : w.Sound) :
    Continues w (c.run item w).writer := by
  cases c with
  | emit es =>
    rw [run, plain_writer]
    exact Writer.run_continues h es
  | attempt es =>
    have hr := Writer.run_continues h es
    rw [run]
    split
    · next hs =>
      rw [hs] at hr
      exact hr
    · rw [plain_writer]
      exact hr
  | write r =>
    rw [run, plain_writer]
    exact step_continues h (.pieces r)
  | query q =>
    rw [run]
    exact h.continues
  | scope body =>
    rw [run]
    exact guarded_continues (Writer.run_continues h _) fun v hv => runAll_continues body item hv
  | block header body =>
    rw [run]
    exact guarded_continues (Writer.run_continues h _) fun v hv => runAll_continues body item hv
  | recover body =>
    have hr := runAll_continues body item h
    rw [run]
    split <;> exact hr
  | when condition body =>
    rw [run]
    split
    · rw [ofBody_writer]
      exact runAll_continues body item h
    · exact h.continues
  | each items body =>
    rw [run, ofBody_writer]
    exact repeated_continues (fun item v hv => runAll_continues body item hv) items h
  | currentItem =>
    rw [run, plain_writer]
    exact (append_tracks h item).continues

theorem runAll_continues (cs : List Command) (item : String) {w : Writer} (h : w.Sound) :
    Continues w (runAll cs item w).writer := by
  cases cs with
  | nil =>
    rw [runAll]
    exact h.continues
  | cons c cs =>
    have hc := run_continues c item h
    rw [runAll]
    split
    · exact hc
    · exact hc.trans (runAll_continues cs item hc.sound)

end

end Command

end GeneratorKit.Emission
