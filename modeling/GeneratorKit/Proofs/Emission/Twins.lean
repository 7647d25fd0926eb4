import GeneratorKit.Proofs.Emission.Guards
import GeneratorKit.Proofs.Emission.Session

set_option autoImplicit false

/-!
# Twins

Two writers with the same text at the same level are twins, however much room each of them has. Whatever is
done to both, they answer the same and stay twins, as long as no text on the way takes more than half of what
can be addressed (`Command.runAll_twins`, `Session.Twins.run`).
-/
namespace GeneratorKit.Emission
open Storage

namespace Writer

/-- The bytes of the text when the guard of a scope has closed it. -/
def guardPeak (w : Writer) : Nat := w.size + (closeRow w.indent.unit (w.level - 1)).utf8ByteSize

structure Twins (w v : Writer) : Prop where
  left : w.Sound
  right : v.Sound
  draft : v.draft = w.draft
  indent : v.indent = w.indent

namespace Twins

variable {w v : Writer}

theorem refl (h : w.Sound) : Twins w w := ⟨h, h, rfl, rfl⟩

theorem text (h : Twins w v) : v.text = w.text := congrArg Draft.text h.draft

theorem level (h : Twins w v) : v.level = w.level := congrArg Draft.level h.draft

theorem size (h : Twins w v) : v.size = w.size := congrArg Draft.size h.draft

/-- Results that track the same draft are twins where there is room for it. -/
theorem of_tracks (h : Twins w v) {r q : Result} {d : Draft × Option Stop} {bytes : Nat}
    (hr : Tracks w r d bytes) (hq : Tracks v q d bytes) (hroom : 2 * bytes ≤ addressLimit) :
    Twins r.1 q.1 ∧ q.2 = r.2 := by
  have hdr : (r.1.draft, r.2) = d := hr.outcome.resolve_right fun hs => Nat.not_lt.2 hroom hs.long
  have hdq : (q.1.draft, q.2) = d := hq.outcome.resolve_right fun hs => Nat.not_lt.2 hroom hs.long
  obtain ⟨hdraft, hstop⟩ := Prod.mk.inj (hdq.trans hdr.symm)
  exact ⟨⟨hr.sound, hq.sound, hdraft, hq.indent.trans (h.indent.trans hr.indent.symm)⟩, hstop⟩

theorem append (h : Twins w v) {s : String} (hroom : 2 * (w.size + s.utf8ByteSize) ≤ addressLimit) :
    Twins (w.append s).1 (v.append s).1 ∧ (v.append s).2 = (w.append s).2 := by
  have hv := append_tracks h.right s
  rw [h.draft, h.size] at hv
  exact h.of_tracks (append_tracks h.left s) hv hroom

theorem step (h : Twins w v) {e : Edit} (hroom : 2 * w.draft.reach w.indent.unit e ≤ addressLimit) :
    Twins (w.step e).1 (v.step e).1 ∧ (v.step e).2 = (w.step e).2 := by
  have hv := step_tracks h.right e
  rw [h.draft, h.indent] at hv
  exact h.of_tracks (step_tracks h.left e) hv hroom

theorem run (h : Twins w v) {es : List Edit} (hroom : 2 * w.peak es ≤ addressLimit) :
    Twins (w.run es).1 (v.run es).1 ∧ (v.run es).2 = (w.run es).2 := by
  have hv := run_tracks h.right es
  rw [peak, h.draft, h.indent] at hv
  exact h.of_tracks (run_tracks h.left es) hv hroom

theorem closeGuard (h : Twins w v) (hroom : 2 * w.guardPeak ≤ addressLimit) :
    Twins w.closeGuard.1 v.closeGuard.1 ∧ v.closeGuard.2 = w.closeGuard.2 := by
  have hv := closeGuard_tracks h.right
  rw [h.level, h.text, h.indent, h.size] at hv
  exact h.of_tracks (closeGuard_tracks h.left) hv hroom

end Twins

end Writer

open Writer

/-- Bodies that left twins and the same replies. -/
structure BodyRun.Twins (r q : BodyRun) : Prop where
  writer : Writer.Twins r.writer q.writer
  log : q.log = r.log
  stop : q.stop = r.stop

structure CommandRun.Twins (r q : CommandRun) : Prop where
  writer : Writer.Twins r.writer q.writer
  log : q.log = r.log
  reply : q.reply = r.reply

namespace Command

def guardedPeak (body : Writer → BodyRun) (inside : Writer → Nat) (es : List Edit) (w : Writer) : Nat :=
  max (w.peak es) (match w.run es with
    | (v, none) => max (inside v) (body v).writer.guardPeak
    | _ => 0)

def repeatedPeak (body : String → Writer → BodyRun) (inside : String → Writer → Nat) :
    List String → Writer → Nat
  | [], _ => 0
  | item :: items, w => max (inside item w) (match (body item w).stop with
    | none => repeatedPeak body inside items (body item w).writer
    | some _ => 0)

mutual

/-- The bytes of the longest text that a command writes on its way. -/
def peak : Command → String → Writer → Nat
  | .emit es, _, w | .attempt es, _, w => w.peak es
  | .write r, _, w => w.draft.reach w.indent.unit (.pieces r)
  | .query _, _, _ => 0
  | .scope body, item, w => guardedPeak (runAll body item) (peakAll body item) openScope w
  | .block header body, item, w =>
    guardedPeak (runAll body item) (peakAll body item) (line header ++ openScope) w
  | .recover body, item, w => peakAll body item w
  | .when condition body, item, w => if condition then peakAll body item w else 0
  | .each items body, _, w => repeatedPeak (runAll body) (peakAll body) items w
  | .currentItem, item, w => w.size + item.utf8ByteSize

def peakAll : List Command → String → Writer → Nat
  | [], _, _ => 0
  | c :: cs, item, w => max (peak c item w) (match (run c item w).reply with
    | .ok _ => peakAll cs item (run c item w).writer
    | .error _ => 0)

end

theorem plain_twins {r q : Result} (h : Writer.Twins r.1 q.1 ∧ q.2 = r.2) (reply : Reply) :
    (plain r reply).Twins (plain q reply) := by
  obtain ⟨w, x⟩ := r
  obtain ⟨v, y⟩ := q
  obtain ⟨ht, rfl⟩ : Writer.Twins w v ∧ y = x := h
  cases y <;> exact ⟨ht, rfl, rfl⟩

theorem ofBody_twins {r q : BodyRun} (h : r.Twins q) : (ofBody r).Twins (ofBody q) := by
  rw [ofBody, ofBody, h.stop]
  cases r.stop <;> exact ⟨h.writer, h.log, rfl⟩

theorem guarded_twins {body : Writer → BodyRun} {inside : Writer → Nat} {reply : Writer → Reply}
    (hbody : ∀ w v, Writer.Twins w v → 2 * inside w ≤ addressLimit → (body w).Twins (body v))
    (hreply : ∀ w v, Writer.Twins w v → reply v = reply w) {w v : Writer} (h : Writer.Twins w v)
    {es : List Edit} (hroom : 2 * guardedPeak body inside es w ≤ addressLimit) :
    (guarded body (w.run es) reply).Twins (guarded body (v.run es) reply) := by
  rw [guardedPeak] at hroom
  have hedits : 2 * w.peak es ≤ addressLimit := by omega
  obtain ⟨hopen, hstop⟩ := h.run hedits
  rcases hw : w.run es with ⟨x, stop⟩
  rcases hv : v.run es with ⟨y, stop'⟩
  rw [hw, hv] at hopen hstop
  rw [hw] at hroom
  obtain rfl : stop' = stop := hstop
  cases stop' with
  | some stop => exact ⟨hopen, rfl, rfl⟩
  | none =>
    simp only at hroom
    have hb := hbody x y hopen (by omega)
    obtain ⟨hclose, hcs⟩ := hb.writer.closeGuard (by omega)
    have hr : reply y = reply x := hreply x y hopen
    simp only [guarded, hb.stop, hcs, hr]
    rcases (body x).stop.or (body x).writer.closeGuard.2 with _ | stop <;> exact ⟨hclose, hb.log, rfl⟩

theorem repeated_twins {body : String → Writer → BodyRun} {inside : String → Writer → Nat}
    (hbody : ∀ item w v, Writer.Twins w v → 2 * inside item w ≤ addressLimit →
      (body item w).Twins (body item v)) {items : List String} {w v : Writer} (h : Writer.Twins w v)
    (hroom : 2 * repeatedPeak body inside items w ≤ addressLimit) :
    (repeated body items w).Twins (repeated body items v) := by
  induction items generalizing w v with
  | nil => exact ⟨h, rfl, rfl⟩
  | cons item items ih =>
    rw [repeatedPeak] at hroom
    have hb := hbody item w v h (by omega)
    simp only [repeated, hb.stop]
    rcases hs : (body item w).stop with _ | stop
    · simp only [hs] at hroom
      have hr := ih hb.writer (by omega)
      exact ⟨hr.writer, by rw [hb.log, hr.log], hr.stop⟩
    · exact ⟨hb.writer, hb.log, rfl⟩

theorem answer_twins {w v : Writer} (h : Writer.Twins w v) (q : Query) : q.answer v = q.answer w := by
  have ht : v.buffer.text = w.buffer.text := h.text
  cases q with
  | text => exact congrArg Reply.text ht
  | trimmed => exact congrArg (fun s => Reply.text (Text.trim s)) ht
  | unit => exact congrArg (fun i : Indent => Reply.text i.unit) h.indent
  | measure => exact congrArg (fun d : Draft => Reply.measure d.size d.level) h.draft

mutual

theorem run_twins (c : Command) (item : String) {w v : Writer} (h : Writer.Twins w v)
    (hroom : 2 * c.peak item w ≤ addressLimit) : (c.run item w).Twins (c.run item v) := by
  cases c with
  | emit es =>
    rw [peak] at hroom
    rw [run, run]
    exact plain_twins (h.run hroom) .done
  | attempt es =>
    rw [peak] at hroom
    obtain ⟨hrun, hstop⟩ := h.run hroom
    rw [run, run]
    rcases hw : w.run es with ⟨x, stop⟩
    rcases hv : v.run es with ⟨y, stop'⟩
    rw [hw, hv] at hrun hstop
    obtain rfl : stop' = stop := hstop
    rcases stop' with _ | r | f <;> exact ⟨hrun, rfl, rfl⟩
  | write r =>
    rw [peak] at hroom
    rw [run, run]
    exact plain_twins (h.step hroom) _
  | query q =>
    rw [run, run, answer_twins h]
    exact ⟨h, rfl, rfl⟩
  | scope body =>
    rw [peak] at hroom
    rw [run, run]
    exact guarded_twins (fun x y hx hr => runAll_twins body item hx hr)
      (fun x y hx => congrArg Reply.depth hx.level) h hroom
  | block header body =>
    rw [peak] at hroom
    rw [run, run]
    exact guarded_twins (fun x y hx hr => runAll_twins body item hx hr) (fun _ _ _ => rfl) h hroom
  | recover body =>
    rw [peak] at hroom
    have hb := runAll_twins body item h hroom
    simp only [run, hb.stop]
    rcases (runAll body item w).stop with _ | stop <;> exact ⟨hb.writer, hb.log, rfl⟩
  | when condition body =>
    rw [peak] at hroom
    rw [run, run]
    cases condition with
    | false => exact ⟨h, rfl, rfl⟩
    | true => exact ofBody_twins (runAll_twins body item h hroom)
  | each items body =>
    rw [peak] at hroom
    rw [run, run]
    exact ofBody_twins (repeated_twins (fun item x y hx hr => runAll_twins body item hx hr) h hroom)
  | currentItem =>
    rw [peak] at hroom
    rw [run, run]
    exact plain_twins (h.append hroom) .done

theorem runAll_twins (cs : List Command) (item : String) {w v : Writer} (h : Writer.Twins w v)
    (hroom : 2 * peakAll cs item w ≤ addressLimit) : (runAll cs item w).Twins (runAll cs item v) := by
  cases cs with
  | nil =>
    rw [runAll, runAll]
    exact ⟨h, rfl, rfl⟩
  | cons c cs =>
    rw [peakAll] at hroom
    have hc := run_twins c item h (by omega)
    simp only [runAll, hc.reply]
    rcases hr : (run c item w).reply with stop | reply
    · exact ⟨hc.writer, hc.log, rfl⟩
    · simp only [hr] at hroom
      have hrest := runAll_twins cs item hc.writer (by omega)
      exact ⟨hrest.writer, by rw [hc.log, hrest.log], hrest.stop⟩

end

end Command

namespace Session

def taskPeak (s : Session) : Task → Nat
  | .command c => if s.live then c.peak "" s.writer else 0
  | .build | .take | .restart => 0

/-- The bytes of the longest text that tasks write on their way. -/
def peak : Session → List Task → Nat
  | _, [] => 0
  | s, t :: ts => max (s.taskPeak t) (peak (s.step t).1 ts)

/-- Sessions of twins, with equal plans for their next writer. -/
structure Twins (s t : Session) : Prop where
  writer : Writer.Twins s.writer t.writer
  indent : t.indent = s.indent
  capacity : t.capacity = s.capacity
  live : t.live = s.live

theorem Twins.refl {s : Session} (h : s.Sound) : Twins s s := ⟨.refl h, rfl, rfl, rfl⟩

theorem Twins.consume {s t : Session} (h : Twins s t) : Twins s.consume t.consume :=
  ⟨⟨consume_sound h.writer.left, consume_sound h.writer.right, h.writer.draft, h.writer.indent⟩,
    h.indent, h.capacity, rfl⟩

theorem Twins.restart {s t : Session} (h : Twins s t) :
    Twins s.restart.1 t.restart.1 ∧ t.restart.2 = s.restart.2 := by
  have hs := restart_sound h.writer.left
  have ht := restart_sound h.writer.right
  unfold Session.restart at hs ht ⊢
  rw [h.capacity, h.indent] at ht ⊢
  rcases hb : Buffer.withCapacity s.capacity with f | b
  · exact ⟨h, rfl⟩
  · rw [hb] at hs ht
    exact ⟨⟨⟨hs, ht, rfl, rfl⟩, rfl, rfl, rfl⟩, rfl⟩

/-- A task for a writer finds it in both sessions or in neither. -/
theorem Twins.of_live {s t : Session} (h : Twins s t) {x y : Session × Answer}
    (hlive : s.live = true → Twins x.1 y.1 ∧ y.2 = x.2) :
    Twins (if s.live then x else (s, .consumed)).1 (if t.live then y else (t, .consumed)).1 ∧
      (if t.live then y else (t, .consumed)).2 = (if s.live then x else (s, .consumed)).2 := by
  rw [h.live]
  by_cases hl : s.live = true
  · rw [if_pos hl, if_pos hl]
    exact hlive hl
  · rw [if_neg hl, if_neg hl]
    exact ⟨h, rfl⟩

theorem Twins.step {s t : Session} (h : Twins s t) (task : Task)
    (hroom : 2 * s.taskPeak task ≤ addressLimit) :
    Twins (s.step task).1 (t.step task).1 ∧ (t.step task).2 = (s.step task).2 := by
  cases task with
  | restart => exact h.restart
  | command c =>
    refine h.of_live fun hl => ?_
    rw [taskPeak, if_pos hl] at hroom
    have hc := Command.run_twins c "" h.writer hroom
    rw [hc.log, hc.reply]
    exact ⟨⟨hc.writer, h.indent, h.capacity, h.live⟩, rfl⟩
  | build =>
    refine h.of_live fun _ => ?_
    rw [Writer.build, Writer.build, h.writer.level, h.writer.text]
    split <;> exact ⟨h.consume, rfl⟩
  | take =>
    refine h.of_live fun _ => ?_
    rw [h.writer.text]
    exact ⟨h.consume, rfl⟩

/-- Twins cannot be told apart by what they answer. -/
theorem Twins.run {s t : Session} (h : Twins s t) {ts : List Task}
    (hroom : 2 * s.peak ts ≤ addressLimit) :
    Twins (s.run ts).1 (t.run ts).1 ∧ (t.run ts).2 = (s.run ts).2 := by
  induction ts generalizing s t with
  | nil => exact ⟨h, rfl⟩
  | cons task ts ih =>
    rw [peak] at hroom
    obtain ⟨hstep, ha⟩ := h.step task (by omega)
    obtain ⟨hrun, has⟩ := ih hstep (by omega)
    rw [run_cons, run_cons, ha, has]
    exact ⟨hrun, rfl⟩

end Session

end GeneratorKit.Emission
