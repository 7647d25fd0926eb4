import GeneratorKit.Emission.Session
import GeneratorKit.Proofs.Emission.Command

set_option autoImplicit false

/-!
# Runs of sessions

Tasks one after another. A session that starts on a sound pool keeps its writer and its pool sound,
whatever the tasks are and wherever they stop (`run_sound`).
-/
namespace GeneratorKit.Emission
open Storage

/-- The answer to a task that found no room for its text. -/
def exhausted : Answer := .reply (.stopped (.fault .capacity)) []

/-- The answer to edits that ran to their end or stopped on the way. -/
def Answer.ofStop (handled : Bool) : Option Stop → Answer
  | none => .reply .done []
  | some (.refusal r) => .reply (if handled then .refused r else .stopped (.refusal r)) []
  | some (.fault f) => .reply (.stopped (.fault f)) []

/-- Edits as a task; their refusal is handled or stops it. -/
def Task.ofEdits (handled : Bool) (es : List Edit) : Task :=
  .command (if handled then .attempt es else .emit es)

namespace Session

theorem step_ofEdits {s : Session} (h : s.live = true) (handled : Bool) (es : List Edit) :
    s.step (.ofEdits handled es) =
      ({ s with writer := (s.writer.run es).1 }, .ofStop handled (s.writer.run es).2) := by
  simp only [step, Task.ofEdits, if_pos h]
  cases handled <;> simp only [Command.run, Bool.false_eq_true, if_false, if_true] <;>
    rcases s.writer.run es with ⟨w, _ | r | f⟩ <;> rfl

/-- Edits that stop for want of room on the way to a text of so many bytes, and the answer that says so. -/
structure FindsNoRoom (s : Session) (handled : Bool) (es : List Edit) (bytes : Nat) : Prop where
  answer : (s.step (.ofEdits handled es)).2 = exhausted
  noRoom : NoRoom (s.writer.run es).2 bytes

theorem findsNoRoom_of_noRoom {s : Session} (h : s.live = true) (handled : Bool) {es : List Edit} {bytes : Nat}
    (hr : NoRoom (s.writer.run es).2 bytes) : s.FindsNoRoom handled es bytes := by
  refine ⟨?_, hr⟩
  rw [step_ofEdits h, hr.stopped]
  rfl

def run (s : Session) : List Task → Session × List Answer
  | [] => (s, [])
  | t :: ts =>
    let (s, a) := s.step t
    let (s, as) := s.run ts
    (s, a :: as)

theorem run_cons (s : Session) (t : Task) (ts : List Task) :
    s.run (t :: ts) = (((s.step t).1.run ts).1, (s.step t).2 :: ((s.step t).1.run ts).2) := rfl

theorem run_append (s : Session) (ts us : List Task) : s.run (ts ++ us) =
    (((s.run ts).1.run us).1, (s.run ts).2 ++ ((s.run ts).1.run us).2) := by
  induction ts generalizing s with
  | nil => rfl
  | cons t ts ih => rw [List.cons_append, run_cons, run_cons, ih, List.cons_append]

/-- Edits that find no room answer so in the middle of any run. -/
theorem FindsNoRoom.mem_answers {s : Session} {ts : List Task} {handled : Bool} {es : List Edit} {bytes : Nat}
    (h : (s.run ts).1.FindsNoRoom handled es bytes) (us : List Task) :
    exhausted ∈ (s.run (ts ++ .ofEdits handled es :: us)).2 := by
  rw [run_append, run_cons, h.answer]
  exact List.mem_append_right _ List.mem_cons_self

def Sound (s : Session) : Prop := s.writer.Sound

theorem start_eq {indent : Indent} {capacity : Nat} {pool : Pool} {s : Session}
    (h : start indent capacity pool = .ok s) :
    ∃ b, Buffer.withCapacity capacity = .ok b ∧ s = ⟨indent, capacity, .make indent b pool, true⟩ := by
  unfold start at h
  rcases hb : Buffer.withCapacity capacity with f | b
  · rw [hb] at h
    cases h
  · rw [hb] at h
    cases h
    exact ⟨b, rfl, rfl⟩

theorem start_sound {indent : Indent} {capacity : Nat} {pool : Pool} {s : Session} (hp : pool.Sound)
    (h : start indent capacity pool = .ok s) : s.Sound := by
  obtain ⟨b, hb, rfl⟩ := start_eq h
  exact Writer.sound_make hb indent hp

/-- Whether its text is handed out or refused, a writer that is at its end gives back what it has. -/
theorem step_end (s : Session) {t : Task} (ht : t = .build ∨ t = .take) :
    (s.step t).1 = if s.live then s.consume else s := by
  rcases ht with rfl | rfl
  · rw [step]
    split
    · split <;> rfl
    · rfl
  · rw [step]
    split <;> rfl

theorem consume_sound {s : Session} (h : s.Sound) : s.consume.Sound :=
  ⟨h.buffer, h.buffer.release h.pool⟩

theorem restart_sound {s : Session} (h : s.Sound) : s.restart.1.Sound := by
  unfold restart
  split
  · exact h
  · next b hb =>
    refine Writer.sound_make hb s.indent ?_
    split
    · exact h.buffer.release h.pool
    · exact h.pool

theorem step_sound {s : Session} (h : s.Sound) (t : Task) : (s.step t).1.Sound := by
  have end_sound : (if s.live then s.consume else s).Sound := by
    split
    · exact consume_sound h
    · exact h
  cases t with
  | restart => exact restart_sound h
  | command c =>
    rw [step]
    split
    · exact (Command.run_continues c "" h).sound
    · exact h
  | build =>
    rw [step_end s (.inl rfl)]
    exact end_sound
  | take =>
    rw [step_end s (.inr rfl)]
    exact end_sound

theorem run_sound {s : Session} (h : s.Sound) (ts : List Task) : (s.run ts).1.Sound := by
  induction ts generalizing s with
  | nil => exact h
  | cons t ts ih => exact ih (step_sound h t)

end Session

end GeneratorKit.Emission
