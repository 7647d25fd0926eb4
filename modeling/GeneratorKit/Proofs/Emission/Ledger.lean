import GeneratorKit.Proofs.Emission.Sheet

set_option autoImplicit false

/-!
# Ledgers

The counters of a pool beside the blocks that its users hold. An edit rents a block for each time that
the buffer grows and gives back the one it had before, if that came from the pool (`run_books`).
-/
namespace GeneratorKit.Emission
open Storage

/-- From one state of a pool to another there were so many loans, and every block that left the hands of its
user was given back. -/
structure Ledger (p q : Pool) (held kept loans : Nat) : Prop where
  rented : q.rented = p.rented + loans
  returned : q.returned + kept = p.returned + held + loans
  retained : q.retained + p.returned ≤ p.retained + q.returned
  limit : q.maxRetained = p.maxRetained

theorem Ledger.refl (p : Pool) (held : Nat) : Ledger p p held held 0 :=
  ⟨rfl, rfl, Nat.le_refl _, rfl⟩

theorem Ledger.trans {p q r : Pool} {a b c m n : Nat} (h : Ledger p q a b m) (hr : Ledger q r b c n) :
    Ledger p r a c (m + n) := by
  obtain ⟨h1, h2, h3, h4⟩ := h
  obtain ⟨r1, r2, r3, r4⟩ := hr
  exact ⟨by omega, by omega, by omega, r4.trans h4⟩

/-- Blocks that stay where they are make no difference. -/
theorem Ledger.frame {p q : Pool} {a b n : Nat} (h : Ledger p q a b n) (k : Nat) :
    Ledger p q (a + k) (b + k) n := by
  obtain ⟨h1, h2, h3, h4⟩ := h
  exact ⟨h1, by omega, h3, h4⟩

def heldBy (b : Buffer) : Nat := if b.pooled then 1 else 0

theorem release_ledger (b : Buffer) (p : Pool) : Ledger p (b.release p) (heldBy b) 0 0 := by
  unfold Buffer.release heldBy
  split
  · have hl := Pool.giveBack_idle_length_le p b.block
    refine ⟨by simp, by simp, ?_, by simp⟩
    simp only [Pool.retained, Pool.giveBack_returned]
    omega
  · exact .refl p 0

theorem rent_ledger (p : Pool) (size held : Nat) :
    Ledger p (p.rent size).1 held (held + 1) 1 := by
  have hl := Pool.rent_idle_length_le p size
  refine ⟨by simp, by simp; omega, ?_, by simp⟩
  simp only [Pool.retained, Pool.rent_returned]
  omega

namespace Writer

def crowded (w : Writer) (s : String) : Bool := w.buffer.capacity - w.buffer.size < s.utf8ByteSize

def growthsAll : List String → Writer → Nat
  | [], _ => 0
  | s :: ss, w => (if w.crowded s then 1 else 0) + match w.append s with
    | (v, none) => growthsAll ss v
    | _ => 0

def growths (w : Writer) : List Edit → Nat
  | [] => 0
  | e :: es => growthsAll (w.draft.pieces w.indent.unit e) w + match w.step e with
    | (v, none) => v.growths es
    | _ => 0

abbrev Books (w v : Writer) (loans : Nat) : Prop :=
  Ledger w.pool v.pool (heldBy w.buffer) (heldBy v.buffer) loans

variable {w : Writer}

theorem append_books (h : w.Sound) {s : String} (hroom : (w.append s).2 = none) :
    Books w (w.append s).1 (if w.crowded s then 1 else 0) := by
  have hsize := h.buffer.size_le
  unfold append at hroom ⊢
  rcases Buffer.append_cases h.buffer h.pool s with ⟨hs, e⟩ | ⟨hs, _, room, _, _, e⟩ | ⟨_, _, e⟩
  · have hc : w.crowded s = false := by simp [crowded]; omega
    rw [e, hc]
    exact .refl w.pool _
  · have hc : w.crowded s = true := by simp [crowded]; omega
    rw [e, hc]
    exact (rent_ledger w.pool _ (heldBy w.buffer)).trans ((release_ledger w.buffer _).frame 1)
  · rw [e] at hroom
    cases hroom

theorem appendAll_books (h : w.Sound) (ss : List String) (hroom : (appendAll ss w).2 = none) :
    Books w (appendAll ss w).1 (growthsAll ss w) := by
  induction ss generalizing w with
  | nil => exact .refl w.pool _
  | cons s ss ih =>
    have hs := append_books (s := s) h
    have ht := append_tracks h s
    rw [appendAll_cons] at hroom ⊢
    rw [growthsAll]
    rcases hr : w.append s with ⟨v, _ | stop⟩
    · rw [hr] at hs ht hroom
      exact (hs rfl).trans (ih ht.sound hroom)
    · rw [hr] at hroom
      cases hroom

/-- Texts stop only for want of room. -/
theorem appendAll_stop (h : w.Sound) (ss : List String)
    (hroom : (appendAll ss w).2 ≠ some (.fault .capacity)) : (appendAll ss w).2 = none := by
  rcases (appendAll_tracks h ss).outcome with ho | ⟨hc, _⟩
  · exact congrArg Prod.snd ho
  · exact absurd hc hroom

theorem appendRendering_books (h : w.Sound) {r : Rendering}
    (hroom : (w.appendRendering r).2 ≠ some (.fault .capacity)) :
    Books w (w.appendRendering r).1 (growthsAll r.pieces w) := by
  have hb := appendAll_books h r.pieces
  have hstop := appendAll_stop h r.pieces
  rw [appendRendering_eq] at hroom ⊢
  rcases hr : appendAll r.pieces w with ⟨v, _ | stop⟩
  · rw [hr] at hb
    simp only [andThen, Buffer.truncate_eq]
    split
    · -- the text is taken back, the block stays
      cases Text.cut? v.buffer.text w.size with
      | some t => exact hb rfl
      | none => exact hb rfl
    · exact hb rfl
  · rw [hr] at hroom hstop
    cases hstop hroom

theorem step_books (h : w.Sound) {e : Edit} (hroom : (w.step e).2 ≠ some (.fault .capacity)) :
    Books w (w.step e).1 (growthsAll (w.draft.pieces w.indent.unit e) w) := by
  cases e with
  | text s =>
    rw [step, ← appendAll_single] at hroom ⊢
    exact appendAll_books h _ (appendAll_stop h _ hroom)
  | indent => exact appendAll_books h _ (appendAll_stop h _ hroom)
  | rendering r => exact appendRendering_books h hroom
  | pieces r => exact appendAll_books h _ (appendAll_stop h _ hroom)
  | deepen =>
    rw [step]
    split <;> exact .refl w.pool _
  | rise =>
    rw [step]
    split <;> exact .refl w.pool _
  | setLevel n | clear | refuse r => exact .refl w.pool _
  | truncate length | dropLast count =>
    rw [step, truncate_eq]
    split <;> exact .refl w.pool _

theorem run_books (h : w.Sound) {es : List Edit} (hroom : (w.run es).2 ≠ some (.fault .capacity)) :
    Books w (w.run es).1 (w.growths es) := by
  induction es generalizing w with
  | nil => exact .refl w.pool _
  | cons e es ih =>
    have hs := step_books (e := e) h
    have ht := step_tracks h e
    rw [run_cons] at hroom ⊢
    rw [growths]
    rcases hr : w.step e with ⟨v, _ | stop⟩
    · rw [hr] at hs ht hroom
      exact (hs (by simp)).trans (ih ht.sound hroom)
    · rw [hr] at hs hroom
      exact hs hroom

end Writer

end GeneratorKit.Emission
