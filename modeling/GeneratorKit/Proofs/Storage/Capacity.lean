import GeneratorKit.Proofs.Storage.InPlace
import GeneratorKit.Proofs.Storage.PoolHistory
import Mathlib.Algebra.Group.Nat.Defs

set_option autoImplicit false

/-!
# Capacity

A buffer through any edits, while others use its pool between them. It at least doubles whenever it moves to a
larger block and never shrinks, so its capacity keeps between two bounds: one in the number of the moves and one in
the greatest length (`Course.Steady`). What holds after any course is `disciplined_run`.
-/
namespace GeneratorKit.Storage.Buffer

/-- An edit of a buffer, or what someone else does to its pool. -/
inductive Event where
  | edit (e : Edit)
  | visit (v : Pool.Visit)

/-- A block that is given back could be allocated once. -/
def Event.Addressable : Event → Prop
  | .visit (.giveBack b) => b.capacity ≤ addressLimit
  | .edit _ | .visit (.rent _) => True

/-- A buffer and its pool, with the greatest length so far and the number of blocks that the buffer has moved to. -/
structure Course where
  buffer : Buffer
  pool : Pool
  peak : Nat
  moves : Nat

namespace Course

def start (b : Buffer) (p : Pool) : Course := ⟨b, p, b.size, 0⟩

/-- An edit is made in place. A loan that comes with one that does not fail is a move. -/
def step (c : Course) : Event → Course
  | .edit e => match (InPlace.perform e).outcome c.buffer c.pool with
    | (.ok _, b, p) => ⟨b, p, max c.peak b.size, c.moves + (p.rented - c.pool.rented)⟩
    | (.error _, b, p) => { c with buffer := b, pool := p }
  | .visit v => { c with pool := c.pool.visit v }

def run (c : Course) (es : List Event) : Course := es.foldl step c

end Course

section Edits
variable {b : Buffer} {p : Pool}

theorem release_rented (b : Buffer) (p : Pool) : (b.release p).rented = p.rented := by
  unfold release
  split
  · exact Pool.giveBack_rented p b.block
  · rfl

theorem size_of_cut {s t : String} {length : Nat} (h : Text.cut? s length = some t) :
    t.utf8ByteSize ≤ s.utf8ByteSize := by
  obtain ⟨⟨u, rfl⟩, _⟩ := (Text.cut?_eq_some_iff s t length).1 h
  rw [String.utf8ByteSize_append]
  omega

/-- An edit keeps the block, or moves the text to one of at least twice the capacity and takes one loan for it, or
fails. -/
theorem perform_cases (hb : b.Sound) (hp : p.Sound) (e : Edit) :
    (∃ s, s.utf8ByteSize ≤ b.capacity ∧ b.perform p e = (p, .ok (b.setText s))) ∨
    (∃ q c, b.perform p e = (q, .ok c) ∧ q.rented = p.rented + 1 ∧ b.capacity < c.size ∧
      c.capacity = max (b.capacity * 2) c.size) ∨
    (∃ q f, b.perform p e = (q, .error f)) := by
  cases e with
  | append s =>
    rcases append_cases hb hp s with ⟨hs, h⟩ | ⟨hs, _, room, _, _, h⟩ | ⟨_, _, h⟩
    · exact .inl ⟨b.text ++ s, by rwa [String.utf8ByteSize_append], h⟩
    · have hsize : size ⟨⟨room, b.text ++ s⟩, b.view.request s, true⟩ = b.size + s.utf8ByteSize :=
        String.utf8ByteSize_append
      refine .inr (.inl ⟨_, _, h, ?_, by rw [hsize]; exact hs, by rw [hsize]; rfl⟩)
      rw [release_rented, Pool.rent_rented]
    · exact .inr (.inr ⟨_, _, h⟩)
  | truncate length =>
    rw [perform, truncate_eq]
    cases h : Text.cut? b.text length with
    | none => exact .inr (.inr ⟨p, _, rfl⟩)
    | some s => exact .inl ⟨s, Nat.le_trans (size_of_cut h) hb.size_le, rfl⟩
  | clear => exact .inl ⟨"", Nat.zero_le _, rfl⟩

theorem perform_sound (hb : b.Sound) (hp : p.Sound) (e : Edit) :
    (b.perform p e).1.Sound ∧ ∀ c, (b.perform p e).2 = .ok c → c.Sound := by
  cases e with
  | append s => exact append_sound hb hp s
  | truncate length =>
    refine ⟨hp, fun c hc => ?_⟩
    rw [perform, truncate_eq] at hc
    cases h : Text.cut? b.text length with
    | none =>
      rw [h] at hc
      cases hc
    | some s =>
      rw [h] at hc
      cases hc
      exact hb.setText (Nat.le_trans (size_of_cut h) hb.size_le)
  | clear =>
    refine ⟨hp, fun c hc => ?_⟩
    cases hc
    exact hb.clear

end Edits

namespace Course
variable {c₀ : Nat} {c : Course}

/-- What a course keeps: the capacity lies below twice the greatest length, unless it is the first one, and above
what the moves have made of the first one. -/
structure Steady (c₀ : Nat) (c : Course) : Prop where
  buffer : c.buffer.Sound
  pool : c.pool.Sound
  reached : c.buffer.size ≤ c.peak
  bounded : c.buffer.capacity ≤ max c₀ (2 * c.peak)
  doubled : 2 ^ c.moves * c₀ ≤ c.buffer.capacity
  moved : 0 < c.moves → 2 ^ c.moves ≤ 2 * c.buffer.capacity

theorem steady_start {b : Buffer} {p : Pool} (hb : withCapacity c₀ = .ok b) (hp : p.Sound) :
    Steady c₀ (start b p) := by
  obtain ⟨hs, hv⟩ := sound_withCapacity hb
  have hcapacity : b.capacity = c₀ := congrArg View.capacity hv
  refine ⟨hs, hp, Nat.le_refl _, ?_, ?_, fun h => absurd h (Nat.lt_irrefl 0)⟩
  · exact hcapacity ▸ Nat.le_max_left _ _
  · simp [start, hcapacity]

theorem Steady.stay {s : String} (h : Steady c₀ c) (hs : s.utf8ByteSize ≤ c.buffer.capacity) :
    Steady c₀ ⟨c.buffer.setText s, c.pool, max c.peak (c.buffer.setText s).size, c.moves⟩ where
  buffer := h.buffer.setText hs
  pool := h.pool
  reached := Nat.le_max_right _ _
  bounded := by
    have hbounded := h.bounded
    change c.buffer.capacity ≤ max c₀ (2 * max c.peak _)
    omega
  doubled := h.doubled
  moved := h.moved

/-- A move doubles both lower bounds, and the length that made it necessary is more than half of what it leads to. -/
theorem Steady.move {b : Buffer} {q : Pool} (h : Steady c₀ c) (hb : b.Sound) (hq : q.Sound)
    (hsize : c.buffer.capacity < b.size) (hcapacity : b.capacity = max (c.buffer.capacity * 2) b.size) :
    Steady c₀ ⟨b, q, max c.peak b.size, c.moves + 1⟩ where
  buffer := hb
  pool := hq
  reached := Nat.le_max_right _ _
  bounded := by
    change b.capacity ≤ max c₀ (2 * max c.peak b.size)
    omega
  doubled := by
    have hdoubled := h.doubled
    have hpow : 2 ^ (c.moves + 1) * c₀ = 2 * (2 ^ c.moves * c₀) := by rw [Nat.pow_succ']; ac_rfl
    change 2 ^ (c.moves + 1) * c₀ ≤ b.capacity
    omega
  moved _ := by
    have hpow : 2 ^ (c.moves + 1) = 2 * 2 ^ c.moves := Nat.pow_succ'
    change 2 ^ (c.moves + 1) ≤ 2 * b.capacity
    rcases Nat.eq_zero_or_pos c.moves with hzero | hpos
    · rw [hzero]
      omega
    · have hmoved := h.moved hpos
      omega

theorem step_edit (c : Course) (e : Edit) : c.step (.edit e) = match c.buffer.perform c.pool e with
    | (p, .ok b) => ⟨b, p, max c.peak b.size, c.moves + (p.rented - c.pool.rented)⟩
    | (p, .error _) => { c with pool := p } := by
  rw [step, InPlace.outcome_perform]
  cases c.buffer.perform c.pool e with
  | mk q answer => cases answer <;> rfl

theorem pool_step_edit (c : Course) (e : Edit) : (c.step (.edit e)).pool = (c.buffer.perform c.pool e).1 := by
  rw [step_edit]
  cases c.buffer.perform c.pool e with
  | mk q answer => cases answer <;> rfl

theorem Steady.step (h : Steady c₀ c) {e : Event} (he : e.Addressable) : Steady c₀ (c.step e) := by
  cases e with
  | edit e =>
    obtain ⟨hpool, hbuffer⟩ := perform_sound h.buffer h.pool e
    rw [step_edit]
    rcases perform_cases h.buffer h.pool e with ⟨s, hs, hp⟩ | ⟨q, b, hp, hq, hsize, hcapacity⟩ | ⟨q, f, hp⟩
    · rw [hp]
      simpa using h.stay hs
    · rw [hp] at hpool hbuffer ⊢
      have hloans : q.rented - c.pool.rented = 1 := by omega
      simp only [hloans]
      exact h.move (hbuffer b rfl) hpool hsize hcapacity
    · rw [hp] at hpool ⊢
      exact ⟨h.buffer, hpool, h.reached, h.bounded, h.doubled, h.moved⟩
  | visit v =>
    have hpool : (c.pool.visit v).Sound := by
      cases v with
      | rent size => exact h.pool.rent size
      | giveBack b => exact h.pool.giveBack he
    exact ⟨h.buffer, hpool, h.reached, h.bounded, h.doubled, h.moved⟩

theorem Steady.run (h : Steady c₀ c) {es : List Event} (hes : ∀ e ∈ es, e.Addressable) :
    Steady c₀ (c.run es) := by
  induction es generalizing c with
  | nil => exact h
  | cons e es ih =>
    exact ih (h.step (hes e List.mem_cons_self)) fun e he => hes e (List.mem_cons_of_mem _ he)

theorem Steady.keeps (h : Steady c₀ c) (e : Edit) : c.buffer.capacity ≤ (c.step (.edit e)).buffer.capacity := by
  rw [step_edit]
  rcases perform_cases h.buffer h.pool e with ⟨s, _, hp⟩ | ⟨q, b, hp, _, _, hcapacity⟩ | ⟨q, f, hp⟩
  · exact hp ▸ Nat.le_refl c.buffer.capacity
  · rw [hp]
    change c.buffer.capacity ≤ b.capacity
    omega
  · exact hp ▸ Nat.le_refl c.buffer.capacity

theorem Steady.loans (h : Steady c₀ c) (e : Edit) : (c.step (.edit e)).pool.rented =
    c.pool.rented + if c.buffer.size + e.incoming ≤ c.buffer.capacity then 0 else 1 := by
  rw [pool_step_edit]
  cases e with
  | append s =>
    rw [perform, Edit.incoming]
    rcases append_cases h.buffer h.pool s with ⟨hs, hp⟩ | ⟨hs, _, _, _, _, hp⟩ | ⟨hs, _, hp⟩
    · rw [hp, if_pos hs, Nat.add_zero]
    · rw [hp, if_neg (by omega), release_rented, Pool.rent_rented]
    · rw [hp, if_neg (by omega), Pool.rent_rented]
  | truncate length => exact (if_pos h.buffer.size_le).symm ▸ rfl
  | clear => exact (if_pos h.buffer.size_le).symm ▸ rfl

theorem Steady.refused (h : Steady c₀ c) {s : String} {f : Fault} {b : Buffer} {p : Pool}
    (ho : (InPlace.perform (.append s)).outcome c.buffer c.pool = (.error f, b, p)) :
    f = .capacity ∧ c.buffer.capacity < c.buffer.size + s.utf8ByteSize ∧
      addressLimit < max (c.buffer.capacity * 2) (c.buffer.size + s.utf8ByteSize) := by
  have happend : c.buffer.append s c.pool = (p, .error f) := (InPlace.outcome_perform_error ho).1
  have hview := append_view h.buffer h.pool s
  rw [happend] at hview
  exact View.append_error hview.symm

/-- What holds of a buffer that began with a capacity of `c₀`. -/
structure Disciplined (c₀ : Nat) (c : Course) : Prop where
  fits : c.buffer.size ≤ c.buffer.capacity
  room : c.buffer.capacity ≤ c.buffer.block.capacity
  double_lt : c.buffer.capacity * 2 < 2 ^ 64
  sum_lt (s : String) : s.utf8ByteSize ≤ addressLimit → c.buffer.size + s.utf8ByteSize < 2 ^ 64
  bounded : c.buffer.capacity ≤ max c₀ (2 * c.peak)
  doubled : 2 ^ c.moves * c₀ ≤ c.buffer.capacity
  moved : 0 < c.moves → 2 ^ (c.moves - 1) ≤ c.buffer.capacity
  keeps (e : Edit) : c.buffer.capacity ≤ (c.step (.edit e)).buffer.capacity
  /-- An edit asks for one block when what it brings in does not fit, and else for none. -/
  loans (e : Edit) : (c.step (.edit e)).pool.rented =
    c.pool.rented + if c.buffer.size + e.incoming ≤ c.buffer.capacity then 0 else 1
  appends (s : String) : (c.buffer.append s c.pool).2.map view = c.buffer.view.append s
  /-- An edit that fails has changed nothing of the buffer. -/
  unharmed (e : Edit) (f : Fault) (b : Buffer) (p : Pool) :
    (InPlace.perform e).outcome c.buffer c.pool = (.error f, b, p) → b = c.buffer
  refused (s : String) (f : Fault) (b : Buffer) (p : Pool) :
    (InPlace.perform (.append s)).outcome c.buffer c.pool = (.error f, b, p) →
      f = .capacity ∧ c.buffer.capacity < c.buffer.size + s.utf8ByteSize ∧
        addressLimit < max (c.buffer.capacity * 2) (c.buffer.size + s.utf8ByteSize)

theorem Steady.disciplined (h : Steady c₀ c) : Disciplined c₀ c := by
  have hsize := h.buffer.size_le
  have hroom := h.buffer.capacity_le
  have haddress := h.buffer.addressable
  unfold addressLimit at haddress
  refine ⟨hsize, hroom, by omega, fun s hs => ?_, h.bounded, h.doubled, fun hpos => ?_, h.keeps, h.loans,
    append_view h.buffer h.pool, fun e f b p ho => (InPlace.outcome_perform_error ho).2, fun s f b p => h.refused⟩
  · unfold addressLimit at hs
    omega
  · have hmoved := h.moved hpos
    have hpow : 2 ^ c.moves = 2 * 2 ^ (c.moves - 1) := by
      rw [← Nat.pow_succ', Nat.succ_eq_add_one, Nat.sub_add_cancel hpos]
    omega

/-- A buffer of any first capacity that can be addressed keeps within its bounds through any edits, whatever the pool
holds and whatever others do to it. -/
theorem disciplined_run (maxRetained maxBlockSize c₀ : Nat) (hc : c₀ ≤ addressLimit) (es : List Event)
    (hes : ∀ e ∈ es, e.Addressable) : ∃ b, withCapacity c₀ = .ok b ∧
      Disciplined c₀ ((start b (.withLimits maxRetained maxBlockSize)).run es) := by
  have hb : withCapacity c₀ = .ok ⟨⟨c₀, ""⟩, c₀, false⟩ := by rw [withCapacity_eq, if_pos hc]
  exact ⟨_, hb, ((steady_start hb (Pool.sound_withLimits maxRetained maxBlockSize)).run hes).disciplined⟩

/-- The first move takes a block that someone else gave back, the second one a block that is larger than it has to
be, although others have used the pool between them. -/
theorem disciplined_run_recycled :
    let es : List Event := [.visit (.giveBack ⟨5, "old"⟩), .edit (.append "abc"), .edit (.truncate 1),
      .visit (.giveBack ⟨64, "x"⟩), .visit (.rent 9), .visit (.giveBack ⟨64, "y"⟩), .edit (.append "defgh"),
      .edit .clear]
    2 ≤ addressLimit ∧ (∀ e ∈ es, e.Addressable) ∧ ∃ b, withCapacity 2 = .ok b ∧
      Disciplined 2 ((start b (.withLimits 4 100)).run es) := by
  intro es
  have hes : ∀ e ∈ es, e.Addressable := by simp [es, Event.Addressable, addressLimit]
  exact ⟨by decide, hes, disciplined_run 4 100 2 (by decide) es hes⟩

end Course

end GeneratorKit.Storage.Buffer
