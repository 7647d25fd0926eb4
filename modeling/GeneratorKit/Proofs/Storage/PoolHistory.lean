import GeneratorKit.Proofs.Storage.Pool

set_option autoImplicit false

/-!
# Histories of a pool

Loans and returns in any order, where the returned blocks can be of any size, hold any text and come from
anywhere. What a pool holds and counts after them, and how it meets the next one (`orderly_replay`).
-/
namespace GeneratorKit.Storage.Pool

inductive Visit where
  | rent (size : Nat)
  | giveBack (b : Block)

def Visit.isLoan : Visit → Bool
  | .rent _ => true
  | .giveBack _ => false

def visit (p : Pool) : Visit → Pool
  | .rent size => (p.rent size).1
  | .giveBack b => p.giveBack b

def replay (p : Pool) (vs : List Visit) : Pool := vs.foldl visit p

/-- A loan of so many bytes hands out an empty block that has room for them. It was idle, and the other idle
blocks stay, or it is new, because no idle block has the room. -/
inductive Lends (p : Pool) (size : Nat) : Pool × Except Fault Block → Prop where
  | reused (b : Block) (rest : List Block) (empty : b.text = "") (room : size ≤ b.capacity)
    (others : p.idle.Perm (b :: rest)) :
    Lends p size ({ p with idle := rest, rented := p.rented + 1 }, .ok b)
  | fresh (none : ∀ b ∈ p.idle, b.capacity < size) :
    Lends p size ({ p with rented := p.rented + 1 }, .ok ⟨size, ""⟩)

theorem Tidy.lends {p : Pool} (h : p.Tidy) {size : Nat} (hs : size ≤ addressLimit) :
    Lends p size (p.rent size) := by
  rcases rent_cases p size with ⟨b, rest, hroom, hp, e⟩ | ⟨hnone, e⟩
  · rw [e]
    exact .reused b rest (h.empty b (hp.mem_iff.2 List.mem_cons_self)) hroom hp
  · rw [e, Block.allocate, if_pos hs]
    exact .fresh hnone

theorem giveBack_idle (p : Pool) (b : Block) :
    (p.giveBack b).idle =
      if b.capacity ≤ p.maxBlockSize ∧ p.retained < p.maxRetained then
        p.idle ++ [{ b with text := "" }]
      else p.idle := by
  rw [retained]
  rcases giveBack_cases p b with ⟨hs, hn, e⟩ | ⟨hn, e⟩
  · rw [e, if_pos ⟨hs, hn⟩]
  · rw [e, if_neg hn]

theorem Tidy.visit {p : Pool} (h : p.Tidy) (v : Visit) : (p.visit v).Tidy := by
  cases v with
  | rent size => exact h.rent size
  | giveBack b => exact h.giveBack b

/-- One visit keeps the limits and is counted once. -/
theorem visit_counters (p : Pool) (v : Visit) :
    (p.visit v).maxRetained = p.maxRetained ∧ (p.visit v).maxBlockSize = p.maxBlockSize ∧
      (p.visit v).rented = p.rented + (if v.isLoan then 1 else 0) ∧
      (p.visit v).returned = p.returned + (if !v.isLoan then 1 else 0) := by
  cases v <;> simp [visit, Visit.isLoan]

theorem Tidy.replay {p : Pool} (h : p.Tidy) (vs : List Visit) : (p.replay vs).Tidy := by
  induction vs generalizing p with
  | nil => exact h
  | cons v vs ih => exact ih (h.visit v)

theorem replay_counters (p : Pool) (vs : List Visit) :
    (p.replay vs).maxRetained = p.maxRetained ∧ (p.replay vs).maxBlockSize = p.maxBlockSize ∧
      (p.replay vs).rented = p.rented + vs.countP Visit.isLoan ∧
      (p.replay vs).returned = p.returned + vs.countP (!·.isLoan) := by
  induction vs generalizing p with
  | nil => exact ⟨rfl, rfl, rfl, rfl⟩
  | cons v vs ih =>
    obtain ⟨hn, hs, hl, hr⟩ := visit_counters p v
    obtain ⟨ihn, ihs, ihl, ihr⟩ := ih (p.visit v)
    rw [show p.replay (v :: vs) = (p.visit v).replay vs from rfl, List.countP_cons, List.countP_cons]
    exact ⟨ihn.trans hn, ihs.trans hs, by omega, by omega⟩

/-- What a pool of these limits holds and does after a history of loans and returns. -/
structure Orderly (maxRetained maxBlockSize : Nat) (vs : List Visit) (p : Pool) : Prop where
  few : p.retained ≤ maxRetained
  empty : ∀ b ∈ p.idle, b.text = ""
  small : ∀ b ∈ p.idle, b.capacity ≤ maxBlockSize
  lends (size : Nat) : size ≤ addressLimit → Lends p size (p.rent size)
  takes (b : Block) : (p.giveBack b).idle =
    if b.capacity ≤ maxBlockSize ∧ p.retained < maxRetained then p.idle ++ [{ b with text := "" }]
    else p.idle
  rented : p.rented = vs.countP Visit.isLoan
  returned : p.returned = vs.countP (!·.isLoan)

theorem Tidy.orderly {maxRetained maxBlockSize : Nat} {vs : List Visit} {p : Pool} (h : p.Tidy)
    (hn : p.maxRetained = maxRetained) (hs : p.maxBlockSize = maxBlockSize)
    (hl : p.rented = vs.countP Visit.isLoan) (hr : p.returned = vs.countP (!·.isLoan)) :
    Orderly maxRetained maxBlockSize vs p := by
  subst hn hs
  exact ⟨h.few, h.empty, h.small, fun _ => h.lends, giveBack_idle p, hl, hr⟩

/-- After any loans and returns a pool keeps to its limits and holds empty blocks only. It lends an idle block
where one has room and takes a block in where there is place for it, without touching the others. -/
theorem orderly_replay (maxRetained maxBlockSize : Nat) (vs : List Visit) :
    Orderly maxRetained maxBlockSize vs ((withLimits maxRetained maxBlockSize).replay vs) := by
  have ht := (tidy_withLimits maxRetained maxBlockSize).replay vs
  obtain ⟨hn, hs, hl, hr⟩ := replay_counters (withLimits maxRetained maxBlockSize) vs
  exact ht.orderly hn hs (hl.trans (Nat.zero_add _)) (hr.trans (Nat.zero_add _))

/-- A block that is too large and a third one are not kept; a loan takes the first block with room. -/
example : ((withLimits 2 64).replay [.giveBack ⟨100, "x"⟩, .giveBack ⟨8, "y"⟩, .giveBack ⟨32, "z"⟩,
    .giveBack ⟨64, ""⟩, .rent 9]).idle.map (·.capacity) = [8] := by decide

end GeneratorKit.Storage.Pool
