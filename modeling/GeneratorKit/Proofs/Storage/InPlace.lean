import GeneratorKit.Proofs.Storage.Buffer

set_option autoImplicit false

/-!
# Edits in place

An edit changes a buffer field by field, and what it has changed stays when it fails further on. Each edit in place ends
as the same edit of a value does, and one that fails has changed nothing of the buffer (`outcome_perform`), for all that
can fail comes before the first change.
-/
namespace GeneratorKit.Storage.Buffer

/-- An edit of the text; a character is appended as the text that it makes. -/
inductive Edit where
  | append (s : String)
  | truncate (length : Nat)
  | clear

/-- The bytes that an edit brings in. -/
def Edit.incoming : Edit → Nat
  | .append s => s.utf8ByteSize
  | .truncate _ | .clear => 0

def perform (b : Buffer) (p : Pool) : Edit → Pool × Except Fault Buffer
  | .append s => b.append s p
  | .truncate length => (p, b.truncate length)
  | .clear => (p, .ok b.clear)

/-- Work on a buffer and its pool. Where it fails, they are as it has left them. -/
abbrev InPlace := ExceptT Fault (StateM (Buffer × Pool))

namespace InPlace

/-- How the work ends, with the buffer and the pool at that time. -/
def outcome {α : Type} (work : InPlace α) (b : Buffer) (p : Pool) : Except Fault α × Buffer × Pool :=
  work.run.run (b, p)

section Work

def change (f : Buffer → Buffer) : InPlace Unit := modify fun (b, p) => (f b, p)

def rent (capacity : Nat) : InPlace Block :=
  ExceptT.mk fun (b, p) =>
    let (q, answer) := p.rent capacity
    (answer, b, q)

def giveBack (block : Block) : InPlace Unit := modify fun (b, p) => (b, p.giveBack block)

def grow (more : Nat) : InPlace Unit := do
  let (b, _) ← get
  let capacity := max (b.capacity * 2) (b.size + more)
  let block ← rent capacity
  change fun b => { b with block := { block with text := block.text ++ b.text } }
  if b.pooled then giveBack b.block
  change fun b => { b with pooled := true }
  change fun b => { b with capacity := capacity }

def append (s : String) : InPlace Unit := do
  let (b, _) ← get
  if b.capacity - b.size < s.utf8ByteSize then grow s.utf8ByteSize
  change fun b => b.setText (b.text ++ s)

def truncate (length : Nat) : InPlace Unit := do
  let (b, _) ← get
  if b.size < length then throw (.cutPastEnd length b.size)
  match Text.cut? b.text length with
  | some s => change fun b => b.setText s
  | none => throw (.cutInsideCharacter length)

def perform : Edit → InPlace Unit
  | .append s => append s
  | .truncate length => truncate length
  | .clear => change Buffer.clear

end Work

section Outcomes

/-- The end of work that has the answer of an edit of `b`: with no new buffer in it, there still is `b`. -/
def settled (b : Buffer) : Pool × Except Fault Buffer → Except Fault Unit × Buffer × Pool
  | (q, .ok c) => (.ok (), c, q)
  | (q, .error f) => (.error f, b, q)

variable {α β : Type} (b : Buffer) (p : Pool)

theorem outcome_bind (work : InPlace α) (next : α → InPlace β) : outcome (work >>= next) b p =
    match outcome work b p with
    | (.ok a, c, q) => outcome (next a) c q
    | (.error f, c, q) => (.error f, c, q) := by
  rw [outcome, ExceptT.run_bind, StateT.run_bind, outcome]
  cases StateT.run work.run (b, p) with
  | mk answer state => cases answer <;> rfl

theorem outcome_get : outcome get b p = (.ok (b, p), b, p) := rfl

theorem outcome_rent (capacity : Nat) :
    outcome (rent capacity) b p = ((p.rent capacity).2, b, (p.rent capacity).1) := rfl

theorem outcome_grow (more : Nat) : outcome (grow more) b p = settled b (b.grow more p) := by
  rw [Buffer.grow, grow, outcome_bind, outcome_get]
  simp only [outcome_bind, outcome_rent]
  cases p.rent (max (b.capacity * 2) (b.size + more)) with
  | mk q answer =>
    cases answer with
    | error f => rfl
    | ok block => cases b.pooled <;> rfl

theorem outcome_append (s : String) : outcome (append s) b p = settled b (b.append s p) := by
  rw [Buffer.append, append, outcome_bind, outcome_get]
  dsimp only
  split
  · rw [outcome_bind, outcome_grow]
    cases b.grow s.utf8ByteSize p with
    | mk q answer => cases answer <;> rfl
  · rfl

theorem outcome_truncate (length : Nat) : outcome (truncate length) b p = settled b (p, b.truncate length) := by
  rw [Buffer.truncate, truncate, outcome_bind, outcome_get]
  dsimp only
  split
  · rfl
  · cases Text.cut? b.text length <;> rfl

/-- Work in place ends as the edit of a value does, and leaves the buffer alone when there is no new one. -/
theorem outcome_perform : ∀ e : Edit, outcome (perform e) b p = settled b (b.perform p e)
  | .append s => outcome_append b p s
  | .truncate length => outcome_truncate b p length
  | .clear => rfl

variable {b p}

theorem outcome_perform_error {e : Edit} {f : Fault} {c : Buffer} {q : Pool}
    (h : outcome (perform e) b p = (.error f, c, q)) : b.perform p e = (q, .error f) ∧ c = b := by
  rw [outcome_perform] at h
  cases hr : b.perform p e with
  | mk r answer =>
    rw [hr] at h
    cases answer with
    | error g =>
      cases h
      exact ⟨rfl, rfl⟩
    | ok d => cases h

end Outcomes

end InPlace

end GeneratorKit.Storage.Buffer
