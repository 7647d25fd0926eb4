import GeneratorKit.Emission.Command

set_option autoImplicit false

/-!
# Sessions

A session runs commands on a writer until its text is taken, and can then start again with a fresh
writer on the same pool.
-/
namespace GeneratorKit.Emission
open Storage

/-- How writers are made, the last one, and whether it still exists. -/
structure Session where
  indent : Indent
  capacity : Nat
  writer : Writer
  live : Bool

inductive Task where
  | command (c : Command)
  /-- Takes the text if all scopes are closed. -/
  | build
  | take
  | restart

inductive Answer where
  | reply (r : Reply) (log : List Reply)
  | taken (text : String)
  /-- The writer of the session has been consumed. -/
  | consumed
  deriving DecidableEq

namespace Session

/-- A session whose writers start with the given capacity. -/
def start (indent : Indent) (capacity : Nat) (pool : Pool) : Except Fault Session :=
  (Buffer.withCapacity capacity).map fun b => ⟨indent, capacity, .make indent b pool, true⟩

def consume (s : Session) : Session :=
  { s with writer := { s.writer with pool := s.writer.release }, live := false }

/-- A fresh writer is made before the old one is released. -/
def restart (s : Session) : Session × Answer :=
  match Buffer.withCapacity s.capacity with
  | .error f => (s, .reply (.stopped (.fault f)) [])
  | .ok b =>
    let pool := if s.live then s.writer.release else s.writer.pool
    ({ s with writer := .make s.indent b pool, live := true }, .reply .done [])

def step (s : Session) : Task → Session × Answer
  | .restart => s.restart
  | .command c =>
    if s.live then
      let r := c.run "" s.writer
      let reply := match r.reply with
        | .ok reply => reply
        | .error stop => .stopped stop
      ({ s with writer := r.writer }, .reply reply r.log)
    else (s, .consumed)
  | .build =>
    if s.live then
      match s.writer.build with
      | .ok text => (s.consume, .taken text)
      | .error r => (s.consume, .reply (.refused r) [])
    else (s, .consumed)
  | .take => if s.live then (s.consume, .taken s.writer.text) else (s, .consumed)

end Session

end GeneratorKit.Emission
