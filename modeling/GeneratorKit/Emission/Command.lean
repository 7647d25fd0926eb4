import GeneratorKit.Emission.Scopes

set_option autoImplicit false

/-!
# Commands

Programs that drive a writer. Some commands have a body, which may be guarded by a scope, repeated, or
kept from stopping what is around it. A run answers with a reply and logs the replies of the commands
in bodies, in the order in which they end.
-/
namespace GeneratorKit.Emission

inductive Query where
  | text
  | trimmed
  | unit
  | measure

inductive Command where
  | emit (edits : List Edit)
  /-- Runs edits and answers with their refusal. -/
  | attempt (edits : List Edit)
  | write (r : Rendering)
  | query (q : Query)
  | scope (body : List Command)
  | block (header : String) (body : List Command)
  /-- Runs a body and answers with what stopped it. -/
  | recover (body : List Command)
  | when (condition : Bool) (body : List Command)
  | each (items : List String) (body : List Command)
  /-- Appends the current item of the innermost `each`. -/
  | currentItem

inductive Reply where
  | done
  | flag (b : Bool)
  | text (s : String)
  | depth (n : Nat)
  | measure (size level : Nat)
  | refused (r : Refusal)
  | stopped (s : Stop)
  deriving DecidableEq

def Query.answer (w : Writer) : Query → Reply
  | .text => .text w.text
  | .trimmed => .text w.buffer.trimmed
  | .unit => .text w.indent.unit
  | .measure => .measure w.size w.level

/-- What a body leaves: the writer, the replies and what stopped it. -/
structure BodyRun where
  writer : Writer
  log : List Reply
  stop : Option Stop

/-- What a command leaves: the writer, the replies of its bodies and its own reply. -/
structure CommandRun where
  writer : Writer
  log : List Reply
  reply : Except Stop Reply

namespace Command

/-- A command without a body that answers `reply` unless it stops. -/
def plain (r : Result) (reply : Reply) : CommandRun :=
  match r with
  | (w, none) => ⟨w, [], .ok reply⟩
  | (w, some s) => ⟨w, [], .error s⟩

/-- A body between the edits that open a scope and the guard that closes it. The scope is closed on
every way out; what stopped the body stops the command. -/
def guarded (body : Writer → BodyRun) (opened : Result) (reply : Writer → Reply) : CommandRun :=
  match opened with
  | (w, some s) => ⟨w, [], .error s⟩
  | (w, none) =>
    let r := body w
    let (v, closing) := r.writer.closeGuard
    match r.stop.or closing with
    | some s => ⟨v, r.log, .error s⟩
    | none => ⟨v, r.log, .ok (reply w)⟩

def repeated (body : String → Writer → BodyRun) : List String → Writer → BodyRun
  | [], w => ⟨w, [], none⟩
  | item :: items, w =>
    let r := body item w
    match r.stop with
    | some s => ⟨r.writer, r.log, some s⟩
    | none =>
      let rest := repeated body items r.writer
      { rest with log := r.log ++ rest.log }

def ofBody (r : BodyRun) : CommandRun :=
  match r.stop with
  | some s => ⟨r.writer, r.log, .error s⟩
  | none => ⟨r.writer, r.log, .ok .done⟩

mutual

/-- Runs a command, with the current item of the innermost `each`. -/
def run : Command → String → Writer → CommandRun
  | .emit es, _, w => plain (w.run es) .done
  | .attempt es, _, w =>
    match w.run es with
    | (w, some (.refusal r)) => ⟨w, [], .ok (.refused r)⟩
    | r => plain r .done
  | .write r, _, w => plain (w.step (.pieces r)) (.flag !r.fails)
  | .query q, _, w => ⟨w, [], .ok (q.answer w)⟩
  | .scope body, item, w => guarded (runAll body item) (w.run openScope) fun w => .depth w.level
  | .block header body, item, w =>
    guarded (runAll body item) (w.run (line header ++ openScope)) fun _ => .done
  | .recover body, item, w =>
    let r := runAll body item w
    match r.stop with
    | some s => ⟨r.writer, r.log, .ok (.stopped s)⟩
    | none => ⟨r.writer, r.log, .ok .done⟩
  | .when condition body, item, w =>
    if condition then ofBody (runAll body item w) else ⟨w, [], .ok .done⟩
  | .each items body, _, w => ofBody (repeated (runAll body) items w)
  | .currentItem, item, w => plain (w.append item) .done

/-- Runs commands up to the first that stops and logs the replies of the others. -/
def runAll : List Command → String → Writer → BodyRun
  | [], _, w => ⟨w, [], none⟩
  | c :: cs, item, w =>
    let r := run c item w
    match r.reply with
    | .error s => ⟨r.writer, r.log, some s⟩
    | .ok reply =>
      let rest := runAll cs item r.writer
      { rest with log := r.log ++ reply :: rest.log }

end

end Command

end GeneratorKit.Emission
