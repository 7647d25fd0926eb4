import GeneratorKit.Proofs.Emission.Guards

set_option autoImplicit false

/-!
# Layout

Trees of statements, the commands that emit them, and the text they are laid out as. Running the commands
of trees appends their layout and comes back to the level where it began (`run_commandsAll`).
-/
namespace GeneratorKit.Emission
open Storage

mutual

inductive Statement where
  | leaf (l : Leaf)
  /-- An opened scope and the branches that follow its body. -/
  | enclosed (o : Opening) (body : List Statement) (rest : Branches)
  /-- A scope that closes itself, with or without a header. -/
  | guarded (header : Option String) (body : List Statement)

inductive Branches where
  | done
  | next (t : Turn) (body : List Statement) (rest : Branches)

end

mutual

def Statement.nesting : Statement → Nat
  | .leaf _ => 0
  | .enclosed _ body rest => max (Statement.nestingAll body + 1) rest.nesting
  | .guarded _ body => Statement.nestingAll body + 1

def Statement.nestingAll : List Statement → Nat
  | [] => 0
  | s :: ss => max s.nesting (Statement.nestingAll ss)

def Branches.nesting : Branches → Nat
  | .done => 0
  | .next _ body rest => max (Statement.nestingAll body + 1) rest.nesting

end

mutual

def Statement.commands : Statement → List Command
  | .leaf l => [.emit l.edits]
  | .enclosed o body rest => .emit o.edits :: (Statement.commandsAll body ++ rest.commands)
  | .guarded none body => [.scope (Statement.commandsAll body)]
  | .guarded (some header) body => [.block header (Statement.commandsAll body)]

def Statement.commandsAll : List Statement → List Command
  | [] => []
  | s :: ss => s.commands ++ Statement.commandsAll ss

/-- The last branch ends with a closed scope, the others with the turn to the next one. -/
def Branches.commands : Branches → List Command
  | .done => [.emit closeScope]
  | .next t body rest => .emit t.edits :: (Statement.commandsAll body ++ rest.commands)

end

mutual

/-- The text of a statement at a level. Bodies are a level deeper than the braces around them. -/
def Statement.layout (unit : String) (level : Nat) : Statement → String
  | .leaf l => row unit level l.text
  | .enclosed o body rest =>
    headerRow unit level o.header? ++ openRow unit level ++
      Statement.layoutAll unit (level + 1) body ++ closeRow unit level ++ rest.layout unit level
  | .guarded header body =>
    headerRow unit level header ++ openRow unit level ++
      Statement.layoutAll unit (level + 1) body ++ closeRow unit level

def Statement.layoutAll (unit : String) (level : Nat) : List Statement → String
  | [] => ""
  | s :: ss => s.layout unit level ++ Statement.layoutAll unit level ss

def Branches.layout (unit : String) (level : Nat) : Branches → String
  | .done => ""
  | .next t body rest =>
    row unit level t.header ++ openRow unit level ++
      Statement.layoutAll unit (level + 1) body ++ closeRow unit level ++ rest.layout unit level

end

/-- From one level to another, commands append a text to what is there, unless room runs out. -/
def Writes (unit : String) (cs : List Command) (before after : Nat) (text : String) : Prop :=
  ∀ (item : String) (w : Writer), w.Sound → w.indent.unit = unit → w.level = before →
    w.Tracks (Command.runAll cs item w).result (⟨after, w.text ++ text⟩, none)
      (w.size + text.utf8ByteSize)

namespace Writes

variable {unit : String} {cs ds : List Command} {before inside after : Nat} {s t : String}

theorem nil (unit : String) (level : Nat) : Writes unit [] level level "" := by
  intro item w h hu hl
  refine ⟨h, rfl, .inl ?_⟩
  rw [← hl, String.append_empty]
  rfl

theorem append (hc : Writes unit cs before inside s) (hd : Writes unit ds inside after t) :
    Writes unit (cs ++ ds) before after (s ++ t) := by
  intro item w h hu hl
  have hw := hc item w h hu hl
  rw [Command.runAll_append, String.utf8ByteSize_append, ← String.append_assoc]
  rcases hr : (Command.runAll cs item w).result with ⟨v, _ | stop⟩
  · rw [hr] at hw
    have hv : v.draft = ⟨inside, w.text ++ s⟩ := congrArg Prod.fst hw.eq_of_none.symm
    have hlevel : v.level = inside := congrArg Draft.level hv
    have htext : v.text = w.text ++ s := congrArg Draft.text hv
    have hsize : v.size = w.size + s.utf8ByteSize := by
      rw [← Writer.draft_size, hv, Draft.size, String.utf8ByteSize_append]
      rfl
    have hn := hd item v hw.sound ((congrArg Indent.unit hw.indent).trans hu) hlevel
    rw [htext, hsize, Nat.add_assoc] at hn
    exact hw.trans hn
  · rw [hr] at hw
    exact ⟨hw.sound, hw.indent, .inr (hw.noRoom_of_some.mono (by omega))⟩

theorem emit {es : List Edit} (hg : ∀ e ∈ es, e.grows = true)
    (hes : ∀ text, (Draft.mk before text).run unit es = (⟨after, text ++ s⟩, none)) :
    Writes unit [.emit es] before after s := by
  intro item w h hu hl
  have ht := Writer.run_tracks_of_grows h hg
  have hd : w.draft.run w.indent.unit es = (⟨after, w.text ++ s⟩, none) := by
    rw [hu, show w.draft = ⟨before, w.text⟩ from congrArg (Draft.mk · w.text) hl]
    exact hes w.text
  rw [hd, Draft.size, String.utf8ByteSize_append] at ht
  rw [Command.runAll_emit]
  exact ht

/-- A command that guards a body writes what opens the scope, the body and the closing brace. -/
theorem guarded {c : Command} {reply : Writer → Reply} {opening : List Edit} (level : Nat)
    (hrun : ∀ item w, c.run item w = Command.guarded (Command.runAll cs item) (w.run opening) reply)
    (hopen : Writes unit [.emit opening] level (level + 1) s)
    (hbody : Writes unit cs (level + 1) (level + 1) t) :
    Writes unit [c] level level (s ++ t ++ closeRow unit level) := by
  intro item w h hu hl
  have hclose : Writes unit [.emit closeScope] (level + 1) level (closeRow unit level) :=
    emit closeScope_grows fun text => run_closeScope unit level text
  have hb := (hopen.append hbody) item w h hu hl
  have hall := ((hopen.append hbody).append hclose) item w h hu hl
  simp only [Command.runAll_append, Command.runAll_emit] at hb hall
  rw [Command.runAll_single, hrun, Command.guarded_result]
  rcases hr : w.run opening with ⟨v, _ | stop⟩
  · rw [hr] at hall hb
    rcases hbody : Command.runAll cs item v with ⟨u, log, _ | stop⟩
    · simp only [hbody, BodyRun.result] at hb hall ⊢
      have hu : u.Sound := hb.sound
      have hlevel : u.level = level + 1 := congrArg (·.1.level) hb.eq_of_none.symm
      rw [Writer.closeGuard_eq hu hlevel]
      exact hall
    · simp only [hbody, BodyRun.result] at hb ⊢
      have hu : u.Sound := hb.sound
      have hg := Writer.closeGuard_continues hu
      refine ⟨hg.sound, hg.indent.trans hb.indent, .inr (hb.noRoom_of_some.mono ?_)⟩
      simp only [String.utf8ByteSize_append]
      omega
  · rw [hr] at hall
    exact hall

end Writes

mutual

theorem Statement.writes (unit : String) (level : Nat) (s : Statement)
    (h : level + s.nesting < levelLimit) :
    Writes unit s.commands level level (s.layout unit level) := by
  cases s with
  | leaf l =>
    rw [Statement.commands, Statement.layout]
    exact .emit l.edits_grow fun text => l.run_edits unit ⟨level, text⟩
  | enclosed o body rest =>
    rw [Statement.nesting] at h
    have hlevel : level + 1 < levelLimit := by omega
    have hopen : Writes unit [.emit o.edits] level (level + 1)
        (headerRow unit level o.header? ++ openRow unit level) :=
      .emit o.edits_grow fun text => by
        rw [o.run_edits unit ⟨level, text⟩ hlevel, String.append_assoc]
    have hbody := Statement.writesAll unit (level + 1) body (by omega)
    have hrest := Branches.writes unit level rest hlevel (by omega)
    have hall := hopen.append (hbody.append hrest)
    rw [Statement.commands, Statement.layout]
    simpa only [String.append_assoc, List.singleton_append] using hall
  | guarded header body =>
    rw [Statement.nesting] at h
    have hlevel : level + 1 < levelLimit := by omega
    have hbody := Statement.writesAll unit (level + 1) body (by omega)
    cases header with
    | none =>
      rw [Statement.commands, Statement.layout, headerRow, String.empty_append]
      refine .guarded level (fun item w => by rw [Command.run]) ?_ hbody
      exact .emit openScope_grows fun text => run_openScope unit ⟨level, text⟩ hlevel
    | some header =>
      rw [Statement.commands, Statement.layout, headerRow]
      refine .guarded level (fun item w => by rw [Command.run]) ?_ hbody
      refine .emit (opener_grows [header]) fun text => ?_
      have ho := run_opener unit ⟨level, text⟩ [header] hlevel
      rwa [show String.join [header] = header by simp, String.append_assoc] at ho

theorem Statement.writesAll (unit : String) (level : Nat) (ss : List Statement)
    (h : level + Statement.nestingAll ss < levelLimit) :
    Writes unit (Statement.commandsAll ss) level level (Statement.layoutAll unit level ss) := by
  cases ss with
  | nil =>
    rw [Statement.commandsAll, Statement.layoutAll]
    exact .nil unit level
  | cons s ss =>
    rw [Statement.nestingAll] at h
    rw [Statement.commandsAll, Statement.layoutAll]
    exact (s.writes unit level (by omega)).append (Statement.writesAll unit level ss (by omega))

theorem Branches.writes (unit : String) (level : Nat) (b : Branches)
    (hlevel : level + 1 < levelLimit) (h : level + b.nesting < levelLimit) :
    Writes unit b.commands (level + 1) level (closeRow unit level ++ b.layout unit level) := by
  cases b with
  | done =>
    rw [Branches.commands, Branches.layout, String.append_empty]
    exact .emit closeScope_grows fun text => run_closeScope unit level text
  | next t body rest =>
    rw [Branches.nesting] at h
    have hturn : Writes unit [.emit t.edits] (level + 1) (level + 1)
        (closeRow unit level ++ row unit level t.header ++ openRow unit level) :=
      .emit t.edits_grow fun text => by
        rw [t.run_edits unit level text hlevel]
        simp only [String.append_assoc]
    have hbody := Statement.writesAll unit (level + 1) body (by omega)
    have hrest := Branches.writes unit level rest hlevel (by omega)
    have hall := hturn.append (hbody.append hrest)
    rw [Branches.commands, Branches.layout]
    simpa only [String.append_assoc, List.singleton_append] using hall

end

/-- Running the commands of statements, whatever the writer holds already, does not stop: it appends the
layout at the level of the writer and comes back to that level. Only a text of more than half of what can
be addressed may stop it, for want of room. -/
theorem run_commandsAll (ss : List Statement) (item : String) (w : Writer) (h : w.Sound)
    (hn : w.level + Statement.nestingAll ss < levelLimit) :
    let r := Command.runAll (Statement.commandsAll ss) item w
    let text := w.text ++ Statement.layoutAll w.indent.unit w.level ss
    (r.stop = none ∧ r.writer.level = w.level ∧ r.writer.text = text) ∨
      NoRoom r.stop text.utf8ByteSize := by
  intro r text
  have ht := Statement.writesAll w.indent.unit w.level ss hn item w h rfl rfl
  refine ht.ends.imp_right fun hroom => ?_
  rw [String.utf8ByteSize_append]
  exact hroom

/-- A loop with two branches inside, emitted at level one behind a text. -/
theorem run_commandsAll_loop :
    let ss : List Statement := [.enclosed (.whileOpen "more")
      [.enclosed (.ifOpen "a") [.leaf (.returnLine "1")]
        (.next .elseOpen [.guarded (some "lock (b)") []] .done)] .done]
    let w : Writer := ⟨1, .tab, ⟨⟨8, "x\n"⟩, 8, false⟩, .standard⟩
    let r := Command.runAll (Statement.commandsAll ss) "" w
    let text := "x\n\twhile (more)\n\t\x7b\n\t\tif (a)\n\t\t\x7b\n\t\t\treturn 1;\n\t\t\x7d\n" ++
      "\t\telse\n\t\t\x7b\n\t\t\tlock (b)\n\t\t\t\x7b\n\t\t\t\x7d\n\t\t\x7d\n\t\x7d\n"
    w.Sound ∧ w.level + Statement.nestingAll ss < levelLimit ∧
      r.stop = none ∧ r.writer.text = text := by
  intro ss w r text
  have hw : w.Sound := ⟨⟨by decide, by decide, by decide⟩, Pool.sound_withLimits _ _⟩
  have hn : w.level + Statement.nestingAll ss < levelLimit := by decide
  have hrun := run_commandsAll ss "" w hw hn
  rw [show w.text ++ Statement.layoutAll w.indent.unit w.level ss = text by decide +kernel] at hrun
  rcases hrun with ⟨hs, _, ht⟩ | hroom
  · exact ⟨hw, hn, hs, ht⟩
  · exact absurd hroom.long (by decide)

end GeneratorKit.Emission
