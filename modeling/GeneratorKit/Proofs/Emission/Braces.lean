import GeneratorKit.Proofs.Emission.Session
import GeneratorKit.Proofs.Emission.Statement
import GeneratorKit.Proofs.Emission.Writer

set_option autoImplicit false

/-!
# Braces

Statements, openings and closings in any order, well nested or not. The level of the writer is the number
of braces that are open in its text (`Braced.step`, `run_agrees`).
-/
namespace GeneratorKit.Emission
open Code

def openBrace : Char := '\x7b'

def closeBrace : Char := '\x7d'

/-- A text whose braces lead from one depth to another and never below the ground. -/
structure Climbs (before : Nat) (s : String) (after : Nat) : Prop where
  count : before + s.toList.count openBrace = after + s.toList.count closeBrace
  above : ∀ cs, cs <+: s.toList → cs.count closeBrace ≤ before + cs.count openBrace

def Braceless (s : String) : Prop := openBrace ∉ s.toList ∧ closeBrace ∉ s.toList

instance (s : String) : Decidable (Braceless s) :=
  inferInstanceAs (Decidable (openBrace ∉ s.toList ∧ closeBrace ∉ s.toList))

theorem Braceless.climbs {s : String} (h : Braceless s) (depth : Nat) : Climbs depth s depth := by
  obtain ⟨ho, hc⟩ := h
  constructor
  · rw [List.count_eq_zero.2 ho, List.count_eq_zero.2 hc]
  · intro cs hcs
    rw [List.count_eq_zero.2 fun hm => hc (hcs.subset hm)]
    exact Nat.zero_le _

theorem climbs_openBrace (depth : Nat) : Climbs depth "\x7b" (depth + 1) := by
  refine ⟨rfl, fun cs hcs => ?_⟩
  change cs <+: [openBrace] at hcs
  rcases List.prefix_cons_iff.1 hcs with rfl | ⟨ds, rfl, hds⟩
  · simp
  · rw [List.prefix_nil.1 hds]
    simp [openBrace, closeBrace]

theorem climbs_closeBrace (depth : Nat) : Climbs (depth + 1) "\x7d" depth := by
  refine ⟨rfl, fun cs hcs => ?_⟩
  change cs <+: [closeBrace] at hcs
  rcases List.prefix_cons_iff.1 hcs with rfl | ⟨ds, rfl, hds⟩
  · simp
  · rw [List.prefix_nil.1 hds]
    simp [openBrace, closeBrace]

theorem Climbs.append {before inside after : Nat} {s t : String} (hs : Climbs before s inside)
    (ht : Climbs inside t after) : Climbs before (s ++ t) after := by
  have hsc := hs.count
  constructor
  · have htc := ht.count
    rw [String.toList_append, List.count_append, List.count_append]
    omega
  · intro cs hcs
    rw [String.toList_append] at hcs
    rcases List.prefix_or_prefix_of_prefix hcs (List.prefix_append s.toList t.toList) with hp | ⟨ds, rfl⟩
    · exact hs.above cs hp
    · have hds := ht.above ds ((List.prefix_append_right_inj _).1 hcs)
      rw [List.count_append, List.count_append]
      omega

theorem climbs_join {depth : Nat} {parts : List String} (h : ∀ s ∈ parts, Climbs depth s depth) :
    Climbs depth (String.join parts) depth := by
  induction parts with
  | nil => exact Braceless.climbs (by decide) depth
  | cons s ss ih =>
    rw [String.join_cons]
    exact (h s (by simp)).append (ih fun t ht => h t (by simp [ht]))

theorem Indent.braceless_unit (i : Indent) : Braceless i.unit := by
  cases i with
  | spaces width => simp [Braceless, unit, openBrace, closeBrace]
  | tab => decide

theorem Climbs.row {before after : Nat} {s : String} (h : Climbs before s after) (i : Indent)
    (level : Nat) : Climbs before (row i.unit level s) after := by
  have hi : Climbs before (String.join (List.replicate level i.unit)) before :=
    climbs_join fun t ht => List.eq_of_mem_replicate ht ▸ i.braceless_unit.climbs before
  exact (hi.append h).append (Braceless.climbs (by decide) after)

def Plain (arguments : List String) : Prop := ∀ s ∈ arguments, Braceless s

theorem climbs_accessors (depth : Nat) : Climbs depth Leaf.accessors depth := by
  have hs : Climbs depth " " depth := Braceless.climbs (by decide) depth
  have hi : Climbs (depth + 1) " get; set; " (depth + 1) := Braceless.climbs (by decide) (depth + 1)
  exact ((hs.append (climbs_openBrace depth)).append hi).append (climbs_closeBrace depth)

theorem braceless_of_mem_phrases : ∀ s ∈ phrases, Braceless s ∨ s = Leaf.accessors := by decide

/-- What is composed of braceless texts and phrases comes back to its depth: only the accessors of a property
have braces, and theirs are paired. -/
theorem climbs_of_composed {arguments parts : List String} (h : Plain arguments)
    (hp : Composed arguments parts) (depth : Nat) : Climbs depth (String.join parts) depth := by
  refine climbs_join fun s hs => ?_
  rcases hp s hs with ha | hs
  · exact (h s ha).climbs depth
  · rcases braceless_of_mem_phrases s hs with hb | rfl
    · exact hb.climbs depth
    · exact climbs_accessors depth

theorem Leaf.climbs {l : Leaf} (h : Plain l.arguments) (depth : Nat) : Climbs depth l.text depth :=
  climbs_of_composed h l.composed depth

theorem Opening.climbs {o : Opening} (h : Plain o.arguments) (i : Indent) (level depth : Nat) :
    Climbs depth (headerRow i.unit level o.header? ++ openRow i.unit level) (depth + 1) := by
  refine Climbs.append ?_ ((climbs_openBrace depth).row i level)
  rcases o.exists_parts with ⟨_, hn⟩ | ⟨parts, _, hs, hp⟩
  · rw [hn]
    exact (show Braceless "" by decide).climbs depth
  · rw [hs]
    exact (climbs_of_composed h hp depth).row i level

theorem Turn.climbs {t : Turn} (h : Plain t.arguments) (i : Indent) (level depth : Nat) :
    Climbs (depth + 1)
      (closeRow i.unit level ++ row i.unit level t.header ++ openRow i.unit level) (depth + 1) := by
  obtain ⟨parts, _, hs, hp⟩ := t.exists_parts
  have hheader : Climbs depth t.header depth := hs ▸ climbs_of_composed h hp depth
  exact (((climbs_closeBrace depth).row i level).append (hheader.row i level)).append
    ((climbs_openBrace depth).row i level)

inductive Call where
  | leaf (l : Leaf)
  | opening (o : Opening)
  | turn (t : Turn)
  | close
  /-- Closes a scope and answers with the refusal. -/
  | tryClose

namespace Call

def arguments : Call → List String
  | .leaf l => l.arguments
  | .opening o => o.arguments
  | .turn t => t.arguments
  | .close | .tryClose => []

def edits : Call → List Edit
  | .leaf l => l.edits
  | .opening o => o.edits
  | .turn t => t.edits
  | .close | .tryClose => closeScope

def task : Call → Task
  | .tryClose => .command (.attempt closeScope)
  | c => .command (.emit c.edits)

/-- Whether a call needs an open scope. -/
def closes : Call → Bool
  | .leaf _ | .opening _ => false
  | .turn _ | .close | .tryClose => true

/-- The answer when there is no open scope. -/
def refusal : Call → Answer
  | .tryClose => .reply (.refused .unbalancedScope) []
  | _ => .reply (.stopped (.refusal .unbalancedScope)) []

def handled : Call → Bool
  | .tryClose => true
  | .leaf _ | .opening _ | .turn _ | .close => false

theorem task_eq (c : Call) : c.task = .ofEdits c.handled c.edits := by cases c <;> rfl

theorem refusal_eq (c : Call) :
    c.refusal = .ofStop c.handled (some (.refusal .unbalancedScope)) := by cases c <;> rfl

theorem edits_grow (c : Call) : ∀ e ∈ c.edits, e.grows = true := by
  cases c with
  | leaf l => exact l.edits_grow
  | opening o => exact o.edits_grow
  | turn t => exact t.edits_grow
  | close | tryClose => exact closeScope_grows

theorem exists_rise {c : Call} (h : c.closes = true) : ∃ es, c.edits = .rise :: es := by
  cases c with
  | leaf l => cases h
  | opening o => cases h
  | turn t => cases t <;> exact ⟨_, rfl⟩
  | close | tryClose => exact ⟨_, rfl⟩

/-- With a scope to close if it needs one, a call appends text whose braces lead to the new level. -/
theorem run_edits {c : Call} (h : Plain c.arguments) (i : Indent) (d : Draft)
    (hl : d.level + 1 < levelLimit) (hc : c.closes = true → 0 < d.level) :
    ∃ level rows, d.run i.unit c.edits = (⟨level, d.text ++ rows⟩, none) ∧
      Climbs d.level rows level := by
  cases c with
  | leaf l => exact ⟨d.level, _, l.run_edits i.unit d, (l.climbs h d.level).row i d.level⟩
  | opening o =>
    refine ⟨d.level + 1, _, ?_, o.climbs h i d.level d.level⟩
    rw [← String.append_assoc]
    exact o.run_edits i.unit d hl
  | turn t =>
    obtain ⟨n, hn⟩ : ∃ n, d.level = n + 1 := Nat.exists_eq_add_one.2 (hc rfl)
    rw [show d = ⟨n + 1, d.text⟩ from congrArg (Draft.mk · d.text) hn]
    refine ⟨n + 1, _, ?_, t.climbs h i n n⟩
    rw [← String.append_assoc, ← String.append_assoc]
    exact t.run_edits i.unit n d.text (by omega)
  | close | tryClose =>
    obtain ⟨n, hn⟩ : ∃ n, d.level = n + 1 := Nat.exists_eq_add_one.2 (hc rfl)
    rw [show d = ⟨n + 1, d.text⟩ from congrArg (Draft.mk · d.text) hn]
    exact ⟨n, _, run_closeScope i.unit n d.text, (climbs_closeBrace n).row i n⟩

end Call

theorem Climbs.le_size {s : String} {n : Nat} (h : Climbs 0 s n) : n ≤ s.utf8ByteSize := by
  have hc := h.count
  have ho := List.count_le_length (a := openBrace) (l := s.toList)
  have hb := Text.length_le_bytes s.toList
  rw [Text.bytes_toList] at hb
  omega

/-- A call that takes the text past half of what can be addressed and finds no room for it. -/
def Overruns (s : Session) (c : Call) : Prop :=
  s.FindsNoRoom c.handled c.edits (s.writer.draft.run s.writer.indent.unit c.edits).1.size

/-- A live session whose writer is at the level of the braces that are open in its text. -/
structure Braced (s : Session) : Prop where
  live : s.live = true
  sound : s.Sound
  climbs : Climbs 0 s.writer.text s.writer.level

namespace Braced

variable {s : Session}

theorem level_lt (h : Braced s) : s.writer.level + 1 < levelLimit := by
  have hl : s.writer.level ≤ s.writer.buffer.size := h.climbs.le_size
  have hs := h.sound.buffer.size_le
  have hc := h.sound.buffer.capacity_le
  have ha := h.sound.buffer.addressable
  unfold Storage.addressLimit at ha
  unfold levelLimit
  omega

theorem start {indent : Indent} {capacity : Nat} {pool : Storage.Pool} (hp : pool.Sound)
    (h : Session.start indent capacity pool = .ok s) : Braced s := by
  have hs := Session.start_sound hp h
  obtain ⟨b, hb, rfl⟩ := Session.start_eq h
  have ht : b.text = "" := congrArg Storage.View.text (Storage.Buffer.sound_withCapacity hb).2
  refine ⟨rfl, hs, ?_⟩
  change Climbs 0 b.text 0
  rw [ht]
  exact (show Braceless "" by decide).climbs 0

/-- Without an open scope a call that needs one is refused, and the session is as before. -/
theorem step_of_zero (h : Braced s) {c : Call} (hc : c.closes = true) (hz : s.writer.level = 0) :
    s.step c.task = (s, c.refusal) := by
  obtain ⟨es, he⟩ := Call.exists_rise hc
  have hr : s.writer.run c.edits = (s.writer, some (.refusal .unbalancedScope)) := by
    rw [he, Writer.run_rise_zero hz]
  rw [c.task_eq, Session.step_ofEdits h.live, hr, c.refusal_eq]

/-- A call that has the scope it needs is done, or there is no room for it. -/
theorem step_cases (h : Braced s) {c : Call} (hp : Plain c.arguments)
    (hc : c.closes = true → 0 < s.writer.level) :
    ((s.step c.task).2 = .reply .done [] ∧ Braced (s.step c.task).1) ∨ Overruns s c := by
  have ht := Writer.run_tracks_of_grows h.sound c.edits_grow
  obtain ⟨level, rows, hd, hrows⟩ := c.run_edits hp s.writer.indent s.writer.draft h.level_lt hc
  rw [Overruns, hd]
  rw [hd] at ht
  rcases hr : s.writer.run c.edits with ⟨w, _ | stop⟩
  · rw [hr] at ht
    have hw : w.draft = ⟨level, s.writer.text ++ rows⟩ := congrArg Prod.fst ht.eq_of_none.symm
    rw [c.task_eq, Session.step_ofEdits h.live, hr]
    refine .inl ⟨rfl, h.live, ht.sound, ?_⟩
    rw [show w.text = _ from congrArg Draft.text hw, show w.level = _ from congrArg Draft.level hw]
    exact h.climbs.append hrows
  · rw [hr] at ht
    refine .inr (Session.findsNoRoom_of_noRoom h.live c.handled ?_)
    rw [hr]
    exact ht.noRoom_of_some

theorem step (h : Braced s) {c : Call} (hp : Plain c.arguments) :
    Braced (s.step c.task).1 ∨ Overruns s c := by
  by_cases hc : c.closes = true ∧ s.writer.level = 0
  · rw [h.step_of_zero hc.1 hc.2]
    exact .inl h
  · have hpos : c.closes = true → 0 < s.writer.level := fun hcl =>
      Nat.pos_of_ne_zero fun hz => hc ⟨hcl, hz⟩
    exact (h.step_cases hp hpos).imp_left And.right

/-- Any calls keep the level and the braces in agreement, up to the first that finds no room. -/
theorem run (h : Braced s) {calls : List Call} (hp : ∀ c ∈ calls, Plain c.arguments) :
    Braced (s.run (calls.map Call.task)).1 ∨ ∃ before c after, calls = before ++ c :: after ∧
      Braced (s.run (before.map Call.task)).1 ∧ Overruns (s.run (before.map Call.task)).1 c := by
  induction calls generalizing s with
  | nil => exact .inl h
  | cons c cs ih =>
    rcases h.step (hp c (by simp)) with hb | ho
    · rcases ih hb fun d hd => hp d (by simp [hd]) with hr | ⟨before, d, after, rfl, hr, ho⟩
      · exact .inl hr
      · exact .inr ⟨c :: before, d, after, rfl, hr, ho⟩
    · exact .inr ⟨[], c, cs, rfl, h, ho⟩

end Braced

def opened (s : String) : Nat := s.toList.count openBrace

def closed (s : String) : Nat := s.toList.count closeBrace

/-- What the braces of a text say about the session that wrote it. -/
structure Session.Agrees (s : Session) : Prop where
  level : opened s.writer.text = closed s.writer.text + s.writer.level
  above : ∀ t u, s.writer.text = t ++ u → closed t ≤ opened t
  refuses : ∀ c : Call, c.closes = true → opened s.writer.text = closed s.writer.text →
    s.step c.task = (s, c.refusal)
  proceeds : ∀ c : Call, Plain c.arguments →
    (c.closes = true → opened s.writer.text ≠ closed s.writer.text) →
    (s.step c.task).2 = .reply .done [] ∨ Overruns s c
  build : (s.step .build).2 = if opened s.writer.text = closed s.writer.text then
      .taken s.writer.text
    else .reply (.refused (.unclosedScopes (opened s.writer.text - closed s.writer.text))) []

theorem Braced.agrees {s : Session} (h : Braced s) : s.Agrees := by
  have hcount : 0 + opened s.writer.text = s.writer.level + closed s.writer.text := h.climbs.count
  constructor
  · omega
  · intro t u htu
    have ha := h.climbs.above t.toList ⟨u.toList, by rw [htu, String.toList_append]⟩
    rw [Nat.zero_add] at ha
    exact ha
  · intro c hc hz
    exact h.step_of_zero hc (by omega)
  · intro c hp hc
    have hpos : c.closes = true → 0 < s.writer.level := by
      intro hcl
      have hne := hc hcl
      omega
    exact (h.step_cases hp hpos).imp_left And.left
  · rw [Session.step, if_pos h.live, Writer.build]
    by_cases hz : s.writer.level = 0
    · rw [if_pos hz, if_pos (by omega)]
    · rw [if_neg hz, if_neg (by omega),
        show s.writer.level = opened s.writer.text - closed s.writer.text by omega]

/-- On a fresh writer, calls in any order, with refused ones among them, keep the level and the braces of
the text in agreement, up to the first that takes the text past half of what can be addressed and finds
no room. -/
theorem run_agrees {indent : Indent} {capacity : Nat} {pool : Storage.Pool} {s : Session}
    (hp : pool.Sound) (hs : Session.start indent capacity pool = .ok s) {calls : List Call}
    (hc : ∀ c ∈ calls, Plain c.arguments) :
    (s.run (calls.map Call.task)).1.Agrees ∨ ∃ before c after, calls = before ++ c :: after ∧
      (s.run (before.map Call.task)).1.Agrees ∧ Overruns (s.run (before.map Call.task)).1 c := by
  rcases (Braced.start hp hs).run hc with hr | ⟨before, c, after, he, hr, ho⟩
  · exact .inl hr.agrees
  · exact .inr ⟨before, c, after, he, hr.agrees, ho⟩

/-- A scope too many is closed before and after a scope with an `else` and a property inside. -/
theorem run_agrees_property :
    let s : Session := ⟨.tab, 4, .make .tab ⟨⟨4, ""⟩, 4, false⟩ .standard, true⟩
    let calls : List Call := [.close, .opening .bare, .turn .elseOpen,
      .leaf (.property (.literal "T") "P" none), .tryClose, .tryClose]
    let r := s.run (calls.map Call.task)
    r.1.Agrees ∧ r.2 = [Call.close.refusal, .reply .done [], .reply .done [], .reply .done [],
      .reply .done [], Call.tryClose.refusal] := by
  intro s calls r
  have hs : Session.start .tab 4 .standard = .ok s := rfl
  have hc : ∀ c ∈ calls, Plain c.arguments := by
    simp +decide [calls, Call.arguments, Turn.arguments, Opening.arguments, Leaf.arguments, Plain,
      TypeName.text]
  have hanswers : r.2 = [Call.close.refusal, .reply .done [], .reply .done [], .reply .done [],
      .reply .done [], Call.tryClose.refusal] := by decide +kernel
  rcases run_agrees (Storage.Pool.sound_withLimits _ _) hs hc with hr | ⟨before, c, after, he, _, ho⟩
  · exact ⟨hr, hanswers⟩
  · have hm := ho.mem_answers (after.map Call.task)
    rw [← c.task_eq, ← List.map_cons, ← List.map_append, ← he,
      show (s.run (calls.map Call.task)).2 = r.2 from rfl, hanswers] at hm
    simp [exhausted, Call.refusal] at hm

end GeneratorKit.Emission
