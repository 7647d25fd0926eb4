import GeneratorKit.Proofs.Diagnostics.CacheHistory
import GeneratorKit.Proofs.Diagnostics.Serialization
import Mathlib.Data.List.Forall2

set_option autoImplicit false

/-!
# How paths are spelled

Equal outcomes are the same except for the spelling of their paths (`Outcome.respelled_of_beq`), and a displayed
diagnostic and a serialized outcome show the spelling. So an outcome that a cache calls unchanged can look different
from the one that is kept, but nowhere else than in its paths (`Cache.recalls_of_unchanged`).
-/
namespace GeneratorKit.Diagnostics
variable {α : Type}

section Respelled

/-- The same location but for another spelling of its path. -/
structure Location.Respelled (l m : Location) : Prop where
  path : (l.path == m.path) = true
  textSpan : l.textSpan = m.textSpan
  lineSpan : l.lineSpan = m.lineSpan

theorem Location.respelled_of_beq {l m : Location} (h : (l == m) = true) : l.Respelled m := by
  have hparts : ((l.path, l.textSpan, l.lineSpan) == (m.path, m.textSpan, m.lineSpan)) = true := h
  obtain ⟨hpath, hspans⟩ := prod_beq_iff.1 hparts
  obtain ⟨htext, hline⟩ := prod_beq_iff.1 hspans
  exact ⟨hpath, eq_of_beq htext, eq_of_beq hline⟩

/-- The same record but for another spelling of its path. -/
structure Record.Respelled (r s : Record) : Prop where
  descriptor : r.descriptor = s.descriptor
  location : Option.Rel Location.Respelled r.location s.location
  argument : r.argument = s.argument
  properties : r.properties = s.properties

theorem Record.respelled_of_beq {r s : Record} (h : (r == s) = true) : r.Respelled s := by
  obtain ⟨hdescriptor, hlocation, hargument, hproperties⟩ := (beq_iff r s).1 h
  refine ⟨hdescriptor, ?_, hargument, hproperties⟩
  cases hr : r.location <;> cases hs : s.location <;> rw [hr, hs] at hlocation
  · exact .none
  · cases hlocation
  · cases hlocation
  · exact .some (Location.respelled_of_beq hlocation)

theorem Record.Respelled.location_cases {r s : Record} (h : r.Respelled s) :
    (r.location = none ∧ s.location = none) ∨
      ∃ l m, r.location = some l ∧ s.location = some m ∧ l.Respelled m := by
  have hl := h.location
  generalize r.location = x at hl ⊢
  generalize s.location = y at hl ⊢
  cases hl with
  | none => exact .inl ⟨rfl, rfl⟩
  | some hl => exact .inr ⟨_, _, rfl, rfl, hl⟩

theorem forall₂_respelled_of_beq {rs ss : List Record} (h : (rs == ss) = true) :
    List.Forall₂ Record.Respelled rs ss := by
  induction rs generalizing ss with
  | nil =>
    cases ss with
    | nil => exact .nil
    | cons s ss => cases h
  | cons r rs ih =>
    cases ss with
    | nil => cases h
    | cons s ss =>
      rw [List.cons_beq_cons, Bool.and_eq_true] at h
      exact .cons (Record.respelled_of_beq h.1) (ih h.2)

/-- The same outcome but for other spellings of its paths. -/
structure Outcome.Respelled (o p : Outcome α) : Prop where
  value : o.value = p.value
  diagnostics : List.Forall₂ Record.Respelled o.diagnostics p.diagnostics

theorem Outcome.respelled_of_beq [BEq α] [LawfulBEq α] {o p : Outcome α} (h : (o == p) = true) : o.Respelled p := by
  have hparts : ((o.value, o.diagnostics) == (p.value, p.diagnostics)) = true := h
  obtain ⟨hvalue, hdiagnostics⟩ := prod_beq_iff.1 hparts
  exact ⟨eq_of_beq hvalue, forall₂_respelled_of_beq hdiagnostics⟩

end Respelled

section Spelling

/-- The path of a record as it is spelled. -/
def Record.spelling (r : Record) : Option String := r.location.map (·.path.text)

def Outcome.spellings (o : Outcome α) : List (Option String) := o.diagnostics.map Record.spelling

theorem Location.Respelled.eq_of_text {l m : Location} (h : l.Respelled m) (ht : l.path.text = m.path.text) :
    l = m := by
  obtain ⟨⟨s⟩, t, u⟩ := l
  obtain ⟨_, ht', hl⟩ := h
  subst ht ht' hl
  rfl

theorem Record.Respelled.eq_of_spelling {r s : Record} (h : r.Respelled s) (hs : r.spelling = s.spelling) :
    r = s := by
  obtain ⟨d, l, a, p⟩ := r
  obtain ⟨e, m, b, q⟩ := s
  obtain ⟨rfl, hl, rfl, rfl⟩ := h
  cases hl with
  | none => rfl
  | some hl => rw [hl.eq_of_text (Option.some_inj.1 hs)]

theorem eq_of_spellings {rs ss : List Record} (h : List.Forall₂ Record.Respelled rs ss)
    (hs : rs.map Record.spelling = ss.map Record.spelling) : rs = ss := by
  induction h with
  | nil => rfl
  | cons h _ ih =>
    obtain ⟨hhead, htail⟩ := List.cons.inj hs
    rw [h.eq_of_spelling hhead, ih htail]

theorem Outcome.Respelled.eq_of_spellings {o p : Outcome α} (h : o.Respelled p) (hs : o.spellings = p.spellings) :
    o = p := by
  obtain ⟨v, rs⟩ := o
  obtain ⟨w, ss⟩ := p
  have hv : v = w := h.value
  have hd : rs = ss := Diagnostics.eq_of_spellings h.diagnostics hs
  rw [hv, hd]

end Spelling

section Display

def Record.display (r : Record) : Except Fault String := (Notice.of r).display

/-- A position that can be displayed, where it counts from one on. -/
def Position.Displayable (p : Position) : Prop := p.line.toNat < 0xFFFFFFFF ∧ p.character.toNat < 0xFFFFFFFF

def Record.Displayable (r : Record) : Prop := ∀ l ∈ r.location, l.lineSpan.start.Displayable

/-- What is displayed of a location behind its path. -/
def Location.pointer (l : Location) : String :=
  "(" ++ (Text.decimal (l.lineSpan.start.line.toNat + 1) ++ "," ++
    Text.decimal (l.lineSpan.start.character.toNat + 1)) ++ ")"

theorem oneBased_of_lt {n : UInt32} (h : n.toNat < 0xFFFFFFFF) : oneBased n = .ok (Text.decimal (n.toNat + 1)) := by
  rw [oneBased, if_pos (by omega)]

theorem Location.display_eq {l : Location} (h : l.lineSpan.start.Displayable) :
    l.display = .ok (l.path.text ++ l.pointer) := by
  rw [display, Position.display, oneBased_of_lt h.1, oneBased_of_lt h.2]
  simp [pointer, String.append_assoc, bind, Except.bind, pure, Except.pure]

/-- What is displayed of a record behind its path. -/
def Record.tail (r : Record) : String :=
  (r.location.elim "" fun l => l.pointer ++ ": ") ++ r.severity.text ++ " " ++ r.id ++ ": " ++ r.message

/-- A record is displayed as its path, if it has one, and what does not depend on the path. -/
theorem Record.display_eq {r : Record} (h : r.Displayable) : r.display = .ok (r.spelling.getD "" ++ r.tail) := by
  rw [display, Notice.display]
  cases hl : r.location with
  | none => simp [Notice.of, spelling, tail, hl, bind, Except.bind, pure, Except.pure]
  | some l =>
    simp [Notice.of, spelling, tail, hl, Location.display_eq (h l hl), Except.map, bind, Except.bind, pure,
      Except.pure, String.append_assoc]

variable {r s : Record}

theorem Record.Respelled.displayable (h : r.Respelled s) (hs : s.Displayable) : r.Displayable := by
  intro l hl
  rcases h.location_cases with ⟨hr, _⟩ | ⟨l', m, hr, hm, hlm⟩
  · rw [hr] at hl
    cases hl
  · obtain rfl : l' = l := Option.some_inj.1 (hr.symm.trans hl)
    rw [hlm.lineSpan]
    exact hs m hm

theorem Record.Respelled.tail_eq (h : r.Respelled s) : r.tail = s.tail := by
  have hplace : r.location.elim "" (fun l => l.pointer ++ ": ") = s.location.elim "" (fun l => l.pointer ++ ": ") := by
    rcases h.location_cases with ⟨hr, hs⟩ | ⟨l, m, hr, hs, hlm⟩
    · rw [hr, hs]
    · rw [hr, hs, Option.elim_some, Option.elim_some, Location.pointer, Location.pointer, hlm.lineSpan]
  rw [tail, tail, hplace, severity, severity, id, id, message, message, h.descriptor, h.argument]

theorem Record.Respelled.displays_alike_iff (h : r.Respelled s) (hs : s.Displayable) :
    r.display = s.display ↔ r.spelling = s.spelling := by
  refine ⟨fun hd => ?_, fun hp => congrArg Record.display (h.eq_of_spelling hp)⟩
  rw [Record.display_eq (h.displayable hs), Record.display_eq hs, h.tail_eq] at hd
  have hpath : r.spelling.getD "" = s.spelling.getD "" :=
    (String.append_left_inj s.tail).1 (Except.ok.inj hd)
  rcases h.location_cases with ⟨hr, hs⟩ | ⟨l, m, hr, hs, _⟩
  · rw [spelling, spelling, hr, hs]
  · rw [spelling, spelling, hr, hs] at hpath ⊢
    exact congrArg some hpath

variable {rs ss : List Record}

theorem map_display_eq_iff (h : List.Forall₂ Record.Respelled rs ss) (hs : ∀ s ∈ ss, s.Displayable) :
    rs.map Record.display = ss.map Record.display ↔ rs.map Record.spelling = ss.map Record.spelling := by
  induction h with
  | nil => exact iff_of_true rfl rfl
  | cons h _ ih =>
    rw [List.map_cons, List.map_cons, List.map_cons, List.map_cons, List.cons_eq_cons, List.cons_eq_cons,
      h.displays_alike_iff (hs _ List.mem_cons_self), ih fun s hm => hs s (List.mem_cons_of_mem _ hm)]

/-- Texts that are the same behind the paths with which they begin. -/
def ShowAlike (r s : Record) : Prop :=
  ∃ rest, r.display = .ok (r.spelling.getD "" ++ rest) ∧ s.display = .ok (s.spelling.getD "" ++ rest)

theorem Record.Respelled.showAlike (h : r.Respelled s) (hs : s.Displayable) : ShowAlike r s :=
  ⟨s.tail, h.tail_eq ▸ Record.display_eq (h.displayable hs), Record.display_eq hs⟩

theorem forall₂_showAlike (h : List.Forall₂ Record.Respelled rs ss) (hs : ∀ s ∈ ss, s.Displayable) :
    List.Forall₂ ShowAlike rs ss := by
  induction h with
  | nil => exact .nil
  | cons h _ ih =>
    exact .cons (h.showAlike (hs _ List.mem_cons_self)) (ih fun s hm => hs s (List.mem_cons_of_mem _ hm))

end Display

namespace Outcome

/-- The text of an outcome tells all of it, down to the spelling of its paths. -/
theorem text_eq_iff {o p : Outcome String} :
    (o.toJson .ofString).text = (p.toJson .ofString).text ↔ o = p := by
  refine ⟨fun h => ?_, fun h => congrArg (fun o => (o.toJson .ofString).text) h⟩
  have hdecode (o : Outcome String) : ofJson Json.decodeString 6 (o.toJson .ofString) = some o :=
    ofJson_toJson 0 (fun _ => Json.noConfusion) (fun _ => rfl) o
  have hjson : o.toJson .ofString = p.toJson .ofString :=
    Option.some_inj.1 ((Json.read_text _).symm.trans (h ▸ Json.read_text _))
  exact Option.some_inj.1 ((hdecode o).symm.trans (hjson ▸ hdecode p))

end Outcome

namespace Cache
variable {κ : Type} [DecidableEq κ]

/-- What is shown of an outcome that is kept, next to one that is called unchanged. -/
structure Recalls (kept o : Outcome String) : Prop where
  respelled : kept.Respelled o
  texts : (∀ r ∈ o.diagnostics, r.Displayable) → List.Forall₂ ShowAlike kept.diagnostics o.diagnostics
  same_texts : (∀ r ∈ o.diagnostics, r.Displayable) →
    (kept.diagnostics.map Record.display = o.diagnostics.map Record.display ↔ kept.spellings = o.spellings)
  same_json : (kept.toJson .ofString).text = (o.toJson .ofString).text ↔ kept.spellings = o.spellings

theorem recalls_of_respelled {kept o : Outcome String} (h : kept.Respelled o) : Recalls kept o where
  respelled := h
  texts := forall₂_showAlike h.diagnostics
  same_texts := map_display_eq_iff h.diagnostics
  same_json := Outcome.text_eq_iff.trans ⟨fun he => he ▸ rfl, h.eq_of_spellings⟩

/-- Where a cache calls an outcome unchanged, it stays as it is, and the outcome that it keeps has the same value and
the same diagnostics but for how their paths are spelled. They are displayed alike behind their paths, and they are
displayed and serialized as the same texts exactly when their paths are spelled the same. -/
theorem recalls_of_unchanged (es : List (Change κ String)) (k : κ) (o : Outcome String)
    (h : ((replay es).update k o).1 = .unchanged) : ∃ kept, (replay es).get? k = some kept ∧
      ((replay es).update k o).2 = replay es ∧ Recalls kept o := by
  rcases update_cases (replay es) k o with ⟨_, he⟩ | ⟨kept, hk, hb, he⟩ | ⟨_, _, _, he⟩
  · rw [he] at h
    cases h
  · rw [he]
    exact ⟨kept, hk, rfl, recalls_of_respelled (Outcome.respelled_of_beq hb)⟩
  · rw [he] at h
    cases h

/-- The outcome that is called unchanged takes the place of another one first. -/
theorem recalls_of_unchanged_replaced :
    let noted (path : String) : Outcome String :=
      ⟨some "class A", [(Record.make (.make "G1" "t" "'\x7b0\x7d' is old" "Usage" .warning)).withArgument "A",
        (Record.make (.make "G2" "t" "m" "Usage" .error)).atLocation ⟨⟨path⟩, ⟨3, 4⟩, ⟨⟨0, 3⟩, ⟨0, 7⟩⟩⟩]⟩
    let es : List (Change String String) := [.update "a" (.ok "class A"), .update "a" (noted "src/a.cs")]
    ((replay es).update "a" (noted "src/./a.cs/")).1 = .unchanged ∧ ∃ kept, (replay es).get? "a" = some kept ∧
      ((replay es).update "a" (noted "src/./a.cs/")).2 = replay es ∧ Recalls kept (noted "src/./a.cs/") := by
  intro noted es
  have hu : ((replay es).update "a" (noted "src/./a.cs/")).1 = .unchanged := by decide +kernel
  exact ⟨hu, recalls_of_unchanged es "a" (noted "src/./a.cs/") hu⟩

/-- An outcome that is called unchanged can be displayed and serialized in another way than the one that is kept. -/
theorem unchanged_displays_otherwise :
    let noted (path : String) : Outcome String :=
      ⟨some "class A", [(Record.make (.make "G1" "t" "m" "Usage" .warning)).atLocation
        ⟨⟨path⟩, ⟨3, 4⟩, ⟨⟨0, 3⟩, ⟨0, 7⟩⟩⟩]⟩
    let c : Cache String String := replay [.update "a" (noted "src/a.cs")]
    (c.update "a" (noted "src//a.cs")).1 = .unchanged ∧ c.get? "a" = some (noted "src/a.cs") ∧
      (noted "src/a.cs").diagnostics.map Record.display = [.ok "src/a.cs(1,4): warning G1: m"] ∧
      (noted "src//a.cs").diagnostics.map Record.display = [.ok "src//a.cs(1,4): warning G1: m"] ∧
      ((noted "src/a.cs").toJson .ofString).text ≠ ((noted "src//a.cs").toJson .ofString).text := by
  intro noted c
  refine ⟨by decide +kernel, rfl, by decide +kernel, by decide +kernel, ?_⟩
  rw [Ne, Outcome.text_eq_iff]
  intro h
  have hs : (noted "src/a.cs").spellings = (noted "src//a.cs").spellings := congrArg Outcome.spellings h
  exact absurd hs (by decide)

end Cache

end GeneratorKit.Diagnostics
