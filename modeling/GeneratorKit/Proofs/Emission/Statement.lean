import GeneratorKit.Emission.Command
import GeneratorKit.Emission.Declarations
import GeneratorKit.Proofs.Emission.Draft

set_option autoImplicit false

/-!
# Statements

Statements of one line and what opens and closes scopes, each with the rows that it writes. A row is an
indented line, made of the texts that a caller supplies and of the phrases of the language; `run_lineOf` and the
lemmas after it say which rows the edits add to a draft.
-/
namespace GeneratorKit.Emission
open Code

def row (unit : String) (level : Nat) (s : String) : String :=
  String.join (List.replicate level unit) ++ s ++ "\n"

inductive Leaf where
  | line (s : String)
  | comment (s : String)
  | usingLine (name : String)
  | namespaceLine (name : String)
  | disableWarning (id : String)
  | autoGenerated
  | enableNullable
  | returnLine (e : String)
  | yieldReturn (e : String)
  | field (t : TypeName) (name : String) (value : Option String)
  | fieldWith (a : Accessibility) (mapped : a ≠ .notApplicable) (t : TypeName) (name : String)
    (value : Option String)
  | property (t : TypeName) (name : String) (value : Option String)
  | propertyWith (a : Accessibility) (mapped : a ≠ .notApplicable) (t : TypeName) (name : String)
    (value : Option String)
  | localVariable (t : TypeName) (name : String) (value : Option String)
  | var (name : String) (value : Option String)

namespace Leaf

def edits : Leaf → List Edit
  | .line s => Emission.line s
  | .comment s => Emission.comment s
  | .usingLine name => Emission.usingLine name
  | .namespaceLine name => Emission.namespaceLine name
  | .disableWarning id => Emission.disableWarning id
  | .autoGenerated => Emission.autoGenerated
  | .enableNullable => Emission.enableNullable
  | .returnLine e => Emission.returnLine e
  | .yieldReturn e => Emission.yieldReturn e
  | .field t name value => Emission.field t name value
  | .fieldWith a _ t name value => Emission.fieldWith a t name value
  | .property t name value => Emission.property t name value
  | .propertyWith a _ t name value => Emission.propertyWith a t name value
  | .localVariable t name value => Emission.localVariable t name value
  | .var name value => Emission.var name value

def assigned : Option String → List String
  | some value => [" = ", value]
  | none => []

/-- What follows the accessors of a property, which end a statement by themselves. -/
def assignedProperty : Option String → List String
  | some value => [" = ", value, ";"]
  | none => []

def accessors : String := " \x7b get; set; \x7d"

def declared (t : TypeName) (name : String) : List String := [t.text, " ", name]

/-- The line without its indentation and its end, in parts. -/
def parts : Leaf → List String
  | .line s => [s]
  | .comment s => ["// ", s]
  | .usingLine name => ["using ", name, ";"]
  | .namespaceLine name => ["namespace ", name, ";"]
  | .disableWarning id => ["#pragma warning disable ", id]
  | .autoGenerated => ["// <auto-generated />"]
  | .enableNullable => ["#nullable enable"]
  | .returnLine e => ["return ", e, ";"]
  | .yieldReturn e => ["yield return ", e, ";"]
  | .field t name value => "private" :: " " :: declared t name ++ assigned value ++ [";"]
  | .fieldWith a _ t name value => a.display :: " " :: declared t name ++ assigned value ++ [";"]
  | .property t name value =>
    "public" :: " " :: declared t name ++ [accessors] ++ assignedProperty value
  | .propertyWith a _ t name value =>
    a.display :: " " :: declared t name ++ [accessors] ++ assignedProperty value
  | .localVariable t name value => declared t name ++ assigned value ++ [";"]
  | .var name value => ["var", " ", name] ++ assigned value ++ [";"]

def text (l : Leaf) : String := String.join l.parts

/-- The texts that a caller supplies for a statement. -/
def arguments : Leaf → List String
  | .line s | .comment s | .usingLine s | .namespaceLine s | .disableWarning s | .returnLine s
  | .yieldReturn s => [s]
  | .autoGenerated | .enableNullable => []
  | .field t name value | .fieldWith _ _ t name value | .property t name value
  | .propertyWith _ _ t name value | .localVariable t name value => t.text :: name :: value.toList
  | .var name value => name :: value.toList

theorem edits_eq (l : Leaf) : l.edits = lineOf l.parts := by
  cases l with
  | field t name value => cases value <;> rfl
  | fieldWith a mapped t name value =>
    cases a with
    | notApplicable => exact absurd rfl mapped
    | _ => cases value <;> rfl
  | property t name value => cases value <;> rfl
  | propertyWith a mapped t name value =>
    cases a with
    | notApplicable => exact absurd rfl mapped
    | _ => cases value <;> rfl
  | localVariable t name value => cases value <;> rfl
  | var name value => cases value <;> rfl
  | _ => rfl

end Leaf

/-- The texts that statements have of their own. -/
def phrases : List String :=
  Accessibility.all.map Accessibility.display ++
    ["// ", "using ", "namespace ", ";", "#pragma warning disable ", "// <auto-generated />",
      "#nullable enable", "return ", "yield return ", "var", " ", " = ", Leaf.accessors, "if (", "for (var ",
      "; ", "foreach (var ", " in ", "while (", "else if (", "else", ")"]

/-- Texts of which every one is supplied or a phrase. -/
def Composed (arguments parts : List String) : Prop := ∀ s ∈ parts, s ∈ arguments ∨ s ∈ phrases

theorem display_mem_phrases (a : Accessibility) : a.display ∈ phrases := by cases a <;> decide

theorem Leaf.composed (l : Leaf) : Composed l.arguments l.parts := by
  unfold Composed
  cases l with
  | field t name value =>
    cases value <;> simp +decide [parts, arguments, declared, assigned]
  | fieldWith a mapped t name value =>
    cases value <;> simp +decide [parts, arguments, declared, assigned, display_mem_phrases a]
  | property t name value =>
    cases value <;> simp +decide [parts, arguments, declared, assignedProperty]
  | propertyWith a mapped t name value =>
    cases value <;> simp +decide [parts, arguments, declared, assignedProperty, display_mem_phrases a]
  | localVariable t name value =>
    cases value <;> simp +decide [parts, arguments, declared, assigned]
  | var name value => cases value <;> simp +decide [parts, arguments, assigned]
  | _ => simp +decide [parts, arguments]

/-- What opens a scope: a brace of its own, or a header line and a brace. -/
inductive Opening where
  | bare
  | ifOpen (condition : String)
  | forOpen (start condition next : String)
  | forEachOpen (name source : String)
  | whileOpen (condition : String)

namespace Opening

def edits : Opening → List Edit
  | .bare => openScope
  | .ifOpen condition => Emission.ifOpen condition
  | .forOpen start condition next => Emission.forOpen start condition next
  | .forEachOpen name source => Emission.forEachOpen name source
  | .whileOpen condition => Emission.whileOpen condition

def header? : Opening → Option String
  | .bare => none
  | .ifOpen condition => some ("if (" ++ condition ++ ")")
  | .forOpen start condition next =>
    some ("for (var " ++ start ++ "; " ++ condition ++ "; " ++ next ++ ")")
  | .forEachOpen name source => some ("foreach (var " ++ name ++ " in " ++ source ++ ")")
  | .whileOpen condition => some ("while (" ++ condition ++ ")")

def arguments : Opening → List String
  | .bare => []
  | .ifOpen condition | .whileOpen condition => [condition]
  | .forOpen start condition next => [start, condition, next]
  | .forEachOpen name source => [name, source]

end Opening

/-- What closes a branch and opens the next one. -/
inductive Turn where
  | elseIf (condition : String)
  | elseOpen

namespace Turn

def edits : Turn → List Edit
  | .elseIf condition => Emission.elseIf condition
  | .elseOpen => Emission.elseOpen

def header : Turn → String
  | .elseIf condition => "else if (" ++ condition ++ ")"
  | .elseOpen => "else"

def arguments : Turn → List String
  | .elseIf condition => [condition]
  | .elseOpen => []

end Turn

def headerRow (unit : String) (level : Nat) : Option String → String
  | none => ""
  | some s => row unit level s

def openRow (unit : String) (level : Nat) : String := row unit level "\x7b"

def closeRow (unit : String) (level : Nat) : String := row unit level "\x7d"

theorem run_texts (unit : String) (d : Draft) (parts : List String) :
    d.run unit (parts.map .text) = (d.add (String.join parts), none) := by
  induction parts generalizing d with
  | nil => simp [Draft.run, Draft.add]
  | cons s ss ih => simp [Draft.run, Draft.step, ih, Draft.add, String.append_assoc]

theorem run_lineOf (unit : String) (d : Draft) (parts : List String) :
    d.run unit (lineOf parts) = (d.add (row unit d.level (String.join parts)), none) := by
  rw [lineOf, Draft.run_append, Draft.run, Draft.step]
  simp only [run_texts]
  simp [Draft.run, Draft.step, newLine, Draft.add, row, String.append_assoc]

theorem Leaf.run_edits (unit : String) (d : Draft) (l : Leaf) :
    d.run unit l.edits = (d.add (row unit d.level l.text), none) := by
  rw [edits_eq, run_lineOf, text]

theorem run_openScope (unit : String) (d : Draft) (h : d.level + 1 < levelLimit) :
    d.run unit openScope = (⟨d.level + 1, d.text ++ openRow unit d.level⟩, none) := by
  rw [openScope, Draft.run_append, line, run_lineOf]
  simp [Draft.run, Draft.step, Draft.add, h, openRow]

theorem run_opener (unit : String) (d : Draft) (parts : List String)
    (h : d.level + 1 < levelLimit) : d.run unit (opener parts) =
      (⟨d.level + 1, d.text ++ row unit d.level (String.join parts) ++ openRow unit d.level⟩, none) := by
  rw [opener, Draft.run_append, run_lineOf]
  exact run_openScope unit _ h

theorem Opening.exists_parts (o : Opening) : (o.edits = openScope ∧ o.header? = none) ∨
    ∃ parts, o.edits = opener parts ∧ o.header? = some (String.join parts) ∧
      Composed o.arguments parts := by
  cases o with
  | bare => exact .inl ⟨rfl, rfl⟩
  | ifOpen condition =>
    exact .inr ⟨["if (", condition, ")"], rfl, by simp [header?, String.append_assoc],
      by simp +decide [Composed, arguments]⟩
  | forOpen start condition next =>
    exact .inr ⟨["for (var ", start, "; ", condition, "; ", next, ")"], rfl,
      by simp [header?, String.append_assoc], by simp +decide [Composed, arguments]⟩
  | forEachOpen name source =>
    exact .inr ⟨["foreach (var ", name, " in ", source, ")"], rfl,
      by simp [header?, String.append_assoc], by simp +decide [Composed, arguments]⟩
  | whileOpen condition =>
    exact .inr ⟨["while (", condition, ")"], rfl, by simp [header?, String.append_assoc],
      by simp +decide [Composed, arguments]⟩

theorem Opening.run_edits (unit : String) (d : Draft) (o : Opening) (h : d.level + 1 < levelLimit) :
    d.run unit o.edits =
      (⟨d.level + 1, d.text ++ headerRow unit d.level o.header? ++ openRow unit d.level⟩, none) := by
  rcases o.exists_parts with ⟨he, hp⟩ | ⟨parts, he, hp, _⟩
  · rw [he, hp, run_openScope unit d h, headerRow, String.append_empty]
  · rw [he, hp, run_opener unit d parts h, headerRow]

theorem run_closeScope (unit : String) (level : Nat) (text : String) :
    (Draft.mk (level + 1) text).run unit closeScope = (⟨level, text ++ closeRow unit level⟩, none) := by
  rw [closeScope, Draft.run, Draft.step]
  exact run_lineOf unit ⟨level, text⟩ ["\x7d"]

theorem Turn.exists_parts (t : Turn) :
    ∃ parts, t.edits = closeScope ++ opener parts ∧ String.join parts = t.header ∧
      Composed t.arguments parts := by
  cases t with
  | elseIf condition =>
    exact ⟨["else if (", condition, ")"], rfl, by simp [header, String.append_assoc],
      by simp +decide [Composed, arguments]⟩
  | elseOpen => exact ⟨["else"], rfl, by simp [header], by simp +decide [Composed]⟩

theorem Turn.run_edits (unit : String) (level : Nat) (text : String) (t : Turn)
    (h : level + 1 < levelLimit) :
    (Draft.mk (level + 1) text).run unit t.edits =
      (⟨level + 1, text ++ closeRow unit level ++ row unit level t.header ++ openRow unit level⟩,
        none) := by
  obtain ⟨parts, he, hp, _⟩ := t.exists_parts
  rw [he, ← hp, Draft.run_append, run_closeScope]
  exact run_opener unit ⟨level, _⟩ parts h

theorem lineOf_grows (parts : List String) : ∀ e ∈ lineOf parts, e.grows = true := by
  intro e he
  simp only [lineOf, newLine, List.mem_append, List.mem_cons, List.mem_map, List.not_mem_nil,
    or_false] at he
  rcases he with (rfl | ⟨s, _, rfl⟩) | rfl <;> rfl

theorem openScope_grows : ∀ e ∈ openScope, e.grows = true := by decide

theorem closeScope_grows : ∀ e ∈ closeScope, e.grows = true := by decide

theorem opener_grows (parts : List String) : ∀ e ∈ opener parts, e.grows = true := by
  intro e he
  rcases List.mem_append.1 he with he | he
  · exact lineOf_grows parts e he
  · exact openScope_grows e he

theorem Leaf.edits_grow (l : Leaf) : ∀ e ∈ l.edits, e.grows = true := l.edits_eq ▸ lineOf_grows l.parts

theorem Opening.edits_grow (o : Opening) : ∀ e ∈ o.edits, e.grows = true := by
  rcases o.exists_parts with ⟨he, _⟩ | ⟨parts, he, _⟩
  · exact he ▸ openScope_grows
  · exact he ▸ opener_grows parts

theorem Turn.edits_grow (t : Turn) : ∀ e ∈ t.edits, e.grows = true := by
  obtain ⟨parts, he, _⟩ := t.exists_parts
  intro e hm
  rcases List.mem_append.1 (he ▸ hm) with hm | hm
  · exact closeScope_grows e hm
  · exact opener_grows parts e hm

end GeneratorKit.Emission
