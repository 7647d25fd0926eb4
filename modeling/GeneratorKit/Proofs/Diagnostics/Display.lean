import GeneratorKit.Proofs.Diagnostics.Spelling

set_option autoImplicit false

/-!
# Displayed locations read back

A location is displayed as its path with a position in parentheses behind it. The path can hold anything, other
parentheses and numerals as well, but a position holds no opening parenthesis: the last one in the text is where it
begins. So the path and the position can be read off the text again, and no other text reads in this way
(`Location.read?_eq_some_iff`). A location, and a diagnostic at it, cannot be displayed only where its line or its
character is the greatest word (`displayed_exactly`).
-/
namespace GeneratorKit.Diagnostics
open Text

section Numerals

/-- The word that is displayed as a numeral, in which no zero leads. -/
def readOneBased (cs : List Char) : Option UInt32 := do
  let n ← readDecimal cs
  if cs.head? ≠ some '0' ∧ n ≤ 0xFFFFFFFF then some (.ofNat (n - 1)) else none

theorem readOneBased_eq_some_iff {cs : List Char} {n : UInt32} :
    readOneBased cs = some n ↔ n.toNat < 0xFFFFFFFF ∧ Nat.toDigits 10 (n.toNat + 1) = cs := by
  constructor
  · intro h
    obtain ⟨m, hm, h⟩ := Option.bind_eq_some_iff.1 h
    obtain ⟨⟨hz, hle⟩, hn⟩ := Option.ite_none_right_eq_some.1 h
    have hdigits : Nat.toDigits 10 m = cs := toDigits_of_readDecimal hm hz
    have hpos : m ≠ 0 := by
      rintro rfl
      exact hz (hdigits ▸ rfl)
    have hword : n.toNat = m - 1 := by
      rw [← Option.some.inj hn]
      exact UInt32.toNat_ofNat_of_lt' (show m - 1 < 0x100000000 by omega)
    exact ⟨by omega, by rw [hword, Nat.sub_add_cancel (by omega), hdigits]⟩
  · rintro ⟨hlt, rfl⟩
    have hword : UInt32.ofNat (n.toNat + 1 - 1) = n := by simp
    refine Option.bind_eq_some_iff.2 ⟨n.toNat + 1, readDecimal_toDigits _, ?_⟩
    rw [if_pos ⟨head?_toDigits (by omega), by omega⟩, hword]

theorem not_mem_toDigits {c : Char} (h : c.isDigit = false) (n : Nat) : c ∉ Nat.toDigits 10 n := by
  intro hm
  rw [List.all_eq_true.1 (all_isDigit_toDigits n) c hm] at h
  cases h

end Numerals

section Splitting

/-- What stands before and behind the first place of a character. -/
def splitFirst? (c : Char) : List Char → Option (List Char × List Char)
  | [] => none
  | d :: cs => if d = c then some ([], cs) else (splitFirst? c cs).map fun (as, bs) => (d :: as, bs)

theorem splitFirst?_eq_some_iff {c : Char} {cs as bs : List Char} :
    splitFirst? c cs = some (as, bs) ↔ c ∉ as ∧ cs = as ++ c :: bs := by
  induction cs generalizing as with
  | nil => simp [splitFirst?]
  | cons d cs ih =>
    rw [splitFirst?]
    by_cases hd : d = c
    · rw [if_pos hd, hd]
      cases as with
      | nil => simp [eq_comm]
      | cons a as =>
        refine iff_of_false nofun fun ⟨hmem, h⟩ => hmem ?_
        rw [(List.cons.inj h).1]
        exact List.mem_cons_self
    · rw [if_neg hd, Option.map_eq_some_iff]
      constructor
      · rintro ⟨⟨as, bs⟩, h, he⟩
        obtain ⟨rfl, rfl⟩ := Prod.mk.inj he
        obtain ⟨hmem, rfl⟩ := ih.1 h
        exact ⟨by simp [hmem, Ne.symm hd], rfl⟩
      · rintro ⟨hmem, h⟩
        cases as with
        | nil => exact absurd (List.cons.inj h).1 hd
        | cons a as =>
          obtain ⟨rfl, rfl⟩ := List.cons.inj h
          exact ⟨(as, bs), ih.2 ⟨fun hm => hmem (List.mem_cons_of_mem _ hm), rfl⟩, rfl⟩

end Splitting

namespace Position

/-- A position whose line or character is the greatest word, so that none comes behind it. -/
def AtLimit (p : Position) : Prop := p.line = 0xFFFFFFFF ∨ p.character = 0xFFFFFFFF

/-- The numerals of a position, counted from one on. -/
def numerals (p : Position) : List Char :=
  Nat.toDigits 10 (p.line.toNat + 1) ++ ',' :: Nat.toDigits 10 (p.character.toNat + 1)

/-- The position that is displayed as a text. -/
def read? (cs : List Char) : Option Position := do
  let (line, character) ← splitFirst? ',' cs
  return ⟨← readOneBased line, ← readOneBased character⟩

variable {p : Position} {cs : List Char}

theorem read?_eq_some_iff : read? cs = some p ↔ p.Displayable ∧ cs = p.numerals := by
  constructor
  · intro h
    obtain ⟨⟨line, character⟩, hsplit, h⟩ := Option.bind_eq_some_iff.1 h
    obtain ⟨m, hm, h⟩ := Option.bind_eq_some_iff.1 h
    obtain ⟨n, hn, h⟩ := Option.bind_eq_some_iff.1 h
    obtain rfl : ⟨m, n⟩ = p := Option.some.inj h
    obtain ⟨hline, rfl⟩ := readOneBased_eq_some_iff.1 hm
    obtain ⟨hcharacter, rfl⟩ := readOneBased_eq_some_iff.1 hn
    exact ⟨⟨hline, hcharacter⟩, (splitFirst?_eq_some_iff.1 hsplit).2⟩
  · rintro ⟨h, rfl⟩
    have hsplit : splitFirst? ',' p.numerals =
        some (Nat.toDigits 10 (p.line.toNat + 1), Nat.toDigits 10 (p.character.toNat + 1)) :=
      splitFirst?_eq_some_iff.2 ⟨not_mem_toDigits (by decide) _, rfl⟩
    have hline : readOneBased (Nat.toDigits 10 (p.line.toNat + 1)) = some p.line :=
      readOneBased_eq_some_iff.2 ⟨h.1, rfl⟩
    have hcharacter : readOneBased (Nat.toDigits 10 (p.character.toNat + 1)) = some p.character :=
      readOneBased_eq_some_iff.2 ⟨h.2, rfl⟩
    refine Option.bind_eq_some_iff.2 ⟨_, hsplit, ?_⟩
    exact Option.bind_eq_some_iff.2 ⟨_, hline, Option.bind_eq_some_iff.2 ⟨_, hcharacter, rfl⟩⟩

theorem not_mem_numerals : '(' ∉ p.numerals := by
  simp [numerals, not_mem_toDigits]

theorem displayable_iff : p.Displayable ↔ ¬ p.AtLimit := by
  have hword (n : UInt32) : n.toNat < 0xFFFFFFFF ↔ n ≠ 0xFFFFFFFF := by
    have hlt : n.toNat < 0x100000000 := n.toNat_lt
    rw [Ne, ← UInt32.toNat_inj]
    change _ ↔ ¬ n.toNat = 0xFFFFFFFF
    omega
  rw [Displayable, hword, hword, AtLimit, not_or]

theorem display_of_not_displayable (h : ¬ p.Displayable) : p.display = .error .overflow := by
  have hoverflow (n : UInt32) (hn : ¬ n.toNat < 0xFFFFFFFF) : oneBased n = .error .overflow := by
    rw [oneBased, if_neg (by omega)]
  rw [display]
  by_cases hline : p.line.toNat < 0xFFFFFFFF
  · rw [oneBased_of_lt hline, hoverflow _ fun hcharacter => h ⟨hline, hcharacter⟩]
    rfl
  · rw [hoverflow _ hline]
    rfl

end Position

namespace Location

/-- The path and the position that are displayed as a text. From the end of the text, the first opening parenthesis is
that of the position, whatever stands in the path. -/
def read? (t : String) : Option (String × Position) :=
  match t.toList.reverse with
  | ')' :: cs => do
    let (position, path) ← splitFirst? '(' cs
    return (String.ofList path.reverse, ← Position.read? position.reverse)
  | _ => none

variable {l : Location} {p : Position} {s t : String}

theorem read?_eq_some_iff :
    read? t = some (s, p) ↔ p.Displayable ∧ t.toList = s.toList ++ '(' :: (p.numerals ++ [')']) := by
  constructor
  · intro h
    unfold read? at h
    split at h
    · next cs ht =>
      obtain ⟨⟨position, path⟩, hsplit, h⟩ := Option.bind_eq_some_iff.1 h
      obtain ⟨q, hq, h⟩ := Option.bind_eq_some_iff.1 h
      obtain ⟨rfl, rfl⟩ := Prod.mk.inj (Option.some.inj h)
      obtain ⟨hdisplayable, hnumerals⟩ := Position.read?_eq_some_iff.1 hq
      obtain ⟨_, rfl⟩ := splitFirst?_eq_some_iff.1 hsplit
      refine ⟨hdisplayable, ?_⟩
      rw [← hnumerals, ← List.reverse_reverse t.toList, ht]
      simp
    · cases h
  · rintro ⟨h, ht⟩
    have hreverse : t.toList.reverse = ')' :: (p.numerals.reverse ++ '(' :: s.toList.reverse) := by
      rw [ht]
      simp
    have hsplit : splitFirst? '(' (p.numerals.reverse ++ '(' :: s.toList.reverse) =
        some (p.numerals.reverse, s.toList.reverse) :=
      splitFirst?_eq_some_iff.2 ⟨fun hm => Position.not_mem_numerals (List.mem_reverse.1 hm), rfl⟩
    have hread : Position.read? p.numerals.reverse.reverse = some p := by
      rw [List.reverse_reverse]
      exact Position.read?_eq_some_iff.2 ⟨h, rfl⟩
    unfold read?
    rw [hreverse]
    refine Option.bind_eq_some_iff.2 ⟨_, hsplit, Option.bind_eq_some_iff.2 ⟨p, hread, ?_⟩⟩
    simp

theorem toList_pointer (l : Location) : l.pointer.toList = '(' :: (l.lineSpan.start.numerals ++ [')']) := by
  simp [pointer, decimal, Position.numerals]

theorem display_of_not_displayable (h : ¬ l.lineSpan.start.Displayable) : l.display = .error .overflow := by
  rw [display, Position.display_of_not_displayable h]
  rfl

theorem display_eq_ok_iff : l.display = .ok t ↔ l.lineSpan.start.Displayable ∧ t = l.path.text ++ l.pointer := by
  by_cases h : l.lineSpan.start.Displayable
  · rw [display_eq h, Except.ok.injEq, and_iff_right h, eq_comm]
  · rw [display_of_not_displayable h]
    exact iff_of_false nofun fun ht => h ht.1

theorem display_eq_error_iff {f : Fault} :
    l.display = .error f ↔ f = .overflow ∧ ¬ l.lineSpan.start.Displayable := by
  by_cases h : l.lineSpan.start.Displayable
  · rw [display_eq h]
    exact iff_of_false nofun fun hf => hf.2 h
  · rw [display_of_not_displayable h, Except.error.injEq, and_iff_left h, eq_comm]

/-- The texts that a location is displayed as are those that read as its path and the start of its lines. -/
theorem display_eq_ok_iff_read? : l.display = .ok t ↔ read? t = some (l.path.text, l.lineSpan.start) := by
  rw [display_eq_ok_iff, read?_eq_some_iff, ← String.toList_inj, String.toList_append, toList_pointer]

theorem display_eq_display_iff (h : l.lineSpan.start.Displayable) (m : Location) :
    l.display = m.display ↔ l.path.text = m.path.text ∧ l.lineSpan.start = m.lineSpan.start := by
  have hread : read? (l.path.text ++ l.pointer) = some (l.path.text, l.lineSpan.start) :=
    display_eq_ok_iff_read?.1 (display_eq h)
  rw [display_eq h, eq_comm, display_eq_ok_iff_read?, hread, Option.some.injEq, Prod.mk.injEq]

/-- How a location is displayed, and what its text tells. -/
structure DisplayedExactly (l : Location) : Prop where
  fails_iff (f : Fault) : l.display = .error f ↔ f = .overflow ∧ l.lineSpan.start.AtLimit
  text (h : ¬ l.lineSpan.start.AtLimit) : l.display = .ok (l.path.text ++ "(" ++
    decimal (l.lineSpan.start.line.toNat + 1) ++ "," ++ decimal (l.lineSpan.start.character.toNat + 1) ++ ")")
  reads (t : String) : l.display = .ok t ↔ read? t = some (l.path.text, l.lineSpan.start)
  alike (h : ¬ l.lineSpan.start.AtLimit) (m : Location) :
    l.display = m.display ↔ l.path.text = m.path.text ∧ l.lineSpan.start = m.lineSpan.start

theorem displayedExactly (l : Location) : l.DisplayedExactly where
  fails_iff f := by rw [display_eq_error_iff, Position.displayable_iff, not_not]
  text h := by
    rw [display_eq (Position.displayable_iff.2 h), pointer]
    simp only [String.append_assoc]
  reads _ := display_eq_ok_iff_read?
  alike h := display_eq_display_iff (Position.displayable_iff.2 h)

end Location

namespace Notice

/-- What stands before the severity: the location with a colon, or nothing without a location. -/
def Placed (n : Notice) (place : String) : Prop :=
  (n.location = none ∧ place = "") ∨ ∃ l s, n.location = some l ∧ l.display = .ok s ∧ place = s ++ ": "

/-- How a diagnostic is displayed. -/
structure DisplayedExactly (n : Notice) : Prop where
  fails_iff (f : Fault) : n.display = .error f ↔ ∃ l, n.location = some l ∧ l.display = .error f
  text (t : String) : n.display = .ok t ↔
    ∃ place, n.Placed place ∧ t = place ++ n.severity.text ++ " " ++ n.id ++ ": " ++ n.message

theorem display_of_none {n : Notice} (h : n.location = none) :
    n.display = .ok ("" ++ n.severity.text ++ " " ++ n.id ++ ": " ++ n.message) := by
  rw [display, h]
  rfl

theorem display_of_some {n : Notice} {l : Location} (h : n.location = some l) : n.display =
    l.display.map fun s => s ++ ": " ++ n.severity.text ++ " " ++ n.id ++ ": " ++ n.message := by
  rw [display, h]
  dsimp only
  cases l.display <;> rfl

theorem display_eq_error_iff (n : Notice) (f : Fault) :
    n.display = .error f ↔ ∃ l, n.location = some l ∧ l.display = .error f := by
  cases hn : n.location with
  | none =>
    rw [display_of_none hn]
    exact iff_of_false nofun fun ⟨_, h, _⟩ => nomatch h
  | some l =>
    rw [display_of_some hn]
    cases hl : l.display <;> simp [Except.map, hl]

theorem display_eq_ok_iff (n : Notice) (t : String) : n.display = .ok t ↔
    ∃ place, n.Placed place ∧ t = place ++ n.severity.text ++ " " ++ n.id ++ ": " ++ n.message := by
  cases hn : n.location with
  | none =>
    rw [display_of_none hn]
    simp [Placed, hn, eq_comm]
  | some l =>
    rw [display_of_some hn]
    cases hl : l.display <;> simp [Placed, hn, Except.map, hl, eq_comm]

end Notice

/-- A location cannot be displayed exactly where the line or the character at which it starts is the greatest word.
Everywhere else it is displayed as its path, whatever that holds, and its start counted from one on, and both can be
read off the text. A diagnostic is displayed unless its location cannot be, with the text of the location before its
own if it has one. -/
theorem displayed_exactly (l : Location) (n : Notice) : l.DisplayedExactly ∧ n.DisplayedExactly :=
  ⟨l.displayedExactly, n.display_eq_error_iff, n.display_eq_ok_iff⟩

-- The path looks like a displayed location itself, and where the lines end does not matter.
theorem displayed_exactly_nested :
    let l (character : UInt32) : Location := ⟨⟨"a(1,2)"⟩, ⟨3, 4⟩, ⟨⟨0, character⟩, ⟨0xFFFFFFFF, 7⟩⟩⟩
    let n (l : Location) : Notice := .of ((Record.make (.make "G1" "t" "m" "Usage" .warning)).atLocation l)
    ¬ (l 3).lineSpan.start.AtLimit ∧ (l 3).display = .ok "a(1,2)(1,4)" ∧
      Location.read? "a(1,2)(1,4)" = some ("a(1,2)", ⟨0, 3⟩) ∧ (l 3).display ≠ (l 4).display ∧
      (n (l 3)).display = .ok "a(1,2)(1,4): warning G1: m" ∧ (n (l 0xFFFFFFFF)).display = .error .overflow := by
  intro l n
  have hlimit : ¬ (l 3).lineSpan.start.AtLimit := by
    unfold Position.AtLimit
    decide
  obtain ⟨hl, hn⟩ := displayed_exactly (l 3) (n (l 3))
  obtain ⟨hlast, hfailed⟩ := displayed_exactly (l 0xFFFFFFFF) (n (l 0xFFFFFFFF))
  have hdisplay : (l 3).display = .ok "a(1,2)(1,4)" := (hl.text hlimit).trans (by decide +kernel)
  refine ⟨hlimit, hdisplay, (hl.reads _).1 hdisplay, ?_, ?_, ?_⟩
  · rw [Ne, hl.alike hlimit (l 4)]
    decide
  · exact (hn.text _).2 ⟨"a(1,2)(1,4): ", .inr ⟨_, _, rfl, hdisplay, rfl⟩, by decide +kernel⟩
  · exact (hfailed.fails_iff _).2 ⟨_, rfl, (hlast.fails_iff _).2 ⟨rfl, .inr rfl⟩⟩

end GeneratorKit.Diagnostics
