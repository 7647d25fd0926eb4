import GeneratorKit.Json.Printer
import GeneratorKit.Json.Reader
import Mathlib.Data.Option.Basic

set_option autoImplicit false

/-!
# JSON texts read back

Every value is read back from the text that it is written as (`read_text`). The proof follows the value: a
string is read piece by piece, a number up to what may follow a value, and the fuel that a value takes is bounded
by the length of its text.
-/
namespace GeneratorKit.Json

section Strings

/-- The part of a string that stands for a character: the character itself, or a low unit for a control
character. -/
def Spells (p : Piece) (c : Char) : Prop := p = .char c ∨ (p = .unit c.toNat ∧ c.toNat < 0x20)

theorem assemble_cons {p : Piece} {c : Char} (h : Spells p c) (ps : List Piece) :
    assemble (p :: ps) = (assemble ps).map (c :: ·) := by
  rcases h with rfl | ⟨rfl, hc⟩
  · rfl
  · have hhigh : isHighSurrogate c.toNat = false := by simp [isHighSurrogate]; omega
    have hlow : isLowSurrogate c.toNat = false := by simp [isLowSurrogate]; omega
    cases ps with
    | nil => simp [assemble, hhigh, hlow, Char.ofNat_toNat]
    | cons q ps =>
      cases q with
      | char d => simp [assemble, hhigh, hlow, Char.ofNat_toNat]
      | unit m => simp [assemble, hhigh, hlow, Char.ofNat_toNat]

def scanBehind (p : Piece) (r : Option (List Piece × List Char)) : Option (List Piece × List Char) :=
  r.map fun q => (p :: q.1, q.2)

theorem scanString_char {c : Char} (hq : c ≠ '"') (hb : c ≠ '\\') (hc : ¬ c.toNat < 0x20)
    (rest : List Char) : scanString (c :: rest) = scanBehind (.char c) (scanString rest) := by
  rw [scanString]
  · rw [if_neg (not_or.2 ⟨hc, hb⟩)]
    cases scanString rest <;> rfl
  · exact hq
  · exact fun _ _ _ _ _ h => absurd h hb
  · exact fun _ _ h => absurd h hb

theorem scanString_short {e c : Char} (h : shortEscape? e = some c) (rest : List Char) :
    scanString ('\\' :: e :: rest) = scanBehind (.char c) (scanString rest) := by
  have hu : e ≠ 'u' := by
    rintro rfl
    cases h
  rw [scanString]
  · rw [h]
    cases scanString rest <;> rfl
  · exact fun _ _ _ _ _ he => absurd he hu

theorem scanString_unit {a b c d : Char} {n : Nat} (h : Text.readHex [a, b, c, d] = some n)
    (rest : List Char) :
    scanString ('\\' :: 'u' :: a :: b :: c :: d :: rest) = scanBehind (.unit n) (scanString rest) := by
  rw [scanString, h]
  cases scanString rest <;> rfl

/-- A character is scanned from its escape as one piece, whatever follows. -/
theorem scanString_escape (c : Char) : ∃ p, Spells p c ∧
    ∀ rest, scanString (escape c ++ rest) = scanBehind p (scanString rest) := by
  by_cases h : c ∈ ['"', '\\', '\n', '\t', '\r', '\x08', '\x0c']
  · simp only [List.mem_cons, List.not_mem_nil, or_false] at h
    rcases h with rfl | rfl | rfl | rfl | rfl | rfl | rfl <;>
      exact ⟨.char _, .inl rfl, scanString_short rfl⟩
  simp only [List.mem_cons, not_or] at h
  obtain ⟨hq, hb, hn, ht, hr, hbs, hff, _⟩ := h
  rw [escape, if_neg hq, if_neg hb, if_neg hn, if_neg ht, if_neg hr, if_neg hbs, if_neg hff]
  by_cases hc : c.toNat < 0x20
  · obtain ⟨x, y, z, w, hx, hr⟩ := Text.exists_paddedHex (n := c.toNat) (by omega)
    rw [if_pos hc, hx]
    exact ⟨.unit c.toNat, .inr ⟨rfl, hc⟩, scanString_unit hr⟩
  · rw [if_neg hc]
    exact ⟨.char c, .inl rfl, scanString_char hq hb hc⟩

theorem scanString_flatMap (cs : List Char) : ∃ ps, assemble ps = some cs ∧
    ∀ rest, scanString (cs.flatMap escape ++ '"' :: rest) = some (ps, rest) := by
  induction cs with
  | nil => exact ⟨[], rfl, fun rest => by rw [List.flatMap_nil, List.nil_append, scanString]⟩
  | cons c cs ih =>
    obtain ⟨p, hp, hscan⟩ := scanString_escape c
    obtain ⟨ps, hps, hrest⟩ := ih
    refine ⟨p :: ps, by rw [assemble_cons hp, hps]; rfl, fun rest => ?_⟩
    rw [List.flatMap_cons, List.append_assoc, hscan, hrest]
    rfl

/-- A string, also one that is no text, is read back from what it is written as. -/
theorem exists_quote (s : Option String) : ∃ cs, quote s = '"' :: cs ∧
    ∀ rest, readString (cs ++ rest) = some (s, rest) := by
  cases s with
  | none =>
    refine ⟨['\\', 'u', 'd', '8', '0', '0', '"'], rfl, fun rest => ?_⟩
    have hunit : Text.readHex ['d', '8', '0', '0'] = some 0xD800 := rfl
    have hscan : scanString ('"' :: rest) = some ([], rest) := by rw [scanString]
    rw [readString, List.cons_append, List.cons_append, List.cons_append, List.cons_append,
      List.cons_append, List.cons_append, scanString_unit hunit, List.singleton_append, hscan]
    rfl
  | some s =>
    obtain ⟨ps, hps, hscan⟩ := scanString_flatMap s.toList
    refine ⟨s.toList.flatMap escape ++ ['"'], rfl, fun rest => ?_⟩
    rw [List.append_assoc, List.singleton_append, readString, hscan]
    simp [hps]

end Strings

section Numbers

theorem ne_of_isDigit {c d : Char} (hc : c.isDigit = true) (hd : d.isDigit = false) : c ≠ d := by
  rintro rfl
  rw [hc] at hd
  cases hd

theorem exists_toDigits (n : Nat) : ∃ d ds, Nat.toDigits 10 n = d :: ds ∧ d.isDigit = true := by
  obtain ⟨d, ds, hds⟩ := List.exists_cons_of_ne_nil (Nat.toDigits_ne_nil (n := n) (b := 10))
  exact ⟨d, ds, hds, List.all_eq_true.1 (Text.all_isDigit_toDigits n) d (by simp [hds])⟩

/-- What may follow a value: nothing, or what ends it in a list or an object. -/
def Ends (rest : List Char) : Prop := rest = [] ∨ ∃ c cs, rest = c :: cs ∧ (c = ',' ∨ c = ']' ∨ c = '}')

theorem Ends.takeWhile {rest : List Char} (h : Ends rest) :
    rest.takeWhile Char.isDigit = [] ∧ rest.dropWhile Char.isDigit = rest := by
  rcases h with rfl | ⟨c, cs, rfl, rfl | rfl | rfl⟩ <;> exact ⟨rfl, rfl⟩

theorem Ends.scanFraction {rest : List Char} (h : Ends rest) : scanFraction rest = some (false, rest) := by
  rcases h with rfl | ⟨c, cs, rfl, rfl | rfl | rfl⟩ <;> rfl

theorem Ends.scanExponent {rest : List Char} (h : Ends rest) : scanExponent rest = some (false, rest) := by
  rcases h with rfl | ⟨c, cs, rfl, rfl | rfl | rfl⟩ <;> rfl

theorem readNumber_toDigits (n : Nat) {rest : List Char} (h : Ends rest) :
    readNumber (Nat.toDigits 10 n ++ rest) = some (.natural n, rest) := by
  have hdigits := List.all_eq_true.1 (Text.all_isDigit_toDigits n)
  have hwhole : (Nat.toDigits 10 n ++ rest).takeWhile Char.isDigit = Nat.toDigits 10 n := by
    rw [List.takeWhile_append_of_pos hdigits, h.takeWhile.1, List.append_nil]
  have hrest : (Nat.toDigits 10 n ++ rest).dropWhile Char.isDigit = rest := by
    rw [List.dropWhile_append_of_pos hdigits, h.takeWhile.2]
  have hzero : (Nat.toDigits 10 n).head? = some '0' → Nat.toDigits 10 n = ['0'] := by
    intro hhead
    by_cases hn : n = 0
    · rw [hn]
      rfl
    · exact absurd hhead (Text.head?_toDigits hn)
  have hform : Nat.toDigits 10 n ≠ [] ∧ ((Nat.toDigits 10 n).head? = some '0' → Nat.toDigits 10 n = ['0']) :=
    ⟨Nat.toDigits_ne_nil, hzero⟩
  rw [readNumber]
  · dsimp only
    rw [hwhole, hrest, (Option.guard_eq_some' ()).2 hform, h.scanFraction]
    simp [h.scanExponent, Nat.ofDigitChars_ten_toDigits]
  · intro cs hcs
    obtain ⟨d, ds, hds, hd⟩ := exists_toDigits n
    rw [hds] at hcs
    exact ne_of_isDigit hd rfl (List.cons.inj hcs).1

theorem readNumber_inexact {rest : List Char} (h : Ends rest) :
    readNumber ('-' :: '0' :: rest) = some (.inexact, rest) := by
  rcases h with rfl | ⟨c, cs, rfl, rfl | rfl | rfl⟩ <;> rfl

end Numbers

section Values

theorem skipSpace_cons {c : Char} (h : isSpace c = false) (cs : List Char) :
    skipSpace (c :: cs) = c :: cs := by
  rw [skipSpace, List.dropWhile_cons_of_neg (by simp [h])]

theorem isSpace_of_isDigit {c : Char} (h : c.isDigit = true) : isSpace c = false := by
  simp only [isSpace, Bool.or_eq_false_iff, beq_eq_false_iff_ne]
  exact ⟨⟨⟨ne_of_isDigit h rfl, ne_of_isDigit h rfl⟩, ne_of_isDigit h rfl⟩, ne_of_isDigit h rfl⟩

/-- The first character of a value is neither blank nor what closes a list. -/
theorem exists_render (j : Json) : ∃ c cs, render j = c :: cs ∧ isSpace c = false ∧ c ≠ ']' := by
  cases j with
  | null => exact ⟨'n', _, rfl, rfl, by decide⟩
  | bool b => cases b <;> exact ⟨_, _, rfl, rfl, by decide⟩
  | natural n =>
    obtain ⟨d, ds, hds, hd⟩ := exists_toDigits n
    exact ⟨d, ds, hds, isSpace_of_isDigit hd, ne_of_isDigit hd rfl⟩
  | inexact => exact ⟨'-', _, rfl, rfl, by decide⟩
  | string s =>
    obtain ⟨cs, hcs, _⟩ := exists_quote s
    exact ⟨'"', cs, hcs, rfl, by decide⟩
  | array items => cases items <;> exact ⟨'[', _, rfl, rfl, by decide⟩
  | object fields => cases fields <;> exact ⟨'\x7b', _, rfl, rfl, by decide⟩

theorem readValue_of_isDigit {c : Char} (h : c.isDigit = true) (fuel : Nat) (cs : List Char) :
    readValue (fuel + 1) (c :: cs) = readNumber (c :: cs) := by
  rw [readValue, skipSpace_cons (isSpace_of_isDigit h)]
  split <;> first
    | rfl
    | next he => exact absurd (List.cons.inj he).1 (ne_of_isDigit h rfl)

/-- The text of the items of an array behind its opening bracket. -/
def renderAll : List Json → List Char
  | [] => [']']
  | v :: vs => render v ++ renderItems vs

def renderFieldsAll : List (Option String × Json) → List Char
  | [] => ['\x7d']
  | (k, v) :: fs => quote k ++ ':' :: (render v ++ renderFields fs)

theorem render_array (vs : List Json) : render (.array vs) = '[' :: renderAll vs := by
  cases vs <;> rfl

theorem render_object (fs : List (Option String × Json)) :
    render (.object fs) = '\x7b' :: renderFieldsAll fs := by
  cases fs with
  | nil => rfl
  | cons f fs => simp [render, renderFieldsAll]

theorem renderItems_cons (v : Json) (vs : List Json) : renderItems (v :: vs) = ',' :: renderAll (v :: vs) := by
  simp [renderItems, renderAll]

theorem renderFields_cons (f : Option String × Json) (fs : List (Option String × Json)) :
    renderFields (f :: fs) = ',' :: renderFieldsAll (f :: fs) := by
  simp [renderFields, renderFieldsAll]

theorem ends_renderItems (vs : List Json) (rest : List Char) : Ends (renderItems vs ++ rest) := by
  cases vs with
  | nil => exact .inr ⟨']', rest, rfl, .inr (.inl rfl)⟩
  | cons v vs => exact .inr ⟨',', _, rfl, .inl rfl⟩

theorem ends_renderFields (fs : List (Option String × Json)) (rest : List Char) :
    Ends (renderFields fs ++ rest) := by
  cases fs with
  | nil => exact .inr ⟨'\x7d', rest, rfl, .inr (.inr rfl)⟩
  | cons f fs => exact .inr ⟨',', _, rfl, .inl rfl⟩

theorem readValue_array {fuel : Nat} {cs rest : List Char} {c : Char} {vs : List Json}
    (hspace : isSpace c = false) (hc : c ≠ ']') (h : readItems fuel (c :: cs) = some (vs, rest)) :
    readValue (fuel + 1) ('[' :: c :: cs) = some (.array vs, rest) := by
  rw [readValue, skipSpace_cons rfl]
  simp only [skipSpace_cons hspace]
  split
  · next he => exact absurd (List.cons.inj he).1 hc
  · rw [h]
    rfl

theorem readValue_object {fuel : Nat} {cs rest : List Char} {fs : List (Option String × Json)}
    (h : readFields fuel ('"' :: cs) = some (fs, rest)) :
    readValue (fuel + 1) ('\x7b' :: '"' :: cs) = some (.object fs, rest) := by
  rw [readValue, skipSpace_cons rfl]
  simp only [skipSpace_cons (c := '"') rfl]
  split
  · next he => exact absurd (List.cons.inj he).1 (by decide)
  · rw [h]
    rfl

-- Each level of a value and each item of a container takes one fuel and at least one character.
mutual

theorem readValue_render : ∀ (j : Json) {fuel : Nat} {rest : List Char}, (render j).length ≤ fuel →
    Ends rest → readValue fuel (render j ++ rest) = some (j, rest)
  | j, 0, rest, hfuel, hrest => by
    obtain ⟨c, cs, hc, _⟩ := exists_render j
    rw [hc] at hfuel
    simp at hfuel
  | .null, fuel + 1, rest, hfuel, hrest => rfl
  | .bool true, fuel + 1, rest, hfuel, hrest => rfl
  | .bool false, fuel + 1, rest, hfuel, hrest => rfl
  | .natural n, fuel + 1, rest, hfuel, hrest => by
    obtain ⟨d, ds, hds, hd⟩ := exists_toDigits n
    have hread := readNumber_toDigits n hrest
    rw [render]
    rw [hds] at hread ⊢
    exact (readValue_of_isDigit hd fuel _).trans hread
  | .inexact, fuel + 1, rest, hfuel, hrest => readNumber_inexact hrest
  | .string s, fuel + 1, rest, hfuel, hrest => by
    obtain ⟨cs, hcs, hread⟩ := exists_quote s
    rw [render, hcs, List.cons_append, readValue, skipSpace_cons rfl]
    simp only [hread]
    rfl
  | .array [], fuel + 1, rest, hfuel, hrest => rfl
  | .array (v :: vs), fuel + 1, rest, hfuel, hrest => by
    rw [render_array, List.length_cons, Nat.add_le_add_iff_right] at hfuel
    have hitems : readItems fuel (renderAll (v :: vs) ++ rest) = some (v :: vs, rest) :=
      readItems_render (v :: vs) (List.cons_ne_nil v vs) hfuel
    obtain ⟨c, cs, hc, hspace, hne⟩ := exists_render v
    rw [render_array]
    rw [renderAll, hc] at hitems ⊢
    exact readValue_array hspace hne hitems
  | .object [], fuel + 1, rest, hfuel, hrest => rfl
  | .object ((k, v) :: fs), fuel + 1, rest, hfuel, hrest => by
    rw [render_object, List.length_cons, Nat.add_le_add_iff_right] at hfuel
    have hfields : readFields fuel (renderFieldsAll ((k, v) :: fs) ++ rest) = some ((k, v) :: fs, rest) :=
      readFields_render ((k, v) :: fs) (List.cons_ne_nil (k, v) fs) hfuel
    obtain ⟨cs, hcs, _⟩ := exists_quote k
    rw [render_object]
    rw [renderFieldsAll, hcs] at hfields ⊢
    exact readValue_object hfields

theorem readItems_render : ∀ (vs : List Json) {fuel : Nat} {rest : List Char}, vs ≠ [] →
    (renderAll vs).length ≤ fuel → readItems fuel (renderAll vs ++ rest) = some (vs, rest)
  | [], _, _, hne, _ => absurd rfl hne
  | v :: vs, 0, rest, hne, hfuel => by
    obtain ⟨c, cs, hc, _⟩ := exists_render v
    rw [renderAll, hc] at hfuel
    simp at hfuel
  | v :: vs, fuel + 1, rest, hne, hfuel => by
    have hlength : (render v).length + (renderItems vs).length ≤ fuel + 1 := by
      simpa [renderAll] using hfuel
    have hpos : 0 < (renderItems vs).length := by cases vs <;> simp [renderItems]
    have hvalue : readValue fuel (render v ++ (renderItems vs ++ rest)) = some (v, renderItems vs ++ rest) :=
      readValue_render v (by omega) (ends_renderItems vs rest)
    rw [renderAll, List.append_assoc, readItems, hvalue]
    cases vs with
    | nil => rfl
    | cons w ws =>
      rw [renderItems_cons, List.length_cons] at hlength
      have hitems : readItems fuel (renderAll (w :: ws) ++ rest) = some (w :: ws, rest) :=
        readItems_render (w :: ws) (List.cons_ne_nil w ws) (by omega)
      rw [renderItems_cons, List.cons_append]
      simp only [Option.bind_eq_bind, Option.bind_some, skipSpace_cons (c := ',') rfl, hitems]
      rfl

theorem readFields_render : ∀ (fs : List (Option String × Json)) {fuel : Nat} {rest : List Char}, fs ≠ [] →
    (renderFieldsAll fs).length ≤ fuel → readFields fuel (renderFieldsAll fs ++ rest) = some (fs, rest)
  | [], _, _, hne, _ => absurd rfl hne
  | (k, v) :: fs, 0, rest, hne, hfuel => by
    obtain ⟨cs, hcs, _⟩ := exists_quote k
    rw [renderFieldsAll, hcs] at hfuel
    simp at hfuel
  | (k, v) :: fs, fuel + 1, rest, hne, hfuel => by
    obtain ⟨cs, hcs, hread⟩ := exists_quote k
    have hlength : cs.length + (render v).length + (renderFields fs).length + 2 ≤ fuel + 1 := by
      rw [renderFieldsAll, hcs] at hfuel
      simp at hfuel
      omega
    have hvalue : readValue fuel (render v ++ (renderFields fs ++ rest)) = some (v, renderFields fs ++ rest) :=
      readValue_render v (by omega) (ends_renderFields fs rest)
    rw [renderFieldsAll, hcs, List.append_assoc, List.cons_append, readFields, skipSpace_cons rfl]
    simp only [Option.bind_eq_bind, List.cons_append, hread, Option.bind_some,
      skipSpace_cons (c := ':') rfl, List.append_assoc, hvalue]
    cases fs with
    | nil => rfl
    | cons g gs =>
      rw [renderFields_cons, List.length_cons] at hlength
      have hfields : readFields fuel (renderFieldsAll (g :: gs) ++ rest) = some (g :: gs, rest) :=
        readFields_render (g :: gs) (List.cons_ne_nil g gs) (by omega)
      rw [renderFields_cons, List.cons_append]
      simp only [skipSpace_cons (c := ',') rfl, hfields]
      rfl

end

/-- Every value is read back from its text. -/
theorem read_text (j : Json) : read j.text = some j := by
  have hread : readValue (2 * j.text.length + 2) (render j ++ []) = some (j, []) := by
    refine readValue_render j ?_ (.inl rfl)
    rw [text, String.length_ofList]
    omega
  rw [List.append_nil] at hread
  have htext : j.text.toList = render j := String.toList_ofList
  rw [read, htext, hread]
  rfl

end Values

end GeneratorKit.Json
