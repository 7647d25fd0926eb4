import GeneratorKit.Code.Constant

set_option autoImplicit false

/-!
# Reading literals

A reader of regular literals, as the language defines them, beside what constants are written as. What a
string or a character is written as reads back whatever follows it, and holds nothing that a line or a
terminal would take as its own (`read_source`).
-/
namespace GeneratorKit.Code.Literal

/-- The characters that end a line. A literal cannot hold them as they are. -/
def endsLine (c : Char) : Bool :=
  c == '\n' || c == '\r' || c == '\u0085' || Text.isLineSeparator c

def shortEscape? : Char → Option Char
  | '\\' => some '\\'
  | 'n' => some '\n'
  | 'r' => some '\r'
  | 't' => some '\t'
  | '0' => some '\x00'
  | '\'' => some '\''
  | '"' => some '"'
  | _ => none

/-- The character of a 16-bit unit, unless it is half of a pair. -/
def ofUnit? (n : Nat) : Option Char := if n.isValidChar then some (Char.ofNat n) else none

def readBehind (c : Char) (r : Option (List Char × List Char)) : Option (List Char × List Char) :=
  r.map fun p => (c :: p.1, p.2)

/-- The characters up to the closing quote, and what follows it. -/
def readBody (quote : Char) : List Char → Option (List Char × List Char)
  | [] => none
  | '\\' :: 'u' :: a :: b :: c :: d :: rest =>
    ((Text.readHex [a, b, c, d]).bind ofUnit?).bind (readBehind · (readBody quote rest))
  | '\\' :: e :: rest => (shortEscape? e).bind (readBehind · (readBody quote rest))
  | c :: rest =>
    if c = quote then some ([], rest)
    else if c = '\\' ∨ endsLine c then none
    else readBehind c (readBody quote rest)

/-- The text between quotes at the beginning, and what follows it. -/
def read (quote : Char) (s : String) : Option (String × String) :=
  match s.toList with
  | [] => none
  | c :: cs =>
    if c = quote then (readBody quote cs).map fun p => (String.ofList p.1, String.ofList p.2) else none

/-- Neither a control character nor a separator of lines. -/
def isPlain (c : Char) : Bool := !(Text.isControl c || Text.isLineSeparator c)

theorem isPlain_eq_false_iff {c : Char} :
    isPlain c = false ↔ Text.isControl c = true ∨ Text.isLineSeparator c = true := by
  rw [isPlain, Bool.not_eq_false', Bool.or_eq_true]

theorem toNat_lt_of_not_isPlain {c : Char} (h : isPlain c = false) : c.toNat < 0x10000 := by
  rw [isPlain_eq_false_iff, Text.isLineSeparator, Bool.or_eq_true, beq_iff_eq, beq_iff_eq] at h
  rcases h with h | rfl | rfl
  · simp only [Text.isControl, Bool.or_eq_true, Bool.and_eq_true, decide_eq_true_eq] at h
    omega
  · decide
  · decide

def written (quote c : Char) : List Char := (Constant.escaped quote c).flatMap String.toList

theorem toList_quoted (quote : Char) (cs : List Char) :
    (String.join (Constant.quoted quote cs)).toList = quote :: (cs.flatMap (written quote) ++ [quote]) := by
  have hw : written quote = fun c => (Constant.escaped quote c).flatMap String.toList := rfl
  rw [String.toList_join, Constant.quoted, hw]
  simp [List.flatMap_assoc]

def IsQuote (c : Char) : Prop := c = '"' ∨ c = '\''

/-- The three ways to write a character: by a short escape, by its number and as it is. -/
theorem written_cases {quote : Char} (hq : IsQuote quote) (c : Char) :
    (∃ e, written quote c = ['\\', e] ∧ shortEscape? e = some c ∧ isPlain e = true) ∨
    (written quote c = '\\' :: 'u' :: Text.paddedHex 4 c.toNat ∧ c.toNat < 0x10000) ∨
    (written quote c = [c] ∧ c ≠ '\\' ∧ c ≠ quote ∧ isPlain c = true) := by
  by_cases h₁ : c = '\\'
  · subst h₁
    exact .inl ⟨'\\', rfl, rfl, rfl⟩
  by_cases h₂ : c = '\n'
  · subst h₂
    exact .inl ⟨'n', rfl, rfl, rfl⟩
  by_cases h₃ : c = '\r'
  · subst h₃
    exact .inl ⟨'r', rfl, rfl, rfl⟩
  by_cases h₄ : c = '\t'
  · subst h₄
    exact .inl ⟨'t', rfl, rfl, rfl⟩
  by_cases h₅ : c = '\x00'
  · subst h₅
    exact .inl ⟨'0', rfl, rfl, rfl⟩
  by_cases h₆ : c = quote
  · subst h₆
    rcases hq with rfl | rfl
    · exact .inl ⟨'"', rfl, rfl, rfl⟩
    · exact .inl ⟨'\'', rfl, rfl, rfl⟩
  rw [written, Constant.escaped, if_neg h₁, if_neg h₂, if_neg h₃, if_neg h₄, if_neg h₅, if_neg h₆]
  by_cases h₇ : Text.isControl c ∨ Text.isLineSeparator c
  · rw [if_pos h₇]
    refine .inr (.inl ⟨by simp [Text.paddedHex, Text.padded, List.flatMap_map], ?_⟩)
    exact toNat_lt_of_not_isPlain (isPlain_eq_false_iff.2 h₇)
  · rw [if_neg h₇]
    exact .inr (.inr ⟨by simp, h₁, h₆, by simpa using mt isPlain_eq_false_iff.1 h₇⟩)

theorem isPlain_of_mem_written {quote c d : Char} (hq : IsQuote quote) (h : d ∈ written quote c) :
    isPlain d = true := by
  have hdigit : ∀ n < 16, isPlain (Nat.digitChar n) = true := by decide
  rcases written_cases hq c with ⟨e, he, _, hp⟩ | ⟨he, _⟩ | ⟨he, _, _, hp⟩
  · rw [he, List.mem_cons, List.mem_singleton] at h
    rcases h with rfl | rfl
    · rfl
    · exact hp
  · rw [he, List.mem_cons, List.mem_cons] at h
    rcases h with rfl | rfl | h
    · rfl
    · rfl
    · obtain ⟨n, hn, rfl⟩ := Text.mem_paddedHex h
      exact hdigit n hn
  · rw [he, List.mem_singleton] at h
    exact h ▸ hp

theorem endsLine_of_isPlain {c : Char} (h : isPlain c = true) : endsLine c = false := by
  cases he : endsLine c with
  | false => rfl
  | true =>
    simp only [endsLine, Bool.or_eq_true, beq_iff_eq] at he
    rcases he with ((rfl | rfl) | rfl) | he
    · cases h
    · cases h
    · cases h
    · simp [isPlain, he] at h

theorem readBody_cons {quote c : Char} (hb : c ≠ '\\') (rest : List Char) :
    readBody quote (c :: rest) = if c = quote then some ([], rest) else if endsLine c then none
      else readBehind c (readBody quote rest) := by
  rw [readBody]
  · simp only [hb, false_or]
  · exact fun _ _ _ _ _ h => absurd h hb
  · exact fun _ _ h => absurd h hb

theorem readBody_short {quote e c : Char} (h : shortEscape? e = some c) (rest : List Char) :
    readBody quote ('\\' :: e :: rest) = readBehind c (readBody quote rest) := by
  have hu : e ≠ 'u' := by
    rintro rfl
    cases h
  rw [readBody, h, Option.bind_some]
  exact fun _ _ _ _ _ he => absurd he hu

/-- A character is read back from what it is written as, whatever follows. -/
theorem readBody_written {quote : Char} (hq : IsQuote quote) (c : Char) (rest : List Char) :
    readBody quote (written quote c ++ rest) = readBehind c (readBody quote rest) := by
  rcases written_cases hq c with ⟨e, he, hs, _⟩ | ⟨he, hc⟩ | ⟨he, hb, hn, hp⟩
  · rw [he]
    exact readBody_short hs rest
  · obtain ⟨x, y, z, w, hx, hr⟩ := Text.exists_paddedHex hc
    have hu : ofUnit? c.toNat = some c := by
      have hv : c.toNat.isValidChar := c.valid
      rw [ofUnit?, if_pos hv, Char.ofNat_toNat]
    rw [he, hx]
    simp only [List.cons_append, List.nil_append, readBody, hr, Option.bind_some, hu]
  · rw [he, List.singleton_append, readBody_cons hb, if_neg hn,
      if_neg (by simp [endsLine_of_isPlain hp])]

theorem readBody_flatMap {quote : Char} (hq : IsQuote quote) (cs rest : List Char) :
    readBody quote (cs.flatMap (written quote) ++ quote :: rest) = some (cs, rest) := by
  induction cs with
  | nil =>
    have hb : quote ≠ '\\' := by
      rcases hq with rfl | rfl <;> decide
    rw [List.flatMap_nil, List.nil_append, readBody_cons hb, if_pos rfl]
  | cons c cs ih =>
    rw [List.flatMap_cons, List.append_assoc, readBody_written hq, ih]
    rfl

theorem read_quoted {quote : Char} (hq : IsQuote quote) (cs : List Char) (rest : String) :
    read quote (String.join (Constant.quoted quote cs) ++ rest) = some (String.ofList cs, rest) := by
  rw [read, String.toList_append, toList_quoted]
  simp [readBody_flatMap hq]

theorem all_isPlain_quoted {quote : Char} (hq : IsQuote quote) (cs : List Char) :
    (String.join (Constant.quoted quote cs)).toList.all isPlain = true := by
  have hp : isPlain quote = true := by
    rcases hq with rfl | rfl <;> rfl
  rw [toList_quoted, List.all_eq_true]
  intro d hd
  rcases List.mem_cons.1 hd with rfl | hd
  · exact hp
  · rcases List.mem_append.1 hd with hd | hd
    · obtain ⟨c, _, hc⟩ := List.mem_flatMap.1 hd
      exact isPlain_of_mem_written hq hc
    · exact List.mem_singleton.1 hd ▸ hp

/-- Literals of strings and characters read back whatever follows them, and none of their characters is a
control character or ends a line. -/
theorem read_source (s rest : String) (c : Char) :
    read '"' ((Constant.string s).source ++ rest) = some (s, rest) ∧
    read '\'' ((Constant.character c).source ++ rest) = some (String.singleton c, rest) ∧
    (Constant.string s).source.toList.all isPlain = true ∧
    (Constant.character c).source.toList.all isPlain = true := by
  have hd : IsQuote '"' := .inl rfl
  have hs : IsQuote '\'' := .inr rfl
  refine ⟨?_, ?_, all_isPlain_quoted hd s.toList, all_isPlain_quoted hs [c]⟩
  · exact (read_quoted hd s.toList rest).trans (by rw [String.ofList_toList])
  · exact read_quoted hs [c] rest

example : read '"' "\"a\nb\"" = none := by decide

end GeneratorKit.Code.Literal
