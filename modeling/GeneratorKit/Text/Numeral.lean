set_option autoImplicit false

/-!
# Numerals

Decimal and hexadecimal numerals, written and read digit by digit. What is written reads back
(`readDecimal_toDigits`), so different numbers have different numerals; a numeral in which no zero leads is
the written one (`toDigits_of_readDecimal`).
-/
namespace GeneratorKit.Text

def decimal (n : Nat) : String := String.ofList (Nat.toDigits 10 n)

def signedDecimal (n : Int) : String := if n < 0 then "-" ++ decimal n.natAbs else decimal n.natAbs

/-- The zeros that digits lack to a width. -/
def padding (width : Nat) (digits : List Char) : List Char :=
  List.replicate (width - digits.length) '0'

def padded (width : Nat) (digits : List Char) : List Char := padding width digits ++ digits

def paddedDecimal (width n : Nat) : String := String.ofList (padded width (Nat.toDigits 10 n))

/-- The lower-case hexadecimal digits of a number, filled up to a width. -/
def paddedHex (width n : Nat) : List Char := padded width (Nat.toDigits 16 n)

/-- The number that one or more decimal digits denote; zeros may lead. -/
def readDecimal (cs : List Char) : Option Nat :=
  if cs ≠ [] ∧ cs.all Char.isDigit = true then some (Nat.ofDigitChars 10 cs 0) else none

theorem all_isDigit_toDigits (n : Nat) : (Nat.toDigits 10 n).all Char.isDigit = true :=
  List.all_eq_true.2 fun _ h => Nat.isDigit_of_mem_toDigits (by decide) (by decide) h

theorem readDecimal_toDigits (n : Nat) : readDecimal (Nat.toDigits 10 n) = some n := by
  rw [readDecimal, if_pos ⟨Nat.toDigits_ne_nil, all_isDigit_toDigits n⟩,
    Nat.ofDigitChars_ten_toDigits]

theorem exists_digitChar {c : Char} (h : c.isDigit = true) : ∃ d < 10, c = Nat.digitChar d := by
  obtain ⟨hlow, hhigh⟩ : 48 ≤ c.toNat ∧ c.toNat ≤ 57 := by
    simpa [Char.isDigit, UInt32.le_iff_toNat_le] using h
  refine ⟨c.toNat - 48, by omega, Char.toNat_inj.1 ?_⟩
  rw [Nat.toNat_digitChar_of_lt_ten (by omega)]
  omega

theorem head?_toDigits {n : Nat} (hn : n ≠ 0) : (Nat.toDigits 10 n).head? ≠ some '0' := by
  have hdigit : ∀ d < 10, d ≠ 0 → some d.digitChar ≠ some '0' := by decide
  induction n using Nat.strongRecOn with
  | ind n ih =>
    by_cases h : n < 10
    · rw [Nat.toDigits_of_lt_base h]
      exact hdigit n h hn
    · obtain ⟨d, ds, hds⟩ := List.exists_cons_of_ne_nil (Nat.toDigits_ne_nil (n := n / 10) (b := 10))
      have hhead := ih (n / 10) (by omega) (by omega)
      rw [hds] at hhead
      rw [Nat.toDigits_of_base_le (by decide) (by omega), hds]
      exact hhead

theorem toDigits_append {n : Nat} (hn : 0 < n) {cs : List Char} (h : cs.all Char.isDigit = true) :
    Nat.toDigits 10 n ++ cs = Nat.toDigits 10 (Nat.ofDigitChars 10 cs n) := by
  induction cs generalizing n with
  | nil => rw [List.append_nil, Nat.ofDigitChars_nil]
  | cons c cs ih =>
    obtain ⟨hc, hcs⟩ := Bool.and_eq_true_iff.1 (List.all_cons.symm.trans h)
    obtain ⟨d, hd, rfl⟩ := exists_digitChar hc
    have hone : Nat.toDigits 10 n ++ [d.digitChar] = Nat.toDigits 10 (10 * n + d) := by
      rw [← Nat.toDigits_of_lt_base hd]
      exact Nat.toDigits_append_toDigits (by decide) hn hd
    rw [Nat.ofDigitChars_cons_digitChar_of_lt_ten hd, ← ih (by omega) hcs, ← hone, List.append_assoc,
      List.singleton_append]

/-- A numeral in which no zero leads is the one that is written for its number. -/
theorem toDigits_of_readDecimal {cs : List Char} {n : Nat} (h : readDecimal cs = some n)
    (hz : cs.head? ≠ some '0') : Nat.toDigits 10 n = cs := by
  obtain ⟨⟨hne, hall⟩, hn⟩ := Option.ite_none_right_eq_some.1 h
  obtain ⟨c, cs, rfl⟩ := List.exists_cons_of_ne_nil hne
  obtain ⟨hc, hcs⟩ := Bool.and_eq_true_iff.1 (List.all_cons.symm.trans hall)
  obtain ⟨d, hd, rfl⟩ := exists_digitChar hc
  have hpos : 0 < d := by
    refine Nat.pos_of_ne_zero fun hzero => hz ?_
    rw [hzero]
    rfl
  rw [← Option.some.inj hn, Nat.ofDigitChars_cons_digitChar_of_lt_ten hd, Nat.mul_zero, Nat.zero_add,
    ← toDigits_append hpos hcs, Nat.toDigits_of_lt_base hd, List.singleton_append]

theorem decimal_inj {m n : Nat} : decimal m = decimal n ↔ m = n := by
  refine ⟨fun h => ?_, fun h => h ▸ rfl⟩
  have hd : Nat.toDigits 10 m = Nat.toDigits 10 n := by
    simpa [decimal] using congrArg String.toList h
  simpa [readDecimal_toDigits] using congrArg readDecimal hd

theorem isDigit_of_mem_decimal {n : Nat} {c : Char} (h : c ∈ (decimal n).toList) : c.isDigit = true := by
  rw [decimal, String.toList_ofList] at h
  exact List.all_eq_true.1 (all_isDigit_toDigits n) c h

theorem minus_decimal_ne (m n : Nat) : "-" ++ decimal m ≠ decimal n := by
  intro h
  have hmem : '-' ∈ (decimal n).toList := by
    rw [← h, String.toList_append]
    exact List.mem_cons_self
  cases isDigit_of_mem_decimal hmem

theorem signedDecimal_inj {m n : Int} : signedDecimal m = signedDecimal n ↔ m = n := by
  refine ⟨fun h => ?_, fun h => h ▸ rfl⟩
  unfold signedDecimal at h
  split at h <;> split at h
  · have habs := decimal_inj.1 ((String.append_right_inj "-").1 h)
    omega
  · exact absurd h (minus_decimal_ne _ _)
  · exact absurd h.symm (minus_decimal_ne _ _)
  · have habs := decimal_inj.1 h
    omega

/-- The last character of a numeral is a digit. -/
theorem exists_reverse_signedDecimal (n : Int) :
    ∃ c cs, (signedDecimal n).toList.reverse = c :: cs ∧ c.isDigit = true := by
  obtain ⟨c, cs, hcs⟩ : ∃ c cs, (decimal n.natAbs).toList.reverse = c :: cs := by
    refine List.exists_cons_of_ne_nil ?_
    simp [decimal]
  have hc : c.isDigit = true := isDigit_of_mem_decimal (List.mem_reverse.1 (hcs ▸ List.mem_cons_self))
  rw [signedDecimal]
  split
  · refine ⟨c, cs ++ ['-'], ?_, hc⟩
    rw [String.toList_append, List.reverse_append, hcs]
    rfl
  · exact ⟨c, cs, hcs, hc⟩

def hexDigit? (c : Char) : Option Nat :=
  if c.isDigit then some (c.toNat - '0'.toNat)
  else if 'a' ≤ c ∧ c ≤ 'f' then some (c.toNat - 'a'.toNat + 10)
  else if 'A' ≤ c ∧ c ≤ 'F' then some (c.toNat - 'A'.toNat + 10)
  else none

def readHex (cs : List Char) : Option Nat := do
  let digits ← cs.mapM hexDigit?
  return digits.foldl (fun n d => n * 16 + d) 0

theorem hexDigit?_digitChar : ∀ d < 16, hexDigit? d.digitChar = some d := by decide

theorem readHex_concat (cs : List Char) (c : Char) :
    readHex (cs ++ [c]) = (readHex cs).bind fun n => (hexDigit? c).map fun d => n * 16 + d := by
  cases hc : cs.mapM hexDigit? <;> cases hd : hexDigit? c <;> simp [readHex, hc, hd]

theorem readHex_toDigits (n : Nat) : readHex (Nat.toDigits 16 n) = some n := by
  induction n using Nat.strongRecOn with
  | ind n ih =>
    by_cases h : n < 16
    · rw [Nat.toDigits_of_lt_base h, ← List.nil_append [n.digitChar], readHex_concat,
        hexDigit?_digitChar n h]
      simp [readHex]
    · rw [Nat.toDigits_of_base_le (by decide) (by omega), readHex_concat, ih (n / 16) (by omega),
        hexDigit?_digitChar (n % 16) (by omega)]
      simp only [Option.bind_some, Option.map_some, Option.some.injEq]
      omega

theorem readHex_zero_cons (cs : List Char) : readHex ('0' :: cs) = readHex cs := by
  cases hc : cs.mapM hexDigit? <;> simp [readHex, hc, hexDigit?]

theorem readHex_paddedHex (width n : Nat) : readHex (paddedHex width n) = some n := by
  rw [paddedHex, padded, padding]
  induction width - (Nat.toDigits 16 n).length with
  | zero => exact readHex_toDigits n
  | succ k ih => rw [List.replicate_succ, List.cons_append, readHex_zero_cons, ih]

theorem mem_toDigits {n : Nat} {c : Char} (h : c ∈ Nat.toDigits 16 n) : ∃ d < 16, c = Nat.digitChar d := by
  induction n using Nat.strongRecOn with
  | ind n ih =>
    by_cases hn : n < 16
    · rw [Nat.toDigits_of_lt_base hn, List.mem_singleton] at h
      exact ⟨n, hn, h⟩
    · rw [Nat.toDigits_of_base_le (by decide) (by omega), List.mem_append, List.mem_singleton] at h
      rcases h with h | h
      · exact ih (n / 16) (by omega) h
      · exact ⟨n % 16, by omega, h⟩

theorem mem_paddedHex {width n : Nat} {c : Char} (h : c ∈ paddedHex width n) :
    ∃ d < 16, c = Nat.digitChar d := by
  rcases List.mem_append.1 h with h | h
  · exact ⟨0, by decide, (List.mem_replicate.1 h).2⟩
  · exact mem_toDigits h

theorem length_paddedHex {width n : Nat} (hw : 0 < width) (h : n < Nat.pow 16 width) :
    (paddedHex width n).length = width := by
  have hd := (Nat.length_toDigits_le_iff (b := 16) (by decide) hw).2 h
  rw [paddedHex, padded, padding, List.length_append, List.length_replicate]
  omega

/-- A number of at most four digits, as an escape writes it. -/
theorem exists_paddedHex {n : Nat} (h : n < 0x10000) :
    ∃ a b c d, paddedHex 4 n = [a, b, c, d] ∧ readHex [a, b, c, d] = some n := by
  have hl : (paddedHex 4 n).length = 4 := length_paddedHex (by decide) h
  obtain ⟨a, b, c, d, he⟩ : ∃ a b c d, paddedHex 4 n = [a, b, c, d] := by
    match paddedHex 4 n, hl with
    | [a, b, c, d], _ => exact ⟨a, b, c, d, rfl⟩
  exact ⟨a, b, c, d, he, he ▸ readHex_paddedHex 4 n⟩

end GeneratorKit.Text
