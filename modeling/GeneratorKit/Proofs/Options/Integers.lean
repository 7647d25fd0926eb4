import GeneratorKit.Proofs.Options.Padding

set_option autoImplicit false

/-!
# Integers among the options

An integer type reads an optional sign and as many digits as there are, and answers with the number that they denote
when it is one of the type (`IntegerType.read_eq_ok_iff`). The digits are added up with a check after each of them;
since the sum never falls again, a check fails exactly where the whole number is out of range. Among the options the
text is that without the blanks around it (`get_integer_readsExactly`).
-/
namespace GeneratorKit.Options
open Text

namespace IntegerType

/-- What an optional sign and one or more digits denote. A minus sign is for the signed types only. -/
inductive Spells (t : IntegerType) : List Char → Int → Prop where
  | plain {ds : List Char} {m : Nat} (h : readDecimal ds = some m) : Spells t ds m
  | plus {ds : List Char} {m : Nat} (h : readDecimal ds = some m) : Spells t ('+' :: ds) m
  | minus {ds : List Char} {m : Nat} (hs : t.signed = true) (h : readDecimal ds = some m) :
    Spells t ('-' :: ds) (-(m : Int))

/-- The numbers of the type: those of its width, in two's complement when it is signed. -/
def Holds (t : IntegerType) (n : Int) : Prop :=
  if t.signed = true then -(Nat.pow 2 (t.width - 1) : Int) ≤ n ∧ n < (Nat.pow 2 (t.width - 1) : Int)
  else 0 ≤ n ∧ n < (Nat.pow 2 t.width : Int)

section Digits

variable {limit m n : Nat} {past : Reason} {cs ds : List Char}

theorem le_ofDigitChars (n : Nat) (cs : List Char) : n ≤ Nat.ofDigitChars 10 cs n := by
  induction cs generalizing n with
  | nil => exact Nat.le_of_eq Nat.ofDigitChars_nil.symm
  | cons c cs ih =>
    have hnext := ih (10 * n + (c.toNat - '0'.toNat))
    rw [Nat.ofDigitChars_cons]
    omega

/-- With digits only, all checks on the way come to one of the number at the end. -/
theorem readDigits_of_all (hd : cs.all Char.isDigit = true) (hn : n ≤ limit) :
    readDigits limit past n cs =
      if Nat.ofDigitChars 10 cs n ≤ limit then .ok (Nat.ofDigitChars 10 cs n) else .error past := by
  induction cs generalizing n with
  | nil => rw [readDigits, Nat.ofDigitChars_nil, if_pos hn]
  | cons c cs ih =>
    obtain ⟨hc, hcs⟩ := Bool.and_eq_true_iff.1 (List.all_cons.symm.trans hd)
    have hnext : n * 10 + (c.toNat - '0'.toNat) = 10 * n + (c.toNat - '0'.toNat) := by omega
    rw [readDigits, if_neg (not_not_intro hc), Nat.ofDigitChars_cons]
    dsimp only
    rw [hnext]
    by_cases hlimit : limit < 10 * n + (c.toNat - '0'.toNat)
    · -- the sum never falls again, so what is too much here is too much at the end
      have hgrow := le_ofDigitChars (10 * n + (c.toNat - '0'.toNat)) cs
      rw [if_pos hlimit, if_neg (by omega)]
    · rw [if_neg hlimit, ih hcs (by omega)]

theorem all_of_readDigits (h : readDigits limit past n cs = .ok m) : cs.all Char.isDigit = true := by
  induction cs generalizing n with
  | nil => rfl
  | cons c cs ih =>
    rw [readDigits] at h
    split at h
    · cases h
    · next hc =>
      dsimp only at h
      split at h
      · cases h
      · rw [List.all_cons, Decidable.not_not.1 hc, ih h]
        rfl

theorem readDigits_of_readDecimal (h : readDecimal ds = some m) :
    readDigits limit past 0 ds = if m ≤ limit then .ok m else .error past := by
  obtain ⟨⟨_, hall⟩, hm⟩ := Option.ite_none_right_eq_some.1 h
  obtain rfl := Option.some.inj hm
  exact readDigits_of_all hall (Nat.zero_le limit)

theorem readDecimal_of_readDigits (hne : ds ≠ []) (h : readDigits limit past 0 ds = .ok m) :
    readDecimal ds = some m := by
  have hall := all_of_readDigits h
  have hread : readDecimal ds = some (Nat.ofDigitChars 10 ds 0) := if_pos ⟨hne, hall⟩
  rw [readDigits_of_readDecimal hread] at h
  split at h
  · rw [hread, Except.ok.inj h]
  · cases h

theorem exists_cons_of_readDecimal (h : readDecimal ds = some m) :
    ∃ c cs, ds = c :: cs ∧ c.isDigit = true := by
  obtain ⟨⟨hne, hall⟩, _⟩ := Option.ite_none_right_eq_some.1 h
  obtain ⟨c, cs, rfl⟩ := List.exists_cons_of_ne_nil hne
  exact ⟨c, cs, rfl, List.all_eq_true.1 hall c List.mem_cons_self⟩

end Digits

section Reading

variable {t : IntegerType} {s : String} {cs : List Char} {n : Int}

theorem holds_iff : t.Holds n ↔ -(t.least : Int) ≤ n ∧ n ≤ (t.greatest : Int) := by
  have hpow (k : Nat) : 0 < Nat.pow 2 k := Nat.two_pow_pos k
  have hsigned := hpow (t.width - 1)
  have hunsigned := hpow t.width
  unfold Holds least greatest
  split <;> omega

instance (t : IntegerType) (n : Int) : Decidable (t.Holds n) := decidable_of_iff _ holds_iff.symm

theorem read_unsigned {c : Char} (hc : c.isDigit = true) (hs : s.toList = c :: cs) :
    t.read s = (readDigits t.greatest .tooLarge 0 (c :: cs)).map Int.ofNat := by
  have hplus : c ≠ '+' := by
    rintro rfl
    cases hc
  have hminus : c ≠ '-' := by
    rintro rfl
    cases hc
  unfold IntegerType.read
  rw [hs]
  split
  · next h => cases h
  · next h => exact absurd (List.cons.inj h).1 hplus
  · next h => exact absurd (List.cons.inj h).1 hminus
  · next h => exact absurd (List.cons.inj h).1 hplus
  · next h => exact absurd (List.cons.inj h).1 hminus
  · rfl

theorem read_plus {c : Char} (hs : s.toList = '+' :: c :: cs) :
    t.read s = (readDigits t.greatest .tooLarge 0 (c :: cs)).map Int.ofNat := by
  unfold IntegerType.read
  rw [hs]
  rfl

theorem read_minus {c : Char} (ht : t.signed = true) (hs : s.toList = '-' :: c :: cs) :
    t.read s = (readDigits t.least .tooSmall 0 (c :: cs)).map fun m : Nat => -(m : Int) := by
  unfold IntegerType.read
  rw [hs]
  refine (if_pos ht).trans ?_
  cases readDigits t.least .tooSmall 0 (c :: cs) <;> rfl

/-- The number in its range, or the side on which it is out of range. -/
def bounded (t : IntegerType) (n : Int) : Except Reason Int :=
  if (t.greatest : Int) < n then .error .tooLarge
  else if n < -(t.least : Int) then .error .tooSmall else .ok n

theorem map_readDigits_greatest {ds : List Char} {m : Nat} (h : readDecimal ds = some m) :
    (readDigits t.greatest .tooLarge 0 ds).map Int.ofNat = t.bounded m := by
  rw [readDigits_of_readDecimal h, bounded]
  by_cases hm : m ≤ t.greatest
  · rw [if_pos hm, if_neg (by omega), if_neg (by omega)]
    rfl
  · rw [if_neg hm, if_pos (by omega)]
    rfl

theorem map_readDigits_least {ds : List Char} {m : Nat} (h : readDecimal ds = some m) :
    ((readDigits t.least .tooSmall 0 ds).map fun m : Nat => -(m : Int)) = t.bounded (-m) := by
  rw [readDigits_of_readDecimal h, bounded]
  by_cases hm : m ≤ t.least
  · rw [if_pos hm, if_neg (by omega), if_neg (by omega)]
    rfl
  · rw [if_neg hm, if_neg (by omega), if_pos (by omega)]
    rfl

/-- A number that is spelled out is read, or is refused for the side on which it is out of range. -/
theorem read_of_spells (h : t.Spells s.toList n) : t.read s = t.bounded n := by
  generalize hs : s.toList = cs at h
  cases h with
  | plain h =>
    obtain ⟨c, cs, rfl, hc⟩ := exists_cons_of_readDecimal h
    rw [read_unsigned hc hs, map_readDigits_greatest h]
  | plus h =>
    obtain ⟨c, cs, rfl, -⟩ := exists_cons_of_readDecimal h
    rw [read_plus hs, map_readDigits_greatest h]
  | minus ht h =>
    obtain ⟨c, cs, rfl, -⟩ := exists_cons_of_readDecimal h
    rw [read_minus ht hs, map_readDigits_least h]

theorem readDecimal_of_map {limit : Nat} {past : Reason} {f : Nat → Int} (hne : cs ≠ [])
    (h : (readDigits limit past 0 cs).map f = .ok n) : ∃ m, readDecimal cs = some m ∧ f m = n := by
  cases hread : readDigits limit past 0 cs with
  | ok m =>
    rw [hread] at h
    exact ⟨m, readDecimal_of_readDigits hne hread, Except.ok.inj h⟩
  | error e =>
    rw [hread] at h
    cases h

theorem spells_of_read (h : t.read s = .ok n) : t.Spells s.toList n := by
  have hread := h
  unfold IntegerType.read at h
  split at h
  · cases h
  · cases h
  · cases h
  · next ds hne hs =>
    obtain ⟨m, hm, rfl⟩ := readDecimal_of_map hne h
    rw [hs]
    exact .plus hm
  · next ds hne hs =>
    obtain ⟨c, cs, rfl⟩ := List.exists_cons_of_ne_nil hne
    split at h
    · next ht =>
      rw [read_minus ht hs] at hread
      obtain ⟨m, hm, rfl⟩ := readDecimal_of_map hne hread
      rw [hs]
      exact .minus ht hm
    · cases h
  · next hne _ _ _ _ =>
    obtain ⟨m, hm, rfl⟩ := readDecimal_of_map hne h
    exact .plain hm

theorem bounded_eq_ok_iff {m : Int} : t.bounded m = .ok n ↔ m = n ∧ t.Holds n := by
  rw [bounded, holds_iff]
  split
  · next hm => exact iff_of_false nofun (by omega)
  · split
    · next hm => exact iff_of_false nofun (by omega)
    · rw [Except.ok.injEq]
      omega

theorem read_eq_ok_iff : t.read s = .ok n ↔ t.Spells s.toList n ∧ t.Holds n := by
  constructor
  · intro h
    have hspells := spells_of_read h
    rw [read_of_spells hspells] at h
    exact ⟨hspells, (bounded_eq_ok_iff.1 h).2⟩
  · rintro ⟨hspells, hn⟩
    rw [read_of_spells hspells]
    exact bounded_eq_ok_iff.2 ⟨rfl, hn⟩

theorem read_of_above (h : t.Spells s.toList n) (hn : ∀ m, t.Holds m → m < n) :
    t.read s = .error .tooLarge := by
  have hgreatest : (t.greatest : Int) < n := hn _ (holds_iff.2 ⟨by omega, Int.le_refl _⟩)
  rw [read_of_spells h, bounded, if_pos hgreatest]

theorem read_of_below (h : t.Spells s.toList n) (hn : ∀ m, t.Holds m → n < m) :
    t.read s = .error .tooSmall := by
  have hleast : n < -(t.least : Int) := hn _ (holds_iff.2 ⟨Int.le_refl _, by omega⟩)
  rw [read_of_spells h, bounded, if_neg (by omega), if_pos hleast]

/-- The numeral of a number of the type, with a minus sign where it needs one. -/
theorem spells_signedDecimal (h : t.Holds n) : t.Spells (signedDecimal n).toList n := by
  have hread (k : Nat) : readDecimal (decimal k).toList = some k := by
    rw [decimal, String.toList_ofList, readDecimal_toDigits]
  rw [signedDecimal]
  split
  · next hneg =>
    have ht : t.signed = true := by
      unfold Holds at h
      split at h
      · assumption
      · omega
    have hminus : t.Spells ('-' :: (decimal n.natAbs).toList) (-(n.natAbs : Int)) := .minus ht (hread _)
    rw [show -(n.natAbs : Int) = n by omega] at hminus
    rw [String.toList_append]
    exact hminus
  · have hplain : t.Spells (decimal n.natAbs).toList (n.natAbs : Int) := .plain (hread _)
    rwa [show (n.natAbs : Int) = n by omega] at hplain

theorem read_signedDecimal (h : t.Holds n) : t.read (signedDecimal n) = .ok n :=
  read_eq_ok_iff.2 ⟨spells_signedDecimal h, h⟩

end Reading

end IntegerType

section Answers

variable {t : IntegerType} {o : Options} {key v : String}

/-- Reported with the key and the value as it stands, and with such a reason. -/
def Refused (key v reason : String) (x : Except Invalid (Option Int)) : Prop :=
  ∃ e : Reason, x = .error ⟨key, v, e⟩ ∧ e.message = reason

/-- What is answered for a value when an integer is wanted. -/
structure ReadsExactly (t : IntegerType) (key v : String) (x : Except Invalid (Option Int)) : Prop where
  value (n : Int) : x = .ok (some n) ↔ t.Spells (trim v).toList n ∧ t.Holds n
  refusal (h : ∀ n, t.Spells (trim v).toList n → ¬ t.Holds n) : ∃ reason, Refused key v reason x
  above {n : Int} (h : t.Spells (trim v).toList n) (hn : ∀ m, t.Holds m → m < n) :
    Refused key v "number too large to fit in target type" x
  below {n : Int} (h : t.Spells (trim v).toList n) (hn : ∀ m, t.Holds m → n < m) :
    Refused key v "number too small to fit in target type" x

theorem get_integer_eq (t : IntegerType) (h : o.property key = some v) :
    get (.integer t) o key = answer key v (t.read (trim v)) := by
  have hread (s : String) : (Reader.integer t).read s = t.read s := by rw [Reader.integer]
  rw [get_of_property _ h, (Reader.tolerant_integer t).readTrimmed_eq, hread]

theorem readsExactly_answer (t : IntegerType) (key v : String) :
    ReadsExactly t key v (answer key v (t.read (trim v))) where
  value n := by
    rw [← IntegerType.read_eq_ok_iff]
    cases t.read (trim v) <;> simp [answer]
  refusal h := by
    cases hread : t.read (trim v) with
    | ok n =>
      obtain ⟨hspells, hn⟩ := IntegerType.read_eq_ok_iff.1 hread
      exact absurd hn (h n hspells)
    | error e => exact ⟨e.message, e, rfl, rfl⟩
  above h hn := ⟨.tooLarge, by rw [IntegerType.read_of_above h hn, answer], rfl⟩
  below h hn := ⟨.tooSmall, by rw [IntegerType.read_of_below h hn, answer], rfl⟩

theorem property_insert (o : Options) (key v : String) :
    property (o.insert (propertyStart ++ key) v) key = some v := by
  rw [property, raw, OrderedMap.get?_insert, if_pos rfl]

theorem trim_signedDecimal {before after : String} (hb : Blank before) (ha : Blank after) {n : Int}
    (h : t.Holds n) : trim (before ++ signedDecimal n ++ after) = signedDecimal n := by
  rw [trim_padded hb ha, trim_of_solid (IntegerType.solid_of_read (IntegerType.read_signedDecimal h))]

/-- An integer type reads exactly the numerals of its numbers, and no number out of its range is read as another one.
Whatever number of the type is put among the options, with blanks around it, is the number that is read. -/
theorem get_integer_readsExactly (t : IntegerType) :
    (∀ (o : Options) (key v : String), o.property key = some v →
      ReadsExactly t key v (get (.integer t) o key)) ∧
    ∀ (o : Options) (key before after : String) (n : Int), Blank before → Blank after → t.Holds n →
      get (.integer t) (o.insert (propertyStart ++ key) (before ++ signedDecimal n ++ after)) key =
        .ok (some n) := by
  constructor
  · intro o key v h
    rw [get_integer_eq t h]
    exact readsExactly_answer t key v
  · intro o key before after n hb ha hn
    rw [get_integer_eq t (property_insert o key _), trim_signedDecimal hb ha hn, IntegerType.read_signedDecimal hn,
      answer]

-- The least number of 128 bits behind zeros, the number before it, and the greatest one without a sign.
theorem get_integer_readsExactly_bounds :
    let signed : IntegerType := ⟨true, 128⟩
    let unsigned : IntegerType := ⟨false, 128⟩
    let least := "\u3000-000170141183460469231731687303715884105728\n"
    let below := "-170141183460469231731687303715884105729"
    let greatest : Int := 340282366920938463463374607431768211455
    let o : Options := OrderedMap.ofList [("build_property.Least", least), ("build_property.Below", below)]
    o.property "Least" = some least ∧ ReadsExactly signed "Least" least (get (.integer signed) o "Least") ∧
      get (.integer signed) o "Least" = .ok (some (-170141183460469231731687303715884105728)) ∧
      o.property "Below" = some below ∧
      Refused "Below" below "number too small to fit in target type" (get (.integer signed) o "Below") ∧
      Blank "\t" ∧ Blank "" ∧ unsigned.Holds greatest ∧
      get (.integer unsigned) (o.insert (propertyStart ++ "Least") ("\t" ++ signedDecimal greatest ++ "")) "Least" =
        .ok (some greatest) := by
  intro signed unsigned least below greatest o
  have hleast : o.property "Least" = some least := by decide +kernel
  have hbelow : o.property "Below" = some below := by decide +kernel
  have hspells : signed.Spells (trim below).toList (-170141183460469231731687303715884105729) := by
    have htext : (trim below).toList = '-' :: "170141183460469231731687303715884105729".toList := by decide +kernel
    rw [htext]
    exact .minus rfl (by decide +kernel)
  have hout : ∀ m, signed.Holds m → (-170141183460469231731687303715884105729 : Int) < m := by
    intro m hm
    have hbound : (signed.least : Int) = 170141183460469231731687303715884105728 := by decide +kernel
    have hm' := (IntegerType.holds_iff.1 hm).1
    omega
  have hb : Blank "\t" := by decide
  have ha : Blank "" := by decide
  have hn : unsigned.Holds greatest := by decide +kernel
  have hreads := (get_integer_readsExactly signed).1 o
  exact ⟨hleast, hreads "Least" least hleast, by decide +kernel, hbelow,
    (hreads "Below" below hbelow).below hspells hout, hb, ha, hn,
    (get_integer_readsExactly unsigned).2 o "Least" "\t" "" greatest hb ha hn⟩

end Answers

end GeneratorKit.Options
