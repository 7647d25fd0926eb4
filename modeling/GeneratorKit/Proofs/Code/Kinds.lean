import GeneratorKit.Proofs.Code.Literal

set_option autoImplicit false

/-!
# What a literal tells

A literal tells the kind of its constant: by the quote or the suffix with which it ends and, where the name of a
special floating value says nothing there, by the type with which it begins (`Literal.kind?_source`). Behind the
suffix only one constant of the kind is written like that, unless it is a floating one (`source_determines`).
-/
namespace GeneratorKit.Code

namespace Constant
open Number Text

inductive Kind where
  | null
  | boolean
  | character
  | string
  | int
  | uint
  | long
  | ulong
  | single
  | double
  | decimal
  deriving DecidableEq, Repr

def kind : Constant → Kind
  | .null => .null
  | .boolean _ => .boolean
  | .character _ => .character
  | .string _ => .string
  | .int _ => .int
  | .uint _ => .uint
  | .long _ => .long
  | .ulong _ => .ulong
  | .single _ => .single
  | .double _ => .double
  | .decimal _ => .decimal

/-- The kinds that hold a floating number. -/
def Kind.IsFloating (k : Kind) : Prop := k = .single ∨ k = .double

end Constant

namespace Literal
open Constant Number Text

/-- The kind that the last characters settle, the last one first. -/
def kindOfEnd? : List Char → Option Kind
  | '\'' :: _ => some .character
  | '"' :: _ => some .string
  | 'm' :: _ => some .decimal
  | 'f' :: _ => some .single
  | 'd' :: _ => some .double
  | 'L' :: 'u' :: _ => some .ulong
  | 'L' :: _ => some .long
  | 'u' :: _ => some .uint
  | 'l' :: _ => some .null
  | 'e' :: _ => some .boolean
  | c :: _ => if c.isDigit then some .int else none
  | [] => none

/-- The floating type that a name begins with. -/
def kindOfStart? : List Char → Option Kind
  | 'f' :: _ => some .single
  | 'd' :: _ => some .double
  | _ => none

def kind? (s : String) : Option Kind := (kindOfEnd? s.toList.reverse).or (kindOfStart? s.toList)

theorem kind?_of_end {s : String} {k : Kind} (h : kindOfEnd? s.toList.reverse = some k) : kind? s = some k := by
  rw [kind?, h, Option.some_or]

theorem toList_reverse_append (s suffix : String) :
    (s ++ suffix).toList.reverse = suffix.toList.reverse ++ s.toList.reverse := by
  rw [String.toList_append, List.reverse_append]

theorem toList_reverse_quoted (quote : Char) (cs : List Char) :
    ∃ rest, (String.join (quoted quote cs)).toList.reverse = quote :: rest := by
  refine ⟨(cs.flatMap (written quote)).reverse ++ [quote], ?_⟩
  rw [toList_quoted]
  simp

theorem join_integer (n : Int) (suffix : String) :
    String.join (integer n suffix) = signedDecimal n ++ suffix := by
  apply String.toList_inj.1
  rw [integer, signedDecimal]
  split <;> simp

theorem source_decimal (digits : String) : (Constant.decimal digits).source = digits ++ "m" := by
  simp [source, parts]

theorem kindOfEnd?_of_isDigit {c : Char} (h : c.isDigit = true) (cs : List Char) :
    kindOfEnd? (c :: cs) = some .int := by
  unfold kindOfEnd?
  split <;> simp_all [Char.isDigit]

theorem kindOfEnd?_long {c : Char} (h : c.isDigit = true) (cs : List Char) :
    kindOfEnd? ('L' :: c :: cs) = some .long := by
  have hu : c ≠ 'u' := by
    rintro rfl
    cases h
  simp [kindOfEnd?, hu]

theorem kind?_of_start {s : String} {k : Kind} (hend : kindOfEnd? s.toList.reverse = none)
    (h : kindOfStart? s.toList = some k) : kind? s = some k := by
  rw [kind?, hend, h, Option.none_or]

/-- A floating literal ends with its suffix, or else in a way that tells nothing and then begins with its type. -/
theorem kind?_floating (f : Format) (v : Value) {keyword suffix : String} {k : Kind}
    (hend : ∀ cs, kindOfEnd? (suffix.toList.reverse ++ cs) = some k)
    (hstart : ∀ cs, kindOfStart? (keyword.toList ++ cs) = some k) :
    kind? (String.join (floating f v keyword suffix)) = some k := by
  have hnamed (name : String) (hname : ∀ cs, kindOfEnd? (name.toList.reverse ++ cs) = none) :
      kind? (keyword ++ name) = some k := by
    refine kind?_of_start ?_ ?_
    · rw [toList_reverse_append]
      exact hname _
    · rw [String.toList_append]
      exact hstart _
  cases v with
  | nan =>
    have hjoin : String.join (floating f .nan keyword suffix) = keyword ++ ".NaN" := by simp [floating]
    rw [hjoin]
    exact hnamed _ fun _ => rfl
  | infinite negative =>
    have hjoin : String.join (floating f (.infinite negative) keyword suffix) =
        keyword ++ ("." ++ (if negative then "Negative" else "Positive") ++ "Infinity") := by
      simp [floating, String.append_assoc]
    rw [hjoin]
    exact hnamed _ fun _ => by cases negative <;> rfl
  | finite negative significand place =>
    have hjoin : String.join (floating f (.finite negative significand place) keyword suffix) =
        String.join (finiteParts f negative significand place) ++ suffix := by
      simp [floating]
    rw [hjoin]
    refine kind?_of_end ?_
    rw [toList_reverse_append]
    exact hend _

theorem kind?_source (c : Constant) : kind? c.source = some c.kind := by
  cases c with
  | null => rfl
  | boolean v => cases v <;> rfl
  | character c =>
    obtain ⟨rest, hrest⟩ := toList_reverse_quoted '\'' [c]
    refine kind?_of_end ?_
    rw [source, parts, hrest]
    rfl
  | string s =>
    obtain ⟨rest, hrest⟩ := toList_reverse_quoted '"' s.toList
    refine kind?_of_end ?_
    rw [source, parts, hrest]
    rfl
  | int n =>
    obtain ⟨c, cs, hcs, hc⟩ := exists_reverse_signedDecimal n.toInt
    refine kind?_of_end ?_
    rw [source, parts, join_integer, String.append_empty, hcs]
    exact kindOfEnd?_of_isDigit hc cs
  | uint n =>
    refine kind?_of_end ?_
    rw [source, parts, join_integer, toList_reverse_append]
    rfl
  | long n =>
    obtain ⟨c, cs, hcs, hc⟩ := exists_reverse_signedDecimal n.toInt
    refine kind?_of_end ?_
    rw [source, parts, join_integer, toList_reverse_append, hcs]
    exact kindOfEnd?_long hc cs
  | ulong n =>
    refine kind?_of_end ?_
    rw [source, parts, join_integer, toList_reverse_append]
    rfl
  | single x => exact kind?_floating _ _ (fun _ => rfl) fun _ => rfl
  | double x => exact kind?_floating _ _ (fun _ => rfl) fun _ => rfl
  | decimal digits =>
    refine kind?_of_end ?_
    rw [source_decimal, toList_reverse_append]
    rfl

end Literal

namespace Constant
open Literal Number Text

variable {a b : Constant}

theorem kind_eq_of_source (h : a.source = b.source) : a.kind = b.kind :=
  Option.some_inj.1 ((kind?_source a).symm.trans (h ▸ kind?_source b))

theorem quoted_inj {quote : Char} (hq : IsQuote quote) {cs ds : List Char}
    (h : String.join (quoted quote cs) = String.join (quoted quote ds)) : cs = ds := by
  have hread := (read_quoted hq cs "").symm.trans (h ▸ read_quoted hq ds "")
  exact String.ofList_injective (Prod.mk.inj (Option.some.inj hread)).1

theorem integer_inj {m n : Int} {suffix : String}
    (h : String.join (integer m suffix) = String.join (integer n suffix)) : m = n := by
  rw [join_integer, join_integer] at h
  exact signedDecimal_inj.1 ((String.append_left_inj suffix).1 h)

/-- Within a kind, what is written in front of the suffix or between the quotes can be read back. -/
theorem eq_of_kind_of_source (hk : a.kind = b.kind) (hf : ¬ a.kind.IsFloating) (h : a.source = b.source) :
    a = b := by
  cases a with
  | null =>
    cases b with
    | null => rfl
    | _ => cases hk
  | boolean v =>
    cases b with
    | boolean w =>
      cases v <;> cases w
      · rfl
      · cases h
      · cases h
      · rfl
    | _ => cases hk
  | character c =>
    cases b with
    | character d => rw [List.singleton_inj.1 (quoted_inj (.inr rfl) h)]
    | _ => cases hk
  | string s =>
    cases b with
    | string t => rw [String.toList_inj.1 (quoted_inj (.inl rfl) h)]
    | _ => cases hk
  | int m =>
    cases b with
    | int n => rw [Int32.toInt_inj.1 (integer_inj h)]
    | _ => cases hk
  | uint m =>
    cases b with
    | uint n => rw [UInt32.toNat_inj.1 (Int.ofNat.inj (integer_inj h))]
    | _ => cases hk
  | long m =>
    cases b with
    | long n => rw [Int64.toInt_inj.1 (integer_inj h)]
    | _ => cases hk
  | ulong m =>
    cases b with
    | ulong n => rw [UInt64.toNat_inj.1 (Int.ofNat.inj (integer_inj h))]
    | _ => cases hk
  | single x => exact absurd (.inl rfl) hf
  | double x => exact absurd (.inr rfl) hf
  | decimal digits =>
    cases b with
    | decimal digits' =>
      rw [source_decimal, source_decimal] at h
      rw [(String.append_left_inj "m").1 h]
    | _ => cases hk

/-- Constants that are written alike are of the same kind, and the same constant unless they are floating. -/
theorem source_determines (a b : Constant) (h : a.source = b.source) :
    a.kind = b.kind ∧ (¬ a.kind.IsFloating → a = b) := by
  have hk := kind_eq_of_source h
  exact ⟨hk, fun hf => eq_of_kind_of_source hk hf h⟩

-- Two different patterns are written as the same name, one number in two ways, and two kinds differ in a suffix.
theorem source_determines_nan :
    let a := Constant.single ⟨0x7FC00000⟩
    let b := Constant.single ⟨0xFFC00001⟩
    let c := Constant.ulong 18446744073709551615
    let d := Constant.ulong (0 - 1)
    (a.source = b.source ∧ a.kind = b.kind ∧ a.source = "float.NaN") ∧
      (c.source = d.source ∧ ¬ c.kind.IsFloating ∧ c = d) ∧
      (Constant.decimal "5uL").source ≠ (Constant.ulong 5).source := by
  intro a b c d
  have hab : a.source = b.source := by decide +kernel
  have hcd : c.source = d.source := by decide +kernel
  have hc : ¬ c.kind.IsFloating := by
    rintro (h | h) <;> cases h
  refine ⟨⟨hab, (source_determines a b hab).1, by decide +kernel⟩, ⟨hcd, hc, (source_determines c d hcd).2 hc⟩, ?_⟩
  intro h
  cases (source_determines _ _ h).1

end Constant

end GeneratorKit.Code
