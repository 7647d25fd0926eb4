import GeneratorKit.Number.Binary
import GeneratorKit.Text.Numeral

set_option autoImplicit false

/-!
# Reading floating numbers

A floating number is an optional sign and either a decimal or one of the words `inf`, `infinity` and
`nan` in any case.
-/
namespace GeneratorKit.Number

/-- An exponent part: nothing, or `e`, an optional sign and digits. -/
def exponentPart? : List Char → Option Int
  | [] => some 0
  | c :: cs =>
    if c ≠ 'e' ∧ c ≠ 'E' then none
    else match cs with
      | '-' :: ds => (Text.readDecimal ds).map fun n => -(n : Int)
      | '+' :: ds => (Text.readDecimal ds).map Int.ofNat
      | ds => (Text.readDecimal ds).map Int.ofNat

/-- Digits with at most one point among them and an exponent part, as `digits * 10 ^ exponent`. -/
def decimal? (cs : List Char) : Option (Nat × Int) := do
  let whole := cs.takeWhile Char.isDigit
  let rest := cs.dropWhile Char.isDigit
  let (fraction, rest) := match rest with
    | '.' :: ds => (ds.takeWhile Char.isDigit, ds.dropWhile Char.isDigit)
    | _ => ([], rest)
  let digits ← Text.readDecimal (whole ++ fraction)
  let exponent ← exponentPart? rest
  return (digits, exponent - fraction.length)

def Format.magnitude? (f : Format) (cs : List Char) : Option Nat :=
  match decimal? cs with
  | some (digits, exponent) => some (f.ofDecimal digits exponent)
  | none =>
    let word := String.ofList (cs.map Char.toLower)
    if word = "inf" ∨ word = "infinity" then some f.infinity
    else if word = "nan" then some f.nan
    else none

def Format.read? (f : Format) : List Char → Option Nat
  | '-' :: cs => (f.magnitude? cs).map (f.sign + ·)
  | '+' :: cs => f.magnitude? cs
  | cs => f.magnitude? cs

def Single.read? (s : String) : Option Single :=
  (Format.single.read? s.toList).map fun bits => ⟨UInt32.ofNat bits⟩

def Double.read? (s : String) : Option Double :=
  (Format.double.read? s.toList).map fun bits => ⟨UInt64.ofNat bits⟩

end GeneratorKit.Number
