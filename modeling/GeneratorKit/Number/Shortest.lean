import GeneratorKit.Number.Binary

set_option autoImplicit false

/-!
# Shortest decimals

A finite number is written with the fewest digits that read back. The decimal grids `10 ^ e` are
searched from coarse to fine; the first one with a point in the interval of reals that round to the
number gives the digits. Of two such points the nearer one is taken, the upper one when both are
equally near.
-/
namespace GeneratorKit.Number

/-- The multiple of `cell` next to `v` that lies between `lo` and `hi`, both ends included iff
`closed`. -/
def gridPoint? (closed : Bool) (lo v hi cell : Nat) : Option Nat :=
  let n := v / cell
  let below := if closed then lo ≤ n * cell else lo < n * cell
  let above := if closed then (n + 1) * cell ≤ hi else (n + 1) * cell < hi
  if below ∧ above then some (if 2 * (v % cell) < cell then n else n + 1)
  else if below then some n
  else if above then some (n + 1)
  else none

/-- Searches the grids from `10 ^ e` downwards for a point between `lo / den` and `hi / den`. -/
def searchGrids (closed : Bool) (lo v hi den : Nat) : Nat → Int → Nat × Int
  | 0, e => (0, e)
  | steps + 1, e =>
    let scale := Nat.pow 10 (-e).toNat
    match gridPoint? closed (lo * scale) (v * scale) (hi * scale) (den * Nat.pow 10 e.toNat) with
    | some digits => (digits, e)
    | none => searchGrids closed lo v hi den steps (e - 1)

/-- The shortest `digits * 10 ^ e` for `significand * 2 ^ place`. The interval is counted in quarters
of the last place, since below a power of two it is half as wide. -/
def shortest (f : Format) (significand : Nat) (place : Int) : Nat × Int :=
  let unit := Nat.pow 2 (place - 2).toNat
  let den := Nat.pow 2 (2 - place).toNat
  let lo := if significand = Nat.pow 2 f.fraction then 4 * significand - 1 else 4 * significand - 2
  let hi := (4 * significand + 2) * unit
  let log : Int := Nat.log2 hi - Nat.log2 den + 1
  let coarsest := max (log * 31 / 100) (log * 3 / 10) + 1
  searchGrids (significand % 2 = 0) (lo * unit) (4 * significand * unit) hi den 64 coarsest

/-- At most 64 zeros are written at a time. -/
def zeros (n : Nat) : List String :=
  let whole := String.ofList (List.replicate 64 '0')
  List.replicate (n / 64) whole ++
    if n % 64 = 0 then [] else [String.ofList (List.replicate (n % 64) '0')]

/-- The decimal without an exponent, in the parts in which it is written. -/
def positional (digits : Nat) (e : Int) : List String :=
  let numeral := Nat.toDigits 10 digits
  let point : Int := numeral.length + e
  if digits = 0 then ["0"]
  else if point ≤ 0 then ["0."] ++ zeros (-point).toNat ++ [String.ofList numeral]
  else if e < 0 then
    [String.ofList (numeral.take point.toNat), ".", String.ofList (numeral.drop point.toNat)]
  else [String.ofList numeral] ++ zeros e.toNat

/-- The shortest decimal of `± significand * 2 ^ place`, in the parts in which it is written. -/
def finiteParts (f : Format) (negative : Bool) (significand : Nat) (place : Int) : List String :=
  (if negative then ["-"] else []) ++
    if significand = 0 then ["0"]
    else
      let (digits, e) := shortest f significand place
      positional digits e

end GeneratorKit.Number
