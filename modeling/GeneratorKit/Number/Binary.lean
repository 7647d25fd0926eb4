set_option autoImplicit false

/-!
# Binary floating numbers

Interchange formats as bit patterns. A pattern stands for a `Value`; a quotient of natural numbers is
rounded to the nearest pattern, ties to the even one. Two numbers are compared as numbers: the zeros
are equal, and a NaN equals nothing.
-/
namespace GeneratorKit.Number

/-- What a bit pattern stands for; a finite number is `± significand * 2 ^ place`. -/
inductive Value where
  | nan
  | infinite (negative : Bool)
  | finite (negative : Bool) (significand : Nat) (place : Int)
  deriving DecidableEq, Repr

/-- The widths of the exponent and of the stored fraction. -/
structure Format where
  exponent : Nat
  fraction : Nat
  deriving DecidableEq, Repr

namespace Format

def single : Format := ⟨8, 23⟩

def double : Format := ⟨11, 52⟩

/-- The place of the last bit of the smallest numbers. -/
def least (f : Format) : Int := 2 - Int.ofNat (Nat.pow 2 (f.exponent - 1)) - f.fraction

def infinity (f : Format) : Nat := (Nat.pow 2 f.exponent - 1) * Nat.pow 2 f.fraction

def sign (f : Format) : Nat := Nat.pow 2 (f.exponent + f.fraction)

def isNegative (f : Format) (bits : Nat) : Bool := f.sign ≤ bits

def nan (f : Format) : Nat := f.infinity + Nat.pow 2 (f.fraction - 1)

def value (f : Format) (bits : Nat) : Value :=
  let magnitude := bits % f.sign
  let field := magnitude / Nat.pow 2 f.fraction
  let fraction := magnitude % Nat.pow 2 f.fraction
  if field = Nat.pow 2 f.exponent - 1 then
    if fraction = 0 then .infinite (f.isNegative bits) else .nan
  else if field = 0 then .finite (f.isNegative bits) fraction f.least
  else .finite (f.isNegative bits) (Nat.pow 2 f.fraction + fraction) (f.least + field - 1)

/-- The pattern nearest to `num / den`, the even one of two; infinity when that is too large. -/
def round (f : Format) (num den : Nat) : Nat :=
  let scaled (place : Int) : Nat × Nat :=
    if 0 ≤ place then (num, den * Nat.pow 2 place.toNat) else (num * Nat.pow 2 (-place).toNat, den)
  let high : Int := Nat.log2 num - Nat.log2 den
  let (n, d) := scaled high
  let top := if d ≤ n then high else high - 1
  let place := max f.least (top - f.fraction)
  let (n, d) := scaled place
  let below := n / d
  let rest := 2 * (n % d)
  let nearest := if d < rest ∨ (rest = d ∧ below % 2 = 1) then below + 1 else below
  min f.infinity ((place - f.least).toNat * Nat.pow 2 f.fraction + nearest)

/-- The pattern nearest to `digits * 10 ^ exponent`. Past 400 places on either side of the point
every format of this module is at infinity or at zero, so the power is not computed. -/
def ofDecimal (f : Format) (digits : Nat) (exponent : Int) : Nat :=
  let places : Int := exponent + (Nat.toDigits 10 digits).length
  if digits = 0 ∨ places < -400 then 0
  else if 400 < places then f.infinity
  else if 0 ≤ exponent then f.round (digits * Nat.pow 10 exponent.toNat) 1
  else f.round digits (Nat.pow 10 (-exponent).toNat)

/-- Equality of the numbers that two patterns stand for. -/
def equal (f : Format) (a b : Nat) : Bool :=
  match f.value a, f.value b with
  | .nan, _ | _, .nan => false
  | .finite _ 0 _, .finite _ 0 _ => true
  | x, y => x == y

end Format

structure Single where
  bits : UInt32

structure Double where
  bits : UInt64

namespace Single

def value (x : Single) : Value := Format.single.value x.bits.toNat

instance : BEq Single := ⟨fun x y => Format.single.equal x.bits.toNat y.bits.toNat⟩

end Single

namespace Double

def value (x : Double) : Value := Format.double.value x.bits.toNat

instance : BEq Double := ⟨fun x y => Format.double.equal x.bits.toNat y.bits.toNat⟩

end Double

end GeneratorKit.Number
