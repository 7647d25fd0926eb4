import GeneratorKit.Code.Accessibility
import GeneratorKit.Number.Literal

set_option autoImplicit false

/-!
# Reading option values

A `Reader` turns the text of an option into a value of some type, or says why it cannot. The readers
know nothing of blanks around a text; that is for the option set to decide.
-/
namespace GeneratorKit.Options

inductive Reason where
  | emptyInteger
  | invalidDigit
  | tooLarge
  | tooSmall
  | notBoolean
  | emptyCharacter
  | manyCharacters
  | emptyFloat
  | invalidFloat
  | unknownAccessibility (e : Code.Accessibility.Unknown)
  | notFlag
  deriving DecidableEq, Repr

def Reason.message : Reason → String
  | .emptyInteger => "cannot parse integer from empty string"
  | .invalidDigit => "invalid digit found in string"
  | .tooLarge => "number too large to fit in target type"
  | .tooSmall => "number too small to fit in target type"
  | .notBoolean => "provided string was not `true` or `false`"
  | .emptyCharacter => "cannot parse char from empty string"
  | .manyCharacters => "too many characters in string"
  | .emptyFloat => "cannot parse float from empty string"
  | .invalidFloat => "invalid float literal"
  | .unknownAccessibility e => e.message
  | .notFlag => "expected 'true' or 'false'"

/-- How a type is read, and the value that stands for a missing option. -/
structure Reader (α : Type) where
  read : String → Except Reason α
  default : α

structure IntegerType where
  signed : Bool
  width : Nat
  deriving DecidableEq, Repr

namespace IntegerType

def greatest (t : IntegerType) : Nat :=
  if t.signed then Nat.pow 2 (t.width - 1) - 1 else Nat.pow 2 t.width - 1

/-- The magnitude of the least value of the type. -/
def least (t : IntegerType) : Nat := if t.signed then Nat.pow 2 (t.width - 1) else 0

/-- Reads digits up to the first one that is none or that takes the number past a limit. -/
def readDigits (limit : Nat) (past : Reason) : Nat → List Char → Except Reason Nat
  | n, [] => .ok n
  | n, c :: cs =>
    if ¬c.isDigit then .error .invalidDigit
    else
      let next := n * 10 + (c.toNat - '0'.toNat)
      if limit < next then .error past else readDigits limit past next cs

def read (t : IntegerType) (s : String) : Except Reason Int :=
  match s.toList with
  | [] => .error .emptyInteger
  | ['+'] | ['-'] => .error .invalidDigit
  | '+' :: cs => (readDigits t.greatest .tooLarge 0 cs).map Int.ofNat
  | '-' :: cs =>
    if t.signed then (readDigits t.least .tooSmall 0 cs).map fun n => -(n : Int)
    else .error .invalidDigit
  | cs => (readDigits t.greatest .tooLarge 0 cs).map Int.ofNat

end IntegerType

namespace Reader

def string : Reader String := ⟨.ok, ""⟩

def integer (t : IntegerType) : Reader Int := ⟨t.read, 0⟩

def boolean : Reader Bool where
  read s := if s = "true" then .ok true else if s = "false" then .ok false else .error .notBoolean
  default := false

def character : Reader Char where
  read s := match s.toList with
    | [] => .error .emptyCharacter
    | [c] => .ok c
    | _ => .error .manyCharacters
  default := '\x00'

def float {α : Type} (read? : String → Option α) (zero : α) : Reader α where
  read s := match read? s with
    | some x => .ok x
    | none => .error (if s = "" then .emptyFloat else .invalidFloat)
  default := zero

def single : Reader Number.Single := float Number.Single.read? ⟨0⟩

def double : Reader Number.Double := float Number.Double.read? ⟨0⟩

def accessibility : Reader Code.Accessibility where
  read s := (Code.Accessibility.read s).mapError .unknownAccessibility
  default := .publicAccess

end Reader

end GeneratorKit.Options
