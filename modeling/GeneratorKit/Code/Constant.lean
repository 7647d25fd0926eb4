import GeneratorKit.Number.Shortest
import GeneratorKit.Text.Classes
import GeneratorKit.Text.Numeral

set_option autoImplicit false

/-!
# Constants

Typed constants and their literals. A literal is produced in parts, in the order in which they are
written; `source` joins them.
-/
namespace GeneratorKit.Code
open Number

inductive Constant where
  | null
  | boolean (value : Bool)
  | character (value : Char)
  | string (value : String)
  | int (value : Int32)
  | uint (value : UInt32)
  | long (value : Int64)
  | ulong (value : UInt64)
  | single (value : Single)
  | double (value : Double)
  | decimal (digits : String)
  deriving BEq

namespace Constant

def escaped (quote c : Char) : List String :=
  if c = '\\' then ["\\\\"]
  else if c = '\n' then ["\\n"]
  else if c = '\r' then ["\\r"]
  else if c = '\t' then ["\\t"]
  else if c = '\x00' then ["\\0"]
  else if c = quote then ["\\", String.singleton c]
  else if Text.isControl c ∨ Text.isLineSeparator c then
    let digits := Nat.toDigits 16 c.toNat
    ["\\u"] ++ (Text.padding 4 digits).map String.singleton ++ [String.ofList digits]
  else [String.singleton c]

def quoted (quote : Char) (cs : List Char) : List String :=
  [String.singleton quote] ++ cs.flatMap (escaped quote) ++ [String.singleton quote]

def integer (n : Int) (suffix : String) : List String :=
  (if n < 0 then ["-"] else []) ++ [Text.decimal n.natAbs, suffix]

/-- A finite number with its suffix; the others by the names that the type `keyword` gives them. -/
def floating (f : Format) (v : Value) (keyword suffix : String) : List String :=
  match v with
  | .nan => [keyword, ".NaN"]
  | .infinite negative => [keyword, ".", if negative then "Negative" else "Positive", "Infinity"]
  | .finite negative significand place => finiteParts f negative significand place ++ [suffix]

def parts : Constant → List String
  | .null => ["null"]
  | .boolean true => ["true"]
  | .boolean false => ["false"]
  | .character c => quoted '\'' [c]
  | .string s => quoted '"' s.toList
  | .int n => integer n.toInt ""
  | .uint n => integer n.toNat "u"
  | .long n => integer n.toInt "L"
  | .ulong n => integer n.toNat "uL"
  | .single x => floating Format.single x.value "float" "f"
  | .double x => floating Format.double x.value "double" "d"
  | .decimal digits => [digits, "m"]

def source (c : Constant) : String := String.join c.parts

end Constant

end GeneratorKit.Code
