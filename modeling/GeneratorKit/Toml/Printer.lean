import GeneratorKit.Number.Shortest
import GeneratorKit.Toml.Value

set_option autoImplicit false

/-!
# Writing TOML values

Values on one line, as they stand after an equals sign. A string takes the first of five forms that
can hold it without changing its characters, or else the escaped one.
-/
namespace GeneratorKit.Toml

def isControl (c : Char) : Bool := c.toNat < 0x20 || c.toNat == 0x7F

def longestRun (c : Char) (cs : List Char) : Nat :=
  (cs.foldl (fun (now, most) d =>
    let now := if d = c then now + 1 else 0
    (now, max now most)) (0, 0)).2

def escaped (multiline : Bool) (c : Char) : String :=
  if c = '\x08' then "\\b"
  else if c = '\t' then "\\t"
  else if c = '\n' then (if multiline then "\n" else "\\n")
  else if c = '\x0c' then "\\f"
  else if c = '\r' then "\\r"
  else if c = '\\' then "\\\\"
  else if isControl c then "\\u" ++ String.ofList ((Text.paddedHex 4 c.toNat).map Char.toUpper)
  else String.singleton c

/-- The characters between double quotes. A quote is escaped; on many lines only every third of a
run is. -/
def escapedBody (multiline : Bool) : Nat → List Char → String
  | _, [] => ""
  | seen, c :: cs =>
    if c = '"' then
      if multiline ∧ seen < 2 then "\"" ++ escapedBody multiline (seen + 1) cs
      else "\\\"" ++ escapedBody multiline 0 cs
    else escaped multiline c ++ escapedBody multiline 0 cs

def stringText (s : String) : String :=
  let cs := s.toList
  let control := cs.any fun c => isControl c && c != '\t' && c != '\n'
  let backslash := cs.contains '\\'
  let lines := cs.contains '\n'
  let double := longestRun '"' cs
  let single := longestRun '\'' cs
  let opening := if lines then "\n" else ""
  let manyLines := "\"\"\"" ++ opening ++ escapedBody true 0 cs ++ "\"\"\""
  let oneLine := "\"" ++ escapedBody false 0 cs ++ "\""
  if !control && !backslash && double == 0 && !lines then oneLine
  else if !control && single == 0 && !lines then "'" ++ s ++ "'"
  else if !control && !backslash && double ≤ 2 then manyLines
  else if !control && single ≤ 2 then "'''" ++ opening ++ s ++ "'''"
  else if lines then manyLines
  else oneLine

def isBareKey (cs : List Char) : Bool :=
  cs ≠ [] && cs.all fun c => c.isAlphanum || c == '_' || c == '-'

def keyText (s : String) : String :=
  let cs := s.toList
  let control := cs.any fun c => isControl c && c != '\t'
  let quoted := "\"" ++ escapedBody false 0 cs ++ "\""
  if isBareKey cs then s
  else if !control && !cs.contains '\\' && !cs.contains '"' then quoted
  else if !control && !cs.contains '\'' then "'" ++ s ++ "'"
  else quoted

def floatText (x : Number.Double) : String :=
  match x.value with
  | .nan => "nan"
  | .infinite negative => if negative then "-inf" else "inf"
  | .finite negative significand place =>
    let text := String.join (Number.finiteParts Number.Format.double negative significand place)
    if text.toList.contains '.' then text else text ++ ".0"

def Scalar.text : Scalar → String
  | .string s => stringText s
  | .integer n => Text.signedDecimal n
  | .float x => floatText x
  | .boolean b => if b then "true" else "false"
  | .dateTime d => d.text

mutual

def Value.text : Value Scalar → String
  | .scalar s => s.text
  | .array items => "[" ++ ", ".intercalate (itemTexts items) ++ "]"
  | .table [] => "\x7b\x7d"
  | .table entries => "\x7b " ++ ", ".intercalate (entryTexts entries) ++ " \x7d"

def itemTexts : List (Value Scalar) → List String
  | [] => []
  | v :: vs => Value.text v :: itemTexts vs

def entryTexts : List (String × Value Scalar) → List String
  | [] => []
  | (k, v) :: es => (keyText k ++ " = " ++ Value.text v) :: entryTexts es

end

end GeneratorKit.Toml
