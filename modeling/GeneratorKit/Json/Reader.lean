import GeneratorKit.Json.Basic
import GeneratorKit.Text.Numeral

set_option autoImplicit false

/-!
# Reading JSON

A reader for whole texts. Each function returns what it read and the characters that follow. The
nesting of a text is bounded by its length alone; what decodes a value may set a limit of its own.
-/
namespace GeneratorKit.Json

def isSpace (c : Char) : Bool := c == ' ' || c == '\t' || c == '\n' || c == '\r'

def skipSpace (cs : List Char) : List Char := cs.dropWhile isSpace

/-- A part of a string: a character, or a 16-bit unit that was written as an escape. -/
inductive Piece where
  | char (c : Char)
  | unit (n : Nat)

def shortEscape? : Char → Option Char
  | '"' => some '"'
  | '\\' => some '\\'
  | '/' => some '/'
  | 'b' => some '\x08'
  | 'f' => some '\x0c'
  | 'n' => some '\n'
  | 'r' => some '\r'
  | 't' => some '\t'
  | _ => none

def scanString : List Char → Option (List Piece × List Char)
  | [] => none
  | '"' :: rest => some ([], rest)
  | '\\' :: 'u' :: a :: b :: c :: d :: rest => do
    let n ← Text.readHex [a, b, c, d]
    let (pieces, rest) ← scanString rest
    return (.unit n :: pieces, rest)
  | '\\' :: e :: rest => do
    let c ← shortEscape? e
    let (pieces, rest) ← scanString rest
    return (.char c :: pieces, rest)
  | c :: rest =>
    if c.toNat < 0x20 ∨ c = '\\' then none
    else do
      let (pieces, rest) ← scanString rest
      return (.char c :: pieces, rest)

def isHighSurrogate (n : Nat) : Bool := 0xD800 ≤ n && n < 0xDC00

def isLowSurrogate (n : Nat) : Bool := 0xDC00 ≤ n && n < 0xE000

/-- The text of the pieces, unless a surrogate stands alone. -/
def assemble : List Piece → Option (List Char)
  | [] => some []
  | .char c :: ps => (assemble ps).map (c :: ·)
  | .unit n :: .unit m :: ps =>
    if isHighSurrogate n ∧ isLowSurrogate m then
      (assemble ps).map (Char.ofNat (0x10000 + (n - 0xD800) * 0x400 + (m - 0xDC00)) :: ·)
    else if isHighSurrogate n ∨ isLowSurrogate n then none
    else (assemble (.unit m :: ps)).map (Char.ofNat n :: ·)
  | .unit n :: ps =>
    if isHighSurrogate n ∨ isLowSurrogate n then none
    else (assemble ps).map (Char.ofNat n :: ·)

def readString (cs : List Char) : Option (Option String × List Char) := do
  let (pieces, rest) ← scanString cs
  return ((assemble pieces).map String.ofList, rest)

/-- Digits after a point; `false` when there is no point. -/
def scanFraction : List Char → Option (Bool × List Char)
  | '.' :: cs =>
    if cs.takeWhile Char.isDigit = [] then none else some (true, cs.dropWhile Char.isDigit)
  | cs => some (false, cs)

/-- Digits after `e` and an optional sign; `false` when there is no `e`. -/
def scanExponent (cs : List Char) : Option (Bool × List Char) :=
  let digits (cs : List Char) : Option (Bool × List Char) :=
    if cs.takeWhile Char.isDigit = [] then none else some (true, cs.dropWhile Char.isDigit)
  match cs with
  | c :: rest =>
    if c ≠ 'e' ∧ c ≠ 'E' then some (false, cs)
    else match rest with
      | '+' :: ds | '-' :: ds => digits ds
      | ds => digits ds
  | [] => some (false, [])

/-- A number; its whole part has no leading zero. -/
def readNumber (cs : List Char) : Option (Json × List Char) := do
  let (negative, cs) := match cs with
    | '-' :: cs => (true, cs)
    | cs => (false, cs)
  let whole := cs.takeWhile Char.isDigit
  guard (whole ≠ [] ∧ (whole.head? = some '0' → whole = ['0']))
  let (fraction, rest) ← scanFraction (cs.dropWhile Char.isDigit)
  let (exponent, rest) ← scanExponent rest
  let value := if negative ∨ fraction ∨ exponent then .inexact
    else .natural (Nat.ofDigitChars 10 whole 0)
  return (value, rest)

mutual

def readValue : Nat → List Char → Option (Json × List Char)
  | 0, _ => none
  | fuel + 1, cs =>
    match skipSpace cs with
    | 'n' :: 'u' :: 'l' :: 'l' :: rest => some (.null, rest)
    | 't' :: 'r' :: 'u' :: 'e' :: rest => some (.bool true, rest)
    | 'f' :: 'a' :: 'l' :: 's' :: 'e' :: rest => some (.bool false, rest)
    | '"' :: rest => do
      let (s, rest) ← readString rest
      return (.string s, rest)
    | '[' :: rest =>
      match skipSpace rest with
      | ']' :: rest => some (.array [], rest)
      | rest => do
        let (items, rest) ← readItems fuel rest
        return (.array items, rest)
    | '{' :: rest =>
      match skipSpace rest with
      | '}' :: rest => some (.object [], rest)
      | rest => do
        let (fields, rest) ← readFields fuel rest
        return (.object fields, rest)
    | cs => readNumber cs

def readItems : Nat → List Char → Option (List Json × List Char)
  | 0, _ => none
  | fuel + 1, cs => do
    let (v, rest) ← readValue fuel cs
    match skipSpace rest with
    | ']' :: rest => return ([v], rest)
    | ',' :: rest =>
      let (vs, rest) ← readItems fuel rest
      return (v :: vs, rest)
    | _ => none

def readFields : Nat → List Char → Option (List (Option String × Json) × List Char)
  | 0, _ => none
  | fuel + 1, cs => do
    let '"' :: rest := skipSpace cs | none
    let (k, rest) ← readString rest
    let ':' :: rest := skipSpace rest | none
    let (v, rest) ← readValue fuel rest
    match skipSpace rest with
    | '}' :: rest => return ([(k, v)], rest)
    | ',' :: rest =>
      let (fs, rest) ← readFields fuel rest
      return ((k, v) :: fs, rest)
    | _ => none

end

/-- The value of a text that holds nothing else. Each level and each item takes at least one
character, so twice the length is fuel enough. -/
def read (s : String) : Option Json :=
  match readValue (2 * s.length + 2) s.toList with
  | some (v, rest) => if skipSpace rest = [] then some v else none
  | none => none

end GeneratorKit.Json
