import GeneratorKit.Text.Numeral

set_option autoImplicit false

/-!
# Dates and times

A date, a time of day, or both with an optional offset. Reading is strict about widths and ranges;
writing gives the seconds always and the fraction without trailing zeros.
-/
namespace GeneratorKit.Toml

structure Date where
  year : Nat
  month : Nat
  day : Nat

/-- A time of day; the fraction is counted in nanoseconds. -/
structure Time where
  hour : Nat
  minute : Nat
  second : Nat
  nanosecond : Nat

inductive Offset where
  | zulu
  | minutes (total : Int)

inductive DateTime where
  | date (d : Date)
  | time (t : Time)
  | dateTime (d : Date) (t : Time) (offset : Option Offset)

def isLeapYear (year : Nat) : Bool := (year % 4 = 0 ∧ year % 100 ≠ 0) ∨ year % 400 = 0

def daysInMonth (year month : Nat) : Nat :=
  if month = 2 then (if isLeapYear year then 29 else 28)
  else if month = 4 ∨ month = 6 ∨ month = 9 ∨ month = 11 then 30
  else 31

def readField (width : Nat) (cs : List Char) : Option (Nat × List Char) := do
  guard (width ≤ cs.length)
  return (← Text.readDecimal (cs.take width), cs.drop width)

def readDate (cs : List Char) : Option (Date × List Char) := do
  let (year, cs) ← readField 4 cs
  let '-' :: cs := cs | none
  let (month, cs) ← readField 2 cs
  let '-' :: cs := cs | none
  let (day, cs) ← readField 2 cs
  guard (1 ≤ month ∧ month ≤ 12 ∧ 1 ≤ day ∧ day ≤ daysInMonth year month)
  return (⟨year, month, day⟩, cs)

/-- Digits after the point of the seconds; those past the ninth are dropped. -/
def readFraction : List Char → Option (Nat × List Char)
  | '.' :: cs => do
    let digits := cs.takeWhile Char.isDigit
    guard (digits ≠ [])
    let nine := (digits ++ List.replicate 9 '0').take 9
    return (Nat.ofDigitChars 10 nine 0, cs.dropWhile Char.isDigit)
  | cs => some (0, cs)

def readTime (cs : List Char) : Option (Time × List Char) := do
  let (hour, cs) ← readField 2 cs
  let ':' :: cs := cs | none
  let (minute, cs) ← readField 2 cs
  guard (hour ≤ 23 ∧ minute ≤ 59)
  match cs with
  | ':' :: cs =>
    let (second, cs) ← readField 2 cs
    guard (second ≤ 60)
    let (nanosecond, cs) ← readFraction cs
    return (⟨hour, minute, second, nanosecond⟩, cs)
  | cs => return (⟨hour, minute, 0, 0⟩, cs)

def readHourMinute (cs : List Char) : Option Nat := do
  let (hour, cs) ← readField 2 cs
  let ':' :: cs := cs | none
  let (minute, []) ← readField 2 cs | none
  guard (hour ≤ 23 ∧ minute ≤ 59)
  return hour * 60 + minute

def readOffset : List Char → Option (Option Offset)
  | [] => some none
  | ['Z'] | ['z'] => some (some .zulu)
  | '+' :: cs => (readHourMinute cs).map fun n => some (.minutes n)
  | '-' :: cs => (readHourMinute cs).map fun n => some (.minutes (-n))
  | _ => none

def DateTime.read (cs : List Char) : Option DateTime :=
  match readDate cs with
  | some (d, []) => some (.date d)
  | some (d, c :: cs) => do
    guard (c = 'T' ∨ c = 't' ∨ c = ' ')
    let (t, cs) ← readTime cs
    return .dateTime d t (← readOffset cs)
  | none => do
    let (t, []) ← readTime cs | none
    return .time t

def Date.text (d : Date) : String :=
  Text.paddedDecimal 4 d.year ++ "-" ++ Text.paddedDecimal 2 d.month ++ "-" ++
    Text.paddedDecimal 2 d.day

def fractionText (nanosecond : Nat) : String :=
  let digits := (Text.paddedDecimal 9 nanosecond).toList.reverse.dropWhile (· = '0')
  if digits = [] then "" else "." ++ String.ofList digits.reverse

def Time.text (t : Time) : String :=
  Text.paddedDecimal 2 t.hour ++ ":" ++ Text.paddedDecimal 2 t.minute ++ ":" ++
    Text.paddedDecimal 2 t.second ++ fractionText t.nanosecond

def Offset.text : Offset → String
  | .zulu => "Z"
  | .minutes total =>
    (if total < 0 then "-" else "+") ++ Text.paddedDecimal 2 (total.natAbs / 60) ++ ":" ++
      Text.paddedDecimal 2 (total.natAbs % 60)

def DateTime.text : DateTime → String
  | .date d => d.text
  | .time t => t.text
  | .dateTime d t offset =>
    d.text ++ "T" ++ t.text ++ (match offset with | some o => o.text | none => "")

end GeneratorKit.Toml
