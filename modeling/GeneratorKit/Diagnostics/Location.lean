import GeneratorKit.Diagnostics.Path
import GeneratorKit.Fault
import GeneratorKit.Text.Numeral

set_option autoImplicit false

/-!
# Locations

Where in a source a diagnostic belongs. Positions count from zero and are displayed from one on, which
fails for the greatest line or character.
-/
namespace GeneratorKit.Diagnostics

/-- A line and a character of it, both counted from zero. -/
structure Position where
  line : UInt32
  character : UInt32
  deriving DecidableEq, Repr

structure LineSpan where
  start : Position
  stop : Position
  deriving DecidableEq, Repr

structure TextSpan where
  start : UInt64
  length : UInt64
  deriving DecidableEq, Repr

structure Location where
  path : Path
  textSpan : TextSpan
  lineSpan : LineSpan
  deriving BEq, Repr

/-- The numeral of a word plus one. -/
def oneBased (n : UInt32) : Except Fault String :=
  if n.toNat + 1 < 0x100000000 then .ok (Text.decimal (n.toNat + 1)) else .error .overflow

namespace Position

instance : Ord Position :=
  ⟨fun a b => (compare a.line b.line).then (compare a.character b.character)⟩

def display (p : Position) : Except Fault String := do
  return (← oneBased p.line) ++ "," ++ (← oneBased p.character)

end Position

namespace LineSpan

instance : Ord LineSpan := ⟨fun a b => (compare a.start b.start).then (compare a.stop b.stop)⟩

end LineSpan

namespace TextSpan

instance : Ord TextSpan := ⟨fun a b => (compare a.start b.start).then (compare a.length b.length)⟩

/-- The byte behind the last one. -/
def stop (s : TextSpan) : Except Fault Nat :=
  if s.start.toNat + s.length.toNat < 0x10000000000000000 then .ok (s.start.toNat + s.length.toNat)
  else .error .overflow

end TextSpan

class Located (α : Type) where
  path : α → Path
  textSpan : α → TextSpan
  lineSpan : α → LineSpan

namespace Location

instance : Located Location := ⟨path, textSpan, lineSpan⟩

def of {α : Type} [Located α] (a : α) : Location :=
  ⟨Located.path a, Located.textSpan a, Located.lineSpan a⟩

/-- By path, then by bytes, then by lines. -/
instance : Ord Location :=
  ⟨fun a b => ((compare a.path b.path).then (compare a.textSpan b.textSpan)).then
    (compare a.lineSpan b.lineSpan)⟩

/-- The path as it was given, and where the span starts. -/
def display (l : Location) : Except Fault String := do
  return l.path.text ++ "(" ++ (← l.lineSpan.start.display) ++ ")"

end Location

end GeneratorKit.Diagnostics
