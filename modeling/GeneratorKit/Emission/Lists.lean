import GeneratorKit.Emission.Declarations

set_option autoImplicit false

/-!
# Lists and conditions

Items with separators. A joined list has one before every item but the first; arguments and type
arguments have one after every item, and the last one is dropped again. A writer finds out whether there
is one to drop by the length of its text (`Writer.trimSeparator`). Joined lists and single items may also
depend on a condition.
-/
namespace GeneratorKit.Emission
open Code

/-- The items with a separator before all but the first. -/
def joined (separator : String) : List Rendering → List Edit
  | [] => []
  | r :: rs => .rendering r :: rs.flatMap fun r => [.text separator, .rendering r]

/-- Edits that are made only on a condition. -/
def provided (condition : Bool) (es : List Edit) : List Edit := if condition then es else []

def textIf (condition : Bool) (s : String) : List Edit := provided condition [.text s]

def renderingIf (condition : Bool) (r : Rendering) : List Edit := provided condition [.rendering r]

/-- A value that is missing is not written on any condition. -/
def displayIf (condition : Bool) (value : Option Rendering) : List Edit :=
  provided condition (value.map Edit.rendering).toList

def joinedIf (condition : Bool) (separator : String) (rs : List Rendering) : List Edit :=
  provided condition (joined separator rs)

def separator : String := ", "

/-- The items with a separator after each, and the last separator dropped. -/
def separated : List (List Edit) → List Edit
  | [] => []
  | items => items.flatMap (· ++ [.text separator]) ++ [.dropLast separator.utf8ByteSize]

def arguments (items : List (TypeName × String)) : List Edit :=
  separated (items.map fun (t, name) => argument t name)

def generic (t : TypeName) : List Edit := .text "<" :: typeName t ++ [.text ">"]

def generics (ts : List TypeName) : List Edit :=
  if ts.isEmpty then [] else .text "<" :: separated (ts.map typeName) ++ [.text ">"]

namespace Writer

/-- Drops a separator from the end, if anything was written since the text had so many bytes. -/
def trimSeparator (w : Writer) (start : Nat) : Result :=
  if start < w.size then w.truncate (w.size - separator.utf8ByteSize) else (w, none)

/-- Writes a separator after every item and trims the last one. -/
def appendSeparated (w : Writer) (items : List (List Edit)) : Result :=
  andThen (w.run (items.flatMap (· ++ [.text separator]))) (·.trimSeparator w.size)

def appendGenerics (w : Writer) (ts : List TypeName) : Result :=
  if ts.isEmpty then (w, none)
  else andThen (w.append "<") fun v => andThen (v.appendSeparated (ts.map typeName)) (·.append ">")

end Writer

end GeneratorKit.Emission
