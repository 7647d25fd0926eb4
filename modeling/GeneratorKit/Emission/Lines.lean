import GeneratorKit.Emission.Writer

set_option autoImplicit false

/-!
# Lines

Statements, directives and comments of one line, each indented to the current level.
-/
namespace GeneratorKit.Emission

def newLine : Edit := .text "\n"

/-- An indented line in the parts in which it is written. -/
def lineOf (parts : List String) : List Edit := .indent :: parts.map .text ++ [newLine]

def line (s : String) : List Edit := lineOf [s]

def autoGenerated : List Edit := line "// <auto-generated />"

def enableNullable : List Edit := line "#nullable enable"

def disableWarning (id : String) : List Edit := lineOf ["#pragma warning disable ", id]

def namespaceLine (name : String) : List Edit := lineOf ["namespace ", name, ";"]

def usingLine (name : String) : List Edit := lineOf ["using ", name, ";"]

def comment (s : String) : List Edit := lineOf ["// ", s]

def returnLine (e : String) : List Edit := lineOf ["return ", e, ";"]

def yieldReturn (e : String) : List Edit := lineOf ["yield return ", e, ";"]

end GeneratorKit.Emission
