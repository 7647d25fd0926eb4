import GeneratorKit.Emission.Lines

set_option autoImplicit false

/-!
# Scopes

Braces on lines of their own, around deeper lines, and the statements that open them. A further
branch closes the branch before it, so a chain of branches ends at the level where it began.
-/
namespace GeneratorKit.Emission

def openScope : List Edit := line "\x7b" ++ [.deepen]

def closeLine : List Edit := line "\x7d"

def closeScope : List Edit := .rise :: closeLine

def opener (parts : List String) : List Edit := lineOf parts ++ openScope

def ifOpen (condition : String) : List Edit := opener ["if (", condition, ")"]

def elseIf (condition : String) : List Edit :=
  closeScope ++ opener ["else if (", condition, ")"]

def elseOpen : List Edit := closeScope ++ opener ["else"]

def forOpen (start condition next : String) : List Edit :=
  opener ["for (var ", start, "; ", condition, "; ", next, ")"]

def forEachOpen (name source : String) : List Edit :=
  opener ["foreach (var ", name, " in ", source, ")"]

def whileOpen (condition : String) : List Edit := opener ["while (", condition, ")"]

/-- Closes a scope on the way out. When the level was lowered to zero inside, the brace is still
written. -/
def Writer.closeGuard (w : Writer) : Result :=
  match w.run closeScope with
  | (w, some (.refusal _)) => w.run closeLine
  | r => r

end GeneratorKit.Emission
