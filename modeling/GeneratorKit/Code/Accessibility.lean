import GeneratorKit.Text.Words

set_option autoImplicit false

/-!
# Accessibility

The declared accessibility of a type or member. A level is read from the words of its keyword, in
any order and with any blanks around them.
-/
namespace GeneratorKit.Code

inductive Accessibility where
  | notApplicable
  | privateAccess
  | privateProtected
  | protectedAccess
  | internal
  | protectedInternal
  | publicAccess
  deriving DecidableEq, Repr

namespace Accessibility

instance : Inhabited Accessibility := ⟨.publicAccess⟩

def name : Accessibility → String
  | .notApplicable => "NotApplicable"
  | .privateAccess => "Private"
  | .privateProtected => "ProtectedAndInternal"
  | .protectedAccess => "Protected"
  | .internal => "Internal"
  | .protectedInternal => "ProtectedOrInternal"
  | .publicAccess => "Public"

def all : List Accessibility :=
  [.notApplicable, .privateAccess, .privateProtected, .protectedAccess, .internal,
    .protectedInternal, .publicAccess]

def named? (s : String) : Option Accessibility := all.find? (·.name = s)

def keyword? : Accessibility → Option String
  | .publicAccess => some "public"
  | .protectedAccess => some "protected"
  | .privateAccess => some "private"
  | .internal => some "internal"
  | .protectedInternal => some "protected internal"
  | .privateProtected => some "private protected"
  | .notApplicable => none

def display (a : Accessibility) : String := a.keyword?.getD "<not applicable>"

def isPublic (a : Accessibility) : Bool := a = .publicAccess

def isPrivate (a : Accessibility) : Bool := a = .privateAccess

/-- The level that a list of words names, in either order of two. -/
def ofWords? : List String → Option Accessibility
  | ["public"] => some .publicAccess
  | ["protected"] => some .protectedAccess
  | ["private"] => some .privateAccess
  | ["internal"] => some .internal
  | ["protected", "internal"] | ["internal", "protected"] => some .protectedInternal
  | ["private", "protected"] | ["protected", "private"] => some .privateProtected
  | _ => none

structure Unknown where
  text : String
  deriving DecidableEq, Repr

def Unknown.message (e : Unknown) : String := "unknown accessibility '" ++ e.text ++ "'"

def read (s : String) : Except Unknown Accessibility :=
  match ofWords? (Text.words s) with
  | some a => .ok a
  | none => .error ⟨s⟩

end Accessibility

end GeneratorKit.Code
