import GeneratorKit.Code.SpecialType

set_option autoImplicit false

/-!
# Type references

A type as a declaration names it. It has a fully qualified form, for declarations, and a short form,
for identifiers and messages. Equality is structural and decidable.
-/
namespace GeneratorKit.Code

inductive TypeRef where
  | special (type : SpecialType)
  | named (space : Option String) (name : String) (args : List TypeRef)
  | array (element : TypeRef)
  | nullable (inner : TypeRef)
  | parameter (name : String)

namespace TypeRef

mutual

def decEq : (a b : TypeRef) → Decidable (a = b)
  | .special t, .special u =>
    if h : t = u then isTrue (h ▸ rfl) else isFalse fun e => h (by injection e)
  | .named s n as, .named t m bs =>
    match decEqList as bs with
    | isTrue h =>
      if hn : s = t ∧ n = m then isTrue (by rw [h, hn.1, hn.2])
      else isFalse fun e => hn (by injection e with h₁ h₂; exact ⟨h₁, h₂⟩)
    | isFalse h => isFalse fun e => h (by injection e)
  | .array a, .array b => match decEq a b with
    | isTrue h => isTrue (h ▸ rfl)
    | isFalse h => isFalse fun e => h (by injection e)
  | .nullable a, .nullable b => match decEq a b with
    | isTrue h => isTrue (h ▸ rfl)
    | isFalse h => isFalse fun e => h (by injection e)
  | .parameter n, .parameter m =>
    if h : n = m then isTrue (h ▸ rfl) else isFalse fun e => h (by injection e)
  | .special _, .named .. | .special _, .array _ | .special _, .nullable _ | .special _, .parameter _
  | .named .., .special _ | .named .., .array _ | .named .., .nullable _ | .named .., .parameter _
  | .array _, .special _ | .array _, .named .. | .array _, .nullable _ | .array _, .parameter _
  | .nullable _, .special _ | .nullable _, .named .. | .nullable _, .array _
  | .nullable _, .parameter _
  | .parameter _, .special _ | .parameter _, .named .. | .parameter _, .array _
  | .parameter _, .nullable _ => isFalse (by intro e; injection e)

def decEqList : (as bs : List TypeRef) → Decidable (as = bs)
  | [], [] => isTrue rfl
  | a :: as, b :: bs => match decEq a b, decEqList as bs with
    | isTrue h, isTrue hs => isTrue (h ▸ hs ▸ rfl)
    | isFalse h, _ => isFalse fun e => h (by injection e)
    | _, isFalse hs => isFalse fun e => hs (by injection e)
  | [], _ :: _ | _ :: _, [] => isFalse (by intro e; injection e)

end

instance : DecidableEq TypeRef := decEq

def int : TypeRef := .special .int32

def string : TypeRef := .special .string

def bool : TypeRef := .special .boolean

def bracket (args : List String) : String :=
  if args.isEmpty then "" else "<" ++ ", ".intercalate args ++ ">"

def qualified (space : Option String) (name : String) : String :=
  "global::" ++ (match space with | some s => s ++ "." | none => "") ++ name

mutual

def display : TypeRef → String
  | .special t => t.keyword
  | .named space name args => qualified space name ++ bracket (displayAll args)
  | .array e => display e ++ "[]"
  | .nullable t => display t ++ "?"
  | .parameter name => name

def displayAll : List TypeRef → List String
  | [] => []
  | t :: ts => display t :: displayAll ts

end

theorem displayAll_eq_map (ts : List TypeRef) : displayAll ts = ts.map display := by
  induction ts with
  | nil => rfl
  | cons t ts ih => simp [displayAll, ih]

def simpleName : TypeRef → String
  | .special t => t.metadataName
  | .named _ name _ => name
  | .array e => simpleName e ++ "[]"
  | .nullable t => simpleName t
  | .parameter name => name

/-- The simple name, with the simple names of the arguments of an outermost named type. -/
def className : TypeRef → String
  | .named _ name args => name ++ bracket (args.map simpleName)
  | t => t.simpleName

def isGeneric : TypeRef → Bool
  | .named _ _ args => !args.isEmpty
  | .parameter _ => true
  | _ => false

end TypeRef

/-- What may stand where a type is written: a text as it is, or a reference by its display form. -/
inductive TypeName where
  | literal (text : String)
  | reference (type : TypeRef)

def TypeName.text : TypeName → String
  | .literal s => s
  | .reference t => t.display

end GeneratorKit.Code
