import GeneratorKit.Toml.Table

set_option autoImplicit false

/-!
# Resolving TOML values

What the values of a document stand for. A number has to have digits and to be in its range. A table whose first key is
`dateTimeKey` stands for the date-time that the text under this key spells; what else it holds is not
looked at.
-/
namespace GeneratorKit.Toml

def integerLimit : Int := 0x8000000000000000

def numeral? (base : Nat) (digits : List Char) : Option Nat := do
  let values ← digits.mapM (digitIn? base)
  if values = [] then none else some (values.foldl (fun n d => n * base + d) 0)

/-- The integer that digits denote, if it fits into a 64-bit word with a sign. -/
def integer? (negative : Bool) (base : Nat) (digits : List Char) : Option Int := do
  let n ← numeral? base digits
  let n : Int := if negative then -n else n
  if -integerLimit ≤ n ∧ n < integerLimit then some n else none

/-- The value of a literal. A decimal has to have a float next to it. -/
def Literal.scalar? : Literal → Option Scalar
  | .string s => some (.string s)
  | .integer negative base digits => (integer? negative base digits).map .integer
  | .decimal x => match x.value with
    | .finite .. => some (.float x)
    | _ => none
  | .word x => some (.float x)
  | .boolean b => some (.boolean b)
  | .dateTime d => some (.dateTime d)

/-- The key under which a table can carry the text of a date-time. -/
def dateTimeKey : String := "$__toml_private_datetime"

def carriesDateTime : List (String × Value Literal) → Bool
  | [] => false
  | (k, _) :: _ => k == dateTimeKey

def carriedDateTime? : List (String × Value Literal) → Option DateTime
  | (_, .scalar (.string s)) :: _ => DateTime.read s.toList
  | _ => none

mutual

def Value.resolve? : Value Literal → Option (Value Scalar)
  | .scalar l => l.scalar?.map .scalar
  | .array items => (resolveItems? items).map .array
  | .table entries =>
    if carriesDateTime entries then (carriedDateTime? entries).map fun d => .scalar (.dateTime d)
    else (resolveEntries? entries).map .table

def resolveItems? : List (Value Literal) → Option (List (Value Scalar))
  | [] => some []
  | v :: vs => do return (← v.resolve?) :: (← resolveItems? vs)

/-- Resolves the entries of a table that is taken as a table. -/
def resolveEntries? : List (String × Value Literal) → Option (List (String × Value Scalar))
  | [] => some []
  | (k, v) :: es => do return (k, ← v.resolve?) :: (← resolveEntries? es)

end

/-- Resolving keeps the keys of a table and their order. -/
theorem keys_of_resolveEntries? {es : List (String × Value Literal)}
    {rs : List (String × Value Scalar)} (h : resolveEntries? es = some rs) :
    rs.map (·.1) = es.map (·.1) := by
  induction es generalizing rs with
  | nil =>
    obtain rfl : rs = [] := by simpa [resolveEntries?] using h.symm
    rfl
  | cons e es ih =>
    obtain ⟨k, v⟩ := e
    simp only [resolveEntries?, Option.bind_eq_bind, Option.bind_eq_some_iff] at h
    obtain ⟨r, _, rest, hrest, h⟩ := h
    obtain rfl : (k, r) :: rest = rs := by simpa using h
    simp [ih hrest]

/-- The table of a text. The document itself is a table, whatever its keys are. -/
def read (s : String) : Option (List (String × Value Scalar)) := do
  resolveEntries? (← (← readDocument s).table)

end GeneratorKit.Toml
