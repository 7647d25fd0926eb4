import GeneratorKit.Number.Binary
import GeneratorKit.Toml.DateTime

set_option autoImplicit false

/-!
# TOML values
-/
namespace GeneratorKit.Toml

inductive Scalar where
  | string (s : String)
  | integer (n : Int)
  | float (x : Number.Double)
  | boolean (b : Bool)
  | dateTime (d : DateTime)

/-- A value over scalars of some kind; the entries of a table stand in ascending order of their
keys. -/
inductive Value (α : Type) where
  | scalar (a : α)
  | array (items : List (Value α))
  | table (entries : List (String × Value α))

end GeneratorKit.Toml
