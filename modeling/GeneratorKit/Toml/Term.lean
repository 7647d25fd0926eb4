import GeneratorKit.Toml.Value

set_option autoImplicit false

/-!
# TOML syntax

What a document says, line by line, before it is known whether its keys fit together.
-/
namespace GeneratorKit.Toml

structure KeyPath where
  path : List String
  key : String

/-- A scalar as written, before it is known whether a number has a value. -/
inductive Literal where
  | string (s : String)
  /-- An integer by its digits, without underscores. -/
  | integer (negative : Bool) (base : Nat) (digits : List Char)
  /-- The float next to a decimal, infinite if the decimal is too large. -/
  | decimal (x : Number.Double)
  /-- An infinity or no number, written as a word. -/
  | word (x : Number.Double)
  | boolean (b : Bool)
  | dateTime (d : DateTime)

/-- A value as written: the keys of a table may be paths. -/
inductive Term where
  | scalar (l : Literal)
  | array (items : List Term)
  | table (entries : List (KeyPath × Term))

/-- Where the entries under a header go: into a table of that name, or into a new row of an array of
tables. -/
inductive Header where
  | table (name : KeyPath)
  | row (name : KeyPath)

structure Section where
  header : Header
  entries : List (KeyPath × Term)

structure Document where
  entries : List (KeyPath × Term)
  sections : List Section

end GeneratorKit.Toml
