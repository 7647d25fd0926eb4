set_option autoImplicit false

/-!
# Special types

The types that the language spells with a keyword of their own.
-/
namespace GeneratorKit.Code

inductive SpecialType where
  | object | boolean | char | sbyte | byte | int16 | uint16 | int32 | uint32 | int64 | uint64
  | single | double | decimal | string | void
  deriving DecidableEq, Repr

namespace SpecialType

def all : List SpecialType :=
  [.object, .boolean, .char, .sbyte, .byte, .int16, .uint16, .int32, .uint32, .int64, .uint64,
    .single, .double, .decimal, .string, .void]

def keyword : SpecialType → String
  | .object => "object"
  | .boolean => "bool"
  | .char => "char"
  | .sbyte => "sbyte"
  | .byte => "byte"
  | .int16 => "short"
  | .uint16 => "ushort"
  | .int32 => "int"
  | .uint32 => "uint"
  | .int64 => "long"
  | .uint64 => "ulong"
  | .single => "float"
  | .double => "double"
  | .decimal => "decimal"
  | .string => "string"
  | .void => "void"

def metadataName : SpecialType → String
  | .object => "Object"
  | .boolean => "Boolean"
  | .char => "Char"
  | .sbyte => "SByte"
  | .byte => "Byte"
  | .int16 => "Int16"
  | .uint16 => "UInt16"
  | .int32 => "Int32"
  | .uint32 => "UInt32"
  | .int64 => "Int64"
  | .uint64 => "UInt64"
  | .single => "Single"
  | .double => "Double"
  | .decimal => "Decimal"
  | .string => "String"
  | .void => "Void"

def named? (s : String) : Option SpecialType := all.find? (·.metadataName = s)

theorem named?_metadataName (t : SpecialType) : named? t.metadataName = some t := by
  cases t <;> rfl

end SpecialType

end GeneratorKit.Code
