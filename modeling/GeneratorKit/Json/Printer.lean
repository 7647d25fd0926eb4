import GeneratorKit.Json.Basic
import GeneratorKit.Text.Numeral

set_option autoImplicit false

/-!
# Writing JSON

The compact form: no blanks, and an escape only where the format demands one. Every value has one
written form, also those that are not kept in full.
-/
namespace GeneratorKit.Json

def escape (c : Char) : List Char :=
  if c = '"' then ['\\', '"']
  else if c = '\\' then ['\\', '\\']
  else if c = '\n' then ['\\', 'n']
  else if c = '\t' then ['\\', 't']
  else if c = '\r' then ['\\', 'r']
  else if c = '\x08' then ['\\', 'b']
  else if c = '\x0c' then ['\\', 'f']
  else if c.toNat < 0x20 then '\\' :: 'u' :: Text.paddedHex 4 c.toNat
  else [c]

def quote : Option String → List Char
  | some s => '"' :: s.toList.flatMap escape ++ ['"']
  | none => '"' :: '\\' :: 'u' :: 'd' :: '8' :: '0' :: '0' :: ['"']

mutual

def render : Json → List Char
  | .null => ['n', 'u', 'l', 'l']
  | .bool true => ['t', 'r', 'u', 'e']
  | .bool false => ['f', 'a', 'l', 's', 'e']
  | .natural n => Nat.toDigits 10 n
  | .inexact => ['-', '0']
  | .string s => quote s
  | .array [] => ['[', ']']
  | .array (v :: vs) => '[' :: render v ++ renderItems vs
  | .object [] => ['{', '}']
  | .object ((k, v) :: fs) => '{' :: quote k ++ ':' :: render v ++ renderFields fs

def renderItems : List Json → List Char
  | [] => [']']
  | v :: vs => ',' :: render v ++ renderItems vs

def renderFields : List (Option String × Json) → List Char
  | [] => ['}']
  | (k, v) :: fs => ',' :: quote k ++ ':' :: render v ++ renderFields fs

end

def text (j : Json) : String := String.ofList j.render

end GeneratorKit.Json
