import GeneratorKit.Text.Numeral

set_option autoImplicit false

/-!
# Reading TOML strings

The four kinds of string, each read from behind its opening quotes up to and with its closing ones.
Strings on many lines may end in up to two quotes of their own.
-/
namespace GeneratorKit.Toml

/-- What may stand as it is in a comment or between quotes, the line ends apart. -/
def isPrintable (c : Char) : Bool := c == '\t' || (0x20 ≤ c.toNat && c.toNat != 0x7F)

def isSpace (c : Char) : Bool := c == ' ' || c == '\t'

/-- The character of a hexadecimal code point; surrogates are none. -/
def codePoint? (digits : List Char) : Option Char := do
  let n ← Text.readHex digits
  guard (n < 0xD800 ∨ (0xE000 ≤ n ∧ n < 0x110000))
  return Char.ofNat n

def shortEscape? : Char → Option Char
  | 'b' => some '\x08'
  | 't' => some '\t'
  | 'n' => some '\n'
  | 'f' => some '\x0c'
  | 'r' => some '\r'
  | 'e' => some '\x1b'
  | '"' => some '"'
  | '\\' => some '\\'
  | _ => none

def prepend (c : Char) (rest : Option (List Char × List Char)) : Option (List Char × List Char) :=
  rest.map fun (cs, after) => (c :: cs, after)

def readBasic : List Char → Option (List Char × List Char)
  | [] => none
  | '"' :: rest => some ([], rest)
  | '\\' :: 'x' :: a :: b :: rest => do prepend (← codePoint? [a, b]) (readBasic rest)
  | '\\' :: 'u' :: a :: b :: c :: d :: rest => do
    prepend (← codePoint? [a, b, c, d]) (readBasic rest)
  | '\\' :: 'U' :: a :: b :: c :: d :: e :: f :: g :: h :: rest => do
    prepend (← codePoint? [a, b, c, d, e, f, g, h]) (readBasic rest)
  | '\\' :: e :: rest => do prepend (← shortEscape? e) (readBasic rest)
  | c :: rest => if isPrintable c ∧ c ≠ '\\' then prepend c (readBasic rest) else none

def readLiteral : List Char → Option (List Char × List Char)
  | [] => none
  | '\'' :: rest => some ([], rest)
  | c :: rest => if isPrintable c then prepend c (readLiteral rest) else none

/-- How far the blanks after a backslash at the end of a line have been skipped. -/
inductive Fold where
  | off
  | inLine
  | acrossLines
  deriving DecidableEq

def readManyBasic : Fold → List Char → Option (List Char × List Char)
  | _, [] => none
  | .inLine, '\n' :: rest | .inLine, '\r' :: '\n' :: rest => readManyBasic .acrossLines rest
  | .inLine, c :: rest => if isSpace c then readManyBasic .inLine rest else none
  | .acrossLines, '\n' :: rest | .acrossLines, '\r' :: '\n' :: rest => readManyBasic .acrossLines rest
  | .acrossLines, ' ' :: rest | .acrossLines, '\t' :: rest => readManyBasic .acrossLines rest
  | _, '"' :: '"' :: '"' :: '"' :: '"' :: rest => some (['"', '"'], rest)
  | _, '"' :: '"' :: '"' :: '"' :: rest => some (['"'], rest)
  | _, '"' :: '"' :: '"' :: rest => some ([], rest)
  | _, '\\' :: 'x' :: a :: b :: rest => do
    prepend (← codePoint? [a, b]) (readManyBasic .off rest)
  | _, '\\' :: 'u' :: a :: b :: c :: d :: rest => do
    prepend (← codePoint? [a, b, c, d]) (readManyBasic .off rest)
  | _, '\\' :: 'U' :: a :: b :: c :: d :: e :: f :: g :: h :: rest => do
    prepend (← codePoint? [a, b, c, d, e, f, g, h]) (readManyBasic .off rest)
  | _, '\\' :: '\n' :: rest | _, '\\' :: '\r' :: '\n' :: rest => readManyBasic .acrossLines rest
  | _, '\\' :: e :: rest =>
    if isSpace e then readManyBasic .inLine rest
    else do prepend (← shortEscape? e) (readManyBasic .off rest)
  | _, '\r' :: '\n' :: rest => prepend '\r' (prepend '\n' (readManyBasic .off rest))
  | _, c :: rest =>
    if c = '\n' ∨ (isPrintable c ∧ c ≠ '\\') then prepend c (readManyBasic .off rest) else none

def readManyLiteral : List Char → Option (List Char × List Char)
  | [] => none
  | '\'' :: '\'' :: '\'' :: '\'' :: '\'' :: rest => some (['\'', '\''], rest)
  | '\'' :: '\'' :: '\'' :: '\'' :: rest => some (['\''], rest)
  | '\'' :: '\'' :: '\'' :: rest => some ([], rest)
  | '\r' :: '\n' :: rest => prepend '\r' (prepend '\n' (readManyLiteral rest))
  | c :: rest => if c = '\n' ∨ isPrintable c then prepend c (readManyLiteral rest) else none

/-- A newline directly behind the opening quotes does not belong to the string. -/
def dropNewline : List Char → List Char
  | '\n' :: cs => cs
  | '\r' :: '\n' :: cs => cs
  | cs => cs

def readString : List Char → Option (String × List Char)
  | '"' :: '"' :: '"' :: cs => (readManyBasic .off (dropNewline cs)).map toText
  | '\'' :: '\'' :: '\'' :: cs => (readManyLiteral (dropNewline cs)).map toText
  | '"' :: cs => (readBasic cs).map toText
  | '\'' :: cs => (readLiteral cs).map toText
  | _ => none
where
  toText (r : List Char × List Char) : String × List Char := (String.ofList r.1, r.2)

end GeneratorKit.Toml
