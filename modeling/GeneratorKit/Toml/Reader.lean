import GeneratorKit.Number.Literal
import GeneratorKit.Toml.Strings
import GeneratorKit.Toml.Term

set_option autoImplicit false

/-!
# Reading TOML documents

The syntax of a document. Each function returns what it read and the characters that follow.
-/
namespace GeneratorKit.Toml

/-- Arrays and inline tables may stand this deep inside each other, and a path may have this many
keys. -/
def depthLimit : Nat := 80

def skipSpace (cs : List Char) : List Char := cs.dropWhile isSpace

/-- Skips blanks, line ends and comments; `comment` says whether the text begins inside a comment. -/
def skipLayout (comment : Bool) : List Char → Option (List Char)
  | [] => some []
  | '\n' :: cs => skipLayout false cs
  | '\r' :: '\n' :: cs => skipLayout false cs
  | c :: cs =>
    if comment then (if isPrintable c then skipLayout true cs else none)
    else if c = '#' then skipLayout true cs
    else if isSpace c then skipLayout false cs
    else some (c :: cs)

/-- Skips what may stand between the parts of an entry: blanks only, or line ends and comments too
inside braces. -/
def skipGap (inBraces : Bool) (cs : List Char) : Option (List Char) :=
  if inBraces then skipLayout false cs else some (skipSpace cs)

/-- Skips the rest of a line, which may hold blanks and a comment only. -/
def endLine (comment : Bool) : List Char → Option (List Char)
  | [] => some []
  | '\n' :: cs => some cs
  | '\r' :: '\n' :: cs => some cs
  | c :: cs =>
    if comment then (if isPrintable c then endLine true cs else none)
    else if c = '#' then endLine true cs
    else if isSpace c then endLine false cs
    else none

def isKeyChar (c : Char) : Bool := c.isAlphanum || c == '_' || c == '-'

/-- A bare key, or one in single or double quotes on one line. -/
def readKey (cs : List Char) : Option (String × List Char) :=
  match cs with
  | '"' :: rest => (readBasic rest).map fun (k, rest) => (String.ofList k, rest)
  | '\'' :: rest => (readLiteral rest).map fun (k, rest) => (String.ofList k, rest)
  | _ =>
    if cs.takeWhile isKeyChar = [] then none
    else some (String.ofList (cs.takeWhile isKeyChar), cs.dropWhile isKeyChar)

/-- At most so many keys with dots between them, with blanks around each. -/
def readKeys : Nat → List Char → Option (KeyPath × List Char)
  | 0, _ => none
  | fuel + 1, cs => do
    let (k, rest) ← readKey (skipSpace cs)
    match skipSpace rest with
    | '.' :: rest =>
      let (p, rest) ← readKeys fuel rest
      return (⟨k :: p.path, p.key⟩, rest)
    | rest => return (⟨[], k⟩, rest)

def readKeyPath : List Char → Option (KeyPath × List Char) := readKeys depthLimit

/-- Removes underscores. Each of them has to stand between two digits of a class. -/
def joinGroups? (isDigit : Char → Bool) : List Char → Option (List Char)
  | [] => some []
  | c :: '_' :: d :: cs =>
    if isDigit c ∧ isDigit d then (joinGroups? isDigit (d :: cs)).map (c :: ·) else none
  | c :: cs => if c = '_' then none else (joinGroups? isDigit cs).map (c :: ·)

/-- One or more digits of a class in which single underscores may stand between digits. -/
def groupedDigits? (isDigit : Char → Bool) (cs : List Char) : Option (List Char) := do
  let digits ← joinGroups? isDigit cs
  if digits ≠ [] ∧ digits.all isDigit = true then some digits else none

def noLeadingZero (cs : List Char) : Bool := cs.head? ≠ some '0' || cs == ['0']

def digitIn? (base : Nat) (c : Char) : Option Nat := (Text.hexDigit? c).filter (· < base)

def isHexDigit (c : Char) : Bool := (Text.hexDigit? c).isSome

/-- An integer in one of the bases that a letter marks; its digits may be missing. -/
def readBased (base : Nat) (cs : List Char) : Option Literal :=
  if cs.all fun c => c == '_' || (digitIn? base c).isSome then
    (joinGroups? isHexDigit cs).map (.integer false base)
  else none

/-- An integer in base ten without its sign. Behind an underscore other characters may stand than
digits, as long as they do not make a float of it; such a literal has no value. -/
def readTens (negative : Bool) (cs : List Char) : Option Literal :=
  let rest := cs.dropWhile Char.isDigit
  if noLeadingZero cs ∧ cs ≠ [] ∧ (rest = [] ∨ rest.head? = some '_')
      ∧ rest.all (fun c => c ≠ ' ' ∧ c ≠ '.' ∧ c ≠ 'e' ∧ c ≠ 'E') = true then
    (joinGroups? isHexDigit cs).map (.integer negative 10)
  else none

def readInteger : List Char → Option Literal
  | '0' :: 'x' :: cs => readBased 16 cs
  | '0' :: 'o' :: cs => readBased 8 cs
  | '0' :: 'b' :: cs => readBased 2 cs
  | '-' :: cs => readTens true cs
  | '+' :: cs => readTens false cs
  | cs => readTens false cs

/-- The digits of a float without its sign and underscores: a whole part and a fraction, an exponent
or both. -/
def floatDigits? (cs : List Char) : Option (List Char) := do
  let inWhole (c : Char) : Bool := c.isDigit || c == '_'
  let whole ← groupedDigits? Char.isDigit (cs.takeWhile inWhole)
  guard (noLeadingZero whole)
  let rest := cs.dropWhile inWhole
  let (fraction, rest) ← match rest with
    | '.' :: rest => do
      let digits ← groupedDigits? Char.isDigit (rest.takeWhile inWhole)
      pure ('.' :: digits, rest.dropWhile inWhole)
    | rest => pure ([], rest)
  let exponent ← match rest with
    | [] => pure []
    | c :: rest => do
      guard (c = 'e' ∨ c = 'E')
      let (sign, rest) := match rest with
        | '+' :: rest => (['+'], rest)
        | '-' :: rest => (['-'], rest)
        | rest => ([], rest)
      let digits ← groupedDigits? Char.isDigit rest
      pure ('e' :: sign ++ digits)
  guard (fraction ≠ [] ∨ exponent ≠ [])
  return whole ++ fraction ++ exponent

def readFloat (cs : List Char) : Option Literal := do
  let (sign, body) := match cs with
    | '+' :: body => ([], body)
    | '-' :: body => (['-'], body)
    | body => ([], body)
  if body = ['i', 'n', 'f'] ∨ body = ['n', 'a', 'n'] then
    (Number.Double.read? (String.ofList (sign ++ body))).map .word
  else
    let digits ← floatDigits? body
    (Number.Double.read? (String.ofList (sign ++ digits))).map .decimal

def terminators : List Char := ['=', ',', '[', ']', '\x7b', '\x7d', '#', '\r', '\n']

/-- What may stand in a scalar without quotes, the blanks between its words apart. -/
def isWordChar (c : Char) : Bool := !isSpace c && !terminators.contains c

def startsWord (cs : List Char) : Bool :=
  cs.head?.any fun c => isWordChar c && c != '.' && c != '"' && c != '\''

def ofAtom (cs : List Char) : Option Literal :=
  if cs = ['t', 'r', 'u', 'e'] then some (.boolean true)
  else if cs = ['f', 'a', 'l', 's', 'e'] then some (.boolean false)
  else match readInteger cs with
    | some l => some l
    | none => match readFloat cs with
      | some l => some l
      | none => (DateTime.read cs).map .dateTime

/-- The characters of a scalar without quotes, and what follows: one or more words with blanks
between them, as a date and a time have. -/
def atom : List Char → List Char × List Char
  | [] => ([], [])
  | c :: cs =>
    if isWordChar c ∨ (isSpace c ∧ startsWord (skipSpace cs)) then
      let (more, rest) := atom cs
      (c :: more, rest)
    else ([], c :: cs)

def readAtom (cs : List Char) : Option (Literal × List Char) := do
  let (first, rest) := atom cs
  return (← ofAtom first, rest)

mutual

/-- A value, inside which arrays and inline tables may be opened `depth` deep. -/
def readTerm : Nat → Nat → List Char → Option (Term × List Char)
  | 0, _, _ => none
  | fuel + 1, depth, cs =>
    match depth, cs with
    | _, '"' :: _ | _, '\'' :: _ => (readString cs).map fun (s, rest) => (.scalar (.string s), rest)
    | 0, '[' :: _ | 0, '\x7b' :: _ => none
    | depth + 1, '[' :: rest =>
      (readItems fuel depth rest).map fun (items, rest) => (.array items, rest)
    | depth + 1, '\x7b' :: rest =>
      (readEntries fuel depth rest).map fun (entries, rest) => (.table entries, rest)
    | _, _ => (readAtom cs).map fun (l, rest) => (.scalar l, rest)

/-- The items of an array up to its end; a comma may follow the last one. -/
def readItems : Nat → Nat → List Char → Option (List Term × List Char)
  | 0, _, _ => none
  | fuel + 1, depth, cs => do
    match ← skipLayout false cs with
    | ']' :: rest => return ([], rest)
    | cs =>
      let (v, rest) ← readTerm fuel depth cs
      match ← skipLayout false rest with
      | ',' :: rest =>
        let (vs, rest) ← readItems fuel depth rest
        return (v :: vs, rest)
      | ']' :: rest => return ([v], rest)
      | _ => none

/-- The entries of an inline table up to its end; a comma may follow the last one. -/
def readEntries : Nat → Nat → List Char → Option (List (KeyPath × Term) × List Char)
  | 0, _, _ => none
  | fuel + 1, depth, cs => do
    match ← skipLayout false cs with
    | '\x7d' :: rest => return ([], rest)
    | cs =>
      let (e, rest) ← readEntry true fuel depth cs
      match ← skipLayout false rest with
      | ',' :: rest =>
        let (es, rest) ← readEntries fuel depth rest
        return (e :: es, rest)
      | '\x7d' :: rest => return ([e], rest)
      | _ => none

/-- A key, an equals sign and a value, on one line outside braces. -/
def readEntry (inBraces : Bool) : Nat → Nat → List Char → Option ((KeyPath × Term) × List Char)
  | 0, _, _ => none
  | fuel + 1, depth, cs => do
    let (k, rest) ← readKeyPath cs
    match ← skipGap inBraces rest with
    | '=' :: rest =>
      let (v, rest) ← readTerm fuel depth (← skipGap inBraces rest)
      return ((k, v), rest)
    | _ => none

end

def readHeader : List Char → Option (Header × List Char)
  | '[' :: '[' :: cs => do
    let (k, rest) ← readKeyPath cs
    let ']' :: ']' :: rest := rest | none
    return (.row k, rest)
  | '[' :: cs => do
    let (k, rest) ← readKeyPath cs
    let ']' :: rest := rest | none
    return (.table k, rest)
  | _ => none

/-- The entries up to the next header or the end, and the sections from there on. -/
def readLines : Nat → List Char → Option Document
  | 0, _ => none
  | fuel + 1, cs => do
    match ← skipLayout false cs with
    | [] => return ⟨[], []⟩
    | '[' :: cs =>
      let (header, rest) ← readHeader ('[' :: cs)
      let document ← readLines fuel (← endLine false rest)
      return ⟨[], ⟨header, document.entries⟩ :: document.sections⟩
    | cs =>
      let (entry, rest) ← readEntry false fuel depthLimit cs
      let document ← readLines fuel (← endLine false rest)
      return ⟨entry :: document.entries, document.sections⟩

/-- The syntax of a whole text, behind a byte order mark if there is one. Each call that does not
consume a character is followed by one that does, so twice the length is fuel enough. -/
def readDocument (s : String) : Option Document :=
  let cs := match s.toList with
    | '\uFEFF' :: cs => cs
    | cs => cs
  readLines (3 * cs.length + 3) cs

end GeneratorKit.Toml
