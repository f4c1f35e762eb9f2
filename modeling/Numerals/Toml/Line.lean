import Numerals.Toml.Value

/-!
# TOML lines

A text is a row of lines: blank lines and comments, headers, and entries. Keys are bare or quoted;
a value stands on one line and is a basic string, a decimal integer, a boolean, an array or an
inline table.

A reader takes characters and gives what it has read and what follows it, or `none`. Where values
are nested the reader takes fuel, of which twice the number of characters is always enough.
-/

namespace Numerals.Toml

/-! ## Characters -/

def isBlank (c : Char) : Bool := c = ' ' || c = '\t'

def skipBlanks (cs : List Char) : List Char := cs.dropWhile isBlank

/-- Control characters other than the tab stand nowhere in a line. -/
def isControl (c : Char) : Bool := c.toNat < 0x20 && c != '\t' || c.toNat = 0x7F

def isBareKey (c : Char) : Bool := c.isAlphanum || c = '_' || c = '-'

def hexDigit? (c : Char) : Option Nat :=
  if c.isDigit then some (c.toNat - '0'.toNat)
  else if 'a' ≤ c && c ≤ 'f' then some (c.toNat - 'a'.toNat + 10)
  else if 'A' ≤ c && c ≤ 'F' then some (c.toNat - 'A'.toNat + 10)
  else none

/-- The character that hexadecimal digits number. -/
def codePoint? (digits : List Char) : Option Char := do
  let n ← digits.foldlM (fun n c => (hexDigit? c).map (16 * n + ·)) 0
  if n.isValidChar then some (Char.ofNat n) else none

/-- The character that stands for itself after a backslash, or is named there by a letter. -/
def escape? : Char → Option Char
  | 'b' => some '\x08'
  | 't' => some '\t'
  | 'n' => some '\n'
  | 'f' => some '\x0C'
  | 'r' => some '\r'
  | '"' => some '"'
  | '\\' => some '\\'
  | _ => none

/-! ## Values -/

/-- Reads a string after its opening quote. -/
def readString : List Char → Option (List Char × List Char)
  | [] => none
  | '"' :: rest => some ([], rest)
  | '\\' :: 'u' :: a :: b :: c :: d :: rest => do
    let char ← codePoint? [a, b, c, d]
    let (text, rest) ← readString rest
    return (char :: text, rest)
  | '\\' :: 'U' :: a :: b :: c :: d :: e :: f :: g :: h :: rest => do
    let char ← codePoint? [a, b, c, d, e, f, g, h]
    let (text, rest) ← readString rest
    return (char :: text, rest)
  | '\\' :: c :: rest => do
    let char ← escape? c
    let (text, rest) ← readString rest
    return (char :: text, rest)
  | c :: rest =>
    if isControl c then none
    else (readString rest).map fun (text, rest) => (c :: text, rest)

def readKey : List Char → Option (String × List Char)
  | '"' :: rest => (readString rest).map fun (text, rest) => (String.ofList text, rest)
  | cs =>
    let key := cs.takeWhile isBareKey
    if key.isEmpty then none else some (String.ofList key, cs.dropWhile isBareKey)

/-- Reads the digits after those that make `n`; an underscore stands between two digits. -/
def readDigits (n : Nat) : List Char → Option (Nat × List Char)
  | [] => some (n, [])
  | '_' :: c :: rest =>
    if c.isDigit then readDigits (10 * n + (c.toNat - '0'.toNat)) rest else none
  | c :: rest =>
    if c.isDigit then readDigits (10 * n + (c.toNat - '0'.toNat)) rest
    else if c = '_' then none
    else some (n, c :: rest)

/-- Reads a number without a sign; only zero starts with a zero. -/
def readNat : List Char → Option (Nat × List Char)
  | [] => none
  | c :: rest =>
    if c = '0' then some (0, rest)
    else if c.isDigit then readDigits (c.toNat - '0'.toNat) rest
    else none

/-- Reads an integer of 64 bits. -/
def readInteger (cs : List Char) : Option (Value × List Char) := do
  let (n, rest) ←
    match cs with
    | '-' :: cs => (readNat cs).map fun (n, rest) => (-(n : Int), rest)
    | '+' :: cs => (readNat cs).map fun (n, rest) => ((n : Int), rest)
    | cs => (readNat cs).map fun (n, rest) => ((n : Int), rest)
  if -0x8000000000000000 ≤ n && n < 0x8000000000000000 then some (.integer n, rest) else none

mutual

def readValue : Nat → List Char → Option (Value × List Char)
  | 0, _ => none
  | _ + 1, '"' :: rest =>
    (readString rest).map fun (text, rest) => (.text (String.ofList text), rest)
  | fuel + 1, '[' :: rest =>
    (readElements fuel (skipBlanks rest)).map fun (elements, rest) =>
      (.array false elements, rest)
  | fuel + 1, '{' :: rest =>
    match skipBlanks rest with
    | '}' :: rest => some (.table .inline [], rest)
    | rest =>
      (readEntries fuel [] rest).map fun (entries, rest) => (.table .inline entries, rest)
  | _ + 1, 't' :: 'r' :: 'u' :: 'e' :: rest => some (.boolean true, rest)
  | _ + 1, 'f' :: 'a' :: 'l' :: 's' :: 'e' :: rest => some (.boolean false, rest)
  | _ + 1, cs => readInteger cs

/-- Reads the elements of an array up to its closing bracket; a comma may follow the last. -/
def readElements : Nat → List Char → Option (List Value × List Char)
  | 0, _ => none
  | _ + 1, ']' :: rest => some ([], rest)
  | fuel + 1, cs => do
    let (value, rest) ← readValue fuel cs
    match skipBlanks rest with
    | ',' :: rest =>
      let (values, rest) ← readElements fuel (skipBlanks rest)
      return (value :: values, rest)
    | ']' :: rest => return ([value], rest)
    | _ => none

/-- Reads the entries of an inline table after `es` up to its closing brace. -/
def readEntries : Nat → Entries → List Char → Option (Entries × List Char)
  | 0, _, _ => none
  | fuel + 1, es, cs => do
    let (key, rest) ← readKey cs
    match skipBlanks rest with
    | '=' :: rest =>
      let (value, rest) ← readValue fuel (skipBlanks rest)
      let es ← es.add key value
      match skipBlanks rest with
      | ',' :: rest => readEntries fuel es (skipBlanks rest)
      | '}' :: rest => return (es, rest)
      | _ => none
    | _ => none

end

/-! ## Lines -/

inductive Line where
  | blank
  /-- `[path]`: the entries that follow belong to this table. -/
  | header (path : List String)
  /-- `[[path]]`: the entries that follow belong to a new element of this array. -/
  | element (path : List String)
  | entry (key : String) (value : Value)

/-- Whether a line may end here: after blanks there is nothing but a comment. -/
def endsLine (cs : List Char) : Bool :=
  match skipBlanks cs with
  | [] => true
  | '#' :: comment => comment.all (!isControl ·)
  | _ => false

/-- Reads the keys of a header, which dots separate. -/
def readPath : Nat → List Char → Option (List String × List Char)
  | 0, _ => none
  | fuel + 1, cs => do
    let (key, rest) ← readKey (skipBlanks cs)
    match skipBlanks rest with
    | '.' :: rest =>
      let (keys, rest) ← readPath fuel rest
      return (key :: keys, rest)
    | rest => return ([key], rest)

def readLine (cs : List Char) : Option Line :=
  if endsLine cs then some .blank
  else
    match skipBlanks cs with
    | '[' :: '[' :: rest => do
      match ← readPath rest.length rest with
      | (path, ']' :: ']' :: rest) => if endsLine rest then some (.element path) else none
      | _ => none
    | '[' :: rest => do
      match ← readPath rest.length rest with
      | (path, ']' :: rest) => if endsLine rest then some (.header path) else none
      | _ => none
    | cs => do
      let (key, rest) ← readKey cs
      match skipBlanks rest with
      | '=' :: rest =>
        let (value, rest) ← readValue (2 * rest.length) (skipBlanks rest)
        if endsLine rest then some (.entry key value) else none
      | _ => none

/-- The lines of a text; a line ends with a line feed, which a carriage return may precede. -/
def splitLines : List Char → List (List Char)
  | [] => [[]]
  | '\r' :: '\n' :: rest => [] :: splitLines rest
  | '\n' :: rest => [] :: splitLines rest
  | c :: rest =>
    match splitLines rest with
    | line :: lines => (c :: line) :: lines
    | [] => [[c]]

end Numerals.Toml
