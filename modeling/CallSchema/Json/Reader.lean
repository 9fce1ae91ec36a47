import CallSchema.Json.Basic

set_option autoImplicit false

namespace CallSchema.Json

def isSpace (c : Char) : Bool := c == ' ' || c == '\n' || c == '\t' || c == '\r'

def skipSpace (t : Text) : Text := t.dropWhile isSpace

def readString? : Text → Option (Text × Text)
  | [] => none
  | '"' :: t => some ([], t)
  | '\\' :: 'u' :: a :: b :: c :: d :: t => do
    let _ ← Text.hexNumber? [a, b, c, d]
    let (rest, after) ← readString? t
    return ('\\' :: 'u' :: a :: b :: c :: d :: rest, after)
  | '\\' :: c :: t => do
    let _ ← shortEscape? c
    let (rest, after) ← readString? t
    return ('\\' :: c :: rest, after)
  | c :: t => do
    guard (c != '\\' && 0x20 ≤ c.toNat)
    let (rest, after) ← readString? t
    return (c :: rest, after)

def readDigits? (t : Text) : Option (Text × Text) :=
  let digits := t.takeWhile Char.isDigit
  if digits.isEmpty then none else some (digits, t.dropWhile Char.isDigit)

-- A part of a number that opens with one of the marks, if there is one.
def readPart? (marks : List Char) (part : Text → Option (Text × Text)) (t : Text) :
    Option (Text × Text) :=
  match t with
  | [] => some ([], [])
  | c :: t =>
    if marks.contains c then (part t).map fun read => (c :: read.1, read.2) else some ([], c :: t)

def readExponent? (t : Text) : Option (Text × Text) :=
  match t with
  | '+' :: t => (readDigits? t).map fun read => ('+' :: read.1, read.2)
  | '-' :: t => (readDigits? t).map fun read => ('-' :: read.1, read.2)
  | t => readDigits? t

def readMagnitude? (t : Text) : Option (Text × Text) := do
  let (whole, t) ← readDigits? t
  guard (whole.head? != some '0' || whole.length == 1)
  let (fraction, t) ← readPart? ['.'] readDigits? t
  let (exponent, t) ← readPart? ['e', 'E'] readExponent? t
  return (whole ++ fraction ++ exponent, t)

def readNumber? (t : Text) : Option (Text × Text) :=
  match t with
  | '-' :: t => (readMagnitude? t).map fun read => ('-' :: read.1, read.2)
  | t => readMagnitude? t

def readWord? (t : Text) : Option (Json × Text) :=
  [("null", Json.null), ("true", .bool true), ("false", .bool false)].findSome? fun word =>
    (Text.stripStart? word.1.toList t).map (word.2, ·)

mutual

def readValue? : Nat → Text → Option (Json × Text)
  | 0, _ => none
  | depth + 1, t =>
    match skipSpace t with
    | '"' :: t => (readString? t).map fun read => (.string read.1, read.2)
    | '[' :: t =>
      match skipSpace t with
      | ']' :: t => some (.list [], t)
      | t => (readItems? depth t).map fun read => (.list read.1, read.2)
    | '{' :: t =>
      match skipSpace t with
      | '}' :: t => some (.object [], t)
      | t => (readFields? depth t).map fun read => (.object read.1, read.2)
    | t => (readWord? t).or ((readNumber? t).map fun read => (.number read.1, read.2))
termination_by structural depth => depth

def readItems? : Nat → Text → Option (List Json × Text)
  | 0, _ => none
  | depth + 1, t => do
    let (item, t) ← readValue? depth t
    match skipSpace t with
    | ',' :: t =>
      let (rest, t) ← readItems? depth t
      return (item :: rest, t)
    | ']' :: t => return ([item], t)
    | _ => none
termination_by structural depth => depth

def readFields? : Nat → Text → Option (List (Text × Json) × Text)
  | 0, _ => none
  | depth + 1, t => do
    let '"' :: t := skipSpace t | none
    let (name, t) ← readString? t
    let ':' :: t := skipSpace t | none
    let (value, t) ← readValue? depth t
    match skipSpace t with
    | ',' :: t =>
      let (rest, t) ← readFields? depth t
      return ((name, value) :: rest, t)
    | '}' :: t => return ([(name, value)], t)
    | _ => none
termination_by structural depth => depth

end

-- The value that a text is. Each step into a value or along a list takes a character, so the length
-- of the text bounds their number.
def read? (t : Text) : Option Json := do
  let (value, rest) ← readValue? (2 * t.length + 2) t
  guard (skipSpace rest).isEmpty
  return value

end CallSchema.Json
