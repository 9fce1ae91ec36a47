import CallSchema.Source.Token

set_option autoImplicit false

namespace CallSchema.Source

abbrev Reader := StateT (List Lexeme) Option

namespace Reader

variable {α β : Type}

def next : Reader Lexeme := fun
  | [] => none
  | lexeme :: rest => some (lexeme, rest)

def satisfy (accepts : Token → Bool) : Reader Lexeme := do
  let lexeme ← next
  guard (accepts lexeme.token)
  return lexeme

def mark (symbol : String) : Reader Lexeme := satisfy (· == .mark symbol.toList)

def anyMark (symbols : List String) : Reader Lexeme :=
  satisfy fun token => symbols.any fun symbol => token == .mark symbol.toList

def keyword (name : String) : Reader Lexeme := satisfy (· == .word name.toList)

def reserved : List Text :=
  ["False", "None", "True", "and", "as", "else", "for", "from", "if", "import", "in", "is",
    "lambda", "not", "or", "yield"].map String.toList

def openingWords : List Text :=
  ["assert", "break", "class", "continue", "def", "del", "elif", "else", "except", "finally",
    "for", "from", "global", "if", "import", "nonlocal", "pass", "raise", "return", "try",
    "while", "with"].map String.toList

def word : Reader Text := do
  match (← next).token with
  | .word name => return name
  | _ => failure

def name : Reader Text := do
  let name ← word
  guard (!reserved.contains name)
  return name

def noOpeningWord : Reader Unit := fun lexemes =>
  match lexemes.head?.map Lexeme.token with
  | some (.word word) => if openingWords.contains word then none else some ((), lexemes)
  | _ => some ((), lexemes)

def atEnd : Reader Unit := fun
  | [] => some ((), [])
  | _ => none

def attempt (reader : Reader α) : Reader (Option α) := fun lexemes =>
  match reader lexemes with
  | some (value, rest) => some (some value, rest)
  | none => some (none, lexemes)

def opt (reader : Reader α) : Reader Bool := (·.isSome) <$> attempt reader

def ahead (reader : Reader α) : Reader Unit := fun lexemes =>
  (reader lexemes).map fun _ => ((), lexemes)

def repeated (reader : Reader α) : Nat → Reader (List α)
  | 0 => pure []
  | bound + 1 => fun lexemes =>
    match reader lexemes with
    | some (value, rest) =>
      (repeated reader bound rest).map fun more => (value :: more.1, more.2)
    | none => some ([], lexemes)

def many (reader : Reader α) : Reader (List α) := fun lexemes =>
  repeated reader lexemes.length lexemes

def many1 (reader : Reader α) : Reader (List α) := do
  let first ← reader
  return first :: (← many reader)

def separated (separator : Reader β) (reader : Reader α) : Reader (List α × Bool) := do
  let first ← reader
  let rest ← many (do let _ ← separator; reader)
  let closed ← opt separator
  return (first :: rest, closed)

def commaSeparated (reader : Reader α) : Reader (List α × Bool) := separated (mark ",") reader

def joinedBy (separator : Reader β) (reader : Reader α) : Reader (List α) := do
  let (items, closed) ← separated separator reader
  guard (!closed)
  return items

def readAll? (reader : Reader α) (lexemes : List Lexeme) : Option α :=
  match reader lexemes with
  | some (value, []) => some value
  | _ => none

end Reader

end CallSchema.Source
