import CallSchema.Source.Token
import CallSchema.Text.Hex
import CallSchema.Text.Letter

set_option autoImplicit false

namespace CallSchema.Source

def isSpace (c : Char) : Bool :=
  c == ' ' || c == '\t' || c == '\x0b' || c == '\x0c' || c == '\r' || c == '\u200b' ||
    c == '\u2060' || c == '\ufeff'

-- The next token's text, and whether a backslash joins its line to the one before. Line ends are
-- passed over only inside brackets.
def skip (inside comment joined : Bool) : Text → Bool × Text
  | [] => (joined, [])
  | c :: t =>
    if comment && c != '\n' then skip inside true joined t
    else if c = '\n' then if inside then skip inside false joined t else (joined, c :: t)
    else if isSpace c then skip inside false joined t
    else if c = '#' then skip inside true joined t
    else if c = '\\' then
      match t with
      | '\n' :: rest => skip inside false true rest
      | '\r' :: '\n' :: rest => skip inside false true rest
      | _ => (joined, c :: t)
    else (joined, c :: t)

structure Style where
  quote : Char
  triple : Bool
  raw : Bool
  -- The literal has expressions between braces.
  formatted : Bool

def isFlag (c : Char) : Bool := "fFrRbBuU".toList.contains c

def openLiteral? (t : Text) : Option (Style × Text) :=
  let flags := t.takeWhile isFlag
  match t.dropWhile isFlag with
  | [] => none
  | quote :: rest =>
    if quote == '"' || quote == '\'' || quote == '\x60' then
      let raw := flags.any fun c => c == 'r' || c == 'R'
      let formatted := flags.any fun c => c == 'f' || c == 'F'
      match if quote = '\x60' then none else Text.stripStart? [quote, quote] rest with
      | some inner => some (⟨quote, true, raw, formatted⟩, inner)
      | none => some (⟨quote, false, raw, formatted⟩, rest)
    else none

def closeLiteral? (style : Style) (t : Text) : Option Text :=
  let width := if style.triple then 3 else 1
  Text.stripStart? (List.replicate width style.quote) t

def skipEscape (style : Style) (t : Text) : Text :=
  if style.raw then
    let t := match t with
      | c :: rest => if c = style.quote ∨ c = '\\' then rest else t
      | [] => []
    match t with
    | '\r' :: '\n' :: rest => rest
    | '\r' :: rest => rest
    | '\n' :: rest => rest
    | t => t
  else match t with
    | 'N' :: '{' :: rest => (rest.dropWhile (· ≠ '}')).tail
    | '\r' :: '\n' :: rest => rest
    | c :: rest => if "\n\"'\\abfnrtvxuU01234567".toList.contains c then rest else t
    | [] => []

-- What follows a literal whose opening quotes are passed. A literal of one line breaks off at a
-- line end, unless nothing but an escape stands between it and the opening quote.
def skipLiteral (style : Style) : Nat → Bool → Text → Option Text
  | 0, _, _ => none
  | bound + 1, started, t =>
    match closeLiteral? style t with
    | some rest => some rest
    | none =>
      match t with
      | [] => none
      | c :: rest =>
        if c = '\\' then skipLiteral style bound (started && style.raw) (skipEscape style rest)
        else if c = '\n' && started && !style.triple then none
        else skipLiteral style bound true rest

def skipDigits (isDigit : Char → Bool) (t : Text) : Text :=
  t.dropWhile fun c => isDigit c || c == '_'

def skipExponent (t : Text) : Text :=
  match t with
  | c :: rest =>
    if c = 'e' ∨ c = 'E' then
      let digits := match rest with
        | sign :: more => if sign = '+' ∨ sign = '-' then more else rest
        | [] => []
      if (digits.head?.map Char.isDigit).getD false then skipDigits Char.isDigit digits else t
    else t
  | [] => []

def skipSuffix (suffixes : List Char) (t : Text) : Text :=
  match t with
  | c :: rest => if suffixes.contains c then rest else t
  | [] => []

def skipNumber (t : Text) : Text :=
  match t with
  | '0' :: c :: rest =>
    if "xX".toList.contains c then skipSuffix ['l', 'L'] (skipDigits Text.isHexDigit rest)
    else if "oObB".toList.contains c then skipSuffix ['l', 'L'] (skipDigits Char.isDigit rest)
    else decimal t
  | t => decimal t
where
  decimal (t : Text) : Text :=
    let whole := skipDigits Char.isDigit t
    let fraction := match whole with
      | '.' :: rest => skipDigits Char.isDigit rest
      | rest => rest
    skipSuffix ['j', 'J', 'l', 'L'] (skipExponent fraction)

def marks : List Text :=
  ["**=", "//=", ">>=", "<<=", "...", "**", "//", ">>", "<<", "<=", ">=", "==", "!=", "<>", "->",
    "+=", "-=", "*=", "/=", "%=", "&=", "|=", "^=", "@=", ":=", "+", "-", "*", "/", "%", "@", "&",
    "|", "^", "~", "<", ">", "(", ")", "[", "]", "\x7b", "\x7d", ",", ":", ".", ";", "="].map
    String.toList

def startsNumber : Text → Bool
  | '.' :: c :: _ => c.isDigit
  | c :: _ => c.isDigit
  | [] => false

def plainToken (t : Text) : Token × Text :=
  match t with
  | [] => (.number, [])
  | c :: rest =>
    if Text.opensWord c then
      (.word (c :: rest.takeWhile Text.continuesWord), rest.dropWhile Text.continuesWord)
    else if startsNumber t then (.number, skipNumber t)
    else match marks.findSome? fun mark => (Text.stripStart? mark t).map (mark, ·) with
      | some (mark, rest) => (.mark mark, rest)
      | none => (.stray c, rest)

def depthAfter (depth : Nat) : Token → Nat
  | .mark ['('] => depth + 1
  | .mark ['['] => depth + 1
  | .mark ['{'] => depth + 1
  | .mark [')'] => depth - 1
  | .mark [']'] => depth - 1
  | .mark ['}'] => depth - 1
  | _ => depth

def skipShow (t : Text) : Option Text :=
  match t with
  | '=' :: rest =>
    let (_, after) := skip true false false rest
    if (after.head?.map fun c => c == '}' || c == '!' || c == ':').getD false then some after
    else none
  | _ => none

mutual

def lexOne : Nat → Bool → Text → List Lexeme × Text
  | 0, _, _ => ([], [])
  | bound + 1, joined, t =>
    match openLiteral? t with
    | none =>
      let (token, rest) := plainToken t
      ([⟨token, joined⟩], rest)
    | some (style, inner) =>
      let read :=
        if style.formatted then lexFormatted bound style false inner
        else (skipLiteral style (inner.length + 1) false inner).map ([], ·)
      match read with
      | some (holes, rest) =>
        (⟨.literal (t.take (t.length - rest.length)), false⟩ :: holes, rest)
      | none => ([⟨.stray style.quote, joined⟩], inner)
termination_by structural bound => bound

def lexFormatted : Nat → Style → Bool → Text → Option (List Lexeme × Text)
  | 0, _, _, _ => none
  | bound + 1, style, started, t =>
    match closeLiteral? style t with
    | some rest => some ([], rest)
    | none =>
      match t with
      | [] => none
      | '{' :: '{' :: rest => lexFormatted bound style true rest
      | '}' :: '}' :: rest => lexFormatted bound style true rest
      | '}' :: _ => none
      | '{' :: rest => do
        let (hole, rest) ← lexHole bound 0 rest
        let (holes, rest) ← lexFormatted bound style false rest
        return (⟨.holeStart, false⟩ :: hole ++ holes, rest)
      | c :: rest =>
        if c = '\\' then lexFormatted bound style (started && style.raw) (skipEscape style rest)
        else if c = '\n' && started && !style.triple then none
        else lexFormatted bound style true rest
termination_by structural bound => bound

def lexHole : Nat → Nat → Text → Option (List Lexeme × Text)
  | 0, _, _ => none
  | bound + 1, depth, t =>
    let (joined, t) := skip true false false t
    let next := if depth = 0 then (skipShow t).getD t else t
    match next with
    | [] => none
    | c :: rest =>
      if c = '}' && depth = 0 then some ([⟨.holeEnd, false⟩], rest)
      else if c = '!' && depth = 0 && rest.head? != some '=' then
        lexSpecification bound (rest.dropWhile Char.isLower)
      else if c = ':' && depth = 0 then lexSpecification bound rest
      else do
        let (lexemes, rest) := lexOne bound joined (c :: rest)
        let depth := (lexemes.head?.map fun lexeme => depthAfter depth lexeme.token).getD depth
        let (more, rest) ← lexHole bound depth rest
        return (lexemes ++ more, rest)
termination_by structural bound => bound

def lexSpecification : Nat → Text → Option (List Lexeme × Text)
  | 0, _ => none
  | bound + 1, t =>
    match t with
    | [] => none
    | '}' :: rest => some ([⟨.holeEnd, false⟩], rest)
    | '{' :: rest => do
      let (hole, rest) ← lexHole bound 0 rest
      let (more, rest) ← lexSpecification bound rest
      return (⟨.holeStart, false⟩ :: hole ++ more, rest)
    | _ :: rest => lexSpecification bound rest
termination_by structural bound => bound

end

def lexLine : Nat → Nat → Text → List Lexeme × Text
  | 0, _, _ => ([], [])
  | bound + 1, depth, t =>
    match skip (depth != 0) false false t with
    | (_, []) => ([], [])
    | (_, '\n' :: rest) => ([], rest)
    | (joined, t) =>
      let (lexemes, rest) := lexOne (t.length + 1) joined t
      let depth := (lexemes.head?.map fun lexeme => depthAfter depth lexeme.token).getD depth
      let (more, rest) := lexLine bound depth rest
      (lexemes ++ more, rest)

-- The width of the blanks before a line, and the line. Blank lines and comments before it are
-- passed over.
def lexIndent (width : Nat) (comment : Bool) : Text → Nat × Text
  | [] => (width, [])
  | c :: t =>
    if c = '\n' then lexIndent 0 false t
    else if comment then lexIndent width true t
    else if c = ' ' then lexIndent (width + 1) false t
    else if c = '\t' then lexIndent (width + 8) false t
    else if c = '\r' ∨ c = '\x0c' then lexIndent 0 false t
    else if c = '#' then lexIndent width true t
    else if c = '\\' then
      match t with
      | '\n' :: rest => lexIndent width false rest
      | '\r' :: '\n' :: rest => lexIndent width false rest
      | _ => (width, c :: t)
    else (width, c :: t)

def lexLines : Nat → Text → List Line
  | 0, _ => []
  | bound + 1, t =>
    match lexIndent 0 false t with
    | (_, []) => []
    | (indent, t) =>
      let (lexemes, rest) := lexLine (t.length + 1) 0 t
      if lexemes.isEmpty then lexLines bound rest else ⟨indent, lexemes⟩ :: lexLines bound rest

def lex (t : Text) : List Line :=
  let t := (Text.stripStart? ['\ufeff'] t).getD t
  lexLines (t.length + 1) t

end CallSchema.Source
