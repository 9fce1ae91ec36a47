import CallSchema.Text.Hex

set_option autoImplicit false

namespace CallSchema.Literal

def shortEscape? (c : Char) : Option Char :=
  [('n', '\n'), ('t', '\t'), ('r', '\r'), ('0', '\x00'), ('\\', '\\'), ('\'', '\''),
    ('"', '"')].lookup c

def hexWidth? (c : Char) : Option Nat := [('x', 2), ('u', 4), ('U', 8)].lookup c

def leadingHex (width : Nat) (t : Text) : Text := (t.take width).takeWhile Text.isHexDigit

-- What a hexadecimal escape denotes: a character if all the digits are there and a character has
-- that number, otherwise the escape itself.
def hexEscape (kind : Char) (width : Nat) (digits : Text) : Text :=
  match (Text.hexNumber? digits).bind Text.scalar? with
  | some c => if digits.length = width then [c] else '\\' :: kind :: digits
  | none => '\\' :: kind :: digits

-- A text with its escapes replaced by what they denote. A backslash before a line end joins the
-- lines, and one before anything else stands for itself.
def decode (t : Text) : Text :=
  match t with
  | [] => []
  | ['\\'] => ['\\']
  | '\\' :: c :: t =>
    if c = '\n' then decode t
    else match shortEscape? c with
      | some d => d :: decode t
      | none =>
        match hexWidth? c with
        | some width =>
          let digits := leadingHex width t
          hexEscape c width digits ++ decode (t.drop digits.length)
        | none => '\\' :: c :: decode t
  | c :: t => c :: decode t
termination_by t.length
decreasing_by all_goals simp only [List.length_drop, List.length_cons]; omega

def isQuote (c : Char) : Bool := c == '"' || c == '\''

def inside? (t : Text) : Option Text :=
  ["\"\"\"", "\x27\x27\x27", "\"", "\x27"].findSome? fun quote =>
    Text.between? quote.toList quote.toList t

def value? (written : Text) : Option Text := do
  let flags := (written.takeWhile (!isQuote ·)).map Char.toLower
  guard (flags.all fun c => c == 'r' || c == 'u')
  let inner ← inside? (written.dropWhile (!isQuote ·))
  return if flags.contains 'r' then inner else decode inner

end CallSchema.Literal
