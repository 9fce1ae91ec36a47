import CallSchema.Docstring.Layout

set_option autoImplicit false

namespace CallSchema.Docstring

structure Item where
  name : Text
  hint : Option Text
  description : Text
  -- The hint ends with the word "optional" or with a question mark.
  isOptional : Bool
  -- The value that the description names as the default.
  fallback : Option Text
  deriving DecidableEq, Repr

namespace Item

def markedOptional (item : Item) : Bool := item.isOptional || item.fallback.isSome

-- The name and the hint of an item's head, which are told apart by the first parenthesis after the
-- first character. The hint reaches to the last closing parenthesis.
def splitHead? (head : Text) : Option (Text × Text) :=
  match head with
  | [] => none
  | first :: rest => do
    let (name, after) ← Text.splitFirst? ['('] rest
    let (hint, _) ← Text.splitLast? [')'] after
    guard (!Text.blank hint)
    return (Text.trim (first :: name), Text.trim hint)

def beforeOptional? (hint : Text) : Option Text := do
  let backwards := Text.trimStart hint.reverse
  let rest ← Text.stripStartIgnoringCase? "optional".toList.reverse backwards
  let rest ← Text.stripStart? [','] (Text.trimStart rest)
  return Text.trimEnd rest.reverse

def optionality (hint : Text) : Text × Bool :=
  match beforeOptional? hint with
  | some rest => (rest, true)
  | none =>
    match Text.stripEnd? ['?'] hint with
    | some rest => (Text.trimEnd rest, true)
    | none => (hint, false)

-- The value between the last mark in a line that opens one and the last full stop of the line.
def namedValue? (mark : Text) : Text → Option Text
  | [] => none
  | c :: t =>
    (namedValue? mark t).or do
      let after ← Text.stripStart? mark (c :: t)
      let (value, _) ← Text.splitLast? ['.'] after
      guard (!value.isEmpty)
      return value

def fallback? (description : Text) : Option Text :=
  namedValue? ". Defaults to " (description.takeWhile (· ≠ '\n'))

def ofLines (head : Text) (below : List Text) : Item :=
  let head := Text.trim head
  let (before, summary) := (Text.splitFirst? [':'] head).getD (head, [])
  let summary := Text.trim summary
  let rest := trimEmpty (dedent below)
  let description := Text.joinLines (if summary.isEmpty then rest else summary :: rest)
  let (name, hint, isOptional) :=
    match splitHead? before with
    | some (name, hint) =>
      let (bare, isOptional) := optionality hint
      (name, some bare, isOptional)
    | none => (Text.trim before, none, false)
  ⟨name, hint, description, isOptional, fallback? description⟩

end Item

end CallSchema.Docstring
