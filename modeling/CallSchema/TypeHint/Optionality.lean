import CallSchema.TypeHint.Parts

set_option autoImplicit false

namespace CallSchema.TypeHint

-- The text up to the bracket that closes an open one, `depth` further ones being open.
def upToClosing? (depth : Nat) : Text → Option Text
  | [] => none
  | c :: t =>
    if c = '[' then (upToClosing? (depth + 1) t).map (c :: ·)
    else if c = ']' then
      match depth with
      | 0 => some []
      | depth + 1 => (upToClosing? depth t).map (c :: ·)
    else (upToClosing? depth t).map (c :: ·)

-- What stands in the brackets after an opening word, which need not end the hint.
def bracketed? (opening t : Text) : Option Text :=
  (Text.stripStart? opening t).bind (upToClosing? 0)

def isOptional (t : Text) : Bool :=
  let t := withoutParentheses t
  (bracketed? "Optional[" t).isSome ||
    (bracketed? "Union[" t).any (fun members => (parts members).any isNoneName) ||
    (parts t).any (Text.sameIgnoringCase · "optional")

end CallSchema.TypeHint
