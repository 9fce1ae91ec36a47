import CallSchema.Source.Literal

set_option autoImplicit false

namespace CallSchema.Source

mutual

inductive Expression where
  | name (name : Text)
  -- A string literal as it is written.
  | literal (written : Text)
  -- Literals side by side.
  | adjacent (written : List Text)
  -- An expression in parentheses. `joined` tells that a backslash joins lines next to one of
  -- them.
  | parenthesized (joined : Bool) (inner : Expression)
  -- A dictionary display. `joined` tells that a backslash joins lines between its entries.
  | dictionary (joined : Bool) (entries : List Item)
  -- An attribute or an element of something.
  | reference
  -- A tuple or a list display.
  | sequence (items : List Expression)
  | starred (inner : Expression)
  | other

inductive Item where
  | pair (key value : Expression)
  | spread

end

namespace Expression

def text? : Expression → Option Text
  | .literal written => Literal.value? written
  | .adjacent written => (written.mapM Literal.value?).map List.flatten
  | .parenthesized false inner => text? inner
  | _ => none

mutual

def isTarget : Expression → Bool
  | .name _ => true
  | .reference => true
  | .parenthesized _ inner => isTarget inner
  | .sequence items => allTargets items
  | .starred inner => isTarget inner
  | _ => false
termination_by structural expression => expression

def allTargets : List Expression → Bool
  | [] => true
  | item :: rest => isTarget item && allTargets rest
termination_by structural items => items

end

end Expression

def Item.texts? : Item → Option (Text × Text)
  | .pair key value => do return (← key.text?, ← value.text?)
  | .spread => none

end CallSchema.Source
