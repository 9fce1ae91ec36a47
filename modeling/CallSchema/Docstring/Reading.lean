import CallSchema.Docstring.Item
import CallSchema.Function

set_option autoImplicit false

namespace CallSchema

structure Docstring where
  short : Option Text
  long : Option Text
  items : List Docstring.Item
  deriving DecidableEq, Repr

namespace Docstring

inductive Section where
  | parameters | other
  deriving DecidableEq, Repr

def parameterTitles : List Text :=
  ["Args", "Arguments", "Parameters", "Params", "Attributes", "Keyword Args", "Keyword Arguments",
    "Kwargs"]

def otherTitles : List Text :=
  ["Raises", "Exceptions", "Except", "Returns", "Return", "Yields", "Yield", "Example", "Examples",
    "Note", "Notes", "Warning", "Warnings", "See Also", "Todo", "References"]

def sectionOf? (line : Text) : Option Section := do
  let (title, after) ← Text.splitFirst? [':'] line
  guard (after.all fun c => c == ' ' || c == '\t')
  if parameterTitles.contains title then some .parameters
  else if otherTitles.contains title then some .other
  else none

def isInner (line : Text) : Bool := Text.blank line || indentOf line > 0

def sections : List Text → List Text × List (Section × List Text)
  | [] => ([], [])
  | line :: rest =>
    let (body, others) := sections rest
    if isInner line then (line :: body, others)
    else match sectionOf? line with
      | some kind => ([], (kind, body) :: others)
      | none => ([], others)

-- The items with their lines, after the lines that stand in front of the first one. An item opens
-- with a line that is not blank and not indented by more than `base`.
def itemLines (base : Nat) : List Text → List Text × List (Text × List Text)
  | [] => ([], [])
  | line :: rest =>
    let (below, items) := itemLines base rest
    if !Text.blank line && indentOf line ≤ base then ([], (line, below) :: items)
    else (line :: below, items)

-- The items of a section, the first line that is not blank giving their indentation.
def itemsOf (body : List Text) : List Item :=
  match body.find? (!Text.blank ·) with
  | none => []
  | some first => (itemLines (indentOf first) body).2.map fun item => .ofLines item.1 item.2

def nonEmpty (t : Text) : Option Text := if t.isEmpty then none else some t

def itemsOfSections (sections : List (Section × List Text)) : List Item :=
  sections.flatMap fun part => if part.1 = .parameters then itemsOf part.2 else []

def ofLines (ls : List Text) : Docstring :=
  let description := ls.takeWhile fun line => (sectionOf? line).isNone
  let rest := ls.dropWhile fun line => (sectionOf? line).isNone
  { short := (description.head?.map Text.trim).bind nonEmpty
    long := nonEmpty (Text.trim (Text.joinLines description.tail))
    items := itemsOfSections (sections rest).2 }

def read (t : Text) : Docstring := ofLines (layout t)

-- The parameter that an item documents, `defaults` being the names that have a default in the
-- signature. The quotes around an item's name are no part of the name in the signature.
def Item.parameter (defaults : List Text) (item : Item) : Parameter where
  name := item.name
  hint := item.hint
  description := item.description
  hasDefault := defaults.contains (Text.trimMarks Outline.nameQuotes item.name)
  markedOptional := item.markedOptional

end Docstring

end CallSchema
