import CallSchema.Text.Basic

set_option autoImplicit false

namespace CallSchema.Docstring

-- Tabs replaced by spaces up to the next column that is a multiple of eight.
def expandTabsFrom (column : Nat) : Text → Text
  | [] => []
  | c :: t =>
    if c = '\t' then
      let width := 8 - column % 8
      List.replicate width ' ' ++ expandTabsFrom (column + width) t
    else c :: expandTabsFrom (column + 1) t

def expandTabs (line : Text) : Text := expandTabsFrom 0 line

def indentOf (line : Text) : Nat := Text.utf8Length (line.takeWhile Text.isBlank)

def dropBytes? : Nat → Text → Option Text
  | 0, t => some t
  | _ + 1, [] => none
  | width + 1, c :: t =>
    if c.utf8Size ≤ width + 1 then dropBytes? (width + 1 - c.utf8Size) t else none

def margin (ls : List Text) : Nat :=
  (((ls.filter (!Text.blank ·)).map indentOf).min?).getD 0

-- A line without the margin. Where the margin ends inside a character, all blanks go.
def dropMargin (margin : Nat) (line : Text) : Text :=
  if Text.blank line then []
  else Text.trimEnd ((dropBytes? margin line).getD (Text.trimStart line))

def dedent (ls : List Text) : List Text := ls.map (dropMargin (margin ls))

def trimEmpty (ls : List Text) : List Text :=
  ((ls.dropWhile List.isEmpty).reverse.dropWhile List.isEmpty).reverse

def layout (t : Text) : List Text :=
  match (Text.lines t).map expandTabs with
  | [] => []
  | first :: rest => trimEmpty (Text.trim first :: dedent rest)

def clean (t : Text) : Text := Text.joinLines (layout t)

end CallSchema.Docstring
