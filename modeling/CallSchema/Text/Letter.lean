import CallSchema.Text.Basic
import CallSchema.Text.Ranges

set_option autoImplicit false

namespace CallSchema.Text

def isLetter (c : Char) : Bool := c.isAlpha || letterRanges.has c

def isNumber (c : Char) : Bool := c.isDigit || numberRanges.has c

def opensIdentifier (c : Char) : Bool := c == '_' || isLetter c

def continuesIdentifier (c : Char) : Bool := c == '_' || isLetter c || isNumber c

def isIdentifier : Text → Bool
  | [] => false
  | c :: t => opensIdentifier c && t.all continuesIdentifier

def opensWord (c : Char) : Bool :=
  c == '_' || (isLetter c && !lateRanges.has c) || earlyRanges.has c

def continuesWord (c : Char) : Bool :=
  c == '_' || ((isLetter c || isNumber c) && !strayRanges.has c) || joinerRanges.has c

end CallSchema.Text
