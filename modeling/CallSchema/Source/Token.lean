import CallSchema.Text.Basic

set_option autoImplicit false

namespace CallSchema.Source

inductive Token where
  -- A name or a keyword.
  | word (name : Text)
  | number
  -- A string literal as it is written.
  | literal (written : Text)
  | mark (symbol : Text)
  -- The ends of an expression inside a literal.
  | holeStart
  | holeEnd
  -- A character that opens no token.
  | stray (c : Char)
  deriving DecidableEq, Repr

structure Lexeme where
  token : Token
  -- A backslash joins the token's line to the one before it.
  joined : Bool
  deriving DecidableEq, Repr

structure Line where
  indent : Nat
  lexemes : List Lexeme
  deriving DecidableEq, Repr

end CallSchema.Source
