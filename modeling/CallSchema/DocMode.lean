import CallSchema.Text.Basic

set_option autoImplicit false

namespace CallSchema

inductive DocMode where
  -- Compiled from the docstrings of the package.
  | rawDocstring
  -- Copied from a concise artifact made beforehand.
  | concise
  -- Copied from an artifact of medium detail made beforehand.
  | mediumDetail
  deriving DecidableEq, Repr, Inhabited

namespace DocMode

def name : DocMode → Text
  | rawDocstring => "raw_docstring"
  | concise => "concise"
  | mediumDetail => "medium_detail"

def ofName? (t : Text) : Option DocMode :=
  [rawDocstring, concise, mediumDetail].find? (·.name = t)

def artifactName (mode : DocMode) (package : Text) : Text :=
  let file := package ++ ".json".toList
  match mode with
  | rawDocstring => file
  | mode => mode.name ++ '_' :: file

end DocMode

end CallSchema
