import CallSchema.Outline.Reading
import CallSchema.Schema.Printer

set_option autoImplicit false

namespace CallSchema

structure Parameter where
  name : Text
  hint : Option Text
  description : Text
  -- The signature gives the parameter a default.
  hasDefault : Bool
  -- The documentation says that the parameter may be left out.
  markedOptional : Bool
  deriving DecidableEq, Repr

structure Documentation where
  short : Option Text
  long : Option Text
  parameters : List Parameter
  deriving DecidableEq, Repr

structure FunctionSchema where
  name : Text
  description : Text
  parameters : Schema

namespace Parameter

def bareHint (parameter : Parameter) : Text :=
  (parameter.hint.map TypeHint.withoutParentheses).getD []

def schema (parameter : Parameter) : Schema :=
  Outline.document parameter.description (TypeHint.schema parameter.bareHint)

def required (parameter : Parameter) : Bool :=
  !(parameter.hasDefault || parameter.markedOptional ||
    TypeHint.isOptional parameter.bareHint)

def publicName (parameter : Parameter) : Text :=
  let name := Text.trim parameter.name
  ((Text.unquote? Outline.nameQuotes name).map Text.trim).getD name

end Parameter

namespace FunctionSchema

def insertParameter (shape : Shape) (parameter : Parameter) : Shape :=
  shape.insert parameter.publicName parameter.schema parameter.required

def joinDescriptions (short long : Option Text) : Text :=
  List.intercalate ['\n', '\n'] (([short, long].filterMap id).map Text.trim |>.filter (· ≠ []))

def ofDocumentation (name : Text) (documentation : Documentation) : FunctionSchema where
  name := name
  description := joinDescriptions documentation.short documentation.long
  parameters := .ofShape (documentation.parameters.foldl insertParameter .empty)

def toJson (function : FunctionSchema) : Json :=
  .record [("name", .text function.name), ("description", .text function.description),
    ("parameters", function.parameters.toJson)]

def text (function : FunctionSchema) : Text := function.toJson.compact

end FunctionSchema

end CallSchema
