import CallSchema.Text.Basic

set_option autoImplicit false

namespace CallSchema.CommandLine

inductive Stop where
  | help | misuse
  deriving DecidableEq, Repr

structure OptionRule where
  name : Text
  repeatable : Bool
  accepts : Text → Bool

structure Rules where
  options : List OptionRule
  operands : Nat

structure Given where
  options : List (Text × Text)
  operands : List Text
  deriving DecidableEq, Repr

namespace Given

def empty : Given := ⟨[], []⟩

def values (given : Given) (name : Text) : List Text :=
  (given.options.filter (·.1 = name)).map (·.2)

def value? (given : Given) (name : Text) : Option Text := (given.values name).head?

def addOption (rules : Rules) (given : Given) (name value : Text) : Except Stop Given :=
  match rules.options.find? (·.name = name) with
  | none => .error .misuse
  | some rule =>
    if rule.accepts value && (rule.repeatable || (given.values name).isEmpty) then
      .ok { given with options := given.options ++ [(name, value)] }
    else .error .misuse

def addOperand (rules : Rules) (given : Given) (value : Text) : Except Stop Given :=
  if given.operands.length < rules.operands && !value.isEmpty then
    .ok { given with operands := given.operands ++ [value] }
  else .error .misuse

end Given

def looksLikeOption (argument : Text) : Bool := argument.head? == some '-' && argument != ['-']

def readArguments (rules : Rules) (given : Given) : List Text → Except Stop Given
  | [] => .ok given
  | argument :: rest =>
    match Text.stripStart? ['-', '-'] argument with
    | some [] => rest.foldlM (Given.addOperand rules) given
    | some option =>
      match Text.splitFirst? ['='] option with
      | some (name, value) => do readArguments rules (← given.addOption rules name value) rest
      | none =>
        if option = "help" then .error .help
        else match rest with
          | [] => .error .misuse
          | value :: rest =>
            -- A value that looks like an option has to be joined with an equals sign.
            if looksLikeOption value then .error .misuse
            else do readArguments rules (← given.addOption rules option value) rest
    | none =>
      if looksLikeOption argument then
        .error (if argument.tail.head? = some 'h' then .help else .misuse)
      else do readArguments rules (← given.addOperand rules argument) rest

def Given.read (rules : Rules) (arguments : List Text) : Except Stop Given := do
  let given ← readArguments rules .empty arguments
  if given.operands.length < rules.operands then .error .misuse
  return given

end CallSchema.CommandLine
