import CallSchema.Source.Expression

set_option autoImplicit false

namespace CallSchema.Source

inductive Assignment where
  | last (target : Option Text) (value : Option Expression)
  | chained (target : Option Text) (rest : Assignment)

inductive SuiteKind where
  -- The statement itself.
  | own
  | elif
  | otherwise
  | handler
  | cleanup
  -- A case of a match statement.
  | case
  deriving DecidableEq, Repr

mutual

inductive Statement where
  -- Expressions standing for themselves, the first of them given.
  | expression (first : Expression)
  | assignment (chain : Assignment)
  | compound (suites : List Suite)
  -- A function, with the names of its parameters that have a default.
  | function (name : Text) (defaults : List Text) (body : List Statement)
  | classDefinition (name : Text) (body : List Statement)
  | decorated (definition : Statement)
  -- A statement that no other kind fits.
  | plain
  -- Something that is no statement.
  | malformed

inductive Suite where
  | mk (kind : SuiteKind) (body : List Statement)

end

def SuiteKind.levels : SuiteKind → Nat
  | .own => 2
  | .case => 4
  | _ => 3

namespace Statement

mutual

def visits (depth : Nat) : Statement → List (Nat × Statement)
  | .compound suites => (depth, .compound suites) :: visitsOfSuites depth suites
  | .function name defaults body =>
    (depth, .function name defaults body) :: visitsOfAll (depth + 2) body
  | .classDefinition name body =>
    (depth, .classDefinition name body) :: visitsOfAll (depth + 2) body
  | .decorated definition => (depth, .decorated definition) :: visits (depth + 1) definition
  | statement => [(depth, statement)]
termination_by structural statement => statement

def visitsOfAll (depth : Nat) : List Statement → List (Nat × Statement)
  | [] => []
  | statement :: rest => visits depth statement ++ visitsOfAll depth rest
termination_by structural statements => statements

def visitsOfSuites (depth : Nat) : List Suite → List (Nat × Statement)
  | [] => []
  | suite :: rest => visitsOfSuite depth suite ++ visitsOfSuites depth rest
termination_by structural suites => suites

def visitsOfSuite (depth : Nat) : Suite → List (Nat × Statement)
  | .mk kind body => visitsOfAll (depth + kind.levels) body
termination_by structural suite => suite

end

def isMalformed : Statement → Bool
  | .malformed => true
  | _ => false

def definition : Statement → Statement
  | .decorated statement => definition statement
  | statement => statement

end Statement

-- The first of the things at the smallest depth.
def shallowest? {α : Type} : List (Nat × α) → Option (Nat × α)
  | [] => none
  | thing :: rest =>
    match shallowest? rest with
    | none => some thing
    | some other => if other.1 < thing.1 then some other else some thing

structure Module where
  statements : List Statement

namespace Module

def visits (module : Module) : List (Nat × Statement) :=
  Statement.visitsOfAll 1 module.statements

def wellFormed (module : Module) : Bool := module.visits.all (!·.2.isMalformed)

end Module

namespace Assignment

def target : Assignment → Option Text
  | .last target _ => target
  | .chained target _ => target

def value? : Assignment → Option Expression
  | .last _ value => value
  | .chained _ _ => none

def visits (depth : Nat) : Assignment → List (Nat × Assignment)
  | .last target value => [(depth, .last target value)]
  | .chained target rest => (depth, .chained target rest) :: visits (depth + 1) rest

end Assignment

namespace Module

def assignments (module : Module) : List (Nat × Assignment) :=
  module.visits.flatMap fun visit =>
    match visit.2 with
    | .assignment chain => chain.visits (visit.1 + 1)
    | _ => []

def assignmentTo? (module : Module) (name : Text) : Option Assignment :=
  (shallowest? (module.assignments.filter (·.2.target = some name))).map (·.2)

def classBody? (module : Module) (name : Text) : Option (List Statement) :=
  (shallowest? (module.visits.filterMap fun visit =>
    match visit.2 with
    | .classDefinition other body => if other = name then some (visit.1, body) else none
    | _ => none)).map (·.2)

end Module

structure Function where
  name : Text
  -- The parameters that have a default.
  defaults : List Text
  body : List Statement

namespace Function

def ofStatement? (statement : Statement) : Option Function :=
  match statement.definition with
  | .function name defaults body => some ⟨name, defaults, body⟩
  | _ => none

def find? (name : Text) (statements : List Statement) : Option Function :=
  (statements.filterMap ofStatement?).find? (·.name = name)

def docstring? (function : Function) : Option Text :=
  match function.body with
  | .expression first :: _ => first.text?.filter (!Text.blank ·)
  | _ => none

end Function

end CallSchema.Source
