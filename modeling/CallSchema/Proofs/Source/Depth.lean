import CallSchema.Proofs.Source.NameTable

set_option autoImplicit false

namespace CallSchema.Source

inductive Step where
  -- A suite, which comes after this many `elif` clauses of its statement.
  | suite (kind : SuiteKind) (elifs : Nat)
  | decorator
  -- A target of the same statement that is assigned to before.
  | chain
  deriving DecidableEq

namespace Step

def levels : Step → Nat
  | .suite kind _ => kind.levels
  | .decorator => 1
  | .chain => 1

-- How much deeper the step leads where suites and clauses add nothing of their own. An `elif` is a
-- statement in the `else` of the one before; a handler and a case are between a statement and its
-- suite.
def nesting : Step → Nat
  | .suite .own _ => 1
  | .suite .elif elifs => elifs + 2
  | .suite .otherwise elifs => elifs + 1
  | .suite .handler _ => 2
  | .suite .cleanup _ => 1
  | .suite .case _ => 2
  | .decorator => 0
  | .chain => 0

def total (measure : Step → Nat) : List Step → Nat
  | [] => 0
  | step :: path => measure step + total measure path

end Step

-- An assignment and the way to it, the last step first.
structure Place where
  path : List Step
  assignment : Assignment

namespace Place

def depth (place : Place) : Nat := 2 + Step.total Step.levels place.path

def nesting (place : Place) : Nat := Step.total Step.nesting place.path

end Place

def SuiteKind.elifs : SuiteKind → Nat
  | .elif => 1
  | _ => 0

def Assignment.places (path : List Step) : Assignment → List Place
  | .last target value => [⟨path, .last target value⟩]
  | .chained target rest => ⟨path, .chained target rest⟩ :: places (.chain :: path) rest

namespace Statement

mutual

def places (path : List Step) : Statement → List Place
  | .assignment chain => chain.places path
  | .compound suites => placesOfSuites path 0 suites
  | .function _ _ body => placesOfAll (.suite .own 0 :: path) body
  | .classDefinition _ body => placesOfAll (.suite .own 0 :: path) body
  | .decorated definition => places (.decorator :: path) definition
  | _ => []
termination_by structural statement => statement

def placesOfAll (path : List Step) : List Statement → List Place
  | [] => []
  | statement :: rest => places path statement ++ placesOfAll path rest
termination_by structural statements => statements

def placesOfSuites (path : List Step) (elifs : Nat) : List Suite → List Place
  | [] => []
  | .mk kind body :: rest =>
    placesOfSuite path elifs (.mk kind body) ++ placesOfSuites path (elifs + kind.elifs) rest
termination_by structural suites => suites

def placesOfSuite (path : List Step) (elifs : Nat) : Suite → List Place
  | .mk kind body => placesOfAll (.suite kind elifs :: path) body
termination_by structural suite => suite

end

end Statement

def levelsOf (path : List Step) : Nat := Step.total Step.levels path

theorem add_levelsOf (start : Nat) (step : Step) (path : List Step) :
    start + levelsOf path + step.levels = start + levelsOf (step :: path) := by
  have cons : levelsOf (step :: path) = step.levels + levelsOf path := rfl
  rw [cons, Nat.add_comm step.levels, Nat.add_assoc]

def Place.record (place : Place) : Nat × Assignment := (place.depth, place.assignment)

theorem Place.record_mk (path : List Step) (assignment : Assignment) :
    Place.record ⟨path, assignment⟩ = (2 + levelsOf path, assignment) := rfl

theorem Assignment.visits_eq (assignment : Assignment) (path : List Step) :
    assignment.visits (2 + levelsOf path) = (assignment.places path).map Place.record := by
  induction assignment generalizing path with
  | last target value => rfl
  | chained target rest ih =>
    have deeper : 2 + levelsOf path + 1 = 2 + levelsOf (.chain :: path) := add_levelsOf 2 .chain path
    rw [Assignment.visits, deeper, ih, Assignment.places, List.map_cons, Place.record_mk]

def assignmentsIn (visits : List (Nat × Statement)) : List (Nat × Assignment) :=
  visits.flatMap fun visit =>
    match visit.2 with
    | .assignment chain => chain.visits (visit.1 + 1)
    | _ => []

theorem assignmentsIn_append (visits more : List (Nat × Statement)) :
    assignmentsIn (visits ++ more) = assignmentsIn visits ++ assignmentsIn more :=
  List.flatMap_append

namespace Statement

theorem levelsOf_suite (kind : SuiteKind) (elifs : Nat) (path : List Step) :
    1 + levelsOf path + kind.levels = 1 + levelsOf (.suite kind elifs :: path) :=
  add_levelsOf 1 (.suite kind elifs) path

mutual

theorem visits_eq (path : List Step) : (statement : Statement) →
    assignmentsIn (visits (1 + levelsOf path) statement) = (places path statement).map Place.record
  | .assignment chain => by
    have here : 1 + levelsOf path + 1 = 2 + levelsOf path := by omega
    simp only [visits, assignmentsIn, List.flatMap_cons, List.flatMap_nil, List.append_nil, here, places]
    exact chain.visits_eq path
  | .compound suites => visitsOfSuites_eq path 0 suites
  | .function _ _ body => by
    have inner := visitsOfAll_eq (.suite .own 0 :: path) body
    rw [← levelsOf_suite] at inner
    exact inner
  | .classDefinition _ body => by
    have inner := visitsOfAll_eq (.suite .own 0 :: path) body
    rw [← levelsOf_suite] at inner
    exact inner
  | .decorated definition => by
    have inner := visits_eq (.decorator :: path) definition
    have deeper : 1 + levelsOf path + 1 = 1 + levelsOf (.decorator :: path) :=
      add_levelsOf 1 .decorator path
    rw [← deeper] at inner
    exact inner
  | .expression _ => rfl
  | .plain => rfl
  | .malformed => rfl
termination_by structural statement => statement

theorem visitsOfAll_eq (path : List Step) : (statements : List Statement) →
    assignmentsIn (visitsOfAll (1 + levelsOf path) statements) =
      (placesOfAll path statements).map Place.record
  | [] => rfl
  | statement :: rest => by
    rw [visitsOfAll, assignmentsIn_append, visits_eq path statement, visitsOfAll_eq path rest,
      placesOfAll, List.map_append]
termination_by structural statements => statements

theorem visitsOfSuites_eq (path : List Step) (elifs : Nat) : (suites : List Suite) →
    assignmentsIn (visitsOfSuites (1 + levelsOf path) suites) =
      (placesOfSuites path elifs suites).map Place.record
  | [] => rfl
  | .mk kind body :: rest => by
    rw [visitsOfSuites, assignmentsIn_append, visitsOfSuite_eq path elifs (.mk kind body),
      visitsOfSuites_eq path (elifs + kind.elifs) rest, placesOfSuites, List.map_append]
termination_by structural suites => suites

theorem visitsOfSuite_eq (path : List Step) (elifs : Nat) : (suite : Suite) →
    assignmentsIn (visitsOfSuite (1 + levelsOf path) suite) =
      (placesOfSuite path elifs suite).map Place.record
  | .mk kind body => by
    rw [visitsOfSuite, levelsOf_suite kind elifs, visitsOfAll_eq, placesOfSuite]
termination_by structural suite => suite

end

end Statement

namespace Module

-- The places of the assignments to the variable, in the order of the source.
def placesOf (module : Module) (name : Text) : List Place :=
  (Statement.placesOfAll [] module.statements).filter (·.assignment.target = some name)

theorem assignments_eq (module : Module) :
    module.assignments = (Statement.placesOfAll [] module.statements).map Place.record :=
  Statement.visitsOfAll_eq [] module.statements

theorem filter_assignments (module : Module) (name : Text) :
    module.assignments.filter (·.2.target = some name) = (module.placesOf name).map Place.record := by
  rw [assignments_eq, List.filter_map]
  rfl

end Module

-- The place is the least deep one, and of those that are as deep the first in the source.
structure First (depth : Place → Nat) (before : List Place) (place : Place) (after : List Place) :
    Prop where
  before : ∀ other ∈ before, depth place < depth other
  after : ∀ other ∈ after, depth place ≤ depth other

theorem First.cons_of_lt {depth : Place → Nat} {before after : List Place} {place other : Place}
    (h : First depth before place after) (less : depth place < depth other) :
    First depth (other :: before) place after := by
  refine ⟨fun earlier mem => ?_, h.after⟩
  rcases List.mem_cons.mp mem with rfl | mem
  · exact less
  · exact h.before earlier mem

theorem First.nil_of_le {depth : Place → Nat} {before after : List Place} {place other : Place}
    (h : First depth before place after) (shallow : depth other ≤ depth place) :
    First depth [] other (before ++ place :: after) := by
  refine ⟨by simp, fun later mem => ?_⟩
  rcases List.mem_append.mp mem with mem | mem
  · exact Nat.le_trans shallow (Nat.le_of_lt (h.before later mem))
  · rcases List.mem_cons.mp mem with rfl | mem
    · exact shallow
    · exact Nat.le_trans shallow (h.after later mem)

theorem exists_first (depth : Place → Nat) {places : List Place} (h : places ≠ []) :
    ∃ before place after, places = before ++ place :: after ∧ First depth before place after ∧
      shallowest? (places.map fun place => (depth place, place.assignment)) =
        some (depth place, place.assignment) := by
  induction places with
  | nil => exact absurd rfl h
  | cons other rest ih =>
    by_cases only : rest = []
    · subst only
      exact ⟨[], other, [], rfl, ⟨by simp, by simp⟩, rfl⟩
    · obtain ⟨before, place, after, rfl, first, found⟩ := ih only
      rw [List.map_cons, shallowest?, found]
      by_cases less : depth place < depth other
      · exact ⟨other :: before, place, after, rfl, first.cons_of_lt less, if_pos less⟩
      · have shallow := Nat.le_of_not_lt less
        exact ⟨[], other, _, rfl, first.nil_of_le shallow, if_neg less⟩

-- A suite that only a statement stands around, and no clause but the cases of a match.
def Step.isPlain : Step → Bool
  | .suite .own _ => true
  | .suite .case _ => true
  | _ => false

theorem Place.depth_of_plain {place : Place} (h : ∀ step ∈ place.path, step.isPlain = true) :
    place.depth = 2 + 2 * place.nesting := by
  obtain ⟨path, assignment⟩ := place
  simp only [Place.depth, Place.nesting] at h ⊢
  congr 1
  induction path with
  | nil => rfl
  | cons step path ih =>
    have rest := ih fun other mem => h other (List.mem_cons_of_mem _ mem)
    have twice : step.levels = 2 * step.nesting := by
      have plain := h step List.mem_cons_self
      unfold Step.isPlain at plain
      split at plain
      · rfl
      · rfl
      · cases plain
    rw [Step.total, Step.total, rest, twice, Nat.mul_add]

theorem First.nesting_of_plain {before after : List Place} {place : Place}
    (h : First Place.depth before place after)
    (plain : ∀ other ∈ before ++ place :: after, ∀ step ∈ other.path, step.isPlain = true) :
    First Place.nesting before place after := by
  have here := Place.depth_of_plain (plain place (by simp))
  constructor
  · intro other mem
    have there := Place.depth_of_plain (plain other (by simp [mem]))
    have less := h.before other mem
    omega
  · intro other mem
    have there := Place.depth_of_plain (plain other (by simp [mem]))
    have least := h.after other mem
    omega

end CallSchema.Source

namespace CallSchema.NameTable

open Source

/-- What counts is what is assigned to the variable at the first of its places, if there are any.
The first one is the least deep in the tree of the source, and where all of them stand in plain
suites it is the least nested one as well. -/
theorem read?_of_first {source : Text} (sound : (Module.read source).wellFormed = true) (name : Text) :
    (Module.read source).placesOf name = [] ∧ read? source name = none ∨
      ∃ before place after,
        (Module.read source).placesOf name = before ++ place :: after ∧
          First Place.depth before place after ∧
          ((∀ other ∈ (Module.read source).placesOf name, ∀ step ∈ other.path, step.isPlain = true) →
            First Place.nesting before place after) ∧
          read? source name = place.assignment.value?.bind ofExpression? := by
  rw [read?, ofModule?_of_wellFormed sound, Module.assignmentTo?, Module.filter_assignments]
  by_cases none : (Module.read source).placesOf name = []
  · exact .inl ⟨none, by rw [none]; rfl⟩
  · obtain ⟨before, place, after, whole, least, found⟩ := exists_first Place.depth none
    refine .inr ⟨before, place, after, whole, least, ?_, ?_⟩
    · rw [whole]
      exact least.nesting_of_plain
    · have shallow : shallowest? (((Module.read source).placesOf name).map Place.record) =
          some place.record := found
      rw [shallow]
      rfl

def clauseText : Text := "if a:\n pass\nelse:\n m = \x7b'a': 'x'\x7d\nif b:\n m = \x7b'b': 'y'\x7d"

theorem read_clauseText :
    (Module.read clauseText).wellFormed = true ∧
      read? clauseText "m" = some [("b".toList, "y".toList)] ∧
      (shallowest? (((Module.read clauseText).placesOf "m").map fun place =>
        (place.nesting, place.assignment))).bind (·.2.value?.bind ofExpression?) =
          some [("a".toList, "x".toList)] := by
  decide +kernel

theorem read?_of_first_clauseText :
    (Module.read clauseText).wellFormed = true ∧
      ∃ before place after,
        (Module.read clauseText).placesOf "m" = before ++ place :: after ∧
          First Place.depth before place after ∧
          place.assignment.value?.bind ofExpression? = some [("b".toList, "y".toList)] := by
  obtain ⟨sound, table, -⟩ := read_clauseText
  refine ⟨sound, ?_⟩
  rcases read?_of_first sound "m" with ⟨-, none⟩ | ⟨before, place, after, whole, least, -, read⟩
  · rw [none] at table
    cases table
  · exact ⟨before, place, after, whole, least, read.symm.trans table⟩

-- So an assignment in a clause may give way to a later one that is nested as deep.
theorem not_read?_of_first_nesting :
    ¬ ∀ source name : Text, (Module.read source).wellFormed = true →
      ∀ before place after, (Module.read source).placesOf name = before ++ place :: after →
        First Place.nesting before place after →
        read? source name = place.assignment.value?.bind ofExpression? := by
  intro claimed
  obtain ⟨sound, table, least⟩ := read_clauseText
  have some : (Module.read clauseText).placesOf "m" ≠ [] := by
    intro none
    rw [none] at least
    cases least
  obtain ⟨before, place, after, whole, first, found⟩ := exists_first Place.nesting some
  have read := claimed _ _ sound before place after whole first
  rw [found] at least
  rw [table] at read
  exact absurd (read.trans least) (by decide)

end CallSchema.NameTable
