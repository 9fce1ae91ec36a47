import CallSchema.Batch
import CallSchema.Package.Stepwise

set_option autoImplicit false

namespace CallSchema

-- A batch with several packages under way at the same time, as many as there are jobs. To have none
-- is to have one.
structure Crew extends Batch where
  jobs : Nat

namespace Crew

inductive Ending where
  | made (result : Except Failure (List Path))
  -- The task broke off; this is what the report says of it.
  | panicked (message : Text)

structure Outcome where
  package : Text
  ending : Ending

inductive Stage where
  | waiting
  | running (left : Steps (List Path))
  | ended (ending : Ending)

namespace Stage

def isWaiting : Stage → Bool
  | waiting => true
  | _ => false

def isRunning : Stage → Bool
  | running _ => true
  | _ => false

def isEnded : Stage → Bool
  | ended _ => true
  | _ => false

end Stage

structure Task where
  package : Text
  stage : Stage

-- The tasks, in the order in which they are started, and the files.
abbrev State := List Task × FileTree

def program (crew : Crew) (levels : Nat) (package : Text) : Steps (List Path) :=
  Stepwise.generate levels (crew.sources.join package) crew.output (crew.options package)

-- With more levels than these a package makes the same of the tree.
def enoughLevels (crew : Crew) (tree : FileTree) : Nat :=
  Package.enoughLevels tree ((Path.absolute tree.currentPath crew.output).join [])

-- The package that is put off waits for all the others, and the others for a free place.
def MayStart (crew : Crew) (package : Text) (earlier : List Task) : Prop :=
  if crew.isDeferred package then ∀ task ∈ earlier, task.stage.isEnded = true
  else (∀ task ∈ earlier, task.stage.isWaiting = false) ∧
    earlier.countP (·.stage.isRunning) < max crew.jobs 1

-- One step of any task.
inductive Turn (crew : Crew) : State → State → Prop where
  | start {earlier later : List Task} {package : Text} {tree : FileTree} (levels : Nat)
    (may : crew.MayStart package earlier) (enough : crew.enoughLevels tree ≤ levels) :
    Turn crew (earlier ++ ⟨package, .waiting⟩ :: later, tree)
      (earlier ++ ⟨package, .running (crew.program levels package)⟩ :: later, tree)
  | step {earlier later : List Task} {package : Text} {tree : FileTree}
    {move : FileTree → FileTree} {next : FileTree → Steps (List Path)} :
    Turn crew (earlier ++ ⟨package, .running (.step move next)⟩ :: later, tree)
      (earlier ++ ⟨package, .running (next tree)⟩ :: later, move tree)
  | finish {earlier later : List Task} {package : Text} {tree : FileTree}
    {result : Except Failure (List Path)} :
    Turn crew (earlier ++ ⟨package, .running (.done result)⟩ :: later, tree)
      (earlier ++ ⟨package, .ended (.made result)⟩ :: later, tree)
  | panic {earlier later : List Task} {package : Text} {tree : FileTree}
    {left : Steps (List Path)} (message : Text) :
    Turn crew (earlier ++ ⟨package, .running left⟩ :: later, tree)
      (earlier ++ ⟨package, .ended (.panicked message)⟩ :: later, tree)

inductive Turns (crew : Crew) : State → State → Prop where
  | refl (state : State) : Turns crew state state
  | next {first second last : State} (turn : Turn crew first second)
    (later : Turns crew second last) : Turns crew first last

def waiting (order : List Text) : List Task := order.map fun package => ⟨package, .waiting⟩

def ended (outcomes : List Outcome) : List Task :=
  outcomes.map fun outcome => ⟨outcome.package, .ended outcome.ending⟩

def Works (crew : Crew) (order : List Text) (before : FileTree) (outcomes : List Outcome)
    (after : FileTree) : Prop :=
  Turns crew (waiting order, before) (ended outcomes, after)

-- The ways in which the whole may go.
inductive Runs (crew : Crew) (before : FileTree) :
    Except Failure (List Outcome) → FileTree → Prop where
  | sourcesMissing {failure : Failure}
    (missing : Batch.discover before crew.sources = .error failure) :
    Runs crew before (.error failure) before
  | outputBlocked {packages : List Text} {cause : Cause} {after : FileTree}
    (found : Batch.discover before crew.sources = .ok packages)
    (blocked : FileTree.makeDirectories crew.output before = (.error cause, after)) :
    Runs crew before (.error (.io crew.output cause)) after
  | worked {packages : List Text} {middle after : FileTree} {outcomes : List Outcome}
    (found : Batch.discover before crew.sources = .ok packages)
    (made : FileTree.makeDirectories crew.output before = (.ok (), middle))
    (works : Works crew (crew.selected packages) middle outcomes after) :
    Runs crew before (.ok outcomes) after

end Crew

end CallSchema
