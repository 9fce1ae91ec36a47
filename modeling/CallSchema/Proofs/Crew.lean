import CallSchema.Crew
import CallSchema.Proofs.Batch
import CallSchema.Proofs.Package.Stepwise
import Mathlib.Logic.Hydra

set_option autoImplicit false

namespace CallSchema.Crew

open Steps (Reaches)

variable {crew : Crew} {first second third : State} {tasks earlier later : List Task}
  {package : Text} {before after : FileTree} {outcomes : List Outcome} {order : List Text}

theorem Turns.trans (early : crew.Turns first second) (late : crew.Turns second third) :
    crew.Turns first third := by
  induction early with
  | refl state => exact late
  | next turn _ ih => exact .next turn (ih late)

theorem turns_of_reaches {start last : Steps (List Path) × FileTree}
    (reached : Reaches start last) :
    crew.Turns (earlier ++ ⟨package, .running start.1⟩ :: later, start.2)
      (earlier ++ ⟨package, .running last.1⟩ :: later, last.2) := by
  induction reached with
  | refl state => exact .refl _
  | next _ ih => exact .next .step ih

theorem turns_of_running (left : Steps (List Path)) (before : FileTree) :
    crew.Turns (earlier ++ ⟨package, .running left⟩ :: later, before)
      (earlier ++ ⟨package, .ended (.made (left.run before).1)⟩ :: later, (left.run before).2) :=
  (turns_of_reaches (Reaches.run left before)).trans (.next .finish (.refl _))

theorem mayStart_of_ended (all : ∀ task ∈ earlier, task.stage.isEnded = true) :
    crew.MayStart package earlier := by
  have each (task : Task) (mem : task ∈ earlier) :
      task.stage.isWaiting = false ∧ task.stage.isRunning = false := by
    have finished := all task mem
    cases stage : task.stage with
    | ended ending => exact ⟨rfl, rfl⟩
    | _ => simp [stage, Stage.isEnded] at finished
  unfold MayStart
  split
  · exact all
  · refine ⟨fun task mem => (each task mem).1, ?_⟩
    have none : earlier.countP (·.stage.isRunning) = 0 :=
      List.countP_eq_zero.mpr fun task mem => by simp [(each task mem).2]
    omega

theorem isEnded_of_mem_ended {task : Task} (mem : task ∈ ended outcomes) :
    task.stage.isEnded = true := by
  obtain ⟨outcome, -, rfl⟩ := List.mem_map.mp mem
  rfl

theorem ended_append (outcomes : List Outcome) (package : Text) (ending : Ending)
    (later : List Task) :
    ended outcomes ++ ⟨package, .ended ending⟩ :: later =
      ended (outcomes ++ [⟨package, ending⟩]) ++ later := by
  simp [ended]

-- A task that comes after ended ones can always be brought to its end.
theorem turns_of_waiting (levels : Nat) (enough : crew.enoughLevels before ≤ levels) :
    crew.Turns (ended outcomes ++ ⟨package, .waiting⟩ :: later, before)
      (ended (outcomes ++ [⟨package, .made ((crew.program levels package).run before).1⟩]) ++ later,
        ((crew.program levels package).run before).2) := by
  rw [← ended_append]
  exact .next (.start levels (mayStart_of_ended fun _ => isEnded_of_mem_ended) enough)
    (turns_of_running _ _)

theorem exists_turns_ended (crew : Crew) (outcomes : List Outcome) (tasks : List Task)
    (before : FileTree) :
    ∃ all after, crew.Turns (ended outcomes ++ tasks, before) (ended all, after) := by
  induction tasks generalizing outcomes before with
  | nil => exact ⟨outcomes, before, by rw [List.append_nil]; exact .refl _⟩
  | cons task rest ih =>
    obtain ⟨package, stage⟩ := task
    cases stage with
    | waiting =>
      obtain ⟨all, after, more⟩ := ih (outcomes ++ [⟨package, _⟩]) _
      exact ⟨all, after, (turns_of_waiting _ (Nat.le_refl _)).trans more⟩
    | running left =>
      obtain ⟨all, after, more⟩ :=
        ih (outcomes ++ [⟨package, .made (left.run before).1⟩]) (left.run before).2
      rw [← ended_append] at more
      exact ⟨all, after, (turns_of_running left before).trans more⟩
    | ended ending =>
      obtain ⟨all, after, more⟩ := ih (outcomes ++ [⟨package, ending⟩]) before
      rw [← ended_append] at more
      exact ⟨all, after, more⟩

def Outcome.ofSerial (outcome : CallSchema.Outcome) : Outcome :=
  ⟨outcome.package, .made outcome.result⟩

theorem run_program (crew : Crew) (package : Text) (tree : FileTree) :
    (crew.program (crew.enoughLevels tree) package).run tree =
      ((crew.runPackage package tree).1.result, (crew.runPackage package tree).2) := by
  rw [Batch.runPackage_eq]
  exact Stepwise.run_generate _ crew.output (crew.options package) tree

theorem turns_runAll (outcomes : List Outcome) (order : List Text) (before : FileTree) :
    crew.Turns (ended outcomes ++ waiting order, before)
      (ended (outcomes ++ (crew.runAll order before).1.map Outcome.ofSerial),
        (crew.runAll order before).2) := by
  induction order generalizing outcomes before with
  | nil =>
    rw [waiting, List.map_nil, Batch.runAll, List.map_nil, List.append_nil, List.append_nil]
    exact .refl _
  | cons package rest ih =>
    have one : crew.Turns (ended outcomes ++ ⟨package, .waiting⟩ :: waiting rest, before) _ :=
      turns_of_waiting _ (Nat.le_refl (crew.enoughLevels before))
    rw [run_program] at one
    have more := one.trans (ih _ _)
    rw [List.append_assoc] at more
    exact more

-- To make one package after the other is one way in which the crew may go, however many jobs it
-- has.
theorem runs_run (crew : Crew) (before : FileTree) :
    crew.Runs before
      ((crew.run before).1.map fun report => report.outcomes.map Outcome.ofSerial)
      (crew.run before).2 := by
  cases found : Batch.discover before crew.sources with
  | error failure =>
    have missing : crew.run before = (.error failure, before) := by
      rw [Batch.run, Action.look_bind_error found]
    rw [missing]
    exact .sourcesMissing found
  | ok packages =>
    cases made : FileTree.makeDirectories crew.output before with
    | mk result middle =>
      cases result with
      | error cause =>
        have blocked : crew.run before = (.error (.io crew.output cause), middle) := by
          have failed : Action.change crew.output (FileTree.makeDirectories crew.output) before =
              (.error (.io crew.output cause), middle) := by
            rw [Action.change, made, Except.mapError]
          rw [Batch.run, Action.look_bind_ok found, Action.bind_error failed]
        rw [blocked]
        exact .outputBlocked found made
      | ok =>
        rw [Batch.run_eq found (by rw [made]), made]
        exact .worked found made (turns_runAll [] _ _)

theorem enoughLevels_le (crew : Crew) (grows : FileTree.Grows before after) :
    crew.enoughLevels before ≤ crew.enoughLevels after := by
  simp only [enoughLevels, FileTree.currentPath, grows.current]
  exact Package.enoughLevels_le grows _

theorem Turn.packages_eq (turn : crew.Turn first second) :
    second.1.map Task.package = first.1.map Task.package := by
  cases turn <;> simp

theorem Turns.packages_eq (turns : crew.Turns first second) :
    second.1.map Task.package = first.1.map Task.package := by
  induction turns with
  | refl state => rfl
  | next turn _ ih => exact ih.trans turn.packages_eq

theorem Works.packages_eq (works : crew.Works order before outcomes after) :
    outcomes.map Outcome.package = order := by
  have same := Turns.packages_eq works
  simpa [ended, waiting, Function.comp_def] using same

-- Every turn brings the task closer to its end.
inductive Stage.Nearer : Stage → Stage → Prop where
  | started (left : Steps (List Path)) : Nearer (running left) waiting
  | stepped (move : FileTree → FileTree) (next : FileTree → Steps (List Path)) (tree : FileTree) :
    Nearer (running (next tree)) (running (.step move next))
  | finished (ending : Ending) (left : Steps (List Path)) : Nearer (ended ending) (running left)

theorem Stage.wellFounded_nearer : WellFounded Stage.Nearer := by
  have finished (ending : Ending) : Acc Nearer (ended ending) := ⟨_, fun _ nearer => nomatch nearer⟩
  have under (left : Steps (List Path)) : Acc Nearer (running left) := by
    induction left with
    | done result =>
      refine ⟨_, fun stage nearer => ?_⟩
      cases nearer
      exact finished _
    | step move next ih =>
      refine ⟨_, fun stage nearer => ?_⟩
      cases nearer with
      | stepped _ _ tree => exact ih tree
      | finished ending _ => exact finished ending
  refine ⟨fun stage => ?_⟩
  cases stage with
  | waiting =>
    refine ⟨_, fun stage nearer => ?_⟩
    cases nearer
    exact under _
  | running left => exact under left
  | ended ending => exact finished ending

def stages (tasks : List Task) : Multiset Stage := tasks.map Task.stage

theorem stages_append (earlier later : List Task) (package : Text) (stage : Stage) :
    stages (earlier ++ ⟨package, stage⟩ :: later) =
      stages earlier + ({stage} + stages later) := by
  simp only [stages, List.map_append, List.map_cons, ← Multiset.coe_add, ← Multiset.cons_coe,
    Multiset.singleton_add]

theorem Turn.nearer (turn : crew.Turn first second) :
    Relation.CutExpand Stage.Nearer (stages second.1) (stages first.1) := by
  have replaced {earlier later : List Task} {package : Text} {stage new : Stage}
      (nearer : Stage.Nearer new stage) : Relation.CutExpand Stage.Nearer
        (stages (earlier ++ ⟨package, new⟩ :: later))
        (stages (earlier ++ ⟨package, stage⟩ :: later)) := by
    rw [stages_append, stages_append, Relation.cutExpand_add_left, Relation.cutExpand_add_right]
    exact Relation.cutExpand_singleton_singleton nearer
  cases turn with
  | start levels _ _ => exact replaced (.started _)
  | step => exact replaced (.stepped _ _ _)
  | finish => exact replaced (.finished _ _)
  | panic message => exact replaced (.finished _ _)

-- So no crew goes on for ever.
theorem wellFounded_turn (crew : Crew) :
    WellFounded fun second first => crew.Turn first second :=
  Subrelation.wf (fun turn => turn.nearer)
    (InvImage.wf (fun state : State => stages state.1) Stage.wellFounded_nearer.cutExpand)

end CallSchema.Crew
