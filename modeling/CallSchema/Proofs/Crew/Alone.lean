import CallSchema.Proofs.Batch.Separate
import CallSchema.Proofs.Crew

set_option autoImplicit false

namespace CallSchema.Crew

open Batch (Arranged Lists OwnOf)
open FileTree (Extends SameAt)
open Stepwise (Abreast Reported)
open Steps (EndsAlong Reaches StepsAlong)

variable {crew : Crew} {tree start now after : FileTree} {packages order : List Text}
  {package : Text} {stage new : Stage} {earlier later : List Task} {first second : State}
  {outcomes : List Outcome}

/-! ### A package among the others -/

def Others (crew : Crew) (tree : FileTree) (packages : List Text) (package : Text) :
    Location → Prop :=
  crew.OwnOf tree (packages.filter (· ≠ package))

-- What the package ends with alone in the first tree, it ends with among the others in the second.
def Ends (crew : Crew) (tree : FileTree) (packages : List Text) (package : Text) :
    Except Failure (List Path) → FileTree → FileTree → Prop :=
  Reported tree (crew.packagePath tree package) (crew.goal tree) (crew.artifact package)
    (crew.OwnOf tree packages)

-- What has come of a package while the others were under way as well.
def Fares (crew : Crew) (tree : FileTree) (packages : List Text) (package : Text)
    (now : FileTree) : Stage → Prop
  | .waiting => Extends (crew.Others tree packages package) tree now
  | .running left => ∃ levels, crew.enoughLevels tree ≤ levels ∧
      left.Withstands (crew.Others tree packages package)
        (StepsAlong (crew.Own tree package) (crew.program levels package, tree))
        (EndsAlong (crew.Ends tree packages package) (crew.program levels package, tree)) now
  | .ended (.made result) => ∃ aside,
      crew.runPackage package tree = (⟨package, result⟩, aside) ∧
        crew.Ends tree packages package result aside now
  | .ended (.panicked _) => ∃ levels point, crew.enoughLevels tree ≤ levels ∧
      Reaches (crew.program levels package, tree) point ∧
        SameAt (crew.Own tree package) point.2 now

section Arranged

variable (arranged : crew.Arranged tree packages)

include arranged

theorem Fares.meanwhile (mem : package ∈ packages)
    (fares : crew.Fares tree packages package now stage)
    (grown : Extends (crew.Others tree packages package) now after) :
    crew.Fares tree packages package after stage := by
  have neighbours := arranged.neighbours mem
  cases stage with
  | waiting => exact Extends.trans fares grown
  | running left =>
    obtain ⟨levels, enough, stands⟩ := fares
    exact ⟨levels, enough, stands.later grown⟩
  | ended ending =>
    cases ending with
    | made result =>
      obtain ⟨aside, made, abreast, reported⟩ := fares
      exact ⟨aside, made, abreast.meanwhile neighbours grown, reported⟩
    | panicked message =>
      obtain ⟨levels, point, enough, reached, same⟩ := fares
      refine ⟨levels, point, enough, reached, fun place own => ?_⟩
      rw [grown.content place fun other =>
        (neighbours.apart place own place other).1 (List.prefix_refl _)]
      exact same place own

theorem fares_program (mem : package ∈ packages) {levels : Nat}
    (enough : crew.enoughLevels tree ≤ levels)
    (grown : Extends (crew.Others tree packages package) tree now) :
    crew.Fares tree packages package now (.running (crew.program levels package)) :=
  ⟨levels, enough, Stepwise.follows_generate (arranged.site mem) (arranged.neighbours mem)
    (arranged.due mem) levels
    ((Abreast.refl (Extends.refl _ _)).meanwhile (arranged.neighbours mem) grown)⟩

theorem run_program_of_le (package : Text) {levels : Nat}
    (enough : crew.enoughLevels tree ≤ levels) :
    (crew.program levels package).run tree =
      ((crew.runPackage package tree).1.result, (crew.runPackage package tree).2) := by
  rw [Batch.runPackage_eq]
  exact Stepwise.run_generate_of_le arranged.wellFormed enough

theorem Fares.finish {result : Except Failure (List Path)}
    (fares : crew.Fares tree packages package now (.running (.done result))) :
    crew.Fares tree packages package now (.ended (.made result)) := by
  obtain ⟨levels, enough, stands⟩ := fares
  obtain ⟨aside, reached, ended⟩ := stands now (Extends.refl _ _)
  have run := (run_program_of_le arranged package enough).symm.trans reached.run_eq
  refine ⟨aside, ?_, ended⟩
  rw [Batch.runPackage_eq] at run ⊢
  cases run
  rfl

end Arranged

theorem Fares.panic {left : Steps (List Path)}
    (fares : crew.Fares tree packages package now (.running left)) (message : Text) :
    crew.Fares tree packages package now (.ended (.panicked message)) := by
  obtain ⟨levels, enough, stands⟩ := fares
  obtain ⟨point, reached, same⟩ := stands.exists_point fun _ _ ended => ended.1.sameAt
  exact ⟨levels, point, enough, reached, same⟩

/-! ### All of them -/

structure Faring (crew : Crew) (tree : FileTree) (packages : List Text) (state : State) :
    Prop where
  nodup : (state.1.map Task.package).Nodup
  known : ∀ task ∈ state.1, task.package ∈ packages
  grown : Extends (crew.OwnOf tree packages) tree state.2
  each : ∀ task ∈ state.1, crew.Fares tree packages task.package state.2 task.stage

theorem faring_waiting (nodup : order.Nodup) (subset : order ⊆ packages) :
    crew.Faring tree packages (waiting order, tree) where
  nodup := by simpa [waiting, Function.comp_def] using nodup
  known := by
    intro task mem
    obtain ⟨package, known, rfl⟩ := List.mem_map.mp mem
    exact subset known
  grown := Extends.refl _ _
  each := by
    intro task mem
    obtain ⟨package, known, rfl⟩ := List.mem_map.mp mem
    exact Extends.refl _ _

namespace Faring

theorem mem (faring : crew.Faring tree packages (earlier ++ ⟨package, stage⟩ :: later, now)) :
    package ∈ packages :=
  faring.known ⟨package, stage⟩ (by simp)

theorem here (faring : crew.Faring tree packages (earlier ++ ⟨package, stage⟩ :: later, now)) :
    crew.Fares tree packages package now stage :=
  faring.each ⟨package, stage⟩ (by simp)

variable (arranged : crew.Arranged tree packages)

include arranged

-- What one of them does at its own places makes no difference to the rest.
theorem replace (faring : crew.Faring tree packages (earlier ++ ⟨package, stage⟩ :: later, now))
    (own : Extends (crew.Own tree package) now after)
    (fares : crew.Fares tree packages package after new) :
    crew.Faring tree packages (earlier ++ ⟨package, new⟩ :: later, after) := by
  have nodup := faring.nodup
  have rest (task : Task) (mem : task ∈ earlier ++ later) :
      task.package ∈ packages ∧ crew.Fares tree packages task.package after task.stage := by
    have old : task ∈ earlier ++ ⟨package, stage⟩ :: later := by
      rcases List.mem_append.mp mem with before | behind
      · exact List.mem_append_left _ before
      · exact List.mem_append_right _ (.tail _ behind)
    have known := faring.known task old
    have differ : package ≠ task.package := by
      rintro rfl
      simp only [List.map_append, List.map_cons, List.nodup_middle, List.nodup_cons] at nodup
      rw [← List.map_append] at nodup
      exact nodup.1 (List.mem_map_of_mem mem)
    refine ⟨known, (faring.each task old).meanwhile arranged known (own.mono fun place mem => ?_)⟩
    exact ⟨package, List.mem_filter.mpr ⟨faring.mem, by simpa using differ⟩, mem⟩
  have whole (task : Task) (mem : task ∈ earlier ++ ⟨package, new⟩ :: later) :
      task ∈ earlier ++ later ∨ task = ⟨package, new⟩ := by
    simp only [List.mem_append, List.mem_cons] at mem ⊢
    tauto
  refine ⟨by simpa using nodup, fun task mem => ?_, ?_, fun task mem => ?_⟩
  · rcases whole task mem with old | rfl
    · exact (rest task old).1
    · exact faring.mem
  · exact faring.grown.trans (own.mono fun place mem => ⟨package, faring.mem, mem⟩)
  · rcases whole task mem with old | rfl
    · exact (rest task old).2
    · exact fares

theorem turn (faring : crew.Faring tree packages first) (turn : crew.Turn first second) :
    crew.Faring tree packages second := by
  cases turn with
  | start levels may enough =>
    have more := (crew.enoughLevels_le faring.grown.grows).trans enough
    exact faring.replace arranged (Extends.refl _ _)
      (fares_program arranged faring.mem more faring.here)
  | step =>
    obtain ⟨levels, enough, stands⟩ := faring.here
    obtain ⟨⟨own, -⟩, rest⟩ := stands _ (Extends.refl _ _)
    exact faring.replace arranged own ⟨levels, enough, rest⟩
  | finish => exact faring.replace arranged (Extends.refl _ _) (faring.here.finish arranged)
  | panic message =>
    exact faring.replace arranged (Extends.refl _ _) (faring.here.panic message)

theorem turns (faring : crew.Faring tree packages first) (turns : crew.Turns first second) :
    crew.Faring tree packages second := by
  induction turns with
  | refl state => exact faring
  | next turn _ ih => exact ih (faring.turn arranged turn)

end Faring

theorem fares_of_works (arranged : crew.Arranged tree packages) (nodup : order.Nodup)
    (subset : order ⊆ packages) (works : crew.Works order tree outcomes after) :
    Extends (crew.OwnOf tree packages) tree after ∧
      ∀ outcome ∈ outcomes,
        crew.Fares tree packages outcome.package after (.ended outcome.ending) := by
  have faring := (faring_waiting nodup subset).turns arranged works
  refine ⟨faring.grown, fun outcome mem => ?_⟩
  have there : ⟨outcome.package, .ended outcome.ending⟩ ∈ ended outcomes :=
    List.mem_map.mpr ⟨outcome, mem, rfl⟩
  exact faring.each _ there

/-! ### A package by itself -/

def alone (crew : Crew) (package : Text) (deferred : Option Text) (jobs : Nat) : Crew :=
  { crew with only := [package], deferred := deferred, jobs := jobs }

-- What the package comes to it may also come to alone. If it does not break off, then alone it
-- comes to nothing else, as long as it does not break off there.
structure AsAlone (crew : Crew) (start after : FileTree) (outcome : Outcome) : Prop where
  targets : ∀ written, outcome.ending = .made (.ok written) → ∀ path ∈ written,
    crew.IsTarget (crew.ready start) outcome.package path
  possible : ∀ deferred jobs, ∃ last,
    (crew.alone outcome.package deferred jobs).Runs start (.ok [outcome]) last ∧
      crew.SameFiles (crew.ready start) outcome.package after last
  certain : ∀ result, outcome.ending = .made result → ∀ deferred jobs report last,
    (crew.alone outcome.package deferred jobs).Runs start report last →
      (∃ message, report = .ok [⟨outcome.package, .panicked message⟩]) ∨
        report = .ok [outcome] ∧
          crew.SameFiles (crew.ready start) outcome.package after last

section Arranged

variable (arranged : crew.Arranged tree packages)

include arranged

theorem arranged_alone (mem : package ∈ packages) (deferred : Option Text) (jobs : Nat) :
    (crew.alone package deferred jobs).Arranged tree [package] := by
  have fewer : crew.Arranged tree [package] := arranged.mono (by simpa using mem)
  exact ⟨⟨fewer.outside, fewer.apart⟩, fewer.wellFormed, fewer.sources, fewer.goal, fewer.named⟩

omit arranged in
theorem extends_of_alone (mem : package ∈ packages) (deferred : Option Text) (jobs : Nat)
    (grown : Extends ((crew.alone package deferred jobs).OwnOf tree [package]) tree now) :
    Extends (crew.OwnOf tree packages) tree now :=
  grown.mono (OwnOf.mono (by simpa using mem))

-- Alone the package may go as far as it has gone among the others.
theorem exists_works_alone (mem : package ∈ packages) {ending : Ending}
    (grown : Extends (crew.OwnOf tree packages) tree after)
    (fares : crew.Fares tree packages package after (.ended ending)) (deferred : Option Text)
    (jobs : Nat) :
    ∃ last, (crew.alone package deferred jobs).Works [package] tree [⟨package, ending⟩] last ∧
      crew.SameFiles tree package after last := by
  have only := arranged_alone arranged mem deferred jobs
  have same {last : FileTree}
      (works : (crew.alone package deferred jobs).Works [package] tree [⟨package, ending⟩] last)
      (alike : SameAt (crew.Own tree package) after last) :
      crew.SameFiles tree package after last :=
    arranged.sameFiles mem grown
      (extends_of_alone mem deferred jobs
        (fares_of_works only (List.nodup_singleton _) (List.Subset.refl _) works).1) alike
  cases ending with
  | made result =>
    obtain ⟨aside, made, ended⟩ := fares
    have works : (crew.alone package deferred jobs).Works [package] tree
        [⟨package, .made result⟩] aside := by
      have serial : (crew.alone package deferred jobs).Turns _ _ := turns_runAll [] [package] tree
      have alike : (crew.alone package deferred jobs).runPackage package tree = _ := made
      rw [Batch.runAll, alike] at serial
      exact serial
    exact ⟨aside, works, same works fun place own => (ended.1.sameAt place own).symm⟩
  | panicked message =>
    obtain ⟨levels, point, enough, reached, alike⟩ := fares
    have begun : (crew.alone package deferred jobs).Turn ([] ++ ⟨package, .waiting⟩ :: [], tree)
        ([] ++ ⟨package, .running (crew.program levels package)⟩ :: [], tree) :=
      .start levels (mayStart_of_ended (by simp)) enough
    have works : (crew.alone package deferred jobs).Works [package] tree
        [⟨package, .panicked message⟩] point.2 :=
      .next begun ((turns_of_reaches reached).trans (.next (.panic message) (.refl _)))
    exact ⟨point.2, works, same works fun place own => (alike place own).symm⟩

-- Unless it breaks off, the package ends alone as it has ended among the others.
theorem ending_eq_of_works_alone (mem : package ∈ packages)
    (grown : Extends (crew.OwnOf tree packages) tree after)
    {result other : Except Failure (List Path)} {deferred : Option Text} {jobs : Nat}
    {last : FileTree}
    (fares : crew.Fares tree packages package after (.ended (.made result)))
    (works : (crew.alone package deferred jobs).Works [package] tree
      [⟨package, .made other⟩] last) :
    other = result ∧ crew.SameFiles tree package after last := by
  obtain ⟨lastGrown, each⟩ := fares_of_works (arranged_alone arranged mem deferred jobs)
    (List.nodup_singleton _) (List.Subset.refl _) works
  obtain ⟨aside, made, ended⟩ := fares
  obtain ⟨also, otherMade, otherEnded⟩ := each _ (List.mem_singleton_self _)
  have alike : crew.runPackage package tree = (⟨package, other⟩, also) := otherMade
  rw [made] at alike
  cases alike
  refine ⟨rfl, arranged.sameFiles mem grown (extends_of_alone mem deferred jobs lastGrown) ?_⟩
  intro place own
  have here := ended.1.sameAt place own
  have there := otherEnded.1.sameAt place own
  exact there.trans here.symm

end Arranged

theorem exists_works_of_runs {report : Except Failure (List Outcome)}
    (runs : crew.Runs start report after) (found : Batch.discover start crew.sources = .ok packages)
    (made : (FileTree.makeDirectories crew.output start).1 = .ok ()) :
    ∃ outcomes, report = .ok outcomes ∧
      crew.Works (crew.selected packages) (crew.ready start) outcomes after := by
  cases runs with
  | sourcesMissing missing =>
    rw [found] at missing
    cases missing
  | outputBlocked _ blocked =>
    rw [blocked] at made
    cases made
  | @worked others middle _ outcomes otherFound otherMade works =>
    rw [found] at otherFound
    cases otherFound
    have same : crew.ready start = middle := congrArg Prod.snd otherMade
    exact ⟨outcomes, rfl, same ▸ works⟩

section Ready

variable (wellFormed : start.WellFormed)
  (found : Batch.discover start crew.sources = .ok packages)
  (made : (FileTree.makeDirectories crew.output start).1 = .ok ())

include wellFormed found

theorem selected_alone (mem : package ∈ packages) (deferred : Option Text) (jobs : Nat) :
    (crew.alone package deferred jobs).selected packages = [package] := by
  have lists := Batch.lists_selected (crew.alone package deferred jobs).toBatch
    (Package.ascending_directoriesIn wellFormed (Batch.directoriesIn_of_discover found))
  refine List.perm_singleton.mp ((List.perm_ext_iff_of_nodup lists.nodup
    (List.nodup_singleton _)).mpr fun other => ?_)
  rw [lists.mem_iff]
  simp only [alone, List.mem_singleton, List.cons_ne_self, false_or]
  exact ⟨fun known => known.2, fun same => ⟨same ▸ mem, same⟩⟩

include made

theorem asAlone_of_fares (arranged : crew.Arranged (crew.ready start) (crew.selected packages))
    {outcome : Outcome} (mem : outcome.package ∈ crew.selected packages)
    (grown : Extends (crew.OwnOf (crew.ready start) (crew.selected packages))
      (crew.ready start) after)
    (fares : crew.Fares (crew.ready start) (crew.selected packages) outcome.package after
      (.ended outcome.ending)) :
    crew.AsAlone start after outcome := by
  obtain ⟨package, ending⟩ := outcome
  have only (deferred : Option Text) (jobs : Nat) :
      (crew.alone package deferred jobs).selected packages = [package] :=
    selected_alone wellFormed found (Batch.mem_of_mem_selected mem) deferred jobs
  refine ⟨?_, fun deferred jobs => ?_, ?_⟩
  · rintro written rfl path listed
    obtain ⟨aside, -, -, reported⟩ := fares
    exact reported written rfl path listed
  · obtain ⟨last, works, same⟩ := exists_works_alone arranged mem grown fares deferred jobs
    rw [← only deferred jobs] at works
    exact ⟨last, .worked found (Prod.ext made rfl) works, same⟩
  · rintro result rfl deferred jobs report last runs
    obtain ⟨outcomes, rfl, works⟩ := exists_works_of_runs runs found made
    rw [only] at works
    obtain ⟨⟨_, other⟩, rfl, rfl⟩ := List.map_eq_singleton_iff.mp works.packages_eq
    cases other with
    | panicked message => exact .inl ⟨message, rfl⟩
    | made other =>
      obtain ⟨rfl, same⟩ := ending_eq_of_works_alone arranged mem grown fares works
      exact .inr ⟨rfl, same⟩

/-- The packages of a batch do not influence one another, as long as their artifacts go to places
apart from each other and from the sources: however many jobs there are, in whatever order the
packages are started, and whichever one takes the next step, each comes to what it comes to alone.
The report lists them all, and the one that is put off comes last. -/
theorem asAlone_of_works
    (separate : crew.Separate (crew.ready start) (crew.selected packages)) :
    (∀ order, order.Perm (crew.selected packages) →
      crew.Works order (crew.ready start)
        ((crew.runAll order (crew.ready start)).1.map Outcome.ofSerial)
        (crew.runAll order (crew.ready start)).2 ∧
      ∀ outcomes after, crew.Works order (crew.ready start) outcomes after →
        outcomes.map Outcome.package = order ∧
          ∀ outcome ∈ outcomes, crew.AsAlone start after outcome) ∧
    (∃ outcomes after, crew.Runs start (.ok outcomes) after) ∧
    ∀ report after, crew.Runs start report after → ∃ outcomes, report = .ok outcomes ∧
      crew.Lists packages (outcomes.map Outcome.package) ∧
      ∀ outcome ∈ outcomes, crew.AsAlone start after outcome := by
  have arranged := Batch.arranged_ready wellFormed found made separate
  have lists := Batch.lists_selected crew.toBatch
    (Package.ascending_directoriesIn wellFormed (Batch.directoriesIn_of_discover found))
  have serial (order : List Text) : crew.Works order (crew.ready start) _ _ :=
    turns_runAll [] order (crew.ready start)
  have each (order : List Text) (perm : order.Perm (crew.selected packages))
      (outcomes : List Outcome) (after : FileTree)
      (works : crew.Works order (crew.ready start) outcomes after) :
      ∀ outcome ∈ outcomes, crew.AsAlone start after outcome := by
    obtain ⟨grown, fares⟩ :=
      fares_of_works arranged (perm.nodup_iff.mpr lists.nodup) perm.subset works
    intro outcome mem
    have known : outcome.package ∈ order := by
      rw [← works.packages_eq]
      exact List.mem_map_of_mem mem
    exact asAlone_of_fares wellFormed found made arranged (perm.subset known) grown
      (fares outcome mem)
  refine ⟨fun order perm => ⟨serial order, fun outcomes after works =>
    ⟨works.packages_eq, each order perm outcomes after works⟩⟩, ?_, fun report after runs => ?_⟩
  · exact ⟨_, _, .worked found (Prod.ext made rfl) (serial _)⟩
  · obtain ⟨outcomes, rfl, works⟩ := exists_works_of_runs runs found made
    refine ⟨outcomes, rfl, ?_, each _ (List.Perm.refl _) outcomes after works⟩
    rw [works.packages_eq]
    exact lists

end Ready

def pairCrew : Crew := ⟨Batch.pairBatch, 2⟩

-- Here both packages are under way at the same time.
def pairTasks : List Task :=
  [⟨"p", .running (pairCrew.program (pairCrew.enoughLevels (pairCrew.ready Batch.pair)) "p")⟩,
    ⟨"q", .running (pairCrew.program (pairCrew.enoughLevels (pairCrew.ready Batch.pair)) "q")⟩]

theorem turns_pairTasks :
    pairCrew.Turns (waiting ["p", "q"], pairCrew.ready Batch.pair)
      (pairTasks, pairCrew.ready Batch.pair) := by
  have first : pairCrew.Turn
      ([] ++ ⟨"p", .waiting⟩ :: waiting ["q"], pairCrew.ready Batch.pair) _ :=
    .start (pairCrew.enoughLevels (pairCrew.ready Batch.pair))
      (mayStart_of_ended (by simp)) (Nat.le_refl _)
  have second : pairCrew.Turn
      (pairTasks.take 1 ++ ⟨"q", .waiting⟩ :: [], pairCrew.ready Batch.pair) _ :=
    .start (pairCrew.enoughLevels (pairCrew.ready Batch.pair))
      ⟨fun task mem => by cases List.mem_singleton.mp mem; rfl, by decide⟩ (Nat.le_refl _)
  exact .next first (.next second (.refl _))

theorem asAlone_of_works_pair : ∃ outcomes after,
    pairCrew.Turns (waiting ["p", "q"], pairCrew.ready Batch.pair)
      (pairTasks, pairCrew.ready Batch.pair) ∧
    pairCrew.Turns (pairTasks, pairCrew.ready Batch.pair) (ended outcomes, after) ∧
    outcomes.map Outcome.package = ["p", "q"] ∧
    ∀ outcome ∈ outcomes, pairCrew.AsAlone Batch.pair after outcome := by
  obtain ⟨wellFormed, -, -, -, -, made, selected⟩ := Batch.pair_steps
  have found : Batch.discover Batch.pair pairCrew.sources = _ := Batch.discover_pair
  obtain ⟨outcomes, after, more⟩ :=
    exists_turns_ended pairCrew [] pairTasks (pairCrew.ready Batch.pair)
  obtain ⟨anyOrder, -⟩ := asAlone_of_works wellFormed found made (selected ▸ Batch.separate_pair)
  obtain ⟨-, all⟩ := anyOrder ["p", "q"] (selected ▸ List.Perm.refl _)
  obtain ⟨names, alone⟩ := all outcomes after (turns_pairTasks.trans more)
  exact ⟨outcomes, after, turns_pairTasks, more, names, alone⟩

end CallSchema.Crew
