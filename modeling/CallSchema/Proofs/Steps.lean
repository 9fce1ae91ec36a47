import CallSchema.Proofs.Action
import CallSchema.Proofs.FileTree.Extension
import CallSchema.Steps

set_option autoImplicit false

namespace CallSchema

open FileTree (Extends)

-- The same bytes in all files at these places.
def FileTree.SameAt (places : Location → Prop) (tree other : FileTree) : Prop :=
  ∀ place, places place → other.content? place = tree.content? place

namespace Steps

variable {α β : Type} {s t : Steps α} {f : α → Steps β} {tree other left now : FileTree}

/-! ### Runs without interruption -/

theorem run_bind (s : Steps α) (f : α → Steps β) :
    (s >>= f).run = s.run >>= fun a => (f a).run := by
  funext tree
  induction s generalizing tree with
  | done result => cases result <;> rfl
  | step move next ih => exact ih tree (move tree)

theorem run_call_bind (g : FileTree → α × FileTree) (f : α → Steps β) (tree : FileTree) :
    (call g >>= f).run tree = (f (g tree).1).run (g tree).2 := rfl

theorem run_orNothing (s : Steps (List α)) : s.orNothing.run = s.run.orNothing := by
  funext tree
  induction s generalizing tree with
  | done result => rfl
  | step move next ih => exact ih tree (move tree)

theorem run_forEach (f : α → Steps (List β)) (things : List α) :
    (forEach f things).run = Action.forEach (fun thing => (f thing).run) things := by
  induction things with
  | nil => rfl
  | cons thing rest ih =>
    rw [forEach, Action.forEach, run_bind]
    congr 1
    funext results
    rw [run_bind, ih]
    rfl

-- What is left of a program after some of its steps, and the files by then.
inductive Reaches : Steps α × FileTree → Steps α × FileTree → Prop where
  | refl (state : Steps α × FileTree) : Reaches state state
  | next {move : FileTree → FileTree} {next : FileTree → Steps α} {tree : FileTree}
    {last : Steps α × FileTree} (later : Reaches (next tree, move tree) last) :
    Reaches (step move next, tree) last

namespace Reaches

variable {first second third : Steps α × FileTree}

theorem trans (early : Reaches first second) (late : Reaches second third) :
    Reaches first third := by
  induction early with
  | refl state => exact late
  | next _ ih => exact .next (ih late)

theorem run_eq (reached : Reaches first second) : first.1.run first.2 = second.1.run second.2 := by
  induction reached with
  | refl state => rfl
  | next _ ih => exact ih

theorem run (s : Steps α) (tree : FileTree) :
    Reaches (s, tree) (done (s.run tree).1, (s.run tree).2) := by
  induction s generalizing tree with
  | done result => exact .refl _
  | step move next ih => exact .next (ih tree (move tree))

theorem bind (reached : Reaches first second) (f : α → Steps β) :
    Reaches (first.1 >>= f, first.2) (second.1 >>= f, second.2) := by
  induction reached with
  | refl state => exact .refl _
  | next _ ih => exact .next ih

theorem orNothing {first second : Steps (List α) × FileTree} (reached : Reaches first second) :
    Reaches (first.1.orNothing, first.2) (second.1.orNothing, second.2) := by
  induction reached with
  | refl state => exact .refl _
  | next _ ih => exact .next ih

end Reaches

/-! ### Programs that only read -/

-- As long as this is known of the files, the program leaves them alone and gives this answer.
def Answers (known : FileTree → Prop) (answer : Except Failure α) : Steps α → Prop
  | done result => result = answer
  | step move next => ∀ tree, known tree → move tree = tree ∧ (next tree).Answers known answer

namespace Answers

variable {known : FileTree → Prop} {answer : Except Failure α} {a : α}

theorem look {g : FileTree → Except Failure α} (same : ∀ tree, known tree → g tree = answer) :
    (Steps.look g).Answers known answer :=
  fun tree here => ⟨rfl, same tree here⟩

theorem call {g : FileTree → α × FileTree} (same : ∀ tree, known tree → g tree = (a, tree)) :
    (Steps.call g).Answers known (.ok a) :=
  fun tree here => ⟨congrArg Prod.snd (same tree here),
    congrArg (fun done : α × FileTree => (Except.ok done.1 : Except Failure α)) (same tree here)⟩

theorem bind {result : Except Failure β} (first : s.Answers known (.ok a))
    (later : (f a).Answers known result) : (s >>= f).Answers known result := by
  induction s with
  | done other =>
    cases first
    exact later
  | step move next ih => exact fun tree here => ⟨(first tree here).1, ih tree (first tree here).2⟩

theorem bind_error {failure : Failure} (first : s.Answers known (.error failure)) :
    (s >>= f).Answers known (.error failure) := by
  induction s with
  | done other =>
    cases first
    rfl
  | step move next ih => exact fun tree here => ⟨(first tree here).1, ih tree (first tree here).2⟩

theorem reaches (answers : s.Answers known answer) (here : known tree) :
    Reaches (s, tree) (done answer, tree) := by
  induction s with
  | done result =>
    cases answers
    exact .refl _
  | step move next ih =>
    obtain ⟨still, later⟩ := answers tree here
    refine .next ?_
    rw [still]
    exact ih tree later

theorem run_eq (answers : s.Answers known answer) (here : known tree) :
    s.run tree = (answer, tree) :=
  (answers.reaches here).run_eq

end Answers

/-! ### Programs in company -/

-- Others may add files at their places before each step and after the last one. Each step is safe
-- all the same, and so is the end.
def Withstands (others : Location → Prop) (safe : FileTree → FileTree → Prop)
    (ends : Except Failure α → FileTree → Prop) : Steps α → FileTree → Prop
  | done result, now => ∀ later, Extends others now later → ends result later
  | step move next, now => ∀ later, Extends others now later →
    safe later (move later) ∧ (next later).Withstands others safe ends (move later)

namespace Withstands

variable {others : Location → Prop} {safe safer : FileTree → FileTree → Prop}
  {ends : Except Failure α → FileTree → Prop}

theorem mono {strict : Except Failure α → FileTree → Prop}
    (stands : s.Withstands others safer strict now)
    (steps : ∀ before after, safer before after → safe before after)
    (last : ∀ result later, strict result later → ends result later) :
    s.Withstands others safe ends now := by
  induction s generalizing now with
  | done result => exact fun later grown => last result later (stands later grown)
  | step move next ih =>
    exact fun later grown =>
      ⟨steps _ _ (stands later grown).1, ih later (stands later grown).2⟩

theorem later (stands : s.Withstands others safe ends now) (grown : Extends others now other) :
    s.Withstands others safe ends other := by
  cases s with
  | done result => exact fun last more => stands last (grown.trans more)
  | step move next => exact fun last more => stands last (grown.trans more)

theorem bind {middle : Except Failure α → FileTree → Prop}
    {ends : Except Failure β → FileTree → Prop} (first : s.Withstands others safe middle now)
    (ok : ∀ a later, middle (.ok a) later → (f a).Withstands others safe ends later)
    (error : ∀ failure later, middle (.error failure) later → ends (.error failure) later) :
    (s >>= f).Withstands others safe ends now := by
  induction s generalizing now with
  | done result =>
    cases result with
    | ok a => exact ok a now (first now (Extends.refl _ _))
    | error failure => exact fun later grown => error failure later (first later grown)
  | step move next ih =>
    exact fun later grown => ⟨(first later grown).1, ih later (first later grown).2⟩

theorem orNothing {s : Steps (List α)} {middle : Except Failure (List α) → FileTree → Prop}
    {ends : Except Failure (List α) → FileTree → Prop}
    (first : s.Withstands others safe middle now)
    (last : ∀ result later, middle result later → ends (.ok (result.toOption.getD [])) later) :
    s.orNothing.Withstands others safe ends now := by
  induction s generalizing now with
  | done result => exact fun later grown => last result later (first later grown)
  | step move next ih =>
    exact fun later grown => ⟨(first later grown).1, ih later (first later grown).2⟩

theorem call_bind {g : FileTree → α × FileTree} {ends : Except Failure β → FileTree → Prop}
    (step : ∀ later, Extends others now later → safe later (g later).2 ∧
      (f (g later).1).Withstands others safe ends (g later).2) :
    (Steps.call g >>= f).Withstands others safe ends now :=
  step

theorem of_answers (known : FileTree → Prop) {answer : Except Failure α}
    (answers : s.Answers known answer) (still : ∀ later, Extends others now later → known later)
    (steps : ∀ later, Extends others now later → safe later later)
    (last : ∀ later, Extends others now later → ends answer later) :
    s.Withstands others safe ends now := by
  induction s generalizing now with
  | done result =>
    cases answers
    exact last
  | step move next ih =>
    intro later grown
    obtain ⟨same, rest⟩ := answers later (still later grown)
    rw [same]
    exact ⟨steps later grown, ih later rest (fun _ more => still _ (grown.trans more))
      (fun _ more => steps _ (grown.trans more)) (fun _ more => last _ (grown.trans more))⟩

-- In company the program may as well be alone.
theorem run (stands : s.Withstands others safe ends now) : ends (s.run now).1 (s.run now).2 := by
  induction s generalizing now with
  | done result => exact stands now (Extends.refl _ _)
  | step move next ih => exact ih now (stands now (Extends.refl _ _)).2

end Withstands

-- A step at places of its own, which hold what they hold at some point of the run alone.
def StepsAlong (own : Location → Prop) (alone : Steps α × FileTree) (before after : FileTree) :
    Prop :=
  Extends own before after ∧ ∃ point, Reaches alone point ∧ FileTree.SameAt own point.2 before

-- The result is that of the run alone, and the trees in the end are related.
def EndsAlong (ends : Except Failure α → FileTree → FileTree → Prop) (alone : Steps α × FileTree)
    (result : Except Failure α) (later : FileTree) : Prop :=
  ∃ aside, Reaches alone (done result, aside) ∧ ends result aside later

-- Wherever the program breaks off, the run alone may break off alike.
theorem Withstands.exists_point {own others : Location → Prop}
    {ends : Except Failure α → FileTree → FileTree → Prop} {alone : Steps α × FileTree}
    (stands : s.Withstands others (StepsAlong own alone) (EndsAlong ends alone) now)
    (same : ∀ result aside, ends result aside now → FileTree.SameAt own aside now) :
    ∃ point, Reaches alone point ∧ FileTree.SameAt own point.2 now := by
  cases s with
  | done result =>
    obtain ⟨aside, reached, ended⟩ := stands now (Extends.refl _ _)
    exact ⟨_, reached, same result aside ended⟩
  | step move next => exact (stands now (Extends.refl _ _)).1.2

-- The program goes on in company as it does alone in the tree on the left.
def Follows (own others : Location → Prop)
    (ends : Except Failure α → FileTree → FileTree → Prop) (s : Steps α)
    (left now : FileTree) : Prop :=
  s.Withstands others (StepsAlong own (s, left)) (EndsAlong ends (s, left)) now

namespace Follows

variable {own others : Location → Prop} {ends : Except Failure α → FileTree → FileTree → Prop}

theorem mono {strict : Except Failure α → FileTree → FileTree → Prop}
    (follows : Follows own others strict s left now)
    (last : ∀ result aside later, strict result aside later → ends result aside later) :
    Follows own others ends s left now :=
  Withstands.mono follows (fun _ _ safe => safe) fun result later ended =>
    ended.imp fun aside known => ⟨known.1, last result aside later known.2⟩

theorem ended {result : Except Failure α}
    (last : ∀ later, Extends others now later → ends result left later) :
    Follows own others ends (Steps.done result) left now :=
  fun later grown => ⟨left, .refl _, last later grown⟩

theorem bind {middle : Except Failure α → FileTree → FileTree → Prop}
    {ends : Except Failure β → FileTree → FileTree → Prop}
    (first : Follows own others middle s left now)
    (ok : ∀ a aside later, middle (.ok a) aside later →
      Follows own others ends (f a) aside later)
    (error : ∀ failure aside later, middle (.error failure) aside later →
      ends (.error failure) aside later) :
    Follows own others ends (s >>= f) left now := by
  refine Withstands.bind (Withstands.mono first ?_ fun _ _ => id) ?_ ?_
  · rintro before after ⟨grown, point, reached, same⟩
    exact ⟨grown, _, reached.bind f, same⟩
  · rintro a later ⟨aside, reached, ended⟩
    refine Withstands.mono (ok a aside later ended) ?_ ?_
    · rintro before after ⟨grown, point, more, same⟩
      exact ⟨grown, point, (reached.bind f).trans more, same⟩
    · rintro result last ⟨further, more, done⟩
      exact ⟨further, (reached.bind f).trans more, done⟩
  · rintro failure later ⟨aside, reached, ended⟩
    exact ⟨aside, reached.bind f, error failure aside later ended⟩

theorem orNothing {s : Steps (List α)}
    {middle ends : Except Failure (List α) → FileTree → FileTree → Prop}
    (first : Follows own others middle s left now)
    (last : ∀ result aside later, middle result aside later →
      ends (.ok (result.toOption.getD [])) aside later) :
    Follows own others ends s.orNothing left now := by
  refine Withstands.orNothing (Withstands.mono first ?_ fun _ _ => id) ?_
  · rintro before after ⟨grown, point, reached, same⟩
    exact ⟨grown, _, reached.orNothing, same⟩
  · rintro result later ⟨aside, reached, ended⟩
    exact ⟨aside, reached.orNothing, last result aside later ended⟩

theorem of_withstands {safe : FileTree → FileTree → Prop}
    {last : Except Failure α → FileTree → Prop} (stands : s.Withstands others safe last now)
    (steps : ∀ before after, safe before after →
      Extends own before after ∧ FileTree.SameAt own left before)
    (ended : ∀ result later, last result later →
      ∃ aside, Reaches (s, left) (done result, aside) ∧ ends result aside later) :
    Follows own others ends s left now :=
  Withstands.mono stands (fun before after safe =>
    ⟨(steps before after safe).1, _, .refl _, (steps before after safe).2⟩) ended

theorem of_answers (known : FileTree → Prop) {answer : Except Failure α}
    (answers : s.Answers known answer) (here : known left)
    (still : ∀ later, Extends others now later →
      known later ∧ FileTree.SameAt own left later ∧ ends answer left later) :
    Follows own others ends s left now :=
  Withstands.of_answers _ answers (fun later grown => (still later grown).1)
    (fun later grown =>
      ⟨Extends.refl _ _, _, .refl _, (still later grown).2.1⟩)
    fun later grown => ⟨left, answers.reaches here, (still later grown).2.2⟩

theorem one {action : Action α}
    (step : ∀ later, Extends others now later →
      Extends own later (action later).2 ∧ FileTree.SameAt own left later ∧
      (action later).1 = (action left).1 ∧
      ∀ last, Extends others (action later).2 last → ends (action left).1 (action left).2 last) :
    Follows own others ends (Steps.one action) left now := by
  intro later grown
  obtain ⟨own, same, alike, last⟩ := step later grown
  refine ⟨⟨own, _, .refl _, same⟩, fun further more => ⟨(action left).2, ?_, ?_⟩⟩
  · rw [alike]
    exact .next (.refl _)
  · rw [alike]
    exact last further more

theorem forEach {γ : Type} {f : γ → Steps (List α)} {Related : FileTree → FileTree → Prop}
    {p : α → Prop}
    (stable : ∀ left now later, Related left now → Extends others now later → Related left later)
    {things : List γ}
    (each : ∀ thing ∈ things, ∀ left now, Related left now →
      Follows own others (fun result aside later => Related aside later ∧
        ∀ results, result = .ok results → ∀ a ∈ results, p a) (f thing) left now)
    (start : Related left now) :
    Follows own others (fun result aside later => Related aside later ∧
      ∀ results, result = .ok results → ∀ a ∈ results, p a)
      (Steps.forEach f things) left now := by
  induction things generalizing left now with
  | nil =>
    refine ended fun later grown => ⟨stable left now later start grown, ?_⟩
    rintro results ⟨⟩ a mem
    cases mem
  | cons thing rest ih =>
    refine bind (each thing (by simp) left now start) ?_ fun _ _ _ last => ⟨last.1, by simp⟩
    rintro results aside later ⟨related, first⟩
    refine bind (ih (fun other mem => each other (by simp [mem])) related) ?_
      fun _ _ _ last => ⟨last.1, by simp⟩
    rintro more last further ⟨also, second⟩
    refine ended fun final grown => ⟨stable last further final also grown, ?_⟩
    rintro results ⟨⟩ a mem
    exact (List.mem_append.mp mem).elim (first _ rfl a) (second _ rfl a)

end Follows

end Steps

end CallSchema
