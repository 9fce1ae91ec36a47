import CallSchema.Action
import CallSchema.Proofs.FileTree.Change

set_option autoImplicit false

namespace CallSchema.Action

open FileTree (Writes)

variable {α β : Type} {before after : FileTree}

theorem bind_ok {action : Action α} {a : α} (h : action before = (.ok a, after))
    (f : α → Action β) : (action >>= f) before = f a after := by
  simp only [bind, ExceptT.bind, ExceptT.mk, StateT.bind, h, ExceptT.bindCont]

theorem bind_error {action : Action α} {failure : Failure}
    (h : action before = (.error failure, after)) (f : α → Action β) :
    (action >>= f) before = (.error failure, after) := by
  simp only [bind, ExceptT.bind, ExceptT.mk, StateT.bind, h, ExceptT.bindCont]
  rfl

theorem eq_ok {action : Action α} {a : α} (h : (action before).1 = .ok a) :
    action before = (.ok a, (action before).2) := Prod.ext h rfl

theorem look_bind_ok {f : FileTree → Except Failure α} {a : α} (h : f before = .ok a)
    (g : α → Action β) : (look f >>= g) before = g a before :=
  bind_ok (by rw [look, h]) g

theorem look_bind_error {f : FileTree → Except Failure α} {failure : Failure}
    (h : f before = .error failure) (g : α → Action β) :
    (look f >>= g) before = (.error failure, before) :=
  bind_error (by rw [look, h]) g

theorem bind_congr {action other : Action α} (same : action before = other before)
    {f g : α → Action β}
    (later : ∀ a after, other before = (.ok a, after) → f a after = g a after) :
    (action >>= f) before = (other >>= g) before := by
  cases run : other before with
  | mk result after =>
    cases result with
    | error failure => rw [bind_error (same.trans run), bind_error run]
    | ok a => rw [bind_ok (same.trans run), bind_ok run, later a after run]

theorem forEach_cons (f : α → Action (List β)) {thing : α} {results more : List β}
    {middle : FileTree} (first : f thing before = (.ok results, middle)) {rest : List α}
    (later : forEach f rest middle = (.ok more, after)) :
    forEach f (thing :: rest) before = (.ok (results ++ more), after) := by
  rw [forEach, bind_ok first, bind_ok later]
  rfl

theorem forEach_invariant {f : α → Action (List β)} {Invariant : FileTree → Prop} {things : List α}
    (kept : ∀ thing ∈ things, ∀ tree, Invariant tree → Invariant (f thing tree).2)
    (start : Invariant before) : Invariant (forEach f things before).2 := by
  induction things generalizing before with
  | nil => exact start
  | cons thing rest ih =>
    have still := kept thing (by simp) before start
    cases first : f thing before with
    | mk result middle =>
      rw [first] at still
      cases result with
      | error failure => rwa [forEach, bind_error first]
      | ok results =>
        have last := ih (fun other mem => kept other (by simp [mem])) still
        cases later : forEach f rest middle with
        | mk result after =>
          rw [later] at last
          cases result with
          | error failure => rwa [forEach, bind_ok first, bind_error later]
          | ok more => rwa [forEach_cons f first later]

theorem forEach_congr {f g : α → Action (List β)} {Invariant : FileTree → Prop} {things : List α}
    (same : ∀ thing ∈ things, ∀ tree, Invariant tree → f thing tree = g thing tree)
    (kept : ∀ thing ∈ things, ∀ tree, Invariant tree → Invariant (f thing tree).2)
    (start : Invariant before) : forEach f things before = forEach g things before := by
  induction things generalizing before with
  | nil => rfl
  | cons thing rest ih =>
    have first := same thing (by simp) before start
    refine bind_congr first fun results middle run => ?_
    have still : Invariant middle := by
      have after := kept thing (by simp) before start
      rwa [first, run] at after
    refine bind_congr ?_ fun _ _ _ => rfl
    exact ih (fun other mem => same other (by simp [mem]))
      (fun other mem => kept other (by simp [mem]))
      still

def Reports (action : Action (List Path)) : Prop :=
  ∀ tree, Writes ((action tree).1.toOption.getD []) tree (action tree).2

theorem orNothing_eq (action : Action (List β)) (tree : FileTree) :
    orNothing action tree = (.ok ((action tree).1.toOption.getD []), (action tree).2) := rfl

theorem exists_forEach (f : α → Action (List β)) (things : List α) (before : FileTree) :
    ∃ results after, forEach (fun thing => (f thing).orNothing) things before =
      (.ok results, after) := by
  induction things generalizing before with
  | nil => exact ⟨[], before, rfl⟩
  | cons thing rest ih =>
    obtain ⟨more, after, later⟩ := ih (f thing before).2
    exact ⟨_, after,
      forEach_cons (fun thing => (f thing).orNothing) (orNothing_eq (f thing) before) later⟩

theorem Reports.forEach {f : α → Action (List Path)} (h : ∀ thing, (f thing).Reports)
    (things : List α) : (forEach (fun thing => (f thing).orNothing) things).Reports := by
  induction things with
  | nil => exact fun tree => Writes.refl tree
  | cons thing rest ih =>
    intro tree
    have first := h thing tree
    have later := ih (f thing tree).2
    obtain ⟨more, after, found⟩ := exists_forEach f rest (f thing tree).2
    rw [found] at later
    rw [forEach_cons (fun thing => (f thing).orNothing) (orNothing_eq (f thing) tree) found]
    exact first.trans later

end CallSchema.Action
