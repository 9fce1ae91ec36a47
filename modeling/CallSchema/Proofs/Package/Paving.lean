import CallSchema.Proofs.Package.Stepwise

set_option autoImplicit false

namespace CallSchema

open CallSchema.Path (IsName)
open FileTree (Extends Starts)
open Steps (Answers Withstands)

namespace Stepwise

variable {others : Location → Prop} {known Inv : FileTree → Prop} {base path : Path}
  {location : Location} {names inner : List Text} {name : Text} {levels : Nat} {now : FileTree}

theorem answers_settle (there : Bool)
    (same : ∀ tree, known tree → tree.isDirectory path = there) (cause : Cause) :
    (settle path (.error cause)).Answers known (.ok (if there then .ok () else .error cause)) :=
  Answers.bind (a := there) (Answers.look fun tree here => by rw [same tree here]) rfl

-- An attempt that fails in a way that leaves nothing more to try.
theorem answers_makeDirectoriesWithin (there : Bool) {cause : Cause} (visible : path.text ≠ [])
    (final : cause ≠ .notFound)
    (made : ∀ tree, known tree → FileTree.makeDirectory path tree = (.error cause, tree))
    (same : ∀ tree, known tree → tree.isDirectory path = there) :
    (makeDirectoriesWithin (levels + 1) path).Answers known
      (.ok (if there then .ok () else .error cause)) := by
  rw [makeDirectoriesWithin, if_neg visible]
  refine (Answers.call made).bind ?_
  cases cause with
  | notFound => exact absurd rfl final
  | _ => exact answers_settle there same _

-- What stays true while directories are made below a base, by the program or by others.
structure Paving (others : Location → Prop) (base : Path) (location : Location)
    (names : List Text) (Inv : FileTree → Prop) : Prop where
  named : ∀ name ∈ names, IsName name
  starts : ∀ tree, Inv tree → tree.Starts base location
  free : ∀ tree, Inv tree → ∀ shorter, shorter <+: names →
    tree.content? (location ++ shorter) = none
  later : ∀ tree later, Inv tree → Extends others tree later → Inv later
  made : ∀ tree inner name, Inv tree → inner ++ [name] <+: names →
    tree.find? (location ++ inner) = some .directory →
    tree.find? (location ++ inner ++ [name]) = none →
    Inv (tree.put (location ++ inner ++ [name]) .directory)

-- One of the directories is made, or nothing is.
inductive Paves (location : Location) (names : List Text) (tree : FileTree) : FileTree → Prop where
  | still : Paves location names tree tree
  | made {inner : List Text} {name : Text} (within : inner ++ [name] <+: names)
    (above : tree.find? (location ++ inner) = some .directory)
    (missing : tree.find? (location ++ inner ++ [name]) = none) :
    Paves location names tree (tree.put (location ++ inner ++ [name]) .directory)

namespace Paving

variable (paving : Paving others base location names Inv)

include paving

theorem prefix_named (within : inner <+: names) : ∀ name ∈ inner, IsName name :=
  fun name mem => paving.named name (within.subset mem)

theorem prefix_free {tree : FileTree} (inv : Inv tree) (within : inner <+: names) :
    ∀ before, before <+: inner → tree.content? (location ++ before) = none :=
  fun before shorter => paving.free tree inv before (shorter.trans within)

theorem withstands_settle (within : inner <+: names) (made : Except Cause Unit) (inv : Inv now)
    (there : now.find? (location ++ inner) = some .directory) :
    (settle (inner.foldl Path.join base) made).Withstands others
      (fun before after => Inv before ∧ Paves location names before after)
      (fun result later => result = .ok (.ok ()) ∧ Inv later ∧
        later.find? (location ++ inner) = some .directory) now := by
  have still (later : FileTree) (grown : Extends others now later) :
      Inv later ∧ later.find? (location ++ inner) = some .directory :=
    ⟨paving.later now later inv grown, grown.grows.directories _ there⟩
  cases made with
  | ok => exact fun later grown => ⟨rfl, still later grown⟩
  | error cause =>
    refine Withstands.of_answers
      (fun tree => Inv tree ∧ tree.find? (location ++ inner) = some .directory)
      (answers_settle true (fun tree here => ?_) cause) still ?_ ?_
    · exact ((paving.starts tree here.1).isDirectory_iff (paving.prefix_named within)).mpr here.2
    · exact fun later grown => ⟨(still later grown).1, .still⟩
    · exact fun later grown => ⟨rfl, still later grown⟩

theorem withstands_made (within : inner ++ [name] <+: names) (inv : Inv now)
    (above : now.find? (location ++ inner) = some .directory)
    (missing : now.find? (location ++ inner ++ [name]) = none) :
    (settle ((inner ++ [name]).foldl Path.join base) (.ok ())).Withstands others
      (fun before after => Inv before ∧ Paves location names before after)
      (fun result later => result = .ok (.ok ()) ∧ Inv later ∧
        later.find? (location ++ (inner ++ [name])) = some .directory)
      (now.put (location ++ inner ++ [name]) .directory) := by
  refine paving.withstands_settle within _ (paving.made now inner name inv within above missing) ?_
  rw [← List.append_assoc, FileTree.find?_put _ (by simp), if_pos rfl]

theorem withstands_attempt (within : inner ++ [name] <+: names) (inv : Inv now)
    (above : now.find? (location ++ inner) = some .directory) :
    (Steps.call (FileTree.makeDirectory ((inner ++ [name]).foldl Path.join base)) >>=
        settle ((inner ++ [name]).foldl Path.join base)).Withstands others
      (fun before after => Inv before ∧ Paves location names before after)
      (fun result later => result = .ok (.ok ()) ∧ Inv later ∧
        later.find? (location ++ (inner ++ [name])) = some .directory) now := by
  refine Withstands.call_bind fun later grown => ?_
  have still := paving.later now later inv grown
  rcases (paving.starts later still).makeDirectory_cases (paving.prefix_named within)
    (paving.prefix_free still within) with
    ⟨gone, -⟩ | ⟨here, missing, made⟩ | ⟨there, made⟩
  · rw [grown.grows.directories _ above] at gone
    cases gone
  · rw [made]
    exact ⟨⟨still, .made within here missing⟩, paving.withstands_made within still here missing⟩
  · rw [made]
    exact ⟨⟨still, .still⟩, paving.withstands_settle within _ still there⟩

theorem withstands_base (inv : Inv now) :
    (makeDirectoriesWithin (levels + 1) base).Withstands others
      (fun before after => Inv before ∧ Paves location names before after)
      (fun result later => result = .ok (.ok ()) ∧ Inv later ∧
        later.find? location = some .directory) now := by
  have there (tree : FileTree) (here : Inv tree) : tree.isDirectory base = true := by
    have starts := paving.starts tree here
    exact FileTree.isDirectory_iff.mpr ⟨location, starts.located, starts.directory⟩
  have still (later : FileTree) (grown : Extends others now later) : Inv later :=
    paving.later now later inv grown
  have final : Cause.exists ≠ .notFound := by simp
  refine Withstands.of_answers Inv (answers_makeDirectoriesWithin true
    (paving.starts now inv).visible final
    (fun tree here => FileTree.makeDirectory_of_isDirectory (there tree here)) there) still ?_ ?_
  · exact fun later grown => ⟨still later grown, .still⟩
  · exact fun later grown =>
      ⟨rfl, still later grown, (paving.starts later (still later grown)).directory⟩

-- Whatever directories others make meanwhile, in the end they are all there.
theorem withstands_makeDirectoriesWithin (within : inner <+: names)
    (enough : inner.length ≤ levels) (inv : Inv now) :
    (makeDirectoriesWithin (levels + 1) (inner.foldl Path.join base)).Withstands others
      (fun before after => Inv before ∧ Paves location names before after)
      (fun result later => result = .ok (.ok ()) ∧ Inv later ∧
        later.find? (location ++ inner) = some .directory) now := by
  induction inner using List.reverseRecOn generalizing levels now with
  | nil =>
    rw [List.foldl_nil, List.append_nil]
    exact paving.withstands_base inv
  | append_singleton init name ih =>
    have initWithin : init <+: names := (List.prefix_append _ _).trans within
    have visible := (paving.starts now inv).text_ne_nil (paving.prefix_named within)
    rw [makeDirectoriesWithin, if_neg visible]
    refine Withstands.call_bind fun later grown => ?_
    have still := paving.later now later inv grown
    rcases (paving.starts later still).makeDirectory_cases (paving.prefix_named within)
      (paving.prefix_free still within) with
      ⟨gone, made, parent⟩ | ⟨here, missing, made⟩ | ⟨there, made⟩
    · rw [made]
      refine ⟨⟨still, .still⟩, ?_⟩
      obtain ⟨fewer, rfl⟩ : ∃ fewer, levels = fewer + 1 :=
        Nat.exists_eq_add_one_of_ne_zero (by simp at enough; omega)
      have less : init.length ≤ fewer := by simpa using enough
      simp only [parent]
      refine Withstands.bind (ih initWithin less still) ?_ ?_
      · rintro result last ⟨same, inv, above⟩
        cases same
        exact paving.withstands_attempt within inv above
      · rintro failure last ⟨other, -⟩
        cases other
    · rw [made]
      exact ⟨⟨still, .made within here missing⟩, paving.withstands_made within still here missing⟩
    · rw [made]
      exact ⟨⟨still, .still⟩, paving.withstands_settle within (.error .exists) still there⟩

theorem withstands_makeParent {file : Path}
    (parent : file.parent? = some (names.foldl Path.join base))
    (enough : names.length ≤ (names.foldl Path.join base).text.length) (inv : Inv now) :
    (makeParent file).Withstands others
      (fun before after => Inv before ∧ Paves location names before after)
      (fun result later => result = .ok () ∧ Inv later ∧
        later.find? (location ++ names) = some .directory) now := by
  rw [makeParent, parent]
  refine Withstands.bind
    (paving.withstands_makeDirectoriesWithin (List.prefix_refl _) enough inv) ?_ ?_
  · rintro result middle ⟨same, still, there⟩
    cases same
    exact fun later grown =>
      ⟨rfl, paving.later _ _ still grown, grown.grows.directories _ there⟩
  · rintro failure middle ⟨other, -⟩
    cases other

end Paving

end Stepwise

end CallSchema
