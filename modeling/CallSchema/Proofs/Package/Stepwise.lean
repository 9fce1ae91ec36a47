import CallSchema.Package.Stepwise
import CallSchema.Proofs.Package.Levels
import CallSchema.Proofs.Package.Reading
import CallSchema.Proofs.Steps

set_option autoImplicit false

namespace CallSchema.Stepwise

open DottedLocation (candidates sourceFile?)
open Package (Options initFile variantsDirectory)
open Steps (Answers)

variable {known : FileTree → Prop} {tree before : FileTree} {root package output file path : Path}
  {options : Options} {levels : Nat}

theorem orFail_ok_bind {α β : Type} (path : Path) (a : α) (f : α → Steps β) :
    orFail path (.ok a) >>= f = f a := rfl

theorem answers_firstFile {files : List Path}
    (same : ∀ other, known other → ∀ file ∈ files, other.isFile file = tree.isFile file) :
    (firstFile files).Answers known (.ok (files.find? tree.isFile)) := by
  induction files with
  | nil => rfl
  | cons file rest ih =>
    refine Answers.bind (a := tree.isFile file)
      (Answers.look fun other here => by rw [same other here file (by simp)]) ?_
    cases there : tree.isFile file with
    | true =>
      simp only [List.find?_cons, there, if_true]
      rfl
    | false =>
      simp only [List.find?_cons, there, Bool.false_eq_true, if_false]
      exact ih fun other here file mem => same other here file (by simp [mem])

-- What is known of the files that sources may be found in.
def SourcesKept (known : FileTree → Prop) (tree : FileTree) (root : Path) : Prop :=
  ∀ other, known other → ∀ asked, ∀ file ∈ candidates root asked,
    other.isFile file = tree.isFile file ∧
      (tree.isFile file = true → other.readText file = tree.readText file)

theorem answers_resolve (kept : SourcesKept known tree root) {session : Session}
    (same : session.root = root) (asked : Text) :
    (resolve session asked).Answers known (.ok (session.resolve tree asked)) := by
  subst same
  have first : (firstFile (candidates session.root asked)).Answers known
      (.ok (sourceFile? tree.isFile session.root asked)) :=
    answers_firstFile fun other here file mem => (kept other here asked file mem).1
  refine first.bind ?_
  unfold Session.resolve
  cases found : sourceFile? tree.isFile session.root asked with
  | none => rfl
  | some file =>
    obtain ⟨mem, there⟩ := DottedLocation.of_sourceFile? found
    dsimp only
    refine Answers.bind (a := session.text tree file) (Answers.look fun other here => ?_) ?_
    · simp only [Session.text, (kept other here asked file mem).2 there]
    · generalize session.text tree file = done
      obtain ⟨text, later⟩ := done
      cases text <;> rfl

-- The texts that the session has kept are still those of the files.
def UpToDate (tree : FileTree) (session : Session) : Prop :=
  ∀ file text, tree.isFile file = true →
    Table.get? (Session.key file) session.texts = some text → tree.readText file = .ok text

theorem UpToDate.resolve {session : Session} (current : UpToDate tree session) (asked : Text) :
    (session.resolve tree asked).1 = Callable.resolve tree.sources session.root asked ∧
      UpToDate tree (session.resolve tree asked).2 := by
  constructor
  · rw [Session.resolve_eq]
    refine Callable.resolve_congr rfl fun file found => ?_
    have there := (DottedLocation.of_sourceFile? found).2
    cases known : Table.get? (Session.key file) session.texts with
    | none => simp [Session.sources, FileTree.sources, known]
    | some text => simp [Session.sources, FileTree.sources, known, current file text there known]
  · have ways := session.answered tree asked
    generalize session.resolve tree asked = done at ways
    cases ways with
    | lost nowhere => exact current
    | kept found known => exact current
    | unread found new failed => exact current
    | @read file text found new read =>
      intro other text there known
      rw [Table.get?_put] at known
      split at known
      · next same =>
        cases known
        exact FileTree.readText_of_place there (Session.place_of_key same.symm) read
      · exact current other text there known

theorem answers_compile (kept : SourcesKept known tree root) {session : Session}
    (same : session.root = root) (current : UpToDate tree session) (table : NameTable) :
    (compile session table).Answers known (.ok (table.filterMap fun entry =>
      (Compilation.function (Callable.lookup tree.sources root) entry.1 entry.2).toOption)) := by
  induction table generalizing session with
  | nil => rfl
  | cons entry rest ih =>
    obtain ⟨answer, still⟩ := current.resolve entry.2
    have sameRoot := session.root_resolve tree entry.2
    refine (answers_resolve kept same entry.2).bind ?_
    generalize session.resolve tree entry.2 = done at answer still sameRoot
    obtain ⟨callable, later⟩ := done
    dsimp only at answer
    refine (ih (sameRoot.trans same) still).bind ?_
    subst same
    have one : Compilation.function (fun _ => callable.map Callable.documentation) entry.1 entry.2 =
        Compilation.function (Callable.lookup tree.sources session.root) entry.1 entry.2 := by
      simp only [Compilation.function, Callable.lookup, answer]
    change Except.ok ((Compilation.function _ entry.1 entry.2).toOption.toList ++ _) = _
    rw [one, List.filterMap_cons]
    cases (Compilation.function (Callable.lookup tree.sources session.root) entry.1
      entry.2).toOption <;> rfl

theorem answers_schemas (kept : SourcesKept known tree root)
    (init : ∀ other, known other →
      Package.table? other (initFile package) = Package.table? tree (initFile package)) :
    (schemas package root).Answers known (Package.schemas tree package root) := by
  have table : (Steps.look fun tree => Package.table? tree (initFile package)).Answers known
      (Package.table? tree (initFile package)) := Answers.look init
  unfold Package.schemas
  cases read : Package.table? tree (initFile package) with
  | error failure => exact Answers.bind_error (read ▸ table)
  | ok found =>
    refine Answers.bind (read ▸ table) ?_
    match found with
    | none => rfl
    | some [] => rfl
    | some (entry :: rest) =>
      have new : UpToDate tree (Session.start root) := by
        intro file text _ known
        cases known
      exact (answers_compile kept rfl new (entry :: rest)).bind rfl

theorem answers_directories {names : List Text}
    (same : ∀ other, known other → ∀ name ∈ names,
      other.isDirectory (path.join name) = tree.isDirectory (path.join name)) :
    (directories path names).Answers known (.ok (names.filter fun name =>
      tree.isDirectory (path.join name) && !Package.isIgnored name)) := by
  induction names with
  | nil => rfl
  | cons name rest ih =>
    refine Answers.bind (a := tree.isDirectory (path.join name))
      (Answers.look fun other here => by rw [same other here name (by simp)]) ?_
    refine (ih fun other here name mem => same other here name (by simp [mem])).bind ?_
    rw [List.filter_cons]
    rfl

-- What is known of the directories of variants.
structure VariantsKept (known : FileTree → Prop) (tree : FileTree) (package : Path) : Prop where
  there : ∀ other, known other → other.isDirectory (variantsDirectory package) =
    tree.isDirectory (variantsDirectory package)
  listed : ∀ other, known other →
    other.list (variantsDirectory package) = tree.list (variantsDirectory package)
  inner : ∀ other, known other → ∀ names, tree.list (variantsDirectory package) = .ok names →
    ∀ name ∈ names, other.isDirectory ((variantsDirectory package).join name) =
      tree.isDirectory ((variantsDirectory package).join name)

theorem exists_list_of_isDirectory (there : tree.isDirectory path = true) :
    ∃ names, tree.list path = .ok names := by
  obtain ⟨location, located, directory⟩ := FileTree.isDirectory_iff.mp there
  simp only [FileTree.list, located, bind, Except.bind, directory]
  exact ⟨_, rfl⟩

theorem answers_variants (kept : VariantsKept known tree package) :
    (variants package).Answers known (.ok (Package.variants tree package)) := by
  refine Answers.bind (a := tree.isDirectory (variantsDirectory package))
    (Answers.look fun other here => by rw [kept.there other here]) ?_
  unfold Package.variants
  cases there : tree.isDirectory (variantsDirectory package) with
  | false =>
    cases found : Package.directoriesIn tree (variantsDirectory package) with
    | error cause => rfl
    | ok names =>
      obtain ⟨all, listed, -⟩ := Package.exists_list_of_directoriesIn found
      rw [FileTree.isDirectory_of_list listed] at there
      cases there
  | true =>
    obtain ⟨names, listed⟩ := exists_list_of_isDirectory there
    rw [Package.directoriesIn_eq listed]
    refine Answers.bind (a := names) (Answers.look fun other here => ?_) ?_
    · rw [kept.listed other here, listed, Except.mapError]
    · exact answers_directories fun other here => kept.inner other here names listed

-- Each tree is known to itself.
theorem sourcesKept_self (tree : FileTree) (root : Path) : SourcesKept (· = tree) tree root := by
  rintro other rfl asked file mem
  exact ⟨rfl, fun _ => rfl⟩

theorem variantsKept_self (tree : FileTree) (package : Path) :
    VariantsKept (· = tree) tree package := by
  constructor
  · rintro other rfl
    rfl
  · rintro other rfl
    rfl
  · rintro other rfl names _ name _
    rfl

theorem run_schemas (package root : Path) :
    (schemas package root).run = Action.look fun tree => Package.schemas tree package root := by
  funext tree
  exact (answers_schemas (sourcesKept_self tree root) fun other same => by rw [same]).run_eq rfl

theorem run_variants (package : Path) :
    (variants package).run = Action.look fun tree => .ok (Package.variants tree package) := by
  funext tree
  exact (answers_variants (variantsKept_self tree package)).run_eq rfl

theorem run_settle (path : Path) (made : Except Cause Unit × FileTree) :
    (settle path made.1).run made.2 =
      (.ok (FileTree.settle path made).1, (FileTree.settle path made).2) := by
  obtain ⟨result, tree⟩ := made
  cases result with
  | ok => rfl
  | error cause =>
    change (Except.ok (if tree.isDirectory path then Except.ok () else .error cause), tree) = _
    simp only [FileTree.settle, FileTree.unlessDirectory]
    split <;> rfl

theorem run_makeDirectoriesWithin (levels : Nat) (path : Path) (tree : FileTree) :
    (makeDirectoriesWithin levels path).run tree =
      (.ok (FileTree.makeDirectoriesWithin levels path tree).1,
        (FileTree.makeDirectoriesWithin levels path tree).2) := by
  induction levels generalizing path tree with
  | zero => rfl
  | succ levels ih =>
    by_cases empty : path.text = []
    · simp only [makeDirectoriesWithin, FileTree.makeDirectoriesWithin, if_pos empty]
      rfl
    rw [makeDirectoriesWithin, if_neg empty, Steps.run_call_bind]
    by_cases missing : (FileTree.makeDirectory path tree).1 = .error .notFound
    · rw [FileTree.tree_of_makeDirectory_error missing]
      cases above : path.parent? with
      | none => rw [FileTree.makeDirectoriesWithin_of_topmost empty missing above]; rfl
      | some parent =>
        rw [FileTree.makeDirectoriesWithin_of_missing empty missing above]
        dsimp only
        rw [Steps.run_bind, Action.bind_ok (ih parent tree)]
        generalize FileTree.makeDirectoriesWithin levels parent tree = made
        obtain ⟨result, middle⟩ := made
        cases result with
        | error cause => rfl
        | ok => exact run_settle path (FileTree.makeDirectory path middle)
    · rw [FileTree.makeDirectoriesWithin_of_settled empty missing, ← run_settle]
      generalize FileTree.makeDirectory path tree = made at missing
      obtain ⟨result, middle⟩ := made
      cases result with
      | ok => rfl
      | error cause =>
        cases cause with
        | notFound => exact absurd rfl missing
        | _ => rfl

theorem run_makeParent (file : Path) : (makeParent file).run = Package.makeParent file := by
  funext tree
  unfold makeParent Package.makeParent
  cases file.parent? with
  | none => rfl
  | some parent =>
    dsimp only
    rw [Steps.run_bind, Action.bind_ok (run_makeDirectoriesWithin _ parent tree)]
    rfl

theorem run_write (path : Path) (content : Content) :
    (write path content).run = Action.change path (FileTree.write path content) := by
  funext tree
  rw [write, Steps.run_call_bind]
  unfold Action.change FileTree.write FileTree.create
  cases tree.target path with
  | error cause => rfl
  | ok location =>
    change (Except.ok (), (tree.put location (.file (.text []))).put location (.file content)) = _
    simp only [FileTree.put, Table.put_put]
    rfl

theorem run_copy {source : Path} (there : tree.isFile source = true) :
    (copy source path).run tree = Action.change source (FileTree.copy source path) tree := by
  obtain ⟨content, read⟩ := FileTree.read_of_isFile there
  have opened : (tree.read source).mapError (Failure.io source) = .ok content := by
    rw [read, Except.mapError]
  rw [copy, Steps.run_bind]
  refine (Action.look_bind_ok opened _).trans ?_
  rw [Steps.run_call_bind]
  unfold Action.change FileTree.copy FileTree.create
  cases target : tree.target path with
  | error cause => rfl
  | ok location =>
    obtain ⟨last, again⟩ :=
      FileTree.read_of_isFile ((FileTree.writes_put target (.text [])).isFile there)
    have opened : ((tree.put location (.file (.text []))).read source).mapError
        (Failure.io source) = .ok last := by rw [again, Except.mapError]
    dsimp only
    rw [again]
    change ((Steps.look _ >>= _ : Steps Unit)).run _ = _
    rw [Steps.run_bind]
    exact Action.look_bind_ok opened _

theorem run_compileArtifact (package root file : Path) :
    (compileArtifact package root file).run = Package.compileArtifact package root file := by
  rw [compileArtifact, Steps.run_bind, run_schemas, Package.compileArtifact]
  congr 1
  funext schemas
  split
  · rfl
  · rw [Steps.run_bind, run_makeParent]
    congr 1
    funext _
    rw [Steps.run_bind, run_write]
    rfl

theorem run_copyArtifact (mode : DocMode) (package : Path) (name : Text) (file : Path) :
    (copyArtifact mode package name file).run = Package.copyArtifact mode package name file := by
  funext tree
  rw [copyArtifact, Steps.run_bind, Package.copyArtifact]
  by_cases there : tree.isFile (Package.alternateFile package (mode.artifactName name)) = true
  · rw [Action.look_bind_ok (if_pos there)]
    refine (Action.look_bind_ok (if_pos there) _).trans ?_
    rw [Steps.run_bind]
    refine Action.bind_congr (by rw [run_makeParent]) fun _ middle made => ?_
    have still := (Package.writes_makeParent file tree).isFile there
    rw [made] at still
    rw [Steps.run_bind]
    exact Action.bind_congr (run_copy still) fun _ _ _ => rfl
  · rw [Action.look_bind_error (if_neg there)]
    exact Action.look_bind_error (if_neg there) _

theorem run_makeArtifact (mode : DocMode) (package root : Path) (name : Text) (file : Path) :
    (makeArtifact mode package root name file).run =
      Package.makeArtifact mode package root name file := by
  cases mode with
  | rawDocstring => exact run_compileArtifact package root file
  | concise => exact run_copyArtifact .concise package name file
  | mediumDetail => exact run_copyArtifact .mediumDetail package name file

theorem generateWithin_succ (levels : Nat) (package output : Path) (options : Options) :
    generateWithin (levels + 1) package output options = (do
      let name ← Steps.look fun tree => Package.name tree package
      let written ← makeArtifact options.mode package (Package.sourceRoot package options) name
        (output.join (Package.fileName name options))
      if written.isEmpty then return []
      let variants ← variants package
      let more ← Steps.forEach (fun variant =>
        (generateWithin levels ((variantsDirectory package).join variant)
          (Package.variantOutput output variant) ⟨.rawDocstring,
            some (Package.sourceRoot package options),
            some (Package.fileName name options)⟩).orNothing) variants
      return written ++ more) := rfl

theorem run_generateWithin (levels : Nat) (package output : Path) (options : Options) :
    (generateWithin levels package output options).run =
      Package.generateWithin levels package output options := by
  induction levels generalizing package output options with
  | zero => rfl
  | succ levels ih =>
    rw [generateWithin, Steps.run_bind, Package.generateWithin]
    congr 1
    funext name
    rw [Steps.run_bind, run_makeArtifact]
    congr 1
    funext written
    split
    · rfl
    · rw [Steps.run_bind, run_variants]
      congr 1
      funext variants
      rw [Steps.run_bind, Steps.run_forEach]
      simp only [Steps.run_orNothing, ih]
      rfl

theorem of_absolute {first : Path}
    (h : (tree.absolute path).mapError (Failure.io path) = .ok first) :
    path.text ≠ [] ∧ Path.absolute tree.currentPath path = first := by
  unfold FileTree.absolute at h
  split at h
  · cases h
  · next visible => exact ⟨visible, Except.ok.inj h⟩

-- It does not matter how many levels there are, as long as the package itself would make as much of
-- them as of its own.
theorem run_generate_of_eq
    (same : package.text ≠ [] → output.text ≠ [] →
      Package.generateWithin levels (Path.absolute tree.currentPath package)
          (Path.absolute tree.currentPath output) options tree =
        Package.generateWithin (Package.enoughLevels tree
            ((Path.absolute tree.currentPath output).join (options.fileName.getD [])))
          (Path.absolute tree.currentPath package) (Path.absolute tree.currentPath output) options
          tree) :
    (generate levels package output options).run tree =
      Package.generate package output options tree := by
  rw [generate, Steps.run_bind, Package.generate]
  refine Action.bind_congr rfl fun whole middle first => ?_
  obtain ⟨known, rfl⟩ : (tree.absolute package).mapError (Failure.io package) = .ok whole ∧
      tree = middle := Prod.mk.inj first
  obtain ⟨visible, rfl⟩ := of_absolute known
  rw [Steps.run_bind]
  refine Action.bind_congr rfl fun goal middle second => ?_
  obtain ⟨known, rfl⟩ : (tree.absolute output).mapError (Failure.io output) = .ok goal ∧
      tree = middle := Prod.mk.inj second
  obtain ⟨outputVisible, rfl⟩ := of_absolute known
  rw [run_generateWithin, same visible outputVisible]
  rfl

theorem run_generate (package output : Path) (options : Options) (tree : FileTree) :
    (generate (Package.enoughLevels tree ((Path.absolute tree.currentPath output).join
      (options.fileName.getD []))) package output options).run tree =
        Package.generate package output options tree :=
  run_generate_of_eq fun _ _ => rfl

theorem run_generate_of_le (wellFormed : tree.WellFormed)
    (enough : Package.enoughLevels tree ((Path.absolute tree.currentPath output).join
      (options.fileName.getD [])) ≤ levels) :
    (generate levels package output options).run tree =
      Package.generate package output options tree :=
  run_generate_of_eq fun visible outputVisible =>
    (Package.generate_eq_of_le wellFormed visible outputVisible enough).symm.trans
      (Package.generate_eq tree options visible outputVisible)

end CallSchema.Stepwise
