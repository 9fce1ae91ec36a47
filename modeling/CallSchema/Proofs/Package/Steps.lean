import CallSchema.Package.Generation
import CallSchema.Proofs.Action

set_option autoImplicit false

namespace CallSchema.Package

open FileTree (Writes)
open CallSchema.Path (IsName)

-- The three ways in which making an artifact ends.
inductive Made (file : Path) (before : FileTree) :
    Except Failure (List Path) × FileTree → Prop where
  | failed (failure : Failure) {after : FileTree} (untouched : Writes [] before after) :
    Made file before (.error failure, after)
  | nothing {after : FileTree} (untouched : Writes [] before after) :
    Made file before (.ok [], after)
  | written {after : FileTree} (writes : Writes [file] before after) :
    Made file before (.ok [file], after)

theorem writes_makeParent (file : Path) (before : FileTree) :
    Writes [] before (makeParent file before).2 := by
  unfold makeParent
  cases file.parent? with
  | none => exact Writes.refl before
  | some parent => exact FileTree.writes_makeDirectories parent before

theorem made_change {file path : Path} {change : FileTree.Change} {before : FileTree}
    (writes : ∀ after, change before = (.ok (), after) → Writes [file] before after)
    (untouched : ∀ cause after, change before = (.error cause, after) → after = before) :
    Made file before ((Action.change path change >>= fun _ => return [file]) before) := by
  cases done : change before with
  | mk result after =>
    cases result with
    | error cause =>
      have failed : Action.change path change before = (.error (.io path cause), after) := by
        simp only [Action.change, done, Except.mapError]
      rw [Action.bind_error failed, untouched cause after done]
      exact .failed _ (Writes.refl before)
    | ok =>
      have succeeded : Action.change path change before = (.ok (), after) := by
        simp only [Action.change, done, Except.mapError]
      rw [Action.bind_ok succeeded]
      exact .written (writes after done)

theorem Made.after_parent {file : Path} {action : Action (List Path)} {before : FileTree}
    (h : ∀ middle, Writes [] before middle → Made file middle (action middle)) :
    Made file before ((makeParent file >>= fun _ => action) before) := by
  have untouched := writes_makeParent file before
  cases made : makeParent file before with
  | mk result middle =>
    rw [made] at untouched
    cases result with
    | error failure =>
      rw [Action.bind_error made]
      exact .failed failure untouched
    | ok =>
      rw [Action.bind_ok made]
      have later := h middle untouched
      generalize action middle = done at later
      cases later with
      | failed failure rest => exact .failed failure (untouched.trans rest)
      | nothing rest => exact .nothing (untouched.trans rest)
      | written writes => exact .written (untouched.trans writes)

theorem made_compileArtifact (package root file : Path) (before : FileTree) :
    Made file before (compileArtifact package root file before) := by
  unfold compileArtifact
  cases compiled : schemas before package root with
  | error failure =>
    rw [Action.look_bind_error compiled]
    exact .failed failure (Writes.refl before)
  | ok found =>
    rw [Action.look_bind_ok compiled]
    by_cases empty : found.isEmpty = true
    · rw [if_pos empty]
      exact .nothing (Writes.refl before)
    · rw [if_neg empty]
      refine Made.after_parent fun middle _ => made_change ?_ ?_
      · exact fun after => FileTree.writes_write
      · exact fun cause after => FileTree.eq_of_write_error

theorem made_copyArtifact (mode : DocMode) (package : Path) (name : Text) (file : Path)
    (before : FileTree) : Made file before (copyArtifact mode package name file before) := by
  unfold copyArtifact
  by_cases there : before.isFile (alternateFile package (mode.artifactName name)) = true
  · rw [Action.look_bind_ok (if_pos there)]
    refine Made.after_parent fun middle untouched => made_change ?_ ?_
    · exact fun after => FileTree.writes_copy
    · exact fun cause after => FileTree.eq_of_copy_error (untouched.isFile there)
  · rw [Action.look_bind_error (if_neg there)]
    exact .failed _ (Writes.refl before)

theorem made_makeArtifact (mode : DocMode) (package root : Path) (name : Text) (file : Path)
    (before : FileTree) : Made file before (makeArtifact mode package root name file before) := by
  cases mode with
  | rawDocstring => exact made_compileArtifact package root file before
  | concise => exact made_copyArtifact .concise package name file before
  | mediumDetail => exact made_copyArtifact .mediumDetail package name file before

section Generate

variable {levels : Nat} {package output : Path} {options : Options} {before : FileTree}

def sourceRoot (package : Path) (options : Options) : Path :=
  options.sourceRoot.getD (package.parent?.getD ⟨['.']⟩)

def fileName (name : Text) (options : Options) : Text :=
  options.fileName.getD (options.mode.artifactName name)

def generateVariant (levels : Nat) (package output root : Path) (fileName variant : Text) :
    Action (List Path) :=
  generateWithin levels ((variantsDirectory package).join variant) (variantOutput output variant)
    ⟨.rawDocstring, some root, some fileName⟩

def generateVariants (levels : Nat) (package output root : Path) (fileName : Text)
    (written : List Path) : Action (List Path) := do
  if written.isEmpty then return []
  let variants ← Action.look fun tree => .ok (variants tree package)
  let more ← Action.forEach
    (fun variant => (generateVariant levels package output root fileName variant).orNothing)
    variants
  return written ++ more

theorem generateWithin_succ (levels : Nat) (package output : Path) (options : Options) :
    generateWithin (levels + 1) package output options = (do
      let name ← Action.look fun tree => name tree package
      let written ← makeArtifact options.mode package (sourceRoot package options) name
        (output.join (fileName name options))
      generateVariants levels package output (sourceRoot package options)
        (fileName name options) written) := rfl

theorem generateWithin_of_made {found : Text} (named : name before package = .ok found)
    {middle after : FileTree} {more : List Path}
    (made : makeArtifact options.mode package (sourceRoot package options) found
      (output.join (fileName found options)) before =
        (.ok [output.join (fileName found options)], middle))
    (later : Action.forEach
      (fun variant => (generateVariant levels package output (sourceRoot package options)
        (fileName found options) variant).orNothing)
      (variants middle package) middle = (.ok more, after)) :
    generateWithin (levels + 1) package output options before =
      (.ok (output.join (fileName found options) :: more), after) := by
  rw [generateWithin_succ, Action.look_bind_ok named, Action.bind_ok made, generateVariants,
    if_neg (by simp)]
  refine (Action.look_bind_ok rfl _).trans ?_
  rw [Action.bind_ok later]
  rfl

theorem generateWithin_of_nothing {found : Text} {after : FileTree}
    (named : name before package = .ok found)
    (made : makeArtifact options.mode package (sourceRoot package options) found
      (output.join (fileName found options)) before = (.ok [], after)) :
    generateWithin (levels + 1) package output options before = (.ok [], after) := by
  rw [generateWithin_succ, Action.look_bind_ok named, Action.bind_ok made]
  rfl

inductive Generated (levels : Nat) (package output : Path) (options : Options)
    (before : FileTree) : Except Failure (List Path) × FileTree → Prop where
  | failed (failure : Failure) {after : FileTree} (untouched : Writes [] before after) :
    Generated levels package output options before (.error failure, after)
  | nothing {name : Text} {after : FileTree} (named : Package.name before package = .ok name)
    (untouched : Writes [] before after) :
    Generated levels package output options before (.ok [], after)
  | written {name : Text} {middle after : FileTree} {more : List Path}
    (named : Package.name before package = .ok name)
    (own : Writes [output.join (fileName name options)] before middle)
    (later : Action.forEach
      (fun variant => (generateVariant levels package output (sourceRoot package options)
        (fileName name options) variant).orNothing)
      (variants middle package) middle = (.ok more, after)) :
    Generated levels package output options before
      (.ok (output.join (fileName name options) :: more), after)

theorem generated (levels : Nat) (package output : Path) (options : Options)
    (before : FileTree) : Generated levels package output options before
      (generateWithin (levels + 1) package output options before) := by
  cases named : name before package with
  | error failure =>
    rw [generateWithin_succ, Action.look_bind_error named]
    exact .failed failure (Writes.refl before)
  | ok found =>
    have made := made_makeArtifact options.mode package (sourceRoot package options) found
      (output.join (fileName found options)) before
    cases done : makeArtifact options.mode package (sourceRoot package options) found
        (output.join (fileName found options)) before with
    | mk result middle =>
      rw [done] at made
      cases made with
      | failed failure untouched =>
        rw [generateWithin_succ, Action.look_bind_ok named, Action.bind_error done]
        exact .failed failure untouched
      | nothing untouched =>
        rw [generateWithin_succ, Action.look_bind_ok named, Action.bind_ok done]
        exact .nothing named untouched
      | written own =>
        obtain ⟨more, after, later⟩ := Action.exists_forEach
          (generateVariant levels package output (sourceRoot package options)
            (fileName found options)) (variants middle package) middle
        rw [generateWithin_of_made named done later]
        exact .written named own later

theorem reports_generateWithin (levels : Nat) (package output : Path) (options : Options) :
    (generateWithin levels package output options).Reports := by
  induction levels generalizing package output options with
  | zero => exact fun tree => Writes.refl tree
  | succ levels ih =>
    intro before
    have run := generated levels package output options before
    generalize generateWithin (levels + 1) package output options before = done at run
    cases run with
    | failed failure untouched => exact untouched
    | nothing named untouched => exact untouched
    | @written name middle after more named own later =>
      have each (variant : Text) : (generateVariant levels package output
          (sourceRoot package options) (fileName name options) variant).Reports := ih _ _ _
      have rest := Action.Reports.forEach each (variants middle package) middle
      rw [later] at rest
      exact own.trans rest

end Generate

end CallSchema.Package
