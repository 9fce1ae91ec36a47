import CallSchema.Proofs.Package.Artifacts
import Mathlib.Data.List.MinMax
import Mathlib.Order.Nat

set_option autoImplicit false

namespace CallSchema

open FileTree (Grows Writes)
open CallSchema.Path (IsName)

namespace FileTree

variable {tree before after : FileTree} {depth : Nat}

def FilesWithin (tree : FileTree) (depth : Nat) : Prop :=
  ∀ location, (tree.content? location).isSome = true → location.length ≤ depth

theorem FilesWithin.mono {more : Nat} (h : tree.FilesWithin depth) (le : depth ≤ more) :
    tree.FilesWithin more :=
  fun location file => (h location file).trans le

theorem Writes.filesWithin {written : List Path} (writes : Writes written before after)
    (within : before.FilesWithin depth)
    (short : ∀ path ∈ written, before.current.length + path.names.length ≤ depth) :
    after.FilesWithin depth := by
  intro location file
  by_cases same : after.content? location = before.content? location
  · exact within location (same ▸ file)
  · obtain ⟨path, mem, reached⟩ := writes.changed location same
    have length := length_of_locate reached
    rw [writes.current] at length
    exact length.trans (short path mem)

theorem length_le_of_find? {location : Location} {entry : Entry}
    (found : tree.find? location = some entry) :
    location.length ≤ (tree.entries.map (·.1.length)).foldr max 0 := by
  unfold find? at found
  split at found
  · next top => simp [top]
  · exact List.le_max_of_le (List.mem_map_of_mem (Table.mem_of_get? found)) (Nat.le_refl _)

theorem filesWithin (tree : FileTree) :
    tree.FilesWithin ((tree.entries.map (·.1.length)).foldr max 0) := by
  intro location file
  obtain ⟨content, found⟩ := isSome_content?_iff.mp file
  exact length_le_of_find? found

theorem Grows.length_le (grows : Grows before after) :
    (before.entries.map (·.1.length)).foldr max 0 ≤
      (after.entries.map (·.1.length)).foldr max 0 := by
  refine List.max_le_of_forall_le (α := Nat) _ _ fun length mem => ?_
  obtain ⟨entry, known, rfl⟩ := List.mem_map.mp mem
  have found : (before.find? entry.1).isSome = true := by
    unfold find?
    split
    · rfl
    · rw [Table.get?, Option.isSome_map, List.find?_isSome]
      exact ⟨entry, known, by simp⟩
  obtain ⟨later, found⟩ := Option.isSome_iff_exists.mp (grows.isSome_find? found)
  exact length_le_of_find? found

end FileTree

namespace Package

variable {output package : Path} {tree before after : FileTree} {depth : Nat} {options : Options}
  {inner file found : Text}

def besideOutput (output : Path) : Path := (output.parent?.getD output).join schemasDirectory

def reach (output : Path) (file : Text) : Nat := ((besideOutput output).join file).names.length

theorem names_besideOutput (output : Path) : (besideOutput output).names.length =
    (output.parent?.getD output).names.length + 1 := by
  rw [besideOutput, Path.names_join _ isName_schemasDirectory, List.length_append]
  rfl

theorem length_names_join_le_reach (output : Path) (file : Text) :
    (output.join file).names.length ≤ reach output file := by
  refine Path.length_names_join_le 0 ?_ file
  rw [names_besideOutput]
  exact output.length_names_parent.1

theorem reach_le (output : Path) (file : Text) :
    reach output file ≤ (output.join file).names.length + 1 := by
  refine Path.length_names_join_le 1 ?_ file
  rw [names_besideOutput]
  exact Nat.succ_le_succ output.length_names_parent.2

theorem reach_variantOutput (output : Path) (file : Text) (named : IsName inner) :
    reach (variantOutput output inner) file ≤ reach output file + 1 := by
  have above : (variantOutput output inner).parent? = some (besideOutput output) :=
    Path.parent?_join _ isName_schemasDirectory named
  refine Path.length_names_join_le 1 ?_ file
  rw [names_besideOutput, above]
  exact Nat.le_refl _

def Room (tree : FileTree) (package output : Path) (options : Options) (depth : Nat) : Prop :=
  ∀ found location, name tree package = .ok found → tree.locate package = .ok location →
    2 * (tree.current.length + reach output (fileName found options)) ≤ depth + location.length

theorem length_of_locate_variant (named : name tree package = .ok found)
    (grows : Grows tree after) (innerNamed : IsName inner) {location below : Location}
    (located : tree.locate package = .ok location)
    (reached : after.locate ((variantsDirectory package).join inner) = .ok below) :
    below.length = location.length + 2 := by
  have visible := Path.text_ne_nil_of_fileName? (of_name named).1
  have names := isName_variantNames (List.forall_mem_singleton.mpr innerNamed)
  have whole : (variantsDirectory package).join inner =
      (variantNames [inner]).foldl Path.join package := rfl
  rw [whole, FileTree.locate_foldl_join visible names, grows.locate located] at reached
  have down : below = location ++ variantNames [inner] :=
    FileTree.eq_append_of_foldlM_step names reached
  rw [down, List.length_append]
  rfl

theorem Room.variant (room : Room tree package output options depth)
    (named : name tree package = .ok found) (grows : Grows tree after)
    (innerNamed : IsName inner) (root : Path) :
    Room after ((variantsDirectory package).join inner) (variantOutput output inner)
      ⟨.rawDocstring, some root, some (fileName found options)⟩ depth := by
  intro other below _ reached
  obtain ⟨location, located, -⟩ := exists_located named
  have deeper := length_of_locate_variant named grows innerNamed located reached
  have space := room found location named located
  have further := reach_variantOutput output (fileName found options) innerNamed
  rw [grows.current, deeper, fileName, Option.getD_some]
  omega

theorem lt_depth (within : tree.FilesWithin depth) (named : name tree package = .ok found) :
    ∃ location, tree.locate package = .ok location ∧ location.length < depth := by
  obtain ⟨location, located, file⟩ := exists_located named
  have inside := within _ file
  rw [List.length_append] at inside
  exact ⟨location, located, inside⟩

theorem Room.artifact (room : Room tree package output options depth)
    (named : name tree package = .ok found) (within : tree.FilesWithin depth) :
    tree.current.length + (output.join (fileName found options)).names.length ≤ depth := by
  obtain ⟨location, located, inside⟩ := lt_depth within named
  have space := room found location named located
  have short := length_names_join_le_reach output (fileName found options)
  omega

structure Follows (tree : FileTree) (depth : Nat) (later : FileTree) : Prop where
  wellFormed : later.WellFormed
  grows : Grows tree later
  within : later.FilesWithin depth

theorem Follows.writes {later last : FileTree} (h : Follows tree depth later)
    {written : List Path} (writes : Writes written later last)
    (within : last.FilesWithin depth) : Follows tree depth last :=
  ⟨writes.wellFormed h.wellFormed, h.grows.trans writes.toGrows, within⟩

theorem Room.follows_artifact (room : Room before package output options depth)
    (wellFormed : before.WellFormed) (within : before.FilesWithin depth)
    (named : name before package = .ok found)
    (own : Writes [output.join (fileName found options)] before after) :
    Follows before depth after :=
  ⟨own.wellFormed wellFormed, own.toGrows,
    own.filesWithin within (by simpa using room.artifact named within)⟩

theorem filesWithin_generateWithin (levels : Nat) (wellFormed : before.WellFormed)
    (within : before.FilesWithin depth) (room : Room before package output options depth) :
    (generateWithin levels package output options before).2.FilesWithin depth := by
  induction levels generalizing package output options before with
  | zero => exact within
  | succ levels ih =>
    have run := generated levels package output options before
    generalize generateWithin (levels + 1) package output options before = done at run
    cases run with
    | failed failure untouched => exact untouched.filesWithin within (by simp)
    | nothing named untouched => exact untouched.filesWithin within (by simp)
    | @written found middle after more named own later =>
      have start := room.follows_artifact wellFormed within named own
      have names := (nodup_variants start.wellFormed package).2
      have kept : ∀ variant ∈ variants middle package, ∀ tree, Follows before depth tree →
          Follows before depth ((generateVariant levels package output (sourceRoot package options)
            (fileName found options) variant).orNothing tree).2 := by
        intro variant mem tree follows
        have inner := room.variant named follows.grows (names variant mem)
          (sourceRoot package options)
        exact follows.writes (reports_generateWithin _ _ _ _ tree)
          (ih follows.wellFormed follows.within inner)
      have last := Action.forEach_invariant kept start
      rw [later] at last
      exact last.within

theorem generateWithin_congr {levels more : Nat} (wellFormed : before.WellFormed)
    (within : before.FilesWithin depth) (room : Room before package output options depth)
    (same : ∀ found, name before package = .ok found → ∀ variant, IsName variant →
      ∀ later, Follows before depth later →
        generateVariant levels package output (sourceRoot package options) (fileName found options)
          variant later =
        generateVariant more package output (sourceRoot package options) (fileName found options)
          variant later) :
    generateWithin (levels + 1) package output options before =
      generateWithin (more + 1) package output options before := by
  rw [generateWithin_succ, generateWithin_succ]
  cases named : name before package with
  | error failure => rw [Action.look_bind_error named, Action.look_bind_error named]
  | ok found =>
    rw [Action.look_bind_ok named, Action.look_bind_ok named]
    refine Action.bind_congr rfl fun written middle made => ?_
    have own := made_makeArtifact options.mode package (sourceRoot package options) found
      (output.join (fileName found options)) before
    rw [made] at own
    cases own with
    | nothing untouched => rfl
    | written own =>
      have start := room.follows_artifact wellFormed within named own
      rw [generateVariants, generateVariants, if_neg (by simp), if_neg (by simp)]
      -- Both list the same variants, in the tree that the artifact has been written to.
      refine Action.bind_congr rfl fun names tree listed => ?_
      cases listed
      refine Action.bind_congr ?_ fun _ _ _ => rfl
      have variantsNamed := (nodup_variants start.wellFormed package).2
      refine Action.forEach_congr ?_ ?_ start
      · intro variant mem later follows
        rw [Action.orNothing_eq, Action.orNothing_eq,
          same found named variant (variantsNamed variant mem) later follows]
      · intro variant mem later follows
        have inner := room.variant named follows.grows (variantsNamed variant mem)
          (sourceRoot package options)
        exact follows.writes (reports_generateWithin _ _ _ _ later)
          (filesWithin_generateWithin levels follows.wellFormed follows.within inner)

theorem enoughLevels_le (grows : Grows before after) (path : Path) :
    enoughLevels before path ≤ enoughLevels after path := by
  have deeper := grows.length_le
  rw [enoughLevels, enoughLevels, grows.current]
  omega

theorem generateWithin_eq (levels more : Nat) (wellFormed : before.WellFormed)
    (within : before.FilesWithin depth) (room : Room before package output options depth)
    (enough : ∀ found location, name before package = .ok found →
      before.locate package = .ok location →
        depth ≤ location.length + 2 * levels ∧ depth ≤ location.length + 2 * more) :
    generateWithin (levels + 1) package output options before =
      generateWithin (more + 1) package output options before := by
  induction levels generalizing package output options before more with
  | zero =>
    refine generateWithin_congr wellFormed within room fun found named => ?_
    obtain ⟨location, located, inside⟩ := lt_depth within named
    have outside := (enough found location named located).1
    omega
  | succ levels ih =>
    refine generateWithin_congr wellFormed within room fun found named variant variantNamed => ?_
    obtain ⟨location, located, inside⟩ := lt_depth within named
    obtain ⟨first, second⟩ := enough found location named located
    cases more with
    | zero => omega
    | succ more =>
      intro later follows
      refine ih more follows.wellFormed follows.within
        (room.variant named follows.grows variantNamed _) fun _ below _ reached => ?_
      have deeper := length_of_locate_variant named follows.grows variantNamed located reached
      omega

theorem length_names_artifact (absolute : output.isAbsolute = true) (named : IsName found)
    (options : Options) : (output.join (fileName found options)).names.length ≤
      (output.join (options.fileName.getD [])).text.length := by
  rw [fileName]
  cases options.fileName with
  | none =>
    have shorter := Path.length_names_lt (Path.isAbsolute_join absolute [])
    rw [Path.names_join_nil] at shorter
    rw [Option.getD_none, Option.getD_none,
      Path.names_join output (options.mode.isName_artifactName named), List.length_append]
    exact shorter
  | some file => exact Path.length_names_le _

theorem generate_eq_of_le (wellFormed : tree.WellFormed) (visible : package.text ≠ [])
    (outputVisible : output.text ≠ []) {levels : Nat}
    (enough : enoughLevels tree ((Path.absolute tree.currentPath output).join
      (options.fileName.getD [])) ≤ levels) :
    generate package output options tree =
      generateWithin levels (Path.absolute tree.currentPath package)
        (Path.absolute tree.currentPath output) options tree := by
  have rooted : tree.currentPath.isAbsolute = true := Path.isAbsolute_foldl_join rfl tree.current
  have absolute := Path.isAbsolute_absolute rooted output
  rw [generate_eq tree options visible outputVisible]
  generalize Path.absolute tree.currentPath package = package
  generalize Path.absolute tree.currentPath output = output at absolute enough ⊢
  obtain ⟨more, rfl⟩ : ∃ more, levels = more + 1 :=
    Nat.exists_eq_add_one_of_ne_zero (Nat.ne_of_gt (Nat.lt_of_lt_of_le (Nat.succ_pos _) enough))
  unfold enoughLevels at enough ⊢
  have deepest := tree.filesWithin
  generalize (tree.entries.map (·.1.length)).foldr max 0 = deep at enough deepest ⊢
  -- Files that are made lie at most twice as deep as the path of the first artifact is long.
  refine generateWithin_eq _ more wellFormed (deepest.mono (Nat.le_max_left _
    (2 * (tree.current.length + (output.join (options.fileName.getD [])).text.length + 1)))) ?_ ?_
  · intro found location named _
    have artifact := length_names_artifact absolute
      (Path.isName_of_fileName? (of_name named).1) options
    have reached := reach_le output (fileName found options)
    omega
  · intro found location named _
    obtain ⟨_, _, there⟩ := lt_depth deepest named
    omega

end Package

end CallSchema
