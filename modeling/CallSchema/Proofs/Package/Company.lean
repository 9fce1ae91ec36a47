import CallSchema.Proofs.Package.Paving
import CallSchema.Proofs.Package.Site

set_option autoImplicit false

namespace CallSchema.Stepwise

open CallSchema.Path (IsName)
open FileTree (AgreeOn Extends Grows OnWay SameAt Starts)
open Package (Above Due IsNested Options Site Targets variantFile variantOutput variantPackage)
open Steps (Answers Follows Withstands)

variable {tree left now later : FileTree} {own others places changing : Location → Prop}
  {location : Location}

-- Others add files at places that do not lie above those of the package, nor below.
structure Neighbours (own others places : Location → Prop) : Prop where
  covered : ∀ place, others place → places place
  apart : ∀ place, own place → ∀ other, others other → ¬place <+: other ∧ ¬other <+: place

-- A tree that has grown and holds what the left one holds at the places of the package, and the same
-- files above them. Some places may be about to become directories.
structure Agrees (tree : FileTree) (own places changing : Location → Prop)
    (left now : FileTree) : Prop where
  grown : Extends places tree now
  content : ∀ place, own place → ∀ above, above <+: place → now.content? above = left.content? above
  same : ∀ place, own place → ¬changing place → now.find? place = left.find? place

namespace Agrees

variable (agrees : Agrees tree own places changing left now)

include agrees

theorem meanwhile (neighbours : Neighbours own others places) (grown : Extends others now later) :
    Agrees tree own places changing left later where
  grown := agrees.grown.trans (grown.mono neighbours.covered)
  content place mem above shorter := by
    rw [grown.content above fun other => (neighbours.apart place mem above other).2 shorter]
    exact agrees.content place mem above shorter
  same place mem settled := by
    rw [grown.same place fun other known => (neighbours.apart place mem other known).1]
    exact agrees.same place mem settled

theorem sameAt : SameAt own left now :=
  fun place mem => agrees.content place mem place (List.prefix_refl _)

end Agrees

-- The tree of the package alone, and the one that it shares with others.
structure Abreast (tree : FileTree) (own places : Location → Prop) (left now : FileTree) : Prop
    extends Agrees tree own places (fun _ => False) left now where
  leftGrown : Extends places tree left

namespace Abreast

theorem refl (grown : Extends places tree now) : Abreast tree own places now now :=
  ⟨⟨grown, fun _ _ _ _ => rfl, fun _ _ _ => rfl⟩, grown⟩

variable (abreast : Abreast tree own places left now)

include abreast

theorem meanwhile (neighbours : Neighbours own others places) (grown : Extends others now later) :
    Abreast tree own places left later :=
  ⟨abreast.toAgrees.meanwhile neighbours grown, abreast.leftGrown⟩

theorem find?_eq {place : Location} (mem : own place) : now.find? place = left.find? place :=
  abreast.same place mem not_false

theorem put {place : Location} (covered : ∀ place, own place → places place) (inner : place ≠ [])
    (content : Content)
    (first : Extends own left (left.put place (.file content)))
    (second : Extends own now (now.put place (.file content))) :
    Abreast tree own places (left.put place (.file content)) (now.put place (.file content)) := by
  refine ⟨⟨abreast.grown.trans (second.mono covered), fun other known above shorter => ?_,
    fun other known _ => ?_⟩, abreast.leftGrown.trans (first.mono covered)⟩
  · have same := abreast.content other known above shorter
    simp only [FileTree.content?, FileTree.find?_put _ inner] at same ⊢
    split
    · rfl
    · exact same
  · rw [FileTree.find?_put _ inner, FileTree.find?_put _ inner, abreast.find?_eq known]

end Abreast

theorem Abreast.find?_eq_of_nested {package goal : Path} {fileName : Text} {chain : List Text}
    (abreast : Abreast tree (Targets tree package goal fileName) places left now)
    (nested : IsNested tree package chain) :
    now.find? (tree.place (variantFile goal fileName chain)) =
      left.find? (tree.place (variantFile goal fileName chain)) := by
  rcases nested.targets_or_directory goal fileName with own | taken
  · exact abreast.find?_eq own
  · rw [abreast.leftGrown.grows.directories _ taken, abreast.grown.grows.directories _ taken]

section Site

variable {sources package goal start : Path} {fileName last : Text} {chain names : List Text}
  (site : Site tree sources package goal fileName places)

include site

section Nested

variable (nested : IsNested tree package chain)

include nested

theorem content?_eq_of_nested
    (agrees : Agrees tree (Targets tree package goal fileName) places changing left now)
    (leftGrown : Extends places tree left) {above : Location}
    (shorter : above <+: tree.place (variantFile goal fileName chain)) :
    now.content? above = left.content? above := by
  rcases nested.targets_or_directory goal fileName with own | taken
  · exact agrees.content _ own above shorter
  · have directory := site.wellFormed.find?_of_prefix taken shorter
    rw [FileTree.content?_eq_none_iff.mpr (.inr (agrees.grown.grows.directories _ directory)),
      FileTree.content?_eq_none_iff.mpr (.inr (leftGrown.grows.directories _ directory))]

variable (above : Above tree (variantFile goal fileName chain) start names fileName)

include above

-- Directories are made on the way to one of the places of the package.
theorem extends_of_paves
    (grown : Extends places tree now) (paves : Paves (tree.place start) names now later) :
    Extends (Targets tree package goal fileName) now later := by
  cases paves with
  | still => exact Extends.refl _ _
  | @made inner name within there missing =>
    have named := above.named name (within.subset (by simp))
    have onWay := above.prefix_place site.fileNamed within
    rw [← List.append_assoc] at onWay
    refine Extends.put_directory there named missing ?_
    rcases nested.targets_or_directory goal fileName with own | taken
    · exact ⟨_, own, onWay⟩
    · have directory := site.wellFormed.find?_of_prefix taken onWay
      rw [grown.grows.directories _ directory] at missing
      cases missing

-- While the directories above an artifact are made, only places on the way change.
theorem paving_of_free (neighbours : Neighbours (Targets tree package goal fileName) others places)
    (leftGrown : Extends places tree left)
    (free : ∀ shorter, shorter <+: names → left.content? (tree.place start ++ shorter) = none) :
    Paving others start (tree.place start) names
      (Agrees tree (Targets tree package goal fileName) places
        (OnWay (tree.place start) names) left) := by
  refine ⟨above.named, fun now agrees => ?_, fun now agrees shorter within => ?_,
    fun now later agrees grown => agrees.meanwhile neighbours grown,
    fun now inner name agrees within there missing => ?_⟩
  · exact (Starts.of_isDirectory site.wellFormed above.there).grows agrees.grown.grows
  · have onWay := above.prefix_place site.fileNamed within
    rw [content?_eq_of_nested site nested agrees leftGrown onWay, free shorter within]
  · have named := above.named name (within.subset (by simp))
    have own := extends_of_paves site nested above agrees.grown (.made within there missing)
    refine ⟨agrees.grown.trans (own.mono site.covered), ?_, ?_⟩
    · intro place own outer shorter
      rw [(FileTree.writes_put_directory there named missing).content?_eq outer]
      exact agrees.content place own outer shorter
    · intro place own settled
      have apart : place ≠ tree.place start ++ inner ++ [name] := by
        rintro rfl
        rw [List.append_assoc] at settled
        exact settled
          ⟨List.prefix_append _ _, (List.prefix_append_right_inj _).mpr within⟩
      rw [FileTree.find?_put _ (by simp), if_neg apart]
      exact agrees.same place own settled

omit nested in
theorem starts_of_extends (grown : Extends places tree now) :
    now.Starts start (tree.place start) :=
  (Starts.of_isDirectory site.wellFormed above.there).grows grown.grows

variable (neighbours : Neighbours (Targets tree package goal fileName) others places)
  (abreast : Abreast tree (Targets tree package goal fileName) places left now)

include neighbours abreast

-- A file in the way stays there, whatever others do.
theorem follows_makeParent_of_blocked {shorter : List Text} (within : shorter <+: names)
    (taken : (left.content? (tree.place start ++ shorter)).isSome = true) :
    Follows (Targets tree package goal fileName) others
      (fun result aside later =>
        Abreast tree (Targets tree package goal fileName) places aside later ∧ result ≠ .ok ())
      (makeParent (variantFile goal fileName chain)) left now := by
  have started := starts_of_extends site above abreast.leftGrown
  have onWay := above.prefix_place site.fileNamed within
  have final : (if shorter = names then Cause.exists else Cause.notDirectory) ≠ .notFound := by
    split <;> simp
  rw [makeParent, above.parent]
  refine Follows.of_answers (fun now => now.Starts start (tree.place start) ∧
      (now.content? (tree.place start ++ shorter)).isSome = true)
    ((answers_makeDirectoriesWithin false (started.text_ne_nil above.named) final
      (fun now known => known.1.makeDirectory_of_blocked above.named within known.2)
      fun now known => known.1.isDirectory_of_blocked above.named within known.2).bind rfl)
    ⟨started, taken⟩ fun later grown => ?_
  have still := abreast.meanwhile neighbours grown
  refine ⟨⟨starts_of_extends site above still.grown, ?_⟩, still.sameAt, still,
    by simp [Except.mapError]⟩
  rwa [content?_eq_of_nested site nested still.toAgrees still.leftGrown onWay]

theorem follows_makeParent_of_free
    (free : ∀ shorter, shorter <+: names → left.content? (tree.place start ++ shorter) = none) :
    Follows (Targets tree package goal fileName) others
      (fun _ aside later =>
        Abreast tree (Targets tree package goal fileName) places aside later ∧
          aside.isDirectory (names.foldl Path.join start) = true ∧
          later.isDirectory (names.foldl Path.join start) = true)
      (makeParent (variantFile goal fileName chain)) left now := by
  have paving := paving_of_free site nested above neighbours abreast.leftGrown free
  have made {now : FileTree} (agrees : Agrees tree (Targets tree package goal fileName) places
      (OnWay (tree.place start) names) left now) :=
    paving.withstands_makeParent above.parent above.length_le agrees
  have weaken {now : FileTree} (also : Abreast tree (Targets tree package goal fileName) places
      left now) : Agrees tree (Targets tree package goal fileName) places
        (OnWay (tree.place start) names) left now :=
    ⟨also.grown, also.content, fun place own _ => also.find?_eq own⟩
  -- Alone the program makes the same directories.
  obtain ⟨ends, aside, asideThere⟩ := (made (weaken (Abreast.refl abreast.leftGrown))).run
  have reached := Steps.Reaches.run (makeParent (variantFile goal fileName chain)) left
  rw [ends] at reached
  refine Follows.of_withstands (made (weaken abreast)) ?_ ?_
  · rintro before after ⟨agrees, paves⟩
    exact ⟨extends_of_paves site nested above agrees.grown paves, agrees.sameAt⟩
  · rintro _ later ⟨rfl, agrees, there⟩
    have first := starts_of_extends site above aside.grown
    have second := starts_of_extends site above agrees.grown
    refine ⟨_, reached, ⟨⟨agrees.grown, fun place own outer shorter => ?_, fun place own _ => ?_⟩,
      aside.grown⟩, (first.isDirectory_iff above.named).mpr asideThere,
        (second.isDirectory_iff above.named).mpr there⟩
    · rw [agrees.content place own outer shorter, aside.content place own outer shorter]
    · by_cases onWay : OnWay (tree.place start) names place
      · rw [second.wellFormed.find?_of_prefix there onWay.2,
          first.wellFormed.find?_of_prefix asideThere onWay.2]
      · rw [agrees.same place own onWay, aside.same place own onWay]

-- Whether the directories can be made depends on the files in the way alone.
theorem follows_makeParent :
    Follows (Targets tree package goal fileName) others
      (fun result aside later =>
        Abreast tree (Targets tree package goal fileName) places aside later ∧
          (result = .ok () → aside.isDirectory (names.foldl Path.join start) = true ∧
            later.isDirectory (names.foldl Path.join start) = true))
      (makeParent (variantFile goal fileName chain)) left now := by
  by_cases blocked : ∃ shorter, shorter <+: names ∧
      (left.content? (tree.place start ++ shorter)).isSome = true
  · obtain ⟨shorter, within, taken⟩ := blocked
    exact (follows_makeParent_of_blocked site nested above neighbours abreast within taken).mono
      fun _ _ _ ended => ⟨ended.1, fun made => absurd made ended.2⟩
  · have free (shorter : List Text) (within : shorter <+: names) :
        left.content? (tree.place start ++ shorter) = none :=
      Option.not_isSome_iff_eq_none.mp fun taken => blocked ⟨shorter, within, taken⟩
    exact (follows_makeParent_of_free site nested above neighbours abreast free).mono
      fun _ _ _ ended => ⟨ended.1, fun _ => ended.2⟩

end Nested

end Site

section Looks

variable {α : Type} (neighbours : Neighbours own others places)
  (abreast : Abreast tree own places left now)

include neighbours abreast

theorem follows_done {ends : Except Failure α → FileTree → FileTree → Prop}
    {result : Except Failure α}
    (last : ∀ later, Abreast tree own places left later → ends result left later) :
    Follows own others ends (.done result) left now :=
  Follows.ended fun _ grown => last _ (abreast.meanwhile neighbours grown)

theorem follows_look {g : FileTree → Except Failure α}
    (same : ∀ later, Abreast tree own places left later → g later = g left) :
    Follows own others (fun result aside later => aside = left ∧ result = g left ∧
      Extends others now later) (Steps.look g) left now := by
  refine Follows.one fun later grown => ?_
  have still := abreast.meanwhile neighbours grown
  exact ⟨Extends.refl _ _, still.sameAt, same later still,
    fun last more => ⟨rfl, rfl, grown.trans more⟩⟩

theorem follows_of_answers {s : Steps α} {answer : Except Failure α}
    (answers : s.Answers (Extends places tree) answer) :
    Follows own others (fun result aside later => aside = left ∧ result = answer ∧
      Extends others now later) s left now := by
  refine Follows.of_answers _ answers abreast.leftGrown fun later grown => ?_
  have still := abreast.meanwhile neighbours grown
  exact ⟨still.grown, still.sameAt, rfl, rfl, grown⟩

-- After a program that gives the same answer in both trees and leaves them alone.
theorem follows_bind {β : Type} {s : Steps α} {f : α → Steps β} {answer : Except Failure α}
    {ends : Except Failure β → FileTree → FileTree → Prop}
    (first : Follows own others (fun result aside later => aside = left ∧ result = answer ∧
      Extends others now later) s left now)
    (ok : ∀ a later, answer = .ok a → Extends others now later →
      Abreast tree own places left later → Follows own others ends (f a) left later)
    (error : ∀ failure later, Abreast tree own places left later →
      ends (.error failure) left later) :
    Follows own others ends (s >>= f) left now := by
  refine Follows.bind first ?_ ?_
  · rintro a _ later ⟨rfl, same, grown⟩
    exact ok a later same.symm grown (abreast.meanwhile neighbours grown)
  · rintro failure _ later ⟨rfl, -, grown⟩
    exact error failure later (abreast.meanwhile neighbours grown)

end Looks

section Site

variable {sources package goal start : Path} {fileName : Text} {chain names : List Text}
  (site : Site tree sources package goal fileName places)
  (neighbours : Neighbours (Targets tree package goal fileName) others places)

include site neighbours

theorem follows_fill {place : Location} (own : Targets tree package goal fileName place)
    (abreast : Abreast tree (Targets tree package goal fileName) places left now)
    (file : (left.content? place).isSome = true) (content : Content) :
    Follows (Targets tree package goal fileName) others
      (fun _ => Abreast tree (Targets tree package goal fileName) places)
      (Steps.call (FileTree.fill place content)) left now := by
  refine Follows.one fun later grown => ?_
  have still := abreast.meanwhile neighbours grown
  have also : (later.content? place).isSome = true := by rwa [still.sameAt place own]
  have wellFormed := still.grown.grows.wellFormed site.wellFormed
  have second := Extends.refill wellFormed also own content
  have first := Extends.refill (abreast.leftGrown.grows.wellFormed site.wellFormed) file own content
  have inner : place ≠ [] := by
    rintro rfl
    cases file
  exact ⟨second, still.sameAt, rfl, fun last more =>
    (still.put site.covered inner content first second).meanwhile neighbours more⟩

section Nested

variable (nested : IsNested tree package chain)
  (above : Above tree (variantFile goal fileName chain) start names fileName)
  (abreast : Abreast tree (Targets tree package goal fileName) places left now)
  (there : left.isDirectory (names.foldl Path.join start) = true)
  (nowThere : now.isDirectory (names.foldl Path.join start) = true)

include nested above abreast there nowThere

-- Once the directories above are made, the path leads to the same place in both trees.
theorem follows_create :
    Follows (Targets tree package goal fileName) others
      (fun result aside later =>
        Abreast tree (Targets tree package goal fileName) places aside later ∧
          ∀ place, result = .ok (.ok place) →
            Targets tree package goal fileName place ∧ (aside.content? place).isSome = true)
      (Steps.call (FileTree.create (variantFile goal fileName chain))) left now := by
  refine Follows.one fun later grown => ?_
  have still := abreast.meanwhile neighbours grown
  have agree : AgreeOn left later (variantFile goal fileName chain) := by
    refine AgreeOn.of_parent (still.grown.grows.current.trans
      still.leftGrown.grows.current.symm) above.parent there (grown.grows.isDirectory nowThere) ?_
    rw [FileTree.place_congr still.leftGrown.grows.current]
    exact still.find?_eq_of_nested nested
  unfold FileTree.create
  simp only [agree.target]
  cases target : left.target (variantFile goal fileName chain) with
  | error cause =>
    exact ⟨Extends.refl _ _, still.sameAt, rfl,
      fun last more => ⟨still.meanwhile neighbours more, by simp⟩⟩
  | ok place =>
    have whole : place = tree.place (variantFile goal fileName chain) :=
      (FileTree.eq_place_of_target target).trans
        (FileTree.place_congr still.leftGrown.grows.current _)
    obtain ⟨directory, name, concat, known⟩ := FileTree.of_target target
    have own : Targets tree package goal fileName place := by
      rw [whole]
      refine (nested.targets_or_directory goal fileName).resolve_right fun taken => known.free ?_
      rw [← concat, whole]
      exact still.leftGrown.grows.directories _ taken
    have first := Extends.put target own (.text [])
    have second := Extends.put (agree.target.trans target) own (.text [])
    have inner : place ≠ [] := by simp [concat]
    refine ⟨second, still.sameAt, rfl, fun last more =>
      ⟨(still.put site.covered inner _ first second).meanwhile neighbours more, ?_⟩⟩
    rintro _ ⟨⟩
    exact ⟨own, by rw [FileTree.content?, FileTree.find?_put _ inner, if_pos rfl]; rfl⟩

theorem follows_write (content : Content) :
    Follows (Targets tree package goal fileName) others
      (fun _ => Abreast tree (Targets tree package goal fileName) places)
      (write (variantFile goal fileName chain) content) left now := by
  refine Follows.bind (follows_create site neighbours nested above abreast there nowThere) ?_
    fun _ _ _ opened => opened.1
  rintro made aside later ⟨opened, known⟩
  cases made with
  | error cause => exact follows_done neighbours opened fun _ still => still
  | ok place =>
    obtain ⟨own, file⟩ := known place rfl
    exact follows_fill site neighbours own opened file content

theorem follows_copy {source : Path} (descends : tree.Descends (tree.place sources) source) :
    Follows (Targets tree package goal fileName) others
      (fun _ => Abreast tree (Targets tree package goal fileName) places)
      (copy source (variantFile goal fileName chain)) left now := by
  have reads {aside later : FileTree}
      (also : Abreast tree (Targets tree package goal fileName) places aside later) :=
    follows_look neighbours also
      (g := fun tree => (tree.read source).mapError (Failure.io source)) fun last still => by
        have agree := Package.agreeOn_of_descends site.toElsewhere still.leftGrown descends
        rw [(agree.beside
          (Package.agreeOn_of_descends site.toElsewhere still.grown descends)).read]
  refine follows_bind neighbours abreast (reads abreast) (fun _ later _ grown still => ?_)
    fun _ _ still => still
  refine Follows.bind (follows_create site neighbours nested above still there
    (grown.grows.isDirectory nowThere)) ?_ fun _ _ _ opened => opened.1
  rintro made aside last ⟨opened, known⟩
  cases made with
  | error cause => exact follows_done neighbours opened fun _ still => still
  | ok place =>
    obtain ⟨own, file⟩ := known place rfl
    rw [orFail_ok_bind]
    exact follows_bind neighbours opened (reads opened)
      (fun content _ _ _ still => follows_fill site neighbours own still file content)
      fun _ _ still => still

end Nested

-- The artifact of the package or of one of its variants.
def IsArtifact (tree : FileTree) (package goal : Path) (fileName : Text) (path : Path) : Prop :=
  ∃ chain, IsNested tree package chain ∧ path = variantFile goal fileName chain

-- What is reported are artifacts, and the trees agree in the end.
def Reported (tree : FileTree) (package goal : Path) (fileName : Text) (places : Location → Prop)
    (result : Except Failure (List Path)) (left now : FileTree) : Prop :=
  Abreast tree (Targets tree package goal fileName) places left now ∧
    ∀ written, result = .ok written →
      ∀ path ∈ written, IsArtifact tree package goal fileName path

omit site neighbours in
theorem Abreast.reported_error
    (abreast : Abreast tree (Targets tree package goal fileName) places left now)
    (failure : Failure) : Reported tree package goal fileName places (.error failure) left now :=
  ⟨abreast, by simp⟩

omit site neighbours in
theorem Abreast.reported_nil
    (abreast : Abreast tree (Targets tree package goal fileName) places left now) :
    Reported tree package goal fileName places (.ok []) left now := by
  refine ⟨abreast, ?_⟩
  rintro _ ⟨⟩ path mem
  cases mem

omit neighbours in
theorem sourcesKept : SourcesKept (Extends places tree) tree sources := by
  intro other grown asked file mem
  refine ⟨Package.isFile_eq_of_mem_candidates site.toElsewhere grown mem, fun here => ?_⟩
  exact (Package.agreeOn_of_mem_candidates site.toElsewhere grown mem (.inl here)).readText

omit neighbours in
theorem variantsKept {path : Path} (inside : tree.Descends (tree.place sources) path) :
    VariantsKept (Extends places tree) tree path where
  there _ grown :=
    (Package.agreeOn_variantsDirectory site.toElsewhere grown inside).isDirectory
  listed _ grown := Package.list_variantsDirectory_eq site.toElsewhere grown inside
  inner _ grown _ listed name mem :=
    Package.isDirectory_variant_eq site.toElsewhere grown inside
      ((site.wellFormed.nodup_list listed).2 name mem)

section Artifact

variable (nested : IsNested tree package chain)

include nested

-- An artifact of either kind comes after the directories above it, and is reported once it is
-- written.
theorem follows_written (above : Above tree (variantFile goal fileName chain) start names fileName)
    {content : Steps Unit}
    (write : ∀ left now, Abreast tree (Targets tree package goal fileName) places left now →
      left.isDirectory (names.foldl Path.join start) = true →
      now.isDirectory (names.foldl Path.join start) = true →
      Follows (Targets tree package goal fileName) others
        (fun _ => Abreast tree (Targets tree package goal fileName) places) content left now)
    (abreast : Abreast tree (Targets tree package goal fileName) places left now) :
    Follows (Targets tree package goal fileName) others
      (Reported tree package goal fileName places)
      (do
        makeParent (variantFile goal fileName chain)
        content
        return [variantFile goal fileName chain]) left now := by
  refine Follows.bind (follows_makeParent site nested above neighbours abreast) ?_ ?_
  · rintro _ left now ⟨still, ready⟩
    obtain ⟨there, nowThere⟩ := ready rfl
    refine Follows.bind (write left now still there nowThere) (fun _ _ _ last => ?_)
      fun failure _ _ last => last.reported_error failure
    refine follows_done neighbours last fun _ last => ⟨last, ?_⟩
    rintro _ ⟨⟩ path mem
    exact ⟨chain, nested, List.mem_singleton.mp mem⟩
  · rintro failure _ _ ⟨still, -⟩
    exact still.reported_error failure

variable (inside : tree.Descends (tree.place sources) (variantPackage package chain))
  (abreast : Abreast tree (Targets tree package goal fileName) places left now)

include inside abreast

theorem follows_compileArtifact :
    Follows (Targets tree package goal fileName) others
      (Reported tree package goal fileName places)
      (compileArtifact (variantPackage package chain) sources (variantFile goal fileName chain))
      left now := by
  obtain ⟨start, names, above⟩ :=
    Package.exists_above site.absolute site.directory nested.named site.fileNamed
  refine follows_bind neighbours abreast (follows_of_answers neighbours abreast
    (answers_schemas (sourcesKept site) fun other grown => Package.table?_congr
      (Package.agreeOn_initFile site.toElsewhere grown inside)))
    (fun schemas _ _ _ still => ?_) fun failure _ still => still.reported_error failure
  split
  · exact follows_done neighbours still fun _ last => last.reported_nil
  · exact follows_written site neighbours nested above (fun _ _ also there nowThere =>
      follows_write site neighbours nested above also there nowThere _) still

theorem follows_copyArtifact (mode : DocMode) {found : Text} (foundNamed : IsName found) :
    Follows (Targets tree package goal fileName) others
      (Reported tree package goal fileName places)
      (copyArtifact mode (variantPackage package chain) found (variantFile goal fileName chain))
      left now := by
  obtain ⟨start, names, above⟩ :=
    Package.exists_above site.absolute site.directory nested.named site.fileNamed
  have descends : tree.Descends (tree.place sources)
      (Package.alternateFile (variantPackage package chain) (mode.artifactName found)) :=
    ((inside.join (by decide)).join (by decide)).join (mode.isName_artifactName foundNamed)
  refine follows_bind neighbours abreast (follows_look neighbours abreast fun later still => ?_)
    (fun _ _ _ _ still => ?_) fun failure _ still => still.reported_error failure
  · have agree := Package.agreeOn_of_descends site.toElsewhere still.leftGrown descends
    rw [(agree.beside
      (Package.agreeOn_of_descends site.toElsewhere still.grown descends)).isFile]
  · exact follows_written site neighbours nested above (fun _ _ also there nowThere =>
      follows_copy site neighbours nested above also there nowThere descends) still

theorem follows_makeArtifact (mode : DocMode) {found : Text} (foundNamed : IsName found) :
    Follows (Targets tree package goal fileName) others
      (Reported tree package goal fileName places)
      (makeArtifact mode (variantPackage package chain) sources found
        (variantFile goal fileName chain)) left now := by
  cases mode with
  | rawDocstring => exact follows_compileArtifact site neighbours nested inside abreast
  | concise => exact follows_copyArtifact site neighbours nested inside abreast _ foundNamed
  | mediumDetail => exact follows_copyArtifact site neighbours nested inside abreast _ foundNamed

end Artifact

-- The run over a package, or over a variant that it comes to.
theorem follows_generateWithin (levels : Nat) {options : Options}
    (due : Due tree sources package fileName chain options)
    (abreast : Abreast tree (Targets tree package goal fileName) places left now) :
    Follows (Targets tree package goal fileName) others
      (Reported tree package goal fileName places)
      (generateWithin levels (variantPackage package chain) (chain.foldl variantOutput goal)
        options) left now := by
  induction levels generalizing chain options left now with
  | zero => exact follows_done neighbours abreast fun _ still => still.reported_error _
  | succ levels ih =>
    have inside := due.descends site
    have sameName {tree' : FileTree} (grown : Extends places tree tree') :
        Package.name tree' (variantPackage package chain) =
          Package.name tree (variantPackage package chain) :=
      Package.name_congr (Package.agreeOn_initFile site.toElsewhere grown inside)
    rw [generateWithin_succ, due.sourceRoot_eq]
    refine follows_bind neighbours abreast (follows_look neighbours abreast fun later still =>
      (sameName still.grown).trans (sameName still.leftGrown).symm)
      (fun found _ known _ still => ?_) fun failure _ still => still.reported_error failure
    rw [sameName abreast.leftGrown] at known
    have nested := due.reached (Package.of_name known).2
    have foundNamed := Path.isName_of_fileName? (Package.of_name known).1
    rw [due.called found known]
    refine Follows.bind
      (follows_makeArtifact site neighbours nested inside still options.mode foundNamed)
      ?_ fun failure _ _ also => also.1.reported_error failure
    rintro written aside last ⟨also, reported⟩
    split
    · exact follows_done neighbours also fun _ still => still.reported_nil
    refine follows_bind neighbours also (follows_of_answers neighbours also
      (answers_variants (variantsKept site inside)))
      (fun variants _ listed _ last => ?_) fun failure _ still => still.reported_error failure
    cases listed
    refine Follows.bind (Follows.forEach (p := IsArtifact tree package goal fileName)
      (fun _ _ _ related grown => related.meanwhile neighbours grown)
      (fun variant mem left now related => ?_) last) ?_ ?_
    · have next := ih (nested.due site.wellFormed mem) related
      rw [variantPackage, List.foldl_append, List.foldl_append] at next
      refine Follows.orNothing next ?_
      rintro result aside later ⟨still, reported⟩
      refine ⟨still, ?_⟩
      rintro _ ⟨⟩ path mem
      cases result with
      | error failure => cases mem
      | ok written => exact reported written rfl path mem
    · rintro more final ending ⟨still, others⟩
      refine follows_done neighbours still fun _ last => ⟨last, ?_⟩
      rintro _ ⟨⟩ path mem
      exact (List.mem_append.mp mem).elim (reported _ rfl path) (others _ rfl path)
    · rintro failure _ _ ⟨still, -⟩
      exact still.reported_error failure

end Site

section Generate

variable {sources package output : Path} {fileName : Text} {options : Options}
  (site : Site tree sources (Path.absolute tree.currentPath package)
    (Path.absolute tree.currentPath output) fileName places)
  (neighbours : Neighbours (Targets tree (Path.absolute tree.currentPath package)
    (Path.absolute tree.currentPath output) fileName) others places)
  (due : Due tree sources (Path.absolute tree.currentPath package) fileName [] options)

include site neighbours due

-- In company the package is made as it is alone.
theorem follows_generate (levels : Nat)
    (abreast : Abreast tree (Targets tree (Path.absolute tree.currentPath package)
      (Path.absolute tree.currentPath output) fileName) places left now) :
    Follows (Targets tree (Path.absolute tree.currentPath package)
        (Path.absolute tree.currentPath output) fileName) others
      (Reported tree (Path.absolute tree.currentPath package)
        (Path.absolute tree.currentPath output) fileName places)
      (generate levels package output options) left now := by
  have same {grown : FileTree} (more : Extends places tree grown) (path : Path) :
      grown.absolute path = tree.absolute path := by
    simp only [FileTree.absolute, FileTree.currentPath, more.grows.current]
  have looks {now : FileTree} (also : Abreast tree (Targets tree
      (Path.absolute tree.currentPath package) (Path.absolute tree.currentPath output) fileName)
      places left now) (path : Path) :=
    follows_look neighbours also
      (g := fun tree => (tree.absolute path).mapError (Failure.io path)) fun last still => by
        rw [same still.grown, same still.leftGrown]
  refine follows_bind neighbours abreast (looks abreast package)
    (fun whole _ known _ still => ?_) fun failure _ still => still.reported_error failure
  refine follows_bind neighbours still (looks still output)
    (fun goal _ goalKnown _ last => ?_) fun failure _ still => still.reported_error failure
  rw [same abreast.leftGrown] at known goalKnown
  obtain ⟨-, rfl⟩ := of_absolute known
  obtain ⟨-, rfl⟩ := of_absolute goalKnown
  exact follows_generateWithin site neighbours levels due last

end Generate

end CallSchema.Stepwise
