import CallSchema.Proofs.FileTree.Change
import CallSchema.Proofs.FileTree.Place
import CallSchema.Proofs.FileTree.Spelling

set_option autoImplicit false

namespace CallSchema

namespace FileTree

open CallSchema.Path (IsName)

def Alike {α : Type} (Related : FileTree → FileTree → Prop) (first second : α × FileTree) : Prop :=
  second.1 = first.1 ∧ Related first.2 second.2

variable {tree other : FileTree} {path second : Path} {Related : FileTree → FileTree → Prop}

theorem withoutClosingSlashes_spelling (path : Path) :
    (withoutClosingSlashes path).isAbsolute = path.isAbsolute ∧
      (withoutClosingSlashes path).names = path.names := by
  have kept (slashes rest : Text) (all : ∀ c ∈ slashes, c = '/') :
      Path.names ⟨rest.reverse ++ slashes⟩ = Path.names ⟨rest.reverse⟩ := by
    induction slashes using List.reverseRecOn with
    | nil => simp
    | append_singleton slashes c ih =>
      rw [all c (by simp), ← List.append_assoc, Path.names_closed]
      exact ih fun c mem => all c (by simp [mem])
  have cut := List.takeWhile_append_dropWhile (p := fun c => decide (c = '/'))
    (l := path.text.reverse)
  have slashes : ∀ c ∈ (path.text.reverse.takeWhile fun c => decide (c = '/')).reverse,
      c = '/' := by
    intro c mem
    simpa using List.mem_takeWhile_imp (List.mem_reverse.mp mem)
  unfold withoutClosingSlashes
  generalize path.text.reverse.dropWhile (fun c => decide (c = '/')) = backwards at cut
  cases backwards with
  | nil => exact ⟨rfl, rfl⟩
  | cons c rest =>
    have whole : path.text = (c :: rest).reverse ++
        (path.text.reverse.takeWhile fun c => decide (c = '/')).reverse := by
      rw [← List.reverse_append, cut, List.reverse_reverse]
    constructor
    · exact Path.isAbsolute_of_prefix_text ⟨_, whole.symm⟩ (by simp)
    · have names := kept _ (c :: rest) slashes
      rwa [← whole, eq_comm] at names

namespace AgreeOn

variable (agree : AgreeOn tree other path)

include agree

theorem of_prefix (absolute : second.isAbsolute = path.isAbsolute)
    (names : second.names <+: path.names) : AgreeOn tree other second where
  current := agree.current
  same before shorter := by
    have start : tree.origin second = tree.origin path := by
      simp only [FileTree.origin, absolute]
    rw [start]
    exact agree.same before (shorter.trans names)

theorem withoutClosingSlashes : AgreeOn tree other (FileTree.withoutClosingSlashes path) :=
  have spelling := withoutClosingSlashes_spelling path
  agree.of_prefix spelling.1 (spelling.2 ▸ List.prefix_refl _)

theorem same_segments {before : List Text} (shorter : before <+: path.segments) :
    other.find? (walk (tree.origin path) before) = tree.find? (walk (tree.origin path) before) := by
  have kept := agree.same _ (shorter.filter fun name => name ≠ [] ∧ name ≠ ['.'])
  rwa [walk_filter] at kept

theorem locateParent : other.locateParent path = tree.locateParent path := by
  have shorter : path.segments.dropLast <+: path.segments := List.dropLast_prefix _
  have same : path.segments.dropLast.foldlM other.step (tree.origin path) =
      path.segments.dropLast.foldlM tree.step (tree.origin path) :=
    foldlM_step_congr fun before more => agree.same_segments (more.trans shorter)
  simp only [FileTree.locateParent, agree.origin, same]
  cases reached : path.segments.dropLast.foldlM tree.step (tree.origin path) with
  | error cause => rfl
  | ok directory =>
    have there := agree.same_segments shorter
    rw [← eq_walk_of_foldlM_step reached] at there
    simp only [bind, Except.bind, there]

theorem find?_of_locateParent {directory : Location} {name : Text}
    (parent : tree.locateParent path = .ok (directory, name)) (moves : ¬(name = [] ∨ name = ['.']))
    (inner : name ≠ ['.', '.']) :
    other.find? (directory ++ [name]) = tree.find? (directory ++ [name]) := by
  obtain ⟨reached, -, segments⟩ := of_locateParent parent
  have last : walk (tree.origin path) path.segments = directory ++ [name] := by
    rw [segments, walk_append, ← eq_walk_of_foldlM_step reached]
    simp [walk, move, moves, inner]
  rw [← last]
  exact agree.same_segments (List.prefix_refl _)

theorem target : other.target path = tree.target path := by
  have stripped := agree.withoutClosingSlashes
  simp only [FileTree.target, stripped.locateParent]
  cases parent : tree.locateParent (FileTree.withoutClosingSlashes path) with
  | error cause => rfl
  | ok found =>
    obtain ⟨directory, name⟩ := found
    simp only [bind, Except.bind]
    split
    · rfl
    split
    · rfl
    · next proper =>
      simp only [not_or] at proper
      rw [stripped.find?_of_locateParent parent (not_or.mpr ⟨proper.2.1, proper.2.2.1⟩)
        proper.2.2.2]

theorem write (content : Content) (start : Related tree other)
    (kept : ∀ location, tree.target path = .ok location →
      Related (tree.put location (.file content)) (other.put location (.file content))) :
    Alike Related (FileTree.write path content tree) (FileTree.write path content other) := by
  unfold FileTree.write
  rw [agree.target]
  cases found : tree.target path with
  | error cause => exact ⟨rfl, start⟩
  | ok location => exact ⟨rfl, kept location found⟩

theorem copy {source : Path} (start : Related tree other)
    (opened : ∀ location, tree.target path = .ok location →
      AgreeOn (tree.put location (.file (.text []))) (other.put location (.file (.text [])))
        source)
    (kept : ∀ location content, tree.target path = .ok location →
      Related (tree.put location (.file content)) (other.put location (.file content))) :
    Alike Related (FileTree.copy source path tree) (FileTree.copy source path other) := by
  unfold FileTree.copy
  rw [agree.target]
  cases found : tree.target path with
  | error cause => exact ⟨rfl, start⟩
  | ok location =>
    simp only [(opened location found).read]
    cases (tree.put location (.file (.text []))).read source with
    | error cause => exact ⟨rfl, kept location _ found⟩
    | ok content =>
      have again := kept location content found
      refine ⟨rfl, ?_⟩
      simpa only [put, Table.put_put] using again

end AgreeOn

end FileTree

end CallSchema
