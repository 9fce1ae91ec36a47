import CallSchema.DocMode
import CallSchema.Proofs.FileTree.Path

set_option autoImplicit false

namespace CallSchema.DocMode

open CallSchema.Path (IsName)

variable {mode other : DocMode} {package second : Text}

-- What stands before the name of a package in the name of its artifact.
def mark : DocMode → Text
  | rawDocstring => []
  | mode => mode.name ++ ['_']

theorem artifactName_eq (mode : DocMode) (package : Text) :
    mode.artifactName package = mode.mark ++ (package ++ ".json".toList) := by
  cases mode with
  | rawDocstring => rfl
  | concise => exact List.append_cons _ _ _
  | mediumDetail => exact List.append_cons _ _ _

theorem isName_artifactName (mode : DocMode) (named : IsName package) :
    IsName (mode.artifactName package) := by
  have free : '/' ∉ mode.mark := by cases mode <;> decide
  have long : 5 ≤ (mode.artifactName package).length := by
    have ending : ".json".toList.length = 5 := rfl
    rw [artifactName_eq, List.length_append, List.length_append, ending]
    omega
  refine ⟨?_, ?_, ?_, ?_⟩
  · intro same
    simp [same] at long
  · rw [artifactName_eq]
    simp [free, named.plain]
  · intro same
    simp [same] at long
  · intro same
    simp [same] at long

theorem artifactName_ne_init (mode : DocMode) (package : Text) :
    mode.artifactName package ≠ "__init__.py".toList := by
  intro same
  have last := congrArg List.getLast? ((mode.artifactName_eq package).symm.trans same)
  simp at last

-- The package is compiled from its docstrings, and its name is the one that the other package's
-- artifact has in an alternate mode.
def Shadows (mode : DocMode) (package : Text) (other : DocMode) (second : Text) : Prop :=
  mode = .rawDocstring ∧ other ≠ .rawDocstring ∧ package = other.name ++ '_' :: second

theorem artifactName_inj : mode.artifactName package = other.artifactName second ↔
    mode.mark ++ package = other.mark ++ second := by
  rw [artifactName_eq, artifactName_eq, ← List.append_assoc, ← List.append_assoc,
    List.append_left_inj]

theorem artifactName_eq_iff (differ : package ≠ second) :
    mode.artifactName package = other.artifactName second ↔
      Shadows mode package other second ∨ Shadows other second mode package := by
  rw [artifactName_inj]
  have marked : ∀ mode : DocMode, mode ≠ .rawDocstring → ∀ name : Text,
      mode.mark ++ name = mode.name ++ '_' :: name := by
    intro mode alternate name
    cases mode with
    | rawDocstring => exact absurd rfl alternate
    | concise => exact (List.append_cons _ _ _).symm
    | mediumDetail => exact (List.append_cons _ _ _).symm
  by_cases raw : mode = .rawDocstring
  · subst raw
    by_cases otherRaw : other = .rawDocstring
    · subst otherRaw
      simp [mark, Shadows, differ]
    · rw [marked other otherRaw]
      simp [mark, Shadows, otherRaw]
  · by_cases otherRaw : other = .rawDocstring
    · subst otherRaw
      rw [marked mode raw]
      simp [mark, Shadows, raw, eq_comm]
    · have none : ¬(Shadows mode package other second ∨ Shadows other second mode package) := by
        simp [Shadows, raw, otherRaw]
      refine iff_of_false ?_ none
      intro same
      by_cases modes : mode = other
      · rw [modes, List.append_right_inj] at same
        exact differ same
      · -- The two alternate modes begin with different letters.
        have concise : DocMode.concise.mark.head? = some 'c' := by decide
        have medium : DocMode.mediumDetail.mark.head? = some 'm' := by decide
        have first := congrArg List.head? same
        rw [List.head?_append, List.head?_append] at first
        cases mode with
        | rawDocstring => exact raw rfl
        | concise =>
          cases other with
          | rawDocstring => exact otherRaw rfl
          | concise => exact modes rfl
          | mediumDetail => simp [concise, medium] at first
        | mediumDetail =>
          cases other with
          | rawDocstring => exact otherRaw rfl
          | concise => simp [concise, medium] at first
          | mediumDetail => exact modes rfl

end CallSchema.DocMode
