import CallSchema.Text.Basic

set_option autoImplicit false

namespace CallSchema.TypeHint

def depthStep (c : Char) : Int :=
  if c = '[' ∨ c = '(' then 1 else if c = ']' ∨ c = ')' then -1 else 0

-- The pieces between the commas at depth 0. The depth may become negative.
def cut (depth : Int) : Text → List Text
  | [] => [[]]
  | c :: t =>
    if c = ',' ∧ depth = 0 then [] :: cut 0 t
    else Text.addToFirst c (cut (depth + depthStep c) t)

def parts (t : Text) : List Text := ((cut 0 t).map Text.trim).filter (· ≠ [])

def withoutParentheses (t : Text) : Text :=
  match Text.between? ['('] [')'] (Text.trim t) with
  | some inner => Text.trim inner
  | none => Text.trim t

def isNoneName (t : Text) : Bool :=
  Text.sameIgnoringCase t "none" || Text.sameIgnoringCase t "nonetype"

def givenParts (t : Text) : List Text := (parts t).filter (!isNoneName ·)

theorem length_le_of_mem_addToFirst {c : Char} {ls : List Text} {n : Nat}
    (bound : ∀ l ∈ ls, l.length ≤ n) : ∀ l ∈ Text.addToFirst c ls, l.length ≤ n + 1 := by
  cases ls with
  | nil => simp [Text.addToFirst]
  | cons first rest =>
    intro l hl
    rcases List.mem_cons.mp hl with rfl | hl
    · simpa using bound first (by simp)
    · exact Nat.le_succ_of_le (bound l (by simp [hl]))

theorem length_le_of_mem_cut (depth : Int) (t : Text) :
    ∀ piece ∈ cut depth t, piece.length ≤ t.length := by
  induction t generalizing depth with
  | nil => simp [cut]
  | cons c t ih =>
    unfold cut
    split
    · intro piece hp
      rcases List.mem_cons.mp hp with rfl | hp
      · simp
      · exact Nat.le_succ_of_le (ih 0 piece hp)
    · exact length_le_of_mem_addToFirst (ih _)

theorem length_le_of_mem_parts {t part : Text} (h : part ∈ parts t) : part.length ≤ t.length := by
  obtain ⟨piece, hp, rfl⟩ := List.mem_map.mp (List.mem_filter.mp h).1
  exact Nat.le_trans (Text.length_trim_le piece) (length_le_of_mem_cut 0 t piece hp)

theorem length_le_of_mem_givenParts {t part : Text} (h : part ∈ givenParts t) :
    part.length ≤ t.length :=
  length_le_of_mem_parts (List.mem_filter.mp h).1

end CallSchema.TypeHint
