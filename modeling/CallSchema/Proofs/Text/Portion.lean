import CallSchema.Proofs.Text.Lines
import Mathlib.Data.List.Flatten

set_option autoImplicit false

namespace CallSchema.Text

open scoped List

variable {s t : Text} {ls : List Text}

theorem utf8Length_add_le (portion : s <+ t) :
    utf8Length s + t.length ≤ utf8Length t + s.length := by
  induction portion with
  | slnil => exact Nat.le_refl _
  | cons c _ ih =>
    have visible := c.utf8Size_pos
    simp only [utf8Length, List.length_cons]
    omega
  | cons_cons c _ ih =>
    simp only [utf8Length, List.length_cons]
    omega

theorem utf8Length_lt (portion : s <+ t) (shorter : s.length < t.length) :
    utf8Length s < utf8Length t := by
  have := utf8Length_add_le portion
  omega

theorem trimStart_sublist (t : Text) : trimStart t <+ t := List.dropWhile_sublist isBlank

theorem trimEnd_sublist (t : Text) : trimEnd t <+ t := by
  have backwards := trimStart_sublist t.reverse
  rw [← List.reverse_sublist, List.reverse_reverse] at backwards
  exact backwards

theorem trim_sublist (t : Text) : trim t <+ t :=
  (trimEnd_sublist _).trans (trimStart_sublist t)

def ended (ls : List Text) : Text := ls.flatMap (· ++ ['\n'])

@[simp] theorem ended_append (ls ks : List Text) : ended (ls ++ ks) = ended ls ++ ended ks :=
  List.flatMap_append

theorem ended_cons (l : Text) (ls : List Text) : ended (l :: ls) = l ++ '\n' :: ended ls := by
  simp [ended]

theorem ended_singleton (l : Text) : ended [l] = l ++ ['\n'] := by simp [ended]

theorem ended_filter_sublist (keep : Text → Bool) (ls : List Text) :
    ended (ls.filter keep) <+ ended ls :=
  List.filter_sublist.flatMap _

theorem ended_trimEnd_sublist (ls : List Text) : ended (ls.map trimEnd) <+ ended ls := by
  rw [ended, List.flatMap_map]
  exact List.Sublist.flatMap_right ls fun l _ => (trimEnd_sublist l).append_right ['\n']

theorem joinLines_append_newline (some : ls ≠ []) : joinLines ls ++ ['\n'] = ended ls := by
  induction ls with
  | nil => exact absurd rfl some
  | cons l rest ih =>
    by_cases only : rest = []
    · rw [only, joinLines_singleton, ended_singleton]
    · rw [joinLines_cons only, ended_cons, ← ih only, List.append_assoc, List.cons_append]

theorem ended_lines_sublist (t : Text) : ended (lines t) <+ t ++ ['\n'] := by
  induction t using lines.induct with
  | case1 => exact List.nil_sublist _
  | case2 t ih =>
    rw [lines, ended_cons]
    exact ih.cons_cons '\n'
  | case3 t ih =>
    rw [lines, ended_cons]
    exact (ih.cons_cons '\n').cons '\r'
  | case4 c t newline ret ih =>
    rw [lines_cons_of_ne newline fun same rest tail => ret rest same tail]
    cases found : lines t with
    | nil =>
      rw [addToFirst, ended_singleton]
      exact (List.sublist_append_right t ['\n']).cons_cons c
    | cons first rest =>
      rw [found, ended_cons] at ih
      rw [addToFirst, ended_cons]
      exact ih.cons_cons c

theorem joinLines_sublist (portion : ended ls <+ ended (lines t)) : joinLines ls <+ t := by
  by_cases none : ls = []
  · rw [none]
    exact List.nil_sublist t
  · rw [← List.append_sublist_append_right ['\n'], joinLines_append_newline none]
    exact portion.trans (ended_lines_sublist t)

end CallSchema.Text
