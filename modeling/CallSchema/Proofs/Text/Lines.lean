import CallSchema.Proofs.Text.Strip
import CallSchema.Proofs.Text.Trim

set_option autoImplicit false

namespace CallSchema.Text

def IsLine (l : Text) : Prop := '\n' ∉ l ∧ l.getLast? ≠ some '\r'

instance (l : Text) : Decidable (IsLine l) := inferInstanceAs (Decidable (_ ∧ _))

theorem isLine_trimEnd {l : Text} (h : '\n' ∉ l) : IsLine (trimEnd l) := by
  constructor
  · intro mem
    obtain ⟨s, -, whole⟩ := exists_trimEnd l
    exact h (by rw [whole]; simp [mem])
  · intro last
    have visible := getLast?_of_trimEnd_eq_self (trimEnd_trimEnd l) '\r' last
    exact absurd visible (by decide)

theorem isLine_trim {l : Text} (h : '\n' ∉ l) : IsLine (trim l) := by
  have short := isLine_trimEnd fun mem => h (mem_of_mem_trim mem)
  rwa [trimEnd_trim] at short

theorem IsLine.append {s l : Text} (first : '\n' ∉ s) (h : IsLine l) (visible : l ≠ []) :
    IsLine (s ++ l) := by
  refine ⟨?_, ?_⟩
  · simp [first, h.1]
  · rcases List.eq_nil_or_concat l with rfl | ⟨rest, c, rfl⟩
    · exact absurd rfl visible
    · have last := h.2
      simp only [List.concat_eq_append, List.getLast?_concat] at last
      rw [List.concat_eq_append, ← List.append_assoc, List.getLast?_concat]
      exact last

@[simp] theorem joinLines_nil : joinLines [] = [] := rfl

@[simp] theorem joinLines_singleton (l : Text) : joinLines [l] = l := by
  simp [joinLines]

theorem joinLines_cons {rest : List Text} (h : rest ≠ []) (l : Text) :
    joinLines (l :: rest) = l ++ '\n' :: joinLines rest := by
  cases rest with
  | nil => exact absurd rfl h
  | cons second rest => simp [joinLines, List.intercalate]

theorem joinLines_concat {ls : List Text} (h : ls ≠ []) (l : Text) :
    joinLines (ls ++ [l]) = joinLines ls ++ '\n' :: l := by
  induction ls with
  | nil => exact absurd rfl h
  | cons first rest ih =>
    by_cases only : rest = []
    · subst only
      simp [joinLines, List.intercalate]
    · rw [List.cons_append, joinLines_cons (by simp), ih only, joinLines_cons only, List.append_assoc,
        List.cons_append]

theorem joinLines_pieces (t : Text) : joinLines (pieces '\n' t) = t := by
  induction t with
  | nil => rfl
  | cons c t ih =>
    by_cases newline : c = '\n'
    · rw [pieces, if_pos newline, joinLines_cons (pieces_ne_nil '\n' t), ih, newline, List.nil_append]
    · rw [pieces, if_neg newline]
      cases known : pieces '\n' t with
      | nil => exact absurd known (pieces_ne_nil '\n' t)
      | cons first rest =>
        rw [known] at ih
        by_cases only : rest = []
        · subst only
          rw [joinLines_singleton] at ih
          rw [addToFirst, joinLines_singleton, ih]
        · rw [joinLines_cons only] at ih
          rw [addToFirst, joinLines_cons only, List.cons_append, ih]

theorem trim_joinLines_nil_cons (ls : List Text) :
    trim (joinLines ([] :: ls)) = trim (joinLines ls) := by
  by_cases none : ls = []
  · rw [none]
    rfl
  · rw [joinLines_cons none]
    exact trim_blank_append (s := ['\n']) rfl _

theorem trim_joinLines_concat_nil (ls : List Text) :
    trim (joinLines (ls ++ [[]])) = trim (joinLines ls) := by
  by_cases none : ls = []
  · rw [none]
    rfl
  · rw [joinLines_concat none, trim_append_blank _ rfl]

theorem trimEnd_joinLines {ls : List Text} (h : ∀ l ∈ ls.getLast?, l ≠ [] ∧ trimEnd l = l) :
    trimEnd (joinLines ls) = joinLines ls := by
  rcases List.eq_nil_or_concat ls with rfl | ⟨before, l, rfl⟩
  · rfl
  rw [List.concat_eq_append] at h ⊢
  obtain ⟨visible, last⟩ := h l (by simp)
  by_cases only : before = []
  · rw [only, List.nil_append, joinLines_singleton, last]
  · have whole := trimEnd_append_eq_self visible last (joinLines before ++ ['\n'])
    rw [joinLines_concat only]
    simpa using whole

def withoutReturn (l : Text) : Text := if l.getLast? = some '\r' then l.dropLast else l

theorem withoutReturn_of_isLine {l : Text} (h : IsLine l) : withoutReturn l = l := by
  simp [withoutReturn, h.2]

theorem trim_withoutReturn (l : Text) : trim (withoutReturn l) = trim l := by
  unfold withoutReturn
  split
  · next last =>
    obtain ⟨rest, rfl⟩ := List.getLast?_eq_some_iff.mp last
    rw [List.dropLast_concat, trim_append_blank rest (by decide)]
  · rfl

theorem lines_cons_newline (t : Text) : lines ('\n' :: t) = [] :: lines t := by
  rw [lines]

theorem lines_cons_of_ne {c : Char} {t : Text} (h : c ≠ '\n')
    (inner : c = '\r' → ∀ rest, t ≠ '\n' :: rest) : lines (c :: t) = addToFirst c (lines t) := by
  rw [lines]
  · rintro rfl
    exact h rfl
  · intro rest same tail
    exact inner same rest tail

theorem lines_append_newline {l : Text} (h : '\n' ∉ l) (t : Text) :
    lines (l ++ '\n' :: t) = withoutReturn l :: lines t := by
  induction l with
  | nil => exact lines_cons_newline t
  | cons c l ih =>
    have other : c ≠ '\n' := fun same => h (by simp [same])
    have rest := ih fun mem => h (by simp [mem])
    rw [List.cons_append]
    by_cases last : l = []
    · subst last
      by_cases ret : c = '\r'
      · subst ret
        rw [List.nil_append, lines]
        rfl
      · rw [lines_cons_of_ne other (fun same => absurd same ret), rest]
        simp [addToFirst, withoutReturn, ret]
    · obtain ⟨d, k, rfl⟩ := List.exists_cons_of_ne_nil last
      have follows : ∀ rest, d :: k ++ '\n' :: t ≠ '\n' :: rest := by
        intro rest same
        rw [List.cons_append, List.cons.injEq] at same
        exact h (by simp [same.1])
      rw [lines_cons_of_ne other (fun _ => follows), rest]
      simp only [addToFirst, withoutReturn, List.getLast?_cons_cons]
      split <;> rfl

theorem lines_of_newline_not_mem {l : Text} (h : '\n' ∉ l) (visible : l ≠ []) : lines l = [l] := by
  induction l with
  | nil => exact absurd rfl visible
  | cons c l ih =>
    have other : c ≠ '\n' := fun same => h (by simp [same])
    have follows : ∀ rest, l ≠ '\n' :: rest := by
      rintro rest rfl
      exact h (by simp)
    rw [lines_cons_of_ne other (fun _ => follows)]
    by_cases last : l = []
    · subst last
      rfl
    · rw [ih (fun mem => h (by simp [mem])) last]
      rfl

theorem newline_not_mem_of_mem_lines {t l : Text} (h : l ∈ lines t) : '\n' ∉ l := by
  induction t using lines.induct generalizing l with
  | case1 => simp [lines] at h
  | case2 t ih =>
    rw [lines] at h
    rcases List.mem_cons.mp h with rfl | h
    · simp
    · exact ih h
  | case3 t ih =>
    rw [lines] at h
    rcases List.mem_cons.mp h with rfl | h
    · simp
    · exact ih h
  | case4 c t newline ret ih =>
    have other : c ≠ '\n' := newline
    rw [lines_cons_of_ne other (fun same rest tail => ret rest same tail)] at h
    cases ht : lines t with
    | nil =>
      rw [ht] at h
      obtain rfl : l = [c] := by simpa [addToFirst] using h
      simpa using Ne.symm other
    | cons first rest =>
      rw [ht] at h ih
      rcases List.mem_cons.mp h with rfl | h
      · simpa [Ne.symm other] using ih (l := first) (by simp)
      · exact ih (by simp [h])

theorem lines_joinLines_concat_nil {ls : List Text} (h : ∀ l ∈ ls, IsLine l) :
    lines (joinLines (ls ++ [[]])) = ls := by
  induction ls with
  | nil => rfl
  | cons l rest ih =>
    have line := h l (by simp)
    rw [List.cons_append, joinLines_cons (by simp), lines_append_newline line.1,
      withoutReturn_of_isLine line, ih fun k mem => h k (by simp [mem])]

theorem lines_joinLines {ls : List Text} (h : ∀ l ∈ ls, IsLine l) (last : ls.getLast? ≠ some []) :
    lines (joinLines ls) = ls := by
  induction ls with
  | nil => rfl
  | cons l rest ih =>
    have line := h l (by simp)
    by_cases only : rest = []
    · subst only
      rw [joinLines_singleton, lines_of_newline_not_mem line.1]
      rintro rfl
      simp at last
    · have later : rest.getLast? ≠ some [] := by
        rwa [← List.getLast?_cons_of_ne_nil only]
      rw [joinLines_cons only, lines_append_newline line.1, withoutReturn_of_isLine line,
        ih (fun k mem => h k (by simp [mem])) later]

theorem exists_lines_joinLines {ls : List Text} (h : ∀ l ∈ ls, IsLine l) :
    ∃ count, ls = lines (joinLines ls) ++ List.replicate count [] := by
  by_cases last : ls.getLast? = some []
  · obtain ⟨before, rfl⟩ := List.getLast?_eq_some_iff.mp last
    refine ⟨1, ?_⟩
    rw [lines_joinLines_concat_nil fun l mem => h l (by simp [mem])]
    rfl
  · exact ⟨0, by rw [lines_joinLines h last, List.replicate_zero, List.append_nil]⟩

def tidyLines (ls : List Text) : List Text := (ls.map trim).filter (· ≠ [])

theorem tidy_eq (t : Text) : tidy t = joinLines (tidyLines (lines t)) := rfl

@[simp] theorem tidyLines_nil : tidyLines [] = [] := rfl

theorem tidyLines_cons (l : Text) (ls : List Text) :
    tidyLines (l :: ls) = if trim l = [] then tidyLines ls else trim l :: tidyLines ls := by
  by_cases h : trim l = [] <;> simp [tidyLines, h]

theorem tidyLines_append (ls more : List Text) :
    tidyLines (ls ++ more) = tidyLines ls ++ tidyLines more := by
  simp [tidyLines]

theorem tidyLines_singleton {l : Text} (h : blank l = false) : tidyLines [l] = [trim l] := by
  have visible : trim l ≠ [] := by
    intro none
    rw [trim_eq_nil_iff, h] at none
    cases none
  rw [tidyLines_cons, if_neg visible, tidyLines_nil]

theorem mem_tidyLines {ls : List Text} {l : Text} :
    l ∈ tidyLines ls ↔ (∃ k ∈ ls, trim k = l) ∧ l ≠ [] := by
  simp [tidyLines]

theorem tidyLines_map {f : Text → Text} {ls : List Text} (h : ∀ l ∈ ls, trim (f l) = trim l) :
    tidyLines (ls.map f) = tidyLines ls := by
  have same : (ls.map f).map trim = ls.map trim := by
    rw [List.map_map]
    exact List.map_congr_left h
  rw [tidyLines, same, tidyLines]

theorem tidyLines_filter {keep : Text → Bool} {ls : List Text}
    (h : ∀ l ∈ ls, keep l = false → blank l = true) : tidyLines (ls.filter keep) = tidyLines ls := by
  induction ls with
  | nil => rfl
  | cons l ls ih =>
    have rest := ih fun k mem => h k (by simp [mem])
    cases kept : keep l with
    | true => rw [List.filter_cons_of_pos kept, tidyLines_cons, tidyLines_cons, rest]
    | false =>
      have gone : trim l = [] := trim_eq_nil_iff.mpr (h l (by simp) kept)
      rw [List.filter_cons_of_neg (by simp [kept]), rest, tidyLines_cons, if_pos gone]

theorem tidyLines_tidyLines (ls : List Text) : tidyLines (tidyLines ls) = tidyLines ls := by
  have fixed : (tidyLines ls).map trim = tidyLines ls := by
    refine (List.map_congr_left ?_).trans (List.map_id _)
    intro l mem
    obtain ⟨⟨k, -, rfl⟩, -⟩ := mem_tidyLines.mp mem
    exact trim_trim k
  rw [tidyLines, fixed, List.filter_eq_self]
  intro l mem
  simpa using (mem_tidyLines.mp mem).2

theorem tidyLines_lines_joinLines {ls : List Text} (h : ∀ l ∈ ls, '\n' ∉ l) :
    tidyLines (lines (joinLines ls)) = tidyLines ls := by
  induction ls with
  | nil => rfl
  | cons l rest ih =>
    have line := h l (by simp)
    by_cases only : rest = []
    · subst only
      rw [joinLines_singleton]
      by_cases visible : l = []
      · subst visible
        rfl
      · rw [lines_of_newline_not_mem line visible]
    · rw [joinLines_cons only, lines_append_newline line, tidyLines_cons, tidyLines_cons,
        trim_withoutReturn, ih fun k mem => h k (by simp [mem])]

theorem tidy_joinLines {ls : List Text} (h : ∀ l ∈ ls, '\n' ∉ l) :
    tidy (joinLines ls) = joinLines (tidyLines ls) := by
  rw [tidy_eq, tidyLines_lines_joinLines h]

theorem isLine_of_mem_tidyLines {ls : List Text} (h : ∀ l ∈ ls, '\n' ∉ l) :
    ∀ l ∈ tidyLines ls, IsLine l := by
  intro l mem
  obtain ⟨⟨k, hk, rfl⟩, -⟩ := mem_tidyLines.mp mem
  exact isLine_trim (h k hk)

theorem tidy_tidy (t : Text) : tidy (tidy t) = tidy t := by
  have plain : ∀ l ∈ tidyLines (lines t), IsLine l :=
    isLine_of_mem_tidyLines fun l => newline_not_mem_of_mem_lines
  rw [tidy_eq t, tidy_joinLines fun l mem => (plain l mem).1, tidyLines_tidyLines]

theorem lines_joinLines_tidyLines {ls : List Text} (h : ∀ l ∈ ls, '\n' ∉ l) :
    lines (joinLines (tidyLines ls)) = tidyLines ls := by
  refine lines_joinLines (isLine_of_mem_tidyLines h) ?_
  intro last
  exact (mem_tidyLines.mp (List.mem_of_getLast? last)).2 rfl

theorem lines_tidy (t : Text) : lines (tidy t) = tidyLines (lines t) := by
  rw [tidy_eq, lines_joinLines_tidyLines fun l => newline_not_mem_of_mem_lines]

end CallSchema.Text
