import CallSchema.Text.Basic
import Mathlib.Data.List.Infix

set_option autoImplicit false

namespace CallSchema.Text

@[simp] theorem stripStart?_append (start t : Text) : stripStart? start (start ++ t) = some t := by
  induction start with
  | nil => rfl
  | cons s start ih => simp [stripStart?, ih]

theorem stripStart?_eq_some_iff {start t rest : Text} :
    stripStart? start t = some rest ↔ t = start ++ rest := by
  constructor
  · exact append_of_stripStart?
  · rintro rfl
    exact stripStart?_append start rest

@[simp] theorem stripStart?_cons_self (c : Char) (start t : Text) :
    stripStart? (c :: start) (c :: t) = stripStart? start t := by
  simp [stripStart?]

theorem stripStart?_cons_of_ne {c d : Char} (h : c ≠ d) (start t : Text) :
    stripStart? (c :: start) (d :: t) = none := by
  simp [stripStart?, h]

theorem stripStart?_eq_none_iff {start t : Text} :
    stripStart? start t = none ↔ ∀ rest, t ≠ start ++ rest := by
  rw [Option.eq_none_iff_forall_ne_some]
  simp only [ne_eq, stripStart?_eq_some_iff]

@[simp] theorem stripEnd?_append (t stop : Text) : stripEnd? stop (t ++ stop) = some t := by
  simp [stripEnd?]

theorem stripEnd?_append_of_ne_nil {t : Text} (visible : t ≠ []) (mark : Char) (s : Text) :
    stripEnd? [mark] (s ++ t) = (stripEnd? [mark] t).map (s ++ ·) := by
  obtain ⟨first, last, rfl⟩ := (List.eq_nil_or_concat' t).resolve_left visible
  by_cases same : mark = last
  · subst same
    rw [← List.append_assoc, stripEnd?_append, stripEnd?_append, Option.map_some]
  · simp [stripEnd?, stripStart?, same]

@[simp] theorem between?_append (start inner stop : Text) :
    between? start stop (start ++ (inner ++ stop)) = some inner := by
  simp [between?]

theorem splitFirst?_cons_of_none {mark t : Text} {c : Char} (h : stripStart? mark (c :: t) = none) :
    splitFirst? mark (c :: t) =
      (splitFirst? mark t).map fun parts => (c :: parts.1, parts.2) := by
  simp [splitFirst?, h]

theorem splitFirst?_append_self (mark after : Text) (h : mark ≠ []) :
    splitFirst? mark (mark ++ after) = some ([], after) := by
  cases mark with
  | nil => exact absurd rfl h
  | cons m mark =>
    have found : stripStart? (m :: mark) (m :: (mark ++ after)) = some after :=
      stripStart?_append (m :: mark) after
    rw [List.cons_append, splitFirst?, found]

theorem splitFirst?_singleton {mark : Char} {before : Text} (h : mark ∉ before) (after : Text) :
    splitFirst? [mark] (before ++ mark :: after) = some (before, after) := by
  induction before with
  | nil => exact splitFirst?_append_self [mark] after (by simp)
  | cons c before ih =>
    have other : mark ≠ c := fun same => h (by simp [same])
    have rest := ih fun mem => h (by simp [mem])
    rw [List.cons_append, splitFirst?_cons_of_none (stripStart?_cons_of_ne other _ _), rest]
    rfl

theorem splitFirst?_pair {a b : Char} (different : a ≠ b) {before : Text}
    (h : ¬ [a, b] <:+: before) (after : Text) :
    splitFirst? [a, b] (before ++ a :: b :: after) = some (before, after) := by
  induction before with
  | nil => exact splitFirst?_append_self [a, b] after (by simp)
  | cons c before ih =>
    have rest := ih fun inside => h (inside.trans (List.suffix_cons c before).isInfix)
    have missing : stripStart? [a, b] (c :: (before ++ a :: b :: after)) = none := by
      rw [stripStart?_eq_none_iff]
      intro tail whole
      cases before with
      | nil =>
        simp only [List.nil_append, List.cons_append, List.cons.injEq] at whole
        exact different whole.2.1
      | cons d before =>
        simp only [List.nil_append, List.cons_append, List.cons.injEq] at whole
        obtain ⟨rfl, rfl, -⟩ := whole
        exact h ⟨[], before, rfl⟩
    rw [List.cons_append, splitFirst?_cons_of_none missing, rest]
    rfl

theorem splitFirst?_eq_none {mark : Char} {t : Text} (h : mark ∉ t) :
    splitFirst? [mark] t = none := by
  induction t with
  | nil => rfl
  | cons c t ih =>
    have other : mark ≠ c := fun same => h (by simp [same])
    have rest := ih fun mem => h (by simp [mem])
    rw [splitFirst?_cons_of_none (stripStart?_cons_of_ne other _ _), rest]
    rfl

theorem not_mem_of_splitFirst?_eq_none {mark : Char} {t : Text} (h : splitFirst? [mark] t = none) :
    mark ∉ t := by
  intro mem
  obtain ⟨before, after, rfl, plain⟩ := List.eq_append_cons_of_mem mem
  rw [splitFirst?_singleton plain] at h
  cases h

theorem splitLast?_singleton {mark : Char} {after : Text} (h : mark ∉ after) (before : Text) :
    splitLast? [mark] (before ++ mark :: after) = some (before, after) := by
  have backwards : (before ++ mark :: after).reverse = after.reverse ++ mark :: before.reverse := by
    simp
  have h' : mark ∉ after.reverse := fun mem => h (List.mem_reverse.mp mem)
  simp only [splitLast?, List.reverse_singleton]
  rw [backwards, splitFirst?_singleton h']
  simp

theorem not_infix_of_splitFirst? {mark t before after : Text} (marked : mark ≠ [])
    (h : splitFirst? mark t = some (before, after)) : ¬ mark <:+: before := by
  induction t generalizing before with
  | nil =>
    obtain ⟨rest, -, split⟩ := Option.map_eq_some_iff.mp h
    cases split
    simpa using marked
  | cons c t ih =>
    unfold splitFirst? at h
    split at h
    · cases h
      simpa using marked
    · next missing =>
      obtain ⟨⟨earlier, rest⟩, later, split⟩ := Option.map_eq_some_iff.mp h
      cases split
      intro inside
      rcases List.infix_cons_iff.mp inside with ⟨tail, first⟩ | inside
      · -- The mark would stand at the very beginning of the text.
        have whole := append_of_splitFirst? later
        rw [stripStart?_eq_none_iff] at missing
        refine missing (tail ++ (mark ++ rest)) ?_
        rw [whole, ← List.append_assoc, first, List.cons_append, List.append_assoc]
      · exact ih later inside

theorem of_splitLast?_singleton {mark : Char} {t before after : Text}
    (h : splitLast? [mark] t = some (before, after)) :
    t = before ++ mark :: after ∧ mark ∉ after := by
  obtain ⟨⟨last, first⟩, found, split⟩ := Option.map_eq_some_iff.mp h
  cases split
  have whole := congrArg List.reverse (append_of_splitFirst? found)
  have plain : ¬ [mark] <:+: last := not_infix_of_splitFirst? (by simp) found
  constructor
  · simpa using whole
  · intro mem
    apply plain
    simpa [List.singleton_infix_iff] using mem

theorem append_of_stripStartIgnoringCase? {start t rest : Text}
    (h : stripStartIgnoringCase? start t = some rest) :
    ∃ word, t = word ++ rest ∧ word.map Char.toLower = start.map Char.toLower := by
  induction start generalizing t with
  | nil =>
    cases h
    exact ⟨[], rfl, rfl⟩
  | cons s start ih =>
    cases t with
    | nil => cases h
    | cons c t =>
      rw [stripStartIgnoringCase?] at h
      split at h
      · next same =>
        obtain ⟨word, rfl, lower⟩ := ih h
        exact ⟨c :: word, rfl, by simp [lower, same]⟩
      · cases h

theorem stripStartIgnoringCase?_append (start rest : Text) :
    stripStartIgnoringCase? start (start ++ rest) = some rest := by
  induction start with
  | nil => rfl
  | cons s start ih => rw [List.cons_append, stripStartIgnoringCase?, if_pos rfl, ih]

theorem unquote?_append {marks : List Char} {mark : Char} {inner : Text}
    (known : mark ∈ marks) : unquote? marks (mark :: (inner ++ [mark])) = some inner := by
  induction marks with
  | nil => simp at known
  | cons first marks ih =>
    by_cases same : first = mark
    · subst same
      have found := between?_append [first] inner [first]
      simp only [List.cons_append, List.nil_append] at found
      simp [unquote?, found]
    · have missing : between? [first] [first] (mark :: (inner ++ [mark])) = none := by
        simp [between?, stripStart?_cons_of_ne same]
      have later : mark ∈ marks := by
        rcases List.mem_cons.mp known with rfl | later
        · exact absurd rfl same
        · exact later
      have rest := ih later
      simp only [unquote?] at rest
      simp [unquote?, missing, rest]

theorem exists_of_unquote? {marks : List Char} {t inner : Text}
    (h : unquote? marks t = some inner) : ∃ mark ∈ marks, t = mark :: (inner ++ [mark]) := by
  obtain ⟨mark, known, found⟩ := List.exists_of_findSome?_eq_some h
  exact ⟨mark, known, by simpa using append_of_between? found⟩

theorem unquote?_eq_none {marks : List Char} {t : Text} (h : ∀ c ∈ t.head?, c ∉ marks) :
    unquote? marks t = none := by
  rw [unquote?, List.findSome?_eq_none_iff]
  intro mark known
  cases t with
  | nil => rfl
  | cons c t =>
    have other : mark ≠ c := fun same => h c rfl (same ▸ known)
    simp [between?, stripStart?_cons_of_ne other]

theorem pieces_ne_nil (mark : Char) (t : Text) : pieces mark t ≠ [] := by
  cases t with
  | nil => simp [pieces]
  | cons c t =>
    by_cases same : c = mark
    · simp [pieces, same]
    · rw [pieces, if_neg same]
      cases pieces mark t with
      | nil => simp [addToFirst]
      | cons first rest => simp [addToFirst]

theorem pieces_of_not_mem {mark : Char} {t : Text} (h : mark ∉ t) : pieces mark t = [t] := by
  induction t with
  | nil => rfl
  | cons c t ih =>
    have other : c ≠ mark := fun same => h (by simp [same])
    rw [pieces, if_neg other, ih fun mem => h (by simp [mem])]
    rfl

theorem pieces_append_mark (mark : Char) (s t : Text) :
    pieces mark (s ++ mark :: t) = pieces mark s ++ pieces mark t := by
  induction s with
  | nil => simp [pieces]
  | cons c s ih =>
    by_cases same : c = mark
    · simp [pieces, same, ih]
    · rw [List.cons_append, pieces, if_neg same, ih, pieces, if_neg same]
      cases known : pieces mark s with
      | nil => exact absurd known (pieces_ne_nil mark s)
      | cons first rest => rfl

theorem not_mem_of_mem_pieces {mark : Char} {t piece : Text} (h : piece ∈ pieces mark t) :
    mark ∉ piece := by
  induction t generalizing piece with
  | nil =>
    rw [List.mem_singleton.mp h]
    exact List.not_mem_nil
  | cons c t ih =>
    by_cases same : c = mark
    · rw [pieces, if_pos same] at h
      rcases List.mem_cons.mp h with rfl | later
      · exact List.not_mem_nil
      · exact ih later
    · rw [pieces, if_neg same] at h
      cases known : pieces mark t with
      | nil => exact absurd known (pieces_ne_nil mark t)
      | cons first rest =>
        rw [known] at h ih
        rcases List.mem_cons.mp h with rfl | later
        · have earlier : mark ∉ first := ih (by simp)
          simp [earlier, Ne.symm same]
        · exact ih (by simp [later])

end CallSchema.Text
