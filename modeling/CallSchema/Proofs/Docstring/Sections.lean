import CallSchema.Docstring.Reading
import CallSchema.Proofs.Docstring.Item
import Mathlib.Tactic.Common

set_option autoImplicit false

namespace CallSchema.Docstring

def Opens (base : Nat) (line : Text) : Prop := Text.blank line = false ∧ indentOf line ≤ base

theorem itemLines_cons_of_opens {base : Nat} {line : Text} (h : Opens base line) (rest : List Text) :
    itemLines base (line :: rest) =
      ([], (line, (itemLines base rest).1) :: (itemLines base rest).2) := by
  rw [itemLines, h.1, decide_eq_true h.2]
  rfl

theorem itemLines_append {base : Nat} {below : List Text} (inside : ∀ line ∈ below, ¬ Opens base line)
    (rest : List Text) :
    itemLines base (below ++ rest) =
      (below ++ (itemLines base rest).1, (itemLines base rest).2) := by
  induction below with
  | nil => rfl
  | cons line below ih =>
    have closed : ¬ (!Text.blank line && decide (indentOf line ≤ base)) = true := by
      simpa [Opens] using inside line (by simp)
    rw [List.cons_append, itemLines, ih fun k mem => inside k (by simp [mem])]
    exact if_neg closed

theorem sections_append {body : List Text} (inner : ∀ line ∈ body, isInner line = true)
    (rest : List Text) :
    sections (body ++ rest) = (body ++ (sections rest).1, (sections rest).2) := by
  induction body with
  | nil => rfl
  | cons line body ih =>
    rw [List.cons_append, sections, ih fun k mem => inner k (by simp [mem])]
    exact if_pos (inner line (by simp))

theorem sections_cons_of_title {line : Text} (outer : isInner line = false) {kind : Section}
    (title : sectionOf? line = some kind) (rest : List Text) :
    sections (line :: rest) = ([], (kind, (sections rest).1) :: (sections rest).2) := by
  simp only [sections, outer, Bool.false_eq_true, if_false, title]

section EmptyLines

theorem dedent_concat_nil (ls : List Text) : dedent (ls ++ [[]]) = dedent ls ++ [[]] := by
  have same : margin (ls ++ [[]]) = margin ls := by
    simp [margin]
  rw [dedent, same, List.map_append, dedent]
  rfl

theorem dedent_append_emptyLines (ls : List Text) (count : Nat) :
    dedent (ls ++ emptyLines count) = dedent ls ++ emptyLines count := by
  induction count with
  | zero => rw [emptyLines, List.replicate_zero, List.append_nil, List.append_nil]
  | succ count ih =>
    rw [emptyLines, List.replicate_succ', ← List.append_assoc, dedent_concat_nil, ← emptyLines, ih,
      List.append_assoc]

theorem exists_trimEmpty {ls : List Text} (first : ls.head? ≠ some []) :
    ∃ count, ls = trimEmpty ls ++ emptyLines count := by
  have split := List.takeWhile_append_dropWhile (p := List.isEmpty) (l := ls.reverse)
  have empty : ∀ line ∈ ls.reverse.takeWhile List.isEmpty, line = [] := by
    intro line mem
    exact List.isEmpty_iff.mp (List.mem_takeWhile_imp mem)
  refine ⟨(ls.reverse.takeWhile List.isEmpty).length, ?_⟩
  have tail : emptyLines (ls.reverse.takeWhile List.isEmpty).length =
      (ls.reverse.takeWhile List.isEmpty).reverse := by
    rw [List.eq_replicate_of_mem empty, emptyLines, List.length_replicate, List.reverse_replicate]
  rw [trimEmpty, dropWhile_eq_self first, tail, ← List.reverse_append, split, List.reverse_reverse]

theorem trim_joinLines_emptyLines (ls : List Text) (before after : Nat) :
    Text.trim (Text.joinLines (emptyLines before ++ (ls ++ emptyLines after))) =
      Text.trim (Text.joinLines ls) := by
  induction before with
  | zero =>
    rw [emptyLines, List.replicate_zero, List.nil_append]
    induction after with
    | zero => rw [emptyLines, List.replicate_zero, List.append_nil]
    | succ after ih =>
      rw [emptyLines, List.replicate_succ', ← List.append_assoc, Text.trim_joinLines_concat_nil]
      exact ih
  | succ before ih =>
    rw [emptyLines, List.replicate_succ, List.cons_append, Text.trim_joinLines_nil_cons]
    exact ih

theorem trimEmpty_concat_nil (ls : List Text) : trimEmpty (ls ++ [[]]) = trimEmpty ls := by
  rw [trimEmpty, List.dropWhile_append, trimEmpty]
  split
  · next none =>
    rw [List.isEmpty_iff] at none
    rw [none]
    rfl
  · rw [List.reverse_append, List.reverse_singleton, List.singleton_append,
      List.dropWhile_cons_of_pos rfl]

theorem Item.ofLines_concat_nil (head : Text) (below : List Text) :
    Item.ofLines head (below ++ [[]]) = Item.ofLines head below := by
  rw [Item.ofLines, dedent_concat_nil, trimEmpty_concat_nil, Item.ofLines]

def itemOf (lines : Text × List Text) : Item := .ofLines lines.1 lines.2

theorem itemLines_concat_nil (base : Nat) (ls : List Text) :
    ((itemLines base (ls ++ [[]])).1 = (itemLines base ls).1 ∨
        (itemLines base (ls ++ [[]])).1 = (itemLines base ls).1 ++ [[]]) ∧
      (itemLines base (ls ++ [[]])).2.map itemOf = (itemLines base ls).2.map itemOf := by
  induction ls with
  | nil => exact ⟨.inr rfl, rfl⟩
  | cons line rest ih =>
    obtain ⟨below, items⟩ := ih
    rw [List.cons_append, itemLines, itemLines]
    by_cases opens : (!Text.blank line && decide (indentOf line ≤ base)) = true
    · -- The empty line may end up below this item, where it is trimmed away.
      simp only [if_pos opens, List.map_cons, items]
      refine ⟨.inl trivial, ?_⟩
      rcases below with same | longer
      · rw [same]
      · rw [itemOf, longer, Item.ofLines_concat_nil, itemOf]
    · simp only [if_neg opens, items, and_true]
      rcases below with same | longer
      · exact .inl (by rw [same])
      · exact .inr (by rw [longer, List.cons_append])

theorem itemsOf_concat_nil (ls : List Text) : itemsOf (ls ++ [[]]) = itemsOf ls := by
  have first : (ls ++ [[]]).find? (!Text.blank ·) = ls.find? (!Text.blank ·) := by
    simp [List.find?_append]
  rw [itemsOf, first, itemsOf]
  split
  · rfl
  · exact (itemLines_concat_nil _ ls).2

theorem sections_concat_nil (ls : List Text) :
    ((sections (ls ++ [[]])).1 = (sections ls).1 ∨
        (sections (ls ++ [[]])).1 = (sections ls).1 ++ [[]]) ∧
      itemsOfSections (sections (ls ++ [[]])).2 = itemsOfSections (sections ls).2 := by
  induction ls with
  | nil => exact ⟨.inr rfl, rfl⟩
  | cons line rest ih =>
    obtain ⟨body, items⟩ := ih
    rw [List.cons_append, sections, sections]
    by_cases inner : isInner line = true
    · simp only [if_pos inner, items, and_true]
      rcases body with same | longer
      · exact .inl (by rw [same])
      · exact .inr (by rw [longer, List.cons_append])
    · simp only [if_neg inner]
      cases sectionOf? line with
      | none => exact ⟨.inl rfl, items⟩
      | some kind =>
        -- The empty line may end up in the body of this section.
        refine ⟨.inl rfl, ?_⟩
        have own : itemsOf (sections (rest ++ [[]])).1 = itemsOf (sections rest).1 := by
          rcases body with same | longer
          · rw [same]
          · rw [longer, itemsOf_concat_nil]
        simp only [itemsOfSections, List.flatMap_cons, own] at items ⊢
        rw [items]

theorem ofLines_append {description : List Text}
    (untitled : ∀ line ∈ description, sectionOf? line = none) (rest : List Text)
    (opens : ∀ line ∈ rest.head?, sectionOf? line ≠ none) :
    ofLines (description ++ rest) =
      ⟨(description.head?.map Text.trim).bind nonEmpty,
        nonEmpty (Text.trim (Text.joinLines description.tail)),
        itemsOfSections (sections rest).2⟩ := by
  let p (line : Text) : Bool := (sectionOf? line).isNone
  have before : ∀ line ∈ description, p line = true := by
    intro line mem
    simp only [p, untitled line mem, Option.isNone_none]
  have taken : (description ++ rest).takeWhile p = description := by
    cases rest with
    | nil => rw [List.append_nil, List.takeWhile_eq_self_iff.mpr before]
    | cons opener rest =>
      have title : ¬ p opener = true := by simpa [p] using opens opener rfl
      rw [List.takeWhile_append_of_pos before, List.takeWhile_cons_of_neg title, List.append_nil]
  have dropped : (description ++ rest).dropWhile p = rest := by
    have whole := List.takeWhile_append_dropWhile (p := p) (l := description ++ rest)
    rw [taken] at whole
    exact List.append_cancel_left whole
  rw [ofLines, taken, dropped]

theorem exists_description (ls : List Text) : ∃ description rest, ls = description ++ rest ∧
    (∀ line ∈ description, sectionOf? line = none) ∧
      ∀ line ∈ rest.head?, sectionOf? line ≠ none := by
  refine ⟨_, _, (List.takeWhile_append_dropWhile (p := fun line => (sectionOf? line).isNone)).symm,
    ?_, ?_⟩
  · intro line mem
    simpa using List.mem_takeWhile_imp mem
  · intro line found
    have stop := List.head?_dropWhile_not (fun line => (sectionOf? line).isNone) ls
    rw [found] at stop
    rintro none
    simp [none] at stop

theorem ofLines_concat_nil {ls : List Text} (some : ls ≠ []) :
    ofLines (ls ++ [[]]) = ofLines ls := by
  obtain ⟨description, rest, rfl, untitled, opens⟩ := exists_description ls
  by_cases none : rest = []
  · subst none
    have untitledToo : ∀ line ∈ description ++ [[]], sectionOf? line = Option.none := by
      intro line mem
      rcases List.mem_append.mp mem with old | new
      · exact untitled line old
      · rw [List.mem_singleton.mp new]
        rfl
    have longer := ofLines_append untitledToo [] (by simp)
    have short := ofLines_append untitled [] (by simp)
    rw [List.append_nil] at some longer short ⊢
    obtain ⟨first, others, rfl⟩ := List.exists_cons_of_ne_nil some
    rw [longer, short]
    simp only [List.cons_append, List.head?_cons, List.tail_cons, Text.trim_joinLines_concat_nil]
  · have opensToo : ∀ line ∈ (rest ++ [[]]).head?, sectionOf? line ≠ Option.none := by
      obtain ⟨opener, others, rfl⟩ := List.exists_cons_of_ne_nil none
      exact opens
    rw [List.append_assoc, ofLines_append untitled _ opensToo, ofLines_append untitled _ opens,
      (sections_concat_nil rest).2]

theorem ofLines_append_emptyLines {ls : List Text} (some : ls ≠ []) (count : Nat) :
    ofLines (ls ++ emptyLines count) = ofLines ls := by
  induction count with
  | zero => rw [emptyLines, List.replicate_zero, List.append_nil]
  | succ count ih =>
    rw [emptyLines, List.replicate_succ', ← List.append_assoc, ofLines_concat_nil, ← emptyLines, ih]
    simp [some]

end EmptyLines

end CallSchema.Docstring
