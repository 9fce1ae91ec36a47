import CallSchema.Proofs.Text.Lines
import CallSchema.Proofs.TypeHint.Parts

set_option autoImplicit false

namespace CallSchema.TypeHint

variable {t : Text} {ts : List Text}

theorem cut_cases (depth : Int) (t : Text) :
    cut depth t = [t] ∨ ∃ first rest, t = first ++ ',' :: rest ∧ Single depth first := by
  induction t generalizing depth with
  | nil => exact .inl rfl
  | cons c t ih =>
    by_cases outer : c = ',' ∧ depth = 0
    · exact .inr ⟨[], t, by rw [outer.1, List.nil_append], outer.2⟩
    · rcases ih (depth + depthStep c) with whole | ⟨first, rest, split, single⟩
      · left
        rw [cut, if_neg outer, whole, Text.addToFirst]
      · exact .inr ⟨c :: first, rest, by rw [split, List.cons_append], outer, single⟩

inductive Cuts : List Text → Prop where
  | last {t : Text} (whole : cut 0 t = [t]) : Cuts [t]
  | cons {t : Text} {ts : List Text} (single : Single 0 t) (rest : Cuts ts) : Cuts (t :: ts)

theorem cuts_cut (t : Text) : Cuts (cut 0 t) := by
  induction size : t.length using Nat.strong_induction_on generalizing t with
  | _ n ih =>
    rcases cut_cases 0 t with whole | ⟨first, rest, rfl, single⟩
    · rw [whole]
      exact .last whole
    · rw [cut_append_comma single]
      simp only [List.length_append, List.length_cons] at size
      exact .cons single (ih rest.length (by omega) rest rfl)

theorem Cuts.ne_nil (h : Cuts ts) : ts ≠ [] := by
  cases h <;> simp

theorem Cuts.cut_joined (h : Cuts ts) : cut 0 (joinCommas ts) = ts := by
  induction h with
  | last whole => rwa [joinCommas_singleton]
  | cons single rest ih =>
    obtain ⟨next, more, rfl⟩ := List.exists_cons_of_ne_nil rest.ne_nil
    rw [joinCommas_cons, cut_append_comma single, ih]

theorem single_of_append_blank {depth : Int} {t e : Text} (blank : Text.blank e = true)
    (h : Single depth (t ++ e)) : Single depth t := by
  induction t generalizing depth with
  | nil =>
    have flat : ∀ c ∈ e, depthStep c = 0 := fun c mem =>
      (depthStep_of_isBlank (Text.blank_iff.mp blank c mem)).1
    rw [List.nil_append, ← List.append_nil e] at h
    exact single_of_flat_append flat h
  | cons c t ih => exact ⟨h.1, ih h.2⟩

theorem Single.trim (h : Single 0 t) : Single 0 (Text.trim t) := by
  obtain ⟨s, e, before, after, whole⟩ := Text.exists_trim t
  rw [whole] at h
  refine single_of_append_blank after (single_of_flat_append (fun c mem => ?_) h)
  exact (depthStep_of_isBlank (Text.blank_iff.mp before c mem)).1

theorem cut_trim (whole : cut 0 t = [t]) : cut 0 (Text.trim t) = [Text.trim t] := by
  refine (cut_cases 0 (Text.trim t)).resolve_right ?_
  rintro ⟨first, rest, found, single⟩
  -- A comma that ends a piece of the trimmed text ends one of the whole text.
  obtain ⟨s, e, before, -, split⟩ := Text.exists_trim t
  have twice := cut_append_comma (single_append (single_of_blank before) single) (rest ++ e)
  obtain ⟨piece, pieces, more⟩ := exists_cut 0 (rest ++ e)
  have same : s ++ first ++ ',' :: (rest ++ e) = t := by
    conv => rhs; rw [split, found]
    simp
  rw [same, whole, more] at twice
  simp at twice

theorem Cuts.tidyLines (h : Cuts ts) : Text.tidyLines ts = [] ∨ Cuts (Text.tidyLines ts) := by
  induction h with
  | @last t whole =>
    rw [Text.tidyLines_cons]
    split
    · exact .inl rfl
    · exact .inr (.last (cut_trim whole))
  | @cons t ts single rest ih =>
    rw [Text.tidyLines_cons]
    split
    · exact ih
    · right
      rcases ih with none | cuts
      · rw [none]
        exact .last (cut_of_single single.trim)
      · exact .cons single.trim cuts

theorem parts_eq (t : Text) : parts t = Text.tidyLines (cut 0 t) := rfl

theorem parts_joinCommas_parts (t : Text) : parts (joinCommas (parts t)) = parts t := by
  rcases (cuts_cut t).tidyLines with none | cuts
  · rw [parts_eq t, none]
    rfl
  · rw [parts_eq (joinCommas _), parts_eq t, cuts.cut_joined, Text.tidyLines_tidyLines]

theorem trim_of_mem_parts {part : Text} (mem : part ∈ parts t) :
    part ≠ [] ∧ Text.trim part = part := by
  obtain ⟨⟨piece, -, rfl⟩, visible⟩ := Text.mem_tidyLines.mp mem
  exact ⟨visible, Text.trim_trim piece⟩

theorem parts_joined :
    (∀ ts : List Text, (∀ t ∈ ts, Text.blank t = false ∧ Single 0 t) →
      parts (joinCommas ts) = ts.map Text.trim) ∧
    ∀ s : Text, (∀ part ∈ parts s, part ≠ [] ∧ Text.trim part = part) ∧
      parts (joinCommas (parts s)) = parts s := by
  constructor
  · intro ts known
    exact parts_joinCommas (fun t mem => (known t mem).2) fun t mem => (known t mem).1
  · exact fun s => ⟨fun _ => trim_of_mem_parts, parts_joinCommas_parts s⟩

theorem parts_joined_torn :
    (∀ t ∈ ([" Dict[str, int]", ")a, b(  "] : List String).map String.toList,
      Text.blank t = false ∧ Single 0 t) ∧
    parts " Dict[str, int],)a, b(  " = ["Dict[str, int]".toList, ")a, b(".toList] := by
  have known : ∀ t ∈ ([" Dict[str, int]", ")a, b(  "] : List String).map String.toList,
      Text.blank t = false ∧ Single 0 t := by decide +kernel
  exact ⟨known, parts_joined.1 _ known⟩

end CallSchema.TypeHint
