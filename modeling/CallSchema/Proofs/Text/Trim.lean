import CallSchema.Text.Basic
import Mathlib.Data.List.TakeWhile

set_option autoImplicit false

namespace CallSchema.Text

theorem isBlank_space : isBlank ' ' = true := rfl

theorem blank_iff {t : Text} : blank t = true ↔ ∀ c ∈ t, isBlank c = true := by
  simp [blank]

@[simp] theorem blank_nil : blank [] = true := rfl

@[simp] theorem blank_append (s t : Text) : blank (s ++ t) = (blank s && blank t) := by
  simp [blank]

@[simp] theorem blank_replicate_space (n : Nat) : blank (List.replicate n ' ') = true := by
  rw [blank_iff]
  intro c hc
  rw [List.eq_of_mem_replicate hc, isBlank_space]

theorem blank_cons_of_not {c : Char} {t : Text} (h : isBlank c = false) : blank (c :: t) = false := by
  simp [blank, h]

@[simp] theorem trimStart_nil : trimStart [] = [] := rfl

@[simp] theorem trimEnd_nil : trimEnd [] = [] := rfl

@[simp] theorem trim_nil : trim [] = [] := rfl

theorem trimStart_append_of_blank {s : Text} (h : blank s = true) (t : Text) :
    trimStart (s ++ t) = trimStart t := by
  exact List.dropWhile_append_of_pos (blank_iff.mp h)

theorem trimEnd_append_of_blank (t : Text) {s : Text} (h : blank s = true) :
    trimEnd (t ++ s) = trimEnd t := by
  have h' : ∀ c ∈ s.reverse, isBlank c = true := fun c hc =>
    blank_iff.mp h c (List.mem_reverse.mp hc)
  simp only [trimEnd, List.reverse_append]
  rw [List.dropWhile_append_of_pos h']

theorem trimStart_cons_of_not {c : Char} (h : isBlank c = false) (t : Text) :
    trimStart (c :: t) = c :: t := by
  simp [trimStart, h]

theorem trimEnd_concat_of_not (t : Text) {c : Char} (h : isBlank c = false) :
    trimEnd (t ++ [c]) = t ++ [c] := by
  simp [trimEnd, h]

theorem trimStart_eq_nil_iff {t : Text} : trimStart t = [] ↔ blank t = true := by
  rw [blank_iff, trimStart, List.dropWhile_eq_nil_iff]

theorem trimEnd_eq_nil_iff {t : Text} : trimEnd t = [] ↔ blank t = true := by
  simp [trimEnd, blank_iff, List.dropWhile_eq_nil_iff]

theorem trimEnd_ne_nil {t : Text} (visible : blank t = false) : trimEnd t ≠ [] := by
  rw [Ne, trimEnd_eq_nil_iff, visible]
  decide

theorem exists_trimStart (t : Text) : ∃ s, blank s = true ∧ t = s ++ trimStart t := by
  refine ⟨t.takeWhile isBlank, ?_, (List.takeWhile_append_dropWhile).symm⟩
  rw [blank_iff]
  intro c hc
  exact List.mem_takeWhile_imp hc

theorem exists_trimEnd (t : Text) : ∃ s, blank s = true ∧ t = trimEnd t ++ s := by
  obtain ⟨s, hs, whole⟩ := exists_trimStart t.reverse
  refine ⟨s.reverse, ?_, ?_⟩
  · simpa [blank] using hs
  · have := congrArg List.reverse whole
    simpa [trimEnd, trimStart] using this

theorem exists_trim (t : Text) :
    ∃ s e, blank s = true ∧ blank e = true ∧ t = s ++ (trim t ++ e) := by
  obtain ⟨s, hs, first⟩ := exists_trimStart t
  obtain ⟨e, he, last⟩ := exists_trimEnd (trimStart t)
  refine ⟨s, e, hs, he, ?_⟩
  rw [trim, ← last]
  exact first

theorem trimEnd_cons {c : Char} {t : Text} (h : trimEnd t ≠ []) :
    trimEnd (c :: t) = c :: trimEnd t := by
  obtain ⟨d, rest, hd⟩ := List.exists_cons_of_ne_nil
    (fun none => h (by simp [trimEnd, none]) : t.reverse.dropWhile isBlank ≠ [])
  simp [trimEnd, List.dropWhile_append, hd]

theorem trimEnd_append_of_visible {t : Text} (visible : blank t = false) (s : Text) :
    trimEnd (s ++ t) = s ++ trimEnd t := by
  induction s with
  | nil => rfl
  | cons c s ih =>
    have more : trimEnd (s ++ t) ≠ [] := by simp [ih, trimEnd_ne_nil visible]
    rw [List.cons_append, trimEnd_cons more, ih, List.cons_append]

theorem trimStart_trimEnd (t : Text) : trimStart (trimEnd t) = trimEnd (trimStart t) := by
  induction t with
  | nil => rfl
  | cons c t ih =>
    by_cases hc : isBlank c = true
    · by_cases ht : trimEnd t = []
      · have all : blank (c :: t) = true := by
          rw [trimEnd_eq_nil_iff] at ht
          simpa [blank, hc] using ht
        rw [trimEnd_eq_nil_iff.mpr all, trimStart_eq_nil_iff.mpr all]
        rfl
      · rw [trimEnd_cons ht]
        simpa [trimStart, hc] using ih
    · rw [Bool.not_eq_true] at hc
      rw [trimStart_cons_of_not hc]
      by_cases ht : trimEnd t = []
      · obtain ⟨s, hs, whole⟩ := exists_trimEnd t
        rw [ht] at whole
        have single : trimEnd (c :: t) = [c] := by
          rw [whole, List.nil_append]
          exact (trimEnd_append_of_blank [c] hs).trans (trimEnd_concat_of_not [] hc)
        rw [single, trimStart_cons_of_not hc]
      · rw [trimEnd_cons ht, trimStart_cons_of_not hc]

theorem trimStart_trimStart (t : Text) : trimStart (trimStart t) = trimStart t := by
  obtain ⟨s, hs, whole⟩ := exists_trimStart t
  calc trimStart (trimStart t) = trimStart (s ++ trimStart t) := (trimStart_append_of_blank hs _).symm
    _ = trimStart t := by rw [← whole]

theorem trimEnd_trimEnd (t : Text) : trimEnd (trimEnd t) = trimEnd t := by
  obtain ⟨s, hs, whole⟩ := exists_trimEnd t
  calc trimEnd (trimEnd t) = trimEnd (trimEnd t ++ s) := (trimEnd_append_of_blank _ hs).symm
    _ = trimEnd t := by rw [← whole]

@[simp] theorem trim_trimEnd (t : Text) : trim (trimEnd t) = trim t := by
  rw [trim, trimStart_trimEnd, trimEnd_trimEnd, trim]

@[simp] theorem trimStart_trim (t : Text) : trimStart (trim t) = trim t := by
  rw [trim, trimStart_trimEnd, trimStart_trimStart]

@[simp] theorem trimEnd_trim (t : Text) : trimEnd (trim t) = trim t := by
  rw [trim, trimEnd_trimEnd]

@[simp] theorem trim_trim (t : Text) : trim (trim t) = trim t := by
  rw [trim, trimStart_trim, trimEnd_trim]

theorem trim_blank_append {s : Text} (h : blank s = true) (t : Text) : trim (s ++ t) = trim t := by
  rw [trim, trimStart_append_of_blank h, trim]

theorem trim_append_blank (t : Text) {e : Text} (h : blank e = true) : trim (t ++ e) = trim t := by
  rw [← trim_trimEnd, trimEnd_append_of_blank t h, trim_trimEnd]

theorem trim_eq_nil_iff {t : Text} : trim t = [] ↔ blank t = true := by
  constructor
  · intro h
    obtain ⟨s, e, hs, he, whole⟩ := exists_trim t
    rw [whole, h]
    simp [hs, he]
  · intro h
    rw [trim, trimStart_eq_nil_iff.mpr h, trimEnd_nil]

theorem trim_ne_nil {t : Text} (visible : blank t = false) : trim t ≠ [] := by
  rw [Ne, trim_eq_nil_iff, visible]
  decide

theorem mem_of_mem_trim {t : Text} {c : Char} (h : c ∈ trim t) : c ∈ t := by
  obtain ⟨s, e, -, -, whole⟩ := exists_trim t
  rw [whole]
  simp [h]

theorem mem_of_mem_trimStart {t : Text} {c : Char} (h : c ∈ trimStart t) : c ∈ t :=
  (List.dropWhile_sublist isBlank).subset h

theorem mem_of_mem_trimEnd {t : Text} {c : Char} (h : c ∈ trimEnd t) : c ∈ t := by
  obtain ⟨s, -, whole⟩ := exists_trimEnd t
  rw [whole]
  simp [h]

theorem mem_trim_of_mem {t : Text} {c : Char} (mem : c ∈ t) (visible : isBlank c = false) :
    c ∈ trim t := by
  obtain ⟨s, e, before, after, whole⟩ := exists_trim t
  have outside : ∀ gap : Text, blank gap = true → c ∉ gap := by
    intro gap all inside
    rw [blank_iff.mp all c inside] at visible
    exact absurd visible (by decide)
  rw [whole] at mem
  simpa [outside s before, outside e after] using mem

@[simp] theorem blank_trimEnd (t : Text) : blank (trimEnd t) = blank t := by
  obtain ⟨rest, hr, whole⟩ := exists_trimEnd t
  have both := blank_append (trimEnd t) rest
  rw [← whole, hr, Bool.and_true] at both
  exact both.symm

theorem trimEnd_eq_self {t : Text} (last : ∀ c ∈ t.getLast?, isBlank c = false) : trimEnd t = t := by
  rcases List.eq_nil_or_concat t with rfl | ⟨rest, c, rfl⟩
  · rfl
  · rw [List.concat_eq_append] at last ⊢
    exact trimEnd_concat_of_not rest (last c (by simp))

theorem trim_eq_self {t : Text} (first : ∀ c ∈ t.head?, isBlank c = false)
    (last : ∀ c ∈ t.getLast?, isBlank c = false) : trim t = t := by
  have start : trimStart t = t := by
    cases t with
    | nil => rfl
    | cons c t => exact trimStart_cons_of_not (first c rfl) t
  rw [trim, start, trimEnd_eq_self last]

theorem head?_of_trim_eq_self {t : Text} (h : trim t = t) : ∀ c ∈ t.head?, isBlank c = false := by
  intro c hc
  obtain ⟨rest, rfl⟩ := List.head?_eq_some_iff.mp hc
  by_contra visible
  rw [Bool.not_eq_false] at visible
  have short : trimStart (c :: rest) = trimStart rest := by simp [trimStart, visible]
  have fixed : trimStart (c :: rest) = c :: rest := by
    rw [← h, trimStart_trim]
  have := length_trimStart_le rest
  rw [← short, fixed, List.length_cons] at this
  omega

theorem getLast?_of_trimEnd_eq_self {t : Text} (h : trimEnd t = t) :
    ∀ c ∈ t.getLast?, isBlank c = false := by
  intro c hc
  obtain ⟨rest, rfl⟩ := List.getLast?_eq_some_iff.mp hc
  by_contra visible
  rw [Bool.not_eq_false] at visible
  have short : trimEnd (rest ++ [c]) = trimEnd rest :=
    trimEnd_append_of_blank rest (by simp [blank, visible])
  have := length_trimEnd_le rest
  rw [← short, h, List.length_append, List.length_singleton] at this
  omega

theorem trimEnd_append_eq_self {t : Text} (visible : t ≠ []) (h : trimEnd t = t) (s : Text) :
    trimEnd (s ++ t) = s ++ t := by
  apply trimEnd_eq_self
  rw [List.getLast?_append, List.getLast?_eq_some_getLast visible, Option.some_or,
    ← List.getLast?_eq_some_getLast visible]
  exact getLast?_of_trimEnd_eq_self h

theorem trim_append_eq_self {s t : Text} (some : s ≠ []) (first : trim s = s) (visible : t ≠ [])
    (last : trimEnd t = t) : trim (s ++ t) = s ++ t := by
  obtain ⟨c, rest, rfl⟩ := List.exists_cons_of_ne_nil some
  have start := trimStart_cons_of_not (head?_of_trim_eq_self first c rfl) (rest ++ t)
  rw [trim, List.cons_append, start]
  exact trimEnd_append_eq_self visible last (c :: rest)

theorem trimEnd_append_cons (s : Text) {c : Char} (h : isBlank c = false) (t : Text) :
    trimEnd (s ++ c :: t) = s ++ c :: trimEnd t := by
  obtain ⟨e, he, whole⟩ := exists_trimEnd t
  have last : ∀ d ∈ (s ++ c :: trimEnd t).getLast?, isBlank d = false := by
    intro d hd
    rcases List.eq_nil_or_concat (trimEnd t) with none | ⟨rest, x, some⟩
    · rw [none, List.getLast?_concat] at hd
      cases hd
      exact h
    · have split : s ++ c :: trimEnd t = (s ++ c :: rest) ++ [x] := by simp [some]
      rw [split, List.getLast?_concat] at hd
      cases hd
      refine getLast?_of_trimEnd_eq_self (trimEnd_trimEnd t) _ ?_
      rw [some, List.concat_eq_append, List.getLast?_concat]
      rfl
  calc trimEnd (s ++ c :: t) = trimEnd ((s ++ c :: trimEnd t) ++ e) := by
        rw [List.append_assoc, List.cons_append, ← whole]
    _ = trimEnd (s ++ c :: trimEnd t) := trimEnd_append_of_blank _ he
    _ = s ++ c :: trimEnd t := trimEnd_eq_self last

theorem trim_cons_of_not {c : Char} (visible : isBlank c = false) (t : Text) :
    trim (c :: t) = c :: trimEnd t := by
  rw [trim, trimStart_cons_of_not visible]
  exact trimEnd_append_cons [] visible t

theorem trim_append_cons {s : Text} {c : Char} (some : s ≠ [])
    (first : ∀ d ∈ s.head?, isBlank d = false) (visible : isBlank c = false) (t : Text) :
    trim (s ++ c :: t) = s ++ c :: trimEnd t := by
  obtain ⟨d, rest, rfl⟩ := List.exists_cons_of_ne_nil some
  rw [List.cons_append, trim_cons_of_not (first d rfl), trimEnd_append_cons rest visible]
  rfl

end CallSchema.Text
