import CallSchema.Proofs.Text.Trim
import CallSchema.TypeHint.Parts
import Mathlib.Tactic.Common

set_option autoImplicit false

namespace CallSchema.TypeHint

def Balanced (depth : Int) : Text → Prop
  | [] => depth = 0
  | c :: t => 0 ≤ depth + depthStep c ∧ Balanced (depth + depthStep c) t

-- From `depth` on the depth ends at 0, and there is no comma where it is 0.
def Single (depth : Int) : Text → Prop
  | [] => depth = 0
  | c :: t => ¬ (c = ',' ∧ depth = 0) ∧ Single (depth + depthStep c) t

instance decidableSingle : (depth : Int) → (t : Text) → Decidable (Single depth t)
  | depth, [] => inferInstanceAs (Decidable (depth = 0))
  | depth, c :: t =>
    have := decidableSingle (depth + depthStep c) t
    inferInstanceAs (Decidable (¬ (c = ',' ∧ depth = 0) ∧ Single (depth + depthStep c) t))

theorem balanced_of_flat {t : Text} (flat : ∀ c ∈ t, depthStep c = 0) : Balanced 0 t := by
  induction t with
  | nil => rfl
  | cons c t ih =>
    have level : depthStep c = 0 := flat c (by simp)
    simp only [Balanced, level, Int.add_zero]
    exact ⟨by omega, ih fun d hd => flat d (by simp [hd])⟩

theorem single_of_flat {t : Text} (flat : ∀ c ∈ t, depthStep c = 0) (comma : ',' ∉ t) :
    Single 0 t := by
  induction t with
  | nil => rfl
  | cons c t ih =>
    have level : depthStep c = 0 := flat c (by simp)
    simp only [Single, level, Int.add_zero]
    constructor
    · rintro ⟨rfl, -⟩
      exact comma (by simp)
    · exact ih (fun d hd => flat d (by simp [hd])) fun mem => comma (by simp [mem])

theorem single_of_flat_append {depth : Int} {s t : Text} (flat : ∀ c ∈ s, depthStep c = 0)
    (h : Single depth (s ++ t)) : Single depth t := by
  induction s with
  | nil => exact h
  | cons c s ih =>
    have level : depthStep c = 0 := flat c (by simp)
    have rest := h.2
    rw [level, Int.add_zero] at rest
    exact ih (fun d hd => flat d (by simp [hd])) rest

theorem balanced_append {depth base : Int} {s t : Text} (first : Balanced depth s)
    (above : 0 ≤ base) (second : Balanced base t) : Balanced (base + depth) (s ++ t) := by
  induction s generalizing depth with
  | nil =>
    simp only [Balanced] at first
    simpa [first] using second
  | cons c s ih =>
    have next := ih first.2
    have above' := first.1
    simp only [List.cons_append, Balanced, Int.add_assoc]
    exact ⟨by omega, next⟩

theorem single_append {depth : Int} {s t : Text} (first : Single depth s) (second : Single 0 t) :
    Single depth (s ++ t) := by
  induction s generalizing depth with
  | nil =>
    simp only [Single] at first
    simpa [first] using second
  | cons c s ih => exact ⟨first.1, ih first.2⟩

theorem single_append_of_balanced {depth base : Int} {s t : Text} (first : Balanced depth s)
    (ground : 0 ≤ depth) (inside : 0 < base) (second : Single base t) :
    Single (base + depth) (s ++ t) := by
  induction s generalizing depth with
  | nil =>
    simp only [Balanced] at first
    simpa [first] using second
  | cons c s ih =>
    have next := ih first.2 first.1
    simp only [List.cons_append, Single, Int.add_assoc]
    exact ⟨fun outer => by omega, next⟩

theorem balanced_brackets {inner : Text} (h : Balanced 0 inner) :
    Balanced 0 ('[' :: (inner ++ [']'])) := by
  have closing : Balanced 1 [']'] := by simp [Balanced, depthStep]
  have whole := balanced_append h (by decide) closing
  exact ⟨by decide, whole⟩

theorem single_brackets {inner : Text} (h : Balanced 0 inner) :
    Single 0 ('[' :: (inner ++ [']'])) := by
  have closing : Single 1 [']'] := by simp [Single, depthStep]
  have whole := single_append_of_balanced h (by decide) (by decide) closing
  exact ⟨by decide, whole⟩

theorem depthStep_of_isBlank {c : Char} (h : Text.isBlank c = true) : depthStep c = 0 ∧ c ≠ ',' := by
  constructor
  · unfold depthStep
    split
    · next opening => rcases opening with rfl | rfl <;> exact absurd h (by decide)
    split
    · next closing => rcases closing with rfl | rfl <;> exact absurd h (by decide)
    · rfl
  · rintro rfl
    exact absurd h (by decide)

theorem balanced_of_blank {t : Text} (h : Text.blank t = true) : Balanced 0 t :=
  balanced_of_flat fun c hc => (depthStep_of_isBlank (Text.blank_iff.mp h c hc)).1

theorem single_of_blank {t : Text} (h : Text.blank t = true) : Single 0 t := by
  apply single_of_flat
  · exact fun c hc => (depthStep_of_isBlank (Text.blank_iff.mp h c hc)).1
  · exact fun mem => (depthStep_of_isBlank (Text.blank_iff.mp h ',' mem)).2 rfl

theorem exists_cut (depth : Int) (t : Text) : ∃ piece pieces, cut depth t = piece :: pieces := by
  cases t with
  | nil => exact ⟨[], [], rfl⟩
  | cons c t =>
    rw [cut]
    split
    · exact ⟨[], cut 0 t, rfl⟩
    · cases cut (depth + depthStep c) t with
      | nil => exact ⟨[c], [], rfl⟩
      | cons piece pieces => exact ⟨c :: piece, pieces, rfl⟩

theorem cut_append {depth : Int} {t : Text} (h : Single depth t) {rest piece : Text}
    {pieces : List Text} (found : cut 0 rest = piece :: pieces) :
    cut depth (t ++ rest) = (t ++ piece) :: pieces := by
  induction t generalizing depth with
  | nil =>
    obtain rfl : depth = 0 := h
    exact found
  | cons c t ih => rw [List.cons_append, cut, if_neg h.1, ih h.2, Text.addToFirst, List.cons_append]

theorem cut_of_single {depth : Int} {t : Text} (h : Single depth t) : cut depth t = [t] := by
  have whole : cut depth (t ++ []) = [t ++ []] := cut_append h rfl
  rwa [List.append_nil] at whole

theorem cut_append_comma {depth : Int} {t : Text} (h : Single depth t) (rest : Text) :
    cut depth (t ++ ',' :: rest) = t :: cut 0 rest := by
  have comma : cut 0 (',' :: rest) = [] :: cut 0 rest := if_pos ⟨rfl, rfl⟩
  simpa using cut_append h comma

def joinCommas (ts : List Text) : Text := List.intercalate [','] ts

@[simp] theorem joinCommas_singleton (t : Text) : joinCommas [t] = t := by
  simp [joinCommas]

theorem joinCommas_cons (t next : Text) (rest : List Text) :
    joinCommas (t :: next :: rest) = t ++ ',' :: joinCommas (next :: rest) := by
  simp [joinCommas, List.intercalate]

theorem cut_joinCommas {ts : List Text} (some : ts ≠ []) (single : ∀ t ∈ ts, Single 0 t) :
    cut 0 (joinCommas ts) = ts := by
  induction ts with
  | nil => exact absurd rfl some
  | cons t rest ih =>
    cases rest with
    | nil => rw [joinCommas_singleton, cut_of_single (single t (by simp))]
    | cons next rest =>
      rw [joinCommas_cons, cut_append_comma (single t (by simp)),
        ih (by simp) fun s mem => single s (by simp [mem])]

theorem balanced_joinCommas {ts : List Text} (balanced : ∀ t ∈ ts, Balanced 0 t) :
    Balanced 0 (joinCommas ts) := by
  induction ts with
  | nil => rfl
  | cons t rest ih =>
    cases rest with
    | nil => simpa using balanced t (by simp)
    | cons next rest =>
      have later := ih fun s mem => balanced s (by simp [mem])
      have comma : Balanced 0 (',' :: joinCommas (next :: rest)) := ⟨by decide, later⟩
      rw [joinCommas_cons]
      exact balanced_append (balanced t (by simp)) (by decide) comma

theorem parts_joinCommas {ts : List Text} (single : ∀ t ∈ ts, Single 0 t)
    (visible : ∀ t ∈ ts, Text.blank t = false) : parts (joinCommas ts) = ts.map Text.trim := by
  by_cases some : ts = []
  · subst some
    rfl
  rw [parts, cut_joinCommas some single, List.filter_eq_self]
  intro piece mem
  obtain ⟨t, ht, rfl⟩ := List.mem_map.mp mem
  have := visible t ht
  simpa [Text.trim_eq_nil_iff] using this

theorem cut_append_blank {s : Text} (h : Text.blank s = true) (depth : Int) (t : Text) :
    ∃ pieces last, cut depth t = pieces ++ [last] ∧ cut depth (t ++ s) = pieces ++ [last ++ s] := by
  induction t generalizing depth with
  | nil =>
    refine ⟨[], [], rfl, ?_⟩
    induction s generalizing depth with
    | nil => rfl
    | cons c s ih =>
      obtain ⟨level, comma⟩ := depthStep_of_isBlank (Text.blank_iff.mp h c (by simp))
      have rest : Text.blank s = true := by
        simp only [Text.blank, List.all_cons, Bool.and_eq_true] at h
        exact h.2
      have tail := ih rest depth
      simp only [List.nil_append] at tail ⊢
      rw [cut, if_neg fun outer => comma outer.1, level, Int.add_zero, tail]
      rfl
  | cons c t ih =>
    by_cases outer : c = ',' ∧ depth = 0
    · obtain ⟨pieces, last, short, long⟩ := ih 0
      refine ⟨[] :: pieces, last, ?_, ?_⟩
      · rw [cut, if_pos outer, short, List.cons_append]
      · rw [List.cons_append, cut, if_pos outer, long, List.cons_append]
    · obtain ⟨pieces, last, short, long⟩ := ih (depth + depthStep c)
      cases pieces with
      | nil =>
        refine ⟨[], c :: last, ?_, ?_⟩
        · rw [cut, if_neg outer, short]
          rfl
        · rw [List.cons_append, cut, if_neg outer, long]
          rfl
      | cons first pieces =>
        refine ⟨(c :: first) :: pieces, last, ?_, ?_⟩
        · rw [cut, if_neg outer, short]
          rfl
        · rw [List.cons_append, cut, if_neg outer, long]
          rfl

theorem parts_append_blank (t : Text) {s : Text} (h : Text.blank s = true) :
    parts (t ++ s) = parts t := by
  obtain ⟨pieces, last, short, long⟩ := cut_append_blank h 0 t
  have same : Text.trim (last ++ s) = Text.trim last := Text.trim_append_blank last h
  rw [parts, parts, short, long]
  simp [same]

theorem cut_cons_of_isBlank {c : Char} (h : Text.isBlank c = true) (depth : Int) (t : Text) :
    cut depth (c :: t) = Text.addToFirst c (cut depth t) := by
  obtain ⟨level, comma⟩ := depthStep_of_isBlank h
  rw [cut, if_neg fun outer => comma outer.1, level, Int.add_zero]

theorem parts_blank_append {s : Text} (h : Text.blank s = true) (t : Text) :
    parts (s ++ t) = parts t := by
  induction s with
  | nil => rfl
  | cons c s ih =>
    simp only [Text.blank, List.all_cons, Bool.and_eq_true] at h
    have rest := ih h.2
    have single : Text.blank [c] = true := by simp [Text.blank, h.1]
    rw [parts] at rest ⊢
    rw [List.cons_append, cut_cons_of_isBlank h.1, ← rest]
    cases cut 0 (s ++ t) with
    | nil => simp [Text.addToFirst, Text.trim_eq_nil_iff.mpr single]
    | cons first pieces =>
      have same : Text.trim (c :: first) = Text.trim first := Text.trim_blank_append single first
      simp [Text.addToFirst, same]

theorem parts_trim (t : Text) : parts (Text.trim t) = parts t := by
  obtain ⟨s, e, hs, he, whole⟩ := Text.exists_trim t
  conv_rhs => rw [whole, parts_blank_append hs, parts_append_blank _ he]

end CallSchema.TypeHint
