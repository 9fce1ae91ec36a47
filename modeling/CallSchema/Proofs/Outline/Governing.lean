import CallSchema.Outline.Scan
import Mathlib.Order.Monotone.Basic

set_option autoImplicit false

namespace CallSchema.Outline

section LastMax

variable {α : Type} {key : α → Nat}

theorem mem_of_lastMax {rows : List α} {a : α} (h : lastMax key rows = some a) : a ∈ rows := by
  induction rows with
  | nil => cases h
  | cons first rest ih =>
    rw [lastMax] at h
    cases later : lastMax key rest with
    | none =>
      rw [later] at h
      cases h
      simp
    | some b =>
      rw [later] at h
      dsimp only at h
      split at h
      · cases h
        simp [ih later]
      · cases h
        simp

theorem lastMax_concat {rows : List α} {a : α} (upTo : ∀ b ∈ rows, key b ≤ key a) :
    lastMax key (rows ++ [a]) = some a := by
  induction rows with
  | nil => rfl
  | cons first rest ih =>
    have later := ih fun b mem => upTo b (by simp [mem])
    rw [List.cons_append, lastMax, later]
    exact if_pos (upTo first (by simp))

theorem lastMax_map {β : Type} {other : β → Nat} {g : α → β}
    (same : ∀ a b, other (g a) ≤ other (g b) ↔ key a ≤ key b) (rows : List α) :
    lastMax other (rows.map g) = (lastMax key rows).map g := by
  induction rows with
  | nil => rfl
  | cons first rest ih =>
    rw [List.map_cons, lastMax, lastMax, ih]
    cases lastMax key rest with
    | none => rfl
    | some b =>
      simp only [Option.map_some, same]
      split <;> rfl

theorem lastMax_eq_none_iff {rows : List α} : lastMax key rows = none ↔ rows = [] := by
  cases rows with
  | nil => simp [lastMax]
  | cons first rest =>
    rw [lastMax]
    split
    · simp
    · split <;> simp

theorem append_of_lastMax {rows : List α} {a : α} (h : lastMax key rows = some a) :
    ∃ before after, rows = before ++ a :: after ∧ (∀ b ∈ before, key b ≤ key a) ∧
      ∀ b ∈ after, key b < key a := by
  induction rows generalizing a with
  | nil => cases h
  | cons first rest ih =>
    rw [lastMax] at h
    cases later : lastMax key rest with
    | none =>
      rw [later] at h
      cases h
      obtain rfl := lastMax_eq_none_iff.mp later
      exact ⟨[], [], rfl, by simp, by simp⟩
    | some b =>
      obtain ⟨before, after, whole, upTo, less⟩ := ih later
      rw [later] at h
      dsimp only at h
      split at h
      · next le =>
        cases h
        exact ⟨first :: before, after, by rw [whole, List.cons_append],
          List.forall_mem_cons.mpr ⟨le, upTo⟩, less⟩
      · next greater =>
        cases h
        refine ⟨[], rest, rfl, by simp, ?_⟩
        intro c mem
        have most : key c ≤ key b := by
          rw [whole] at mem
          rcases List.mem_append.mp mem with early | late
          · exact upTo c early
          · rcases List.mem_cons.mp late with rfl | late
            · exact Nat.le_refl _
            · exact Nat.le_of_lt (less c late)
        omega

end LastMax

theorem pairwise_zipIdx {α : Type} (rows : List α) (first : Nat) :
    (rows.zipIdx first).Pairwise (·.2 < ·.2) := by
  have places : ((rows.zipIdx first).map Prod.snd).Pairwise (· < ·) := by
    rw [List.zipIdx_map_snd]
    exact List.pairwise_lt_range'
  exact List.pairwise_map.mp places

section Governing

variable {α : Type} {depth : α → Nat} {eligible : α → Bool} {indent : Nat} {rows : List α}

theorem governing_lt {place : Nat} (h : governing depth eligible indent rows = some place) :
    place < rows.length := by
  obtain ⟨row, found, rfl⟩ := Option.map_eq_some_iff.mp h
  have known := (List.mem_filter.mp (mem_of_lastMax found)).1
  simpa using List.snd_lt_of_mem_zipIdx known

theorem governing_append {more : List α}
    (out : ∀ row ∈ more, eligible row = true → indent ≤ depth row) :
    governing depth eligible indent (rows ++ more) = governing depth eligible indent rows := by
  have none : (more.zipIdx rows.length).filter
      (fun row => eligible row.1 && depth row.1 < indent) = [] := by
    rw [List.filter_eq_nil_iff]
    intro row mem kept
    simp only [Bool.and_eq_true, decide_eq_true_eq] at kept
    have := out row.1 (List.fst_mem_of_mem_zipIdx mem) kept.1
    omega
  unfold governing
  rw [List.zipIdx_append, List.filter_append, Nat.zero_add, none, List.append_nil]

theorem governing_map {β : Type} {other : β → Nat} {allowed : β → Bool} {g : α → β} {f : Nat → Nat}
    (increasing : StrictMono f) (depths : ∀ row, other (g row) = f (depth row))
    (kept : ∀ row, allowed (g row) = eligible row) (indent : Nat) (rows : List α) :
    governing other allowed (f indent) (rows.map g) = governing depth eligible indent rows := by
  have rowsMap : (rows.map g).zipIdx.filter (fun row => allowed row.1 && other row.1 < f indent) =
      (rows.zipIdx.filter fun row => eligible row.1 && depth row.1 < indent).map (Prod.map g id) := by
    rw [List.zipIdx_map, List.filter_map]
    congr 1
    refine List.filter_congr fun row _ => ?_
    simp [kept, depths, increasing.lt_iff_lt]
  have found (candidates : List (α × Nat)) :
      lastMax (fun row : β × Nat => other row.1) (candidates.map (Prod.map g id)) =
        (lastMax (fun row => depth row.1) candidates).map (Prod.map g id) := by
    apply lastMax_map
    intro a b
    simp [depths, increasing.le_iff_le]
  rw [governing, governing, rowsMap, found, Option.map_map]
  rfl

theorem governing_eq_none_iff : governing depth eligible indent rows = none ↔
    ∀ row ∈ rows.zipIdx, eligible row.1 = true → indent ≤ depth row.1 := by
  rw [governing, Option.map_eq_none_iff, lastMax_eq_none_iff, List.filter_eq_nil_iff]
  refine forall₂_congr fun row _ => ?_
  simp only [Bool.and_eq_true, decide_eq_true_eq, not_and, Nat.not_lt]

theorem exists_of_governing {place : Nat}
    (h : governing depth eligible indent rows = some place) :
    ∃ row, (row, place) ∈ rows.zipIdx ∧ eligible row = true ∧ depth row < indent ∧
      ∀ other ∈ rows.zipIdx, eligible other.1 = true → depth other.1 < indent →
        other = (row, place) ∨ depth other.1 < depth row ∨
          depth other.1 = depth row ∧ other.2 < place := by
  obtain ⟨⟨row, position⟩, found, rfl⟩ := Option.map_eq_some_iff.mp h
  obtain ⟨known, kept⟩ := List.mem_filter.mp (mem_of_lastMax found)
  simp only [Bool.and_eq_true, decide_eq_true_eq] at kept
  refine ⟨row, known, kept.1, kept.2, ?_⟩
  intro other mem own lower
  obtain ⟨before, after, whole, upTo, less⟩ := append_of_lastMax found
  have candidate : other ∈ before ++ (row, position) :: after := by
    rw [← whole]
    exact List.mem_filter.mpr ⟨mem, by simp [own, lower]⟩
  -- The rows stand in the order of their places, so that a row before the maximum is an earlier one.
  have ordered := (pairwise_zipIdx rows 0).filter fun row => eligible row.1 && depth row.1 < indent
  rw [whole] at ordered
  rcases List.mem_append.mp candidate with early | late
  · have earlier := (List.pairwise_append.mp ordered).2.2 other early (row, position) (by simp)
    have least := upTo other early
    dsimp only at earlier least
    omega
  · rcases List.mem_cons.mp late with rfl | late
    · exact .inl rfl
    · exact .inr (.inl (less other late))

theorem governing_concat_iff {row : α} (own : eligible row = true) (lower : depth row < indent) :
    governing depth eligible indent (rows ++ [row]) = some rows.length ↔
      ∀ b ∈ rows, eligible b = true → depth b < indent → depth b ≤ depth row := by
  have last : (row, rows.length) ∈ (rows ++ [row]).zipIdx := by
    simp [List.mem_zipIdx_iff_getElem?]
  constructor
  · intro governs b mem allowed shallow
    obtain ⟨found, known, -, -, greatest⟩ := exists_of_governing governs
    obtain rfl : row = found := by simpa [List.mem_zipIdx_iff_getElem?] using known
    obtain ⟨place, here, same⟩ := List.mem_iff_getElem.mp mem
    have early : (b, place) ∈ (rows ++ [row]).zipIdx := by
      rw [List.mem_zipIdx_iff_getElem?, List.getElem?_append_left here, List.getElem?_eq_getElem here,
        same]
    rcases greatest (b, place) early allowed shallow with same | less | ⟨same, -⟩
    · rw [(Prod.mk.inj same).1]
    · exact Nat.le_of_lt less
    · exact Nat.le_of_eq same
  · intro upTo
    have kept : ([row].zipIdx rows.length).filter
        (fun row => eligible row.1 && depth row.1 < indent) = [(row, rows.length)] := by
      simp [own, lower]
    unfold governing
    rw [List.zipIdx_append, List.filter_append, Nat.zero_add, kept, lastMax_concat]
    · rfl
    · intro b mem
      obtain ⟨known, shallow⟩ := List.mem_filter.mp mem
      simp only [Bool.and_eq_true, decide_eq_true_eq] at shallow
      exact upTo b.1 (List.fst_mem_of_mem_zipIdx known) shallow.1 shallow.2

theorem governing_concat {row : α} (own : eligible row = true) (lower : depth row < indent)
    (upTo : ∀ b ∈ rows, depth b < indent → depth b ≤ depth row) :
    governing depth eligible indent (rows ++ [row]) = some rows.length :=
  (governing_concat_iff own lower).mpr fun b mem _ => upTo b mem

end Governing

end CallSchema.Outline
