import CallSchema.Proofs.Outline.Inline

set_option autoImplicit false

namespace CallSchema.Outline

open scoped List

variable {t : Text} {ls : List Text} {head : Head} {definition : Definition}

namespace Scan

variable {scan : Scan}

def From (ls : List Text) (scan : Scan) : Prop :=
  ∀ definition ∈ scan.definitions,
    Text.ended (definition.summary :: definition.notes) <+ Text.ended ls

theorem From.line (known : scan.From ls) (line : Text) : (scan.line line).From (ls ++ [line]) := by
  have wider : ∀ definition ∈ scan.definitions,
      Text.ended (definition.summary :: definition.notes) <+ Text.ended (ls ++ [line]) := by
    intro definition mem
    rw [Text.ended_append]
    exact List.sublist_append_of_sublist_left (known definition mem)
  by_cases blank : Text.blank line = true
  · rwa [line_of_blank blank]
  rw [Bool.not_eq_true] at blank
  cases found : head? line with
  | some head =>
    rw [line_of_head? found]
    intro definition mem
    rcases List.mem_append.mp mem with old | new
    · exact wider definition old
    · obtain rfl := List.mem_singleton.mp new
      rw [Text.ended_append, Text.ended_singleton, Text.ended_singleton]
      exact List.sublist_append_of_sublist_right ((summary_sublist found).append_right _)
  | none =>
    rw [line_of_prose blank found]
    unfold note
    split
    · intro definition mem
      obtain ⟨i, here, rfl⟩ := List.mem_iff_getElem.mp mem
      simp only [List.length_modify] at here
      rw [List.getElem_modify]
      split
      · have own := known _ (List.getElem_mem here)
        rw [addNote, ← List.cons_append, Text.ended_append, Text.ended_append]
        exact own.append_right _
      · exact wider _ (List.getElem_mem here)
    · exact wider

theorem From.lines (known : scan.From ls) (more : List Text) :
    (more.foldl Scan.line scan).From (ls ++ more) := by
  induction more generalizing scan ls with
  | nil => simpa using known
  | cons line rest ih =>
    have next := ih (known.line line)
    rwa [List.append_assoc] at next

end Scan

theorem from_scan (t : Text) : (scan t).From (Text.lines t) := by
  have start : Scan.start.From [] := by simp [Scan.From, Scan.start]
  exact start.lines (Text.lines t)

theorem body_sublist (known : definition ∈ (scan t).definitions) : definition.body <+ t := by
  refine Text.joinLines_sublist (.trans ?_ (from_scan t definition known))
  refine (Text.ended_filter_sublist _ _).trans ?_
  rw [Text.ended_cons, Text.ended_cons]
  exact ((Text.ended_trimEnd_sublist definition.notes).cons_cons '\n').append_left definition.summary

theorem utf8Length_body_lt (known : definition ∈ (scan t).definitions) :
    Text.utf8Length definition.body < Text.utf8Length t :=
  Text.utf8Length_lt (body_sublist known) (length_body_lt known)

theorem Definition.Scanned.no_definitions_body (h : definition.Scanned)
    (plain : head? definition.summary = none) : (scan definition.body).definitions = [] :=
  no_definitions (h.prose_body plain)

theorem isSome_shape_read (t : Text) :
    (read t).shape.isSome = !(scan t).definitions.isEmpty := by
  rw [read_eq]
  split
  · next none => simp [none]
  · next some => simp [some]

theorem Definition.Scanned.isSome_shape_body (h : definition.Scanned) :
    (read definition.body).shape.isSome = (head? definition.summary).isSome := by
  rw [isSome_shape_read]
  cases found : head? definition.summary with
  | none => simp [h.no_definitions_body found]
  | some inner => simp [(h.scan_body found).1]

def closings : Text → Nat
  | [] => 0
  | c :: t => closings t + if c = ')' ∧ t.head? = some ':' then 1 else 0

theorem closings_append_le (s t : Text) : closings s + closings t ≤ closings (s ++ t) := by
  induction s with
  | nil => simp [closings]
  | cons c s ih =>
    have kept : (c = ')' ∧ s.head? = some ':') → c = ')' ∧ (s ++ t).head? = some ':' := by
      rintro ⟨close, colon⟩
      exact ⟨close, by simp [List.head?_append, colon]⟩
    rw [List.cons_append, closings, closings]
    split
    · next here =>
      rw [if_pos (kept here)]
      omega
    · omega

theorem closings_trim_le (t : Text) : closings (Text.trim t) ≤ closings t := by
  obtain ⟨s, e, -, -, whole⟩ := Text.exists_trim t
  have front := closings_append_le s (Text.trim t ++ e)
  have back := closings_append_le (Text.trim t) e
  rw [← whole] at front
  omega

theorem closings_withoutDash_le (line : Text) : closings (withoutDash line) ≤ closings line := by
  have whole := closings_trim_le line
  unfold withoutDash
  split
  · next rest found =>
    have inner := closings_trim_le rest
    have front := closings_append_le ['-'] rest
    rw [← Text.append_of_stripStart? found] at front
    omega
  · exact whole

theorem closings_summary_lt {line : Text} (h : head? line = some head) :
    closings head.summary < closings line := by
  obtain ⟨before, after, whole, summary⟩ := summary_of_head? h
  have cut : closings [')', ':'] = 1 := rfl
  have front := closings_append_le before [')', ':']
  have behind := closings_append_le (before ++ [')', ':']) after
  have inner := closings_trim_le after
  have outer := closings_withoutDash_le line
  rw [whole] at outer
  rw [summary]
  omega

def mostClosings (t : Text) : Nat := ((Text.lines t).map closings).max?.getD 0

theorem closings_le_mostClosings {line : Text} (mem : line ∈ Text.lines t) :
    closings line ≤ mostClosings t :=
  List.le_max?_getD_of_mem (List.mem_map_of_mem mem)

-- The reading of a text that goes down at most so many levels, the text itself being one, and gives
-- nothing where there are more.
def readWithin : Nat → Text → Option Outline
  | 0, _ => none
  | levels + 1, t => do
    let entries ← (scan t).definitions.mapM fun definition =>
      (if definition.valueSchema.hosts then readWithin levels definition.body
        else some ⟨Text.tidy definition.body, none⟩).map definition.entry
    return if entries.isEmpty then ⟨Text.tidy t, none⟩
      else ⟨Text.tidy (Text.joinLines (scan t).prose), some (nest entries)⟩

theorem mapM_eq_some_map {α β : Type} {f : α → Option β} {g : α → β} {as : List α}
    (each : ∀ a ∈ as, f a = some (g a)) : as.mapM f = some (as.map g) := by
  induction as with
  | nil => rfl
  | cons a rest ih =>
    obtain ⟨own, later⟩ := List.forall_mem_cons.mp each
    rw [List.mapM_cons, own, ih later]
    rfl

theorem readWithin_succ {levels : Nat}
    (inner : ∀ definition ∈ (scan t).definitions, definition.valueSchema.hosts = true →
      readWithin levels definition.body = some (read definition.body)) :
    readWithin (levels + 1) t = some (read t) := by
  have each : ∀ definition ∈ (scan t).definitions,
      (if definition.valueSchema.hosts then readWithin levels definition.body
        else some ⟨Text.tidy definition.body, none⟩).map definition.entry =
          some definition.resolved := by
    intro definition known
    rw [← definition.entry_eq_resolved]
    split
    · next hosts => rw [inner definition known hosts, Option.map_some]
    · rw [Option.map_some]
  rw [readWithin, mapM_eq_some_map each, read_eq]
  cases (scan t).definitions <;> rfl

theorem Definition.Scanned.readWithin_body {levels : Nat} (h : definition.Scanned)
    (few : closings definition.summary ≤ levels) :
    readWithin (levels + 1) definition.body = some (read definition.body) := by
  induction levels generalizing definition with
  | zero =>
    have plain : head? definition.summary = none := by
      refine Option.eq_none_iff_forall_ne_some.mpr fun inner found => ?_
      have := closings_summary_lt found
      omega
    refine readWithin_succ fun deeper mem => ?_
    rw [h.no_definitions_body plain] at mem
    cases mem
  | succ levels ih =>
    refine readWithin_succ fun deeper mem _ => ?_
    cases found : head? definition.summary with
    | none =>
      rw [h.no_definitions_body found] at mem
      cases mem
    | some inner =>
      -- What is read further down is the summary alone, with the same notes.
      rw [(h.scan_body found).1, List.mem_singleton] at mem
      have fewer := closings_summary_lt found
      rw [mem]
      exact ih (h.within found) (show closings inner.summary ≤ levels by omega)

theorem readWithin_eq_read (t : Text) : readWithin (1 + mostClosings t) t = some (read t) := by
  rw [Nat.add_comm]
  refine readWithin_succ fun definition known _ => ?_
  have head : definition.toHead ∈ (Text.lines t).filterMap head? := by
    rw [← heads_scan]
    exact List.mem_map_of_mem known
  obtain ⟨line, mem, found⟩ := List.mem_filterMap.mp head
  have most := closings_le_mostClosings mem
  have fewer := closings_summary_lt found
  obtain ⟨levels, enough⟩ : ∃ levels, mostClosings t = levels + 1 := ⟨mostClosings t - 1, by omega⟩
  rw [enough]
  exact ((sound_scan t).definitions definition known).readWithin_body (by omega)

theorem read_descends (t : Text) :
    (∀ definition ∈ (scan t).definitions,
      Text.utf8Length definition.body < Text.utf8Length t ∧
      (read definition.body).shape.isSome = (head? definition.summary).isSome ∧
      ∀ inner, head? definition.summary = some inner →
        (scan definition.body).definitions = [⟨inner, 0, definition.notes.map Text.trimEnd⟩] ∧
        (scan definition.body).prose = []) ∧
    readWithin (1 + mostClosings t) t = some (read t) := by
  refine ⟨fun definition known => ?_, readWithin_eq_read t⟩
  have scanned := (sound_scan t).definitions definition known
  exact ⟨utf8Length_body_lt known, scanned.isSome_shape_body, fun _ => scanned.scan_body⟩

theorem read_descends_noted :
    let t : Text := "a (dict): b (dict): C.\n  see the note (x): y".toList
    let definition : Definition := ⟨⟨"a".toList, "dict".toList, "b (dict): C.".toList⟩, 0,
      ["  see the note (x): y".toList]⟩
    let inner : Head := ⟨"b".toList, "dict".toList, "C.".toList⟩
    definition ∈ (scan t).definitions ∧ head? definition.summary = some inner ∧
      Text.utf8Length definition.body < Text.utf8Length t ∧
      (read definition.body).shape.isSome = true ∧
      (scan definition.body).definitions = [⟨inner, 0, definition.notes.map Text.trimEnd⟩] ∧
      readWithin 3 t = some (read t) := by
  intro t definition inner
  have known : definition ∈ (scan t).definitions := by decide +kernel
  have found : head? definition.summary = some inner := by decide +kernel
  obtain ⟨body, levels⟩ := read_descends t
  obtain ⟨shorter, shape, nested⟩ := body definition known
  rw [found, Option.isSome_some] at shape
  exact ⟨known, found, shorter, shape, (nested inner found).1, levels⟩

end CallSchema.Outline
