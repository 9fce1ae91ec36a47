import CallSchema.Outline.Definition

set_option autoImplicit false

namespace CallSchema.Outline

def lastMax {α : Type} (key : α → Nat) : List α → Option α
  | [] => none
  | a :: rest =>
    match lastMax key rest with
    | none => some a
    | some b => if key a ≤ key b then some b else some a

-- The position of the row that governs an indentation: of the eligible rows at a smaller depth the
-- deepest, and of equally deep ones the last.
def governing {α : Type} (depth : α → Nat) (eligible : α → Bool) (indent : Nat) (rows : List α) :
    Option Nat :=
  (lastMax (fun row => depth row.1)
    (rows.zipIdx.filter fun row => eligible row.1 && depth row.1 < indent)).map (·.2)

-- What a run of prose goes by: the indentation of its first line, and the definition it belongs to,
-- if any.
structure Run where
  indent : Nat
  owner : Option Nat
  deriving DecidableEq, Repr

structure Scan where
  definitions : List Definition
  prose : List Text
  run : Option Run
  deriving DecidableEq, Repr

namespace Scan

def start : Scan := ⟨[], [], none⟩

def define (scan : Scan) (indent : Nat) (head : Head) : Scan :=
  { scan with definitions := scan.definitions ++ [⟨head, indent, []⟩], run := none }

def runAt (scan : Scan) (indent : Nat) : Run :=
  match scan.run.filter (·.indent < indent) with
  | some run => run
  | none => ⟨indent, governing (·.indent) (fun _ => true) indent scan.definitions⟩

def addNote (line : Text) (definition : Definition) : Definition :=
  { definition with notes := definition.notes ++ [line] }

def note (scan : Scan) (run : Run) (line : Text) : Scan :=
  match run.owner with
  | some owner =>
    { scan with definitions := scan.definitions.modify owner (addNote line), run := some run }
  | none => { scan with prose := scan.prose ++ [line], run := some run }

def line (scan : Scan) (line : Text) : Scan :=
  if Text.blank line then scan
  else match head? line with
    | some head => scan.define (indentOf line) head
    | none => scan.note (scan.runAt (indentOf line)) line

end Scan

def scanLines (ls : List Text) : Scan := ls.foldl Scan.line .start

def scan (t : Text) : Scan := scanLines (Text.lines t)

def room : List Text → Nat
  | [] => 0
  | line :: rest => line.length + 1 + room rest

theorem room_append (ls ks : List Text) : room (ls ++ ks) = room ls + room ks := by
  induction ls with
  | nil => simp [room]
  | cons first rest ih => simp only [List.cons_append, room, ih, Nat.add_assoc]

theorem room_lines (t : Text) : room (Text.lines t) ≤ t.length + 1 := by
  fun_induction Text.lines t with
  | case1 => simp [room]
  | case2 t ih => simp only [room, List.length_nil, List.length_cons] at ih ⊢; omega
  | case3 t ih => simp only [room, List.length_nil, List.length_cons] at ih ⊢; omega
  | case4 c t _ _ ih =>
    cases ht : Text.lines t with
    | nil => simp [Text.addToFirst, room]
    | cons first rest =>
      rw [ht] at ih
      simp only [Text.addToFirst, room, List.length_cons] at ih ⊢
      omega

theorem length_joinLines_le (ls : List Text) : (Text.joinLines ls).length ≤ room ls := by
  induction ls with
  | nil => simp [Text.joinLines, List.intercalate]
  | cons first rest ih =>
    cases rest with
    | nil => simp [Text.joinLines, List.intercalate, room]
    | cons second rest =>
      simp only [Text.joinLines, List.intercalate, List.intersperse_cons_cons, List.flatten_cons,
        List.length_append, List.length_singleton, room] at ih ⊢
      omega

theorem room_filter_le (keep : Text → Bool) (ls : List Text) : room (ls.filter keep) ≤ room ls := by
  induction ls with
  | nil => simp
  | cons first rest ih =>
    rw [List.filter_cons]
    split <;> simp only [room] <;> omega

theorem room_trimEnd_le (ls : List Text) : room (ls.map Text.trimEnd) ≤ room ls := by
  induction ls with
  | nil => simp
  | cons first rest ih =>
    have := Text.length_trimEnd_le first
    simp only [List.map_cons, room]
    omega

theorem Definition.length_body_le (definition : Definition) :
    definition.body.length ≤ room (definition.summary :: definition.notes) := by
  refine Nat.le_trans (length_joinLines_le _) (Nat.le_trans (room_filter_le _ _) ?_)
  have := room_trimEnd_le definition.notes
  simp only [room]
  omega

def Scan.Within (scan : Scan) (limit : Nat) : Prop :=
  ∀ definition ∈ scan.definitions, room (definition.summary :: definition.notes) + 2 ≤ limit

theorem Scan.within_line {scan : Scan} {limit : Nat} (within : scan.Within limit) (line : Text) :
    (scan.line line).Within (limit + (line.length + 1)) := by
  have wider : ∀ definition ∈ scan.definitions,
      room (definition.summary :: definition.notes) + 2 ≤ limit + (line.length + 1) :=
    fun definition hd => Nat.le_trans (within definition hd) (Nat.le_add_right _ _)
  unfold Scan.line
  split
  · exact wider
  split
  · next head hh =>
    intro definition hd
    rcases List.mem_append.mp hd with hd | hd
    · exact wider definition hd
    · obtain rfl := List.mem_singleton.mp hd
      have := length_summary_of_head? hh
      simp only [room]
      omega
  · unfold Scan.note
    split
    · intro definition hd
      obtain ⟨i, hi, rfl⟩ := List.mem_iff_getElem.mp hd
      simp only [List.length_modify] at hi
      rw [List.getElem_modify]
      split
      · have := within _ (List.getElem_mem hi)
        simp only [addNote, room, room_append] at this ⊢
        omega
      · exact wider _ (List.getElem_mem hi)
    · exact wider

theorem Scan.within_lines {scan : Scan} {limit : Nat} (within : scan.Within limit)
    (ls : List Text) : (ls.foldl Scan.line scan).Within (limit + room ls) := by
  induction ls generalizing scan limit with
  | nil => simpa [room] using within
  | cons first rest ih =>
    have := ih (within_line within first)
    simpa [room, Nat.add_assoc] using this

theorem length_body_lt {t : Text} {definition : Definition}
    (h : definition ∈ (scan t).definitions) : definition.body.length < t.length := by
  have within : (scan t).Within (0 + room (Text.lines t)) :=
    Scan.within_lines (by simp [Scan.Within, Scan.start]) _
  have := within definition h
  have := definition.length_body_le
  have := room_lines t
  omega

end CallSchema.Outline
