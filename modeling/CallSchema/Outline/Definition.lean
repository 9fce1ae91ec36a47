import CallSchema.TypeHint.Parts
import CallSchema.Text.Letter

set_option autoImplicit false

namespace CallSchema.Outline

structure Head where
  name : Text
  hint : Text
  summary : Text
  deriving DecidableEq, Repr

structure Definition extends Head where
  indent : Nat
  notes : List Text
  deriving DecidableEq, Repr

def indentOf (line : Text) : Nat := (line.takeWhile (· == ' ')).length

def withoutDash (line : Text) : Text :=
  match Text.stripStart? ['-'] (Text.trim line) with
  | some rest => Text.trim rest
  | none => Text.trim line

def nameQuotes : List Char := ['"', '\'', '\x60']

-- The parts of a definition line: it is cut at its first `):`, and what precedes that at its last
-- `(`.
def head? (line : Text) : Option Head := do
  let (before, after) ← Text.splitFirst? [')', ':'] (withoutDash line)
  let (name, hint) ← Text.splitLast? ['('] before
  let name := Text.trim name
  let name := (Text.unquote? nameQuotes name).getD name
  guard (Text.isIdentifier name && Text.trim hint != [])
  return ⟨name, Text.trim hint, Text.trim after⟩

theorem length_withoutDash_le (line : Text) : (withoutDash line).length ≤ line.length := by
  have whole := Text.length_trim_le line
  unfold withoutDash
  split
  · next rest hr =>
    have := Text.length_trim_le rest
    have := Text.length_of_stripStart? hr
    omega
  · exact whole

theorem summary_of_head? {line : Text} {head : Head} (h : head? line = some head) :
    ∃ before after, withoutDash line = before ++ [')', ':'] ++ after ∧
      head.summary = Text.trim after := by
  obtain ⟨⟨before, after⟩, split, h⟩ := Option.bind_eq_some_iff.mp h
  obtain ⟨⟨name, hint⟩, -, h⟩ := Option.bind_eq_some_iff.mp h
  obtain ⟨-, -, h⟩ := Option.bind_eq_some_iff.mp h
  cases h
  exact ⟨before, after, Text.append_of_splitFirst? split, rfl⟩

theorem length_summary_of_head? {line : Text} {head : Head} (h : head? line = some head) :
    head.summary.length + 2 ≤ line.length := by
  obtain ⟨before, after, whole, summary⟩ := summary_of_head? h
  have parts := congrArg List.length whole
  have := length_withoutDash_le line
  have := Text.length_trim_le after
  rw [summary]
  simp only [List.length_append, List.length_cons, List.length_nil] at parts
  omega

def Definition.body (definition : Definition) : Text :=
  Text.joinLines ((definition.summary :: definition.notes.map Text.trimEnd).filter (· ≠ []))

-- What follows an optionality word, which may have a comma and blanks before it and blanks after
-- it.
def afterMarker? (t : Text) : Option Text :=
  let start := Text.trimStart ((Text.stripStart? [','] t).getD t)
  (["optional", "required"].findSome? (Text.stripStartIgnoringCase? ·.toList start)).map
    Text.trimStart

theorem length_of_stripStartIgnoringCase? {start t rest : Text}
    (h : Text.stripStartIgnoringCase? start t = some rest) :
    t.length = start.length + rest.length := by
  induction start generalizing t with
  | nil =>
    obtain rfl : t = rest := by simpa [Text.stripStartIgnoringCase?] using h
    simp
  | cons s start ih =>
    cases t with
    | nil => simp [Text.stripStartIgnoringCase?] at h
    | cons c t =>
      simp only [Text.stripStartIgnoringCase?] at h
      split at h
      · have := ih h
        simp only [List.length_cons]
        omega
      · cases h

theorem length_of_afterMarker? {t rest : Text} (h : afterMarker? t = some rest) :
    rest.length < t.length := by
  obtain ⟨after, ha, rfl⟩ := Option.map_eq_some_iff.mp h
  obtain ⟨word, hw, hs⟩ := List.exists_of_findSome?_eq_some ha
  have whole := length_of_stripStartIgnoringCase? hs
  have := Text.length_trimStart_le after
  have := Text.length_trimStart_le ((Text.stripStart? [','] t).getD t)
  have : ((Text.stripStart? [','] t).getD t).length ≤ t.length := by
    cases hc : Text.stripStart? [','] t with
    | none => simp
    | some short => simp [Text.length_of_stripStart? hc]
  have : 0 < word.toList.length := by
    rcases List.mem_cons.mp hw with rfl | hw
    · decide
    · rcases List.mem_cons.mp hw with rfl | hw
      · decide
      · cases hw
  omega

def withoutMarkers (t : Text) : Text :=
  match _marker : afterMarker? t with
  | some rest => withoutMarkers rest
  | none =>
    match t with
    | [] => []
    | c :: rest => c :: withoutMarkers rest
termination_by t.length
decreasing_by
  · exact length_of_afterMarker? _marker
  · simp

def valueHint (hint : Text) : Text :=
  match Text.between? "Optional[" "]" hint with
  | some inner => Text.trim inner
  | none =>
  match Text.between? "Union[" "]" hint with
  | some inner => (TypeHint.givenParts inner).headD "Any"
  | none =>
  match TypeHint.parts hint with
  | first :: _ :: _ => first
  | _ => Text.trim (withoutMarkers hint)

end CallSchema.Outline
