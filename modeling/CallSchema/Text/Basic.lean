set_option autoImplicit false

namespace CallSchema

abbrev Text := List Char

instance : Coe String Text := ⟨String.toList⟩

namespace Text

def isBlank (c : Char) : Bool :=
  c == ' ' || ('\t' ≤ c && c ≤ '\r') || c == '\u0085' || c == '\u00a0' || c == '\u1680' ||
    ('\u2000' ≤ c && c ≤ '\u200a') || c == '\u2028' || c == '\u2029' || c == '\u202f' ||
    c == '\u205f' || c == '\u3000'

def trimStart (t : Text) : Text := t.dropWhile isBlank

def trimEnd (t : Text) : Text := (t.reverse.dropWhile isBlank).reverse

def trim (t : Text) : Text := trimEnd (trimStart t)

def blank (t : Text) : Bool := t.all isBlank

def stripStart? : Text → Text → Option Text
  | [], t => some t
  | _ :: _, [] => none
  | s :: start, c :: t => if s = c then stripStart? start t else none

def stripEnd? (stop t : Text) : Option Text :=
  (stripStart? stop.reverse t.reverse).map List.reverse

def between? (start stop t : Text) : Option Text :=
  (stripStart? start t).bind (stripEnd? stop)

def splitFirst? (mark : Text) : Text → Option (Text × Text)
  | [] => (stripStart? mark []).map ([], ·)
  | c :: t =>
    match stripStart? mark (c :: t) with
    | some after => some ([], after)
    | none => (splitFirst? mark t).map fun parts => (c :: parts.1, parts.2)

def splitLast? (mark t : Text) : Option (Text × Text) :=
  (splitFirst? mark.reverse t.reverse).map fun parts => (parts.2.reverse, parts.1.reverse)

def addToFirst (c : Char) : List Text → List Text
  | [] => [[c]]
  | first :: rest => (c :: first) :: rest

def pieces (mark : Char) : Text → List Text
  | [] => [[]]
  | c :: t => if c = mark then [] :: pieces mark t else addToFirst c (pieces mark t)

-- The lines of a text. A carriage return right before a line feed belongs to the line end; a line
-- feed at the very end closes the last line and opens none.
def lines : Text → List Text
  | [] => []
  | '\n' :: t => [] :: lines t
  | '\r' :: '\n' :: t => [] :: lines t
  | c :: t => addToFirst c (lines t)

def joinLines (ls : List Text) : Text := List.intercalate ['\n'] ls

def tidy (t : Text) : Text := joinLines (((lines t).map trim).filter (· ≠ []))

def unquote? (marks : List Char) (t : Text) : Option Text :=
  marks.findSome? fun mark => between? [mark] [mark] t

def trimMarks (marks : List Char) (t : Text) : Text :=
  ((t.dropWhile marks.contains).reverse.dropWhile marks.contains).reverse

def sameIgnoringCase (s t : Text) : Bool := s.map Char.toLower == t.map Char.toLower

def stripStartIgnoringCase? : Text → Text → Option Text
  | [], t => some t
  | _ :: _, [] => none
  | s :: start, c :: t =>
    if s.toLower = c.toLower then stripStartIgnoringCase? start t else none

def utf8Length : Text → Nat
  | [] => 0
  | c :: t => c.utf8Size + utf8Length t

def inOrder (s t : Text) : Bool := !decide (t < s)

theorem length_trimStart_le (t : Text) : (trimStart t).length ≤ t.length :=
  (List.dropWhile_sublist isBlank).length_le

theorem length_trimEnd_le (t : Text) : (trimEnd t).length ≤ t.length := by
  simpa [trimEnd, trimStart] using length_trimStart_le t.reverse

theorem length_trim_le (t : Text) : (trim t).length ≤ t.length :=
  Nat.le_trans (length_trimEnd_le _) (length_trimStart_le t)

theorem append_of_stripStart? {start t rest : Text} (h : stripStart? start t = some rest) :
    t = start ++ rest := by
  induction start generalizing t with
  | nil => simpa [stripStart?] using h
  | cons s start ih =>
    cases t with
    | nil => simp [stripStart?] at h
    | cons c t =>
      simp only [stripStart?] at h
      split at h
      · next same => simp [same, ih h]
      · cases h

theorem append_of_stripEnd? {stop t rest : Text} (h : stripEnd? stop t = some rest) :
    t = rest ++ stop := by
  obtain ⟨r, hr, rfl⟩ := Option.map_eq_some_iff.mp h
  have whole := congrArg List.reverse (append_of_stripStart? hr)
  simpa using whole

theorem append_of_between? {start stop t inner : Text} (h : between? start stop t = some inner) :
    t = start ++ inner ++ stop := by
  obtain ⟨r, hr, hi⟩ := Option.bind_eq_some_iff.mp h
  rw [append_of_stripStart? hr, append_of_stripEnd? hi, List.append_assoc]

theorem append_of_splitFirst? {mark t before after : Text}
    (h : splitFirst? mark t = some (before, after)) : t = before ++ mark ++ after := by
  induction t generalizing before with
  | nil =>
    obtain ⟨rest, hr, he⟩ := Option.map_eq_some_iff.mp h
    cases he
    simpa using append_of_stripStart? hr
  | cons c t ih =>
    unfold splitFirst? at h
    split at h
    · next rest hr =>
      cases h
      simpa using append_of_stripStart? hr
    · obtain ⟨⟨rest, _⟩, hr, he⟩ := Option.map_eq_some_iff.mp h
      cases he
      simpa using ih hr

theorem length_of_stripStart? {start t rest : Text} (h : stripStart? start t = some rest) :
    t.length = start.length + rest.length := by
  simp [append_of_stripStart? h]

end Text

end CallSchema
