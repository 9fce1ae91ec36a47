import CallSchema.TypeHint.Parts
import CallSchema.Schema.Basic

set_option autoImplicit false

namespace CallSchema.TypeHint

inductive Form where
  -- An hint that stands for a schema without a look inside.
  | leaf (schema : Schema)
  | quoted (inner : Text)
  -- One of several type hints, the absent value left out.
  | union (members : List Text)
  | sequence (inner : Text)

def words : List (Text × Schema) :=
  [("str", .string), ("bytes", .string), ("UUID", .string), ("int", .integer), ("float", .number),
    ("bool", .boolean), ("list", .anyArray), ("List", .anyArray), ("tuple", .anyArray),
    ("Tuple", .anyArray), ("dict", .anyObject), ("Dict", .anyObject), ("Any", .anyObject)]

-- The text after an opening word and bracket, without the bracket that closes the hint. A missing
-- closing bracket is no obstacle.
def openArguments? (opening t : Text) : Option Text :=
  (Text.stripStart? opening t).map fun rest =>
    Text.trim ((Text.stripEnd? [']'] rest).getD rest)

def arguments? (opening t : Text) : Option Text :=
  (Text.between? opening [']'] t).map Text.trim

-- A choice between literal values is a choice of numbers if a digit occurs in it.
def literalSchema (inner : Text) : Schema := if inner.any Char.isDigit then .integer else .string

def Form.of (t : Text) : Form :=
  match words.lookup t with
  | some schema => .leaf schema
  | none =>
  match Text.unquote? ['\'', '"'] t with
  | some inner => .quoted inner
  | none =>
  match ["Optional[", "Union["].findSome? (openArguments? ·.toList t) with
  | some inner => .union (givenParts inner)
  | none =>
  match ["List[", "list[", "Tuple[", "tuple["].findSome? (arguments? ·.toList t) with
  | some inner => .sequence inner
  | none =>
  match arguments? "Literal[" t with
  | some inner => .leaf (literalSchema inner)
  | none => .leaf .anyObject

def Form.inner : Form → List Text
  | .leaf _ => []
  | .quoted inner => [inner]
  | .union members => members.take 1
  | .sequence inner => [inner]

theorem length_of_openArguments? {opening t inner : Text}
    (h : openArguments? opening t = some inner) : opening.length + inner.length ≤ t.length := by
  obtain ⟨rest, hr, rfl⟩ := Option.map_eq_some_iff.mp h
  rw [Text.length_of_stripStart? hr]
  have := Text.length_trim_le ((Text.stripEnd? [']'] rest).getD rest)
  cases hs : Text.stripEnd? [']'] rest with
  | none => simp only [hs, Option.getD_none] at this ⊢; omega
  | some short =>
    have := congrArg List.length (Text.append_of_stripEnd? hs)
    simp only [hs, Option.getD_some, List.length_append] at *
    omega

theorem length_of_arguments? {opening t inner : Text}
    (h : arguments? opening t = some inner) : opening.length + inner.length < t.length := by
  obtain ⟨rest, hr, rfl⟩ := Option.map_eq_some_iff.mp h
  have := Text.length_trim_le rest
  have := congrArg List.length (Text.append_of_between? hr)
  simp only [List.length_append, List.length_singleton] at this
  omega

theorem length_of_unquote? {marks : List Char} {t inner : Text}
    (h : Text.unquote? marks t = some inner) : inner.length < t.length := by
  obtain ⟨mark, -, hm⟩ := List.exists_of_findSome?_eq_some h
  have := congrArg List.length (Text.append_of_between? hm)
  simp only [List.length_append, List.length_singleton] at this
  omega

theorem length_lt_of_mem_inner {t inner : Text} (h : inner ∈ (Form.of t).inner) :
    inner.length < t.length := by
  unfold Form.of at h
  split at h
  · simp [Form.inner] at h
  split at h
  · next text hq =>
    obtain rfl : inner = text := by simpa [Form.inner] using h
    exact length_of_unquote? hq
  split at h
  · next text hu =>
    obtain ⟨opening, hm, ho⟩ := List.exists_of_findSome?_eq_some hu
    have short := length_le_of_mem_givenParts (List.mem_of_mem_take h)
    have := length_of_openArguments? ho
    have : 0 < opening.toList.length := by
      rcases List.mem_cons.mp hm with rfl | hm
      · decide
      · rcases List.mem_cons.mp hm with rfl | hm
        · decide
        · cases hm
    omega
  split at h
  · next text hs =>
    obtain rfl : inner = text := by simpa [Form.inner] using h
    obtain ⟨opening, -, ho⟩ := List.exists_of_findSome?_eq_some hs
    have := length_of_arguments? ho
    omega
  split at h <;> simp [Form.inner] at h

def schema (t : Text) : Schema :=
  match _form : Form.of (Text.trim t) with
  | .leaf schema => schema
  | .quoted inner => schema inner
  | .union [] => .null
  | .union (member :: _) => schema member
  | .sequence [] => .anyArray
  | .sequence (c :: rest) => .arrayOf (schema (c :: rest))
termination_by t.length
decreasing_by
  all_goals
    refine Nat.lt_of_lt_of_le (length_lt_of_mem_inner (by rw [_form]; simp [Form.inner])) ?_
    exact Text.length_trim_le t

end CallSchema.TypeHint
