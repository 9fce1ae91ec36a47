import CallSchema.Proofs.TypeHint.Form

set_option autoImplicit false

namespace CallSchema.TypeHint

inductive Primitive where
  | str | bytes | uuid | int | float | bool
  | list | typingList | tuple | typingTuple | dict | typingDict | any

namespace Primitive

def name : Primitive → Text
  | .str => "str"
  | .bytes => "bytes"
  | .uuid => "UUID"
  | .int => "int"
  | .float => "float"
  | .bool => "bool"
  | .list => "list"
  | .typingList => "List"
  | .tuple => "tuple"
  | .typingTuple => "Tuple"
  | .dict => "dict"
  | .typingDict => "Dict"
  | .any => "Any"

def schema : Primitive → Schema
  | .str | .bytes | .uuid => .string
  | .int => .integer
  | .float => .number
  | .bool => .boolean
  | .list | .typingList | .tuple | .typingTuple => .anyArray
  | .dict | .typingDict | .any => .anyObject

theorem lookup_name (word : Primitive) : words.lookup word.name = some word.schema := by
  cases word <;> rfl

theorem isName_name (word : Primitive) : IsName word.name := by
  cases word <;> decide

theorem isNoneName_name (word : Primitive) : isNoneName word.name = false := by
  cases word <;> decide

theorem exists_of_mem_words : ∀ entry ∈ words, ∃ word : Primitive, word.name = entry.1 := by
  simp only [words, List.forall_mem_cons, List.not_mem_nil, IsEmpty.forall_iff, implies_true,
    and_true]
  exact ⟨⟨.str, rfl⟩, ⟨.bytes, rfl⟩, ⟨.uuid, rfl⟩, ⟨.int, rfl⟩, ⟨.float, rfl⟩, ⟨.bool, rfl⟩,
    ⟨.list, rfl⟩, ⟨.typingList, rfl⟩, ⟨.tuple, rfl⟩, ⟨.typingTuple, rfl⟩, ⟨.dict, rfl⟩,
    ⟨.typingDict, rfl⟩, ⟨.any, rfl⟩⟩

end Primitive

structure OtherName where
  text : Text
  isName : IsName text
  notPrimitive : ∀ word : Primitive, text ≠ word.name
  notNone : isNoneName text = false

def formNames : List Text :=
  ["Optional", "Union", "List", "list", "Tuple", "tuple", "Dict", "dict", "Literal"]

structure GenericName where
  text : Text
  isName : IsName text
  notForm : text ∉ formNames

abbrev Blanks := {t : Text // Text.blank t = true}

inductive Quote where
  | single | double

def Quote.char : Quote → Char
  | .single => '\''
  | .double => '"'

inductive Capital where
  | upper | lower

def Capital.pick (capital : Capital) (upper lower : Text) : Text :=
  match capital with
  | .upper => upper
  | .lower => lower

inductive Tree where
  | primitive (word : Primitive)
  | none (spelling : {t : Text // isNoneName t = true})
  | name (name : OtherName)
  | quoted (quote : Quote) (inner : Tree)
  | optional (inner : Tree)
  | union (first : Tree) (rest : List Tree)
  | list (capital : Capital) (inner : Tree)
  | tuple (capital : Capital) (inner : Tree)
  | dict (capital : Capital) (key value : Tree)
  | literal (values : {t : Text // ∀ c ∈ t, c ∉ ['[', ']', '(', ')']})
  | generic (name : GenericName) (arguments : {t : Text // Balanced 0 t})
  -- The white space inside brackets and around commas is that of the hints there.
  | spaced (before : Blanks) (inner : Tree) (after : Blanks)

namespace Tree

mutual

def text : Tree → Text
  | .primitive word => word.name
  | .none spelling => spelling.1
  | .name other => other.text
  | .quoted quote inner => quote.char :: (inner.text ++ [quote.char])
  | .optional inner => bracketed "Optional" inner.text
  | .union first rest => bracketed "Union" (joinCommas (first.text :: texts rest))
  | .list capital inner => bracketed (capital.pick "List" "list") inner.text
  | .tuple capital inner => bracketed (capital.pick "Tuple" "tuple") inner.text
  | .dict capital key value =>
    bracketed (capital.pick "Dict" "dict") (joinCommas [key.text, value.text])
  | .literal values => bracketed "Literal" values.1
  | .generic head arguments => bracketed head.text arguments.1
  | .spaced before inner after => before.1 ++ (inner.text ++ after.1)

def texts : List Tree → List Text
  | [] => []
  | tree :: rest => tree.text :: texts rest

end

def isNone : Tree → Bool
  | .none _ => true
  | .spaced _ inner _ => inner.isNone
  | _ => false

mutual

def schema : Tree → Schema
  | .primitive word => word.schema
  | .quoted _ inner => inner.schema
  | .optional inner => if inner.isNone then .null else inner.schema
  | .union first rest => if first.isNone then unionSchema rest else first.schema
  | .list _ inner => .arrayOf inner.schema
  | .tuple _ inner => .arrayOf inner.schema
  | .literal values => if values.1.any Char.isDigit then .integer else .string
  | .spaced _ inner _ => inner.schema
  | .none _ | .name _ | .dict _ _ _ | .generic _ _ => .anyObject

def unionSchema : List Tree → Schema
  | [] => .null
  | member :: rest => if member.isNone then unionSchema rest else member.schema

end

end Tree

theorem isNameChar_of_toLower {c : Char} (h : isNameChar c.toLower = true) : isNameChar c = true := by
  have capitals : ∀ n < 91, 65 ≤ n → isNameChar (Char.ofNat n) = true := by decide
  by_cases capital : 65 ≤ c.toNat ∧ c.toNat ≤ 90
  · have := capitals c.toNat (by omega) capital.1
    rwa [Char.ofNat_toNat] at this
  · have same : c.toLower = c := by
      unfold Char.toLower
      rw [dif_neg]
      intro within
      exact capital within
    rwa [same] at h

theorem isName_of_isNoneName {t : Text} (h : isNoneName t = true) : IsName t := by
  have lower : t.map Char.toLower = "none".toList ∨ t.map Char.toLower = "nonetype".toList := by
    simpa [isNoneName, Text.sameIgnoringCase] using h
  constructor
  · rintro rfl
    rcases lower with lower | lower <;> exact absurd lower (by decide)
  · intro c mem
    have inside := List.mem_map_of_mem (f := Char.toLower) mem
    have plain : (t.map Char.toLower).all isNameChar = true := by
      rcases lower with lower | lower <;> rw [lower] <;> decide
    exact isNameChar_of_toLower (List.all_eq_true.mp plain c.toLower inside)

end CallSchema.TypeHint
