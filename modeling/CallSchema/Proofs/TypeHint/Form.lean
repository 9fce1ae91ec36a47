import CallSchema.Proofs.Text.Strip
import CallSchema.Proofs.TypeHint.Parts
import CallSchema.TypeHint.Reading

set_option autoImplicit false

namespace CallSchema.TypeHint

def Form.schema : Form → Schema
  | .leaf schema => schema
  | .quoted inner => TypeHint.schema inner
  | .union [] => .null
  | .union (member :: _) => TypeHint.schema member
  | .sequence [] => .anyArray
  | .sequence (c :: rest) => .arrayOf (TypeHint.schema (c :: rest))

theorem schema_eq (t : Text) : schema t = (Form.of (Text.trim t)).schema := by
  rw [schema]
  split <;> next form => rw [form]; rfl

theorem schema_trim (t : Text) : schema (Text.trim t) = schema t := by
  rw [schema_eq, Text.trim_trim, ← schema_eq]

def isNameChar (c : Char) : Bool :=
  !Text.isBlank c && !(['[', ']', '(', ')', ',', '\'', '"'].contains c)

def IsName (t : Text) : Prop := t ≠ [] ∧ ∀ c ∈ t, isNameChar c = true

instance (t : Text) : Decidable (IsName t) :=
  decidable_of_iff (t ≠ [] ∧ t.all isNameChar = true) (by rw [List.all_eq_true, IsName])

def bracketed (name inner : Text) : Text := name ++ '[' :: (inner ++ [']'])

theorem IsName.not_mem {t : Text} (h : IsName t) {c : Char} (other : isNameChar c = false) :
    c ∉ t := by
  intro mem
  rw [h.2 c mem] at other
  exact absurd other (by decide)

theorem isBlank_of_isNameChar {c : Char} (h : isNameChar c = true) : Text.isBlank c = false := by
  simp only [isNameChar, Bool.and_eq_true, Bool.not_eq_true'] at h
  exact h.1

theorem IsName.isBlank_of_mem {t : Text} (h : IsName t) {c : Char} (mem : c ∈ t) :
    Text.isBlank c = false :=
  isBlank_of_isNameChar (h.2 c mem)

theorem IsName.depthStep_of_mem {t : Text} (h : IsName t) {c : Char} (mem : c ∈ t) :
    depthStep c = 0 := by
  have other := h.2 c mem
  unfold depthStep
  split
  · next opening => rcases opening with rfl | rfl <;> exact absurd other (by decide)
  split
  · next closing => rcases closing with rfl | rfl <;> exact absurd other (by decide)
  · rfl

theorem IsName.trim_eq {t : Text} (h : IsName t) : Text.trim t = t := by
  apply Text.trim_eq_self
  · intro c hc
    exact h.isBlank_of_mem (List.mem_of_head? hc)
  · intro c hc
    exact h.isBlank_of_mem (List.mem_of_getLast? hc)

theorem IsName.head_opened {name : Text} (h : IsName name) (rest : Text) :
    ∀ c ∈ (name ++ '[' :: rest).head?, isNameChar c = true := by
  obtain ⟨first, more, rfl⟩ := List.exists_cons_of_ne_nil h.1
  intro c hc
  obtain rfl : first = c := by simpa using hc
  exact h.2 first (by simp)

theorem IsName.trim_bracketed {name : Text} (h : IsName name) (inner : Text) :
    Text.trim (bracketed name inner) = bracketed name inner := by
  apply Text.trim_eq_self
  · intro c hc
    exact isBlank_of_isNameChar (h.head_opened (inner ++ [']']) c hc)
  · intro c hc
    have ending : bracketed name inner = (name ++ '[' :: inner) ++ [']'] := by simp [bracketed]
    rw [ending, List.getLast?_concat] at hc
    cases hc
    rfl

theorem IsName.balanced {name : Text} (h : IsName name) : Balanced 0 name :=
  balanced_of_flat fun _ => h.depthStep_of_mem

theorem IsName.single {name : Text} (h : IsName name) : Single 0 name :=
  single_of_flat (fun _ => h.depthStep_of_mem) (h.not_mem (by decide))

theorem IsName.balanced_bracketed {name inner : Text} (h : IsName name) (inside : Balanced 0 inner) :
    Balanced 0 (bracketed name inner) :=
  balanced_append h.balanced (by decide) (balanced_brackets inside)

theorem IsName.single_bracketed {name inner : Text} (h : IsName name) (inside : Balanced 0 inner) :
    Single 0 (bracketed name inner) :=
  single_append h.single (single_brackets inside)

theorem stripStart?_bracketed {word name : Text} (plain : '[' ∉ word) (h : '[' ∉ name)
    (rest : Text) :
    Text.stripStart? (word ++ ['[']) (name ++ '[' :: rest) =
      if word = name then some rest else none := by
  induction word generalizing name with
  | nil =>
    cases name with
    | nil => rfl
    | cons c name =>
      have other : '[' ≠ c := by
        rintro rfl
        exact h (by simp)
      rw [List.nil_append, List.cons_append, Text.stripStart?_cons_of_ne other, if_neg (by simp)]
  | cons w word ih =>
    cases name with
    | nil =>
      have other : w ≠ '[' := by
        rintro rfl
        exact plain (by simp)
      rw [List.nil_append, List.cons_append, Text.stripStart?_cons_of_ne other, if_neg (by simp)]
    | cons c name =>
      by_cases same : w = c
      · subst same
        have tail := @ih name (fun mem => plain (by simp [mem])) fun mem => h (by simp [mem])
        rw [List.cons_append, List.cons_append, Text.stripStart?_cons_self, tail]
        simp
      · rw [List.cons_append, List.cons_append, Text.stripStart?_cons_of_ne same,
          if_neg (by simp [same])]

theorem openArguments?_opened {word name : Text} (plain : '[' ∉ word) (h : IsName name)
    (rest : Text) :
    openArguments? (word ++ ['[']) (name ++ '[' :: rest) =
      if word = name then some (Text.trim ((Text.stripEnd? [']'] rest).getD rest)) else none := by
  rw [openArguments?, stripStart?_bracketed plain (h.not_mem (by decide))]
  by_cases same : word = name <;> simp [same]

theorem arguments?_opened {word name : Text} (plain : '[' ∉ word) (h : IsName name) (rest : Text) :
    arguments? (word ++ ['[']) (name ++ '[' :: rest) =
      if word = name then (Text.stripEnd? [']'] rest).map Text.trim else none := by
  rw [arguments?, Text.between?, stripStart?_bracketed plain (h.not_mem (by decide))]
  by_cases same : word = name <;> simp [same]

theorem stripStart?_opening_of_isName {t : Text} (h : IsName t) (word : Text) :
    Text.stripStart? (word ++ ['[']) t = none := by
  rw [Text.stripStart?_eq_none_iff]
  rintro rest rfl
  exact h.not_mem (c := '[') (by decide) (by simp)

theorem openArguments?_of_isName {t : Text} (h : IsName t) (word : Text) :
    openArguments? (word ++ ['[']) t = none := by
  rw [openArguments?, stripStart?_opening_of_isName h, Option.map_none]

theorem arguments?_of_isName {t : Text} (h : IsName t) (word : Text) :
    arguments? (word ++ ['[']) t = none := by
  rw [arguments?, Text.between?, stripStart?_opening_of_isName h, Option.bind_none, Option.map_none]

theorem isName_of_mem_words : ∀ entry ∈ words, IsName entry.1 := by decide

theorem lookup_words_of_not_isName {t : Text} {c : Char} (mem : c ∈ t)
    (other : isNameChar c = false) : words.lookup t = none := by
  rw [List.lookup_eq_none_iff]
  intro entry known
  have different : t ≠ entry.1 := by
    rintro rfl
    exact (isName_of_mem_words entry known).not_mem other mem
  simpa using different

theorem unquote?_of_isNameChar {t : Text} (h : ∀ c ∈ t.head?, isNameChar c = true) :
    Text.unquote? ['\'', '"'] t = none := by
  apply Text.unquote?_eq_none
  intro c hc quote
  have first := h c hc
  rcases List.mem_cons.mp quote with rfl | quote
  · exact absurd first (by decide)
  · obtain rfl := List.mem_singleton.mp quote
    exact absurd first (by decide)

theorem Form.of_isName {t : Text} (h : IsName t) :
    Form.of t = .leaf ((words.lookup t).getD .anyObject) := by
  have noQuote : Text.unquote? ['\'', '"'] t = none :=
    unquote?_of_isNameChar fun c hc => h.2 c (List.mem_of_head? hc)
  have noOpen : ["Optional[", "Union["].findSome? (openArguments? ·.toList t) = none := by
    simp only [List.findSome?_eq_none_iff, List.forall_mem_cons]
    exact ⟨openArguments?_of_isName h "Optional".toList,
      openArguments?_of_isName h "Union".toList, by simp⟩
  have noSequence :
      ["List[", "list[", "Tuple[", "tuple["].findSome? (arguments? ·.toList t) = none := by
    simp only [List.findSome?_eq_none_iff, List.forall_mem_cons]
    exact ⟨arguments?_of_isName h "List".toList, arguments?_of_isName h "list".toList,
      arguments?_of_isName h "Tuple".toList, arguments?_of_isName h "tuple".toList, by simp⟩
  have noLiteral : arguments? "Literal[" t = none := arguments?_of_isName h "Literal".toList
  unfold Form.of
  cases words.lookup t with
  | some schema => rfl
  | none => simp only [noQuote, noOpen, noSequence, noLiteral, Option.getD_none]

theorem Form.of_quoted {mark : Char} (known : mark ∈ ['\'', '"']) (inner : Text) :
    Form.of (mark :: (inner ++ [mark])) = .quoted inner := by
  have other : isNameChar mark = false := by
    rcases List.mem_cons.mp known with rfl | known
    · rfl
    · obtain rfl := List.mem_singleton.mp known
      rfl
  have noWord : words.lookup (mark :: (inner ++ [mark])) = none :=
    lookup_words_of_not_isName (by simp) other
  unfold Form.of
  simp only [noWord, Text.unquote?_append known]

def sequenceNames : List Text := ["List", "list", "Tuple", "tuple"]

theorem findSome?_opened (wordList : List Text) {read : Text → Text → Option Text} {t name : Text}
    {found : Option Text}
    (step : ∀ word ∈ wordList, read (word ++ ['[']) t = if word = name then found else none) :
    (wordList.map (· ++ ['['])).findSome? (read · t) = if name ∈ wordList then found else none := by
  induction wordList with
  | nil => rfl
  | cons word rest ih =>
    have first := step word (by simp)
    have later := ih fun w mem => step w (by simp [mem])
    rw [List.map_cons, List.findSome?_cons, first]
    by_cases same : word = name
    · cases found <;> simp [same, later]
    · simp only [if_neg same, later, List.mem_cons, Ne.symm same, false_or]

theorem Form.of_opened {name : Text} (h : IsName name) (rest : Text) :
    Form.of (name ++ '[' :: rest) =
      if name = "Optional".toList ∨ name = "Union".toList then
        .union (givenParts (Text.trim ((Text.stripEnd? [']'] rest).getD rest)))
      else match Text.stripEnd? [']'] rest with
        | none => .leaf .anyObject
        | some inner =>
          if name ∈ sequenceNames then .sequence (Text.trim inner)
          else if name = "Literal".toList then .leaf (literalSchema (Text.trim inner))
          else .leaf .anyObject := by
  have noWord : words.lookup (name ++ '[' :: rest) = none :=
    lookup_words_of_not_isName (c := '[') (by simp) (by decide)
  have noQuote := unquote?_of_isNameChar (h.head_opened rest)
  have union : ["Optional[", "Union["].findSome? (openArguments? ·.toList (name ++ '[' :: rest)) =
      if name ∈ ["Optional".toList, "Union".toList] then
        some (Text.trim ((Text.stripEnd? [']'] rest).getD rest)) else none :=
    findSome?_opened ["Optional".toList, "Union".toList]
      fun word known => openArguments?_opened (by revert word; decide) h rest
  have sequence : ["List[", "list[", "Tuple[", "tuple["].findSome?
        (arguments? ·.toList (name ++ '[' :: rest)) =
      if name ∈ sequenceNames then (Text.stripEnd? [']'] rest).map Text.trim else none :=
    findSome?_opened sequenceNames
      fun word known => arguments?_opened (by revert word; decide) h rest
  have literal : arguments? "Literal[" (name ++ '[' :: rest) =
      if "Literal".toList = name then (Text.stripEnd? [']'] rest).map Text.trim else none :=
    @arguments?_opened "Literal".toList name (by decide) h rest
  unfold Form.of
  simp only [noWord, noQuote, union, sequence, literal, List.mem_cons, List.not_mem_nil, or_false]
  by_cases isUnion : name = "Optional".toList ∨ name = "Union".toList
  · simp only [if_pos isUnion]
  cases Text.stripEnd? [']'] rest with
  | none => simp only [if_neg isUnion, Option.map_none, ite_self]
  | some inner =>
    by_cases isSequence : name ∈ sequenceNames
    · simp only [if_neg isUnion, if_pos isSequence, Option.map_some]
    by_cases isLiteral : name = "Literal".toList
    · simp only [if_neg isUnion, if_neg isSequence, if_pos isLiteral, if_pos isLiteral.symm,
        Option.map_some]
    · simp only [if_neg isUnion, if_neg isSequence, if_neg isLiteral, if_neg (Ne.symm isLiteral)]

theorem Form.of_bracketed {name : Text} (h : IsName name) (inner : Text) :
    Form.of (bracketed name inner) =
      if name = "Optional".toList ∨ name = "Union".toList then .union (givenParts (Text.trim inner))
      else if name ∈ sequenceNames then .sequence (Text.trim inner)
      else if name = "Literal".toList then .leaf (literalSchema (Text.trim inner))
      else .leaf .anyObject := by
  rw [bracketed, Form.of_opened h]
  simp only [Text.stripEnd?_append, Option.getD_some]

end CallSchema.TypeHint
