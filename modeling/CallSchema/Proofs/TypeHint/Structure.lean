import CallSchema.Proofs.TypeHint.Tree

set_option autoImplicit false

namespace CallSchema.TypeHint

theorem IsName.blank_eq_false {t : Text} (h : IsName t) : Text.blank t = false := by
  obtain ⟨c, rest, rfl⟩ := List.exists_cons_of_ne_nil h.1
  exact Text.blank_cons_of_not (h.isBlank_of_mem (by simp))

theorem IsName.blank_bracketed {name : Text} (h : IsName name) (inner : Text) :
    Text.blank (bracketed name inner) = false := by
  rw [bracketed, Text.blank_append, h.blank_eq_false, Bool.false_and]

theorem Quote.char_mem (quote : Quote) : quote.char ∈ ['\'', '"'] := by
  cases quote <;> decide

theorem Quote.isBlank_char (quote : Quote) : Text.isBlank quote.char = false := by
  cases quote <;> rfl

theorem Quote.isNameChar_char (quote : Quote) : isNameChar quote.char = false := by
  cases quote <;> rfl

theorem Quote.trim_quoted (quote : Quote) (inner : Text) :
    Text.trim (quote.char :: (inner ++ [quote.char])) = quote.char :: (inner ++ [quote.char]) := by
  apply Text.trim_eq_self
  · intro c hc
    obtain rfl : quote.char = c := by simpa using hc
    exact quote.isBlank_char
  · intro c hc
    rw [← List.cons_append, List.getLast?_concat] at hc
    cases hc
    exact quote.isBlank_char

theorem isName_of_mem_formNames : ∀ name ∈ formNames, IsName name := by decide

theorem Capital.pick_mem {upper lower : Text} {names : List Text} (hu : upper ∈ names)
    (hl : lower ∈ names) (capital : Capital) : capital.pick upper lower ∈ names := by
  cases capital
  · exact hu
  · exact hl

theorem isName_list (capital : Capital) : IsName (capital.pick "List" "list") :=
  isName_of_mem_formNames _ (capital.pick_mem (by decide) (by decide))

theorem isName_tuple (capital : Capital) : IsName (capital.pick "Tuple" "tuple") :=
  isName_of_mem_formNames _ (capital.pick_mem (by decide) (by decide))

theorem isName_dict (capital : Capital) : IsName (capital.pick "Dict" "dict") :=
  isName_of_mem_formNames _ (capital.pick_mem (by decide) (by decide))

theorem isName_optional : IsName "Optional" := by decide

theorem isName_union : IsName "Union" := by decide

theorem isName_literal : IsName "Literal" := by decide

theorem balanced_quoted (quote : Quote) {inner : Text} (h : Balanced 0 inner) :
    Balanced 0 (quote.char :: (inner ++ [quote.char])) := by
  have level : depthStep quote.char = 0 := by cases quote <;> rfl
  have single : Balanced 0 [quote.char] := by simp [Balanced, level]
  have whole := balanced_append h (by decide) single
  simp only [Balanced, level]
  exact ⟨by decide, whole⟩

theorem single_quoted (quote : Quote) {inner : Text} (h : Single 0 inner) :
    Single 0 (quote.char :: (inner ++ [quote.char])) := by
  have level : depthStep quote.char = 0 := by cases quote <;> rfl
  have comma : quote.char ≠ ',' := by cases quote <;> decide
  have last : Single 0 [quote.char] := by simp [Single, level, comma]
  have whole := single_append h last
  simp only [Single, level, Int.add_zero]
  exact ⟨fun outer => comma outer.1, whole⟩

theorem balanced_literal {values : Text} (h : ∀ c ∈ values, c ∉ ['[', ']', '(', ')']) :
    Balanced 0 values := by
  apply balanced_of_flat
  intro c mem
  have plain := h c mem
  simp only [List.mem_cons, List.not_mem_nil, or_false, not_or] at plain
  simp [depthStep, plain]

namespace Tree

mutual

theorem balanced_text : (tree : Tree) → Balanced 0 tree.text
  | .primitive word => word.isName_name.balanced
  | .none spelling => (isName_of_isNoneName spelling.2).balanced
  | .name other => other.isName.balanced
  | .quoted quote inner => balanced_quoted quote inner.balanced_text
  | .optional inner => isName_optional.balanced_bracketed inner.balanced_text
  | .union first rest => by
    apply isName_union.balanced_bracketed
    apply balanced_joinCommas
    intro t mem
    rcases List.mem_cons.mp mem with rfl | mem
    · exact first.balanced_text
    · exact balanced_texts rest t mem
  | .list capital inner => (isName_list capital).balanced_bracketed inner.balanced_text
  | .tuple capital inner => (isName_tuple capital).balanced_bracketed inner.balanced_text
  | .dict capital key value => by
    apply (isName_dict capital).balanced_bracketed
    apply balanced_joinCommas
    intro t mem
    rcases List.mem_cons.mp mem with rfl | mem
    · exact key.balanced_text
    · obtain rfl := List.mem_singleton.mp mem
      exact value.balanced_text
  | .literal values => isName_literal.balanced_bracketed (balanced_literal values.2)
  | .generic head arguments => head.isName.balanced_bracketed arguments.2
  | .spaced before inner after => by
    have closing := balanced_append inner.balanced_text (by decide) (balanced_of_blank after.2)
    exact balanced_append (balanced_of_blank before.2) (by decide) closing

theorem balanced_texts : (trees : List Tree) → ∀ t ∈ texts trees, Balanced 0 t
  | [] => by simp [texts]
  | first :: rest => by
    intro t mem
    rcases List.mem_cons.mp mem with rfl | mem
    · exact first.balanced_text
    · exact balanced_texts rest t mem

end

theorem single_text : (tree : Tree) → Single 0 tree.text
  | .primitive word => word.isName_name.single
  | .none spelling => (isName_of_isNoneName spelling.2).single
  | .name other => other.isName.single
  | .quoted quote inner => single_quoted quote inner.single_text
  | .spaced before inner after =>
    single_append (single_of_blank before.2) (single_append inner.single_text (single_of_blank after.2))
  | .optional inner => isName_optional.single_bracketed inner.balanced_text
  | .union first rest =>
    isName_union.single_bracketed (balanced_joinCommas (balanced_texts (first :: rest)))
  | .list capital inner => (isName_list capital).single_bracketed inner.balanced_text
  | .tuple capital inner => (isName_tuple capital).single_bracketed inner.balanced_text
  | .dict capital key value =>
    (isName_dict capital).single_bracketed (balanced_joinCommas (balanced_texts [key, value]))
  | .literal values => isName_literal.single_bracketed (balanced_literal values.2)
  | .generic head arguments => head.isName.single_bracketed arguments.2

theorem blank_text : (tree : Tree) → Text.blank tree.text = false
  | .primitive word => word.isName_name.blank_eq_false
  | .none spelling => (isName_of_isNoneName spelling.2).blank_eq_false
  | .name other => other.isName.blank_eq_false
  | .quoted quote _ => Text.blank_cons_of_not quote.isBlank_char
  | .spaced before inner after => by
    rw [text, Text.blank_append, Text.blank_append, inner.blank_text, Bool.false_and, Bool.and_false]
  | .optional _ => isName_optional.blank_bracketed _
  | .union _ _ => isName_union.blank_bracketed _
  | .list capital _ => (isName_list capital).blank_bracketed _
  | .tuple capital _ => (isName_tuple capital).blank_bracketed _
  | .dict capital _ _ => (isName_dict capital).blank_bracketed _
  | .literal _ => isName_literal.blank_bracketed _
  | .generic head _ => head.isName.blank_bracketed _

end Tree

theorem isNoneName_of_mem {t : Text} {c : Char} (mem : c ∈ t) (other : isNameChar c = false) :
    isNoneName t = false := by
  rw [← Bool.not_eq_true]
  intro h
  exact (isName_of_isNoneName h).not_mem other mem

theorem isNoneName_bracketed (name inner : Text) : isNoneName (bracketed name inner) = false :=
  isNoneName_of_mem (c := '[') (by simp [bracketed]) rfl

theorem Tree.isNoneName_trim_text :
    (tree : Tree) → isNoneName (Text.trim tree.text) = tree.isNone
  | .primitive word => by
    rw [text, word.isName_name.trim_eq, word.isNoneName_name]
    rfl
  | .none spelling => by
    rw [text, (isName_of_isNoneName spelling.2).trim_eq, spelling.2, isNone]
  | .name other => by
    rw [text, other.isName.trim_eq, other.notNone]
    rfl
  | .quoted quote inner => by
    rw [text, quote.trim_quoted]
    exact isNoneName_of_mem (List.mem_cons_self ..) quote.isNameChar_char
  | .spaced before inner after => by
    rw [text, Text.trim_blank_append before.2, Text.trim_append_blank _ after.2,
      inner.isNoneName_trim_text, isNone]
  | .optional _ => by
    rw [text, isName_optional.trim_bracketed, isNoneName_bracketed]
    rfl
  | .union _ _ => by
    rw [text, isName_union.trim_bracketed, isNoneName_bracketed]
    rfl
  | .list capital _ => by
    rw [text, (isName_list capital).trim_bracketed, isNoneName_bracketed]
    rfl
  | .tuple capital _ => by
    rw [text, (isName_tuple capital).trim_bracketed, isNoneName_bracketed]
    rfl
  | .dict capital _ _ => by
    rw [text, (isName_dict capital).trim_bracketed, isNoneName_bracketed]
    rfl
  | .literal _ => by
    rw [text, isName_literal.trim_bracketed, isNoneName_bracketed]
    rfl
  | .generic head _ => by
    rw [text, head.isName.trim_bracketed, isNoneName_bracketed]
    rfl

theorem schema_bracketed {name : Text} (h : IsName name) (inner : Text) :
    schema (bracketed name inner) = (Form.of (bracketed name inner)).schema := by
  rw [schema_eq, h.trim_bracketed]

theorem givenParts_trim (t : Text) : givenParts (Text.trim t) = givenParts t := by
  rw [givenParts, parts_trim, givenParts]

theorem schema_union_bracketed {name : Text} (h : name = "Optional".toList ∨ name = "Union".toList)
    (inner : Text) : schema (bracketed name inner) = (Form.union (givenParts inner)).schema := by
  have known : IsName name := by rcases h with rfl | rfl <;> decide
  rw [schema_bracketed known, Form.of_bracketed known, if_pos h, givenParts_trim]

theorem of_mem_sequenceNames : ∀ name ∈ sequenceNames,
    IsName name ∧ ¬ (name = "Optional".toList ∨ name = "Union".toList) := by decide

theorem schema_sequence_bracketed {name : Text} (h : name ∈ sequenceNames) {inner : Text}
    (visible : Text.blank inner = false) : schema (bracketed name inner) = .arrayOf (schema inner) := by
  obtain ⟨known, noUnion⟩ := of_mem_sequenceNames name h
  obtain ⟨c, rest, trimmed⟩ := List.exists_cons_of_ne_nil (Text.trim_ne_nil visible)
  rw [schema_bracketed known, Form.of_bracketed known, if_neg noUnion, if_pos h, trimmed, Form.schema,
    ← trimmed, schema_trim]

def readNames : List Text := ["Optional", "Union", "List", "list", "Tuple", "tuple", "Literal"]

theorem mem_formNames_of_mem_readNames : ∀ name ∈ readNames, name ∈ formNames := by decide

theorem not_read_of_not_mem {name : Text} (other : name ∉ readNames) :
    ¬ (name = "Optional".toList ∨ name = "Union".toList) ∧ name ∉ sequenceNames ∧
      name ≠ "Literal".toList := by
  simp only [readNames, List.mem_cons, List.not_mem_nil, or_false, not_or] at other
  refine ⟨?_, ?_, other.2.2.2.2.2.2⟩
  · rintro (same | same)
    · exact other.1 same
    · exact other.2.1 same
  · simp only [sequenceNames, List.mem_cons, List.not_mem_nil, or_false, not_or]
    exact ⟨other.2.2.1, other.2.2.2.1, other.2.2.2.2.1, other.2.2.2.2.2.1⟩

theorem schema_other_bracketed {name : Text} (h : IsName name) (other : name ∉ readNames)
    (inner : Text) : schema (bracketed name inner) = .anyObject := by
  obtain ⟨noUnion, noSequence, noLiteral⟩ := not_read_of_not_mem other
  rw [schema_bracketed h, Form.of_bracketed h, if_neg noUnion, if_neg noSequence, if_neg noLiteral]
  rfl

theorem any_isDigit_of_blank {t : Text} (h : Text.blank t = true) : t.any Char.isDigit = false := by
  have digits : ∀ n < 58, 48 ≤ n → Text.isBlank (Char.ofNat n) = false := by decide
  rw [List.any_eq_false]
  intro c mem digit
  have blank := Text.blank_iff.mp h c mem
  have bounds : 48 ≤ c.toNat ∧ c.toNat ≤ 57 := by
    simp only [Char.isDigit, Bool.and_eq_true, decide_eq_true_eq] at digit
    exact digit
  have visible := digits c.toNat (by omega) bounds.1
  rw [Char.ofNat_toNat, blank] at visible
  exact absurd visible (by decide)

theorem any_isDigit_trim (t : Text) : (Text.trim t).any Char.isDigit = t.any Char.isDigit := by
  obtain ⟨s, e, hs, he, whole⟩ := Text.exists_trim t
  conv_rhs => rw [whole]
  rw [List.any_append, List.any_append, any_isDigit_of_blank hs, any_isDigit_of_blank he,
    Bool.false_or, Bool.or_false]

theorem schema_literal_bracketed (values : Text) :
    schema (bracketed "Literal" values) =
      if values.any Char.isDigit then .integer else .string := by
  have known : IsName "Literal".toList := isName_literal
  rw [schema_bracketed known, Form.of_bracketed known, if_neg (by decide), if_neg (by decide),
    if_pos rfl, literalSchema, any_isDigit_trim]
  rfl

theorem schema_isName {t : Text} (h : IsName t) :
    schema t = (words.lookup t).getD .anyObject := by
  rw [schema_eq, h.trim_eq, Form.of_isName h]
  rfl

theorem lookup_words_of_not_primitive {t : Text} (h : ∀ word : Primitive, t ≠ word.name) :
    words.lookup t = none := by
  rw [List.lookup_eq_none_iff]
  intro entry known
  obtain ⟨word, name⟩ := Primitive.exists_of_mem_words entry known
  have different := h word
  rw [name] at different
  simpa using different

theorem schema_quoted (quote : Quote) (inner : Text) :
    schema (quote.char :: (inner ++ [quote.char])) = schema inner := by
  rw [schema_eq, quote.trim_quoted, Form.of_quoted quote.char_mem]
  rfl

theorem schema_given (t : Text) (later : List Text) :
    (Form.union ((Text.trim t :: later).filter (!isNoneName ·))).schema =
      if isNoneName (Text.trim t) then (Form.union (later.filter (!isNoneName ·))).schema
      else schema t := by
  -- The first member other than the absent value decides.
  cases absent : isNoneName (Text.trim t) with
  | true => simp [absent]
  | false => simp [absent, Form.schema, schema_trim]

namespace Tree

theorem texts_eq_map (members : List Tree) : texts members = members.map text := by
  induction members with
  | nil => rfl
  | cons member rest ih => rw [texts, ih, List.map_cons]

theorem schema_given_cons (member : Tree) (later : List Text) :
    (Form.union ((Text.trim member.text :: later).filter (!isNoneName ·))).schema =
      if member.isNone then (Form.union (later.filter (!isNoneName ·))).schema
      else TypeHint.schema member.text := by
  rw [schema_given, member.isNoneName_trim_text]

theorem givenParts_joinCommas (members : List Tree) :
    givenParts (joinCommas (texts members)) =
      ((texts members).map Text.trim).filter (!isNoneName ·) := by
  have visible : ∀ t ∈ texts members, Text.blank t = false := by
    intro t mem
    rw [texts_eq_map] at mem
    obtain ⟨member, -, rfl⟩ := List.mem_map.mp mem
    exact member.blank_text
  have single : ∀ t ∈ texts members, Single 0 t := by
    intro t mem
    rw [texts_eq_map] at mem
    obtain ⟨member, -, rfl⟩ := List.mem_map.mp mem
    exact member.single_text
  -- No member has a comma at its own level, so cutting gives the members back.
  rw [givenParts, parts_joinCommas single visible]

theorem schema_members (first : Tree) (rest : List Tree) :
    (Form.union (givenParts (joinCommas (first.text :: texts rest)))).schema =
      if first.isNone then
        (Form.union (((texts rest).map Text.trim).filter (!isNoneName ·))).schema
      else TypeHint.schema first.text := by
  rw [← texts, givenParts_joinCommas, texts, List.map_cons, schema_given_cons]

mutual

theorem schema_text_eq : (tree : Tree) → TypeHint.schema tree.text = tree.schema
  | .primitive word => by
    rw [text, schema_isName word.isName_name, word.lookup_name]
    rfl
  | .none spelling => by
    have absent : ∀ word : Primitive, spelling.1 ≠ word.name := by
      intro word same
      have := spelling.2
      rw [same, word.isNoneName_name] at this
      exact absurd this (by decide)
    rw [text, schema_isName (isName_of_isNoneName spelling.2), lookup_words_of_not_primitive absent]
    rfl
  | .name other => by
    rw [text, schema_isName other.isName, lookup_words_of_not_primitive other.notPrimitive]
    rfl
  | .quoted quote inner => by
    rw [text, schema_quoted, inner.schema_text_eq, schema]
  | .optional inner => by
    -- `Optional` is a union of one member.
    have single := schema_members inner []
    rw [texts, joinCommas_singleton] at single
    rw [text, schema_union_bracketed (.inl rfl), single, inner.schema_text_eq, schema]
    rfl
  | .union first rest => by
    rw [text, schema_union_bracketed (.inr rfl), schema_members, schema_union rest,
      first.schema_text_eq, schema]
  | .list capital inner => by
    have known : capital.pick "List" "list" ∈ sequenceNames :=
      capital.pick_mem (by decide) (by decide)
    rw [text, schema_sequence_bracketed known inner.blank_text, inner.schema_text_eq, schema]
  | .tuple capital inner => by
    have known : capital.pick "Tuple" "tuple" ∈ sequenceNames :=
      capital.pick_mem (by decide) (by decide)
    rw [text, schema_sequence_bracketed known inner.blank_text, inner.schema_text_eq, schema]
  | .dict capital key value => by
    rw [text, schema_other_bracketed (isName_dict capital) (by cases capital <;> decide), schema]
  | .literal values => by
    rw [text, schema_literal_bracketed, schema]
  | .generic head arguments => by
    have other : head.text ∉ readNames := fun mem =>
      head.notForm (mem_formNames_of_mem_readNames head.text mem)
    rw [text, schema_other_bracketed head.isName other, schema]
  | .spaced before inner after => by
    rw [text, ← schema_trim, Text.trim_blank_append before.2, Text.trim_append_blank _ after.2,
      schema_trim, inner.schema_text_eq, schema]

theorem schema_union : (members : List Tree) →
    (Form.union (((texts members).map Text.trim).filter (!isNoneName ·))).schema =
      unionSchema members
  | [] => rfl
  | member :: rest => by
    rw [texts, List.map_cons, schema_given_cons, schema_union rest, member.schema_text_eq, unionSchema]

end

end Tree

/-- The reading of a hint is that of its tree, and an `Optional` reads as what it may leave out. -/
theorem schema_text (tree : Tree) :
    schema tree.text = tree.schema ∧
      schema (Tree.optional tree).text =
        if tree.isNone then .null else schema tree.text := by
  refine ⟨tree.schema_text_eq, ?_⟩
  rw [Tree.schema_text_eq, Tree.schema, tree.schema_text_eq]

end CallSchema.TypeHint
