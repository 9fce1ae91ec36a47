import CallSchema.Proofs.TypeHint.Structure

set_option autoImplicit false

namespace CallSchema

namespace TypeHint

structure Stops (after : Text) : Prop where
  visible : Text.blank after = false
  first : ∀ c ∈ after.head?, isNameChar c = false ∧ c ≠ '['

theorem Quote.char_ne_bracket (quote : Quote) : quote.char ≠ '[' := by
  cases quote <;> decide

theorem isNameChar_of_isBlank {c : Char} (h : Text.isBlank c = true) : isNameChar c = false := by
  simp [isNameChar, h]

theorem stops_cons {c : Char} (visible : Text.isBlank c = false) (other : isNameChar c = false)
    (closed : c ≠ '[') (rest : Text) : Stops (c :: rest) := by
  refine ⟨Text.blank_cons_of_not visible, ?_⟩
  rintro d ⟨⟩
  exact ⟨other, closed⟩

theorem Stops.blank_append {after : Text} (h : Stops after) {blanks : Text}
    (blank : Text.blank blanks = true) : Stops (blanks ++ after) := by
  refine ⟨by rw [Text.blank_append, h.visible, Bool.and_false], ?_⟩
  cases blanks with
  | nil => exact h.first
  | cons d blanks =>
    rintro c ⟨⟩
    have gap := Text.blank_iff.mp blank d (by simp)
    exact ⟨isNameChar_of_isBlank gap, by rintro rfl; exact absurd gap (by decide)⟩

theorem Stops.trimEnd {after : Text} (h : Stops after) :
    ∃ c rest, Text.trimEnd after = c :: rest ∧ isNameChar c = false ∧ c ≠ '[' := by
  obtain ⟨c, rest, opening⟩ := List.exists_cons_of_ne_nil (Text.trimEnd_ne_nil h.visible)
  obtain ⟨gap, -, whole⟩ := Text.exists_trimEnd after
  refine ⟨c, rest, opening, h.first c ?_⟩
  rw [whole, opening]
  rfl

theorem IsName.trim_append_of_visible {name : Text} (h : IsName name) {t : Text}
    (visible : Text.blank t = false) : Text.trim (name ++ t) = name ++ Text.trimEnd t := by
  obtain ⟨c, rest, rfl⟩ := List.exists_cons_of_ne_nil h.1
  rw [List.cons_append, Text.trim_cons_of_not (h.isBlank_of_mem (by simp)),
    Text.trimEnd_append_of_visible visible, List.cons_append]

section Letters

variable {letters : Text} {c : Char}

theorem stripStart?_opening_append (plain : ∀ d ∈ letters, isNameChar d = true)
    (other : isNameChar c = false) (closed : c ≠ '[') (rest : Text) {word : Text} (name : IsName word) :
    Text.stripStart? (word ++ ['[']) (letters ++ c :: rest) = none := by
  rw [Text.stripStart?_eq_none_iff]
  intro tail whole
  -- Behind the letters the one text goes on with the mark and the other with a bracket.
  have same := congrArg (List.dropWhile isNameChar) whole
  rw [List.dropWhile_append_of_pos plain, List.append_assoc, List.dropWhile_append_of_pos name.2,
    List.dropWhile_cons_of_neg (by simp [other]), List.singleton_append,
    List.dropWhile_cons_of_neg (by decide)] at same
  exact closed (List.cons.inj same).1

theorem Form.of_letters_append (plain : ∀ d ∈ letters, isNameChar d = true)
    (other : isNameChar c = false) (closed : c ≠ '[') (rest : Text) :
    Form.of (letters ++ c :: rest) =
      (Text.unquote? ['\'', '"'] (letters ++ c :: rest)).elim (.leaf .anyObject) .quoted := by
  have noWord : words.lookup (letters ++ c :: rest) = none :=
    lookup_words_of_not_isName (c := c) (by simp) other
  have noOpening {word : Text} (name : IsName word) :
      Text.stripStart? (word ++ ['[']) (letters ++ c :: rest) = none :=
    stripStart?_opening_append plain other closed rest name
  have noUnion : ["Optional[", "Union["].findSome? (openArguments? ·.toList (letters ++ c :: rest)) =
      none := by
    simp only [List.findSome?_eq_none_iff, List.forall_mem_cons, openArguments?, Option.map_eq_none_iff]
    exact ⟨noOpening isName_optional, noOpening isName_union, by simp⟩
  have noArguments {word : Text} (name : IsName word) :
      arguments? (word ++ ['[']) (letters ++ c :: rest) = none := by
    rw [arguments?, Text.between?, noOpening name, Option.bind_none, Option.map_none]
  have noSequence : ["List[", "list[", "Tuple[", "tuple["].findSome?
      (arguments? ·.toList (letters ++ c :: rest)) = none := by
    simp only [List.findSome?_eq_none_iff, List.forall_mem_cons]
    exact ⟨noArguments (isName_list .upper), noArguments (isName_list .lower),
      noArguments (isName_tuple .upper), noArguments (isName_tuple .lower), by simp⟩
  have noLiteral : arguments? "Literal[" (letters ++ c :: rest) = none :=
    noArguments isName_literal
  unfold Form.of
  simp only [noWord, noUnion, noSequence, noLiteral]
  cases Text.unquote? ['\'', '"'] (letters ++ c :: rest) <;> rfl

end Letters

theorem schema_name_append {name : Text} (h : IsName name) {after : Text} (stops : Stops after) :
    schema (name ++ after) = .anyObject := by
  obtain ⟨c, rest, opening, other, closed⟩ := stops.trimEnd
  have noQuote : Text.unquote? ['\'', '"'] (name ++ c :: rest) = none := by
    apply unquote?_of_isNameChar
    obtain ⟨first, more, rfl⟩ := List.exists_cons_of_ne_nil h.1
    rintro d ⟨⟩
    exact h.2 first (by simp)
  rw [schema_eq, h.trim_append_of_visible stops.visible, opening, Form.of_letters_append h.2 other closed,
    noQuote]
  rfl

def behind? (mark : Char) (after : Text) : Option Text :=
  (Text.stripEnd? [mark] (Text.trimEnd after)).map (mark :: ·)

def behindMember (after : Text) : Text :=
  (cut 0 ((behind? ']' after).getD (']' :: Text.trimEnd after))).headD []

namespace Tree

mutual

-- What is read from a hint and the text behind it, as if both were one hint.
def torn : Tree → Text → Schema
  | .quoted quote inner, after => (behind? quote.char after).elim .anyObject inner.torn
  | .optional inner, after => inner.torn (behindMember after)
  | .union first rest, after =>
    if rest.isEmpty then first.torn (behindMember after)
    else if first.isNone then tornUnion rest (behindMember after)
    else first.schema
  | .list _ inner, after | .tuple _ inner, after =>
    (behind? ']' after).elim .anyObject fun inside => .arrayOf (inner.torn inside)
  | .literal values, after =>
    (behind? ']' after).elim .anyObject fun inside => literalSchema (values.1 ++ inside)
  | .spaced _ inner blanks, after => inner.torn (blanks.1 ++ after)
  | .primitive _, _ | .none _, _ | .name _, _ | .dict _ _ _, _ | .generic _ _, _ => .anyObject

def tornUnion : List Tree → Text → Schema
  | [], _ => .null
  | member :: rest, after =>
    if rest.isEmpty then member.torn after
    else if member.isNone then tornUnion rest after
    else member.schema

end

end Tree

theorem stops_behind {mark : Char} (visible : Text.isBlank mark = false)
    (other : isNameChar mark = false) (closed : mark ≠ '[') {after inside : Text}
    (h : behind? mark after = some inside) : Stops inside := by
  obtain ⟨rest, -, rfl⟩ := Option.map_eq_some_iff.mp h
  exact stops_cons visible other closed rest

theorem exists_behindMember (after : Text) : ∃ rest pieces, behindMember after = ']' :: rest ∧
    cut 0 ((behind? ']' after).getD (']' :: Text.trimEnd after)) = behindMember after :: pieces := by
  have bracket : ∃ inside, (behind? ']' after).getD (']' :: Text.trimEnd after) = ']' :: inside := by
    unfold behind?
    cases Text.stripEnd? [']'] (Text.trimEnd after) with
    | none => exact ⟨_, rfl⟩
    | some rest => exact ⟨rest, rfl⟩
  obtain ⟨inside, whole⟩ := bracket
  obtain ⟨piece, pieces, found⟩ := exists_cut (0 + depthStep ']') inside
  have first : cut 0 (']' :: inside) = (']' :: piece) :: pieces := by
    rw [cut, if_neg (by decide), found, Text.addToFirst]
  refine ⟨piece, pieces, ?_, ?_⟩ <;> simp only [behindMember, whole, first, List.headD_cons]

theorem stops_behindMember (after : Text) : Stops (behindMember after) := by
  obtain ⟨rest, -, bracket, -⟩ := exists_behindMember after
  rw [bracket]
  exact stops_cons (by decide) (by decide) (by decide) rest

section Brackets

variable {name inner after : Text}

theorem schema_bracketed_append (h : IsName name) :
    schema (bracketed name inner ++ after) =
      (Form.of (name ++ '[' :: (inner ++ ']' :: Text.trimEnd after))).schema := by
  have first : ∀ c ∈ (name ++ '[' :: inner).head?, Text.isBlank c = false := fun c mem =>
    isBlank_of_isNameChar (h.head_opened inner c mem)
  have trimmed : Text.trim (bracketed name inner ++ after) =
      name ++ '[' :: (inner ++ ']' :: Text.trimEnd after) := by
    have whole : bracketed name inner ++ after = (name ++ '[' :: inner) ++ ']' :: after := by
      simp [bracketed]
    rw [whole, Text.trim_append_cons (by simp) first rfl]
    simp
  rw [schema_eq, trimmed]

theorem stripEnd?_inner (visible : Text.blank after = false) {mark : Char} :
    Text.stripEnd? [mark] (inner ++ mark :: Text.trimEnd after) =
      (behind? mark after).map (inner ++ ·) := by
  have split : inner ++ mark :: Text.trimEnd after = (inner ++ [mark]) ++ Text.trimEnd after := by simp
  rw [split, Text.stripEnd?_append_of_ne_nil (Text.trimEnd_ne_nil visible), behind?, Option.map_map]
  congr 1
  funext rest
  simp

theorem schema_union_append (h : name = "Optional".toList ∨ name = "Union".toList)
    (visible : Text.blank after = false) :
    schema (bracketed name inner ++ after) =
      (Form.union (givenParts
        (inner ++ (behind? ']' after).getD (']' :: Text.trimEnd after)))).schema := by
  have known : IsName name := by rcases h with rfl | rfl <;> decide
  have inside : ((behind? ']' after).map (inner ++ ·)).getD (inner ++ ']' :: Text.trimEnd after) =
      inner ++ (behind? ']' after).getD (']' :: Text.trimEnd after) := by
    cases behind? ']' after <;> rfl
  rw [schema_bracketed_append known, Form.of_opened known, if_pos h, givenParts_trim,
    stripEnd?_inner visible, inside]

theorem schema_sequence_append (h : name ∈ sequenceNames) (visible : Text.blank after = false) :
    schema (bracketed name inner ++ after) =
      (behind? ']' after).elim .anyObject fun inside => .arrayOf (schema (inner ++ inside)) := by
  obtain ⟨known, noUnion⟩ := of_mem_sequenceNames name h
  rw [schema_bracketed_append known, Form.of_opened known, if_neg noUnion,
    stripEnd?_inner visible]
  cases found : behind? ']' after with
  | none => rfl
  | some inside =>
    have stops := stops_behind (by decide) (by decide) (by decide) found
    have content : Text.blank (inner ++ inside) = false := by
      rw [Text.blank_append, stops.visible, Bool.and_false]
    obtain ⟨c, rest, trimmed⟩ := List.exists_cons_of_ne_nil (Text.trim_ne_nil content)
    simp only [Option.map_some, if_pos h, trimmed, Form.schema, Option.elim_some]
    rw [← trimmed, schema_trim]

theorem schema_literal_append (visible : Text.blank after = false) :
    schema (bracketed "Literal" inner ++ after) =
      (behind? ']' after).elim .anyObject fun inside => literalSchema (inner ++ inside) := by
  have known : IsName "Literal".toList := isName_literal
  rw [schema_bracketed_append known, Form.of_opened known, if_neg (by decide),
    stripEnd?_inner visible]
  cases behind? ']' after with
  | none => rfl
  | some inside =>
    simp only [Option.map_some, if_neg (by decide : "Literal".toList ∉ sequenceNames), if_true,
      Form.schema, literalSchema, any_isDigit_trim, Option.elim_some]

theorem schema_other_append (h : IsName name) (other : name ∉ readNames)
    (visible : Text.blank after = false) :
    schema (bracketed name inner ++ after) = .anyObject := by
  obtain ⟨noUnion, noSequence, noLiteral⟩ := not_read_of_not_mem other
  rw [schema_bracketed_append h, Form.of_opened h, if_neg noUnion, stripEnd?_inner visible]
  cases behind? ']' after with
  | none => rfl
  | some inside =>
    simp only [Option.map_some, if_neg noSequence, if_neg noLiteral]
    rfl

end Brackets

theorem Quote.unquote?_cons (quote : Quote) (t : Text) :
    Text.unquote? ['\'', '"'] (quote.char :: t) = Text.stripEnd? [quote.char] t := by
  cases quote with
  | single =>
    cases found : Text.stripEnd? ['\''] t <;>
      simp [Text.unquote?, Text.between?, Text.stripStart?, Quote.char, found]
  | double => simp [Text.unquote?, Text.between?, Text.stripStart?, Quote.char]

theorem schema_quoted_append (quote : Quote) (inner : Text) {after : Text}
    (visible : Text.blank after = false) :
    schema (quote.char :: (inner ++ [quote.char]) ++ after) =
      (behind? quote.char after).elim .anyObject fun inside => schema (inner ++ inside) := by
  have trimmed : Text.trim (quote.char :: (inner ++ [quote.char]) ++ after) =
      quote.char :: (inner ++ quote.char :: Text.trimEnd after) := by
    rw [List.cons_append, List.append_assoc, Text.trim_cons_of_not quote.isBlank_char,
      List.singleton_append, Text.trimEnd_append_cons inner quote.isBlank_char]
  have plain : ∀ d ∈ ([] : Text), isNameChar d = true := by simp
  have form := Form.of_letters_append plain quote.isNameChar_char quote.char_ne_bracket
    (inner ++ quote.char :: Text.trimEnd after)
  rw [List.nil_append, quote.unquote?_cons, stripEnd?_inner visible] at form
  rw [schema_eq, trimmed, form]
  cases behind? quote.char after <;> rfl

theorem schema_given_comma {first : Text} (single : Single 0 first)
    (visible : Text.blank first = false) (rest : Text) :
    (Form.union (givenParts (first ++ ',' :: rest))).schema =
      if isNoneName (Text.trim first) then (Form.union (givenParts rest)).schema else schema first := by
  have split : parts (first ++ ',' :: rest) = Text.trim first :: parts rest := by
    rw [parts, cut_append_comma single, List.map_cons,
      List.filter_cons_of_pos (by simpa using Text.trim_ne_nil visible)]
    rfl
  rw [givenParts, split, schema_given]
  rfl

theorem schema_given_piece {last : Text} (single : Single 0 last) {rest piece : Text}
    {pieces : List Text} (bracket : ']' ∈ piece) (found : cut 0 rest = piece :: pieces) :
    (Form.union (givenParts (last ++ rest))).schema = schema (last ++ piece) := by
  have inside : ']' ∈ Text.trim (last ++ piece) :=
    Text.mem_trim_of_mem (List.mem_append_right _ bracket) (by decide)
  have split : parts (last ++ rest) =
      Text.trim (last ++ piece) :: (pieces.map Text.trim).filter (· ≠ []) := by
    rw [parts, cut_append single found, List.map_cons,
      List.filter_cons_of_pos (by simpa using List.ne_nil_of_mem inside)]
  rw [givenParts, split, schema_given, isNoneName_of_mem inside rfl]
  rfl

namespace Tree

theorem schema_members_append (first : Tree) (members : List Tree) {rest piece : Text}
    {pieces : List Text} (bracket : ']' ∈ piece) (found : cut 0 rest = piece :: pieces) :
    (Form.union (givenParts (joinCommas (first.text :: texts members) ++ rest))).schema =
      if members.isEmpty then TypeHint.schema (first.text ++ piece)
      else if first.isNone then (Form.union (givenParts (joinCommas (texts members) ++ rest))).schema
      else first.schema := by
  cases members with
  | nil => rw [texts, joinCommas_singleton, schema_given_piece first.single_text bracket found]; rfl
  | cons second members =>
    rw [texts, joinCommas_cons, List.append_assoc, List.cons_append,
      schema_given_comma first.single_text first.blank_text, first.isNoneName_trim_text,
      first.schema_text_eq]
    rfl

theorem schema_sequence_torn {name after : Text} (known : name ∈ sequenceNames) (stops : Stops after)
    {inner : Tree}
    (own : ∀ {inside : Text}, Stops inside → TypeHint.schema (inner.text ++ inside) = inner.torn inside) :
    TypeHint.schema (bracketed name inner.text ++ after) =
      (behind? ']' after).elim .anyObject fun inside => .arrayOf (inner.torn inside) := by
  rw [schema_sequence_append known stops.visible]
  cases found : behind? ']' after with
  | none => rfl
  | some inside =>
    have deeper := stops_behind (by decide) (by decide) (by decide) found
    simp only [Option.elim_some, own deeper]

mutual

theorem schema_append : (tree : Tree) → {after : Text} → Stops after →
    TypeHint.schema (tree.text ++ after) = tree.torn after
  | .primitive word, _, stops => by
    rw [text, schema_name_append word.isName_name stops, torn]
  | .none spelling, _, stops => by
    rw [text, schema_name_append (isName_of_isNoneName spelling.2) stops, torn]
  | .name other, _, stops => by
    rw [text, schema_name_append other.isName stops, torn]
  | .quoted quote inner, after, stops => by
    rw [text, schema_quoted_append quote inner.text stops.visible, torn]
    cases found : behind? quote.char after with
    | none => rfl
    | some inside =>
      exact inner.schema_append
        (stops_behind quote.isBlank_char quote.isNameChar_char quote.char_ne_bracket found)
  | .optional inner, after, stops => by
    obtain ⟨_, pieces, bracket, found⟩ := exists_behindMember after
    rw [text, schema_union_append (.inl rfl) stops.visible,
      schema_given_piece inner.single_text (by simp [bracket]) found,
      inner.schema_append (stops_behindMember after), torn]
  | .union first rest, after, stops => by
    obtain ⟨_, pieces, bracket, found⟩ := exists_behindMember after
    have deeper := stops_behindMember after
    have inside : ']' ∈ behindMember after := by simp [bracket]
    rw [text, schema_union_append (.inr rfl) stops.visible, schema_members_append first rest inside found,
      first.schema_append deeper, torn]
    by_cases alone : rest = []
    · subst alone
      rfl
    · rw [schema_tornUnion rest alone inside found deeper]
  | .list capital inner, _, stops => by
    have known : capital.pick "List" "list" ∈ sequenceNames :=
      capital.pick_mem (by decide) (by decide)
    rw [text, schema_sequence_torn known stops inner.schema_append, torn]
  | .tuple capital inner, _, stops => by
    have known : capital.pick "Tuple" "tuple" ∈ sequenceNames :=
      capital.pick_mem (by decide) (by decide)
    rw [text, schema_sequence_torn known stops inner.schema_append, torn]
  | .dict capital key value, _, stops => by
    rw [text, schema_other_append (isName_dict capital) (by cases capital <;> decide) stops.visible,
      torn]
  | .literal values, _, stops => by
    rw [text, schema_literal_append stops.visible, torn]
  | .generic head arguments, _, stops => by
    have other : head.text ∉ readNames := fun mem =>
      head.notForm (mem_formNames_of_mem_readNames head.text mem)
    rw [text, schema_other_append head.isName other stops.visible, torn]
  | .spaced before inner blanks, after, stops => by
    have split : before.1 ++ (inner.text ++ blanks.1) ++ after =
        before.1 ++ (inner.text ++ (blanks.1 ++ after)) := by simp
    rw [text, split, ← schema_trim, Text.trim_blank_append before.2, schema_trim,
      inner.schema_append (stops.blank_append blanks.2), torn]

theorem schema_tornUnion : (members : List Tree) → members ≠ [] → {rest piece : Text} →
    {pieces : List Text} → ']' ∈ piece → cut 0 rest = piece :: pieces → Stops piece →
    (Form.union (givenParts (joinCommas (texts members) ++ rest))).schema = tornUnion members piece
  | [], visible, _, _, _, _, _, _ => absurd rfl visible
  | first :: members, _, _, _, _, bracket, found, stops => by
    rw [texts, schema_members_append first members bracket found, first.schema_append stops, tornUnion]
    by_cases alone : members = []
    · subst alone
      rfl
    · rw [schema_tornUnion members alone bracket found stops]

end

example : (union (.primitive .int) [.primitive .str]).torn ", bool" = .integer := rfl

theorem schema_members_of_sequence {name : Text} (h : name ∈ sequenceNames) (first second : Tree)
    (rest : List Tree) :
    TypeHint.schema (bracketed name (joinCommas (texts (first :: second :: rest)))) =
      .arrayOf (first.torn (',' :: joinCommas (texts (second :: rest)))) := by
  have stops : Stops (',' :: joinCommas (texts (second :: rest))) :=
    stops_cons (by decide) (by decide) (by decide) _
  have split : joinCommas (texts (first :: second :: rest)) =
      first.text ++ ',' :: joinCommas (texts (second :: rest)) := by
    rw [texts, texts, joinCommas_cons]
  have visible : Text.blank (joinCommas (texts (first :: second :: rest))) = false := by
    rw [split, Text.blank_append, first.blank_text, Bool.false_and]
  rw [schema_sequence_bracketed h visible, split, first.schema_append stops]

/-- A tuple of several members is an array of what its first member comes to with the others behind
it. These are objects that take anything just if the torn member comes to that. -/
theorem schema_tuple_members (capital : Capital) (first second : Tree) (rest : List Tree) :
    TypeHint.schema (bracketed (capital.pick "Tuple" "tuple")
        (joinCommas (texts (first :: second :: rest)))) =
        .arrayOf (first.torn (',' :: joinCommas (texts (second :: rest)))) ∧
      (TypeHint.schema (bracketed (capital.pick "Tuple" "tuple")
          (joinCommas (texts (first :: second :: rest)))) = .arrayOf .anyObject ↔
        first.torn (',' :: joinCommas (texts (second :: rest))) = .anyObject) := by
  have known : capital.pick "Tuple" "tuple" ∈ sequenceNames :=
    capital.pick_mem (by decide) (by decide)
  have whole := schema_members_of_sequence known first second rest
  refine ⟨whole, ?_⟩
  rw [whole]
  constructor
  · intro same
    injection same with _ items
    exact Option.some.inj items
  · exact congrArg Schema.arrayOf

-- Two lists in a tuple are taken for one list of a hint that is torn at both ends.
theorem not_tuple_of_objects :
    TypeHint.schema "Tuple[List[int], List[str]]" = .arrayOf (.arrayOf .anyObject) ∧
    ¬∀ (capital : Capital) (first second : Tree) (rest : List Tree),
      TypeHint.schema (bracketed (capital.pick "Tuple" "tuple")
        (joinCommas (texts (first :: second :: rest)))) = .arrayOf .anyObject := by
  have lists := @schema_members_of_sequence "Tuple" (by decide)
    (.list .upper (.primitive .int)) (.spaced ⟨" ", rfl⟩ (.list .upper (.primitive .str)) ⟨[], rfl⟩) []
  have nested : TypeHint.schema "Tuple[List[int], List[str]]" = .arrayOf (.arrayOf .anyObject) := lists
  refine ⟨nested, fun always => ?_⟩
  have plain := always .upper (.list .upper (.primitive .int))
    (.spaced ⟨" ", rfl⟩ (.list .upper (.primitive .str)) ⟨[], rfl⟩) []
  cases lists.symm.trans plain

end Tree

end TypeHint

end CallSchema
