import CallSchema.Proofs.Outline.Marker
import CallSchema.Proofs.TypeHint.Structure

set_option autoImplicit false

namespace CallSchema.TypeHint

open Outline

theorem isDigit_of_isAlpha {c : Char} (h : c.isAlpha = true) : c.isDigit = false := by
  have letters : ∀ n < 58, (Char.ofNat n).isDigit = true → (Char.ofNat n).isAlpha = false := by decide
  by_contra digit
  rw [Bool.not_eq_false] at digit
  have low : c.toNat ≤ 57 := by
    simp only [Char.isDigit, Bool.and_eq_true, decide_eq_true_eq] at digit
    exact digit.2
  have other := letters c.toNat (by omega)
  rw [Char.ofNat_toNat, h] at other
  exact absurd (other digit) (by decide)

theorem any_isDigit_withoutMarkers (t : Text) :
    (withoutMarkers t).any Char.isDigit = t.any Char.isDigit := by
  induction t using withoutMarkers.induct with
  | case1 t rest found ih =>
    obtain ⟨marker, rfl, removed⟩ := removed_of_afterMarker? found
    have none : marker.any Char.isDigit = false := by
      rw [List.any_eq_false]
      intro c mem digit
      rcases removed c mem with rfl | blank | letter
      · exact absurd digit (by decide)
      · have single := any_isDigit_of_blank (t := [c]) (by simp [Text.blank, blank])
        simp [digit] at single
      · rw [isDigit_of_isAlpha letter] at digit
        exact absurd digit (by decide)
    rw [withoutMarkers_of_some found, ih, List.any_append, none, Bool.false_or]
  | case2 => rw [withoutMarkers_nil]
  | case3 c t none ih => rw [withoutMarkers_cons none, List.any_cons, List.any_cons, ih]

theorem withoutMarkers_bracketed (name inner : Text) :
    withoutMarkers (bracketed name inner) = bracketed (withoutMarkers name) (withoutMarkers inner) := by
  have close : withoutMarkers [']'] = [']'] := by
    rw [withoutMarkers_border (by decide) (by decide), withoutMarkers_nil]
  rw [bracketed, withoutMarkers_append _ (border_cons (by decide) _),
    withoutMarkers_border (by decide) (by decide), withoutMarkers_append _ (border_cons (by decide) _),
    close, bracketed]

theorem withoutMarkers_quoted (quote : Quote) (inner : Text) :
    withoutMarkers (quote.char :: (inner ++ [quote.char])) =
      quote.char :: (withoutMarkers inner ++ [quote.char]) := by
  have mark : quote.char ∈ borders := by cases quote <;> decide
  have comma : ',' ≠ quote.char := by cases quote <;> decide
  rw [withoutMarkers_border mark comma, withoutMarkers_append _ (border_cons mark []),
    withoutMarkers_border mark comma, withoutMarkers_nil]

theorem withoutMarkers_joinCommas {first : Text} {rest : List Text}
    (plain : ∀ t ∈ rest, afterWord? t = none) :
    withoutMarkers (joinCommas (first :: rest)) =
      joinCommas (withoutMarkers first :: rest.map withoutMarkers) := by
  induction rest generalizing first with
  | nil => rw [joinCommas_singleton, List.map_nil, joinCommas_singleton]
  | cons next rest ih =>
    have later := @ih next fun t mem => plain t (by simp [mem])
    -- What follows a member begins with a comma, or there is nothing.
    have opening : afterWord? (joinCommas (next :: rest)) = none := by
      have own := plain next (by simp)
      cases rest with
      | nil => rwa [joinCommas_singleton]
      | cons second rest =>
        rw [joinCommas_cons, afterWord?_append_border next (border_cons (by decide) _), own,
          Option.map_none]
    rw [joinCommas_cons, withoutMarkers_append _ (border_cons (by decide) _),
      withoutMarkers_comma opening, later, List.map_cons, joinCommas_cons]

theorem schema_brackets (inner : Text) : schema ('[' :: (inner ++ [']'])) = .anyObject := by
  have trimmed : Text.trim ('[' :: (inner ++ [']'])) = '[' :: (inner ++ [']']) := by
    apply Text.trim_eq_self
    · intro c first
      obtain rfl : '[' = c := by simpa using first
      rfl
    · intro c last
      rw [← List.cons_append, List.getLast?_concat] at last
      cases last
      rfl
  have noWord : words.lookup ('[' :: (inner ++ [']'])) = none :=
    lookup_words_of_not_isName (c := '[') (by simp) rfl
  rw [schema_eq, trimmed, Form.of, noWord]
  rfl

theorem not_holdsMarker_name (word : Primitive) : ¬ HoldsMarker word.name := by
  cases word <;> decide

theorem not_holdsMarker_of_isNoneName {t : Text} (h : isNoneName t = true) : ¬ HoldsMarker t := by
  have lower : t.map Char.toLower = "none".toList ∨ t.map Char.toLower = "nonetype".toList := by
    simpa [isNoneName, Text.sameIgnoringCase] using h
  rcases lower with lower | lower <;> rw [HoldsMarker, lower] <;> decide

theorem not_holdsMarker_of_mem {name : Text}
    (h : name ∈ ["Union".toList, "List".toList, "list".toList, "Tuple".toList, "tuple".toList,
      "Dict".toList, "dict".toList, "Literal".toList]) : ¬ HoldsMarker name := by
  revert name
  decide

theorem withoutMarkers_other {name : Text} (h : ¬ HoldsMarker name) (inner : Text) :
    withoutMarkers (bracketed name inner) = bracketed name (withoutMarkers inner) := by
  rw [withoutMarkers_bracketed, withoutMarkers_eq_self h]

theorem afterWord?_bracketed {name : Text} (h : ¬ HoldsMarker name) (inner : Text) :
    afterWord? (bracketed name inner) = none := by
  rw [bracketed, afterWord?_append_border _ (border_cons (by decide) _),
    afterWord?_of_not_holdsMarker h, Option.map_none]

namespace Tree

def isChoice : Tree → Bool
  | .optional _ | .union _ _ => true
  | .spaced _ inner _ => inner.isChoice
  | _ => false

-- The hint is a choice with a member that is not the absent value.
def GivesMember : Tree → Prop
  | .optional inner => inner.isNone = false
  | .union first rest => ∃ member ∈ first :: rest, member.isNone = false
  | .spaced _ inner _ => inner.GivesMember
  | _ => False

def isOptionalForm : Tree → Bool
  | .optional _ => true
  | .spaced _ inner _ => inner.isOptionalForm
  | _ => false

mutual

-- No name of the hint holds an optionality word, and no `Optional` follows another member of a
-- union. What stands in a dictionary, a literal or after any other name is free.
def Regular : Tree → Prop
  | .name other => ¬ HoldsMarker other.text
  | .generic head _ => ¬ HoldsMarker head.text
  | .quoted _ inner | .list _ inner | .tuple _ inner | .spaced _ inner _ => inner.Regular
  | .union first rest => first.Regular ∧ RegularRest rest
  | .primitive _ | .none _ | .optional _ | .dict _ _ _ | .literal _ => True

def RegularRest : List Tree → Prop
  | [] => True
  | member :: rest => member.isOptionalForm = false ∧ member.Regular ∧ RegularRest rest

end

mutual

-- What the hint reads as when each `Optional` in it is taken for an object that takes anything.
def blurred : Tree → Schema
  | .primitive word => word.schema
  | .quoted _ inner | .spaced _ inner _ => inner.blurred
  | .union first rest => if first.isNone then blurredUnion rest else first.blurred
  | .list _ inner | .tuple _ inner => .arrayOf inner.blurred
  | .literal values => if values.1.any Char.isDigit then .integer else .string
  | .none _ | .name _ | .optional _ | .dict _ _ _ | .generic _ _ => .anyObject

def blurredUnion : List Tree → Schema
  | [] => .null
  | member :: rest => if member.isNone then blurredUnion rest else member.blurred

end

theorem afterWord?_text :
    (tree : Tree) → tree.Regular → tree.isOptionalForm = false → afterWord? tree.text = Option.none
  | .primitive word, _, _ => afterWord?_of_not_holdsMarker (not_holdsMarker_name word)
  | .none spelling, _, _ =>
    afterWord?_of_not_holdsMarker (not_holdsMarker_of_isNoneName spelling.2)
  | .name _, regular, _ => afterWord?_of_not_holdsMarker regular
  | .quoted quote inner, _, _ => by
    have border : Border (quote.char :: (inner.text ++ [quote.char])) :=
      border_cons (by cases quote <;> decide) _
    exact afterWord?_append_border [] border
  | .optional _, _, other => absurd other (by simp [isOptionalForm])
  | .union _ _, _, _ => by
    rw [text]
    exact afterWord?_bracketed (not_holdsMarker_of_mem (by decide)) _
  | .list capital _, _, _ => by
    rw [text]
    exact afterWord?_bracketed (not_holdsMarker_of_mem (capital.pick_mem (by decide) (by decide))) _
  | .tuple capital _, _, _ => by
    rw [text]
    exact afterWord?_bracketed (not_holdsMarker_of_mem (capital.pick_mem (by decide) (by decide))) _
  | .dict capital _ _, _, _ => by
    rw [text]
    exact afterWord?_bracketed (not_holdsMarker_of_mem (capital.pick_mem (by decide) (by decide))) _
  | .literal _, _, _ => by
    rw [text]
    exact afterWord?_bracketed (not_holdsMarker_of_mem (by decide)) _
  | .generic _ _, regular, _ => afterWord?_bracketed regular _
  | .spaced before inner after, regular, other => by
    rw [text, afterWord?_blank_append before.2, afterWord?_append_blank _ after.2,
      inner.afterWord?_text regular other, Option.map_none]

theorem blank_withoutMarkers_text :
    (tree : Tree) → tree.Regular → Text.blank (withoutMarkers tree.text) = false
  | .primitive word, _ => by
    rw [text, withoutMarkers_eq_self (not_holdsMarker_name word), word.isName_name.blank_eq_false]
  | .none spelling, _ => by
    rw [text, withoutMarkers_eq_self (not_holdsMarker_of_isNoneName spelling.2),
      (isName_of_isNoneName spelling.2).blank_eq_false]
  | .name other, regular => by
    rw [text, withoutMarkers_eq_self regular, other.isName.blank_eq_false]
  | .quoted quote inner, _ => by
    rw [text, withoutMarkers_quoted, Text.blank_cons_of_not quote.isBlank_char]
  | .optional _, _ | .union _ _, _ | .list _ _, _ | .tuple _ _, _ | .dict _ _ _, _ | .literal _, _
  | .generic _ _, _ => by
    rw [text, withoutMarkers_bracketed, bracketed, Text.blank_append,
      Text.blank_cons_of_not (c := '[') rfl, Bool.and_false]
  | .spaced before inner after, regular => by
    rw [text, ← Bool.not_eq_true, ← Text.trim_eq_nil_iff, trim_withoutMarkers_blanks before.2 after.2,
      Text.trim_eq_nil_iff, inner.blank_withoutMarkers_text regular]
    decide

theorem isNoneName_trim_withoutMarkers_text :
    (tree : Tree) → tree.Regular → isNoneName (Text.trim (withoutMarkers tree.text)) = tree.isNone
  | .primitive word, _ => by
    rw [text, withoutMarkers_eq_self (not_holdsMarker_name word), ← text, isNoneName_trim_text]
  | .none spelling, _ => by
    rw [text, withoutMarkers_eq_self (not_holdsMarker_of_isNoneName spelling.2), ← text,
      isNoneName_trim_text]
  | .name other, regular => by
    rw [text, withoutMarkers_eq_self regular, ← text, isNoneName_trim_text]
  | .quoted quote inner, _ => by
    rw [text, withoutMarkers_quoted, quote.trim_quoted]
    exact isNoneName_of_mem (List.mem_cons_self ..) quote.isNameChar_char
  | .optional _, _ | .union _ _, _ | .list _ _, _ | .tuple _ _, _ | .dict _ _ _, _ | .literal _, _
  | .generic _ _, _ => by
    rw [text, withoutMarkers_bracketed]
    exact isNoneName_of_mem (Text.mem_trim_of_mem (c := '[') (by simp [bracketed]) rfl) rfl
  | .spaced before inner after, regular => by
    rw [text, trim_withoutMarkers_blanks before.2 after.2,
      inner.isNoneName_trim_withoutMarkers_text regular, isNone]

theorem regularRest_iff {members : List Tree} :
    RegularRest members ↔ ∀ member ∈ members, member.isOptionalForm = false ∧ member.Regular := by
  induction members with
  | nil => simp [RegularRest]
  | cons member rest ih => simp [RegularRest, ih, and_assoc]

mutual

theorem schema_withoutMarkers_text :
    (tree : Tree) → tree.Regular → TypeHint.schema (withoutMarkers tree.text) = tree.blurred
  | .primitive word, _ => by
    rw [text, withoutMarkers_eq_self (not_holdsMarker_name word), ← text, schema_text_eq, schema,
      blurred]
  | .none spelling, _ => by
    rw [text, withoutMarkers_eq_self (not_holdsMarker_of_isNoneName spelling.2), ← text,
      schema_text_eq, schema, blurred]
  | .name other, regular => by
    rw [text, withoutMarkers_eq_self regular, ← text, schema_text_eq, schema, blurred]
  | .quoted quote inner, regular => by
    rw [text, withoutMarkers_quoted, schema_quoted, inner.schema_withoutMarkers_text regular, blurred]
  | .optional inner, _ => by
    have nothing : withoutMarkers "Optional" = [] := by decide +kernel
    rw [text, withoutMarkers_bracketed, nothing, bracketed, List.nil_append, schema_brackets, blurred]
  | .union first rest, ⟨regular, later⟩ => by
    have members := regularRest_iff.mp later
    have plain : ∀ t ∈ texts rest, afterWord? t = Option.none := by
      intro t mem
      rw [texts_eq_map] at mem
      obtain ⟨member, known, rfl⟩ := List.mem_map.mp mem
      exact member.afterWord?_text (members member known).2 (members member known).1
    -- The members keep their commas, and each is still one part and more than blanks.
    have kept : ∀ t ∈ withoutMarkers first.text :: (texts rest).map withoutMarkers,
        ∃ member : Tree, member.Regular ∧ t = withoutMarkers member.text := by
      intro t mem
      rcases List.mem_cons.mp mem with rfl | mem
      · exact ⟨first, regular, rfl⟩
      · rw [texts_eq_map, List.map_map] at mem
        obtain ⟨member, known, rfl⟩ := List.mem_map.mp mem
        exact ⟨member, (members member known).2, rfl⟩
    have single : ∀ t ∈ withoutMarkers first.text :: (texts rest).map withoutMarkers, Single 0 t := by
      intro t mem
      obtain ⟨member, -, rfl⟩ := kept t mem
      exact single_withoutMarkers member.single_text
    have visible : ∀ t ∈ withoutMarkers first.text :: (texts rest).map withoutMarkers,
        Text.blank t = false := by
      intro t mem
      obtain ⟨member, known, rfl⟩ := kept t mem
      exact member.blank_withoutMarkers_text known
    rw [text, withoutMarkers_other (not_holdsMarker_of_mem (by decide)),
      schema_union_bracketed (.inr rfl), withoutMarkers_joinCommas plain, givenParts,
      parts_joinCommas single visible, List.map_cons, schema_given,
      first.isNoneName_trim_withoutMarkers_text regular, schema_withoutMarkers_texts rest later,
      first.schema_withoutMarkers_text regular, blurred]
  | .list capital inner, regular => by
    have known : capital.pick "List" "list" ∈ sequenceNames :=
      capital.pick_mem (by decide) (by decide)
    rw [text, withoutMarkers_other
        (not_holdsMarker_of_mem (capital.pick_mem (by decide) (by decide))),
      schema_sequence_bracketed known (inner.blank_withoutMarkers_text regular),
      inner.schema_withoutMarkers_text regular, blurred]
  | .tuple capital inner, regular => by
    have known : capital.pick "Tuple" "tuple" ∈ sequenceNames :=
      capital.pick_mem (by decide) (by decide)
    rw [text, withoutMarkers_other
        (not_holdsMarker_of_mem (capital.pick_mem (by decide) (by decide))),
      schema_sequence_bracketed known (inner.blank_withoutMarkers_text regular),
      inner.schema_withoutMarkers_text regular, blurred]
  | .dict capital key value, _ => by
    rw [text, withoutMarkers_other
        (not_holdsMarker_of_mem (capital.pick_mem (by decide) (by decide))),
      schema_other_bracketed (isName_dict capital) (by cases capital <;> decide), blurred]
  | .literal values, _ => by
    rw [text, withoutMarkers_other (not_holdsMarker_of_mem (by decide)), schema_literal_bracketed,
      any_isDigit_withoutMarkers, blurred]
  | .generic head arguments, regular => by
    have other : head.text ∉ readNames := fun mem =>
      head.notForm (mem_formNames_of_mem_readNames head.text mem)
    rw [text, withoutMarkers_other regular, schema_other_bracketed head.isName other, blurred]
  | .spaced before inner after, regular => by
    rw [text, ← schema_trim, trim_withoutMarkers_blanks before.2 after.2, schema_trim,
      inner.schema_withoutMarkers_text regular, blurred]

theorem schema_withoutMarkers_texts : (members : List Tree) → RegularRest members →
    (Form.union ((((texts members).map withoutMarkers).map Text.trim).filter
      (!isNoneName ·))).schema = blurredUnion members
  | [], _ => rfl
  | member :: rest, ⟨_, regular, later⟩ => by
    rw [texts, List.map_cons, List.map_cons, schema_given,
      member.isNoneName_trim_withoutMarkers_text regular, schema_withoutMarkers_texts rest later,
      member.schema_withoutMarkers_text regular, blurredUnion]

end

end Tree

def choiceNames : List Text := ["Optional", "Union"]

theorem stripStart?_other_bracketed {word name : Text} (known : word ∈ choiceNames)
    (named : IsName name) (other : name ∉ choiceNames) (inner : Text) :
    Text.stripStart? (word ++ ['[']) (Text.trim (bracketed name inner)) = none := by
  have plain : '[' ∉ word := by
    revert word
    decide
  have different : word ≠ name := by
    rintro rfl
    exact other known
  rw [named.trim_bracketed, bracketed, stripStart?_bracketed plain (named.not_mem (by decide)),
    if_neg different]

theorem Tree.stripStart?_text {opening : Text} (known : opening ∈ choiceNames) :
    (tree : Tree) → tree.isChoice = false →
      Text.stripStart? (opening ++ ['[']) (Text.trim tree.text) = Option.none
  | .primitive word, _ => by
    rw [text, word.isName_name.trim_eq, stripStart?_opening_of_isName word.isName_name]
  | .none spelling, _ => by
    have named := isName_of_isNoneName spelling.2
    rw [text, named.trim_eq, stripStart?_opening_of_isName named]
  | .name other, _ => by
    rw [text, other.isName.trim_eq, stripStart?_opening_of_isName other.isName]
  | .quoted quote inner, _ => by
    have first : ∀ word ∈ choiceNames, ∀ rest,
        Text.stripStart? (word ++ ['[']) (quote.char :: rest) = Option.none := by
      cases quote <;> simp [choiceNames, Quote.char, Text.stripStart?]
    rw [text, quote.trim_quoted, first opening known]
  | .optional _, choice | .union _ _, choice => absurd choice (by simp [isChoice])
  | .list capital inner, _ => by
    rw [text, stripStart?_other_bracketed known (isName_list capital) (by cases capital <;> decide)]
  | .tuple capital inner, _ => by
    rw [text, stripStart?_other_bracketed known (isName_tuple capital) (by cases capital <;> decide)]
  | .dict capital key value, _ => by
    rw [text, stripStart?_other_bracketed known (isName_dict capital) (by cases capital <;> decide)]
  | .literal values, _ => by
    rw [text, stripStart?_other_bracketed known isName_literal (by decide)]
  | .generic head arguments, _ => by
    have other : head.text ∉ choiceNames := fun mem =>
      head.notForm ((by decide : ∀ name ∈ choiceNames, name ∈ formNames) head.text mem)
    rw [text, stripStart?_other_bracketed known head.isName other]
  | .spaced before inner after, choice => by
    rw [text, Text.trim_blank_append before.2, Text.trim_append_blank _ after.2,
      inner.stripStart?_text known choice]

theorem valueHint_optional (inner : Text) :
    valueHint (bracketed "Optional" inner) = Text.trim inner := by
  have found : Text.between? "Optional[" "]" (bracketed "Optional" inner) = some inner :=
    Text.between?_append "Optional[" inner "]"
  rw [valueHint, found]

theorem valueHint_union (inner : Text) :
    valueHint (bracketed "Union" inner) = (givenParts inner).headD "Any" := by
  have missing : Text.between? "Optional[" "]" (bracketed "Union" inner) = none := rfl
  have found : Text.between? "Union[" "]" (bracketed "Union" inner) = some inner :=
    Text.between?_append "Union[" inner "]"
  rw [valueHint, missing, found]

theorem valueHint_text {tree : Tree} (h : tree.isChoice = false) :
    valueHint (Text.trim tree.text) = Text.trim (withoutMarkers (Text.trim tree.text)) := by
  have noOptional : Text.between? "Optional[" "]" (Text.trim tree.text) = none := by
    have start : Text.stripStart? "Optional[" (Text.trim tree.text) = none :=
      tree.stripStart?_text (show "Optional".toList ∈ choiceNames by decide) h
    rw [Text.between?, start, Option.bind_none]
  have noUnion : Text.between? "Union[" "]" (Text.trim tree.text) = none := by
    have start : Text.stripStart? "Union[" (Text.trim tree.text) = none :=
      tree.stripStart?_text (show "Union".toList ∈ choiceNames by decide) h
    rw [Text.between?, start, Option.bind_none]
  have single : parts (Text.trim tree.text) = [Text.trim tree.text] := by
    have whole := @parts_joinCommas [tree.text] (by simpa using tree.single_text)
      (by simpa using tree.blank_text)
    rwa [joinCommas_singleton, ← parts_trim] at whole
  rw [valueHint, noOptional, noUnion, single]

theorem Tree.schema_valueHint_of_not_choice {tree : Tree} (choice : tree.isChoice = false)
    (regular : tree.Regular) : TypeHint.schema (valueHint (Text.trim tree.text)) = tree.blurred := by
  rw [valueHint_text choice, trim_withoutMarkers_trim, schema_trim,
    tree.schema_withoutMarkers_text regular]

theorem Tree.schema_valueHint_of_givesMember :
    (tree : Tree) → tree.GivesMember → TypeHint.schema (valueHint (Text.trim tree.text)) = tree.schema
  | .optional inner, given => by
    have present : inner.isNone = false := given
    rw [text, isName_optional.trim_bracketed, valueHint_optional, schema_trim, inner.schema_text_eq,
      schema, present]
    rfl
  | .union first rest, ⟨member, known, present⟩ => by
    let members := givenParts (joinCommas (first.text :: texts rest))
    have some : members ≠ [] := by
      have kept : Text.trim member.text ∈ members := by
        change _ ∈ givenParts (joinCommas (texts (first :: rest)))
        rw [givenParts_joinCommas, texts_eq_map, List.map_map]
        refine List.mem_filter.mpr ⟨List.mem_map_of_mem (f := Text.trim ∘ text) known, ?_⟩
        rw [member.isNoneName_trim_text, present]
        rfl
      exact List.ne_nil_of_mem kept
    obtain ⟨given, others, split⟩ := List.exists_cons_of_ne_nil some
    have whole : TypeHint.schema (Tree.union first rest).text = (Form.union members).schema := by
      rw [text, schema_union_bracketed (.inr rfl)]
    rw [schema_text_eq, split] at whole
    rw [text, isName_union.trim_bracketed, valueHint_union]
    change TypeHint.schema (members.headD _) = _
    rw [split, List.headD_cons, whole, Form.schema]
  | .spaced before inner after, given => by
    rw [text, Text.trim_blank_append before.2, Text.trim_append_blank _ after.2,
      inner.schema_valueHint_of_givesMember given, schema]

/-- An `Optional` or `Union` with a member reads in a definition as it does for a parameter. Any
other hint does so just if the reading stays the same when each `Optional` inside it is an object.
-/
theorem schema_valueHint (tree : Tree) :
    (tree.GivesMember →
      schema (valueHint (Text.trim tree.text)) = schema tree.text) ∧
    (tree.isChoice = false → tree.Regular →
      (schema (valueHint (Text.trim tree.text)) = schema tree.text ↔ tree.blurred = tree.schema)) := by
  constructor
  · intro given
    rw [tree.schema_valueHint_of_givesMember given, tree.schema_text_eq]
  · intro choice regular
    rw [Tree.schema_valueHint_of_not_choice choice regular, tree.schema_text_eq]

def optionalStrings : Tree := .list .upper (.optional (.primitive .str))

def tupleOfTables : Tree :=
  .tuple .upper (.dict .upper (.primitive .str)
    (.spaced ⟨" ", by decide⟩ (.optional (.primitive .int)) ⟨[], by decide⟩))

theorem schema_valueHint_inside :
    (Tree.optional optionalStrings).GivesMember ∧
    schema (valueHint "Optional[List[Optional[str]]]") = schema "Optional[List[Optional[str]]]" ∧
    tupleOfTables.isChoice = false ∧ tupleOfTables.Regular ∧
    schema (valueHint "Tuple[Dict[str, Optional[int]]]") =
      schema "Tuple[Dict[str, Optional[int]]]" := by
  have given : (Tree.optional optionalStrings).GivesMember := rfl
  have choice : tupleOfTables.isChoice = false := rfl
  have regular : tupleOfTables.Regular := trivial
  exact ⟨given, (schema_valueHint (.optional optionalStrings)).1 given, choice, regular,
    ((schema_valueHint tupleOfTables).2 choice regular).mpr rfl⟩

-- So the definition of a list of optional strings does not read as a parameter does.
theorem not_schema_valueHint :
    ¬∀ tree : Tree, (tree.isChoice = true → tree.GivesMember) →
      schema (valueHint (Text.trim tree.text)) = schema tree.text := by
  intro always
  have same := always optionalStrings fun choice => absurd choice (by decide)
  have regular : optionalStrings.Regular := trivial
  rw [Tree.schema_valueHint_of_not_choice rfl regular, Tree.schema_text_eq] at same
  cases same

end CallSchema.TypeHint
