import CallSchema.Proofs.TypeHint.Structure
import CallSchema.TypeHint.Optionality

set_option autoImplicit false

namespace CallSchema.TypeHint

def Closed (depth : Nat) : Text → Prop
  | [] => depth = 0
  | c :: t =>
    if c = '[' then Closed (depth + 1) t
    else if c = ']' then 0 < depth ∧ Closed (depth - 1) t
    else Closed depth t

theorem closed_of_plain {t : Text} (opening : '[' ∉ t) (closing : ']' ∉ t) : Closed 0 t := by
  induction t with
  | nil => rfl
  | cons c t ih =>
    simp only [List.mem_cons, not_or] at opening closing
    rw [Closed, if_neg (Ne.symm opening.1), if_neg (Ne.symm closing.1)]
    exact ih opening.2 closing.2

theorem closed_append {depth base : Nat} {s t : Text} (first : Closed depth s)
    (second : Closed base t) : Closed (base + depth) (s ++ t) := by
  induction s generalizing depth with
  | nil =>
    obtain rfl : depth = 0 := first
    exact second
  | cons c s ih =>
    rw [Closed] at first
    rw [List.cons_append, Closed]
    by_cases opening : c = '['
    · rw [if_pos opening] at first ⊢
      exact ih first
    rw [if_neg opening] at first ⊢
    by_cases closing : c = ']'
    · rw [if_pos closing] at first ⊢
      have above : base + depth - 1 = base + (depth - 1) := by omega
      rw [above]
      exact ⟨by omega, ih first.2⟩
    · rw [if_neg closing] at first ⊢
      exact ih first

theorem closed_of_blank {t : Text} (h : Text.blank t = true) : Closed 0 t := by
  have visible : ∀ c, Text.isBlank c = false → c ∉ t := by
    intro c other mem
    rw [Text.blank_iff.mp h c mem] at other
    exact absurd other (by decide)
  exact closed_of_plain (visible '[' rfl) (visible ']' rfl)

theorem IsName.closed {name : Text} (h : IsName name) : Closed 0 name :=
  closed_of_plain (h.not_mem rfl) (h.not_mem rfl)

theorem IsName.closed_bracketed {name inner : Text} (h : IsName name) (inside : Closed 0 inner) :
    Closed 0 (bracketed name inner) := by
  have closing : Closed 1 [']'] := by simp [Closed]
  have within : Closed (1 + 0) (inner ++ [']']) := closed_append inside closing
  have enclosed : Closed 0 ('[' :: (inner ++ [']'])) := by rwa [Closed, if_pos rfl]
  exact closed_append h.closed enclosed

theorem closed_quoted (quote : Quote) {inner : Text} (h : Closed 0 inner) :
    Closed 0 (quote.char :: (inner ++ [quote.char])) := by
  have single : Closed 0 [quote.char] := by cases quote <;> simp [Closed, Quote.char]
  exact closed_append single (closed_append h single)

theorem closed_joinCommas {ts : List Text} (closed : ∀ t ∈ ts, Closed 0 t) :
    Closed 0 (joinCommas ts) := by
  induction ts with
  | nil => rfl
  | cons t rest ih =>
    cases rest with
    | nil => simpa using closed t (by simp)
    | cons next rest =>
      have later := ih fun s mem => closed s (by simp [mem])
      have comma : Closed 0 (',' :: joinCommas (next :: rest)) :=
        closed_append (closed_of_plain (t := [',']) (by decide) (by decide)) later
      rw [joinCommas_cons]
      exact closed_append (closed t (by simp)) comma

theorem upToClosing?_append {depth : Nat} {inner : Text} (h : Closed depth inner) (rest : Text) :
    upToClosing? depth (inner ++ ']' :: rest) = some inner := by
  induction inner generalizing depth with
  | nil =>
    obtain rfl : depth = 0 := h
    rfl
  | cons c inner ih =>
    rw [Closed] at h
    rw [List.cons_append]
    unfold upToClosing?
    by_cases opening : c = '['
    · rw [if_pos opening] at h ⊢
      rw [ih h, Option.map_some]
    rw [if_neg opening] at h ⊢
    by_cases closing : c = ']'
    · rw [if_pos closing] at h ⊢
      obtain ⟨above, inside⟩ := h
      obtain ⟨lower, rfl⟩ := Nat.exists_eq_succ_of_ne_zero (Nat.pos_iff_ne_zero.mp above)
      have found : upToClosing? lower (inner ++ ']' :: rest) = some inner := ih inside
      simp only [found, Option.map_some]
    · rw [if_neg closing] at h ⊢
      rw [ih h, Option.map_some]

theorem bracketed?_append {word name inner : Text} (plain : '[' ∉ word) (named : IsName name)
    (closed : Closed 0 inner) (rest : Text) :
    bracketed? (word ++ ['[']) (bracketed name inner ++ rest) =
      if word = name then some inner else none := by
  have whole : bracketed name inner ++ rest = name ++ '[' :: (inner ++ ']' :: rest) := by
    simp [bracketed]
  rw [bracketed?, whole, stripStart?_bracketed plain (named.not_mem rfl)]
  by_cases same : word = name
  · rw [if_pos same, if_pos same, Option.bind_some, upToClosing?_append closed]
  · rw [if_neg same, if_neg same, Option.bind_none]

theorem bracketed?_of_plain {t : Text} (plain : '[' ∉ t) (word : Text) :
    bracketed? (word ++ ['[']) t = none := by
  have missing : Text.stripStart? (word ++ ['[']) t = none := by
    rw [Text.stripStart?_eq_none_iff]
    rintro rest rfl
    exact plain (by simp)
  rw [bracketed?, missing, Option.bind_none]

def offersAbsence (t : Text) : Bool :=
  (bracketed? "Optional[" t).isSome ||
    (bracketed? "Union[" t).any fun members => (parts members).any isNoneName

theorem isOptional_eq (t : Text) :
    isOptional t =
      (offersAbsence (withoutParentheses t) ||
        (parts (withoutParentheses t)).any (Text.sameIgnoringCase · "optional")) := rfl

theorem offersAbsence_of_plain {t : Text} (plain : '[' ∉ t) : offersAbsence t = false := by
  have optional : bracketed? "Optional[" t = none := bracketed?_of_plain plain "Optional"
  have union : bracketed? "Union[" t = none := bracketed?_of_plain plain "Union"
  rw [offersAbsence, optional, union]
  rfl

theorem offersAbsence_quoted (quote : Quote) (t : Text) : offersAbsence (quote.char :: t) = false := by
  cases quote <;> rfl

theorem offersAbsence_bracketed {name inner : Text} (named : IsName name) (closed : Closed 0 inner)
    (rest : Text) :
    offersAbsence (bracketed name inner ++ rest) =
      (decide (name = "Optional".toList) ||
        decide (name = "Union".toList) && (parts inner).any isNoneName) := by
  have optional : bracketed? "Optional[" (bracketed name inner ++ rest) =
      if "Optional".toList = name then some inner else none :=
    bracketed?_append (show '[' ∉ "Optional".toList by decide) named closed rest
  have union : bracketed? "Union[" (bracketed name inner ++ rest) =
      if "Union".toList = name then some inner else none :=
    bracketed?_append (show '[' ∉ "Union".toList by decide) named closed rest
  rw [offersAbsence, optional, union]
  by_cases isOptional : "Optional".toList = name
  · rw [if_pos isOptional, decide_eq_true isOptional.symm]
    rfl
  rw [if_neg isOptional, decide_eq_false (Ne.symm isOptional)]
  by_cases isUnion : "Union".toList = name
  · rw [if_pos isUnion, decide_eq_true isUnion.symm]
    rfl
  · rw [if_neg isUnion, decide_eq_false (Ne.symm isUnion)]
    rfl

theorem offersAbsence_name_append {name rest : Text} (named : IsName name) (plain : '[' ∉ rest) :
    offersAbsence (Text.trim (name ++ rest)) = false := by
  apply offersAbsence_of_plain
  intro mem
  rcases List.mem_append.mp (Text.mem_of_mem_trim mem) with inside | after
  · exact named.not_mem rfl inside
  · exact plain after

theorem IsName.trim_append {name : Text} (h : IsName name) (rest : Text) :
    ∃ first later, isNameChar first = true ∧ Text.trim (name ++ rest) = first :: later := by
  obtain ⟨first, others, rfl⟩ := List.exists_cons_of_ne_nil h.1
  exact ⟨first, _, h.2 first (by simp), Text.trim_cons_of_not (h.isBlank_of_mem (by simp)) _⟩

theorem IsName.trim_bracketed_append {name : Text} (h : IsName name) (inner rest : Text) :
    Text.trim (bracketed name inner ++ rest) = bracketed name inner ++ Text.trimEnd rest := by
  have first : ∀ c ∈ (name ++ '[' :: inner).head?, Text.isBlank c = false := by
    rw [List.head?_append_of_ne_nil name h.1]
    exact fun c hc => h.isBlank_of_mem (List.mem_of_head? hc)
  have whole := Text.trim_append_cons (c := ']') (by simp) first rfl rest
  simpa [bracketed] using whole

theorem IsName.stripStart?_parenthesis {name : Text} (h : IsName name) (rest : Text) :
    Text.stripStart? ['('] (Text.trim (name ++ rest)) = none := by
  obtain ⟨first, later, plain, trimmed⟩ := h.trim_append rest
  have other : '(' ≠ first := by
    rintro rfl
    exact absurd plain (by decide)
  rw [trimmed, Text.stripStart?_cons_of_ne other]

structure Matched (t : Text) : Prop where
  balanced : Balanced 0 t
  closed : Closed 0 t

theorem Matched.append {s t : Text} (first : Matched s) (second : Matched t) : Matched (s ++ t) :=
  ⟨balanced_append first.balanced (by decide) second.balanced,
    closed_append first.closed second.closed⟩

theorem matched_of_blank {t : Text} (h : Text.blank t = true) : Matched t :=
  ⟨balanced_of_blank h, closed_of_blank h⟩

theorem matched_quoted (quote : Quote) {inner : Text} (h : Matched inner) :
    Matched (quote.char :: (inner ++ [quote.char])) :=
  ⟨balanced_quoted quote h.balanced, closed_quoted quote h.closed⟩

theorem IsName.matched {name : Text} (h : IsName name) : Matched name := ⟨h.balanced, h.closed⟩

theorem IsName.matched_bracketed {name inner : Text} (h : IsName name) (inside : Matched inner) :
    Matched (bracketed name inner) :=
  ⟨h.balanced_bracketed inside.balanced, h.closed_bracketed inside.closed⟩

theorem matched_joinCommas {ts : List Text} (h : ∀ t ∈ ts, Matched t) : Matched (joinCommas ts) :=
  ⟨balanced_joinCommas fun t mem => (h t mem).balanced,
    closed_joinCommas fun t mem => (h t mem).closed⟩

inductive Expr where
  -- Also the primitives, and the absent value.
  | name (word : {t : Text // IsName t})
  | quoted (quote : Quote) (inner : Expr)
  | applied (head : {t : Text // IsName t}) (members : List Expr)
  -- A `Literal`, or a name of which nothing is known: what it encloses need not be hints.
  | enclosing (head : {t : Text // IsName t ∧ t ∉ ["Optional".toList, "Union".toList]})
    (inner : {t : Text // Matched t})
  | spaced (before : Blanks) (inner : Expr) (after : Blanks)

namespace Expr

mutual

def text : Expr → Text
  | .name word => word.1
  | .quoted quote inner => quote.char :: (inner.text ++ [quote.char])
  | .applied head members => bracketed head.1 (joinCommas (texts members))
  | .enclosing head inner => bracketed head.1 inner.1
  | .spaced before inner after => before.1 ++ (inner.text ++ after.1)

def texts : List Expr → List Text
  | [] => []
  | expr :: rest => expr.text :: texts rest

end

def isNone : Expr → Bool
  | .name word => isNoneName word.1
  | .spaced _ inner _ => inner.isNone
  | _ => false

-- The hint is an `Optional`, or a `Union` with the absent value as a member of its own.
def offersAbsence : Expr → Bool
  | .applied head members =>
    decide (head.1 = "Optional".toList) || decide (head.1 = "Union".toList) && members.any isNone
  | .spaced _ inner _ => inner.offersAbsence
  | _ => false

theorem texts_eq_map (members : List Expr) : texts members = members.map text := by
  induction members with
  | nil => rfl
  | cons member rest ih => rw [texts, ih, List.map_cons]

mutual

theorem matched_text : (expr : Expr) → Matched expr.text
  | .name word => word.2.matched
  | .quoted quote inner => matched_quoted quote inner.matched_text
  | .applied head members => head.2.matched_bracketed (matched_joinCommas (matched_texts members))
  | .enclosing head inner => head.2.1.matched_bracketed inner.2
  | .spaced before inner after =>
    (matched_of_blank before.2).append (inner.matched_text.append (matched_of_blank after.2))

theorem matched_texts : (exprs : List Expr) → ∀ t ∈ texts exprs, Matched t
  | [] => by simp [texts]
  | first :: rest => by
    intro t mem
    rcases List.mem_cons.mp mem with rfl | mem
    · exact first.matched_text
    · exact matched_texts rest t mem

end

theorem matched_members (members : List Expr) : Matched (joinCommas (texts members)) :=
  matched_joinCommas (matched_texts members)

theorem single_text : (expr : Expr) → Single 0 expr.text
  | .name word => word.2.single
  | .quoted quote inner => single_quoted quote inner.single_text
  | .applied head members => head.2.single_bracketed (matched_members members).balanced
  | .enclosing head inner => head.2.1.single_bracketed inner.2.balanced
  | .spaced before inner after =>
    single_append (single_of_blank before.2) (single_append inner.single_text (single_of_blank after.2))

theorem blank_text : (expr : Expr) → Text.blank expr.text = false
  | .name word => word.2.blank_eq_false
  | .quoted quote _ => Text.blank_cons_of_not quote.isBlank_char
  | .applied head _ => head.2.blank_bracketed _
  | .enclosing head _ => head.2.1.blank_bracketed _
  | .spaced before inner after => by
    rw [text, Text.blank_append, Text.blank_append, inner.blank_text, Bool.false_and, Bool.and_false]

theorem isNoneName_trim_text : (expr : Expr) → isNoneName (Text.trim expr.text) = expr.isNone
  | .name word => by rw [text, word.2.trim_eq, isNone]
  | .quoted quote inner => by
    rw [text, quote.trim_quoted]
    exact isNoneName_of_mem (List.mem_cons_self ..) quote.isNameChar_char
  | .applied head _ => by
    rw [text, head.2.trim_bracketed, isNoneName_bracketed]
    rfl
  | .enclosing head _ => by
    rw [text, head.2.1.trim_bracketed, isNoneName_bracketed]
    rfl
  | .spaced before inner after => by
    rw [text, Text.trim_blank_append before.2, Text.trim_append_blank _ after.2,
      inner.isNoneName_trim_text, isNone]

theorem any_isNoneName_parts (members : List Expr) :
    (parts (joinCommas (texts members))).any isNoneName = members.any isNone := by
  have single : ∀ t ∈ texts members, Single 0 t := by
    rw [texts_eq_map]
    exact List.forall_mem_map.mpr fun member _ => member.single_text
  have visible : ∀ t ∈ texts members, Text.blank t = false := by
    rw [texts_eq_map]
    exact List.forall_mem_map.mpr fun member _ => member.blank_text
  rw [parts_joinCommas single visible, texts_eq_map, List.map_map, List.any_map]
  congr 1
  funext member
  exact member.isNoneName_trim_text

theorem stripStart?_parenthesis :
    (expr : Expr) → (rest : Text) → Text.stripStart? ['('] (Text.trim (expr.text ++ rest)) = none
  | .name word, rest => word.2.stripStart?_parenthesis rest
  | .quoted quote inner, rest => by
    rw [text, List.cons_append, Text.trim_cons_of_not quote.isBlank_char]
    cases quote <;> rfl
  | .applied head _, rest => by
    rw [text, bracketed, List.append_assoc, head.2.stripStart?_parenthesis]
  | .enclosing head _, rest => by
    rw [text, bracketed, List.append_assoc, head.2.1.stripStart?_parenthesis]
  | .spaced before inner after, rest => by
    rw [text, List.append_assoc, Text.trim_blank_append before.2, List.append_assoc,
      inner.stripStart?_parenthesis]

theorem offersAbsence_text : (expr : Expr) → (rest : Text) → '[' ∉ rest →
    TypeHint.offersAbsence (Text.trim (expr.text ++ rest)) = expr.offersAbsence
  | .name word, rest, plain => offersAbsence_name_append word.2 plain
  | .quoted quote inner, rest, _ => by
    rw [text, List.cons_append, Text.trim_cons_of_not quote.isBlank_char, offersAbsence_quoted]
    rfl
  | .applied head members, rest, _ => by
    rw [text, head.2.trim_bracketed_append,
      offersAbsence_bracketed head.2 (matched_members members).closed, any_isNoneName_parts]
    rfl
  | .enclosing head inner, rest, _ => by
    have other := head.2.2
    simp only [List.mem_cons, List.not_mem_nil, or_false, not_or] at other
    rw [text, head.2.1.trim_bracketed_append, offersAbsence_bracketed head.2.1 inner.2.closed,
      decide_eq_false other.1, decide_eq_false other.2]
    rfl
  | .spaced before inner after, rest, plain => by
    have later : '[' ∉ after.1 ++ rest := by
      intro mem
      rcases List.mem_append.mp mem with blank | mem
      · exact absurd (Text.blank_iff.mp after.2 '[' blank) (by decide)
      · exact plain mem
    rw [text, List.append_assoc, Text.trim_blank_append before.2, List.append_assoc,
      inner.offersAbsence_text _ later, offersAbsence]

end Expr

abbrev Remark := {t : Text // ∀ c ∈ t, c ∉ ['[', ']', '(', ')', ',']}

-- A hint as documentation has it: with remarks after it, and perhaps in parentheses with white
-- space around them.
structure Remarked where
  hint : Expr
  remarks : List Remark
  parentheses : Option (Blanks × Blanks)

namespace Remarked

def words (remarked : Remarked) : List Text :=
  remarked.hint.text :: remarked.remarks.map (·.1)

def content (remarked : Remarked) : Text := joinCommas remarked.words

def text (remarked : Remarked) : Text :=
  match remarked.parentheses with
  | none => remarked.content
  | some (before, after) => before.1 ++ '(' :: (remarked.content ++ ')' :: after.1)

theorem exists_content (remarked : Remarked) :
    ∃ rest, '[' ∉ rest ∧ remarked.content = remarked.hint.text ++ rest := by
  have plain : ∀ remarks : List Remark, '[' ∉ joinCommas (remarks.map (·.1)) := by
    intro remarks
    induction remarks with
    | nil => simp [joinCommas, List.intercalate]
    | cons remark later ih =>
      have own : '[' ∉ remark.1 := fun mem => remark.2 '[' mem (by simp)
      cases later with
      | nil => simpa using own
      | cons next later =>
        rw [List.map_cons, List.map_cons, joinCommas_cons]
        simpa [own] using ih
  unfold content words
  cases remarks : remarked.remarks with
  | nil => exact ⟨[], by simp, by simp⟩
  | cons remark later =>
    refine ⟨',' :: joinCommas ((remark :: later).map (·.1)), ?_, ?_⟩
    · simpa using plain (remark :: later)
    · rw [List.map_cons, joinCommas_cons]

theorem parts_content (remarked : Remarked) :
    parts remarked.content = (remarked.words.map Text.trim).filter (· ≠ []) := by
  have single : ∀ t ∈ remarked.words, Single 0 t := by
    intro t mem
    rcases List.mem_cons.mp mem with rfl | mem
    · exact remarked.hint.single_text
    · obtain ⟨remark, -, rfl⟩ := List.mem_map.mp mem
      apply single_of_flat
      · intro c inside
        have plain := remark.2 c inside
        simp only [List.mem_cons, List.not_mem_nil, or_false, not_or] at plain
        simp [depthStep, plain]
      · exact fun inside => remark.2 ',' inside (by simp)
  rw [parts, content, cut_joinCommas (by simp [words]) single]

theorem withoutParentheses_text (remarked : Remarked) :
    withoutParentheses remarked.text = Text.trim remarked.content := by
  unfold text withoutParentheses
  cases remarked.parentheses with
  | none =>
    obtain ⟨rest, -, whole⟩ := remarked.exists_content
    have missing : Text.between? ['('] [')'] (Text.trim remarked.content) = none := by
      rw [whole, Text.between?, remarked.hint.stripStart?_parenthesis, Option.bind_none]
    simp only [missing]
  | some blanks =>
    obtain ⟨before, after⟩ := blanks
    have trimmed : Text.trim (before.1 ++ '(' :: (remarked.content ++ ')' :: after.1)) =
        ['('] ++ (remarked.content ++ [')']) := by
      rw [Text.trim_blank_append before.2, Text.trim_cons_of_not rfl,
        Text.trimEnd_append_cons remarked.content rfl, Text.trimEnd_eq_nil_iff.mpr after.2]
      rfl
    simp only [trimmed, Text.between?_append]

/-- A remarked hint is optional just if its hint offers the absent value, or the hint or one of the
remarks is the word "optional". -/
theorem isOptional_text (remarked : Remarked) :
    isOptional remarked.text = true ↔
      remarked.hint.offersAbsence = true ∨
        ∃ word ∈ remarked.words, Text.sameIgnoringCase (Text.trim word) "optional" = true := by
  obtain ⟨rest, plain, whole⟩ := remarked.exists_content
  have choice : offersAbsence (Text.trim remarked.content) = remarked.hint.offersAbsence := by
    rw [whole, remarked.hint.offersAbsence_text rest plain]
  have word : (parts (Text.trim remarked.content)).any (Text.sameIgnoringCase · "optional") =
      remarked.words.any fun word => Text.sameIgnoringCase (Text.trim word) "optional" := by
    -- A blank remark is no part, and not the word either.
    rw [parts_trim, parts_content, List.any_filter, List.any_map]
    congr 1
    funext t
    by_cases blank : Text.trim t = []
    · simp [blank, Text.sameIgnoringCase]
    · simp [blank]
  rw [isOptional_eq, withoutParentheses_text, choice, word, Bool.or_eq_true, List.any_eq_true]

example : isOptional "(Dict[str, Optional[int]], see below)" = false := by decide

example : isOptional " ( List[None] , Optional ) " = true := by decide

end Remarked

end CallSchema.TypeHint
