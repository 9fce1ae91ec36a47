import CallSchema.Proofs.Docstring.Item
import CallSchema.Proofs.Outline.Head

set_option autoImplicit false

namespace CallSchema

def Outline.Head.line (head : Outline.Head) : Text :=
  head.name ++ ' ' :: '(' :: (head.hint ++ ')' :: ':' :: ' ' :: head.summary)

namespace Docstring.Item

structure Agrees (item : Item) (head : Outline.Head) : Prop where
  name : item.name = head.name
  hint : item.hint = some head.hint
  description : item.description = head.summary

theorem not_endsOptional {hint : Text} (comma : ',' ∉ hint) : ¬EndsOptional hint := by
  rintro ⟨before, gap, word, -, -, rfl⟩
  exact comma (by simp)

theorem mem_of_mem_beforeOptional? {hint rest : Text} (h : beforeOptional? hint = some rest) {c : Char}
    (mem : c ∈ rest) : c ∈ hint := by
  obtain ⟨afterWord, word, h⟩ := Option.bind_eq_some_iff.mp h
  obtain ⟨afterComma, comma, h⟩ := Option.bind_eq_some_iff.mp h
  cases h
  have early : c ∈ afterComma := by simpa using Text.mem_of_mem_trimEnd mem
  obtain ⟨backwards, whole, -⟩ := Text.append_of_stripStartIgnoringCase? word
  have inside : c ∈ Text.trimStart afterWord := by simp [Text.append_of_stripStart? comma, early]
  have outer : c ∈ Text.trimStart hint.reverse := by
    simp [whole, Text.mem_of_mem_trimStart inside]
  exact List.mem_reverse.mp (Text.mem_of_mem_trimStart outer)

theorem mem_of_mem_optionality {hint : Text} {c : Char} (mem : c ∈ (optionality hint).1) :
    c ∈ hint := by
  unfold optionality at mem
  split at mem
  · next found => exact mem_of_mem_beforeOptional? found mem
  split at mem
  · next rest found =>
    rw [Text.append_of_stripEnd? found]
    simp [Text.mem_of_mem_trimEnd mem]
  · exact mem

theorem mem_of_splitHead? {head name hint : Text} (h : splitHead? head = some (name, hint)) {c : Char}
    (mem : c ∈ hint) : c ∈ head := by
  cases head with
  | nil => cases h
  | cons first rest =>
    obtain ⟨⟨before, after⟩, opened, h⟩ := Option.bind_eq_some_iff.mp h
    obtain ⟨⟨inner, last⟩, closed, h⟩ := Option.bind_eq_some_iff.mp h
    obtain ⟨_, -, h⟩ := Option.bind_eq_some_iff.mp h
    cases h
    obtain ⟨rfl, -⟩ := Text.of_splitLast?_singleton closed
    simp [Text.append_of_splitFirst? opened, Text.mem_of_mem_trim mem]

theorem colon_not_mem_hint (head : Text) (below : List Text) :
    ∀ hint ∈ (ofLines head below).hint, ':' ∉ hint := by
  have cut : ':' ∉ ((Text.splitFirst? [':'] (Text.trim head)).getD (Text.trim head, [])).1 := by
    cases found : Text.splitFirst? [':'] (Text.trim head) with
    | none => exact Text.not_mem_of_splitFirst?_eq_none found
    | some parts =>
      have plain : ¬ [':'] <:+: parts.1 := Text.not_infix_of_splitFirst? (by simp) found
      simpa [List.singleton_infix_iff] using plain
  intro hint known mem
  unfold ofLines at known
  dsimp only at known
  split at known
  · next split =>
    cases known
    exact cut (mem_of_splitHead? split (mem_of_mem_optionality mem))
  · cases known

theorem splitFirst?_line {head : Outline.Head} (clean : head.Clean) (colon : ':' ∉ head.hint) :
    Text.splitFirst? [':'] (Text.trim head.line) =
      some (head.name ++ ' ' :: '(' :: (head.hint ++ [')']),
        Text.trimEnd (' ' :: head.summary)) := by
  have name : ':' ∉ head.name :=
    Text.not_mem_of_isIdentifier clean.nameIdentifier (by decide) (by decide)
  have visible := Text.ne_nil_of_isIdentifier clean.nameIdentifier
  have first : ∀ c ∈ (head.name ++ ' ' :: '(' :: (head.hint ++ [')'])).head?,
      Text.isBlank c = false := by
    rw [List.head?_append_of_ne_nil head.name visible]
    intro c hc
    exact Text.isBlank_of_mem_isIdentifier clean.nameIdentifier (List.mem_of_head? hc)
  have plain : ':' ∉ head.name ++ ' ' :: '(' :: (head.hint ++ [')']) := by
    simp [name, colon]
  have line : head.line =
      (head.name ++ ' ' :: '(' :: (head.hint ++ [')'])) ++ ':' :: ' ' :: head.summary := by
    simp [Outline.Head.line]
  rw [line, Text.trim_append_cons (by simp) first rfl, Text.splitFirst?_singleton plain]

theorem agrees_of_colon_not_mem {head : Outline.Head} (clean : head.Clean)
    (word : ¬EndsOptional head.hint) (question : head.hint.getLast? ≠ some '?')
    (colon : ':' ∉ head.hint) : (ofLines head.line []).Agrees head := by
  have hintEnd : Text.trimEnd head.hint = head.hint := by
    rw [← clean.hintTrim, Text.trimEnd_trim]
  have nameTrim : Text.trim head.name = head.name := Text.trim_isIdentifier clean.nameIdentifier
  have nameOpen : '(' ∉ head.name :=
    Text.not_mem_of_isIdentifier clean.nameIdentifier (by decide) (by decide)
  have summary : Text.trim (Text.trimEnd (' ' :: head.summary)) = head.summary := by
    rw [Text.trim_trimEnd]
    exact (Text.trim_blank_append (s := [' ']) rfl _).trans clean.summaryTrim
  have split := splitHead?_parentheses (Text.ne_nil_of_isIdentifier clean.nameIdentifier) nameTrim
    nameOpen clean.hintVisible clean.hintTrim
  have bare := optionality_unmarked hintEnd word question
  have below : trimEmpty (dedent []) = [] := rfl
  constructor
  all_goals
    simp only [ofLines, splitFirst?_line clean colon, Option.getD_some, split, bare, summary, below]
  cases head.summary <;> simp

theorem agrees_iff {head : Outline.Head} (read : Outline.head? head.line = some head)
    (word : ¬EndsOptional head.hint) (question : head.hint.getLast? ≠ some '?') :
    (ofLines head.line []).Agrees head ↔ ':' ∉ head.hint := by
  constructor
  · intro agrees
    exact colon_not_mem_hint head.line [] head.hint agrees.hint
  · exact agrees_of_colon_not_mem (Outline.clean_of_head? read) word question

def listHead : Outline.Head := ⟨"mode", "List[Literal['x']]", "Mode."⟩

theorem agrees_listHead :
    Outline.head? listHead.line = some listHead ∧ ¬EndsOptional listHead.hint ∧
      listHead.hint.getLast? ≠ some '?' ∧ (ofLines listHead.line []).Agrees listHead := by
  have read : Outline.head? listHead.line = some listHead := by decide
  have word : ¬EndsOptional listHead.hint := not_endsOptional (by decide)
  have question : listHead.hint.getLast? ≠ some '?' := by decide
  exact ⟨read, word, question, (agrees_iff read word question).mpr (by decide)⟩

def colonHead : Outline.Head := ⟨"mode", "Literal['a:b']", "Mode."⟩

-- So an item whose hint holds a colon in quotes is cut inside of it.
theorem not_agrees_of_read :
    ¬∀ head : Outline.Head, '\n' ∉ head.line → Outline.head? head.line = some head →
      ¬EndsOptional head.hint → head.hint.getLast? ≠ some '?' →
      (ofLines head.line []).Agrees head := by
  intro always
  have agrees : (ofLines colonHead.line []).Agrees colonHead :=
    always colonHead (by decide) (by decide) (not_endsOptional (by decide)) (by decide)
  exact colon_not_mem_hint colonHead.line [] colonHead.hint agrees.hint (by decide)

end Docstring.Item

end CallSchema
