import CallSchema.Callable.Basic
import CallSchema.Proofs.Outline.Render
import CallSchema.Proofs.Required
import CallSchema.Proofs.Text.Strip
import CallSchema.Proofs.Text.Trim
import Mathlib.Data.List.TakeWhile
import Mathlib.Tactic.Common

set_option autoImplicit false

namespace CallSchema

open Outline (nameQuotes)

deriving instance DecidableEq for Callable

/-! ### What a schema requires -/

namespace FunctionSchema

def required (function : FunctionSchema) : List Text :=
  (function.parameters.shape?.getD .empty).required

theorem mem_required {publicName name : Text} {documentation : Documentation} :
    name ∈ (ofDocumentation publicName documentation).required ↔
      ∃ parameter ∈ documentation.parameters,
        parameter.required = true ∧ parameter.publicName = name := by
  refine ((records documentation.parameters).required name).trans ?_
  simp [Parameter.entry]

end FunctionSchema

/-! ### Names and the quotes around them -/

namespace Text

variable {marks : List Char} {mark : Char} {inner t : Text}

theorem dropWhile_marks_eq_self (first : ∀ c ∈ t.head?, c ∉ marks) :
    t.dropWhile marks.contains = t := by
  cases t with
  | nil => rfl
  | cons c rest => simp [first c rfl]

theorem trimMarks_eq_self (first : ∀ c ∈ t.head?, c ∉ marks) (last : ∀ c ∈ t.getLast?, c ∉ marks) :
    trimMarks marks t = t := by
  have backwards : t.reverse.dropWhile marks.contains = t.reverse :=
    dropWhile_marks_eq_self (by simpa using last)
  rw [trimMarks, dropWhile_marks_eq_self first, backwards, List.reverse_reverse]

theorem trimMarks_quoted (known : mark ∈ marks) (first : ∀ c ∈ inner.head?, c ∉ marks)
    (last : ∀ c ∈ inner.getLast?, c ∉ marks) :
    trimMarks marks (mark :: (inner ++ [mark])) = inner := by
  have quote : marks.contains mark = true := by simpa using known
  have opened : (mark :: (inner ++ [mark])).dropWhile marks.contains =
      (inner ++ [mark]).dropWhile marks.contains := List.dropWhile_cons_of_pos quote
  by_cases empty : inner = []
  · rw [trimMarks, opened, empty, List.nil_append, List.dropWhile_cons_of_pos quote]
    rfl
  · have stays : (inner ++ [mark]).dropWhile marks.contains = inner ++ [mark] := by
      apply dropWhile_marks_eq_self
      simpa [List.head?_append_of_ne_nil inner empty] using first
    have closed : (inner ++ [mark]).reverse.dropWhile marks.contains =
        inner.reverse.dropWhile marks.contains := by
      rw [List.reverse_concat]
      exact List.dropWhile_cons_of_pos quote
    have backwards : inner.reverse.dropWhile marks.contains = inner.reverse :=
      dropWhile_marks_eq_self (by simpa using last)
    rw [trimMarks, opened, stays, closed, backwards, List.reverse_reverse]

end Text

-- Neither blanks nor quotes stand at the ends of the name, as at those of a signature's names.
structure IsBare (name : Text) : Prop where
  trimmed : Text.trim name = name
  first : ∀ c ∈ name.head?, c ∉ nameQuotes
  last : ∀ c ∈ name.getLast?, c ∉ nameQuotes

-- What is written is the name in quotes, with blanks between these and the name.
def Padded (name written : Text) : Prop :=
  ∃ mark ∈ nameQuotes, ∃ inner, written = mark :: (inner ++ [mark]) ∧
    Text.trim inner = name ∧ inner ≠ name

section Names

variable {name written : Text} {parameter : Parameter}

theorem publicName_of_unquote? {inner : Text} (trimmed : Text.trim parameter.name = parameter.name)
    (quoted : Text.unquote? nameQuotes parameter.name = some inner) :
    parameter.publicName = Text.trim inner := by
  simp [Parameter.publicName, trimmed, quoted]

theorem publicName_of_unquoted (trimmed : Text.trim parameter.name = parameter.name)
    (bare : Text.unquote? nameQuotes parameter.name = none) :
    parameter.publicName = parameter.name := by
  simp [Parameter.publicName, trimmed, bare]

theorem Padded.trim_eq (padded : Padded name written) : Text.trim written = written := by
  obtain ⟨mark, known, inner, rfl, -, -⟩ := padded
  have visible := Outline.isBlank_of_mem_nameQuotes known
  exact Text.trim_eq_self (by simpa using visible)
    (by simpa [List.getLast?_cons] using visible)

theorem Padded.publicName_eq (padded : Padded name parameter.name) :
    parameter.publicName = name := by
  have trimmed := padded.trim_eq
  obtain ⟨mark, known, inner, quoted, rfl, -⟩ := padded
  have found : Text.unquote? nameQuotes parameter.name = some inner := by
    rw [quoted]
    exact Text.unquote?_append known
  exact publicName_of_unquote? trimmed found

theorem Padded.not_bare (bare : IsBare name) (padded : Padded name written) :
    ¬IsBare (Text.trimMarks nameQuotes written) := by
  obtain ⟨mark, known, inner, rfl, trimmed, differ⟩ := padded
  have edge : ∀ c, Text.isBlank c = true → c ∉ nameQuotes := by
    intro c blank mem
    rw [Outline.isBlank_of_mem_nameQuotes mem] at blank
    cases blank
  obtain ⟨before, after, beforeBlank, afterBlank, whole⟩ := Text.exists_trim inner
  rw [trimmed] at whole
  have first : ∀ c ∈ inner.head?, c ∉ nameQuotes := by
    rw [whole]
    cases before with
    | cons d rest =>
      intro c mem
      cases mem
      exact edge d (Text.blank_iff.mp beforeBlank d (by simp))
    | nil =>
      cases name with
      | cons d rest => simpa using bare.first
      | nil =>
        intro c mem
        exact edge c (Text.blank_iff.mp afterBlank c (List.mem_of_mem_head? (by simpa using mem)))
  have last : ∀ c ∈ inner.getLast?, c ∉ nameQuotes := by
    rcases List.eq_nil_or_concat after with rfl | ⟨rest, d, rfl⟩
    · rw [whole, List.append_nil]
      rcases List.eq_nil_or_concat name with rfl | ⟨rest, d, rfl⟩
      · intro c mem
        rw [List.append_nil] at mem
        exact edge c (Text.blank_iff.mp beforeBlank c (List.mem_of_mem_getLast? mem))
      · simpa using bare.last
    · intro c mem
      have same : d = c := by simpa [whole] using mem
      exact same ▸ edge d (Text.blank_iff.mp afterBlank d (by simp))
  rw [Text.trimMarks_quoted known first last]
  intro other
  exact differ (other.trimmed.symm.trans trimmed)

theorem trimMarks_eq_or_padded (bare : IsBare name)
    (trimmed : Text.trim parameter.name = parameter.name)
    (published : parameter.publicName = name) :
    Text.trimMarks nameQuotes parameter.name = name ∨ Padded name parameter.name := by
  cases quoted : Text.unquote? nameQuotes parameter.name with
  | none =>
    rw [publicName_of_unquoted trimmed quoted] at published
    rw [published]
    exact .inl (Text.trimMarks_eq_self bare.first bare.last)
  | some inner =>
    rw [publicName_of_unquote? trimmed quoted] at published
    obtain ⟨mark, known, whole⟩ := Text.exists_of_unquote? quoted
    by_cases same : inner = name
    · rw [whole, same]
      exact .inl (Text.trimMarks_quoted known bare.first bare.last)
    · exact .inr ⟨mark, known, inner, whole, published, same⟩

end Names

/-! ### Items and callables -/

namespace Docstring

namespace Item

-- Nothing in the docstring says that the parameter may be left out.
def demanded (item : Item) : Bool :=
  !(item.markedOptional ||
    TypeHint.isOptional ((item.hint.map TypeHint.withoutParentheses).getD []))

theorem required_parameter (item : Item) (defaults : List Text) :
    (item.parameter defaults).required = true ↔
      item.demanded = true ∧ Text.trimMarks nameQuotes item.name ∉ defaults := by
  simp only [Parameter.required, Parameter.bareHint, parameter, demanded, Bool.not_eq_true',
    Bool.or_eq_false_iff, List.contains_eq_mem, decide_eq_false_iff_not]
  tauto

theorem trim_of_splitHead? {head name hint : Text} (h : splitHead? head = some (name, hint)) :
    Text.trim name = name := by
  unfold splitHead? at h
  cases head with
  | nil => cases h
  | cons first rest =>
    simp only [Option.bind_eq_bind, Option.bind_eq_some_iff] at h
    obtain ⟨_, -, _, -, _, -, found⟩ := h
    cases found
    exact Text.trim_trim _

theorem trim_name_ofLines (head : Text) (below : List Text) :
    Text.trim (ofLines head below).name = (ofLines head below).name := by
  unfold ofLines
  dsimp only
  split
  · next split => exact trim_of_splitHead? split
  · exact Text.trim_trim _

end Item

theorem trim_name_of_mem_items {written : Text} {item : Item} (mem : item ∈ (read written).items) :
    Text.trim item.name = item.name := by
  obtain ⟨part, -, inside⟩ := List.mem_flatMap.mp mem
  split at inside
  · unfold itemsOf at inside
    split at inside
    · cases inside
    · obtain ⟨lines, -, rfl⟩ := List.mem_map.mp inside
      exact Item.trim_name_ofLines _ _
  · cases inside

end Docstring

namespace Callable

variable {sources : SourceView} {root : Path} {location : Text} {callable : Callable}

def Parsed (callable : Callable) : Prop :=
  ∀ docstring, callable.docstring = some docstring → ∃ written, docstring = Docstring.read written

theorem parsed_of_resolve (found : resolve sources root location = .ok callable) :
    callable.Parsed := by
  intro docstring documented
  unfold resolve at found
  split at found
  · cases found
  split at found
  · unfold ofSource at found
    split at found
    · cases found
      obtain ⟨written, -, read⟩ := Option.map_eq_some_iff.mp documented
      exact ⟨written, read.symm⟩
    · cases found
  · cases found

theorem mem_parameters {parameter : Parameter} : parameter ∈ callable.parameters ↔
    ∃ docstring, callable.docstring = some docstring ∧
      ∃ item ∈ docstring.items, item.parameter callable.defaults = parameter := by
  unfold parameters
  cases callable.docstring <;> simp

/-- A schema requires a parameter that has a default in the signature just if its name is given by
an item that nothing marks as optional, in quotes and with blanks between these and the name. -/
theorem mem_required_iff_padded (parsed : callable.Parsed)
    (signature : ∀ name ∈ callable.defaults, IsBare name) (publicName : Text)
    (short long : Option Text) {name : Text} (default : name ∈ callable.defaults) :
    name ∈ (FunctionSchema.ofDocumentation publicName
        ⟨short, long, callable.parameters⟩).required ↔
      ∃ docstring, callable.docstring = some docstring ∧
        ∃ item ∈ docstring.items, item.demanded = true ∧ Padded name item.name := by
  have bare := signature name default
  rw [FunctionSchema.mem_required]
  constructor
  · rintro ⟨parameter, mem, required, published⟩
    obtain ⟨docstring, documented, item, known, rfl⟩ := mem_parameters.mp mem
    obtain ⟨written, rfl⟩ := parsed docstring documented
    obtain ⟨demanded, missing⟩ := (item.required_parameter _).mp required
    refine ⟨_, documented, item, known, demanded, ?_⟩
    have trimmed := Docstring.trim_name_of_mem_items known
    rcases trimMarks_eq_or_padded bare trimmed published with same | padded
    · exact absurd (same ▸ default) missing
    · exact padded
  · rintro ⟨docstring, documented, item, known, demanded, padded⟩
    refine ⟨item.parameter callable.defaults,
      mem_parameters.mpr ⟨docstring, documented, item, known, rfl⟩, ?_, padded.publicName_eq⟩
    refine (item.required_parameter _).mpr ⟨demanded, fun looked => ?_⟩
    exact padded.not_bare bare (signature _ looked)

def paddedTree : FileTree where
  current := []
  entries := [(["m.py"],
    .file (.text "def f(x=1):\n '''F.\n\n Args:\n  ' x ' (int): Count.\n '''\n"))]

def paddedItem : Docstring.Item := ⟨"' x '", some "int", "Count.", false, none⟩

def paddedCallable : Callable := ⟨"m.f", ⟨"/m.py"⟩, some ⟨some "F.", none, [paddedItem]⟩, ["x"]⟩

theorem resolve_paddedTree :
    resolve paddedTree.sources ⟨"/"⟩ "m.f" = .ok paddedCallable := by decide +kernel

theorem mem_required_iff_padded_sample :
    resolve paddedTree.sources ⟨"/"⟩ "m.f" = .ok paddedCallable ∧
    ("x" : Text) ∈ paddedCallable.defaults ∧
    ("x" : Text) ∈ (FunctionSchema.ofDocumentation "f"
      ⟨none, none, paddedCallable.parameters⟩).required := by
  have signature : ∀ name ∈ paddedCallable.defaults, IsBare name := by
    intro name mem
    rw [List.mem_singleton.mp mem]
    refine ⟨by decide, fun c first => ?_, fun c last => ?_⟩
    · obtain rfl : 'x' = c := Option.some.inj first
      decide
    · obtain rfl : 'x' = c := Option.some.inj last
      decide
  have padded : Padded "x" paddedItem.name :=
    ⟨'\'', by decide, " x ", by decide, by decide, by decide⟩
  refine ⟨resolve_paddedTree, by decide, ?_⟩
  have parsed := parsed_of_resolve resolve_paddedTree
  exact (mem_required_iff_padded parsed signature "f" none none (by decide)).mpr
    ⟨_, rfl, paddedItem, List.mem_singleton_self _, rfl, padded⟩

-- So a parameter may have a default and be required all the same.
theorem not_default_optional :
    ¬∀ (sources : SourceView) (root : Path) (location : Text) (callable : Callable),
      resolve sources root location = .ok callable →
      ∀ (publicName : Text) (short long : Option Text),
        ∀ name ∈ (FunctionSchema.ofDocumentation publicName
          ⟨short, long, callable.parameters⟩).required, name ∉ callable.defaults := by
  intro always
  have required : ("x" : Text) ∈ (FunctionSchema.ofDocumentation "f"
      ⟨none, none, paddedCallable.parameters⟩).required :=
    FunctionSchema.mem_required.mpr ⟨paddedItem.parameter ["x"], by decide, by decide, by decide⟩
  exact always _ _ _ _ resolve_paddedTree "f" none none "x" required (by decide)

end Callable

end CallSchema
