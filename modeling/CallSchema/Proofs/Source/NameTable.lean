import CallSchema.Proofs.Source.Literal
import CallSchema.Proofs.Table
import CallSchema.Source.NameTable

set_option autoImplicit false

namespace CallSchema.Source

namespace Expression

inductive IsText : Expression → Text → Prop
  | literal {written text : Text} (denotes : Literal.Denotes written text) :
    IsText (.literal written) text
  | adjacent {written texts : List Text} (denote : List.Forall₂ Literal.Denotes written texts) :
    IsText (.adjacent written) texts.flatten
  | parenthesized {joined : Bool} {inner : Expression} {text : Text} (within : IsText inner text) :
    IsText (.parenthesized joined inner) text

def unjoined : Expression → Bool
  | .parenthesized joined inner => !joined && unjoined inner
  | _ => true

end Expression

def Item.IsEntry (item : Item) (entry : Text × Text) : Prop :=
  ∃ key value, item = .pair key value ∧ key.IsText entry.1 ∧ value.IsText entry.2

def Item.unjoined : Item → Bool
  | .pair key value => key.unjoined && value.unjoined
  | .spread => true

namespace Expression

-- The expression is a dictionary display with nothing but pairs of texts in it.
inductive IsTable : Expression → List (Text × Text) → Prop
  | dictionary {joined : Bool} {items : List Item} {entries : List (Text × Text)}
    (pairs : List.Forall₂ Item.IsEntry items entries) : IsTable (.dictionary joined items) entries
  | parenthesized {joined : Bool} {inner : Expression} {entries : List (Text × Text)}
    (within : IsTable inner entries) : IsTable (.parenthesized joined inner) entries

-- The expression is a dictionary display without parentheses around it, and in it no backslash
-- joins lines.
def isBare : Expression → Bool
  | .dictionary joined items => !joined && items.all Item.unjoined
  | _ => false

end Expression

theorem mapM_eq_some_iff {α β : Type} {f : α → Option β} {inputs : List α} {outputs : List β} :
    inputs.mapM f = some outputs ↔ List.Forall₂ (fun a b => f a = some b) inputs outputs := by
  induction inputs generalizing outputs with
  | nil => cases outputs <;> simp
  | cons input rest ih =>
    rw [List.mapM_cons]
    cases first : f input with
    | none => cases outputs <;> simp [first]
    | some output =>
      cases outputs with
      | nil => cases rest.mapM f <;> simp
      | cons other others =>
        rw [List.forall₂_cons, ← ih, first]
        cases rest.mapM f <;> simp

namespace Expression

theorem text?_eq_some_iff {expression : Expression} {text : Text} :
    expression.text? = some text ↔ expression.IsText text ∧ expression.unjoined = true := by
  fun_induction Expression.text? expression with
  | case1 written =>
    rw [Literal.value?_eq_some_iff]
    constructor
    · exact fun denotes => ⟨.literal denotes, rfl⟩
    · rintro ⟨isText, -⟩
      cases isText with
      | literal denotes => exact denotes
  | case2 written =>
    simp only [Option.map_eq_some_iff, mapM_eq_some_iff, Literal.value?_eq_some_iff]
    constructor
    · rintro ⟨texts, denote, rfl⟩
      exact ⟨.adjacent denote, rfl⟩
    · rintro ⟨isText, -⟩
      cases isText with
      | adjacent denote => exact ⟨_, denote, rfl⟩
  | case3 inner ih =>
    rw [ih]
    constructor
    · exact fun within => ⟨.parenthesized within.1, within.2⟩
    · rintro ⟨isText, unjoined⟩
      cases isText with
      | parenthesized within => exact ⟨within, unjoined⟩
  | case4 expression literal adjacent parenthesized =>
    refine iff_of_false (by simp) ?_
    rintro ⟨isText, unjoined⟩
    cases isText with
    | literal denotes => exact literal _ rfl
    | adjacent denote => exact adjacent _ rfl
    | @parenthesized joined inner _ within =>
      cases joined with
      | false => exact parenthesized _ rfl
      | true => cases unjoined

end Expression

theorem Item.texts?_eq_some_iff {item : Item} {entry : Text × Text} :
    item.texts? = some entry ↔ item.IsEntry entry ∧ item.unjoined = true := by
  cases item with
  | spread => simp [Item.texts?, Item.IsEntry]
  | pair key value =>
    have texts : (Item.pair key value).texts? = some entry ↔
        key.text? = some entry.1 ∧ value.text? = some entry.2 := by
      obtain ⟨first, second⟩ := entry
      simp only [Item.texts?]
      cases key.text? <;> cases value.text? <;> simp
    rw [texts, Expression.text?_eq_some_iff, Expression.text?_eq_some_iff, Item.unjoined, Bool.and_eq_true]
    constructor
    · rintro ⟨⟨isKey, keyUnjoined⟩, isValue, valueUnjoined⟩
      exact ⟨⟨key, value, rfl, isKey, isValue⟩, keyUnjoined, valueUnjoined⟩
    · rintro ⟨⟨_, _, same, isKey, isValue⟩, keyUnjoined, valueUnjoined⟩
      cases same
      exact ⟨⟨isKey, keyUnjoined⟩, isValue, valueUnjoined⟩

theorem mapM_texts?_eq_some_iff {items : List Item} {entries : List (Text × Text)} :
    items.mapM Item.texts? = some entries ↔
      List.Forall₂ Item.IsEntry items entries ∧ items.all Item.unjoined = true := by
  rw [mapM_eq_some_iff]
  induction items generalizing entries with
  | nil => cases entries <;> simp
  | cons item rest ih =>
    cases entries with
    | nil => simp
    | cons entry others =>
      rw [List.forall₂_cons, List.forall₂_cons, ih, Item.texts?_eq_some_iff, List.all_cons,
        Bool.and_eq_true]
      tauto

theorem Assignment.value?_eq_some_iff {assignment : Assignment} {value : Expression} :
    assignment.value? = some value ↔ ∃ target, assignment = .last target (some value) := by
  cases assignment with
  | last target given => simp [Assignment.value?]
  | chained target rest => simp [Assignment.value?]

end CallSchema.Source

namespace CallSchema.NameTable

open Source

theorem ofExpression?_eq_some_iff {value : Expression} {table : NameTable} :
    ofExpression? value = some table ↔
      value.isBare = true ∧ ∃ entries, value.IsTable entries ∧ Table.Collects table entries := by
  unfold ofExpression?
  split
  · next items =>
    simp only [Option.map_eq_some_iff, mapM_texts?_eq_some_iff, Expression.isBare]
    constructor
    · rintro ⟨entries, ⟨pairs, unjoined⟩, rfl⟩
      exact ⟨unjoined, entries, .dictionary pairs, Table.collects_ofEntries entries⟩
    · rintro ⟨unjoined, entries, isTable, collects⟩
      cases isTable with
      | dictionary pairs => exact ⟨entries, ⟨pairs, unjoined⟩, (Table.collects_iff.mp collects).symm⟩
  · next other =>
    refine iff_of_false (by simp) ?_
    rintro ⟨bare, entries, isTable, -⟩
    cases isTable with
    | parenthesized within => cases bare
    | @dictionary joined items _ pairs =>
      cases joined with
      | false => exact other _ rfl
      | true => cases bare

theorem ofModule?_of_wellFormed {module : Module} (sound : module.wellFormed = true) (name : Text) :
    ofModule? module name =
      (module.assignmentTo? name).bind fun assignment => assignment.value?.bind ofExpression? := by
  simp only [ofModule?, sound, guard, if_true, Option.bind_eq_bind, Option.pure_def, Option.bind_some]

theorem wellFormed_of_ofModule? {module : Module} {name : Text} {table : NameTable}
    (h : ofModule? module name = some table) : module.wellFormed = true := by
  cases sound : module.wellFormed with
  | true => rfl
  | false => simp [ofModule?, sound, guard] at h

/-- A source has a table exactly if it is well formed and what is assigned to the variable first is
a bare dictionary of texts, and then the table has the keys in the order in which they first come,
each with its last value. -/
theorem read?_eq_some_iff (source name : Text) (table : NameTable) :
    read? source name = some table ↔
      (Module.read source).wellFormed = true ∧
        ∃ target value entries,
          (Module.read source).assignmentTo? name = some (.last target (some value)) ∧
            value.isBare = true ∧ value.IsTable entries ∧ Table.Collects table entries := by
  unfold read?
  generalize Module.read source = module
  constructor
  · intro read
    have sound := wellFormed_of_ofModule? read
    rw [ofModule?_of_wellFormed sound] at read
    obtain ⟨assignment, first, read⟩ := Option.bind_eq_some_iff.mp read
    obtain ⟨value, given, read⟩ := Option.bind_eq_some_iff.mp read
    obtain ⟨target, rfl⟩ := Assignment.value?_eq_some_iff.mp given
    obtain ⟨bare, entries, isTable, collects⟩ := ofExpression?_eq_some_iff.mp read
    exact ⟨sound, target, value, entries, first, bare, isTable, collects⟩
  · rintro ⟨sound, target, value, entries, first, bare, isTable, collects⟩
    rw [ofModule?_of_wellFormed sound, first]
    exact ofExpression?_eq_some_iff.mpr ⟨bare, entries, isTable, collects⟩

def parenthesizedTable : Text := "m = (\x7b'a': 'x.a'\x7d)"

def parenthesizedPair? : Assignment → Option (Text × Text)
  | .last _ (some (.parenthesized _ (.dictionary _ [.pair (.literal key) (.literal value)]))) =>
    some (key, value)
  | _ => none

theorem exists_of_parenthesizedPair? {assignment : Assignment} {key value : Text}
    (h : parenthesizedPair? assignment = some (key, value)) :
    ∃ target joined within, assignment = .last target (some (.parenthesized joined
      (.dictionary within [.pair (.literal key) (.literal value)]))) := by
  unfold parenthesizedPair? at h
  split at h
  · cases h
    exact ⟨_, _, _, rfl⟩
  · cases h

theorem read_parenthesizedTable :
    (Module.read parenthesizedTable).wellFormed = true ∧
      read? parenthesizedTable "m" = none ∧
      ((Module.read parenthesizedTable).assignmentTo? "m").bind parenthesizedPair? =
        some ("'a'".toList, "'x.a'".toList) := by
  decide +kernel

-- So a dictionary in parentheses is no table, though nothing in it is computed.
theorem not_read?_iff_isTable :
    ¬ ∀ (source name : Text) (target : Option Text) (value : Expression),
      (Module.read source).wellFormed = true →
      (Module.read source).assignmentTo? name = some (.last target (some value)) →
      ((∃ table, read? source name = some table) ↔ ∃ entries, value.IsTable entries) := by
  intro claimed
  obtain ⟨sound, none, pair⟩ := read_parenthesizedTable
  obtain ⟨assignment, first, found⟩ := Option.bind_eq_some_iff.mp pair
  obtain ⟨target, joined, within, rfl⟩ := exists_of_parenthesizedPair? found
  have key : Literal.value? "'a'" = some "a".toList := by decide +kernel
  have value : Literal.value? "'x.a'" = some "x.a".toList := by decide +kernel
  have isTable : Expression.IsTable (.parenthesized joined (.dictionary within
      [.pair (.literal "'a'") (.literal "'x.a'")])) [("a", "x.a")] :=
    .parenthesized (.dictionary (.cons ⟨_, _, rfl, .literal (Literal.value?_eq_some_iff.mp key),
      .literal (Literal.value?_eq_some_iff.mp value)⟩ .nil))
  obtain ⟨table, read⟩ := (claimed _ _ _ _ sound first).mpr ⟨_, isTable⟩
  rw [none] at read
  cases read

end CallSchema.NameTable
