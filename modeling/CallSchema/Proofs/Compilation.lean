import CallSchema.Proofs.Table
import CallSchema.Proofs.Text.Order
import CallSchema.Source.NameTable
import Mathlib.Data.Option.Basic

set_option autoImplicit false

namespace CallSchema

theorem NameTable.distinct_of_read? {source name : Text} {table : NameTable}
    (h : NameTable.read? source name = some table) : Table.Distinct table := by
  unfold read? ofModule? at h
  simp only [Option.bind_eq_bind, Option.bind_eq_some_iff] at h
  obtain ⟨-, -, assignment, -, value, -, read⟩ := h
  unfold ofExpression? at read
  split at read
  · obtain ⟨entries, -, rfl⟩ := Option.map_eq_some_iff.mp read
    exact Table.distinct_ofEntries entries
  · cases read

namespace Compilation

variable {lookup : Lookup} {table other : NameTable}

def Compiles (lookup : Lookup) (name location : Text) : Prop :=
  ∃ schema, function lookup name location = .ok schema

theorem name_of_function {name location : Text} {schema : FunctionSchema}
    (h : function lookup name location = .ok schema) : schema.name = name := by
  unfold function at h
  cases known : lookup location with
  | error failure =>
    rw [known] at h
    cases h
  | ok documentation =>
    rw [known] at h
    cases documentation with
    | none => cases h
    | some documentation =>
      cases h
      rfl

theorem toOption_eq_some {ε α : Type} {result : Except ε α} {a : α} :
    result.toOption = some a ↔ result = .ok a := by
  cases result with
  | error failure => simp [Except.toOption]
  | ok b => simp [Except.toOption]

theorem mem_package {schema : FunctionSchema} :
    schema ∈ package lookup table ↔
      ∃ entry ∈ table, function lookup entry.1 entry.2 = .ok schema := by
  simp only [package, List.mem_mergeSort, List.mem_filterMap, toOption_eq_some]

theorem pairwise_package (lookup : Lookup) (distinct : Table.Distinct table) :
    (package lookup table).Pairwise fun a b => a.name < b.name := by
  have transitive : ∀ a b c, inOrder a b = true → inOrder b c = true → inOrder a c = true :=
    fun _ _ _ => Text.inOrder_trans
  have total : ∀ a b, (inOrder a b || inOrder b a) = true :=
    fun a b => Text.inOrder_total a.name b.name
  have ordered : (package lookup table).Pairwise fun a b => inOrder a b = true :=
    List.pairwise_mergeSort transitive total _
  -- Each schema bears the name of its entry, and no two entries have the same name.
  have apart : (package lookup table).Pairwise fun a b => a.name ≠ b.name := by
    rw [package, (List.mergeSort_perm _ _).pairwise_iff fun differ => differ.symm,
      List.pairwise_filterMap]
    refine (List.pairwise_map.mp distinct).imp ?_
    intro first second differ a foundA b foundB
    rw [name_of_function (toOption_eq_some.mp foundA), name_of_function (toOption_eq_some.mp foundB)]
    exact differ
  exact (ordered.and apart).imp fun both => Text.lt_of_inOrder both.1 both.2

theorem package_eq (distinct : Table.Distinct table) (otherDistinct : Table.Distinct other)
    (same : ∀ schema, schema ∈ package lookup table ↔ schema ∈ package lookup other) :
    package lookup table = package lookup other := by
  have ascending := pairwise_package lookup distinct
  have otherAscending := pairwise_package lookup otherDistinct
  have once : ∀ {schemas : List FunctionSchema},
      (schemas.Pairwise fun a b => a.name < b.name) → schemas.Nodup := by
    intro schemas sorted
    refine sorted.imp ?_
    rintro a b less rfl
    exact List.lt_irrefl _ less
  refine List.Perm.eq_of_pairwise ?_ ascending otherAscending
    ((List.perm_ext_iff_of_nodup (once ascending) (once otherAscending)).mpr same)
  intro a b _ _ less more
  exact absurd less (List.lt_asymm more)

/-- The schemas are those of the entries that compile, in ascending order of their names, and tables
that agree in these entries have the same schemas. -/
theorem package_of_compiling (lookup : Lookup) (table : NameTable)
    (distinct : Table.Distinct table) :
    ((package lookup table).Pairwise fun a b => a.name < b.name) ∧
    (∀ schema, schema ∈ package lookup table ↔
      ∃ entry ∈ table, function lookup entry.1 entry.2 = .ok schema) ∧
    ∀ other : NameTable, Table.Distinct other →
      (∀ name location, Compiles lookup name location →
        ((name, location) ∈ table ↔ (name, location) ∈ other)) →
      package lookup other = package lookup table := by
  refine ⟨pairwise_package lookup distinct, fun schema => mem_package, ?_⟩
  intro other otherDistinct agree
  refine package_eq otherDistinct distinct fun schema => ?_
  rw [mem_package, mem_package]
  constructor
  · rintro ⟨entry, mem, compiled⟩
    exact ⟨entry, (agree entry.1 entry.2 ⟨schema, compiled⟩).mpr mem, compiled⟩
  · rintro ⟨entry, mem, compiled⟩
    exact ⟨entry, (agree entry.1 entry.2 ⟨schema, compiled⟩).mp mem, compiled⟩

def fewCallables : Lookup := fun location =>
  if location ∈ (["m.f", "m.g"] : List Text) then .ok (some ⟨some "Does it.", none, []⟩)
  else if location = "m.bare" then .ok none
  else .error (.unresolvable location)

def fewNames : NameTable := [("b", "m.f"), ("x", "m.none"), ("a", "m.g")]

def moreNames : NameTable := [("y", "m.bare"), ("a", "m.g"), ("z", "n.f"), ("b", "m.f")]

theorem package_of_compiling_reordered :
    package fewCallables moreNames = package fewCallables fewNames := by
  refine (package_of_compiling fewCallables fewNames (by decide)).2.2 moreNames (by decide) ?_
  rintro name location ⟨schema, compiled⟩
  have known : location ∈ (["m.f", "m.g"] : List Text) := by
    by_contra unknown
    by_cases bare : location = "m.bare"
    · simp only [function, fewCallables, if_neg unknown, if_pos bare] at compiled
      cases compiled
    · simp only [function, fewCallables, if_neg unknown, if_neg bare] at compiled
      cases compiled
  have there : ∀ entry ∈ fewNames,
      entry.2 ∈ (["m.f", "m.g"] : List Text) → entry ∈ moreNames := by decide
  have back : ∀ entry ∈ moreNames,
      entry.2 ∈ (["m.f", "m.g"] : List Text) → entry ∈ fewNames := by decide
  exact ⟨fun mem => there _ mem known, fun mem => back _ mem known⟩

end Compilation

end CallSchema
