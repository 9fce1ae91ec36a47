import CallSchema.Table
import Mathlib.Data.List.Induction
import Mathlib.Data.List.Nodup
import Mathlib.Tactic.Common

set_option autoImplicit false

namespace CallSchema.Table

variable {κ α : Type} [DecidableEq κ]

def Distinct (table : List (κ × α)) : Prop := (table.map Prod.fst).Nodup

instance (table : List (κ × α)) : Decidable (Distinct table) :=
  inferInstanceAs (Decidable (table.map Prod.fst).Nodup)

theorem mem_keys_put {key k : κ} {value : α} {table : List (κ × α)} :
    k ∈ (put key value table).map Prod.fst ↔ k = key ∨ k ∈ table.map Prod.fst := by
  induction table with
  | nil => simp [put]
  | cons entry rest ih =>
    by_cases same : entry.1 = key
    · simp [put, same]
    · simp only [put, if_neg same, List.map_cons, List.mem_cons, ih]
      tauto

theorem mem_put {key : κ} {value : α} {table : List (κ × α)} {entry : κ × α}
    (h : entry ∈ put key value table) : entry = (key, value) ∨ entry ∈ table := by
  induction table with
  | nil => exact .inl (by simpa [put] using h)
  | cons first rest ih =>
    by_cases same : first.1 = key
    · simp only [put, if_pos same] at h
      rcases List.mem_cons.mp h with rfl | later
      · exact .inl rfl
      · exact .inr (by simp [later])
    · simp only [put, if_neg same] at h
      rcases List.mem_cons.mp h with rfl | later
      · exact .inr (by simp)
      · rcases ih later with new | old
        · exact .inl new
        · exact .inr (by simp [old])

theorem put_of_not_mem {key : κ} {value : α} {table : List (κ × α)}
    (h : key ∉ table.map Prod.fst) : put key value table = table ++ [(key, value)] := by
  induction table with
  | nil => rfl
  | cons entry rest ih =>
    have other : entry.1 ≠ key := fun same => h (by simp [same])
    have later := ih fun mem => h (by simp only [List.map_cons, List.mem_cons, mem, or_true])
    rw [put, if_neg other, later, List.cons_append]

theorem get?_put (key k : κ) (value : α) (table : List (κ × α)) :
    get? k (put key value table) = if k = key then some value else get? k table := by
  induction table with
  | nil =>
    by_cases same : k = key
    · simp [put, get?, same]
    · simp [put, get?, same, Ne.symm same]
  | cons first rest ih =>
    by_cases replaced : first.1 = key
    · by_cases same : k = key
      · simp [put, get?, replaced, same]
      · simp [put, get?, replaced, same, Ne.symm same]
    · simp only [get?] at ih
      by_cases found : first.1 = k
      · have other : k ≠ key := by rwa [← found]
        simp [put, get?, found, other]
      · simp [put, get?, replaced, found, ih]

theorem put_put (key : κ) (first second : α) (table : List (κ × α)) :
    put key second (put key first table) = put key second table := by
  induction table with
  | nil => simp [put]
  | cons entry rest ih =>
    by_cases same : entry.1 = key
    · simp [put, same]
    · simp [put, same, ih]

theorem mem_of_get? {k : κ} {value : α} {table : List (κ × α)} (h : get? k table = some value) :
    (k, value) ∈ table := by
  obtain ⟨entry, found, rfl⟩ := Option.map_eq_some_iff.mp h
  have same : entry.1 = k := by simpa using List.find?_some found
  rw [← same]
  exact List.mem_of_find?_eq_some found

theorem Distinct.put {table : List (κ × α)} (h : Distinct table) (key : κ) (value : α) :
    Distinct (put key value table) := by
  induction table with
  | nil => simp [Distinct, Table.put]
  | cons first rest ih =>
    obtain ⟨new, later⟩ := List.nodup_cons.mp h
    by_cases same : first.1 = key
    · rw [Distinct, Table.put, if_pos same]
      exact List.nodup_cons.mpr ⟨by rwa [← same], later⟩
    · rw [Distinct, Table.put, if_neg same]
      refine List.nodup_cons.mpr ⟨?_, ih later⟩
      intro mem
      rcases mem_keys_put.mp mem with replaced | old
      · exact same replaced
      · exact new old

theorem distinct_ofEntries (entries : List (κ × α)) : Distinct (ofEntries entries) := by
  have more : ∀ (added table : List (κ × α)), Distinct table →
      Distinct (added.foldl (fun table entry => put entry.1 entry.2 table) table) := by
    intro added
    induction added with
    | nil => exact fun _ h => h
    | cons first rest ih => exact fun table h => ih _ (h.put first.1 first.2)
  exact more entries [] List.nodup_nil

theorem keys_put (key : κ) (value : α) (table : List (κ × α)) :
    (put key value table).map Prod.fst =
      if key ∈ table.map Prod.fst then table.map Prod.fst else table.map Prod.fst ++ [key] := by
  split
  · next known =>
    induction table with
    | nil => cases known
    | cons entry rest ih =>
      by_cases same : entry.1 = key
      · simp [put, same]
      · have later : key ∈ rest.map Prod.fst := by simpa [Ne.symm same] using known
        simp only [put, if_neg same, List.map_cons, ih later]
  · next new => rw [put_of_not_mem new, List.map_append, List.map_singleton]

theorem Distinct.ext {table other : List (κ × α)} (h : Distinct table)
    (keys : table.map Prod.fst = other.map Prod.fst) (values : ∀ key, get? key table = get? key other) :
    table = other := by
  induction table generalizing other with
  | nil => exact (List.map_eq_nil_iff.mp keys.symm).symm
  | cons first rest ih =>
    cases other with
    | nil => cases keys
    | cons otherFirst otherRest =>
      obtain ⟨sameKey, sameKeys⟩ := List.cons.inj keys
      obtain ⟨new, later⟩ := List.nodup_cons.mp h
      have sameValue : first.2 = otherFirst.2 := by simpa [get?, sameKey] using values first.1
      have otherNew : otherFirst.1 ∉ otherRest.map Prod.fst := by rwa [← sameKeys, ← sameKey]
      have sameRest : rest = otherRest := by
        refine ih later sameKeys fun key => ?_
        have value := values key
        by_cases here : first.1 = key
        · -- The first key does not come again.
          subst here
          have absent {more : List (κ × α)} (h : first.1 ∉ more.map Prod.fst) : get? first.1 more = none := by
            cases found : get? first.1 more with
            | none => rfl
            | some value => exact absurd (List.mem_map_of_mem (mem_of_get? found)) h
          rw [absent new, absent (sameKey ▸ otherNew)]
        · have otherHere : otherFirst.1 ≠ key := sameKey ▸ here
          simpa [get?, here, otherHere] using value
      rw [Prod.ext sameKey sameValue, sameRest]

-- The table of the entries: each key where it first comes, with the value that it has last.
structure Collects (table entries : List (κ × α)) : Prop where
  keys : table.map Prod.fst = (entries.map Prod.fst).eraseDups
  values : ∀ key, get? key table = ((entries.filter (·.1 = key)).getLast?).map (·.2)

theorem ofEntries_concat (entries : List (κ × α)) (entry : κ × α) :
    ofEntries (entries ++ [entry]) = put entry.1 entry.2 (ofEntries entries) := by
  simp [ofEntries]

theorem collects_ofEntries (entries : List (κ × α)) : Collects (ofEntries entries) entries := by
  induction entries using List.reverseRecOn with
  | nil => exact ⟨rfl, fun _ => rfl⟩
  | append_singleton entries entry ih =>
    rw [ofEntries_concat]
    constructor
    · rw [keys_put, ih.keys, List.map_append, List.eraseDups_append]
      by_cases known : entry.1 ∈ entries.map Prod.fst
      · rw [if_pos (List.mem_eraseDups.mpr known)]
        simp [List.removeAll, known]
      · rw [if_neg (List.mem_eraseDups.not.mpr known)]
        simp [List.removeAll, known, List.eraseDups_cons]
    · intro key
      rw [get?_put, ih.values]
      by_cases same : key = entry.1
      · simp [same]
      · simp [same, Ne.symm same]

theorem collects_iff {table entries : List (κ × α)} :
    Collects table entries ↔ table = ofEntries entries := by
  have built := collects_ofEntries entries
  constructor
  · intro h
    refine ((distinct_ofEntries entries).ext ?_ fun key => ?_).symm
    · rw [built.keys, h.keys]
    · rw [built.values, h.values]
  · rintro rfl
    exact built

end CallSchema.Table
