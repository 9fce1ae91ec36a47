import CallSchema.Callable.Location
import CallSchema.Proofs.FileTree.Place
import CallSchema.Proofs.FileTree.Spelling

set_option autoImplicit false

namespace CallSchema.DottedLocation

open CallSchema.Path (IsName)

variable {root file : Path} {location part : Text} {parts : List Text}

def Relative (location : Text) : Prop := ∀ part ∈ names location, part.head? ≠ some '/'

instance (location : Text) : Decidable (Relative location) :=
  inferInstanceAs (Decidable (∀ part ∈ names location, part.head? ≠ some '/'))

-- The file lies below the root directory, as far as names tell.
def Inside (root file : Path) : Prop :=
  file.isAbsolute = root.isAbsolute ∧
    ∃ rest, rest ≠ [] ∧ (∀ name ∈ rest, IsName name) ∧ file.names = root.names ++ rest

def Straight (file : Path) : Prop := file.isAbsolute = true ∧ ∀ name ∈ file.names, IsName name

instance (file : Path) : Decidable (Straight file) :=
  inferInstanceAs (Decidable (file.isAbsolute = true ∧ ∀ name ∈ file.names, IsName name))

def Leads (root : Path) (parts : List Text) (file : Path) : Prop :=
  Inside root file ∨ Straight file ∧ ∃ part ∈ parts, part.head? = some '/'

def Dotless (parts : List Text) : Prop := ∀ part ∈ parts, part ≠ [] ∧ '.' ∉ part

theorem dotless_names (location : Text) : Dotless (names location) := by
  intro part mem
  obtain ⟨piece, visible⟩ := List.mem_filter.mp mem
  exact ⟨by simpa using visible, Text.not_mem_of_mem_pieces piece⟩

section Names

variable (visible : part ≠ []) (dotless : '.' ∉ part)

include dotless

theorem isName_of_dotless : ∀ name ∈ Path.names ⟨part⟩, IsName name := by
  intro name mem
  obtain ⟨piece, proper⟩ := List.mem_filter.mp mem
  simp only [ne_eq, decide_eq_true_eq] at proper
  refine ⟨proper.1, Text.not_mem_of_mem_pieces piece, proper.2, ?_⟩
  rintro rfl
  exact dotless (Text.mem_of_mem_pieces piece (by simp))

include visible

theorem names_ne_nil_of_dotless (relative : part.head? ≠ some '/') :
    Path.names ⟨part⟩ ≠ [] := by
  cases part with
  | nil => exact absurd rfl visible
  | cons c rest =>
    have slash : c ≠ '/' := by simpa using relative
    have dot : c ≠ '.' := fun same => dotless (by simp [same])
    simp only [Path.names, Path.segments, Text.pieces, if_neg slash]
    cases Text.pieces '/' rest <;> simp [Text.addToFirst, dot]

theorem leads_join_of_dotless {base : Path}
    (before : base.isAbsolute = root.isAbsolute ∧
        (∃ rest, (∀ name ∈ rest, IsName name) ∧ base.names = root.names ++ rest) ∨
      Straight base ∧ ∃ part ∈ parts, part.head? = some '/') :
    Leads root (parts ++ [part]) (base.join part) := by
  by_cases relative : part.head? = some '/'
  · have anew : base.join part = ⟨part⟩ := if_pos relative
    refine .inr ⟨⟨?_, ?_⟩, part, by simp, relative⟩
    · simp [anew, Path.isAbsolute, relative]
    · rw [anew]
      exact isName_of_dotless dotless
  · have own := isName_of_dotless dotless
    have filled := names_ne_nil_of_dotless visible dotless relative
    have absolute : (base.join part).isAbsolute = base.isAbsolute :=
      Path.isAbsolute_join_relative relative
    have whole := Path.names_join_relative base relative
    rcases before with ⟨start, rest, named, joined⟩ | ⟨⟨start, named⟩, first, mem, slash⟩
    · refine .inl ⟨absolute.trans start, rest ++ Path.names ⟨part⟩, by simp [filled], ?_, ?_⟩
      · exact List.forall_mem_append.mpr ⟨named, own⟩
      · rw [whole, joined, List.append_assoc]
    · refine .inr ⟨⟨absolute.trans start, ?_⟩, first, by simp [mem], slash⟩
      rw [whole]
      exact List.forall_mem_append.mpr ⟨named, own⟩

end Names

theorem leads_modulePath (filled : parts ≠ []) (dotless : Dotless parts) :
    Leads root parts (modulePath root parts) := by
  induction parts using List.reverseRecOn with
  | nil => exact absurd rfl filled
  | append_singleton parts part ih =>
    obtain ⟨visible, free⟩ := dotless part (by simp)
    rw [modulePath, List.foldl_append]
    refine leads_join_of_dotless visible free ?_
    by_cases first : parts = []
    · exact .inl ⟨by simp [first], [], by simp, by simp [first]⟩
    · have before := ih first fun part mem => dotless part (by simp [mem])
      exact before.imp_left fun ⟨start, rest, _, inside⟩ => ⟨start, rest, inside⟩

variable {other : Path} {init : List Text} {name new : Text}

theorem Leads.join (named : IsName name) (leads : Leads root parts file) :
    Leads root parts (file.join name) := by
  have absolute : (file.join name).isAbsolute = file.isAbsolute :=
    Path.isAbsolute_join_name named
  rcases leads with ⟨start, rest, -, inside, whole⟩ | ⟨⟨start, inside⟩, slash⟩
  · refine .inl ⟨absolute.trans start, rest ++ [name], by simp, ?_, ?_⟩
    · simpa [or_imp, forall_and] using ⟨inside, named⟩
    · rw [Path.names_join file named, whole, List.append_assoc]
  · refine .inr ⟨⟨absolute.trans start, ?_⟩, slash⟩
    rw [Path.names_join file named]
    simpa [or_imp, forall_and] using ⟨inside, named⟩

theorem Leads.isName_last (leads : Leads root parts file) (whole : file.names = init ++ [name]) :
    IsName name := by
  rcases leads with ⟨-, rest, filled, inside, joined⟩ | ⟨⟨-, inside⟩, -⟩
  · obtain ⟨shorter, last, rfl⟩ := (List.eq_nil_or_concat' rest).resolve_left filled
    rw [whole, ← List.append_assoc] at joined
    obtain ⟨-, same⟩ := List.append_inj' joined rfl
    exact inside name (by simp_all)
  · exact inside name (by simp [whole])

theorem Leads.replace_last (leads : Leads root parts file) (whole : file.names = init ++ [name])
    (named : IsName new) (absolute : other.isAbsolute = file.isAbsolute)
    (replaced : other.names = init ++ [new]) : Leads root parts other := by
  rcases leads with ⟨start, rest, filled, inside, joined⟩ | ⟨⟨start, inside⟩, slash⟩
  · obtain ⟨shorter, last, rfl⟩ := (List.eq_nil_or_concat' rest).resolve_left filled
    rw [whole, ← List.append_assoc] at joined
    obtain ⟨same, -⟩ := List.append_inj' joined rfl
    refine .inl ⟨absolute.trans start, shorter ++ [new], by simp, ?_, ?_⟩
    · have above : ∀ name ∈ shorter, IsName name := fun name mem => inside name (by simp [mem])
      simpa [or_imp, forall_and] using ⟨above, named⟩
    · rw [replaced, same, List.append_assoc]
  · refine .inr ⟨⟨absolute.trans start, ?_⟩, slash⟩
    have above : ∀ name ∈ init, IsName name := fun name mem => inside name (by simp [whole, mem])
    rw [replaced]
    simpa [or_imp, forall_and] using ⟨above, named⟩

def EndsAsSource (file : Path) : Prop := ∀ last ∈ file.names.getLast?, last.getLast? = some 'y'

theorem endsAsSource_of_names (whole : file.names = init ++ [name])
    (ends : name.getLast? = some 'y') : EndsAsSource file := by
  intro last mem
  rw [whole, List.getLast?_concat, Option.mem_some_iff] at mem
  exact mem ▸ ends

theorem Leads.withExtension (leads : Leads root parts file) :
    Leads root parts (file.withExtension "py") ∧ EndsAsSource (file.withExtension "py") := by
  have plain : '/' ∉ "py".toList := by decide
  have visible : "py".toList ≠ [] := by decide
  cases found : file.fileName? with
  | some name =>
    obtain ⟨absolute, init, whole, replaced⟩ :=
      Path.withExtension_of_fileName? plain visible found
    have named := Path.isName_extended (Path.isName_of_fileName? found) plain visible
    exact ⟨leads.replace_last whole named absolute replaced,
      endsAsSource_of_names replaced (by simp)⟩
  | none =>
    rw [Path.withExtension_of_fileName?_none found]
    refine ⟨leads, fun last mem => ?_⟩
    -- Only a path without names has no file name here.
    obtain ⟨init, whole⟩ := List.getLast?_eq_some_iff.mp mem
    have some := Path.fileName?_eq_some_iff.mpr ⟨leads.isName_last whole, init, whole⟩
    simp [found] at some

theorem of_mem_candidates (mem : file ∈ candidates root location) :
    Leads root (names location) file ∧ EndsAsSource file := by
  obtain ⟨parts, known, inside⟩ := List.mem_flatMap.mp mem
  obtain ⟨n, index, rfl⟩ := List.mem_map.mp known
  have few := List.mem_range.mp (List.mem_reverse.mp index)
  have subset := (names location).take_subset (n + 1)
  have filled : (names location).take (n + 1) ≠ [] := by
    intro none
    have length := congrArg List.length none
    simp only [List.length_take, List.length_nil] at length
    omega
  have leads : Leads root (names location) (modulePath root ((names location).take (n + 1))) := by
    refine Or.imp_right ?_ (leads_modulePath filled fun part mem =>
      dotless_names location part (subset mem))
    exact fun ⟨straight, part, mem, slash⟩ => ⟨straight, part, subset mem, slash⟩
  rcases List.mem_pair.mp inside with rfl | rfl
  · exact leads.withExtension
  · have init : IsName "__init__.py".toList := by decide
    exact ⟨leads.join init, endsAsSource_of_names (Path.names_join _ init) (by decide)⟩

theorem inside_of_relative (relative : Relative location) (mem : file ∈ candidates root location) :
    Inside root file := by
  refine (of_mem_candidates mem).1.resolve_right ?_
  rintro ⟨-, part, known, slash⟩
  exact relative part known slash

theorem Inside.straight (inside : Inside root file) (straight : Straight root) : Straight file := by
  obtain ⟨start, rest, -, named, whole⟩ := inside
  refine ⟨start.trans straight.1, ?_⟩
  rw [whole]
  exact List.forall_mem_append.mpr ⟨straight.2, named⟩

theorem straight_of_mem_candidates (straight : Straight root)
    (mem : file ∈ candidates root location) : Straight file :=
  (of_mem_candidates mem).1.elim (·.straight straight) (·.1)

end CallSchema.DottedLocation
