import CallSchema.Outline.Definition
import CallSchema.Proofs.Text.Letter
import CallSchema.Proofs.Text.Strip
import CallSchema.Proofs.TypeHint.Parts

set_option autoImplicit false

namespace CallSchema.Outline

def afterWord? (t : Text) : Option Text :=
  ["optional", "required"].findSome? (Text.stripStartIgnoringCase? ·.toList (Text.trimStart t))

theorem afterMarker?_eq (t : Text) :
    afterMarker? t = (afterWord? ((Text.stripStart? [','] t).getD t)).map Text.trimStart := rfl

theorem afterMarker?_nil : afterMarker? [] = none := by decide

theorem withoutMarkers_nil : withoutMarkers [] = [] := by
  rw [withoutMarkers]
  rfl

theorem withoutMarkers_of_some {t rest : Text} (h : afterMarker? t = some rest) :
    withoutMarkers t = withoutMarkers rest := by
  conv => lhs; rw [withoutMarkers]
  split
  · next found => rw [Option.some.inj (h.symm.trans found)]
  · next none => exact absurd (h.symm.trans none) (by simp)

theorem withoutMarkers_cons {c : Char} {t : Text} (h : afterMarker? (c :: t) = none) :
    withoutMarkers (c :: t) = c :: withoutMarkers t := by
  rw [withoutMarkers]
  split
  · next found => exact absurd (h.symm.trans found) (by simp)
  · rfl

def HoldsMarker (t : Text) : Prop :=
  ∃ word ∈ ["optional".toList, "required".toList], word <:+: t.map Char.toLower

instance (t : Text) : Decidable (HoldsMarker t) := inferInstanceAs (Decidable (∃ _ ∈ _, _))

theorem exists_word_of_afterWord? {t rest : Text} (h : afterWord? t = some rest) :
    ∃ gap word, t = gap ++ (word ++ rest) ∧ Text.blank gap = true ∧
      word.map Char.toLower ∈ ["optional".toList, "required".toList] := by
  obtain ⟨start, known, found⟩ := List.exists_of_findSome?_eq_some h
  obtain ⟨word, whole, lower⟩ := Text.append_of_stripStartIgnoringCase? found
  obtain ⟨gap, blank, gapped⟩ := Text.exists_trimStart t
  refine ⟨gap, word, by rw [gapped, whole], blank, ?_⟩
  rw [lower]
  exact (by decide : ∀ start ∈ ["optional", "required"],
    start.toList.map Char.toLower ∈ ["optional".toList, "required".toList]) start known

theorem exists_marker_of_afterMarker? {t rest : Text} (h : afterMarker? t = some rest) :
    ∃ before word after, t = before ++ (word ++ (after ++ rest)) ∧
      (∀ c ∈ before, c = ',' ∨ Text.isBlank c = true) ∧ Text.blank after = true ∧
      word.map Char.toLower ∈ ["optional".toList, "required".toList] := by
  rw [afterMarker?_eq] at h
  obtain ⟨tail, found, rfl⟩ := Option.map_eq_some_iff.mp h
  obtain ⟨gap, word, whole, blank, known⟩ := exists_word_of_afterWord? found
  obtain ⟨after, afterBlank, afterWhole⟩ := Text.exists_trimStart tail
  cases comma : Text.stripStart? [','] t with
  | none =>
    rw [comma, Option.getD_none] at whole
    refine ⟨gap, word, after, by rw [whole, ← afterWhole], ?_, afterBlank, known⟩
    exact fun c mem => .inr (Text.blank_iff.mp blank c mem)
  | some inner =>
    rw [comma, Option.getD_some] at whole
    refine ⟨',' :: gap, word, after, ?_, ?_, afterBlank, known⟩
    · rw [Text.append_of_stripStart? comma, whole, ← afterWhole]
      rfl
    · intro c mem
      rcases List.mem_cons.mp mem with comma | mem
      · exact .inl comma
      · exact .inr (Text.blank_iff.mp blank c mem)

theorem isAlpha_of_word {word : Text}
    (h : word.map Char.toLower ∈ ["optional".toList, "required".toList]) :
    ∀ c ∈ word, c.toLower.isAlpha = true := by
  intro c mem
  have inside := List.mem_map_of_mem (f := Char.toLower) mem
  have letters : ∀ known ∈ ["optional".toList, "required".toList], known.all Char.isAlpha = true := by
    decide
  exact List.all_eq_true.mp (letters _ h) _ inside

theorem toLower_of_not_isAlpha {c : Char} (h : c.isAlpha = false) : c.toLower = c := by
  have small : c.isUpper = false := (Bool.or_eq_false_iff.mp h).1
  exact dif_neg (of_decide_eq_false small)

theorem removed_of_afterMarker? {t rest : Text} (h : afterMarker? t = some rest) :
    ∃ marker, t = marker ++ rest ∧
      ∀ c ∈ marker, c = ',' ∨ Text.isBlank c = true ∨ c.isAlpha = true := by
  obtain ⟨before, word, after, rfl, opening, blank, known⟩ := exists_marker_of_afterMarker? h
  refine ⟨before ++ (word ++ after), by simp, ?_⟩
  intro c mem
  rcases List.mem_append.mp mem with early | mem
  · rcases opening c early with comma | gap
    · exact .inl comma
    · exact .inr (.inl gap)
  rcases List.mem_append.mp mem with inside | late
  · refine .inr (.inr ?_)
    by_contra other
    rw [Bool.not_eq_true] at other
    have letter := isAlpha_of_word known c inside
    rw [toLower_of_not_isAlpha other, other] at letter
    exact absurd letter (by decide)
  · exact .inr (.inl (Text.blank_iff.mp blank c late))

theorem holdsMarker_of_afterMarker? {s t rest : Text} (suffix : t <:+ s)
    (h : afterMarker? t = some rest) : HoldsMarker s := by
  obtain ⟨before, word, after, rfl, -, -, known⟩ := exists_marker_of_afterMarker? h
  obtain ⟨start, rfl⟩ := suffix
  refine ⟨_, known, (start ++ before).map Char.toLower, (after ++ rest).map Char.toLower, ?_⟩
  simp

theorem afterWord?_of_not_holdsMarker {t : Text} (h : ¬ HoldsMarker t) : afterWord? t = none := by
  rw [Option.eq_none_iff_forall_ne_some]
  intro rest found
  obtain ⟨gap, word, rfl, -, known⟩ := exists_word_of_afterWord? found
  exact h ⟨_, known, gap.map Char.toLower, rest.map Char.toLower, by simp⟩

theorem withoutMarkers_eq_self {t : Text} (h : ¬ HoldsMarker t) : withoutMarkers t = t := by
  have suffixes : ∀ s, s <:+ t → withoutMarkers s = s := by
    intro s suffix
    induction s with
    | nil => exact withoutMarkers_nil
    | cons c s ih =>
      cases found : afterMarker? (c :: s) with
      | some rest => exact absurd (holdsMarker_of_afterMarker? suffix found) h
      | none => rw [withoutMarkers_cons found, ih ((List.suffix_cons c s).trans suffix)]
  exact suffixes t (List.suffix_refl t)

section Border

def Apart (t : Text) : Prop := ∀ c ∈ t.head?, c.isAlpha = false

def borders : List Char := ['[', ']', ',', '\'', '"']

theorem isAlpha_of_mem_borders {c : Char} (h : c ∈ borders) : c.isAlpha = false := by
  have marks : borders.all (!·.isAlpha) = true := by decide
  simpa using List.all_eq_true.mp marks c h

theorem isBlank_of_mem_borders {c : Char} (h : c ∈ borders) : Text.isBlank c = false := by
  have visible : borders.all (!Text.isBlank ·) = true := by decide
  simpa using List.all_eq_true.mp visible c h

def Border (t : Text) : Prop := ∀ c ∈ t.head?, c ∈ borders

theorem border_cons {c : Char} (h : c ∈ borders) (t : Text) : Border (c :: t) := by
  intro d first
  obtain rfl : c = d := by simpa using first
  exact h

theorem Border.apart {t : Text} (h : Border t) : Apart t :=
  fun c first => isAlpha_of_mem_borders (h c first)

theorem Border.trimStart_eq {t : Text} (h : Border t) : Text.trimStart t = t := by
  cases t with
  | nil => rfl
  | cons c t => exact Text.trimStart_cons_of_not (isBlank_of_mem_borders (h c rfl)) t

theorem apart_of_blank {t : Text} (h : Text.blank t = true) : Apart t := by
  intro c first
  have blank := Text.blank_iff.mp h c (List.mem_of_head? first)
  have code := Text.toNat_mem_blankCodes blank
  have letters : ∀ n ∈ Text.blankCodes, (Char.ofNat n).isAlpha = false := by decide
  have seen := letters c.toNat code
  rwa [Char.ofNat_toNat] at seen

theorem stripStartIgnoringCase?_apart (word : Text) (letters : ∀ c ∈ word, c.toLower.isAlpha = true)
    (s : Text) {rest : Text} (apart : Apart rest) :
    Text.stripStartIgnoringCase? word (s ++ rest) =
      (Text.stripStartIgnoringCase? word s).map (· ++ rest) := by
  induction word generalizing s with
  | nil => rfl
  | cons w word ih =>
    have first := letters w (by simp)
    cases s with
    | nil =>
      cases rest with
      | nil => rfl
      | cons c rest =>
        have other := apart c rfl
        have different : w.toLower ≠ c.toLower := by
          rw [toLower_of_not_isAlpha other]
          intro same
          rw [same, other] at first
          exact absurd first (by decide)
        simp [Text.stripStartIgnoringCase?, different]
    | cons c s =>
      rw [List.cons_append, Text.stripStartIgnoringCase?, Text.stripStartIgnoringCase?]
      split
      · exact ih (fun d mem => letters d (by simp [mem])) s
      · rfl

theorem afterWord?_append {s rest : Text} (apart : Apart rest)
    (start : Text.trimStart (s ++ rest) = Text.trimStart s ++ rest) :
    afterWord? (s ++ rest) = (afterWord? s).map (· ++ rest) := by
  have optional := stripStartIgnoringCase?_apart "optional" (isAlpha_of_word (by decide)) (Text.trimStart s) apart
  have required := stripStartIgnoringCase?_apart "required" (isAlpha_of_word (by decide)) (Text.trimStart s) apart
  unfold afterWord?
  rw [start]
  simp only [List.findSome?_cons, List.findSome?_nil, optional, required]
  cases Text.stripStartIgnoringCase? "optional".toList (Text.trimStart s) with
  | some => rfl
  | none => cases Text.stripStartIgnoringCase? "required".toList (Text.trimStart s) <;> rfl

theorem afterWord?_of_blank {t : Text} (h : Text.blank t = true) : afterWord? t = none := by
  rw [afterWord?, Text.trimStart_eq_nil_iff.mpr h]
  rfl

theorem afterWord?_blank_append {s : Text} (h : Text.blank s = true) (t : Text) :
    afterWord? (s ++ t) = afterWord? t := by
  rw [afterWord?, Text.trimStart_append_of_blank h, ← afterWord?]

theorem trimStart_append_of_visible {s : Text} (h : Text.blank s = false) (t : Text) :
    Text.trimStart (s ++ t) = Text.trimStart s ++ t := by
  have some : Text.trimStart s ≠ [] := by
    rw [Ne, Text.trimStart_eq_nil_iff, h]
    decide
  have kept : (s.dropWhile Text.isBlank).isEmpty = false := by
    simpa [Text.trimStart] using some
  rw [Text.trimStart, List.dropWhile_append, kept]
  rfl

theorem afterWord?_append_border (s : Text) {rest : Text} (border : Border rest) :
    afterWord? (s ++ rest) = (afterWord? s).map (· ++ rest) := by
  cases blank : Text.blank s with
  | false => exact afterWord?_append border.apart (trimStart_append_of_visible blank rest)
  | true =>
    refine afterWord?_append border.apart ?_
    rw [Text.trimStart_append_of_blank blank, Text.trimStart_eq_nil_iff.mpr blank,
      border.trimStart_eq, List.nil_append]

theorem afterWord?_append_blank (s : Text) {e : Text} (h : Text.blank e = true) :
    afterWord? (s ++ e) = (afterWord? s).map (· ++ e) := by
  cases blank : Text.blank s with
  | false => exact afterWord?_append (apart_of_blank h) (trimStart_append_of_visible blank e)
  | true =>
    rw [afterWord?_blank_append blank, afterWord?_of_blank h, afterWord?_of_blank blank,
      Option.map_none]

theorem withoutComma_append {s : Text} (some : s ≠ []) (rest : Text) :
    (Text.stripStart? [','] (s ++ rest)).getD (s ++ rest) =
      (Text.stripStart? [','] s).getD s ++ rest := by
  obtain ⟨c, s, rfl⟩ := List.exists_cons_of_ne_nil some
  by_cases comma : ',' = c
  · subst comma
    rfl
  · simp [Text.stripStart?, comma]

theorem withoutMarkers_append (s : Text) {rest : Text} (border : Border rest) :
    withoutMarkers (s ++ rest) = withoutMarkers s ++ withoutMarkers rest := by
  have marker (c : Char) (s : Text) :
      afterMarker? ((c :: s) ++ rest) = (afterMarker? (c :: s)).map (· ++ rest) := by
    rw [afterMarker?_eq, withoutComma_append (by simp), afterWord?_append_border _ border,
      afterMarker?_eq, Option.map_map, Option.map_map]
    congr 1
    funext tail
    cases blank : Text.blank tail with
    | false => exact trimStart_append_of_visible blank rest
    | true =>
      simp [Text.trimStart_append_of_blank blank, Text.trimStart_eq_nil_iff.mpr blank,
        border.trimStart_eq]
  induction s using withoutMarkers.induct with
  | case1 s tail found ih =>
    obtain ⟨c, s, rfl⟩ : ∃ c rest, s = c :: rest := by
      cases s with
      | nil =>
        rw [afterMarker?_nil] at found
        cases found
      | cons c s => exact ⟨c, s, rfl⟩
    have longer := marker c s
    rw [found, Option.map_some] at longer
    rw [withoutMarkers_of_some longer, withoutMarkers_of_some found, ih]
  | case2 => rw [withoutMarkers_nil, List.nil_append, List.nil_append]
  | case3 c s none ih =>
    have longer := marker c s
    rw [none, Option.map_none] at longer
    rw [List.cons_append] at longer ⊢
    rw [withoutMarkers_cons longer, withoutMarkers_cons none, ih, List.cons_append]

theorem withoutMarkers_border {c : Char} (h : c ∈ borders) (comma : ',' ≠ c) (t : Text) :
    withoutMarkers (c :: t) = c :: withoutMarkers t := by
  have border : Border (c :: t) := border_cons h t
  apply withoutMarkers_cons
  rw [afterMarker?_eq, Text.stripStart?_cons_of_ne comma, Option.getD_none]
  have apart := afterWord?_append_border [] border
  rw [List.nil_append] at apart
  rw [apart]
  rfl

theorem withoutMarkers_comma {t : Text} (h : afterWord? t = none) :
    withoutMarkers (',' :: t) = ',' :: withoutMarkers t := by
  apply withoutMarkers_cons
  rw [afterMarker?_eq, Text.stripStart?_cons_self]
  simp [Text.stripStart?, h]

end Border

theorem exists_withoutMarkers_blank_append {s : Text} (h : Text.blank s = true) (t : Text) :
    ∃ gap, Text.blank gap = true ∧ withoutMarkers (s ++ t) = gap ++ withoutMarkers t := by
  induction s with
  | nil => exact ⟨[], rfl, rfl⟩
  | cons c s ih =>
    simp only [Text.blank, List.all_cons, Bool.and_eq_true] at h
    have comma : ',' ≠ c := by
      rintro rfl
      exact absurd h.1 (by decide)
    cases found : afterMarker? (c :: (s ++ t)) with
    | none =>
      obtain ⟨gap, blank, rest⟩ := ih h.2
      refine ⟨c :: gap, by simpa [Text.blank, h.1] using blank, ?_⟩
      rw [List.cons_append, withoutMarkers_cons found, rest, List.cons_append]
    | some rest =>
      -- The word that follows the blanks is at the beginning of `t`, with no comma before it.
      have whole : Text.blank (c :: s) = true := by simpa [Text.blank, h.1] using h.2
      have word := found
      rw [afterMarker?_eq, Text.stripStart?_cons_of_ne comma, Option.getD_none, ← List.cons_append,
        afterWord?_blank_append whole] at word
      have plain : Text.stripStart? [','] t = none := by
        rw [Text.stripStart?_eq_none_iff]
        rintro tail rfl
        have apart := afterWord?_append_border [] (border_cons (by decide) tail : Border (',' :: tail))
        rw [List.nil_append] at apart
        simp only [List.cons_append, List.nil_append, apart] at word
        cases word
      have same : afterMarker? t = some rest := by rw [afterMarker?_eq, plain, Option.getD_none, word]
      refine ⟨[], rfl, ?_⟩
      rw [List.cons_append, withoutMarkers_of_some found, withoutMarkers_of_some same, List.nil_append]

theorem exists_withoutMarkers_append_blank (t : Text) {e : Text} (h : Text.blank e = true) :
    ∃ gap, Text.blank gap = true ∧ withoutMarkers (t ++ e) = withoutMarkers t ++ gap := by
  induction t using withoutMarkers.induct with
  | case1 t rest found ih =>
    have some : t ≠ [] := by
      rintro rfl
      rw [afterMarker?_nil] at found
      cases found
    have word := found
    rw [afterMarker?_eq] at word
    obtain ⟨tail, opened, rfl⟩ := Option.map_eq_some_iff.mp word
    have longer : afterMarker? (t ++ e) = Option.some (Text.trimStart (tail ++ e)) := by
      rw [afterMarker?_eq, withoutComma_append some, afterWord?_append_blank _ h, opened]
      rfl
    rw [withoutMarkers_of_some longer, withoutMarkers_of_some found]
    cases blank : Text.blank tail with
    | false =>
      rw [trimStart_append_of_visible blank]
      exact ih
    | true =>
      have all : Text.blank (tail ++ e) = true := by rw [Text.blank_append, blank, h]; rfl
      rw [Text.trimStart_eq_nil_iff.mpr blank, Text.trimStart_eq_nil_iff.mpr all]
      exact ⟨[], rfl, by rw [List.append_nil]⟩
  | case2 =>
    obtain ⟨gap, blank, whole⟩ := exists_withoutMarkers_blank_append h []
    rw [List.append_nil, withoutMarkers_nil, List.append_nil] at whole
    exact ⟨gap, blank, by rw [List.nil_append, whole, withoutMarkers_nil, List.nil_append]⟩
  | case3 c t none ih =>
    obtain ⟨gap, blank, rest⟩ := ih
    have longer : afterMarker? ((c :: t) ++ e) = Option.none := by
      rw [afterMarker?_eq, Option.map_eq_none_iff] at none ⊢
      rw [withoutComma_append (by simp), afterWord?_append_blank _ h, none, Option.map_none]
    refine ⟨gap, blank, ?_⟩
    rw [List.cons_append] at longer ⊢
    rw [withoutMarkers_cons longer, withoutMarkers_cons none, rest, List.cons_append]

theorem trim_withoutMarkers_blanks {s e : Text} (before : Text.blank s = true)
    (after : Text.blank e = true) (t : Text) :
    Text.trim (withoutMarkers (s ++ (t ++ e))) = Text.trim (withoutMarkers t) := by
  obtain ⟨start, startBlank, whole⟩ := exists_withoutMarkers_blank_append before (t ++ e)
  obtain ⟨stop, stopBlank, rest⟩ := exists_withoutMarkers_append_blank t after
  rw [whole, rest, Text.trim_blank_append startBlank, Text.trim_append_blank _ stopBlank]

theorem trim_withoutMarkers_trim (t : Text) :
    Text.trim (withoutMarkers (Text.trim t)) = Text.trim (withoutMarkers t) := by
  obtain ⟨s, e, before, after, whole⟩ := Text.exists_trim t
  conv_rhs => rw [whole, trim_withoutMarkers_blanks before after]

section Kept

variable {t : Text} {depth : Int}

theorem flat_of_removed {c : Char} (h : c = ',' ∨ Text.isBlank c = true ∨ c.isAlpha = true) :
    TypeHint.depthStep c = 0 := by
  rcases h with rfl | blank | letter
  · rfl
  · exact (TypeHint.depthStep_of_isBlank blank).1
  · unfold TypeHint.depthStep
    split
    · next opening => rcases opening with rfl | rfl <;> exact absurd letter (by decide)
    split
    · next closing => rcases closing with rfl | rfl <;> exact absurd letter (by decide)
    · rfl

theorem single_withoutMarkers (h : TypeHint.Single depth t) :
    TypeHint.Single depth (withoutMarkers t) := by
  induction t using withoutMarkers.induct generalizing depth with
  | case1 t rest found ih =>
    rw [withoutMarkers_of_some found]
    obtain ⟨marker, rfl, removed⟩ := removed_of_afterMarker? found
    exact ih (TypeHint.single_of_flat_append (fun c mem => flat_of_removed (removed c mem)) h)
  | case2 => rwa [withoutMarkers_nil]
  | case3 c t none ih =>
    rw [withoutMarkers_cons none]
    exact ⟨h.1, ih h.2⟩

end Kept

end CallSchema.Outline
