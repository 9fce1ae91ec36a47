import CallSchema.Proofs.Text.Strip
import CallSchema.Source.Literal
import Mathlib.Tactic.Common

set_option autoImplicit false

namespace CallSchema.Literal

/-! ### Hexadecimal digits -/

structure HexDigit where
  value : Fin 16
  upper : Bool

namespace HexDigit

def char (digit : HexDigit) : Char :=
  if digit.upper then (Nat.digitChar digit.value).toUpper else Nat.digitChar digit.value

theorem hexValue?_char (digit : HexDigit) : Text.hexValue? digit.char = some digit.value.val := by
  obtain ⟨value, upper⟩ := digit
  revert value upper
  decide

theorem isHexDigit_char (digit : HexDigit) : Text.isHexDigit digit.char = true := by
  rw [Text.isHexDigit, digit.hexValue?_char]
  rfl

theorem exists_of_isHexDigit {c : Char} (h : Text.isHexDigit c = true) :
    ∃ digit : HexDigit, digit.char = c := by
  have all : ∀ n : Fin 103, Text.isHexDigit (Char.ofNat n) = true →
      ∃ value upper, HexDigit.char ⟨value, upper⟩ = Char.ofNat n := by
    decide +kernel
  have small : c.toNat < 103 := by
    unfold Text.isHexDigit Text.hexValue? at h
    split at h
    · next digit => exact Nat.lt_of_le_of_lt digit.2 (by decide)
    · split at h
      · next lower => exact Nat.lt_of_le_of_lt lower.2 (by decide)
      · split at h
        · next upper => exact Nat.lt_of_le_of_lt upper.2 (by decide)
        · cases h
  rw [← Char.ofNat_toNat c] at h ⊢
  obtain ⟨value, upper, same⟩ := all ⟨c.toNat, small⟩ h
  exact ⟨⟨value, upper⟩, same⟩

end HexDigit

def writtenDigits (digits : List HexDigit) : Text := digits.map HexDigit.char

theorem length_writtenDigits (digits : List HexDigit) :
    (writtenDigits digits).length = digits.length :=
  List.length_map _

def numberOf (digits : List HexDigit) : Nat :=
  digits.foldl (fun n digit => 16 * n + digit.value.val) 0

theorem hexNumber?_writtenDigits (digits : List HexDigit) :
    Text.hexNumber? (writtenDigits digits) = some (numberOf digits) := by
  have more : ∀ n : Nat, (writtenDigits digits).foldlM
      (fun n c => (Text.hexValue? c).map (16 * n + ·)) n =
        some (digits.foldl (fun n digit => 16 * n + digit.value.val) n) := by
    induction digits with
    | nil => exact fun n => rfl
    | cons digit rest ih =>
      intro n
      rw [writtenDigits, List.map_cons, List.foldlM_cons, digit.hexValue?_char]
      exact ih (16 * n + digit.value.val)
  exact more 0

/-! ### Spelling -/

-- The marks around a literal.
structure Quotes where
  double : Bool
  triple : Bool

namespace Quotes

def mark (quotes : Quotes) : Char := if quotes.double then '"' else '\''

def text (quotes : Quotes) : Text := List.replicate (if quotes.triple then 3 else 1) quotes.mark

def around (quotes : Quotes) (inner : Text) : Text := quotes.text ++ inner ++ quotes.text

end Quotes

def shortEscapes : List (Char × Char) :=
  [('n', '\n'), ('t', '\t'), ('r', '\r'), ('0', '\x00'), ('\\', '\\'), ('\'', '\''), ('"', '"')]

def hexEscapes : List (Char × Nat) := [('x', 2), ('u', 4), ('U', 8)]

inductive Writes (quotes : Quotes) (c : Char) : Text → Prop
  | itself (backslash : c ≠ '\\') (mark : c ≠ quotes.mark) (line : c = '\n' → quotes.triple = true) :
    Writes quotes c [c]
  | short {letter : Char} (known : (letter, c) ∈ shortEscapes) : Writes quotes c ['\\', letter]
  | hex {kind : Char} {width : Nat} {digits : List HexDigit} (known : (kind, width) ∈ hexEscapes)
    (whole : digits.length = width) (number : numberOf digits = c.toNat) :
    Writes quotes c ('\\' :: kind :: writtenDigits digits)

-- A hexadecimal escape that denotes no character where `rest` follows it: digits are missing, or no
-- character has their number.
inductive Malformed (kind : Char) (digits : List HexDigit) (rest : Text) : Prop
  | short {width : Nat} (known : (kind, width) ∈ hexEscapes) (few : digits.length < width)
    (stop : ∀ digit : HexDigit, rest.head? ≠ some digit.char)
  | stray {width : Nat} (known : (kind, width) ∈ hexEscapes) (whole : digits.length = width)
    (invalid : ¬ (numberOf digits).isValidChar)

-- What stands between these quotes, and the text that it spells.
inductive Spells (quotes : Quotes) : Text → Text → Prop
  | nil : Spells quotes [] []
  | char {c : Char} {written rest text : Text} (writes : Writes quotes c written)
    (more : Spells quotes rest text) : Spells quotes (written ++ rest) (c :: text)
  | join {rest text : Text} (more : Spells quotes rest text) :
    Spells quotes ('\\' :: '\n' :: rest) text
  | malformed {kind : Char} {digits : List HexDigit} {rest text : Text}
    (malformed : Malformed kind digits rest) (more : Spells quotes rest text) :
    Spells quotes ('\\' :: kind :: writtenDigits digits ++ rest)
      ('\\' :: kind :: writtenDigits digits ++ text)

/-! ### Decoding -/

theorem decode_cons_of_ne {c : Char} (h : c ≠ '\\') (t : Text) : decode (c :: t) = c :: decode t := by
  rw [decode]
  · exact fun same => absurd same h
  · exact fun _ _ same => absurd same h

theorem decode_join (t : Text) : decode ('\\' :: '\n' :: t) = decode t := by
  rw [decode, if_pos rfl]

theorem decode_short {letter c : Char} (known : (letter, c) ∈ shortEscapes) (t : Text) :
    decode ('\\' :: letter :: t) = c :: decode t := by
  have found : ∀ escape ∈ shortEscapes, escape.1 ≠ '\n' ∧ shortEscape? escape.1 = some escape.2 := by
    decide
  obtain ⟨inner, denotes⟩ := found _ known
  rw [decode, if_neg inner]
  simp only [denotes]

theorem decode_hex {kind : Char} {width : Nat} (known : (kind, width) ∈ hexEscapes) (t : Text) :
    decode ('\\' :: kind :: t) =
      hexEscape kind width (leadingHex width t) ++ decode (t.drop (leadingHex width t).length) := by
  have found : ∀ escape ∈ hexEscapes, escape.1 ≠ '\n' ∧ shortEscape? escape.1 = none ∧
      hexWidth? escape.1 = some escape.2 := by
    decide
  obtain ⟨inner, long, takes⟩ := found _ known
  rw [decode, if_neg inner]
  simp only [long, takes]

theorem leadingHex_append {width : Nat} {digits : List HexDigit} {rest : Text}
    (fits : digits.length ≤ width)
    (stop : digits.length < width → ∀ digit : HexDigit, rest.head? ≠ some digit.char) :
    leadingHex width (writtenDigits digits ++ rest) = writtenDigits digits := by
  have hex : ∀ c ∈ writtenDigits digits, Text.isHexDigit c = true := by
    intro c mem
    obtain ⟨digit, -, rfl⟩ := List.mem_map.mp mem
    exact digit.isHexDigit_char
  have beyond : (rest.take (width - digits.length)).takeWhile Text.isHexDigit = [] := by
    cases known : rest.take (width - digits.length) with
    | nil => rfl
    | cons c more =>
      apply List.takeWhile_cons_of_neg
      intro follows
      obtain ⟨digit, rfl⟩ := HexDigit.exists_of_isHexDigit follows
      have few : digits.length < width := by
        by_contra full
        rw [Nat.sub_eq_zero_of_le (Nat.le_of_not_lt full), List.take_zero] at known
        cases known
      have head := List.head?_take (l := rest) (i := width - digits.length)
      rw [if_neg (Nat.sub_ne_zero_of_lt few)] at head
      refine stop few digit ?_
      rw [← head, known]
      rfl
  have whole : (writtenDigits digits).take width = writtenDigits digits :=
    List.take_of_length_le (by rwa [length_writtenDigits])
  rw [leadingHex, List.take_append, length_writtenDigits, whole, List.takeWhile_append_of_pos hex, beyond,
    List.append_nil]

theorem hexEscape_of_number {kind : Char} {digits : List HexDigit} {c : Char}
    (number : numberOf digits = c.toNat) :
    hexEscape kind digits.length (writtenDigits digits) = [c] := by
  have valid : c.toNat.isValidChar := c.valid
  have scalar : Text.scalar? c.toNat = some c := by
    rw [Text.scalar?, if_pos valid, Char.ofNat_toNat]
  simp only [hexEscape, hexNumber?_writtenDigits, number, Option.bind_some, scalar, length_writtenDigits,
    if_pos]

theorem hexEscape_of_malformed {kind : Char} {width : Nat} {digits : List HexDigit}
    (h : digits.length ≠ width ∨ ¬ (numberOf digits).isValidChar) :
    hexEscape kind width (writtenDigits digits) = '\\' :: kind :: writtenDigits digits := by
  unfold hexEscape
  rw [hexNumber?_writtenDigits, Option.bind_some]
  cases known : Text.scalar? (numberOf digits) with
  | none => rfl
  | some c =>
    have valid : (numberOf digits).isValidChar := by
      by_contra invalid
      rw [Text.scalar?, if_neg invalid] at known
      cases known
    have other : digits.length ≠ width := h.resolve_right (not_not_intro valid)
    exact if_neg (by rwa [length_writtenDigits])

theorem decode_hex_append {kind : Char} {width : Nat} {digits : List HexDigit} {rest : Text}
    (known : (kind, width) ∈ hexEscapes) (fits : digits.length ≤ width)
    (stop : digits.length < width → ∀ digit : HexDigit, rest.head? ≠ some digit.char) :
    decode ('\\' :: kind :: writtenDigits digits ++ rest) =
      hexEscape kind width (writtenDigits digits) ++ decode rest := by
  rw [List.cons_append, List.cons_append, decode_hex known, leadingHex_append fits stop,
    List.drop_left]

theorem decode_malformed {kind : Char} {digits : List HexDigit} {rest : Text}
    (h : Malformed kind digits rest) :
    decode ('\\' :: kind :: writtenDigits digits ++ rest) =
      '\\' :: kind :: writtenDigits digits ++ decode rest := by
  cases h with
  | short known few stop =>
    rw [decode_hex_append known few.le fun _ => stop, hexEscape_of_malformed (.inl few.ne)]
  | stray known whole invalid =>
    rw [decode_hex_append known whole.le fun few => absurd whole few.ne,
      hexEscape_of_malformed (.inr invalid)]

theorem decode_writes {quotes : Quotes} {c : Char} {written : Text} (h : Writes quotes c written)
    (rest : Text) : decode (written ++ rest) = c :: decode rest := by
  cases h with
  | itself backslash => exact decode_cons_of_ne backslash rest
  | short known => exact decode_short known rest
  | hex known whole number =>
    subst whole
    rw [decode_hex_append known (Nat.le_refl _) fun few => absurd few (Nat.lt_irrefl _),
      hexEscape_of_number number]
    rfl

theorem decode_spells {quotes : Quotes} {written text : Text} (h : Spells quotes written text) :
    decode written = text := by
  induction h with
  | nil => rw [decode]
  | char writes _ ih => rw [decode_writes writes, ih]
  | join _ ih => rw [decode_join, ih]
  | malformed broken _ ih => rw [decode_malformed broken, ih]

/-! ### Quotes -/

namespace Quotes

def Widest (quotes : Quotes) (inner : Text) : Prop :=
  quotes.triple = false → ∀ other, quotes.around inner ≠ around ⟨quotes.double, true⟩ other

theorem isQuote_mark (quotes : Quotes) : isQuote quotes.mark = true := by
  obtain ⟨double, triple⟩ := quotes
  cases double <;> rfl

theorem exists_around (quotes : Quotes) (inner : Text) :
    ∃ rest, quotes.around inner = quotes.mark :: rest := by
  obtain ⟨double, triple⟩ := quotes
  cases triple <;> exact ⟨_, rfl⟩

theorem widest_of_head? {quotes : Quotes} {inner : Text}
    (h : quotes.triple = false → inner.head? ≠ some quotes.mark) : quotes.Widest inner := by
  intro single other same
  obtain ⟨double, triple⟩ := quotes
  obtain rfl : triple = false := single
  have first := h rfl
  cases inner with
  | nil => simp [around, text, mark] at same
  | cons c rest =>
    refine first ?_
    simp only [around, text, mark, Bool.false_eq_true, if_false, if_true, List.replicate] at same
    simp only [List.cons_append, List.nil_append, List.cons.injEq] at same
    simp [same.2.1, mark]

theorem between?_around (quotes : Quotes) (inner : Text) :
    Text.between? quotes.text quotes.text (quotes.around inner) = some inner := by
  rw [around, List.append_assoc, Text.between?_append]

theorem between?_around_eq_none {quotes other : Quotes} {inner : Text}
    (h : ∀ x, quotes.around inner ≠ other.around x) :
    Text.between? other.text other.text (quotes.around inner) = none := by
  cases found : Text.between? other.text other.text (quotes.around inner) with
  | none => rfl
  | some x => exact absurd (Text.append_of_between? found) (h x)

theorem around_ne {quotes other : Quotes} (h : quotes.double ≠ other.double) (inner x : Text) :
    quotes.around inner ≠ other.around x := by
  obtain ⟨rest, whole⟩ := quotes.exists_around inner
  obtain ⟨otherRest, otherWhole⟩ := other.exists_around x
  rw [whole, otherWhole]
  intro same
  have marks := (List.cons.inj same).1
  revert h marks
  obtain ⟨double, triple⟩ := quotes
  obtain ⟨otherDouble, otherTriple⟩ := other
  cases double <;> cases otherDouble <;> simp [mark]

end Quotes

def allQuotes : List Quotes := [⟨true, true⟩, ⟨false, true⟩, ⟨true, false⟩, ⟨false, false⟩]

theorem mem_allQuotes (quotes : Quotes) : quotes ∈ allQuotes := by
  obtain ⟨double, triple⟩ := quotes
  cases double <;> cases triple <;> simp [allQuotes]

theorem pairwise_allQuotes :
    allQuotes.Pairwise fun first second => first.triple = false → second.triple = false := by
  simp [allQuotes]

theorem inside?_eq (t : Text) :
    inside? t = allQuotes.findSome? fun quotes => Text.between? quotes.text quotes.text t := rfl

theorem inside?_around {quotes : Quotes} {inner : Text} (widest : quotes.Widest inner) :
    inside? (quotes.around inner) = some inner := by
  have here := quotes.between?_around inner
  rw [inside?_eq, allQuotes]
  have refused (other : Quotes) (h : quotes.double ≠ other.double) :=
    Quotes.between?_around_eq_none (Quotes.around_ne h inner)
  obtain ⟨double, triple⟩ := quotes
  cases triple with
  | true =>
    cases double with
    | true => simp only [List.findSome?_cons, here]
    | false => simp only [List.findSome?_cons, refused ⟨true, true⟩ (by decide), here]
  | false =>
    have wider := Quotes.between?_around_eq_none (widest rfl)
    cases double with
    | true => simp only [List.findSome?_cons, wider, refused ⟨false, true⟩ (by decide), here]
    | false =>
      simp only [List.findSome?_cons, refused ⟨true, true⟩ (by decide), wider,
        refused ⟨true, false⟩ (by decide), here]

theorem exists_of_inside? {t inner : Text} (h : inside? t = some inner) :
    ∃ quotes : Quotes, t = quotes.around inner ∧ quotes.Widest inner := by
  rw [inside?_eq] at h
  obtain ⟨before, quotes, after, order, found, unfit⟩ := List.findSome?_eq_some_iff.mp h
  have whole : t = quotes.around inner := Text.append_of_between? found
  refine ⟨quotes, whole, fun single other same => ?_⟩
  -- The wider quotes come before these ones, and there they were refused.
  have earlier : (⟨quotes.double, true⟩ : Quotes) ∈ before := by
    have sorted := pairwise_allQuotes
    have known := mem_allQuotes ⟨quotes.double, true⟩
    rw [order] at sorted known
    rcases List.mem_append.mp known with earlier | later
    · exact earlier
    · rcases List.mem_cons.mp later with here | later
      · rw [← here] at single
        cases single
      · cases (List.pairwise_cons.mp (List.pairwise_append.mp sorted).2.1).1 _ later single
  have refused := unfit _ earlier
  rw [whole, same, Quotes.between?_around] at refused
  cases refused

/-! ### Flags -/

def IsPlain (flags : Text) : Prop := ∀ c ∈ flags, c ∈ ['u', 'U', 'r', 'R']

def IsRaw (flags : Text) : Prop := 'r' ∈ flags ∨ 'R' ∈ flags

instance (flags : Text) : Decidable (IsPlain flags) := inferInstanceAs (Decidable (∀ c ∈ flags, _))

instance (flags : Text) : Decidable (IsRaw flags) := inferInstanceAs (Decidable (_ ∨ _))

def denoted (flags inner : Text) : Text := if IsRaw flags then inner else decode inner

theorem toLower_eq_iff {c lower upper : Char} (h : (lower, upper) ∈ [('r', 'R'), ('u', 'U')]) :
    c.toLower = lower ↔ c = lower ∨ c = upper := by
  have all : ∀ flag ∈ [('r', 'R'), ('u', 'U')], ∀ n : Fin 128,
      (Char.ofNat n).toLower = flag.1 ↔ Char.ofNat n = flag.1 ∨ Char.ofNat n = flag.2 := by
    decide +kernel
  have ascii : ∀ flag ∈ [('r', 'R'), ('u', 'U')], flag.1.toNat < 128 ∧ flag.2.toNat < 128 := by
    decide
  by_cases small : c.toNat < 128
  · have same := all _ h ⟨c.toNat, small⟩
    rwa [Char.ofNat_toNat] at same
  · have fixed : c.toLower = c := by
      refine dif_neg fun range => small ?_
      exact Nat.lt_of_le_of_lt range.2 (by decide)
    have lowerOther : c ≠ lower := fun same => small (same ▸ (ascii _ h).1)
    have upperOther : c ≠ upper := fun same => small (same ▸ (ascii _ h).2)
    simp only [fixed, lowerOther, upperOther, or_self]

theorem all_toLower_iff (flags : Text) :
    ((flags.map Char.toLower).all fun c => c == 'r' || c == 'u') = true ↔ IsPlain flags := by
  have r (c : Char) : c.toLower = 'r' ↔ c = 'r' ∨ c = 'R' := toLower_eq_iff (by decide)
  have u (c : Char) : c.toLower = 'u' ↔ c = 'u' ∨ c = 'U' := toLower_eq_iff (by decide)
  simp only [List.all_map, List.all_eq_true, Function.comp_apply, Bool.or_eq_true, beq_iff_eq, r, u,
    IsPlain, List.mem_cons, List.not_mem_nil, or_false]
  refine forall₂_congr fun c _ => ?_
  rw [or_comm, or_assoc]

theorem contains_toLower_iff (flags : Text) :
    (flags.map Char.toLower).contains 'r' = true ↔ IsRaw flags := by
  have r (c : Char) : c.toLower = 'r' ↔ c = 'r' ∨ c = 'R' := toLower_eq_iff (by decide)
  simp only [List.contains_eq_mem, decide_eq_true_eq, List.mem_map, r, IsRaw]
  constructor
  · rintro ⟨c, mem, rfl | rfl⟩
    · exact .inl mem
    · exact .inr mem
  · rintro (mem | mem)
    · exact ⟨'r', mem, .inl rfl⟩
    · exact ⟨'R', mem, .inr rfl⟩

theorem value?_eq (written : Text) :
    value? written =
      if IsPlain (written.takeWhile (!isQuote ·)) then
        (inside? (written.dropWhile (!isQuote ·))).map (denoted (written.takeWhile (!isQuote ·)))
      else none := by
  unfold value?
  generalize written.takeWhile (!isQuote ·) = flags
  by_cases plain : IsPlain flags
  · have all := (all_toLower_iff flags).mpr plain
    simp only [all, guard, if_true, plain]
    cases inside? (written.dropWhile (!isQuote ·)) with
    | none => rfl
    | some inner => exact congrArg some (if_congr (contains_toLower_iff flags) rfl rfl)
  · have other : ¬ _ := (all_toLower_iff flags).not.mpr plain
    simp only [guard, other, plain]
    rfl

theorem isQuote_eq_false_of_isPlain {flags : Text} (plain : IsPlain flags) :
    ∀ c ∈ flags, (!isQuote c) = true := by
  have all : ∀ c ∈ ['u', 'U', 'r', 'R'], (!isQuote c) = true := by simp [isQuote]
  exact fun c mem => all c (plain c mem)

theorem value?_around {flags inner : Text} {quotes : Quotes} (plain : IsPlain flags)
    (widest : quotes.Widest inner) :
    value? (flags ++ quotes.around inner) = some (denoted flags inner) := by
  have unquoted := isQuote_eq_false_of_isPlain plain
  obtain ⟨rest, whole⟩ := quotes.exists_around inner
  have stop : ¬ (!isQuote quotes.mark) = true := by simp [quotes.isQuote_mark]
  have before : (flags ++ quotes.around inner).takeWhile (!isQuote ·) = flags := by
    have none : (quotes.mark :: rest).takeWhile (!isQuote ·) = [] := List.takeWhile_cons_of_neg stop
    rw [List.takeWhile_append_of_pos unquoted, whole, none, List.append_nil]
  have after : (flags ++ quotes.around inner).dropWhile (!isQuote ·) = quotes.around inner := by
    rw [List.dropWhile_append_of_pos unquoted, whole]
    exact List.dropWhile_cons_of_neg stop
  rw [value?_eq, before, if_pos plain, after, inside?_around widest, Option.map_some]

def Denotes (written text : Text) : Prop :=
  ∃ flags quotes inner, IsPlain flags ∧ Quotes.Widest quotes inner ∧
    written = flags ++ quotes.around inner ∧ text = denoted flags inner

theorem value?_eq_some_iff {written text : Text} :
    value? written = some text ↔ Denotes written text := by
  constructor
  · intro read
    rw [value?_eq] at read
    split at read
    · next plain =>
      obtain ⟨inner, found, rfl⟩ := Option.map_eq_some_iff.mp read
      obtain ⟨quotes, whole, widest⟩ := exists_of_inside? found
      refine ⟨_, quotes, inner, plain, widest, ?_, rfl⟩
      rw [← whole, List.takeWhile_append_dropWhile]
    · cases read
  · rintro ⟨flags, quotes, inner, plain, widest, rfl, rfl⟩
    exact value?_around plain widest

theorem head?_of_spells {quotes : Quotes} {written text : Text} (h : Spells quotes written text) :
    written.head? ≠ some quotes.mark := by
  have backslash : some '\\' ≠ some quotes.mark := by
    obtain ⟨double, triple⟩ := quotes
    cases double <;> simp [Quotes.mark]
  cases h with
  | nil => simp
  | char writes more =>
    cases writes with
    | itself _ other => simpa using other
    | short known => exact backslash
    | hex known whole number => exact backslash
  | join more => exact backslash
  | malformed broken more => exact backslash

/-- A literal denotes the text that it spells; a raw one denotes what is written between its quotes;
and a malformed escape stands for itself, whatever is written after it. -/
theorem value?_literal (quotes : Quotes) :
    (∀ flags written text : Text, (∀ c ∈ flags, c = 'u' ∨ c = 'U') → Spells quotes written text →
      value? (flags ++ quotes.around written) = some text) ∧
    (∀ flags inner : Text, IsPlain flags → IsRaw flags →
      (quotes.triple = false → inner.head? ≠ some quotes.mark) →
      value? (flags ++ quotes.around inner) = some inner) ∧
    ∀ kind digits rest, Malformed kind digits rest →
      decode ('\\' :: kind :: writtenDigits digits ++ rest) =
        '\\' :: kind :: writtenDigits digits ++ decode rest := by
  refine ⟨?_, ?_, ?_⟩
  · intro flags written text cooked spells
    have plain : IsPlain flags := by
      intro c mem
      rcases cooked c mem with rfl | rfl <;> simp
    have unraw : ¬ IsRaw flags := by
      rintro (mem | mem)
      · exact absurd (cooked _ mem) (by decide)
      · exact absurd (cooked _ mem) (by decide)
    have widest := Quotes.widest_of_head? fun _ => head?_of_spells spells
    rw [value?_around plain widest, denoted, if_neg unraw, decode_spells spells]
  · intro flags inner plain raw closed
    rw [value?_around plain (Quotes.widest_of_head? closed), denoted, if_pos raw]
  · exact fun kind digits rest => decode_malformed

theorem malformed_x (rest : Text) : Malformed 'x' [⟨4, false⟩] ('\\' :: rest) := by
  have known : ('x', 2) ∈ hexEscapes := by decide
  have stop : ∀ value upper, some '\\' ≠ some (HexDigit.char ⟨value, upper⟩) := by decide
  exact .short known (by decide) fun digit => stop digit.value digit.upper

def escapedText : Text := "\\x4a\\\n1\\\"\\x4\\ud800"

theorem spells_escapedText : Spells ⟨true, false⟩ escapedText "J1\"\\x4\\ud800" := by
  have stray : Malformed 'u' [⟨13, false⟩, ⟨8, false⟩, ⟨0, false⟩, ⟨0, false⟩] [] :=
    .stray (by decide) rfl (by decide)
  have short : Malformed 'x' [⟨4, false⟩] "\\ud800" := malformed_x _
  have letter : Writes ⟨true, false⟩ 'J' ('\\' :: 'x' :: writtenDigits [⟨4, false⟩, ⟨10, false⟩]) :=
    .hex (by decide) rfl (by decide)
  have digit : Writes ⟨true, false⟩ '1' "1" := .itself (by decide) (by decide) (by decide)
  have mark : Writes ⟨true, false⟩ '"' "\\\"" := .short (by decide)
  exact .char letter (.join (.char digit (.char mark (.malformed short (.malformed stray .nil)))))

theorem value?_literal_escapedText :
    value? ("u" ++ Quotes.around ⟨true, false⟩ escapedText) = some "J1\"\\x4\\ud800".toList ∧
      value? ("rU" ++ Quotes.around ⟨true, false⟩ escapedText) = some escapedText ∧
      decode "\\x4\\q" = "\\x4".toList ++ decode "\\q" := by
  obtain ⟨cooked, raw, malformed⟩ := value?_literal ⟨true, false⟩
  refine ⟨cooked "u" _ _ (by simp) spells_escapedText, ?_, ?_⟩
  · exact raw "rU" _ (by simp [IsPlain]) (by decide) fun _ => by decide
  · exact malformed 'x' [⟨4, false⟩] "\\q" (malformed_x _)

end CallSchema.Literal
