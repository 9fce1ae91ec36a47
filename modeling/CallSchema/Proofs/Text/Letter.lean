import CallSchema.Proofs.Text.Trim
import CallSchema.Text.Letter

set_option autoImplicit false

namespace CallSchema.Text

def blankCodes : List Nat :=
  [0x20, 0x09, 0x0a, 0x0b, 0x0c, 0x0d, 0x85, 0xa0, 0x1680, 0x2000, 0x2001, 0x2002, 0x2003, 0x2004,
    0x2005, 0x2006, 0x2007, 0x2008, 0x2009, 0x200a, 0x2028, 0x2029, 0x202f, 0x205f, 0x3000]

theorem toNat_mem_blankCodes {c : Char} (h : isBlank c = true) : c.toNat ∈ blankCodes := by
  have range : ∀ {low high : Char}, low ≤ c → c ≤ high → low.toNat ≤ c.toNat ∧ c.toNat ≤ high.toNat :=
    fun first last => ⟨first, last⟩
  simp only [isBlank, Bool.or_eq_true, beq_iff_eq, Bool.and_eq_true, decide_eq_true_eq] at h
  simp only [blankCodes, List.mem_cons, List.not_mem_nil, or_false]
  rcases h with (((((((((rfl | between) | rfl) | rfl) | rfl) | between) | rfl) | rfl) | rfl) | rfl) | rfl
  all_goals try decide
  · have bounds := range between.1 between.2
    have low : '\t'.toNat = 9 := rfl
    have high : '\r'.toNat = 13 := rfl
    omega
  · have bounds := range between.1 between.2
    have low : '\u2000'.toNat = 0x2000 := rfl
    have high : '\u200a'.toNat = 0x200a := rfl
    omega

theorem has_eq_false {ranges : Ranges} {low : Nat} (h : ∀ range ∈ ranges, low ≤ range.1) {c : Char}
    (below : c.toNat < low) : ranges.has c = false := by
  rw [Ranges.has, List.any_eq_false]
  intro range mem
  have := h range mem
  simp only [Bool.and_eq_true, decide_eq_true_eq]
  omega

theorem ascii_lt_letterRanges : ∀ range ∈ letterRanges, 128 ≤ range.1 := by decide +kernel

theorem ascii_lt_numberRanges : ∀ range ∈ numberRanges, 128 ≤ range.1 := by decide +kernel

theorem continuesIdentifier_eq_false {c : Char} (ascii : c.toNat < 128)
    (mark : (c == '_' || c.isAlphanum) = false) : continuesIdentifier c = false := by
  simp only [Char.isAlphanum, Bool.or_eq_false_iff] at mark
  simp only [continuesIdentifier, isLetter, isNumber, has_eq_false ascii_lt_letterRanges ascii,
    has_eq_false ascii_lt_numberRanges ascii, mark, Bool.or_false]

theorem isBlank_of_continuesIdentifier {c : Char} (h : continuesIdentifier c = true) :
    isBlank c = false := by
  have none : ∀ n ∈ blankCodes, continuesIdentifier (Char.ofNat n) = false := by decide +kernel
  rw [← Bool.not_eq_true]
  intro blank
  have other := none c.toNat (toNat_mem_blankCodes blank)
  rw [Char.ofNat_toNat, h] at other
  exact absurd other (by decide)

theorem continuesIdentifier_of_mem {t : Text} (h : isIdentifier t = true) {c : Char} (mem : c ∈ t) :
    continuesIdentifier c = true := by
  cases t with
  | nil => simp at mem
  | cons first rest =>
    simp only [isIdentifier, Bool.and_eq_true, List.all_eq_true] at h
    rcases List.mem_cons.mp mem with rfl | later
    · have opens := h.1
      simp only [opensIdentifier, continuesIdentifier, Bool.or_eq_true] at opens ⊢
      exact .inl opens
    · exact h.2 c later

theorem not_mem_of_isIdentifier {t : Text} (h : isIdentifier t = true) {c : Char}
    (ascii : c.toNat < 128) (mark : (c == '_' || c.isAlphanum) = false) : c ∉ t := by
  intro mem
  have letter := continuesIdentifier_of_mem h mem
  rw [continuesIdentifier_eq_false ascii mark] at letter
  cases letter

theorem isBlank_of_mem_isIdentifier {t : Text} (h : isIdentifier t = true) {c : Char} (mem : c ∈ t) :
    isBlank c = false :=
  isBlank_of_continuesIdentifier (continuesIdentifier_of_mem h mem)

theorem trim_isIdentifier {t : Text} (h : isIdentifier t = true) : trim t = t :=
  trim_eq_self (fun _ first => isBlank_of_mem_isIdentifier h (List.mem_of_head? first))
    fun _ last => isBlank_of_mem_isIdentifier h (List.mem_of_getLast? last)

theorem ne_nil_of_isIdentifier {t : Text} (h : isIdentifier t = true) : t ≠ [] := by
  rintro rfl
  exact absurd h (by decide)

end CallSchema.Text
