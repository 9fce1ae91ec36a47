import CallSchema.Json.Basic
import Mathlib.Tactic.Common

set_option autoImplicit false

namespace CallSchema

namespace Text

variable {α : Type} {write : α → Text} {closing : Char}

def Unique (write : α → Text) (a : α) : Prop :=
  ∀ (b : α) (s t : Text), write a ++ s = write b ++ t → a = b ∧ s = t

def entries (closing : Char) (ts : List Text) : Text := List.intercalate [','] ts ++ [closing]

def afterEntry (closing : Char) : List Text → Text
  | [] => [closing]
  | next :: rest => ',' :: entries closing (next :: rest)

theorem entries_cons (closing : Char) (t : Text) (ts : List Text) :
    entries closing (t :: ts) = t ++ afterEntry closing ts := by
  cases ts with
  | nil => simp [entries, afterEntry]
  | cons next rest =>
    simp only [entries, afterEntry, List.intercalate_cons_cons, List.append_assoc]
    rfl

theorem unique_entries (comma : closing ≠ ',') (opens : ∀ a s t, write a ++ s ≠ closing :: t)
    {as : List α} (unique : ∀ a ∈ as, Unique write a) :
    Unique (fun as => entries closing (as.map write)) as := by
  induction as with
  | nil =>
    intro others s t same
    cases others with
    | nil => exact ⟨rfl, List.append_cancel_left same⟩
    | cons b more =>
      simp only [List.map_cons, entries_cons, List.append_assoc] at same
      exact absurd same.symm (opens b _ _)
  | cons a rest ih =>
    intro others s t same
    have later := ih fun b mem => unique b (by simp [mem])
    cases others with
    | nil =>
      simp only [List.map_cons, entries_cons, List.append_assoc] at same
      exact absurd same (opens a _ _)
    | cons b more =>
      simp only [List.map_cons, entries_cons, List.append_assoc] at same
      obtain ⟨rfl, behind⟩ := unique a (by simp) b _ _ same
      cases rest with
      | nil =>
        cases more with
        | nil => exact ⟨rfl, List.append_cancel_left behind⟩
        | cons _ _ => exact absurd (List.cons.inj behind).1 comma
      | cons next rest =>
        cases more with
        | nil => exact absurd (List.cons.inj behind).1.symm comma
        | cons other more =>
          obtain ⟨whole, after⟩ := later (other :: more) s t (List.cons.inj behind).2
          exact ⟨by rw [whole], after⟩

end Text

namespace Json

def firstChar? : Text → Option (Char × Text)
  | '\\' :: 'u' :: '0' :: '0' :: a :: b :: t => (Text.hexNumber? [a, b]).map fun n => (Char.ofNat n, t)
  | '\\' :: c :: t => (shortEscape? c).map (·, t)
  | c :: t => some (c, t)
  | [] => none

def shortEscaped : List Char := ['"', '\\', '\x08', '\x0c', '\n', '\r', '\t']

theorem escapeChar_of_control {c : Char} (long : c ∉ shortEscaped) (control : c.toNat < 0x20) :
    escapeChar c =
      ['\\', 'u', '0', '0', Text.hexDigit (c.toNat / 16), Text.hexDigit (c.toNat % 16)] := by
  simp only [shortEscaped, List.mem_cons, List.not_mem_nil, or_false, not_or] at long
  simp [escapeChar, long, control]

theorem escapeChar_of_plain {c : Char} (long : c ∉ shortEscaped) (plain : ¬c.toNat < 0x20) :
    escapeChar c = [c] := by
  simp only [shortEscaped, List.mem_cons, List.not_mem_nil, or_false, not_or] at long
  simp [escapeChar, long, plain]

theorem firstChar?_escapeChar (c : Char) (t : Text) :
    firstChar? (escapeChar c ++ t) = some (c, t) := by
  have numbers : ∀ n < 32,
      Text.hexNumber? [Text.hexDigit (n / 16), Text.hexDigit (n % 16)] = some n := by decide
  by_cases short : c ∈ shortEscaped
  · simp only [shortEscaped, List.mem_cons, List.not_mem_nil, or_false] at short
    rcases short with rfl | rfl | rfl | rfl | rfl | rfl | rfl <;> rfl
  by_cases control : c.toNat < 0x20
  · rw [escapeChar_of_control short control]
    simp only [List.cons_append, List.nil_append, firstChar?, numbers c.toNat control,
      Option.map_some, Char.ofNat_toNat]
  · have other : c ≠ '\\' := by
      rintro rfl
      exact short (by decide)
    rw [escapeChar_of_plain short control, List.cons_append, List.nil_append, firstChar?]
    · exact fun _ _ _ same => absurd same other
    · exact fun _ _ same => absurd same other

theorem escapeChar_append_ne (c : Char) (s t : Text) : escapeChar c ++ s ≠ '"' :: t := by
  intro same
  have first := firstChar?_escapeChar c s
  have quote : firstChar? ('"' :: t) = some ('"', t) := rfl
  rw [same, quote, Option.some.injEq, Prod.mk.injEq] at first
  rw [← first.1] at same
  cases same

def stringText (t : Text) : Text := quoted (escape t)

theorem escape_cons (c : Char) (t : Text) : escape (c :: t) = escapeChar c ++ escape t := rfl

theorem unique_stringText (x : Text) : Text.Unique stringText x := by
  suffices inner : ∀ y s t, escape x ++ '"' :: s = escape y ++ '"' :: t → x = y ∧ s = t by
    intro y s t same
    refine inner y s t ?_
    simpa [stringText, quoted] using same
  induction x with
  | nil =>
    intro y s t same
    cases y with
    | nil => exact ⟨rfl, (List.cons.inj same).2⟩
    | cons d y =>
      rw [escape_cons, List.append_assoc] at same
      exact absurd same.symm (escapeChar_append_ne d _ _)
  | cons c x ih =>
    intro y s t same
    rw [escape_cons, List.append_assoc] at same
    cases y with
    | nil => exact absurd same (escapeChar_append_ne c _ _)
    | cons d y =>
      rw [escape_cons, List.append_assoc] at same
      have first := congrArg firstChar? same
      simp only [firstChar?_escapeChar, Option.some.injEq, Prod.mk.injEq] at first
      obtain ⟨rfl, rest⟩ := first
      obtain ⟨rfl, behind⟩ := ih y s t rest
      exact ⟨rfl, behind⟩

theorem stringText_append_ne {c : Char} (other : c ≠ '"') (x s t : Text) :
    stringText x ++ s ≠ c :: t :=
  fun same => other (List.cons.inj same).1.symm

def fieldText (field : Text × Json) : Text := stringText field.1 ++ ':' :: field.2.compact

theorem compactItems_eq (items : List Json) : compactItems items = items.map compact := by
  induction items with
  | nil => rfl
  | cons item rest ih => rw [compactItems, ih, List.map_cons]

theorem compactFields_eq (fields : List (Text × Json)) :
    compactFields (fields.map fun field => (escape field.1, field.2)) = fields.map fieldText := by
  induction fields with
  | nil => rfl
  | cons field rest ih =>
    rw [List.map_cons, compactFields, ih]
    rfl

theorem compact_list (items : List Json) :
    (Json.list items).compact = '[' :: Text.entries ']' (items.map compact) := by
  rw [compact, compactItems_eq]
  rfl

theorem compact_record (fields : List (Text × Json)) :
    (record fields).compact = '{' :: Text.entries '}' (fields.map fieldText) := by
  rw [record, compact, compactFields_eq]
  rfl

theorem unique_strings (ts : List Text) :
    Text.Unique (fun ts => (Json.list (ts.map .text)).compact) ts := by
  intro others s t same
  have strings (ts : List Text) : (ts.map Json.text).map compact = ts.map stringText := by
    rw [List.map_map]
    rfl
  simp only [compact_list, strings, List.cons_append] at same
  exact Text.unique_entries (by decide) (stringText_append_ne (by decide))
    (fun x _ => unique_stringText x) others s t (List.cons.inj same).2

end Json

end CallSchema
