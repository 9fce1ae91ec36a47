import CallSchema.Proofs.Outline.Grove

set_option autoImplicit false

namespace CallSchema.Outline

theorem governs_some_iff {entries : List Entry} {host row : Row} (known : host ∈ entries.zipIdx) :
    Governs entries.zipIdx row (some host) ↔ hostOf entries row.2 row.1 = some host.2 := by
  constructor
  · exact fun governs => governs.hostOf_eq
  · intro found
    obtain ⟨other, place, governs⟩ := Governs.of_hostOf found
    rwa [place_eq (pairwise_zipIdx entries 0) governs.1 known place] at governs

namespace Grove

def Holds : Grove → Row → Grove → Prop
  | .nil, _, _ => False
  | .cons row children rest, host, inside =>
    (row = host ∧ children = inside) ∨ children.Holds host inside ∨ rest.Holds host inside

def Nests (grove : Grove) (host row : Row) : Prop :=
  ∃ inside, grove.Holds host inside ∧ row ∈ inside.tops

variable {table : List Row} {top : Option Row} {host row : Row} {inside grove : Grove}

theorem Holds.mem_rows (h : grove.Holds host inside) : host ∈ grove.rows := by
  induction grove with
  | nil => cases h
  | cons first children rest inner later =>
    rcases h with ⟨rfl, -⟩ | deep | wide
    · simp [rows]
    · simp [rows, inner deep]
    · simp [rows, later wide]

theorem Placed.of_holds (placed : grove.Placed table top) (h : grove.Holds host inside) :
    inside.Placed table (some host) := by
  induction grove generalizing top with
  | nil => cases h
  | cons first children rest inner later =>
    obtain ⟨-, -, childrenPlaced, restPlaced⟩ := placed
    rcases h with ⟨rfl, rfl⟩ | deep | wide
    · exact childrenPlaced
    · exact inner childrenPlaced deep
    · exact later restPlaced wide

theorem mem_tops_or_nests (h : row ∈ grove.rows) : row ∈ grove.tops ∨ ∃ host, grove.Nests host row := by
  induction grove with
  | nil => cases h
  | cons first children rest inner later =>
    rcases List.mem_cons.mp h with rfl | h
    · exact .inl List.mem_cons_self
    rcases List.mem_append.mp h with deep | wide
    · rcases inner deep with own | ⟨host, inside, holds, own⟩
      · exact .inr ⟨first, children, .inl ⟨rfl, rfl⟩, own⟩
      · exact .inr ⟨host, inside, .inr (.inl holds), own⟩
    · rcases later wide with own | ⟨host, inside, holds, own⟩
      · exact .inl (List.mem_cons_of_mem first own)
      · exact .inr ⟨host, inside, .inr (.inr holds), own⟩

theorem Arranged.nests_iff {entries : List Entry} (h : grove.Arranged entries)
    (known : row ∈ entries.zipIdx) : grove.Nests host row ↔ Governs entries.zipIdx row (some host) := by
  constructor
  · rintro ⟨inside, holds, own⟩
    exact (h.placed.of_holds holds).governs row own
  · intro governs
    rcases mem_tops_or_nests (h.rows.mem_iff.mpr known) with top | ⟨other, inside, holds, own⟩
    · cases governs.unique (h.placed.governs row top)
    · obtain rfl : host = other :=
        Option.some.inj (governs.unique ((h.placed.of_holds holds).governs row own))
      exact ⟨inside, holds, own⟩

end Grove

end CallSchema.Outline
