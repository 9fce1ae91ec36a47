import CallSchema.Proofs.Outline.Nesting
import Mathlib.Data.List.Perm.Subperm

set_option autoImplicit false

namespace CallSchema.Outline

abbrev Row := Entry × Nat

structure MayHost (host row : Row) : Prop where
  earlier : host.2 < row.2
  shallower : host.1.indent < row.1.indent
  hosts : host.1.schema.hosts = true

def Precedes (first second : Row) : Prop :=
  first.1.indent < second.1.indent ∨
    first.1.indent = second.1.indent ∧ first.2 < second.2

-- The host of a row is the last of the rows that may be, and it has none if there is no such row.
def Governs (rows : List Row) (row : Row) : Option Row → Prop
  | none => ∀ other ∈ rows, ¬MayHost other row
  | some host =>
    host ∈ rows ∧ MayHost host row ∧
      ∀ other ∈ rows, MayHost other row → other = host ∨ Precedes other host

-- Definitions of one host, the first with the definitions inside it and then the others.
inductive Grove where
  | nil
  | cons (row : Row) (children rest : Grove)

namespace Grove

def rows : Grove → List Row
  | .nil => []
  | .cons row children rest => row :: (children.rows ++ rest.rows)

def tops : Grove → List Row
  | .nil => []
  | .cons row _ rest => row :: rest.tops

def Placed (rows : List Row) (host : Option Row) : Grove → Prop
  | .nil => True
  | .cons row children rest =>
    Governs rows row host ∧ (∀ other ∈ rest.tops, Precedes row other) ∧
      children.Placed rows (some row) ∧ rest.Placed rows host

-- One property for each definition, which has those of the definitions inside it after its own.
def properties : Grove → List (Text × Schema)
  | .nil => []
  | .cons row children rest =>
    (row.1.name, row.1.schema.onHost fun own =>
      ⟨own.properties ++ children.properties,
        own.required ++ (children.tops.filter (·.1.required)).map (·.1.name)⟩) :: rest.properties

def addTo (grove : Grove) (shape : Shape) : Shape :=
  ⟨shape.properties ++ grove.properties,
    shape.required ++ (grove.tops.filter (·.1.required)).map (·.1.name)⟩

theorem properties_cons (row : Row) (children rest : Grove) :
    (cons row children rest).properties =
      (row.1.name, row.1.schema.onHost children.addTo) :: rest.properties :=
  rfl

-- The definitions as they are inserted one by one, of which a later one may replace an earlier.
def insertInto : Grove → Shape → Shape
  | .nil, shape => shape
  | .cons row children rest, shape =>
    rest.insertInto (insertEntry shape
      { row.1 with schema := row.1.schema.onHost children.insertInto })

theorem mem_rows_of_mem_tops {grove : Grove} {row : Row} (h : row ∈ grove.tops) :
    row ∈ grove.rows := by
  induction grove with
  | nil => exact h
  | cons first children rest _ later =>
    rcases List.mem_cons.mp h with rfl | h
    · simp [rows]
    · simp [rows, later h]

theorem Placed.governs {table : List Row} {host : Option Row} {grove : Grove}
    (h : grove.Placed table host) : ∀ row ∈ grove.tops, Governs table row host := by
  induction grove with
  | nil => simp [tops]
  | cons row children rest _ later => exact List.forall_mem_cons.mpr ⟨h.1, later h.2.2.2⟩

end Grove

section Hosts

variable {entries : List Entry} {row : Row}

theorem place_eq {table : List Row} (ordered : table.Pairwise (·.2 < ·.2)) {first second : Row}
    (known : first ∈ table) (other : second ∈ table) (same : first.2 = second.2) :
    first = second := by
  have places : (table.map Prod.snd).Nodup :=
    (List.pairwise_map.mpr ordered).imp Nat.ne_of_lt
  exact List.inj_on_of_nodup_map places known other same

theorem mem_take_zipIdx {other : Row} {place : Nat} :
    other ∈ (entries.take place).zipIdx ↔ other ∈ entries.zipIdx ∧ other.2 < place := by
  simp only [List.mem_zipIdx_iff_getElem?, List.getElem?_take]
  split
  · next less => simp [less]
  · next less => simp [less]

theorem governs_hostOf (entries : List Entry) (row : Row) :
    ∃ host : Option Row, host.map (·.2) = hostOf entries row.2 row.1 ∧
      Governs entries.zipIdx row host := by
  unfold hostOf
  cases found : governing (·.indent) (·.schema.hosts) row.1.indent (entries.take row.2) with
  | none =>
    refine ⟨none, rfl, ?_⟩
    intro other mem may
    have known := mem_take_zipIdx.mpr ⟨mem, may.earlier⟩
    have := governing_eq_none_iff.mp found other known may.hosts
    have := may.shallower
    omega
  | some place =>
    obtain ⟨entry, known, hosts, shallower, last⟩ := exists_of_governing found
    obtain ⟨mem, earlier⟩ := mem_take_zipIdx.mp known
    refine ⟨some (entry, place), rfl, mem, ⟨earlier, shallower, hosts⟩, ?_⟩
    intro other otherMem may
    exact last other (mem_take_zipIdx.mpr ⟨otherMem, may.earlier⟩) may.hosts may.shallower

theorem Precedes.asymm {first second : Row} (h : Precedes first second) :
    ¬Precedes second first := by
  unfold Precedes at *
  omega

theorem Governs.unique {table : List Row} {host other : Option Row} (h : Governs table row host)
    (h' : Governs table row other) : host = other := by
  cases host with
  | none =>
    cases other with
    | none => rfl
    | some second => exact absurd h'.2.1 (h second h'.1)
  | some first =>
    cases other with
    | none => exact absurd h.2.1 (h' first h.1)
    | some second =>
      rcases h.2.2 second h'.1 h'.2.1 with same | before
      · rw [same]
      · rcases h'.2.2 first h.1 h.2.1 with same | after
        · rw [same]
        · exact absurd after before.asymm

theorem Governs.hostOf_eq {host : Option Row} (h : Governs entries.zipIdx row host) :
    hostOf entries row.2 row.1 = host.map (·.2) := by
  obtain ⟨found, place, governs⟩ := governs_hostOf entries row
  rw [← place, governs.unique h]

theorem Governs.of_hostOf {place : Nat} (h : hostOf entries row.2 row.1 = some place) :
    ∃ host, host.2 = place ∧ Governs entries.zipIdx row (some host) := by
  obtain ⟨found, same, governs⟩ := governs_hostOf entries row
  rw [h] at same
  obtain ⟨host, rfl, place⟩ := Option.map_eq_some_iff.mp same
  exact ⟨host, place, governs⟩

end Hosts

theorem pairwise_mergeSort {α : Type} {key : α → Nat} {R : α → α → Prop} {l : List α}
    (ordered : l.Pairwise R) :
    (l.mergeSort fun a b => key a ≤ key b).Pairwise fun a b =>
      key a < key b ∨ key a = key b ∧ R a b := by
  have trans : ∀ a b c : α, decide (key a ≤ key b) = true → decide (key b ≤ key c) = true →
      decide (key a ≤ key c) = true := by
    simp only [decide_eq_true_eq]
    omega
  have total : ∀ a b : α, (decide (key a ≤ key b) || decide (key b ≤ key a)) = true := by
    simp only [Bool.or_eq_true, decide_eq_true_eq]
    omega
  have sorted := List.pairwise_mergeSort trans total l
  -- Those with one key stand in the sorted list as they stood before.
  have kept (k : Nat) : (l.mergeSort fun a b => key a ≤ key b).filter (key · = k) =
      l.filter (key · = k) := by
    have level : (l.filter (key · = k)).Pairwise fun a b => decide (key a ≤ key b) = true := by
      refine List.pairwise_of_forall_mem_list ?_
      intro a ha b hb
      simp only [List.mem_filter, decide_eq_true_eq] at ha hb ⊢
      omega
    have inside := (List.sublist_mergeSort trans total level List.filter_sublist).filter (key · = k)
    rw [List.filter_filter] at inside
    simp only [Bool.and_self] at inside
    exact (inside.eq_of_length ((List.mergeSort_perm _ _).symm.filter _).length_eq).symm
  rw [List.pairwise_iff_forall_sublist]
  intro a b pair
  have le := List.pairwise_iff_forall_sublist.mp sorted pair
  simp only [decide_eq_true_eq] at le
  rcases Nat.lt_or_eq_of_le le with less | same
  · exact .inl less
  · have both := pair.filter (key · = key a)
    rw [kept] at both
    simp only [same, decide_true, List.filter_cons_of_pos, List.filter_nil] at both
    exact .inr ⟨same, List.pairwise_iff_forall_sublist.mp ordered
      (both.trans List.filter_sublist)⟩

structure Twig where
  host : Option Nat
  row : Row
  children : Grove

namespace Twig

def branch (twig : Twig) : Branch :=
  ⟨twig.host, { twig.row.1 with schema := twig.row.1.schema.onHost twig.children.insertInto }⟩

def rows (twig : Twig) : List Row := twig.row :: twig.children.rows

end Twig

namespace Grove

def ofTwigs : List Twig → Grove
  | [] => .nil
  | twig :: rest => .cons twig.row twig.children (ofTwigs rest)

def arrange (twigs : List Twig) : Grove :=
  ofTwigs (twigs.mergeSort (·.row.1.indent ≤ ·.row.1.indent))

theorem tops_ofTwigs (twigs : List Twig) : (ofTwigs twigs).tops = twigs.map (·.row) := by
  induction twigs with
  | nil => rfl
  | cons twig rest ih => rw [ofTwigs, tops, ih, List.map_cons]

theorem rows_ofTwigs (twigs : List Twig) : (ofTwigs twigs).rows = twigs.flatMap Twig.rows := by
  induction twigs with
  | nil => rfl
  | cons twig rest ih => rw [ofTwigs, rows, ih, List.flatMap_cons, Twig.rows, List.cons_append]

theorem rows_arrange (twigs : List Twig) : (arrange twigs).rows.Perm (twigs.flatMap Twig.rows) := by
  rw [arrange, rows_ofTwigs]
  exact (List.mergeSort_perm _ _).flatMap_right _

theorem placed_ofTwigs {table : List Row} {host : Option Row} {twigs : List Twig}
    (governs : ∀ twig ∈ twigs, Governs table twig.row host)
    (inside : ∀ twig ∈ twigs, twig.children.Placed table (some twig.row))
    (ordered : twigs.Pairwise fun a b => Precedes a.row b.row) :
    (ofTwigs twigs).Placed table host := by
  induction twigs with
  | nil => trivial
  | cons twig rest ih =>
    obtain ⟨first, later⟩ := List.pairwise_cons.mp ordered
    obtain ⟨own, governsRest⟩ := List.forall_mem_cons.mp governs
    obtain ⟨children, insideRest⟩ := List.forall_mem_cons.mp inside
    refine ⟨own, ?_, children, ih governsRest insideRest later⟩
    intro other mem
    rw [tops_ofTwigs] at mem
    obtain ⟨next, known, rfl⟩ := List.mem_map.mp mem
    exact first next known

theorem placed_arrange {table : List Row} {host : Option Row} {twigs : List Twig}
    (governs : ∀ twig ∈ twigs, Governs table twig.row host)
    (inside : ∀ twig ∈ twigs, twig.children.Placed table (some twig.row))
    (ordered : twigs.Pairwise fun a b => a.row.2 < b.row.2) :
    (arrange twigs).Placed table host := by
  refine placed_ofTwigs ?_ ?_ (pairwise_mergeSort ordered)
  · exact fun twig mem => governs twig (List.mem_mergeSort.mp mem)
  · exact fun twig mem => inside twig (List.mem_mergeSort.mp mem)

theorem insertInto_ofTwigs (twigs : List Twig) (shape : Shape) :
    (ofTwigs twigs).insertInto shape =
      (twigs.map fun twig => twig.branch.entry).foldl insertEntry shape := by
  induction twigs generalizing shape with
  | nil => rfl
  | cons twig rest ih => exact ih _

theorem insertAll_branches (twigs : List Twig) (shape : Shape) :
    insertAll shape (twigs.map fun twig => twig.branch.entry) = (arrange twigs).insertInto shape := by
  have sorted := List.map_mergeSort (f := fun twig : Twig => twig.branch.entry) (l := twigs)
    (r := (·.row.1.indent ≤ ·.row.1.indent)) (s := (·.indent ≤ ·.indent)) (fun _ _ _ _ => rfl)
  rw [arrange, insertInto_ofTwigs, sorted, insertAll]

end Grove

def plant (entries : List Entry) (row : Row) (later : List Twig) : List Twig :=
  ⟨hostOf entries row.2 row.1, row, .arrange (later.filter (·.host == some row.2))⟩ ::
    later.filter (·.host != some row.2)

theorem entriesOf_branches (host : Option Nat) (twigs : List Twig) :
    entriesOf host (twigs.map Twig.branch) =
      (twigs.filter (·.host == host)).map fun twig => twig.branch.entry := by
  rw [entriesOf, List.filter_map, List.map_map]
  rfl

theorem branch_plant (entries : List Entry) (row : Row) (later : List Twig) :
    branch entries row (later.map Twig.branch) = (plant entries row later).map Twig.branch := by
  have others : (later.map Twig.branch).filter (·.host != some row.2) =
      (later.filter (·.host != some row.2)).map Twig.branch := by
    rw [List.filter_map]
    rfl
  have own : (insertAll · ((later.filter (·.host == some row.2)).map fun twig => twig.branch.entry)) =
      (Grove.arrange (later.filter (·.host == some row.2))).insertInto :=
    funext fun shape => Grove.insertAll_branches _ shape
  rw [plant, branch, List.map_cons, others, entriesOf_branches]
  dsimp only
  rw [own]
  rfl

structure Planted (entries : List Entry) (table : List Row) (twigs : List Twig) : Prop where
  rows : (twigs.flatMap Twig.rows).Perm table
  hosts : ∀ twig ∈ twigs, twig.host = hostOf entries twig.row.2 twig.row.1
  inside : ∀ twig ∈ twigs, twig.children.Placed entries.zipIdx (some twig.row)
  ordered : twigs.Pairwise fun a b => a.row.2 < b.row.2
  outer : ∀ twig ∈ twigs, ∀ place ∈ twig.host, ∀ row ∈ table, place ≠ row.2

namespace Planted

variable {entries : List Entry} {table : List Row} {twigs : List Twig}

theorem row_mem (h : Planted entries table twigs) {twig : Twig} (mem : twig ∈ twigs) :
    twig.row ∈ table :=
  h.rows.mem_iff.mp (List.mem_flatMap.mpr ⟨twig, mem, by simp [Twig.rows]⟩)

theorem plant (h : Planted entries table twigs) {row : Row} (known : row ∈ entries.zipIdx)
    (first : ∀ other ∈ table, row.2 < other.2) :
    Planted entries (row :: table) (plant entries row twigs) := by
  have kept : ∀ twig ∈ twigs.filter (·.host != some row.2), twig ∈ twigs ∧ twig.host ≠ some row.2 := by
    intro twig mem
    simpa using mem
  have own : ∀ twig ∈ twigs.filter (·.host == some row.2), twig ∈ twigs ∧ twig.host = some row.2 := by
    intro twig mem
    simpa using mem
  constructor
  · -- The rows of the twigs that are taken in are those of the new twig.
    have split : ((twigs.filter (·.host == some row.2)).flatMap Twig.rows ++
        (twigs.filter (·.host != some row.2)).flatMap Twig.rows).Perm table := by
      rw [← List.flatMap_append]
      exact ((List.filter_append_perm (·.host == some row.2) twigs).flatMap_right _).trans h.rows
    exact (((Grove.rows_arrange _).append_right _).trans split).cons row
  · refine List.forall_mem_cons.mpr ⟨rfl, ?_⟩
    exact fun twig mem => h.hosts twig (kept twig mem).1
  · refine List.forall_mem_cons.mpr ⟨?_, fun twig mem => h.inside twig (kept twig mem).1⟩
    refine Grove.placed_arrange ?_ (fun twig mem => h.inside twig (own twig mem).1)
      (h.ordered.sublist List.filter_sublist)
    intro twig mem
    obtain ⟨old, same⟩ := own twig mem
    obtain ⟨host, place, governs⟩ := Governs.of_hostOf ((h.hosts twig old).symm.trans same)
    -- A place is that of one row, so the host that was found is this one.
    rwa [place_eq (pairwise_zipIdx entries 0) governs.1 known place] at governs
  · refine List.pairwise_cons.mpr ⟨?_, h.ordered.sublist List.filter_sublist⟩
    exact fun twig mem => first twig.row (h.row_mem (kept twig mem).1)
  · refine List.forall_mem_cons.mpr ⟨?_, ?_⟩
    · intro place found other mem
      -- Its own host stands before it, and so before all rows of the table.
      obtain ⟨host, rfl, governs⟩ := Governs.of_hostOf found
      have earlier := governs.2.1.earlier
      rcases List.mem_cons.mp mem with rfl | mem
      · exact Nat.ne_of_lt earlier
      · exact Nat.ne_of_lt (Nat.lt_trans earlier (first other mem))
    · intro twig mem place found other otherMem
      obtain ⟨old, others⟩ := kept twig mem
      rcases List.mem_cons.mp otherMem with rfl | otherMem
      · rintro rfl
        exact others found
      · exact h.outer twig old place found other otherMem

theorem foldr_plant {rows : List Row} (known : ∀ row ∈ rows, row ∈ entries.zipIdx)
    (ordered : rows.Pairwise (·.2 < ·.2)) :
    Planted entries rows (rows.foldr (Outline.plant entries) []) := by
  induction rows with
  | nil => exact ⟨.nil, by simp, by simp, .nil, by simp⟩
  | cons row rest ih =>
    obtain ⟨own, knownRest⟩ := List.forall_mem_cons.mp known
    obtain ⟨first, orderedRest⟩ := List.pairwise_cons.mp ordered
    exact (ih knownRest orderedRest).plant own first

theorem host_eq_none (h : Planted entries entries.zipIdx twigs) :
    ∀ twig ∈ twigs, twig.host = none := by
  intro twig mem
  cases found : twig.host with
  | none => rfl
  | some place =>
    obtain ⟨host, same, governs⟩ := Governs.of_hostOf ((h.hosts twig mem).symm.trans found)
    exact absurd same.symm (h.outer twig mem place found host governs.1)

end Planted

-- The definitions of a text laid out: each is in the grove once, inside the host that governs it,
-- with those of one host in their order.
structure Grove.Arranged (entries : List Entry) (grove : Grove) : Prop where
  rows : grove.rows.Perm entries.zipIdx
  placed : grove.Placed entries.zipIdx none

theorem foldr_branch (entries : List Entry) (rows : List Row) :
    rows.foldr (branch entries) [] = (rows.foldr (plant entries) []).map Twig.branch := by
  induction rows with
  | nil => rfl
  | cons row rest ih => rw [List.foldr_cons, ih, branch_plant, List.foldr_cons]

theorem host_of_mem_branches {entries : List Entry} :
    ∀ branch ∈ branches entries, branch.host = none := by
  have planted := Planted.foldr_plant (fun _ mem => mem) (pairwise_zipIdx entries 0)
  intro branch mem
  rw [branches, foldr_branch] at mem
  obtain ⟨twig, known, rfl⟩ := List.mem_map.mp mem
  exact planted.host_eq_none twig known

theorem nest_eq_grove (entries : List Entry) :
    ∃ grove : Grove, grove.Arranged entries ∧ nest entries = grove.insertInto .empty := by
  have planted := Planted.foldr_plant (fun _ mem => mem) (pairwise_zipIdx entries 0)
  have all := planted.host_eq_none
  refine ⟨.arrange (entries.zipIdx.foldr (plant entries) []), ⟨?_, ?_⟩, ?_⟩
  · exact (Grove.rows_arrange _).trans planted.rows
  · refine Grove.placed_arrange ?_ planted.inside planted.ordered
    intro twig mem
    obtain ⟨host, place, governs⟩ := governs_hostOf entries twig.row
    rw [← planted.hosts twig mem, all twig mem] at place
    rwa [Option.map_eq_none_iff.mp place] at governs
  · -- Once all rows are there, no twig waits for a host that is still to come.
    have top : (entries.zipIdx.foldr (plant entries) []).filter (·.host == none) =
        entries.zipIdx.foldr (plant entries) [] := by
      rw [List.filter_eq_self]
      intro twig mem
      simp [all twig mem]
    rw [nest, branches, foldr_branch, entriesOf_branches, top, Grove.insertAll_branches]

section Names

variable {entries : List Entry}

def Entry.ownNames (entry : Entry) : List Text :=
  entry.schema.host?.elim [] fun own => own.properties.map Prod.fst

def landing (entries : List Entry) (host : Option Nat) : List Row :=
  entries.zipIdx.filter fun row => hostOf entries row.2 row.1 == host

-- No two definitions that land in one host share a name, be they lines of their own or written
-- inline in the host.
structure Distinct (entries : List Entry) : Prop where
  top : ((landing entries none).map (·.1.name)).Nodup
  inside : ∀ row ∈ entries.zipIdx,
    (row.1.ownNames ++ (landing entries (some row.2)).map (·.1.name)).Nodup

namespace Grove

def Apart : Grove → Prop
  | .nil => True
  | .cons row children rest =>
    (row.1.ownNames ++ children.tops.map (·.1.name)).Nodup ∧ children.Apart ∧ rest.Apart

theorem Placed.pairwise {table : List Row} {host : Option Row} {grove : Grove}
    (h : grove.Placed table host) : grove.tops.Pairwise Precedes := by
  induction grove with
  | nil => exact .nil
  | cons row children rest _ later => exact List.pairwise_cons.mpr ⟨h.2.1, later h.2.2.2⟩

theorem Placed.nodup_tops {table : List Row} {host : Option Row} {grove : Grove}
    (h : grove.Placed table host) : grove.tops.Nodup := by
  refine h.pairwise.imp ?_
  rintro first second before rfl
  exact before.asymm before

theorem Placed.nodup_names {host : Option Row} {grove : Grove}
    (placed : grove.Placed entries.zipIdx host) (known : ∀ row ∈ grove.rows, row ∈ entries.zipIdx)
    {own : List Text} (distinct : (own ++ (landing entries (host.map (·.2))).map (·.1.name)).Nodup) :
    (own ++ grove.tops.map (·.1.name)).Nodup := by
  have landed : ∀ row ∈ grove.tops, row ∈ landing entries (host.map (·.2)) := by
    intro row mem
    refine List.mem_filter.mpr ⟨known row (mem_rows_of_mem_tops mem), ?_⟩
    rw [(placed.governs row mem).hostOf_eq, beq_self_eq_true]
  obtain ⟨some, perm, inside⟩ := List.Nodup.subperm placed.nodup_tops landed
  have fewer := distinct.sublist ((inside.map (·.1.name)).append_left own)
  exact ((perm.map _).append_left own).nodup_iff.mp fewer

theorem Placed.apart {host : Option Row} {grove : Grove}
    (placed : grove.Placed entries.zipIdx host) (known : ∀ row ∈ grove.rows, row ∈ entries.zipIdx)
    (distinct : Distinct entries) : grove.Apart := by
  induction grove generalizing host with
  | nil => trivial
  | cons row children rest inner later =>
    obtain ⟨-, -, childrenPlaced, restPlaced⟩ := placed
    have knownChildren : ∀ other ∈ children.rows, other ∈ entries.zipIdx :=
      fun other mem => known other (by simp [rows, mem])
    refine ⟨?_, inner childrenPlaced knownChildren, ?_⟩
    · exact childrenPlaced.nodup_names knownChildren (distinct.inside row (known row (by simp [rows])))
    · exact later restPlaced fun other mem => known other (by simp [rows, mem])

theorem insertInto_eq_addTo {grove : Grove} (apart : grove.Apart)
    (keyed : ∀ row ∈ grove.rows, ∀ own ∈ row.1.schema.host?, own.Keyed) {shape : Shape}
    (names : (shape.properties.map Prod.fst ++ grove.tops.map (·.1.name)).Nodup)
    (shapeKeyed : shape.Keyed) : grove.insertInto shape = grove.addTo shape := by
  induction grove generalizing shape with
  | nil => simp [insertInto, addTo, properties, tops]
  | cons row children rest inner later =>
    obtain ⟨childNames, childrenApart, restApart⟩ := apart
    -- What the definition has of itself does not collide with what is inserted there.
    have filled : row.1.schema.onHost children.insertInto = row.1.schema.onHost children.addTo := by
      refine Schema.onHost_congr fun own found => ?_
      refine inner childrenApart (fun other mem => keyed other (by simp [rows, mem])) ?_
        (keyed row (by simp [rows]) own found)
      have same : row.1.ownNames = own.properties.map Prod.fst := by
        rw [Entry.ownNames, Option.mem_def.mp found, Option.elim_some]
      rwa [← same]
    rw [tops, List.map_cons] at names
    obtain ⟨-, -, differ⟩ := List.nodup_append.mp names
    have fresh : row.1.name ∉ shape.properties.map Prod.fst :=
      fun mem => differ _ mem _ List.mem_cons_self rfl
    have grown := Shape.insert_of_not_mem fresh (fun mem => fresh (shapeKeyed.known mem))
      (row.1.schema.onHost children.addTo) row.1.required
    have more := shapeKeyed.insert row.1.name (row.1.schema.onHost children.addTo) row.1.required
    rw [insertInto, insertEntry, filled]
    rw [grown] at more ⊢
    rw [later restApart (fun other mem => keyed other (by simp [rows, mem])) (by simpa using names) more]
    cases needed : row.1.required <;> simp [addTo, properties_cons, tops, needed]

end Grove

end Names

theorem Definition.inner_resolved (definition : Definition) : definition.resolved.schema.All Inner :=
  inner_document (sound_read _) (unfilled_schema _)

def entriesIn (t : Text) : List Entry := (scan t).definitions.map Definition.resolved

theorem keyed_of_mem_entriesIn {t : Text} {entry : Entry} (h : entry ∈ entriesIn t) :
    ∀ own ∈ entry.schema.host?, own.Keyed := by
  intro own found
  obtain ⟨definition, -, rfl⟩ := List.mem_map.mp h
  obtain ⟨inner, sound, here⟩ := definition.inner_resolved.host found
  exact sound.1.required own here

theorem Grove.Arranged.insertInto {t : Text} {grove : Grove} (arranged : grove.Arranged (entriesIn t))
    (distinct : Distinct (entriesIn t)) : grove.insertInto .empty = grove.addTo .empty := by
  have known : ∀ row ∈ grove.rows, row ∈ (entriesIn t).zipIdx := fun row mem =>
    arranged.rows.mem_iff.mp mem
  refine Grove.insertInto_eq_addTo (arranged.placed.apart known distinct) ?_ ?_ Shape.keyed_empty
  · intro row mem
    exact keyed_of_mem_entriesIn (List.fst_mem_of_mem_zipIdx (known row mem))
  · exact arranged.placed.nodup_names known distinct.top

theorem shape_read (t : Text) : ∃ grove : Grove, grove.Arranged (entriesIn t) ∧
    (read t).shape =
      if (scan t).definitions = [] then none else some (grove.insertInto .empty) := by
  obtain ⟨grove, arranged, nested⟩ := nest_eq_grove (entriesIn t)
  refine ⟨grove, arranged, ?_⟩
  rw [← nested, read_eq]
  split <;> rfl

/-- The definition lines of a text all come out, each once: every definition stands inside the last
of the earlier, shallower ones that can have properties, and no definition is left over. -/
theorem read_arranges_definitions (t : Text) :
    (scan t).definitions.map Definition.opening = (Text.lines t).filterMap opening? ∧
      (∀ row ∈ (entriesIn t).zipIdx, ∃ host : Option Row,
        host.map (·.2) = hostOf (entriesIn t) row.2 row.1 ∧ Governs (entriesIn t).zipIdx row host) ∧
      (∀ branch ∈ branches (entriesIn t), branch.host = none) ∧
      ∃ grove : Grove, grove.Arranged (entriesIn t) ∧
        (read t).shape =
          (if (scan t).definitions = [] then none else some (grove.insertInto .empty)) ∧
        (Distinct (entriesIn t) → grove.insertInto .empty = grove.addTo .empty) := by
  obtain ⟨grove, arranged, shape⟩ := shape_read t
  exact ⟨openings_scan t, fun row _ => governs_hostOf _ row, host_of_mem_branches,
    grove, arranged, shape, arranged.insertInto⟩

namespace Forest

def requestText : Text :=
  "The request.\n- user (dict): The user.\n   Must be known.\n    \"age\" (int, optional): In years."

theorem entriesIn_requestText : entriesIn requestText = request.entries (4 * ·) 0 := by
  have scanned : (scan requestText).definitions = request.definitions (4 * ·) 0 := by
    decide +kernel
  rw [entriesIn, scanned, resolved_definitions fits_request]

theorem distinct_requestText : Distinct (entriesIn requestText) := by
  rw [entriesIn_requestText]
  simp only [request, entries, Label.value_user, Label.value_age]
  exact ⟨by decide +kernel, by decide +kernel⟩

end Forest

theorem read_arranges_requestText :
    Distinct (entriesIn Forest.requestText) ∧
      ∃ grove : Grove, grove.Arranged (entriesIn Forest.requestText) ∧
        (read Forest.requestText).shape = some (grove.addTo .empty) := by
  obtain ⟨-, -, -, grove, arranged, shape, direct⟩ := read_arranges_definitions Forest.requestText
  have some : (scan Forest.requestText).definitions ≠ [] := by decide +kernel
  rw [if_neg some, direct Forest.distinct_requestText] at shape
  exact ⟨Forest.distinct_requestText, grove, arranged, shape⟩

end CallSchema.Outline
