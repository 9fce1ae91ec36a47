import CallSchema.Outline.Scan
import CallSchema.Schema.Basic

set_option autoImplicit false

namespace CallSchema.Outline

structure Entry where
  indent : Nat
  name : Text
  schema : Schema
  required : Bool

structure Branch where
  host : Option Nat
  entry : Entry

def hostOf (entries : List Entry) (position : Nat) (entry : Entry) : Option Nat :=
  governing (·.indent) (·.schema.hosts) entry.indent (entries.take position)

def insertEntry (shape : Shape) (entry : Entry) : Shape :=
  shape.insert entry.name entry.schema entry.required

def insertAll (shape : Shape) (entries : List Entry) : Shape :=
  (entries.mergeSort (·.indent ≤ ·.indent)).foldl insertEntry shape

def entriesOf (host : Option Nat) (branches : List Branch) : List Entry :=
  (branches.filter (·.host == host)).map (·.entry)

-- An entry takes in the later branches that belong to it, and becomes a branch.
def branch (entries : List Entry) (row : Entry × Nat) (later : List Branch) : List Branch :=
  let own := entriesOf (some row.2) later
  let whole := { row.1 with schema := row.1.schema.onHost (insertAll · own) }
  ⟨hostOf entries row.2 row.1, whole⟩ :: later.filter (·.host != some row.2)

def branches (entries : List Entry) : List Branch :=
  entries.zipIdx.foldr (branch entries) []

def nest (entries : List Entry) : Shape := insertAll .empty (entriesOf none (branches entries))

end CallSchema.Outline
