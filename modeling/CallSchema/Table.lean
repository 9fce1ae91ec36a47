import CallSchema.Text.Basic

set_option autoImplicit false

namespace CallSchema.Table

variable {κ α : Type} [DecidableEq κ]

def put (key : κ) (value : α) : List (κ × α) → List (κ × α)
  | [] => [(key, value)]
  | entry :: rest => if entry.1 = key then (key, value) :: rest else entry :: put key value rest

def get? (key : κ) (table : List (κ × α)) : Option α :=
  (table.find? (·.1 = key)).map (·.2)

-- The table of a list of entries: a later value of a key replaces an earlier one in its place.
def ofEntries (entries : List (κ × α)) : List (κ × α) :=
  entries.foldl (fun table entry => put entry.1 entry.2 table) []

end CallSchema.Table
