import CallSchema.Failure
import CallSchema.FileTree.Change

set_option autoImplicit false

namespace CallSchema

abbrev Action := ExceptT Failure (StateM FileTree)

namespace Action

variable {α : Type}

def look (f : FileTree → Except Failure α) : Action α := fun tree => (f tree, tree)

def change (path : Path) (f : FileTree.Change) : Action Unit := fun tree =>
  ((f tree).1.mapError (Failure.io path), (f tree).2)

def orNothing (action : Action (List α)) : Action (List α) := fun tree =>
  (.ok ((action tree).1.toOption.getD []), (action tree).2)

def forEach {β : Type} (f : α → Action (List β)) : List α → Action (List β)
  | [] => pure []
  | thing :: rest => do
    let results ← f thing
    return results ++ (← forEach f rest)

end Action

end CallSchema
