import CallSchema.Action

set_option autoImplicit false

namespace CallSchema

-- A program that goes on one call to the file system at a time. Between two of its steps the files
-- may change in other ways, so that what it has seen before need not hold any more.
inductive Steps (α : Type) where
  | done (result : Except Failure α)
  -- Both the change and the rest of the program depend on the files as they are before the step.
  | step (move : FileTree → FileTree) (next : FileTree → Steps α)

namespace Steps

variable {α β : Type}

def bind : Steps α → (α → Steps β) → Steps β
  | done (.ok a), f => f a
  | done (.error failure), _ => done (.error failure)
  | step move next, f => step move fun tree => (next tree).bind f

instance : Monad Steps where
  pure a := done (.ok a)
  bind := bind

def one (action : Action α) : Steps α :=
  step (fun tree => (action tree).2) fun tree => done (action tree).1

def look (f : FileTree → Except Failure α) : Steps α := one (Action.look f)

-- The answer is left to the program, also where it is an error.
def call (f : FileTree → α × FileTree) : Steps α := one fun tree => (.ok (f tree).1, (f tree).2)

def orNothing : Steps (List α) → Steps (List α)
  | done result => done (.ok (result.toOption.getD []))
  | step move next => step move fun tree => (next tree).orNothing

def forEach (f : α → Steps (List β)) : List α → Steps (List β)
  | [] => pure []
  | thing :: rest => do
    let results ← f thing
    return results ++ (← forEach f rest)

-- All steps at once.
def run : Steps α → Action α
  | done result => fun tree => (result, tree)
  | step move next => fun tree => (next tree).run (move tree)

end Steps

end CallSchema
