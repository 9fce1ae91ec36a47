import CallSchema.Callable.Basic

set_option autoImplicit false

namespace CallSchema

structure Session where
  root : Path
  -- The texts read so far, by the paths of their files.
  texts : List (List Text × Text)

namespace Session

def start (root : Path) : Session := ⟨root, []⟩

def key (path : Path) : List Text := (if path.isAbsolute then ['/'] else []) :: path.names

-- The text of a file, which is kept. What cannot be read is not kept.
def text (session : Session) (tree : FileTree) (path : Path) : Except Cause Text × Session :=
  match Table.get? (key path) session.texts with
  | some kept => (.ok kept, session)
  | none =>
    match tree.readText path with
    -- Nothing is ever taken out again, even when the file is changed or removed.
    | .ok t => (.ok t, { session with texts := Table.put (key path) t session.texts })
    | .error cause => (.error cause, session)

def resolve (session : Session) (tree : FileTree) (location : Text) :
    Except Failure Callable × Session :=
  match DottedLocation.sourceFile? tree.isFile session.root location with
  | none => (.error (.unresolvable location), session)
  | some file =>
    match session.text tree file with
    | (.ok source, session) => (Callable.ofSource location file source, session)
    | (.error cause, session) => (.error (.io file cause), session)

def compile (session : Session) (tree : FileTree) (name location : Text) :
    Except Failure FunctionSchema × Session :=
  let (callable, session) := session.resolve tree location
  let lookup : Lookup := fun _ => callable.map Callable.documentation
  (Compilation.function lookup name location, session)

-- The files of a tree as the session sees them: a text that it has kept stands for the one in the
-- tree.
def sources (session : Session) (tree : FileTree) : SourceView where
  isFile := tree.isFile
  text path := ((Table.get? (key path) session.texts).map .ok).getD (tree.readText path)

end Session

end CallSchema
