import CallSchema.Text.Basic

set_option autoImplicit false

namespace CallSchema

structure Path where
  text : Text
  deriving DecidableEq, Repr

namespace Path

def isAbsolute (path : Path) : Bool := path.text.head? == some '/'

def segments (path : Path) : List Text := Text.pieces '/' path.text

def names (path : Path) : List Text := path.segments.filter fun name => name ≠ [] ∧ name ≠ ['.']

def join (base : Path) (rest : Text) : Path :=
  if rest.head? = some '/' then ⟨rest⟩
  else if base.text = [] ∨ base.text.getLast? = some '/' then ⟨base.text ++ rest⟩
  else ⟨base.text ++ '/' :: rest⟩

-- A reversed path without slashes and dots that lead nowhere at its end.
def dropIdle : Text → Text
  | '/' :: t => dropIdle t
  | '.' :: '/' :: t => dropIdle t
  | t => t

def splitLast? (path : Path) : Option (Text × Text) :=
  let backwards := dropIdle path.text.reverse
  let name := (backwards.takeWhile (· ≠ '/')).reverse
  if name.isEmpty then none else some ((backwards.dropWhile (· ≠ '/')).reverse, name)

def fileName? (path : Path) : Option Text :=
  (path.splitLast?.map (·.2)).filter fun name => name ≠ ['.'] ∧ name ≠ ['.', '.']

def parent? (path : Path) : Option Path :=
  path.splitLast?.map fun parts =>
    let rest := (dropIdle parts.1.reverse).reverse
    if rest.isEmpty && path.isAbsolute then ⟨['/']⟩ else ⟨rest⟩

def stemOf (name : Text) : Text :=
  match Text.splitLast? ['.'] name with
  | some (c :: before, _) => c :: before
  | _ => name

def stem? (path : Path) : Option Text := path.fileName?.map stemOf

def withExtension (path : Path) (extension : Text) : Path :=
  match path.splitLast? with
  | some (before, name) =>
    if path.fileName?.isSome then ⟨before ++ stemOf name ++ '.' :: extension⟩ else path
  | none => path

-- Where the names of a path start: the root, which may be written with exactly two slashes, or the
-- current directory.
def start (current path : Path) : Path :=
  match path.text with
  -- Three slashes or more count as one.
  | '/' :: '/' :: '/' :: _ => ⟨['/']⟩
  | '/' :: '/' :: _ => ⟨['/', '/']⟩
  | '/' :: _ => ⟨['/']⟩
  | _ => current

def absolute (current path : Path) : Path :=
  let whole := path.names.foldl join (start current path)
  if path.text.getLast? = some '/' then whole.join [] else whole

end Path

end CallSchema
