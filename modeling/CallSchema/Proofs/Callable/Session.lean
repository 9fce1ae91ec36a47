import CallSchema.Callable.Session
import CallSchema.Proofs.Callable.Defaults
import CallSchema.Proofs.Callable.Location
import CallSchema.Proofs.FileTree.Change

set_option autoImplicit false

namespace CallSchema

/-! ### Recalled texts -/

namespace Entry

def recalled (text : Option Text) : Entry → Entry
  | .directory => .directory
  | .file content => .file ((text.map .text).getD content)

@[simp] theorem isSome_recalled (text : Option Text) (found : Option Entry) :
    (found.map (recalled text)).isSome = found.isSome := by
  simp

end Entry

namespace FileTree

variable {tree other : FileTree} {texts : Location → Option Text} {path : Path}
  {location : Location}

-- The same files and directories; the files of which a text is remembered hold that text.
def recalling (tree : FileTree) (texts : Location → Option Text) : FileTree :=
  { tree with entries := tree.entries.map fun entry =>
      (entry.1, Entry.recalled (texts entry.1) entry.2) }

theorem find?_recalling (location : Location) : (tree.recalling texts).find? location =
    (tree.find? location).map (Entry.recalled (texts location)) := by
  unfold find? recalling
  split
  · rfl
  · induction tree.entries with
    | nil => rfl
    | cons entry rest ih =>
      by_cases same : entry.1 = location
      · simp [Table.get?, same]
      · simpa [Table.get?, same] using ih

theorem step_recalling (location : Location) (name : Text) :
    (tree.recalling texts).step location name = tree.step location name := by
  unfold step
  simp only [find?_recalling, Entry.isSome_recalled]
  cases tree.find? location with
  | none => rfl
  | some entry => cases entry <;> rfl

theorem locate_recalling (path : Path) : (tree.recalling texts).locate path = tree.locate path := by
  have same : (tree.recalling texts).step = tree.step := funext₂ step_recalling
  simp only [locate, same]
  rfl

theorem isFile_recalling (path : Path) : (tree.recalling texts).isFile path = tree.isFile path := by
  unfold isFile entry?
  rw [locate_recalling]
  cases tree.locate path with
  | error cause => rfl
  | ok location =>
    simp only [find?_recalling]
    cases tree.find? location with
    | none => rfl
    | some entry => cases entry <;> rfl

theorem exists_content_of_isFile (there : tree.isFile path = true) :
    tree.locate path = .ok (tree.place path) ∧
      ∃ content, tree.find? (tree.place path) = some (.file content) := by
  obtain ⟨location, located, file⟩ := isFile_iff.mp there
  obtain rfl := eq_place_of_locate located
  exact ⟨located, isSome_content?_iff.mp file⟩

theorem readText_recalling (there : tree.isFile path = true) :
    (tree.recalling texts).readText path =
      ((texts (tree.place path)).map .ok).getD (tree.readText path) := by
  obtain ⟨located, content, found⟩ := exists_content_of_isFile there
  simp only [readText, read, locate_recalling, located, find?_recalling, found, bind, Except.bind,
    Option.map_some, Entry.recalled]
  cases texts (tree.place path) <;> rfl

theorem readText_of_place {second : Path} {text : Text} (there : tree.isFile path = true)
    (same : tree.place second = tree.place path) (read : tree.readText second = .ok text) :
    tree.readText path = .ok text := by
  obtain ⟨located, content, found⟩ := exists_content_of_isFile there
  cases reached : tree.locate second with
  | error cause => simp [readText, FileTree.read, reached, bind, Except.bind] at read
  | ok location =>
    rw [eq_place_of_locate reached, same] at reached
    rw [← read]
    simp only [readText, FileTree.read, located, reached]

end FileTree

/-! ### Sessions and what they have read -/

namespace Callable

theorem resolve_congr {sources other : SourceView} {root : Path} {location : Text}
    (file : DottedLocation.sourceFile? other.isFile root location =
      DottedLocation.sourceFile? sources.isFile root location)
    (text : ∀ file, DottedLocation.sourceFile? sources.isFile root location = some file →
      other.text file = sources.text file) :
    resolve other root location = resolve sources root location := by
  unfold resolve
  rw [file]
  cases found : DottedLocation.sourceFile? sources.isFile root location with
  | none => rfl
  | some file => simp only [text file found]

end Callable

namespace DottedLocation

theorem of_sourceFile? {isFile : Path → Bool} {root file : Path} {location : Text}
    (h : sourceFile? isFile root location = some file) :
    file ∈ candidates root location ∧ isFile file = true :=
  ⟨List.mem_of_find?_eq_some h, by simpa using List.find?_some h⟩

theorem find?_eq_of_found {α : Type} {first second : α → Bool} {things : List α}
    (there : ∀ thing, things.find? first = some thing → second thing = true)
    (back : ∀ thing, things.find? second = some thing → first thing = true) :
    things.find? second = things.find? first := by
  induction things with
  | nil => rfl
  | cons thing rest ih =>
    by_cases known : first thing = true
    · have also := there thing (by simp [known])
      simp [known, also]
    · have never : second thing ≠ true := fun also => known (back thing (by simp [also]))
      simp only [List.find?_cons, known, never] at there back ⊢
      exact ih there back

end DottedLocation

theorem Callable.resolve_eq_of_agreeOn {tree other : FileTree} {root : Path} {location : Text}
    (here : ∀ file, DottedLocation.sourceFile? tree.isFile root location = some file →
      FileTree.AgreeOn tree other file)
    (there : ∀ file, DottedLocation.sourceFile? other.isFile root location = some file →
      FileTree.AgreeOn tree other file) :
    resolve other.sources root location = resolve tree.sources root location := by
  refine resolve_congr (DottedLocation.find?_eq_of_found ?_ ?_) fun file found => ?_
  · intro file found
    exact (here file found).isFile.trans (DottedLocation.of_sourceFile? found).2
  · intro file found
    exact (there file found).isFile.symm.trans (DottedLocation.of_sourceFile? found).2
  · exact (here file found).readText

namespace Session

open DottedLocation (Inside Relative Straight candidates sourceFile?)

variable {session : Session} {tree : FileTree} {root file : Path} {location : Text}

-- What may happen between two questions, and questions themselves.
inductive Event where
  | resolve (location : Text)
  | write (path : Path) (content : Content)
  | makeDirectories (path : Path)
  | remove (path : Path)

namespace Event

def asked? : Event → Option Text
  | resolve location => some location
  | _ => none

def edit : Event → FileTree → FileTree
  | resolve _ => id
  | write path content => fun tree => (FileTree.write path content tree).2
  | makeDirectories path => fun tree => (FileTree.makeDirectories path tree).2
  | remove path => fun tree => (FileTree.remove path tree).2

theorem current_edit (event : Event) (tree : FileTree) :
    (event.edit tree).current = tree.current := by
  cases event with
  | resolve location => rfl
  | write path content =>
    simp only [edit, FileTree.write]
    split <;> rfl
  | makeDirectories path => exact (FileTree.writes_makeDirectories path tree).current
  | remove path =>
    simp only [edit, FileTree.remove]
    split
    · rfl
    · split <;> rfl

end Event

def run : List Event → Session × FileTree → Session × FileTree
  | [], state => state
  | .resolve location :: rest, state => run rest ((state.1.resolve state.2 location).2, state.2)
  | event :: rest, state => run rest (state.1, event.edit state.2)

structure Read where
  file : Path
  place : Location
  text : Text
  deriving DecidableEq

-- What a question reads of a tree, no matter what has been asked before.
def read? (root : Path) (tree : FileTree) (location : Text) : Option Read :=
  (sourceFile? tree.isFile root location).bind fun file =>
    (tree.readText file).toOption.map fun text => ⟨file, tree.place file, text⟩

def reads (root : Path) : List Event → FileTree → List Read
  | [], _ => []
  | event :: rest, tree =>
    (event.asked?.bind (read? root tree)).toList ++ reads root rest (event.edit tree)

def firstText (known : Read → Bool) (history : List Read) : Option Text :=
  (history.find? known).map Read.text

def Remembers (session : Session) (history : List Read) : Prop :=
  ∀ k, Table.get? k session.texts = firstText (key ·.file = k) history

theorem firstText_append (known : Read → Bool) (history more : List Read) :
    firstText known (history ++ more) = (firstText known history).or (firstText known more) := by
  simp only [firstText, List.find?_append]
  cases history.find? known <;> rfl

theorem firstText_congr {known other : Read → Bool} {history : List Read}
    (same : ∀ read ∈ history, known read = other read) :
    firstText known history = firstText other history := by
  induction history with
  | nil => rfl
  | cons read rest ih =>
    have later := ih fun other mem => same other (by simp [mem])
    simp only [firstText, List.find?_cons, same read (by simp)] at later ⊢
    split
    · rfl
    · exact later

theorem exists_of_firstText {known : Read → Bool} {history : List Read} {text : Text}
    (h : firstText known history = some text) :
    ∃ read ∈ history, known read = true ∧ read.text = text := by
  obtain ⟨read, found, rfl⟩ := Option.map_eq_some_iff.mp h
  exact ⟨read, List.mem_of_find?_eq_some found, List.find?_some found, rfl⟩

inductive Answered (session : Session) (tree : FileTree) (location : Text) :
    Except Failure Callable × Session → Prop where
  | lost (nowhere : sourceFile? tree.isFile session.root location = none) :
    Answered session tree location (.error (.unresolvable location), session)
  | kept {file : Path} {text : Text}
    (found : sourceFile? tree.isFile session.root location = some file)
    (known : Table.get? (key file) session.texts = some text) :
    Answered session tree location (Callable.ofSource location file text, session)
  | read {file : Path} {text : Text}
    (found : sourceFile? tree.isFile session.root location = some file)
    (new : Table.get? (key file) session.texts = none) (read : tree.readText file = .ok text) :
    Answered session tree location (Callable.ofSource location file text,
      { session with texts := Table.put (key file) text session.texts })
  | unread {file : Path} {cause : Cause}
    (found : sourceFile? tree.isFile session.root location = some file)
    (new : Table.get? (key file) session.texts = none)
    (failed : tree.readText file = .error cause) :
    Answered session tree location (.error (.io file cause), session)

theorem answered (session : Session) (tree : FileTree) (location : Text) :
    Answered session tree location (session.resolve tree location) := by
  cases found : sourceFile? tree.isFile session.root location with
  | none =>
    simp only [resolve, found]
    exact .lost found
  | some file =>
    cases known : Table.get? (key file) session.texts with
    | some text =>
      simp only [resolve, found, Session.text, known]
      exact .kept found known
    | none =>
      cases read : tree.readText file with
      | ok text =>
        simp only [resolve, found, Session.text, known, read]
        exact .read found known read
      | error cause =>
        simp only [resolve, found, text, known, read]
        exact .unread found known read

theorem root_resolve (session : Session) (tree : FileTree) (location : Text) :
    (session.resolve tree location).2.root = session.root := by
  have ways := session.answered tree location
  generalize session.resolve tree location = done at ways
  cases ways <;> rfl

theorem read?_of_ok {text : Text} (found : sourceFile? tree.isFile root location = some file)
    (read : tree.readText file = .ok text) :
    read? root tree location = some ⟨file, tree.place file, text⟩ := by
  simp [read?, found, read, Except.toOption]

theorem read?_of_error {cause : Cause}
    (found : sourceFile? tree.isFile root location = some file)
    (failed : tree.readText file = .error cause) : read? root tree location = none := by
  simp [read?, found, failed, Except.toOption]

theorem firstText_singleton (k : List Text) (read : Read) : firstText (key ·.file = k) [read] =
    if k = key read.file then some read.text else none := by
  by_cases own : k = key read.file
  · simp [firstText, own]
  · simp [firstText, own, Ne.symm own]

theorem Remembers.resolve {history : List Read} (remembers : session.Remembers history)
    (tree : FileTree) (location : Text) : (session.resolve tree location).2.Remembers
      (history ++ (read? session.root tree location).toList) := by
  have ways := session.answered tree location
  generalize session.resolve tree location = done at ways
  cases ways with
  | lost nowhere => simpa [read?, nowhere] using remembers
  | @kept file text found known =>
    cases read : tree.readText file with
    | error cause => simpa [read?_of_error found read] using remembers
    | ok later =>
      intro k
      rw [read?_of_ok found read, Option.toList_some, firstText_append, ← remembers k,
        firstText_singleton]
      by_cases own : k = key file <;> simp [own, known]
  | @read file text found new read =>
    intro k
    rw [read?_of_ok found read, Option.toList_some, firstText_append, ← remembers k,
      firstText_singleton, Table.get?_put]
    by_cases own : k = key file <;> simp [own, new]
  | unread found new failed => simpa [read?_of_error found failed] using remembers

theorem Remembers.run {history : List Read} (events : List Event) {session : Session}
    (remembers : session.Remembers history) (tree : FileTree) :
    (run events (session, tree)).1.root = session.root ∧
      (Session.run events (session, tree)).1.Remembers
        (history ++ reads session.root events tree) := by
  induction events generalizing session tree history with
  | nil => exact ⟨rfl, by simpa [Session.run, reads] using remembers⟩
  | cons event rest ih =>
    cases event with
    | resolve location =>
      have later := ih (remembers.resolve tree location) tree
      rw [root_resolve] at later
      simpa [Session.run, reads, Event.asked?, Event.edit] using later
    | write path content => simpa [Session.run, reads, Event.asked?] using ih remembers _
    | makeDirectories path => simpa [Session.run, reads, Event.asked?] using ih remembers _
    | remove path => simpa [Session.run, reads, Event.asked?] using ih remembers _

theorem remembers_start (root : Path) : (start root).Remembers [] := fun _ => rfl

theorem resolve_eq (session : Session) (tree : FileTree) (location : Text) :
    (session.resolve tree location).1 =
      Callable.resolve (session.sources tree) session.root location := by
  have ways := session.answered tree location
  generalize session.resolve tree location = done at ways
  cases ways with
  | lost nowhere => simp [Callable.resolve, sources, nowhere]
  | kept found known => simp [Callable.resolve, sources, found, known]
  | read found new read => simp [Callable.resolve, sources, found, new, read]
  | unread found new failed => simp [Callable.resolve, sources, found, new, failed]

theorem resolve_start (root : Path) (tree : FileTree) (location : Text) :
    ((start root).resolve tree location).1 = Callable.resolve tree.sources root location :=
  resolve_eq (start root) tree location

/-! ### Runs -/

def after (events : List Event) (tree : FileTree) : FileTree :=
  events.foldl (fun tree event => event.edit tree) tree

theorem tree_run (events : List Event) (session : Session) (tree : FileTree) :
    (run events (session, tree)).2 = after events tree := by
  induction events generalizing session tree with
  | nil => rfl
  | cons event rest ih => cases event <;> exact ih _ _

theorem current_after (events : List Event) (tree : FileTree) :
    (after events tree).current = tree.current := by
  induction events generalizing tree with
  | nil => rfl
  | cons event rest ih => exact (ih (event.edit tree)).trans (event.current_edit tree)

theorem of_read? {read : Read} (h : read? root tree location = some read) :
    read.file ∈ candidates root location ∧ read.place = tree.place read.file ∧
      tree.readText read.file = .ok read.text := by
  obtain ⟨file, found, known⟩ := Option.bind_eq_some_iff.mp h
  cases text : tree.readText file with
  | error cause => simp [text, Except.toOption] at known
  | ok t =>
    simp only [text, Except.toOption, Option.map_some, Option.some.injEq] at known
    subst known
    exact ⟨(DottedLocation.of_sourceFile? found).1, rfl, text⟩

theorem of_mem_reads {events : List Event} {read : Read} (mem : read ∈ reads root events tree) :
    ∃ asked ∈ events.filterMap Event.asked?, read.file ∈ candidates root asked ∧
      read.place = tree.place read.file := by
  induction events generalizing tree with
  | nil => cases mem
  | cons event rest ih =>
    rcases List.mem_append.mp mem with now | later
    · obtain ⟨asked, question, known⟩ := Option.bind_eq_some_iff.mp (by simpa using now)
      obtain ⟨candidate, place, -⟩ := of_read? known
      exact ⟨asked, by simp [question], candidate, place⟩
    · obtain ⟨asked, known, candidate, place⟩ := ih later
      rw [FileTree.place_congr (event.current_edit tree)] at place
      refine ⟨asked, ?_, candidate, place⟩
      cases question : event.asked? <;> simp [question, known]

theorem readText_of_mem_reads {events : List Event}
    (still : ∀ event ∈ events, ∃ asked, event = .resolve asked) {read : Read}
    (mem : read ∈ reads root events tree) : tree.readText read.file = .ok read.text := by
  induction events with
  | nil => cases mem
  | cons event rest ih =>
    obtain ⟨asked, rfl⟩ := still event (by simp)
    rcases List.mem_append.mp mem with now | later
    · exact (of_read? (by simpa [Event.asked?] using now)).2.2
    · exact ih (fun event mem => still event (by simp [mem])) later

theorem after_of_still {events : List Event}
    (still : ∀ event ∈ events, ∃ asked, event = .resolve asked) : after events tree = tree := by
  induction events with
  | nil => rfl
  | cons event rest ih =>
    obtain ⟨asked, rfl⟩ := still event (by simp)
    exact ih fun event mem => still event (by simp [mem])

/-! ### Paths and places -/

section Key

variable {second : Path}

theorem key_eq_iff : key file = key second ↔
    file.isAbsolute = second.isAbsolute ∧ file.names = second.names := by
  cases first : file.isAbsolute <;> cases other : second.isAbsolute <;> simp [key, first, other]

theorem place_of_key (same : key file = key second) : tree.place file = tree.place second := by
  obtain ⟨absolute, names⟩ := key_eq_iff.mp same
  simp only [FileTree.place, FileTree.origin, absolute, names]

theorem key_of_place_straight (straight : Straight file) (other : Straight second)
    (same : tree.place file = tree.place second) : key file = key second := by
  have names {path : Path} (straight : Straight path) : tree.place path = path.names := by
    rw [FileTree.place, FileTree.walk_of_isName straight.2, FileTree.origin, straight.1]
    rfl
  rw [names straight, names other] at same
  exact key_eq_iff.mpr ⟨straight.1.trans other.1.symm, same⟩

theorem key_of_place_inside (inside : Inside root file) (other : Inside root second)
    (same : tree.place file = tree.place second) : key file = key second := by
  obtain ⟨start, rest, -, named, whole⟩ := inside
  obtain ⟨otherStart, otherRest, -, otherNamed, otherWhole⟩ := other
  simp only [FileTree.place, FileTree.origin, whole, otherWhole, start, otherStart,
    FileTree.walk_append, FileTree.walk_of_isName named, FileTree.walk_of_isName otherNamed,
    List.append_cancel_left_eq] at same
  rw [key_eq_iff, whole, otherWhole, same]
  exact ⟨start.trans otherStart.symm, rfl⟩

end Key

-- Each file is known by one path: either none leads upwards, or all start from the root directory.
def Plain (root : Path) (locations : List Text) : Prop :=
  Straight root ∨ ∀ location ∈ locations, Relative location

instance (root : Path) (locations : List Text) : Decidable (Plain root locations) :=
  inferInstanceAs (Decidable (_ ∨ _))

theorem Plain.key_of_place {locations : List Text} (plain : Plain root locations)
    {other : Text} (known : location ∈ locations) (otherKnown : other ∈ locations) {second : Path}
    (mem : file ∈ candidates root location) (otherMem : second ∈ candidates root other)
    (same : tree.place file = tree.place second) : key file = key second := by
  rcases plain with straight | relative
  · exact key_of_place_straight (DottedLocation.straight_of_mem_candidates straight mem)
      (DottedLocation.straight_of_mem_candidates straight otherMem) same
  · exact key_of_place_inside (DottedLocation.inside_of_relative (relative _ known) mem)
      (DottedLocation.inside_of_relative (relative _ otherKnown) otherMem) same

-- If the file that the location leads to has been read, then by the path that leads to it now.
def ByOnePath (history : List Read) (now : FileTree) (root : Path) (location : Text) : Prop :=
  ∀ file, sourceFile? now.isFile root location = some file →
    ∀ read ∈ history, read.place = now.place file → key read.file = key file

/-! ### Answers -/

-- The files as they are now, with the text that was read first if there is one.
def remembered (history : List Read) (now : FileTree) : SourceView where
  isFile := now.isFile
  text path := ((firstText (key ·.file = key path) history).map .ok).getD (now.readText path)

theorem Remembers.sources_eq {history : List Read} (remembers : session.Remembers history)
    (now : FileTree) : session.sources now = remembered history now := by
  simp only [sources, remembered, remembers _]

theorem compile_eq (session : Session) (tree : FileTree) (name location : Text) :
    (session.compile tree name location).1 = Compilation.function
      (fun _ => (session.resolve tree location).1.map Callable.documentation) name location := rfl

theorem ofSource_ne_io (source : Text) (other : Path) (cause : Cause) :
    Callable.ofSource location file source ≠ .error (.io other cause) := by
  unfold Callable.ofSource
  split <;> simp

theorem Plain.byOnePath {events : List Event} {now : FileTree}
    (current : now.current = tree.current)
    (plain : Plain root (location :: events.filterMap Event.asked?)) :
    ByOnePath (reads root events tree) now root location := by
  intro file found read known same
  obtain ⟨mem, -⟩ := DottedLocation.of_sourceFile? found
  obtain ⟨asked, question, candidate, place⟩ := of_mem_reads known
  rw [place, FileTree.place_congr current] at same
  exact plain.key_of_place (.tail _ question) (.head _) candidate mem same

theorem resolve_remembered_eq_recalling {history : List Read} {now : FileTree}
    (places : ∀ read ∈ history, read.place = now.place read.file)
    (known : ByOnePath history now root location) :
    Callable.resolve (remembered history now) root location =
      ((start root).resolve (now.recalling fun place => firstText (·.place = place) history)
        location).1 := by
  rw [resolve_start]
  refine Callable.resolve_congr ?_ fun file found => ?_
  · simp only [remembered, FileTree.sources, funext FileTree.isFile_recalling]
  · simp only [FileTree.sources, funext FileTree.isFile_recalling] at found
    have same : firstText (key ·.file = key file) history =
        firstText (·.place = now.place file) history := by
      refine firstText_congr fun read mem => decide_eq_decide.mpr ⟨fun own => ?_, fun place => ?_⟩
      · exact (places read mem).trans (place_of_key own)
      · exact known file found read mem place
    simp only [remembered, FileTree.sources, same,
      FileTree.readText_recalling (DottedLocation.of_sourceFile? found).2]

theorem resolve_remembered_of_still {events : List Event}
    (still : ∀ event ∈ events, ∃ asked, event = .resolve asked) :
    Callable.resolve (remembered (reads root events tree) tree) root location =
      Callable.resolve tree.sources root location := by
  refine Callable.resolve_congr rfl fun file found => ?_
  obtain ⟨-, there⟩ := DottedLocation.of_sourceFile? found
  cases known : firstText (key ·.file = key file) (reads root events tree) with
  | none => simp [remembered, FileTree.sources, known]
  | some text =>
    obtain ⟨read, mem, same, rfl⟩ := exists_of_firstText known
    have own : key read.file = key file := of_decide_eq_true same
    have now := FileTree.readText_of_place there (place_of_key own)
      (readText_of_mem_reads still mem)
    simp [remembered, FileTree.sources, known, now]

theorem session_of_io {cause : Cause}
    (failed : (session.resolve tree location).1 = .error (.io file cause)) :
    (session.resolve tree location).2 = session := by
  have ways := session.answered tree location
  generalize session.resolve tree location = done at ways failed
  cases ways with
  | lost nowhere => rfl
  | kept found known => rfl
  | read found new read => exact absurd failed (ofSource_ne_io _ _ _)
  | unread found new failed => rfl

/-- By the paths of its files, a session answers as if each file that it has read held the text that
was read first. So it answers as a new one does in the tree of now in which these files hold these
texts, unless the file of the answer was read by another path before; and without changes it answers
as a new one does in the tree itself. A failed read leaves the session as it was. -/
theorem resolve_of_run {events : List Event} {now : FileTree}
    (h : run events (start root, tree) = (session, now)) (location : Text) :
    (session.resolve now location).1 =
      Callable.resolve (remembered (reads root events tree) now) root location ∧
    (ByOnePath (reads root events tree) now root location →
      (session.resolve now location).1 =
        ((start root).resolve (now.recalling fun place =>
          firstText (·.place = place) (reads root events tree)) location).1) ∧
    (Plain root (location :: events.filterMap Event.asked?) →
      ByOnePath (reads root events tree) now root location) ∧
    ((∀ event ∈ events, ∃ asked, event = .resolve asked) →
      now = tree ∧
      (session.resolve tree location).1 = ((start root).resolve tree location).1 ∧
      ∀ name, (session.compile tree name location).1 =
        ((start root).compile tree name location).1) ∧
    ∀ file cause, (session.resolve now location).1 = .error (.io file cause) →
      (session.resolve now location).2 = session := by
  have kept := (remembers_start root).run events tree
  have moved := tree_run events (start root) tree
  simp only [h, List.nil_append] at kept moved
  subst moved
  obtain ⟨sameRoot, remembers⟩ := kept
  have current := current_after events tree
  have answer : (session.resolve (after events tree) location).1 =
      Callable.resolve (remembered (reads root events tree) (after events tree)) root location := by
    rw [resolve_eq, remembers.sources_eq, sameRoot]
    rfl
  refine ⟨answer, fun known => ?_, fun plain => plain.byOnePath current, fun still => ?_,
    fun file cause => session_of_io⟩
  · refine answer.trans (resolve_remembered_eq_recalling (fun read mem => ?_) known)
    obtain ⟨-, -, -, place⟩ := of_mem_reads mem
    rw [place, FileTree.place_congr current]
  · rw [after_of_still still] at answer ⊢
    rw [resolve_remembered_of_still still, ← resolve_start] at answer
    refine ⟨rfl, answer, fun name => ?_⟩
    rw [compile_eq, compile_eq, answer]

def oldSource : Text := "def f():\n 'Old.'\n"

def newSource : Text := "def f():\n 'New.'\n"

def twoSources : FileTree where
  current := []
  entries := [
    (["s"], .directory),
    (["s", "m.py"], .file (.text oldSource)),
    (["s", "n.py"], .file (.bytes [255]))]

def rewriting : List Event := [.resolve "m.f", .write ⟨"/s/m.py"⟩ (.text newSource)]

theorem rewriting_steps :
    reads ⟨"/s"⟩ rewriting twoSources = [⟨⟨"/s/m.py"⟩, ["s", "m.py"], oldSource⟩] ∧
    (run rewriting (start ⟨"/s"⟩, twoSources)).2.readText ⟨"/s/m.py"⟩ = .ok newSource ∧
    ((run rewriting (start ⟨"/s"⟩, twoSources)).1.resolve
      (run rewriting (start ⟨"/s"⟩, twoSources)).2 "n.f").1 =
        .error (.io ⟨"/s/n.py"⟩ .notText) := by
  decide +kernel

theorem resolve_of_run_rewriting : ∃ session now,
    run rewriting (start ⟨"/s"⟩, twoSources) = (session, now) ∧
    now.readText ⟨"/s/m.py"⟩ = .ok newSource ∧
    (session.resolve now "m.f").1 = ((start ⟨"/s"⟩).resolve (now.recalling fun place =>
      firstText (·.place = place) [⟨⟨"/s/m.py"⟩, ["s", "m.py"], oldSource⟩]) "m.f").1 ∧
    (session.resolve now "n.f").2 = session ∧
    ((run [.resolve "m.f"] (start ⟨"/s"⟩, twoSources)).1.resolve twoSources "m.f").1 =
      ((start ⟨"/s"⟩).resolve twoSources "m.f").1 := by
  obtain ⟨history, rewritten, failed⟩ := rewriting_steps
  have made := Eq.refl (run rewriting (start ⟨"/s"⟩, twoSources))
  have asked : run [.resolve "m.f"] (start ⟨"/s"⟩, twoSources) =
    ((run [.resolve "m.f"] (start ⟨"/s"⟩, twoSources)).1, twoSources) := rfl
  obtain ⟨-, recalled, byOnePath, -, -⟩ := resolve_of_run made "m.f"
  obtain ⟨-, -, -, -, traceless⟩ := resolve_of_run made "n.f"
  obtain ⟨-, -, -, still, -⟩ := resolve_of_run asked "m.f"
  have answer := recalled (byOnePath (by decide))
  rw [history] at answer
  exact ⟨_, _, rfl, rewritten, answer, traceless _ _ failed, (still (by simp)).2.1⟩

-- A file that can be read by two paths is read anew by the second one.
theorem not_resolve_recalled : ¬∀ (root : Path) (tree : FileTree) (events : List Event)
    (session : Session) (now : FileTree), run events (start root, tree) = (session, now) →
    ∀ location, (session.resolve now location).1 =
      ((start root).resolve (now.recalling fun place =>
        firstText (·.place = place) (reads root events tree)) location).1 := by
  intro recalled
  have differ : ((run rewriting (start ⟨"/s/../s"⟩, twoSources)).1.resolve
      (run rewriting (start ⟨"/s/../s"⟩, twoSources)).2 "/s/m.f").1 ≠
        ((start ⟨"/s/../s"⟩).resolve ((run rewriting (start ⟨"/s/../s"⟩, twoSources)).2.recalling
          fun place => firstText (·.place = place) (reads ⟨"/s/../s"⟩ rewriting twoSources))
            "/s/m.f").1 := by
    decide +kernel
  exact differ (recalled ⟨"/s/../s"⟩ twoSources rewriting _ _ rfl "/s/m.f")

end Session

end CallSchema
