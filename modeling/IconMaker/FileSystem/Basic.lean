import IconMaker.Path

/-
  IconMaker.FileSystem.Basic — files, directories and symbolic links as a value.

  A place is the list of names on the way from a node up to the root, so the place of a
  directory is the tail of the places in it. `get?` is the view of a file system; `set`,
  `insert` and `erase` change one place. Modes are the twelve permission bits; the bits that
  count are those of the owner, whom every file belongs to.
-/

namespace IconMaker

abbrev Name := Bytes

abbrev Place := List Name

abbrev Mode := BitVec 12

namespace Mode

def readable (m : Mode) : Bool := m.getLsbD 8
def writable (m : Mode) : Bool := m.getLsbD 7
def searchable (m : Mode) : Bool := m.getLsbD 6

/-- No one may write. -/
def readOnly (m : Mode) : Bool := m &&& 0o222#12 == 0#12

/-- The mode that a new file gets when `m` is asked for. -/
def masked (m umask : Mode) : Mode := m &&& ~~~umask

/-- What a write leaves of a mode: it takes the right to run as the owner away, and that to
    run as the group from what the group may run. -/
def afterWrite (m : Mode) : Mode :=
  m &&& ~~~(if m.getLsbD 3 then 0o6000#12 else 0o4000#12)

end Mode

inductive Node where
  | file (mode : Mode) (content : Bytes)
  | dir (mode : Mode)
  | link (target : Path)
  deriving DecidableEq, Repr

/-- Why the operating system refuses something. -/
inductive IoError where
  | notFound
  | permissionDenied
  | notADirectory
  | isADirectory
  | alreadyExists
  | notEmpty
  | invalidInput
  | nameTooLong
  | linkLoop
  | busy
  | invalidData
  | other (number : Nat)
  deriving DecidableEq, Repr

def IoError.text : IoError → String
  | notFound => "not found"
  | permissionDenied => "permission denied"
  | notADirectory => "not a directory"
  | isADirectory => "is a directory"
  | alreadyExists => "exists already"
  | notEmpty => "directory not empty"
  | invalidInput => "no path for a file"
  | nameTooLong => "name too long"
  | linkLoop => "too many links"
  | busy => "in use"
  | invalidData => "no valid UTF-8"
  | other n => "error number " ++ String.ofList (Nat.toDigits 10 n)

/-- What lies below the root. -/
structure Files where
  entries : List (Place × Node)
  deriving DecidableEq, Repr

namespace Files

def empty : Files := ⟨[]⟩

def rootMode : Mode := 0o755#12

def get? (fs : Files) : Place → Option Node
  | [] => some (.dir rootMode)
  | n :: d => fs.entries.lookup (n :: d)

/-- Puts another node in a place that is taken. -/
def set (fs : Files) (p : Place) (v : Node) : Files :=
  ⟨fs.entries.map fun e => if e.1 = p then (p, v) else e⟩

/-- Puts a node in a place that is free. -/
def insert (fs : Files) (p : Place) (v : Node) : Files := ⟨(p, v) :: fs.entries⟩

def put (fs : Files) (p : Place) (v : Node) : Files :=
  if (fs.get? p).isSome then fs.set p v else fs.insert p v

def erase (fs : Files) (p : Place) : Files := ⟨fs.entries.filter fun e => e.1 ≠ p⟩

/-- Without a place and all below it. -/
def eraseTree (fs : Files) (p : Place) : Files := ⟨fs.entries.filter fun e => !p.isSuffixOf e.1⟩

end Files

/-- Who asks for something: where relative paths begin and which rights new files do not
    get. -/
structure Caller where
  cwd : Place
  umask : Mode
  deriving DecidableEq, Repr

end IconMaker
