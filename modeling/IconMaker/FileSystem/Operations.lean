import IconMaker.FileSystem.Walk

/-
  IconMaker.FileSystem.Operations — what programs do with files.

  Reading, examining, making a file that must not exist yet, appending, moving a file to a
  path, and the operations that set up a file system: writing whole files, making
  directories and links, changing modes, removing. An operation that fails changes nothing.
-/

namespace IconMaker.Files

def read (fs : Files) (cwd : Place) (p : Path) : Except IoError Bytes :=
  match fs.lookup cwd true p with
  | .error e => .error e
  | .ok (_, .file m c) => if m.readable then .ok c else .error .permissionDenied
  | .ok (_, .dir m) => if m.readable then .error .isADirectory else .error .permissionDenied
  | .ok (_, .link _) => .error .notFound

/-- The mode of the regular file that a path leads to. -/
def fileMode? (fs : Files) (cwd : Place) (p : Path) : Option Mode :=
  match fs.lookup cwd true p with
  | .ok (_, .file m _) => some m
  | _ => none

/-- May entries of the directory be made and removed? -/
def mayChange (fs : Files) (d : Place) : Except IoError Unit :=
  match fs.directoryMode d with
  | .error e => .error e
  | .ok m => if m.writable && m.searchable then .ok () else .error .permissionDenied

/-- A path in a directory. -/
def inDirectory (d : Path) (n : Name) : Path := d ++ Path.slash :: n

/-- Makes an empty file `n` in a directory where there is none of that name. -/
def makeFile (fs : Files) (caller : Caller) (d : Path) (n : Name) (m : Mode) : Except IoError (Place × Files) :=
  match fs.resolve caller.cwd false (inDirectory d n) with
  | .error e => .error e
  | .ok at_ =>
    if (fs.get? at_).isSome then .error .alreadyExists
    else
      match fs.mayChange at_.tail with
      | .error e => .error e
      | .ok _ => .ok (at_, fs.insert at_ (.file (m.masked caller.umask) []))

/-- Appends to the file in a place. -/
def append (fs : Files) (at_ : Place) (bs : Bytes) : Files :=
  match fs.get? at_ with
  | some (.file m c) => fs.set at_ (.file m.afterWrite (c ++ bs))
  | _ => fs

def fileSize (fs : Files) (at_ : Place) : Nat :=
  match fs.get? at_ with
  | some (.file _ c) => c.length
  | _ => 0

/-- The directory and the last part of a path, and whether slashes follow it; the last part
    is missing for the root. -/
def splitLast (p : Path) : List Bytes × Option Bytes × Bool :=
  let parts := (Path.parts p).reverse
  match parts.dropWhile (· == []) with
  | [] => ([], none, true)
  | n :: before => (before.reverse, some n, parts.head? == some [])

/-- The place of the entry that a move to the path would make or replace. -/
def moveTarget (fs : Files) (cwd : Place) (path : Path) : Except IoError Place :=
  match checkPath path with
  | .error e => .error e
  | .ok _ =>
    match splitLast path with
    | (_, none, _) => .error .busy
    | (before, some n, slashes) =>
      match fs.walk true maxLinks (startOf path cwd) (Component.ofParts before) with
      | .error e => .error e
      | .ok d =>
        match fs.enter d with
        | .error e => .error e
        | .ok _ =>
          if Component.ofPart n ≠ .name n then .error .busy
          else if n.length > maxName then .error .nameTooLong
          else if slashes then .error .notADirectory
          else .ok (n :: d)

/-- Moves the file in a place to a path; whatever the path's entry was before, other than a
    directory, is replaced. -/
def move (fs : Files) (cwd : Place) (at_ : Place) (path : Path) : Except IoError Files :=
  match fs.moveTarget cwd path, fs.get? at_ with
  | .error e, _ => .error e
  | .ok _, none => .error .notFound
  | .ok target, some v =>
    match fs.mayChange target.tail with
    | .error e => .error e
    | .ok _ =>
      match fs.get? target with
      | some (.dir _) => .error .isADirectory
      | _ => if target = at_ then .ok fs else .ok ((fs.erase at_).put target v)

/-- Makes a file empty, or makes an empty one; its place. -/
def truncate (fs : Files) (caller : Caller) (p : Path) (m : Mode) : Except IoError (Place × Files) :=
  match fs.resolve caller.cwd true p with
  | .error e => .error e
  | .ok at_ =>
    match fs.get? at_ with
    | some (.file old _) =>
      if old.writable then .ok (at_, fs.set at_ (.file old [])) else .error .permissionDenied
    | some (.dir _) => .error .isADirectory
    | some (.link _) => .error .linkLoop
    | none =>
      match fs.mayChange at_.tail with
      | .error e => .error e
      | .ok _ => .ok (at_, fs.insert at_ (.file (m.masked caller.umask) []))

def writeFile (fs : Files) (caller : Caller) (p : Path) (bs : Bytes) : Except IoError Files :=
  (fs.truncate caller p 0o666#12).map fun x => x.2.append x.1 bs

/-- Makes one directory. -/
def makeDirectory (fs : Files) (caller : Caller) (p : Path) : Except IoError Files :=
  match fs.resolve caller.cwd false (Path.trimEnd p) with
  | .error e => .error e
  | .ok at_ =>
    if (fs.get? at_).isSome then .error .alreadyExists
    else
      match fs.mayChange at_.tail with
      | .error e => .error e
      | .ok _ => .ok (fs.insert at_ (.dir (Mode.masked 0o777#12 caller.umask)))

def isDirectory (fs : Files) (cwd : Place) (p : Path) : Bool :=
  match fs.lookup cwd true p with
  | .ok (_, .dir _) => true
  | _ => false

/-- The path and those of the directories on the way to it, the innermost first. -/
def wayTo (p : Path) : List Path :=
  ((List.range (p.length + 1)).filterMap fun k =>
    let rest := p.drop k
    if k > 0 ∧ (rest = [] ∨ rest.head? = some Path.slash) ∧ (p.take k).getLast? ≠ some Path.slash then
      some (p.take k)
    else none).reverse

/-- Makes the first of the directories if it is not there, and before it, if need be, the
    others. -/
def makeWay (caller : Caller) : List Path → Files → Except IoError Files
  | [], fs => .ok fs
  | p :: above, fs =>
    match fs.makeDirectory caller p with
    | .ok fs' => .ok fs'
    | .error .notFound => do (← makeWay caller above fs).makeDirectory caller p
    | .error e => if fs.isDirectory caller.cwd p then .ok fs else .error e

/-- Makes a directory and those above it that are missing. -/
def makeDirectories (fs : Files) (caller : Caller) (p : Path) : Except IoError Files :=
  makeWay caller (wayTo p) fs

def makeLink (fs : Files) (caller : Caller) (p target : Path) : Except IoError Files :=
  match checkPath target, fs.resolve caller.cwd false p with
  | .error e, _ => .error e
  | _, .error e => .error e
  | .ok _, .ok at_ =>
    if (fs.get? at_).isSome then .error .alreadyExists
    else
      match fs.mayChange at_.tail with
      | .error e => .error e
      | .ok _ => .ok (fs.insert at_ (.link target))

def setMode (fs : Files) (cwd : Place) (p : Path) (m : Mode) : Except IoError Files :=
  match fs.lookup cwd true p with
  | .error e => .error e
  | .ok (at_, .file _ c) => .ok (fs.set at_ (.file m c))
  | .ok (at_, .dir _) => .ok (fs.set at_ (.dir m))
  | .ok (_, .link _) => .error .notFound

/-- Does a directory stand in the way of removing the tree that it is in? It has to be read,
    and changed if anything is in it. -/
def resists (fs : Files) (e : Place × Node) : Bool :=
  match e.2 with
  | .dir m => !m.readable || (!(m.writable && m.searchable) && fs.entries.any fun f => f.1.tail == e.1)
  | _ => false

/-- Removes what the path's entry is, with all below it. -/
def remove (fs : Files) (cwd : Place) (p : Path) : Except IoError Files :=
  match fs.lookup cwd false p with
  | .error e => .error e
  | .ok (at_, _) =>
    match fs.mayChange at_.tail with
    | .error e => .error e
    | .ok _ =>
      if fs.entries.any fun e => at_.isSuffixOf e.1 && fs.resists e then .error .permissionDenied
      else .ok (fs.eraseTree at_)

/-- The path from one place to a place below it. -/
def pathBelow (top at_ : Place) : Path :=
  ((at_.take (at_.length - top.length)).reverse.intersperse [Path.slash]).flatten

/-- Everything below a place in the order of the paths, if all of it can be read. -/
def listing (fs : Files) (top : Place) : Except IoError (List (Path × Node)) :=
  let tree := fs.entries.filter fun e => top.isSuffixOf e.1
  let closed (e : Place × Node) : Bool :=
    match e.2 with
    | .file m _ => !m.readable
    | .dir m => !m.readable || (!m.searchable && tree.any fun f => f.1.tail == e.1)
    | .link _ => false
  if tree.any closed then .error .permissionDenied
  else
    let below := tree.filter fun e => e.1 != top
    .ok ((below.map fun e => (pathBelow top e.1, e.2)).mergeSort fun a b => decide (a.1 ≤ b.1))

end IconMaker.Files
