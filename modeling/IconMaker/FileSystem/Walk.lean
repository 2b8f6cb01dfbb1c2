import IconMaker.FileSystem.Basic

/-
  IconMaker.FileSystem.Walk — from paths to places.

  A path is walked component by component. Every directory on the way has to be searchable,
  links on the way are followed, up to forty of them, and a link at the end is followed if
  wanted. The last name may be free; then its place is the answer all the same.
-/

namespace IconMaker

inductive Component where
  | here
  | up
  | name (n : Name)
  /-- A slash at the end: what came before has to be a directory. -/
  | directory
  deriving DecidableEq, Repr

namespace Component

def ofPart (p : Bytes) : Component :=
  if p = [Path.dot] then .here else if p = [Path.dot, Path.dot] then .up else .name p

def ofParts : List Bytes → List Component
  | [] => []
  | [p] => if p = [] then [.directory] else [ofPart p]
  | p :: ps => if p = [] then ofParts ps else ofPart p :: ofParts ps

def ofPath (p : Path) : List Component := ofParts (Path.parts p)

end Component

namespace Files

def maxName : Nat := 255
def maxPath : Nat := 4095
def maxLinks : Nat := 40

/-- The place is a directory; its mode. -/
def directoryMode (fs : Files) (p : Place) : Except IoError Mode :=
  match fs.get? p with
  | some (.dir m) => .ok m
  | some _ => .error .notADirectory
  | none => .error .notFound

/-- The place is a directory in which names may be looked up. -/
def enter (fs : Files) (p : Place) : Except IoError Unit :=
  match fs.directoryMode p with
  | .error e => .error e
  | .ok m => if m.searchable then .ok () else .error .permissionDenied

def startOf (p : Path) (base : Place) : Place := if Path.isAbsolute p then [] else base

def walk (fs : Files) (follow : Bool) (links : Nat) (at_ : Place) : List Component → Except IoError Place
  | [] => .ok at_
  | .directory :: r =>
    match fs.directoryMode at_ with
    | .error e => .error e
    | .ok _ => walk fs follow links at_ r
  | .here :: r =>
    match fs.enter at_ with
    | .error e => .error e
    | .ok _ => walk fs follow links at_ r
  | .up :: r =>
    match fs.enter at_ with
    | .error e => .error e
    | .ok _ => walk fs follow links at_.tail r
  | .name n :: r =>
    match fs.enter at_ with
    | .error e => .error e
    | .ok _ =>
      if n.length > maxName then .error .nameTooLong
      else
        match fs.get? (n :: at_) with
        | none => if r = [] then .ok (n :: at_) else .error .notFound
        | some (.link target) =>
          if r = [] ∧ !follow then .ok (n :: at_)
          else
            match links with
            | 0 => .error .linkLoop
            | links + 1 =>
              walk fs follow links (startOf target at_) (Component.ofPath target ++ r)
        | some _ => walk fs follow links (n :: at_) r
termination_by r => (links, r.length)

/-- A path that can be handed to the operating system. -/
def checkPath (p : Path) : Except IoError Unit :=
  if p.contains 0 then .error .invalidInput
  else if p = [] then .error .notFound
  else if p.length > maxPath then .error .nameTooLong
  else .ok ()

def resolve (fs : Files) (cwd : Place) (follow : Bool) (p : Path) : Except IoError Place :=
  match checkPath p with
  | .error e => .error e
  | .ok _ => fs.walk follow maxLinks (startOf p cwd) (Component.ofPath p)

/-- The node that a path leads to, and its place. -/
def lookup (fs : Files) (cwd : Place) (follow : Bool) (p : Path) : Except IoError (Place × Node) :=
  match fs.resolve cwd follow p with
  | .error e => .error e
  | .ok at_ =>
    match fs.get? at_ with
    | none => .error .notFound
    | some v => .ok (at_, v)

end Files

end IconMaker
