import IconMaker.CommandLine.Option

/-
  IconMaker.CommandLine.Reader — from arguments to flags.

  Arguments are read from left to right, one step each. A value attached to its option is
  taken at once. A value that stands alone belongs to the option before it and is only taken
  when the next option begins or the arguments end, so what stops the reading in between is
  reported first. `read` is a fold of `step`.
-/

namespace IconMaker.CommandLine

/-- The last option, if its value is not taken yet. -/
inductive Pending where
  | none
  | awaiting (o : Opt)
  | holding (o : Opt) (value : Bytes)
  deriving DecidableEq, Repr

structure State where
  flags : Flags
  pending : Pending
  /-- Did `--` end the options? -/
  ended : Bool
  deriving DecidableEq, Repr

def State.start : State := ⟨Flags.empty, .none, false⟩

def once {α : Type} (o : Opt) (old : Option α) (new : Except Stop α) : Except Stop (Option α) :=
  match old with
  | some _ => .error (.repeated o)
  | none => new.map some

def pathValue (o : Opt) (v : Bytes) : Except Stop Path :=
  if v = [] then .error (.noValue o) else .ok v

def filterValue (v : Bytes) : Except Stop Filter :=
  match (Text.text? v).bind Filter.ofName? with
  | some f => .ok f
  | none => if v = [] then .error (.noValue .filter) else .error (.unknownFilter (Text.lossy v))

def sizeValue (v : Bytes) : Except Stop Size :=
  match Text.text? v with
  | some t => (Size.parse t).mapError (.badSize t)
  | none => .error .brokenText

/-- Takes the value of an option. -/
def accept (f : Flags) (o : Opt) (v : Bytes) : Except Stop Flags :=
  match o with
  | .input => (once o f.input (pathValue o v)).map fun x => { f with input := x }
  | .output => (once o f.output (pathValue o v)).map fun x => { f with output := x }
  | .config => (once o f.config (pathValue o v)).map fun x => { f with config := x }
  | .filter => (once o f.filter (filterValue v)).map fun x => { f with filter := x }
  | .size => (sizeValue v).map fun s => { f with sizes := f.sizes ++ [s] }

/-- Takes the value that still stands out. -/
def settle (f : Flags) : Pending → Except Stop Flags
  | .none => .ok f
  | .awaiting o => .error (.noValue o)
  | .holding o v => accept f o v

/-- An option begins, with the value attached to it if there is one. -/
def begin (st : State) (o : Opt) (attached : Option Bytes) : Except Stop State := do
  let f ← settle st.flags st.pending
  match attached with
  | none => return { st with flags := f, pending := .awaiting o }
  | some v => return { st with flags := ← accept f o v, pending := .none }

def showNotice (st : State) (n : Notice) (long : Bool) : Except Stop State := do
  let _ ← settle st.flags st.pending
  match n with
  | .help => throw (.showHelp long)
  | .version => throw .showVersion

def dash : UInt8 := 0x2d
def equals : UInt8 := 0x3d

/-- The name of a long option and the value after its first `=`. -/
def splitValue (a : Bytes) : Bytes × Option Bytes :=
  match a.span (· ≠ equals) with
  | (n, _ :: v) => (n, some v)
  | (n, []) => (n, none)

def optNamed? (n : Bytes) : Option Opt := Opt.all.find? fun o => Text.utf8 o.name.toList == n

def noticeNamed? (n : Bytes) : Option Notice := Notice.all.find? fun o => Text.utf8 o.name.toList == n

/-- An argument that begins with two dashes, without them. -/
def longOption (st : State) (a : Bytes) : Except Stop State :=
  let (n, v) := splitValue a
  match optNamed? n, noticeNamed? n with
  | some o, _ => begin st o v
  | none, some o =>
    match v with
    | some v => .error (.needlessValue o (Text.lossy v))
    | none => showNotice st o true
  | none, none => .error (.unexpected ('-' :: '-' :: Text.lossy n))

/-- A value attached to a letter, `=` in between not being part of it. -/
def attachedValue : Bytes → Option Bytes
  | [] => none
  | b :: r => if b = equals then some r else some (b :: r)

/-- An argument that begins with one dash, without it. -/
def shortOption (st : State) (a : Bytes) : Except Stop State :=
  match a with
  | [] => .error (.unexpected ['-'])
  | b :: r =>
    match Text.firstPiece b r with
    | (.broken _, _) => .error (.unexpected ('-' :: Text.lossy a))
    | (.char c, rest) =>
      match Opt.all.find? fun o => o.letter == c, Notice.all.find? fun n => n.letter == c with
      | some o, _ => begin st o (attachedValue rest)
      | none, some n => showNotice st n false
      | none, none => .error (.unexpected ['-', c])

/-- An argument that is no option. -/
def loneArgument (st : State) (a : Bytes) : Except Stop State :=
  match st.pending with
  | .awaiting o => .ok { st with pending := .holding o a }
  | _ => .error (.unexpected (Text.lossy a))

def step (st : State) (a : Bytes) : Except Stop State :=
  if st.ended then .error (.unexpected (Text.lossy a))
  else
    match a with
    | x :: y :: r =>
      if x = dash then
        if y = dash then if r = [] then .ok { st with ended := true } else longOption st r
        else shortOption st (y :: r)
      else loneArgument st a
    | _ => loneArgument st a

def read (arguments : List Bytes) : Except Stop Flags := do
  let st ← arguments.foldlM step .start
  settle st.flags st.pending

end IconMaker.CommandLine
