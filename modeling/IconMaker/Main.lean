import IconMaker.Run

/-
  IconMaker.Main — the program on a real file system.

  Each stage of a conversion is carried out as it stands; what follows from it is decided by
  `Conversion.Stage`. A temporary file's place is its whole path, and it gets the mode that was
  asked for without the rights of the umask.

  No operation here tells the mode of a file. What its owner may do is found out by opening it
  (`fileMode?`), and the rights of the others are taken for the usual ones.
-/

namespace IconMaker.Main

open Conversion

def reason : IO.Error → IoError
  | .noFileOrDirectory .. => .notFound
  | .permissionDenied .. => .permissionDenied
  | .inappropriateType .. => .isADirectory
  | .alreadyExists .. => .alreadyExists
  | .resourceBusy .. => .busy
  | .invalidArgument .. => .invalidInput
  | _ => .other 0

def attempt {α : Type} (act : IO α) : IO (Except IoError α) := do
  try
    return .ok (← act)
  catch e =>
    return .error (reason e)

def spelled (p : Path) : String := String.ofList (Text.lossy p)

def readBytes (p : Path) : IO (Except IoError Bytes) :=
  attempt do return (← IO.FS.readBinFile (spelled p)).toList

def placeOf (path : Path) : Place := [path]

def pathOf (t : Place) : String := spelled (t.headD [])

/-- The usual mode, without the rights to read or to write if the owner has not got them. -/
def modeOf (readable writable : Bool) : Mode :=
  usualMode &&& ~~~((if readable then 0#12 else 0o444#12) ||| if writable then 0#12 else 0o222#12)

/-- The mode of the file at a path, as far as opening it shows. -/
def fileMode? (p : Path) : IO (Option Mode) := do
  let path := System.mkFilePath [spelled p]
  match ← attempt path.metadata with
  | .error _ => return none
  | .ok m =>
    if m.type matches .file then
      let readable ← attempt (IO.FS.Handle.mk path .read)
      let writable ← attempt (IO.FS.Handle.mk path .append)
      return some (modeOf readable.toBool writable.toBool)
    else return none

/-- The umask, which stands in octal digits in one of the lines about this process. -/
def umask : IO Mode := do
  match ← attempt (IO.FS.lines "/proc/self/status") with
  | .error _ => return 0o022#12
  | .ok lines =>
    let digits := lines.toList.findSome? fun l => (l.dropPrefix? "Umask:\t").map (·.toString)
    return BitVec.ofNat 12 ((digits.getD "0022").foldl (fun n c => n * 8 + (c.toNat - 48)) 0)

def createTemporary (d : Path) (m : Mode) : IO Path := do
  let path := Files.inDirectory d (TemporaryName.numbered (← IO.rand 0 (TemporaryName.count - 1))).bytes
  let _ ← IO.FS.Handle.mk (spelled path) .writeNew
  IO.Prim.setAccessRights (spelled path) (UInt32.ofNat (m.masked (← umask)).toNat)
  return path

def appendBytes (t : Place) (bs : Bytes) : IO Unit := do
  let h ← IO.FS.Handle.mk (pathOf t) .append
  h.write ⟨bs.toArray⟩
  h.flush

/-- Carries out a stage. -/
def act [Png.Writer] (job : Job) : Stage → IO Stage
  | .reading => return .afterReading job (← readBytes job.input)
  | .examining frames => return .afterExamining job frames (← fileMode? job.output)
  | .asking frames => return .afterAsking frames (← fileMode? job.output)
  | .creating frames mode => do
    match ← attempt (createTemporary (Path.directory job.output) mode) with
    | .error e => return .finished (.error (.outputUnwritable job.output e))
    | .ok path => return .afterCreating frames (placeOf path)
  | .writing t rest => do
    match ← attempt (appendBytes t rest) with
    | .error e => return .afterFailure job t e
    | .ok _ => return .syncing t
  | .syncing t => return .measuring t
  | .measuring t => do
    match ← attempt (System.mkFilePath [pathOf t]).metadata with
    | .error e => return .afterFailure job t e
    | .ok m => return .moving t m.byteSize.toNat
  | .moving t n => do
    match ← attempt (IO.FS.rename (pathOf t) (spelled job.output)) with
    | .error e => return .afterFailure job t e
    | .ok _ => return .finished (.ok n)
  | .discarding t e => do
    let _ ← attempt (IO.FS.removeFile (pathOf t))
    return .finished (.error e)
  | .finished r => return .finished r

/-- The stages entered from a stage on, and the result. -/
partial def follow [Png.Writer] (job : Job) (s : Stage) : IO (List Stage × Except ConvertError Nat) := do
  match s.result? with
  | some r => return ([], r)
  | none =>
    let next ← act job s
    let (stages, r) ← follow job next
    return (next :: stages, r)

def perform [Png.Writer] (f : Flags) : IO (List Log.Event × Except RunError Report) := do
  let settings ← match f.config with
    | some p => readBytes p
    | none => pure (.ok [])
  match Run.prepare f (fun _ => settings) with
  | (before, .error e) => return (before, .error e)
  | (before, .ok job) =>
    let (stages, r) ← follow job .reading
    let (after, result) := Run.conclude job stages r
    return (before ++ after, result)

def finish (o : Run.Outcome) : IO UInt32 := do
  (← IO.getStdout).putStr (String.ofList o.stdout)
  (← IO.getStderr).putStr (String.ofList o.stderr)
  return UInt32.ofNat o.exitCode

def environmentValue (name : String) : IO (Option Bytes) := do
  return (← IO.getEnv name).map fun v => Text.utf8 v.toList

def start [Png.Writer] (f : Flags) : IO UInt32 := do
  let temporary := (← environmentValue "TMPDIR").getD (Text.utf8 "/tmp".toList)
  let host : Host := ⟨⟨[], 0⟩, temporary, ← environmentValue "RUST_LOG", .calm⟩
  let log ← attempt (IO.FS.Handle.mk (spelled host.logPath) .write)
  let (events, result) ← perform f
  let shown := events.filter (Log.Filter.ofVariable host.logFilter).reports
  match log with
  | .error _ => finish (.ofResult false shown result)
  | .ok h =>
    h.putStr (String.ofList (shown.flatMap Log.Event.line))
    finish (.ofResult true shown result)

end IconMaker.Main

def main (arguments : List String) : IO UInt32 :=
  match IconMaker.CommandLine.read (arguments.map fun a => IconMaker.Text.utf8 a.toList) with
  | .error s => IconMaker.Main.finish (.ofStop s)
  | .ok f => @IconMaker.Main.start IconMaker.Png.storing f
