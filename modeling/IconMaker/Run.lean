import IconMaker.CommandLine.Reader
import IconMaker.Settings.Schema
import IconMaker.Conversion.Stage
import IconMaker.Log.Filter

/-
  IconMaker.Run — a run of the program, from its arguments to its exit code.

  `resolve` makes the job from the flags and the settings file that they name, `perform` makes
  the job and does it, with the events that happen in between. `execute` is a whole run: it
  reads the command line, opens the log only if that was accepted, performs the job, and says
  what the program prints. Standard output is for the one line that tells of success.
-/

namespace IconMaker

inductive ResolveError where
  | unreadable (cause : IoError)
  | malformed (cause : Settings.Fault)
  | badSizes (cause : SizeError)
  deriving DecidableEq, Repr

/-- The settings in the bytes that reading a file gave. -/
def settingsOf (r : Except IoError Bytes) : Except ResolveError Settings :=
  match r with
  | .error e => .error (.unreadable e)
  | .ok bs =>
    match Text.text? bs with
    | none => .error (.unreadable .invalidData)
    | some t => (Settings.parse t).mapError .malformed

namespace Flags

/-- The settings in the file that the flags name, if they name one. -/
def settings (f : Flags) (read : Path → Except IoError Bytes) : Except ResolveError Settings :=
  match f.config with
  | none => .ok .empty
  | some p => settingsOf (read p)

def resolve (f : Flags) (read : Path → Except IoError Bytes) : Except ResolveError Job :=
  match f.settings read with
  | .error e => .error e
  | .ok s => (s.overriddenBy f).job.mapError .badSizes

end Flags

inductive RunError where
  | resolving (cause : ResolveError)
  | converting (cause : ConvertError)
  deriving DecidableEq, Repr

namespace ResolveError

def text : ResolveError → String
  | unreadable e => "Error reading config file: " ++ e.text
  | malformed .notToml => "Error parsing config: not a TOML document"
  | malformed (.offence o n) => "Error parsing config: " ++ o.message ++ " (at byte " ++ SizeError.decimal n ++ ")"
  | badSizes e => "Invalid icon sizes: " ++ e.message

end ResolveError

namespace RunError

/-- An error and its causes, from the outermost in. -/
def text : RunError → String
  | resolving e => "Error: " ++ e.text ++ "\n"
  | converting e => "Error: Error converting icon: " ++ e.chain ++ "\n"

end RunError

/-- What there is to a run beside its arguments and the files. -/
structure Host where
  caller : Caller
  /-- The directory for temporary files. -/
  temporary : Path
  /-- The environment variable that holds the log filter. -/
  logFilter : Option Bytes
  weather : Conversion.Weather

namespace Host

def logName : Name := Text.utf8 "png2ico.log".toList

/-- The path of the log file. -/
def logPath (h : Host) : Path :=
  if h.temporary = [] then logName
  else if h.temporary.getLast? = some Path.slash then h.temporary ++ logName
  else Files.inDirectory h.temporary logName

end Host

/-- What is reported when a conversion enters a stage. -/
def Conversion.Stage.events (job : Job) : Stage → List Log.Event
  | examining frames => .imageDecoded job :: frames.map fun _ => .entryRendered job
  | moving .. => [.moving job]
  | finished (.ok _) => [.iconWritten job]
  | _ => []

namespace Run

/-- What is reported of the settings. -/
def settingsEvents (f : Flags) (s : Except ResolveError Settings) : List Log.Event :=
  match f.config, s with
  | some file, .ok _ => [.settingsLoaded file]
  | _, _ => []

/-- The job, and what is reported before it is done. -/
def prepare (f : Flags) (read : Path → Except IoError Bytes) : List Log.Event × Except RunError Job :=
  let loaded := settingsEvents f (f.settings read)
  match f.resolve read with
  | .error e => (loaded, .error (.resolving e))
  | .ok job => (loaded ++ [.converting], .ok job)

/-- The result of a job, and what is reported of it, from the stages that it went through. -/
def conclude (job : Job) (stages : List Conversion.Stage) (r : Except ConvertError Nat) :
    List Log.Event × Except RunError Report :=
  let during := stages.flatMap (Conversion.Stage.events job)
  match r with
  | .error e => (during, .error (.converting e))
  | .ok n => (during ++ [.conversionFinished], .ok (Report.of job n))

/-- The work of a run whose command line is accepted. -/
def perform [Png.Writer] (h : Host) (f : Flags) (fs : Files) :
    List Log.Event × Except RunError Report × Files :=
  match prepare f (fs.read h.caller.cwd) with
  | (before, .error e) => (before, .error e, fs)
  | (before, .ok job) =>
    let x := Conversion.run job h.caller h.weather 0 .reading fs
    let y := conclude job x.1 x.2.1
    (before ++ y.1, y.2, x.2.2)

/-- What a run leaves beside the files. -/
structure Outcome where
  exitCode : Nat
  stdout : List Char
  stderr : List Char
  /-- What went into the log, if there is one. -/
  log : Option (List Log.Event)
  deriving DecidableEq, Repr

namespace Outcome

def ofStop (s : CommandLine.Stop) : Outcome :=
  if s.exitCode = 0 then ⟨0, s.message.toList, [], none⟩
  else ⟨s.exitCode, [], (s.message ++ "\n").toList, none⟩

def unopenedText : List Char := "Can't open log file\n".toList

/-- The end of a run with an accepted command line. -/
def ofResult (opened : Bool) (shown : List Log.Event) (r : Except RunError Report) : Outcome :=
  let reported := (if opened then [] else unopenedText) ++ shown.flatMap Log.Event.line
  let log := if opened then some shown else none
  match r with
  | .ok report => ⟨0, report.text ++ ['\n'], reported, log⟩
  | .error e => ⟨1, [], reported ++ e.text.toList, log⟩

end Outcome

/-- Writes what was reported into the log, unless something else has taken its place. -/
def writeLog (fs : Files) (at_ : Place) (shown : List Log.Event) : Files :=
  match fs.get? at_ with
  | some (.file _ []) => fs.append at_ (Text.utf8 (shown.flatMap Log.Event.line))
  | _ => fs

def execute [Png.Writer] (h : Host) (arguments : List Bytes) (fs : Files) : Outcome × Files :=
  match CommandLine.read arguments with
  | .error s => (.ofStop s, fs)
  | .ok f =>
    let reports := (Log.Filter.ofVariable h.logFilter).reports
    match fs.truncate h.caller h.logPath 0o666#12 with
    | .error _ =>
      let x := perform h f fs
      (.ofResult false (x.1.filter reports) x.2.1, x.2.2)
    | .ok (at_, opened) =>
      let x := perform h f opened
      let shown := x.1.filter reports
      (.ofResult true shown x.2.1, writeLog x.2.2 at_ shown)

/-- A run whose command line is not accepted touches nothing. -/
theorem execute_of_error [Png.Writer] {h : Host} {arguments : List Bytes} {fs : Files} {s : CommandLine.Stop}
    (hs : CommandLine.read arguments = .error s) : execute h arguments fs = (.ofStop s, fs) := by
  unfold execute
  rw [hs]

end Run

end IconMaker
