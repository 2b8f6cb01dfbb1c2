import IconMaker.Settings

/-
  IconMaker.Log.Event — what the program reports while it works.

  An event is a message and the spans that are open when it happens. A message has a level,
  the module it comes from and the names of its fields; a span has a name, its module, and
  fields with values. `Event.line` is an event's line in the log.
-/

namespace IconMaker.Log

inductive Level where
  | error
  | warn
  | info
  | debug
  | trace
  deriving DecidableEq, Repr

namespace Level

def all : List Level := [error, warn, info, debug, trace]

/-- The greater, the more is reported; 0 is left for nothing at all. -/
def rank : Level → Nat
  | error => 1
  | warn => 2
  | info => 3
  | debug => 4
  | trace => 5

def name : Level → String
  | error => "ERROR"
  | warn => "WARN"
  | info => "INFO"
  | debug => "DEBUG"
  | trace => "TRACE"

end Level

/-- The value of a field, as it is written. -/
inductive Value where
  | count (n : Nat)
  | text (s : List Char)
  deriving DecidableEq, Repr

namespace Value

def path (p : Path) : Value := text (Text.quotedBytes p)

end Value

/-- A part of a run that events happen in. -/
structure Span where
  name : String
  source : String
  fields : List (String × Value)
  deriving DecidableEq, Repr

def sourceMain : String := "png2ico"
def sourceArguments : String := "png2ico::cli"
def sourceSettings : String := "png2ico::config"
def sourceConversion : String := "png2ico::convert"

namespace Span

/-- The spans around everything. -/
def program : List Span := [⟨"main", sourceMain, []⟩, ⟨"main_impl", sourceMain, []⟩]

/-- The spans in which the settings of a file are loaded. -/
def loading (file : Path) : List Span :=
  program ++
    [⟨"resolve", sourceArguments, [("config", .text ("Some(".toList ++ Text.quotedBytes file ++ [')']))]⟩,
      ⟨"load", sourceSettings, [("path", .path file)]⟩]

def converting (job : Job) : List Span :=
  program ++ [⟨"convert", sourceConversion, [("input", .path job.input), ("output", .path job.output)]⟩]

def reading (job : Job) : List Span :=
  converting job ++ [⟨"load_source", sourceConversion, [("path", .path job.input)]⟩]

def rendering (job : Job) : List Span :=
  converting job ++
    [⟨"render_frames", sourceConversion,
      [("filter", .text job.filter.word.toList), ("sizes", .text job.sizes.text)]⟩]

def writing (job : Job) : List Span :=
  converting job ++
    [⟨"write_icon", sourceConversion,
      [("path", .path job.output), ("frames", .count job.sizes.sizes.length)]⟩]

end Span

inductive Message where
  | settingsLoaded
  | converting
  | imageDecoded
  | entryRendered
  | moving
  | iconWritten
  | conversionFinished
  deriving DecidableEq, Repr

namespace Message

def level : Message → Level
  | converting | iconWritten | conversionFinished => .info
  | settingsLoaded | imageDecoded | entryRendered | moving => .debug

def source : Message → String
  | converting | conversionFinished => sourceMain
  | settingsLoaded => sourceSettings
  | imageDecoded | entryRendered | moving | iconWritten => sourceConversion

def fields : Message → List String
  | settingsLoaded => ["message", "config"]
  | converting => ["message", "input", "output", "sizes", "filter"]
  | imageDecoded => ["message", "width", "height", "color"]
  | entryRendered => ["message", "size"]
  | moving => ["message", "temp", "bytes"]
  | iconWritten => ["message", "bytes", "sizes"]
  | conversionFinished => ["message", "bytes", "sizes"]

def text : Message → String
  | settingsLoaded => "Loaded config"
  | converting => "Converting icon"
  | imageDecoded => "Decoded source image"
  | entryRendered => "Rendered icon entry"
  | moving => "Moving icon into place"
  | iconWritten => "Icon written"
  | conversionFinished => "Conversion finished"

end Message

structure Event where
  message : Message
  spans : List Span
  deriving DecidableEq, Repr

namespace Event

def settingsLoaded (file : Path) : Event := ⟨.settingsLoaded, Span.loading file⟩
def converting : Event := ⟨.converting, Span.program⟩
def imageDecoded (job : Job) : Event := ⟨.imageDecoded, Span.reading job⟩
def entryRendered (job : Job) : Event := ⟨.entryRendered, Span.rendering job⟩
def moving (job : Job) : Event := ⟨.moving, Span.writing job⟩
def iconWritten (job : Job) : Event := ⟨.iconWritten, Span.converting job⟩
def conversionFinished : Event := ⟨.conversionFinished, Span.program⟩

def line (e : Event) : List Char := (e.message.level.name ++ " " ++ e.message.text ++ "\n").toList

end Event

end IconMaker.Log
