import IconMaker.Text.Plain
import IconMaker.Settings

/-
  IconMaker.CommandLine.Option — the options of the command line, the reasons to stop
  reading it, and the texts shown for them.

  `Stop.message` of a refusal is one line; help and version texts are shown whole.
-/

namespace IconMaker.CommandLine

/-- The options that take a value. -/
inductive Opt where
  | input
  | output
  | size
  | filter
  | config
  deriving DecidableEq, Repr

namespace Opt

def all : List Opt := [input, output, size, filter, config]

def letter : Opt → Char
  | input => 'i'
  | output => 'o'
  | size => 's'
  | filter => 'f'
  | config => 'c'

def name : Opt → String
  | input => "input"
  | output => "output"
  | size => "size"
  | filter => "filter"
  | config => "config"

def valueName : Opt → String
  | input => "INPUT"
  | output => "OUTPUT"
  | size => "N|NxN"
  | filter => "FILTER"
  | config => "CONFIG"

def usage (o : Opt) : String := "--" ++ o.name ++ " <" ++ o.valueName ++ ">"

end Opt

/-- The options that take none and end the reading. -/
inductive Notice where
  | help
  | version
  deriving DecidableEq, Repr

namespace Notice

def all : List Notice := [help, version]

def letter : Notice → Char
  | help => 'h'
  | version => 'V'

def name : Notice → String
  | help => "help"
  | version => "version"

end Notice

/-- Why the reading of a command line ends early. -/
inductive Stop where
  | showHelp (long : Bool)
  | showVersion
  | unexpected (argument : List Char)
  | repeated (o : Opt)
  | noValue (o : Opt)
  | needlessValue (n : Notice) (value : List Char)
  | unknownFilter (value : List Char)
  | badSize (value : List Char) (cause : SizeError)
  | brokenText
  deriving DecidableEq, Repr

def shortHelp : String :=
  "Convert a PNG image into a multi-resolution Windows icon

Usage: png2ico [OPTIONS]

Options:
  -i, --input <INPUT>    Source PNG image
  -o, --output <OUTPUT>  Icon file to write
  -s, --size <N|NxN>     Entry size, repeat for several entries (replaces the default list)
  -f, --filter <FILTER>  Resampling filter [possible values: nearest, triangle, catmull-rom, gaussian, lanczos3]
  -c, --config <CONFIG>  TOML file with `input`, `output`, `sizes` and `filter` keys
  -h, --help             Print help (see more with '--help')
  -V, --version          Print version
"

def longHelp : String :=
  "Convert a PNG image into a multi-resolution Windows icon.

Without arguments `icons/icon.png` is converted to `icons/icon.ico` with 256, 128, 64, 48, 32 and 16 pixel entries.

Usage: png2ico [OPTIONS]

Options:
  -i, --input <INPUT>
          Source PNG image

  -o, --output <OUTPUT>
          Icon file to write

  -s, --size <N|NxN>
          Entry size, repeat for several entries (replaces the default list)

  -f, --filter <FILTER>
          Resampling filter
          \n          [possible values: nearest, triangle, catmull-rom, gaussian, lanczos3]

  -c, --config <CONFIG>
          TOML file with `input`, `output`, `sizes` and `filter` keys

  -h, --help
          Print help (see a summary with '-h')

  -V, --version
          Print version
"

def versionText : String := "png2ico 1.0.0\n"

/-- A value of the user's in a message, without terminal control sequences. -/
def shownValue (v : List Char) : String := String.ofList (Text.plain v)

def firstLine (s : String) : String := String.ofList (s.toList.takeWhile (· ≠ '\n'))

namespace Stop

def message : Stop → String
  | showHelp long => if long then longHelp else shortHelp
  | showVersion => versionText
  | unexpected a => firstLine ("error: unexpected argument '" ++ shownValue a ++ "' found")
  | repeated o => "error: the argument '" ++ o.usage ++ "' cannot be used multiple times"
  | noValue o => "error: a value is required for '" ++ o.usage ++ "' but none was supplied"
  | needlessValue n v =>
    firstLine ("error: unexpected value '" ++ shownValue v ++ "' for '--" ++ n.name
      ++ "' found; no more were expected")
  | unknownFilter v =>
    firstLine ("error: invalid value '" ++ shownValue v ++ "' for '" ++ Opt.filter.usage ++ "'")
  | badSize v e =>
    firstLine ("error: invalid value '" ++ shownValue v ++ "' for '" ++ Opt.size.usage ++ "': " ++ e.message)
  | brokenText => "error: invalid UTF-8 was detected in one or more arguments"

/-- The exit code of a program that stops for this. -/
def exitCode : Stop → Nat
  | showHelp _ => 0
  | showVersion => 0
  | _ => 2

end Stop

end IconMaker.CommandLine
