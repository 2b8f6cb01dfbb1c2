/-
  IconMaker.Filter — the resampling filters and their names.

  The same five names are used on the command line and in settings files.
-/

namespace IconMaker

inductive Filter where
  | nearest
  | triangle
  | catmullRom
  | gaussian
  | lanczos3
  deriving DecidableEq, Repr

namespace Filter

def all : List Filter := [nearest, triangle, catmullRom, gaussian, lanczos3]

def name : Filter → String
  | nearest => "nearest"
  | triangle => "triangle"
  | catmullRom => "catmull-rom"
  | gaussian => "gaussian"
  | lanczos3 => "lanczos3"

/-- The name as one word, as it stands in the log. -/
def word : Filter → String
  | nearest => "Nearest"
  | triangle => "Triangle"
  | catmullRom => "CatmullRom"
  | gaussian => "Gaussian"
  | lanczos3 => "Lanczos3"

def ofName? (s : List Char) : Option Filter := all.find? fun f => f.name.toList == s

def default : Filter := lanczos3

end Filter

end IconMaker
