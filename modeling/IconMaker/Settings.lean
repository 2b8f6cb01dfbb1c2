import IconMaker.SizeList
import IconMaker.Filter
import IconMaker.Path

/-
  IconMaker.Settings — what a conversion can be told, and the job that comes of it.

  `Settings` leaves out what is not said; `Flags` is what a command line says. Flags win over
  settings field by field, sizes as a whole list, and what neither says has a default.
-/

namespace IconMaker

structure Settings where
  input : Option Path
  output : Option Path
  sizes : Option (List Size)
  filter : Option Filter
  deriving DecidableEq, Repr

structure Flags where
  input : Option Path
  output : Option Path
  config : Option Path
  sizes : List Size
  filter : Option Filter
  deriving DecidableEq, Repr

structure Job where
  input : Path
  output : Path
  sizes : SizeList
  filter : Filter
  deriving DecidableEq, Repr

def Flags.empty : Flags := ⟨none, none, none, [], none⟩

namespace Settings

def empty : Settings := ⟨none, none, none, none⟩

def defaultInput : Path := Text.utf8 "icons/icon.png".toList
def defaultOutput : Path := Text.utf8 "icons/icon.ico".toList

def overriddenBy (s : Settings) (f : Flags) : Settings where
  input := f.input.or s.input
  output := f.output.or s.output
  sizes := if f.sizes = [] then s.sizes else some f.sizes
  filter := f.filter.or s.filter

def sizeList (s : Settings) : Except SizeError SizeList :=
  match s.sizes with
  | some l => SizeList.ofList l
  | none => .ok SizeList.default

def job (s : Settings) : Except SizeError Job :=
  s.sizeList.map fun sizes =>
    ⟨s.input.getD defaultInput, s.output.getD defaultOutput, sizes, s.filter.getD Filter.default⟩

end Settings

end IconMaker
