import IconMaker.Icon
import IconMaker.Resample
import IconMaker.Settings
import IconMaker.FileSystem.Basic

/-
  IconMaker.Conversion — from the bytes of an image to the entries of an icon.

  `loadImage` says what is wrong with an input, `renderFrames` makes one entry per size, in
  the order of the sizes, and `prepare` is both. `ConvertError` has every reason why a
  conversion fails; `Report` is what a successful one tells. The PNG files in the entries are those
  of any `Png.Writer`.
-/

namespace IconMaker

inductive ConvertError where
  | inputNotFound (path : Path)
  | inputUnreadable (path : Path) (cause : IoError)
  | undecodable (path : Path)
  | outputUnwritable (path : Path) (cause : IoError)
  | badSizes (cause : SizeError)
  | noFrame (size : Size)
  | noIcon
  deriving DecidableEq, Repr

def ConvertError.message : ConvertError → String
  | inputNotFound p => "Input image " ++ Path.quoted p ++ " does not exist"
  | inputUnreadable p _ => "Input image " ++ Path.quoted p ++ " could not be read"
  | undecodable p => "Input image " ++ Path.quoted p ++ " is not a decodable PNG"
  | outputUnwritable p _ => "Output icon " ++ Path.quoted p ++ " could not be written"
  | badSizes _ => "Unsupported icon size"
  | noFrame s => "Failed to encode the " ++ String.ofList s.text ++ " icon entry"
  | noIcon => "Failed to encode the icon container"

/-- The message and, behind a colon, the cause. -/
def ConvertError.chain (e : ConvertError) : String :=
  match e with
  | inputUnreadable _ c | outputUnwritable _ c => e.message ++ ": " ++ c.text
  | badSizes c => e.message ++ ": " ++ c.message
  | _ => e.message

structure Report where
  input : Path
  output : Path
  sizes : SizeList
  bytes : Nat
  deriving DecidableEq, Repr

def Report.text (r : Report) : List Char :=
  "Converted ".toList ++ Path.displayName r.input ++ " to ".toList ++ Path.displayName r.output
    ++ " with multiple sizes".toList

/-- The report of a job whose icon has so many bytes. -/
def Report.of (job : Job) (bytes : Nat) : Report := ⟨job.input, job.output, job.sizes, bytes⟩

/-- The image in the bytes that reading the input gave. -/
def loadImage (p : Path) (r : Except IoError Bytes) : Except ConvertError Raster :=
  match r with
  | .error .notFound => .error (.inputNotFound p)
  | .error e => .error (.inputUnreadable p e)
  | .ok bs =>
    match Png.decode bs with
    | none => .error (.undecodable p)
    | some image => .ok image

/-- The picture of the entry of one size. -/
def entryImage (image : Raster) (filter : Filter) (s : Size) : Raster :=
  (image.resize filter s.edge s.edge).toRgba8

def renderFrame [Png.Writer] (image : Raster) (filter : Filter) (s : Size) : Except ConvertError Frame :=
  match Frame.ofRaster? (entryImage image filter s) with
  | some f => .ok f
  | none => .error (.noFrame s)

def renderFrames [Png.Writer] (image : Raster) (filter : Filter) (sizes : SizeList) :
    Except ConvertError (List Frame) :=
  sizes.sizes.mapM (renderFrame image filter)

/-- The entries for a job, from what reading its input gave. -/
def prepare [Png.Writer] (job : Job) (r : Except IoError Bytes) : Except ConvertError (List Frame) :=
  match loadImage job.input r with
  | .error e => .error e
  | .ok image => renderFrames image job.filter job.sizes

end IconMaker
