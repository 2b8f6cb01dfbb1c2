import IconMaker.Conversion
import IconMaker.FileSystem.Operations

/-
  IconMaker.Conversion.Stage — a conversion as a sequence of steps on a file system.

  A conversion reads its input, makes the entries, looks whether the output is read-only, looks
  again for its mode, makes a temporary file in the output's directory, writes the icon to it
  piece by piece, syncs, measures, and moves the file over the output. `Stage` says where it
  stands, `advance` is one step, `run` all steps. What the operating system adds to a step is a
  `Circumstance`: a failure, the name of the temporary file, how much of a write it takes. A look
  that fails is passed over. Every failure after the temporary file was made leads through
  `discarding`, which removes it.
-/

namespace IconMaker

namespace Conversion

inductive Stage where
  | reading
  | examining (frames : List Frame)
  | asking (frames : List Frame)
  | creating (frames : List Frame) (mode : Mode)
  | writing (temporary : Place) (rest : Bytes)
  | syncing (temporary : Place)
  | measuring (temporary : Place)
  | moving (temporary : Place) (bytes : Nat)
  | discarding (temporary : Place) (cause : ConvertError)
  | finished (result : Except ConvertError Nat)

/-- The mode of an output that was no file before. -/
def usualMode : Mode := 0o644#12

namespace Stage

/-- After the input was read. -/
def afterReading [Png.Writer] (job : Job) (r : Except IoError Bytes) : Stage :=
  match prepare job r with
  | .error e => finished (.error e)
  | .ok frames => examining frames

/-- After the first look at the output, where a file of some mode may have been. -/
def afterExamining (job : Job) (frames : List Frame) : Option Mode → Stage
  | some m =>
    if m.readOnly then finished (.error (.outputUnwritable job.output .permissionDenied))
    else asking frames
  | none => asking frames

/-- After the second one. -/
def afterAsking (frames : List Frame) (seen : Option Mode) : Stage := creating frames (seen.getD usualMode)

/-- After the temporary file was made. -/
def afterCreating (frames : List Frame) (t : Place) : Stage :=
  match Icon.encode frames with
  | none => discarding t .noIcon
  | some icon => writing t icon

/-- After a step on the temporary file failed. -/
def afterFailure (job : Job) (t : Place) (e : IoError) : Stage :=
  discarding t (.outputUnwritable job.output e)

end Stage

/-- What the operating system decides at a step. -/
structure Circumstance where
  /-- The step fails. -/
  failure : Option IoError
  /-- The name for a temporary file. -/
  name : Name
  /-- How many bytes a write takes; at least one is taken. -/
  taken : Nat

/-- What a step gives, unless it fails. -/
def Circumstance.meet {α : Type} (c : Circumstance) (r : Except IoError α) : Except IoError α :=
  match c.failure with
  | some e => .error e
  | none => r

/-- The mode of the regular file that a path leads to, as a look at it shows it. A look that fails
    shows nothing. -/
def Circumstance.look (c : Circumstance) (fs : Files) (cwd : Place) (p : Path) : Option Mode :=
  match c.failure with
  | some _ => none
  | none => fs.fileMode? cwd p

/-- One step, taken for `caller`. -/
def advance [Png.Writer] (job : Job) (caller : Caller) (c : Circumstance) (fs : Files) : Stage → Stage × Files
  | .reading => (.afterReading job (c.meet (fs.read caller.cwd job.input)), fs)
  | .examining frames => (.afterExamining job frames (c.look fs caller.cwd job.output), fs)
  | .asking frames => (.afterAsking frames (c.look fs caller.cwd job.output), fs)
  | .creating frames mode =>
    match c.meet (fs.makeFile caller (Path.directory job.output) c.name mode) with
    | .error e => (.finished (.error (.outputUnwritable job.output e)), fs)
    | .ok (t, fs') => (.afterCreating frames t, fs')
  | .writing t rest =>
    match c.failure with
    | some e => (.afterFailure job t e, fs)
    | none =>
      if rest = [] then (.syncing t, fs)
      else (.writing t (rest.drop (max 1 c.taken)), fs.append t (rest.take (max 1 c.taken)))
  | .syncing t =>
    match c.meet (.ok ()) with
    | .error e => (.afterFailure job t e, fs)
    | .ok _ => (.measuring t, fs)
  | .measuring t =>
    match c.meet (.ok (fs.fileSize t)) with
    | .error e => (.afterFailure job t e, fs)
    | .ok n => (.moving t n, fs)
  | .moving t bytes =>
    match c.meet (fs.move caller.cwd t job.output) with
    | .error e => (.afterFailure job t e, fs)
    | .ok fs' => (.finished (.ok bytes), fs')
  | .discarding t e => (.finished (.error e), fs.erase t)
  | .finished r => (.finished r, fs)

namespace Stage

/-- Stages still to come; within `writing`, the bytes still to come decide. -/
def rank : Stage → Nat
  | reading => 9
  | examining _ => 8
  | asking _ => 7
  | creating _ _ => 6
  | writing _ _ => 5
  | syncing _ => 4
  | measuring _ => 3
  | moving _ _ => 2
  | discarding _ _ => 1
  | finished _ => 0

def left : Stage → Nat
  | writing _ rest => rest.length
  | _ => 0

/-- The result of a conversion that has ended. -/
def result? : Stage → Option (Except ConvertError Nat)
  | finished r => some r
  | _ => none

theorem rank_afterReading [Png.Writer] (job : Job) (r : Except IoError Bytes) : (afterReading job r).rank < 9 := by
  unfold afterReading
  split <;> simp [rank]

theorem rank_afterExamining (job : Job) (frames : List Frame) (m : Option Mode) :
    (afterExamining job frames m).rank < 8 := by
  unfold afterExamining
  repeat' split
  all_goals simp [rank]

theorem rank_afterCreating (frames : List Frame) (t : Place) : (afterCreating frames t).rank < 6 := by
  unfold afterCreating
  split <;> simp [rank]

end Stage

theorem rank_advance [Png.Writer] (job : Job) (caller : Caller) (c : Circumstance) (fs : Files) {s : Stage}
    (h : s.result? = none) :
    (advance job caller c fs s).1.rank < s.rank ∨
      (advance job caller c fs s).1.rank = s.rank ∧ (advance job caller c fs s).1.left < s.left := by
  cases s with
  | finished r => cases h
  | reading => exact Or.inl (Stage.rank_afterReading ..)
  | examining frames => exact Or.inl (Stage.rank_afterExamining ..)
  | asking frames => exact Or.inl (by simp [advance, Stage.afterAsking, Stage.rank])
  | creating frames mode =>
    left
    unfold advance
    dsimp only
    split
    · simp [Stage.rank]
    · exact Stage.rank_afterCreating ..
  | writing t rest =>
    unfold advance
    dsimp only
    split
    · exact Or.inl (by simp [Stage.afterFailure, Stage.rank])
    · split
      · exact Or.inl (by simp [Stage.rank])
      · rename_i hr
        have : 0 < rest.length := List.length_pos_iff.2 hr
        exact Or.inr ⟨rfl, by simp only [Stage.left, List.length_drop]; omega⟩
  | syncing t | measuring t | moving t n | discarding t e =>
    left
    unfold advance
    dsimp only
    repeat' split
    all_goals simp [Stage.afterFailure, Stage.rank]

def temporaryStart : Bytes := Text.utf8 ".png2ico-".toList
def temporaryEnd : Bytes := Text.utf8 ".tmp".toList

def isLetterOrDigit (b : UInt8) : Bool := (48 ≤ b && b ≤ 57) || (65 ≤ b && b ≤ 90) || (97 ≤ b && b ≤ 122)

/-- The name of a temporary file: six letters or digits between two fixed parts. -/
structure TemporaryName where
  tag : Bytes
  length_tag : tag.length = 6
  letters : ∀ b ∈ tag, isLetterOrDigit b = true
  deriving DecidableEq, Repr

namespace TemporaryName

def bytes (n : TemporaryName) : Name := temporaryStart ++ n.tag ++ temporaryEnd

/-- One of the 62 letters and digits. -/
def letter (d : Fin 62) : UInt8 :=
  if d < 10 then UInt8.ofNat (48 + d) else if d < 36 then UInt8.ofNat (55 + d) else UInt8.ofNat (61 + d)

/-- The last `n` digits of `k` to the base 62, from the last one on. -/
def digits : Nat → Nat → Bytes
  | 0, _ => []
  | n + 1, k => letter (Fin.ofNat 62 k) :: digits n (k / 62)

theorem length_digits (n k : Nat) : (digits n k).length = n := by
  induction n generalizing k with
  | zero => rfl
  | succ n ih => rw [digits, List.length_cons, ih]

theorem isLetterOrDigit_letter : ∀ d, isLetterOrDigit (letter d) = true := by decide

theorem isLetterOrDigit_of_mem_digits {n k : Nat} {b : UInt8} (h : b ∈ digits n k) : isLetterOrDigit b = true := by
  induction n generalizing k with
  | zero => cases h
  | succ n ih =>
    rcases List.mem_cons.1 h with rfl | h
    · exact isLetterOrDigit_letter _
    · exact ih h

/-- How many names there are. -/
def count : Nat := 62 ^ 6

def numbered (k : Nat) : TemporaryName := ⟨digits 6 k, length_digits 6 k, fun _ => isLetterOrDigit_of_mem_digits⟩

/-- A name that nothing has yet, unless all are taken. -/
def unused (fs : Files) : TemporaryName :=
  let names := (List.range (fs.entries.length + 1)).map numbered
  (names.find? fun n => fs.entries.all fun e => e.1.head? != some n.bytes).getD (numbered 0)

end TemporaryName

/-- What a whole run meets: which of its steps fail, how much each write takes, and what its
    temporary file is called among the files that are there. -/
structure Weather where
  failure : Nat → Option IoError
  taken : Nat → Nat
  name : Files → TemporaryName

/-- Nothing fails, every write is taken whole, and no name is used twice. -/
def Weather.calm : Weather := ⟨fun _ => none, fun _ => 2 ^ 32, .unused⟩

def Weather.at (w : Weather) (k : Nat) (fs : Files) : Circumstance := ⟨w.failure k, (w.name fs).bytes, w.taken k⟩

/-- All steps from a stage on, the next one being number `k`: the stages entered, the
    result, and the file system at the end. -/
def run [Png.Writer] (job : Job) (caller : Caller) (w : Weather) (k : Nat) (s : Stage) (fs : Files) :
    List Stage × Except ConvertError Nat × Files :=
  match h : s.result? with
  | some r => ([], r, fs)
  | none =>
    let x := advance job caller (w.at k fs) fs s
    let y := run job caller w (k + 1) x.1 x.2
    (x.1 :: y.1, y.2)
termination_by (s.rank, s.left)
decreasing_by
  have := rank_advance job caller (w.at k fs) fs h
  rw [Prod.lex_def]
  exact this

end Conversion

/-- A conversion from its first step. -/
def convert [Png.Writer] (job : Job) (caller : Caller) (w : Conversion.Weather) (fs : Files) :
    Except ConvertError Report × Files :=
  let x := Conversion.run job caller w 0 .reading fs
  (x.2.1.map (Report.of job), x.2.2)

end IconMaker
