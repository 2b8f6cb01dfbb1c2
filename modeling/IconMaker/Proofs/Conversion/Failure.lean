import Mathlib
import IconMaker.Proofs.Conversion.Alone
import IconMaker.Proofs.Png.Encode

/-
  IconMaker.Proofs.Conversion.Failure — a conversion that fails leaves no trace.

  Whatever step fails, with whatever error, however much of the icon has been written by then,
  and whatever the temporary file is called: after the failure the files are the same value as
  before (`failure_changes_nothing`).
-/

namespace IconMaker.Conversion

/-- A conversion that fails has not changed the files: not when it runs from its first step to
    its last, and not under any other circumstances that its steps may meet. -/
theorem failure_changes_nothing [Png.Writer] (job : Job) (caller : Caller) (fs : Files) :
    (∀ w e fs', convert job caller w fs = (.error e, fs') → fs' = fs) ∧
    ∀ cs e fs', steps job caller cs (.reading, fs) = (.finished (.error e), fs') → fs' = fs := by
  have hsteps : ∀ cs e fs', steps job caller cs (.reading, fs) = (.finished (.error e), fs') → fs' = fs :=
    fun cs e fs' h => alone_of_steps h
  refine ⟨fun w e fs' h => ?_, hsteps⟩
  obtain ⟨cs, r, hr, he⟩ := exists_steps_of_convert h
  cases r with
  | ok n => cases he
  | error e' => exact hsteps cs e' fs' hr

/-! ## A disk that becomes full -/

/-- A grey image of one pixel. -/
def onePixel : Bytes :=
  Png.signature ++ [0, 0, 0, 13, 73, 72, 68, 82, 0, 0, 0, 1, 0, 0, 0, 1, 8, 0, 0, 0, 0, 58, 126, 155, 85]
    ++ [0, 0, 0, 13, 73, 68, 65, 84, 120, 1, 1, 2, 0, 253, 255, 0, 0, 0, 2, 0, 1, 126, 5, 13, 210]
    ++ [0, 0, 0, 0, 73, 69, 78, 68, 174, 66, 96, 130]

/-- From `a` to `b`, one entry of one pixel. -/
def onePixelJob : Job where
  input := [97]
  output := [98]
  sizes := ⟨[⟨1, by decide, by decide⟩], by decide, by decide⟩
  filter := .nearest

/-- Where there is something at the output. -/
def onePixelFiles : Files := ⟨[([[98]], .file 0o644#12 [1, 2]), ([[97]], .file 0o600#12 onePixel)]⟩

def anyone : Caller := ⟨[], 0o022#12⟩

/-- Writes take forty bytes, and the second one fails. -/
def fullDisk : Weather :=
  { Weather.calm with failure := fun k => if k = 5 then some (.other 28) else none, taken := fun _ => 40 }

theorem convert_fullDisk : convert onePixelJob anyone fullDisk onePixelFiles
    = (.error (.outputUnwritable [98] (.other 28)), onePixelFiles) := by
  cbv

theorem a_full_disk_changes_nothing :
    ∃ fs', convert onePixelJob anyone fullDisk onePixelFiles = (.error (.outputUnwritable [98] (.other 28)), fs') ∧
      fs' = onePixelFiles :=
  ⟨_, convert_fullDisk, (failure_changes_nothing onePixelJob anyone onePixelFiles).1 fullDisk _ _ convert_fullDisk⟩

end IconMaker.Conversion
