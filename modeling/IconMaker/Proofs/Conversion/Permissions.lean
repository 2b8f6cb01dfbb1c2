import IconMaker.Proofs.Conversion.Repeat

/-
  IconMaker.Proofs.Conversion.Permissions — what becomes of the mode of an icon that is replaced.

  The mode of the old file is asked for when the temporary file is made, and nothing sets it
  afterwards. So the umask takes its part of it, and the writing of the icon takes the right to run
  as the owner or the group (`a_replaced_icon_keeps_what_is_left_to_it`). A mode that loses nothing
  to either is kept (`Mode.Survives`), and no other: an icon that everyone may write to is one that
  only its owner may write to after it was replaced (`a_shared_icon_is_shared_no_more`).
-/

namespace IconMaker

/-! ## Modes that a new file keeps -/

namespace Mode

variable {m umask c : Mode}

/-- Nothing of the mode is lost when a file is made with it under the umask and written to. -/
structure Survives (m umask : Mode) : Prop where
  allowed : m &&& umask = 0#12
  /-- Who runs the file does not do so as its owner. -/
  owner : m.getLsbD 11 = false
  /-- Nor as its group, if the group may run it. -/
  group : m.getLsbD 3 = true → m.getLsbD 10 = false

theorem and_not_eq_self_iff : m &&& ~~~c = m ↔ m &&& c = 0#12 := by
  simp only [BitVec.eq_of_getLsbD_eq_iff, BitVec.getLsbD_and, BitVec.getLsbD_not, BitVec.getLsbD_zero]
  refine forall₂_congr fun i hi => ?_
  simp only [hi, decide_true, Bool.true_and]
  cases m.getLsbD i <;> simp

theorem afterWrite_eq_self_iff :
    m.afterWrite = m ↔ m.getLsbD 11 = false ∧ (m.getLsbD 3 = true → m.getLsbD 10 = false) := by
  have howner : 0o4000#12 = BitVec.twoPow 12 11 := rfl
  have hboth : 0o6000#12 = BitVec.twoPow 12 11 ||| BitVec.twoPow 12 10 := rfl
  rw [afterWrite, and_not_eq_self_iff]
  cases m.getLsbD 3 with
  | false =>
    rw [if_neg Bool.false_ne_true, howner, BitVec.and_twoPow]
    cases m.getLsbD 11 <;> simp
  | true =>
    rw [if_pos rfl, hboth, BitVec.and_or_distrib_left, BitVec.and_twoPow, BitVec.and_twoPow]
    cases m.getLsbD 11 <;> cases m.getLsbD 10 <;> decide

/-- What the umask has taken away no write gives back. -/
theorem masked_eq_of_afterWrite (h : (m.masked umask).afterWrite = m) : m.masked umask = m := by
  rw [← h, masked_afterWrite]

theorem survives_iff : (m.masked umask).afterWrite = m ↔ m.Survives umask := by
  constructor
  · intro h
    have hmasked := masked_eq_of_afterWrite h
    rw [hmasked] at h
    obtain ⟨howner, hgroup⟩ := afterWrite_eq_self_iff.1 h
    exact ⟨and_not_eq_self_iff.1 hmasked, howner, hgroup⟩
  · intro h
    have hmasked : m.masked umask = m := and_not_eq_self_iff.2 h.allowed
    rw [hmasked]
    exact afterWrite_eq_self_iff.2 ⟨h.owner, h.group⟩

end Mode

namespace Files

variable {fs : Files} {cwd p : Place} {path : Path} {m m' : Mode} {c : Bytes}

theorem fileMode?_eq_some_iff : fs.fileMode? cwd path = some m ↔
    ∃ p c, fs.resolve cwd true path = .ok p ∧ fs.get? p = some (.file m c) := by
  unfold fileMode? lookup
  constructor
  · intro h
    cases hp : fs.resolve cwd true path with
    | error e => simp [hp] at h
    | ok p =>
      cases hv : fs.get? p with
      | none => simp [hp, hv] at h
      | some v =>
        cases v with
        | file mode c =>
          simp only [hp, hv, Option.some.injEq] at h
          exact ⟨p, c, rfl, h ▸ hv⟩
        | dir mode | link target => simp [hp, hv] at h
  · rintro ⟨p, c, hp, hv⟩
    simp only [hp, hv]

/-- A path whose entry was replaced by a file leads to that file, if it leads to one. -/
theorem fileMode?_put (hp : fs.moveTarget cwd path = .ok p)
    (h : (fs.put p (.file m c)).fileMode? cwd path = some m') : m' = m := by
  obtain ⟨q, c', hq, hfile⟩ := fileMode?_eq_some_iff.1 h
  have he := resolve_put hp hq
  rw [he, get?_put (moveTarget_ne_nil hp), if_pos rfl] at hfile
  cases hfile
  rfl

/-- It does if the entry was no directory and no link before. -/
theorem fileMode?_put_leaf (hp : fs.moveTarget cwd path = .ok p) (hl : isLeaf (fs.get? p) = true) :
    (fs.put p (.file m c)).fileMode? cwd path = some m := by
  have hget : ∀ q, (fs.put p (.file m c)).get? q = if q = p then some (.file m c) else fs.get? q :=
    fun q => get?_put (moveTarget_ne_nil hp)
  have hfile : (fs.put p (.file m c)).get? p = some (.file m c) := by rw [hget, if_pos rfl]
  have hleaf : isLeaf ((fs.put p (.file m c)).get? p) = true := by rw [hfile]; rfl
  have hways : SameWays fs (fs.put p (.file m c)) := .of_leaf hl hleaf fun q hq => by rw [hget, if_neg hq]
  exact fileMode?_eq_some_iff.2 ⟨p, c, resolve_of_leaf (moveTarget_eq hways hp) hleaf, hfile⟩

end Files

namespace Conversion

variable {job : Job} {caller : Caller} {w : Weather} {fs fs' : Files} {report : Report} {m : Mode}

/-! ## The new icon's mode -/

/-- A run that replaces a regular file of mode `m` leaves of `m` what neither the umask nor the
    writing takes away: the output's entry has it, and so has every file that the output's path
    leads to, which is sure to lead to one if the entry was no link. That is `m` itself just if `m`
    survives both. -/
theorem a_replaced_icon_keeps_what_is_left_to_it [Png.LawfulWriter]
    (h : convert job caller w fs = (.ok report, fs')) (hseen : modeSeen job caller w fs = some m) :
    ∃ p icon, fs.moveTarget caller.cwd job.output = .ok p ∧
      fs'.get? p = some (.file (m.masked caller.umask).afterWrite icon) ∧
      (∀ m', fs'.fileMode? caller.cwd job.output = some m' → m' = (m.masked caller.umask).afterWrite) ∧
      (Files.isLeaf (fs.get? p) = true →
        fs'.fileMode? caller.cwd job.output = some (m.masked caller.umask).afterWrite) ∧
      ((m.masked caller.umask).afterWrite = m ↔ m.Survives caller.umask) := by
  obtain ⟨p, icon, hp, -, -, rfl⟩ := exists_put_of_convert h
  have hmode : modeAfter job caller w fs = (m.masked caller.umask).afterWrite := by
    rw [modeAfter, modeAsked, hseen, Option.getD_some]
  rw [hmode]
  refine ⟨p, icon, hp, ?_, fun m' => Files.fileMode?_put hp, Files.fileMode?_put_leaf hp, Mode.survives_iff⟩
  rw [Files.get?_put (Files.moveTarget_ne_nil hp), if_pos rfl]

theorem modeSeen_onePixelFiles : modeSeen onePixelJob anyone .calm onePixelFiles = some 0o644#12 := by cbv

/-- The icon of one pixel replaces a file that only its owner may write to. -/
theorem a_private_icon_stays_private : ∃ fs' icon,
    convert onePixelJob anyone .calm onePixelFiles = (.ok (Report.of onePixelJob 95), fs') ∧
      fs'.get? [[98]] = some (.file 0o644#12 icon) := by
  obtain ⟨fs', hrun⟩ := convert_calm
  obtain ⟨p, icon, hp, hfile, -⟩ := a_replaced_icon_keeps_what_is_left_to_it hrun modeSeen_onePixelFiles
  have hentry := Files.resolve_of_moveTarget hp
  rw [show anyone.cwd = [] from rfl, show onePixelJob.output = [98] from rfl, entry_onePixelFiles] at hentry
  cases hentry
  exact ⟨fs', icon, hrun, hfile⟩

/-! ## An icon that everyone may write to -/

/-- The files of before, with an icon at `b` that everyone may write to. -/
def sharedFiles : Files := ⟨[([[98]], .file 0o666#12 [1, 2]), ([[97]], .file 0o600#12 onePixel)]⟩

/-- It is replaced under the usual umask, and of the others' rights the one to read is left. -/
theorem a_shared_icon_is_shared_no_more :
    sharedFiles.fileMode? [] [98] = some 0o666#12 ∧ Mode.readOnly 0o666#12 = false ∧
      (convert onePixelJob anyone .calm sharedFiles).1 = .ok (Report.of onePixelJob 95) ∧
      (convert onePixelJob anyone .calm sharedFiles).2.fileMode? [] [98] = some 0o644#12 :=
  ⟨by cbv, by decide, by cbv, by cbv⟩

end Conversion

end IconMaker
