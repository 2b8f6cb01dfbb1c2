import IconMaker.Conversion.Stage
import IconMaker.Proofs.FileSystem.Directories
import Mathlib.Data.List.Nodup
import Mathlib.Data.List.Perm.Subperm

/-
  IconMaker.Proofs.Conversion.Temporary — how temporary files are named.

  What is named like a temporary file is named like an entry: the name has no slash in it, and it
  is neither `.` nor `..` (`slash_not_mem_temporaryName`, `ofPart_temporaryName`). The names that
  temporary files are given are such names, all of one length (`TemporaryName.length_bytes`), so a
  directory that one of them has room in has room for any (`resolve_iff`, `checkPath_congr`). There
  is one that nothing has yet as long as there are fewer entries than names (`get?_unused`).
-/

namespace IconMaker.Conversion

/-- What temporary files are recognised by. -/
def IsTemporaryName (n : Name) : Prop := ∃ s, Path.slash ∉ s ∧ n = temporaryStart ++ s ++ temporaryEnd

theorem slash_not_mem_temporaryName {n : Name} (h : IsTemporaryName n) : Path.slash ∉ n := by
  obtain ⟨s, hs, rfl⟩ := h
  have h1 : Path.slash ∉ temporaryStart := by decide
  have h2 : Path.slash ∉ temporaryEnd := by decide
  simp only [List.mem_append, not_or]
  exact ⟨⟨h1, hs⟩, h2⟩

theorem length_temporaryName {n : Name} (h : IsTemporaryName n) : 2 < n.length := by
  obtain ⟨s, -, rfl⟩ := h
  have h1 : temporaryStart.length = 9 := by decide
  simp only [List.length_append, h1]
  omega

theorem ofPart_temporaryName {n : Name} (h : IsTemporaryName n) : Component.ofPart n = .name n := by
  have hl := length_temporaryName h
  have h1 : n ≠ [Path.dot] := fun e => by simp [e] at hl
  have h2 : n ≠ [Path.dot, Path.dot] := fun e => by simp [e] at hl
  simp [Component.ofPart, h1, h2]

theorem ne_nil_of_temporaryName {n : Name} (h : IsTemporaryName n) : n ≠ [] := by
  intro e
  have hlength := length_temporaryName h
  rw [e] at hlength
  cases hlength

namespace TemporaryName

variable {fs : Files}

theorem not_mem_tag (n : TemporaryName) {b : UInt8} (hb : isLetterOrDigit b = false) : b ∉ n.tag := by
  intro h
  have hletter := n.letters b h
  rw [hb] at hletter
  cases hletter

theorem isTemporaryName_bytes (n : TemporaryName) : IsTemporaryName n.bytes := ⟨n.tag, n.not_mem_tag (by decide), rfl⟩

theorem zero_not_mem_bytes (n : TemporaryName) : 0 ∉ n.bytes := by
  have hstart : 0 ∉ temporaryStart := by decide
  have hend : 0 ∉ temporaryEnd := by decide
  simp only [bytes, List.mem_append, not_or]
  exact ⟨⟨hstart, n.not_mem_tag (by decide)⟩, hend⟩

theorem length_bytes (n : TemporaryName) : n.bytes.length = 19 := by
  have hstart : temporaryStart.length = 9 := by decide
  have hend : temporaryEnd.length = 4 := by decide
  simp only [bytes, List.length_append, hstart, hend, n.length_tag]

/-- A temporary name is one in the directory that it is put behind. -/
theorem resolve_iff (n : TemporaryName) {cwd d t : Place} {path : Path} (hr : fs.resolve cwd true path = .ok d)
    (hd : fs.enter d = .ok ()) : fs.resolve cwd false (Files.inDirectory path n.bytes) = .ok t ↔
      Files.checkPath (Files.inDirectory path n.bytes) = .ok () ∧ t = n.bytes :: d := by
  have hn := n.isTemporaryName_bytes
  have hshort : n.bytes.length ≤ Files.maxName := by
    rw [n.length_bytes]
    decide
  rw [Files.resolve_inDirectory_iff hr hd (slash_not_mem_temporaryName hn) (ne_nil_of_temporaryName hn)
    (ofPart_temporaryName hn)]
  simp only [hshort, true_and]

theorem checkPath_congr (n n' : TemporaryName) {path : Path}
    (h : Files.checkPath (Files.inDirectory path n.bytes) = .ok ()) :
    Files.checkPath (Files.inDirectory path n'.bytes) = .ok () := by
  obtain ⟨hzero, -, hlength⟩ := Files.checkPath_eq_ok_iff.1 h
  rw [Files.checkPath_eq_ok_iff]
  simp only [Files.inDirectory, List.mem_append, List.mem_cons, not_or, List.length_append, List.length_cons,
    length_bytes] at hzero hlength ⊢
  exact ⟨⟨hzero.1, hzero.2.1, n'.zero_not_mem_bytes⟩, by simp, hlength⟩

/-! ## Names by number -/

theorem letter_injective : ∀ a b : Fin 62, letter a = letter b → a = b := by decide +kernel

theorem digits_injective {n j k : Nat} (hj : j < 62 ^ n) (hk : k < 62 ^ n) (h : digits n j = digits n k) : j = k := by
  induction n generalizing j k with
  | zero => omega
  | succ n ih =>
    rw [Nat.pow_succ'] at hj hk
    obtain ⟨hletter, hrest⟩ := List.cons.inj h
    have hlast : j % 62 = k % 62 := congrArg Fin.val (letter_injective _ _ hletter)
    have hbefore : j / 62 = k / 62 := ih (Nat.div_lt_of_lt_mul hj) (Nat.div_lt_of_lt_mul hk) hrest
    omega

theorem numbered_injective {j k : Nat} (hj : j < count) (hk : k < count) (h : (numbered j).bytes = (numbered k).bytes) :
    j = k :=
  digits_injective hj hk (List.append_cancel_left (List.append_cancel_right h))

/-- One of so many names is not taken, since they are more than the entries. -/
theorem exists_find?_numbered (h : fs.entries.length < count) :
    ∃ n, (((List.range (fs.entries.length + 1)).map numbered).find?
      fun n => fs.entries.all fun e => e.1.head? != some n.bytes) = some n := by
  rw [← Option.isSome_iff_exists, List.find?_isSome]
  by_contra hnone
  have htaken : (List.range (fs.entries.length + 1)).map (fun k => (numbered k).bytes) ⊆
      fs.entries.filterMap (·.1.head?) := by
    intro n hn
    obtain ⟨k, hk, rfl⟩ := List.mem_map.1 hn
    have hnot : ¬ (fs.entries.all fun e => e.1.head? != some (numbered k).bytes) = true :=
      fun hall => hnone ⟨_, List.mem_map_of_mem hk, hall⟩
    simpa [List.mem_filterMap] using hnot
  have hdistinct : ((List.range (fs.entries.length + 1)).map fun k => (numbered k).bytes).Nodup := by
    refine List.Nodup.map_on ?_ List.nodup_range
    intro j hj k hk he
    rw [List.mem_range] at hj hk
    exact numbered_injective (by omega) (by omega) he
  have hle := (hdistinct.subperm htaken).length_le
  have hfew : (fs.entries.filterMap (·.1.head?)).length ≤ fs.entries.length := List.length_filterMap_le ..
  rw [List.length_map, List.length_range] at hle
  omega

theorem get?_unused (h : fs.entries.length < count) (d : Place) : fs.get? ((unused fs).bytes :: d) = none := by
  obtain ⟨n, hn⟩ := exists_find?_numbered h
  have hunused : unused fs = n := by
    unfold unused
    simp only [hn, Option.getD_some]
  have hfree := List.find?_some hn
  rw [hunused, Files.get?, List.lookup_eq_none_iff]
  intro e he
  rw [bne_iff_ne]
  intro hplace
  have hhead := List.all_eq_true.1 hfree e he
  rw [← hplace] at hhead
  simp at hhead

end TemporaryName

end IconMaker.Conversion
