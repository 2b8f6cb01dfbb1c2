import IconMaker.Proofs.Png.Accepted
import IconMaker.Proofs.Png.Packing

/-
  IconMaker.Proofs.Png.Lines — the scanlines in any bytes whatsoever, and the pixels in them.

  As for the expansion (`Deflate.Tokens`, `Zlib.Unpacks`), each relation has a rule for every way
  in which its reader goes on or stops, and a byte that a rule takes from a line is there: the one
  before in the line itself, the ones above in a line of the same length or nowhere, if there is
  no line above (`Restores`); the bytes of a sample in the line of its pixel, whatever the pass and
  the depth (`stored_storedSample`).
-/

namespace IconMaker.Png

/-! ## Lines -/

/-- The byte in a place of the line above; above the first line there are zeros. -/
def Above (above : Array UInt8) (i : Nat) (b : UInt8) : Prop := above = #[] ∧ b = 0 ∨ above[i]? = some b

/-- Restoring a line below another one; the last two arrays are the bytes restored so far and in
    the end. -/
inductive Restores (p : Predictor) (back : Nat) (above : Array UInt8) : Bytes → Array UInt8 → Array UInt8 → Prop
  | done {row : Array UInt8} : Restores p back above [] row row
  /-- A byte of the first pixel, where nothing is before. -/
  | first {x up : UInt8} {r : Bytes} {done row : Array UInt8} : done.size < back → Above above done.size up →
      Restores p back above r (done.push (x + p.predict 0 up 0)) row → Restores p back above (x :: r) done row
  | next {x left up corner : UInt8} {r : Bytes} {done row : Array UInt8} : back ≤ done.size →
      done[done.size - back]? = some left → Above above done.size up → Above above (done.size - back) corner →
      Restores p back above r (done.push (x + p.predict left up corner)) row → Restores p back above (x :: r) done row

theorem above_getD {above : Array UInt8} {i n : Nat} (habove : above = #[] ∨ above.size = n) (hi : i < n) :
    Above above i (above.getD i 0) := by
  rcases habove with rfl | hsize
  · exact Or.inl ⟨rfl, rfl⟩
  · exact Or.inr (getElem?_eq_some_getD (hsize ▸ hi) 0)

theorem restores_restore {p : Predictor} {back n : Nat} {above : Array UInt8} {r : Bytes} {done : Array UInt8}
    (hback : 0 < back) (habove : above = #[] ∨ above.size = n) (hn : done.size + r.length = n) :
    Restores p back above r done (p.restore back above r done) := by
  induction r generalizing done with
  | nil => exact .done
  | cons x r ih =>
    rw [List.length_cons] at hn
    have hup := above_getD habove (i := done.size) (by omega)
    have hrest : ∀ b, Restores p back above r (done.push b) (p.restore back above r (done.push b)) :=
      fun b => ih (by rw [Array.size_push]; omega)
    rw [Predictor.restore]
    by_cases hfirst : done.size < back
    · refine .first hfirst hup ?_
      simp only [Predictor.before, if_pos hfirst]
      exact hrest _
    · refine .next (Nat.le_of_not_lt hfirst) (getElem?_eq_some_getD (by omega) 0) hup (above_getD habove (by omega)) ?_
      simp only [Predictor.before, if_neg hfirst]
      exact hrest _

theorem Restores.size_eq {p : Predictor} {back : Nat} {above : Array UInt8} {r : Bytes} {done row : Array UInt8}
    (h : Restores p back above r done row) : row.size = done.size + r.length := by
  induction h with
  | done => rfl
  | first _ _ _ ih | next _ _ _ _ _ ih =>
    rw [ih, Array.size_push, List.length_cons]
    omega

/-- Restoring `n` lines of `rowBytes` bytes below the one given. -/
inductive RestoresRows (back rowBytes : Nat) :
    Nat → Array UInt8 → Bytes → Option (List (Array UInt8) × Bytes) → Prop
  | done {above : Array UInt8} {bs : Bytes} : RestoresRows back rowBytes 0 above bs (some ([], bs))
  | missing {n : Nat} {above : Array UInt8} : RestoresRows back rowBytes (n + 1) above [] none
  | unknown {n : Nat} {above : Array UInt8} {b : UInt8} {bs : Bytes} : 5 ≤ b.toNat →
      RestoresRows back rowBytes (n + 1) above (b :: bs) none
  | short {n : Nat} {above : Array UInt8} {b : UInt8} {bs : Bytes} : bs.length < rowBytes →
      RestoresRows back rowBytes (n + 1) above (b :: bs) none
  | row {n : Nat} {above row : Array UInt8} {b : UInt8} {filtered bs : Bytes} {p : Predictor}
      {r : Option (List (Array UInt8) × Bytes)} :
      Predictor.ofCode? b = some p → filtered.length = rowBytes → Restores p back above filtered #[] row →
      RestoresRows back rowBytes n row bs r →
      RestoresRows back rowBytes (n + 1) above (b :: (filtered ++ bs)) (r.map fun x => (row :: x.1, x.2))

theorem le_of_ofCode? {b : UInt8} (h : Predictor.ofCode? b = none) : 5 ≤ b.toNat := by
  by_contra hlt
  have hcases : b = 0 ∨ b = 1 ∨ b = 2 ∨ b = 3 ∨ b = 4 := by
    simp only [← UInt8.toNat_inj]
    have hsmall : b.toNat < 5 := Nat.lt_of_not_le hlt
    simp
    omega
  rcases hcases with rfl | rfl | rfl | rfl | rfl <;> cases h

theorem restoresRows_restoreRows {back : Nat} (hback : 0 < back) (rowBytes n : Nat) {above : Array UInt8}
    (habove : above = #[] ∨ above.size = rowBytes) (bs : Bytes) :
    RestoresRows back rowBytes n above bs (restoreRows back rowBytes n above bs) := by
  induction n generalizing above bs with
  | zero => exact .done
  | succ n ih =>
    cases bs with
    | nil => exact .missing
    | cons b bs =>
      rw [restoreRows]
      cases hp : Predictor.ofCode? b with
      | none => exact .unknown (le_of_ofCode? hp)
      | some p =>
        cases hsplit : Bytes.split? rowBytes bs with
        | none => exact .short (Bytes.lt_of_split? hsplit)
        | some x =>
          obtain ⟨filtered, rest⟩ := x
          obtain ⟨rfl, hlength⟩ := Bytes.split?_eq hsplit
          have hrow : Restores p back above filtered #[] (p.restore back above filtered #[]) :=
            restores_restore hback habove (by simpa using hlength)
          have hsize : (p.restore back above filtered #[]).size = rowBytes := by simpa [hlength] using hrow.size_eq
          have hrows := RestoresRows.row hp hlength hrow (ih (Or.inr hsize) rest)
          dsimp only
          cases hrest : restoreRows back rowBytes n (p.restore back above filtered #[]) rest with
          | none => rwa [hrest] at hrows
          | some y => rwa [hrest] at hrows

/-- What has been restored is all there. -/
theorem RestoresRows.full {back rowBytes n : Nat} {above : Array UInt8} {bs : Bytes}
    {r : Option (List (Array UInt8) × Bytes)} (h : RestoresRows back rowBytes n above bs r) :
    ∀ x, r = some x → x.1.length = n ∧ ∀ row ∈ x.1, row.size = rowBytes := by
  induction h with
  | done =>
    rintro x ⟨⟩
    exact ⟨rfl, fun _ h => (List.not_mem_nil h).elim⟩
  | missing | unknown _ | short _ =>
    rintro x ⟨⟩
  | row _ hlength hrow _ ih =>
    intro x hx
    obtain ⟨y, rfl, rfl⟩ := Option.map_eq_some_iff.1 hx
    obtain ⟨hn, hrows⟩ := ih y rfl
    refine ⟨congrArg (· + 1) hn, fun row hmem => ?_⟩
    rcases List.mem_cons.1 hmem with rfl | hmem
    · simpa [hlength] using hrow.size_eq
    · exact hrows row hmem

/-! ## Passes -/

/-- Reading the lines of passes one after another; a pass without columns takes none. -/
inductive ReadsPasses (h : Header) : List Pass → Bytes → Option (List PassRows) → Prop
  | done {bs : Bytes} : ReadsPasses h [] bs (some [])
  | empty {p : Pass} {ps : List Pass} {bs : Bytes} {r : Option (List PassRows)} : p.width h.width = 0 →
      ReadsPasses h ps bs r → ReadsPasses h (p :: ps) bs (r.map ((p, #[]) :: ·))
  | wrong {p : Pass} {ps : List Pass} {bs : Bytes} : p.width h.width ≠ 0 →
      RestoresRows h.pixelBytes (h.rowBytes (p.width h.width)) (p.height h.height) #[] bs none →
      ReadsPasses h (p :: ps) bs none
  | pass {p : Pass} {ps : List Pass} {bs rest : Bytes} {rows : List (Array UInt8)} {r : Option (List PassRows)} :
      p.width h.width ≠ 0 →
      RestoresRows h.pixelBytes (h.rowBytes (p.width h.width)) (p.height h.height) #[] bs (some (rows, rest)) →
      ReadsPasses h ps rest r → ReadsPasses h (p :: ps) bs (r.map ((p, rows.toArray) :: ·))

theorem readsPasses_readPasses (h : Header) (ps : List Pass) (bs : Bytes) : ReadsPasses h ps bs (readPasses h ps bs) := by
  have hback : 0 < h.pixelBytes := Nat.lt_of_lt_of_le Nat.one_pos (Nat.le_max_left ..)
  induction ps generalizing bs with
  | nil => exact .done
  | cons p ps ih =>
    rw [readPasses]
    split
    · exact .empty ‹_› (ih bs)
    · rename_i hwidth
      have hrows := restoresRows_restoreRows hback (h.rowBytes (p.width h.width)) (p.height h.height) (Or.inl rfl) bs
      split
      · rename_i hnone
        rw [hnone] at hrows
        exact .wrong hwidth hrows
      · rename_i rows rest hsome
        rw [hsome] at hrows
        exact .pass hwidth hrows (ih rest)

/-- All lines of the pass are there, in full. -/
structure Full (h : Header) (x : PassRows) : Prop where
  rows : x.2.size = x.1.height h.height
  bytes : ∀ row ∈ x.2, row.size = h.rowBytes (x.1.width h.width)

theorem ReadsPasses.full {h : Header} {ps : List Pass} {bs : Bytes} {r : Option (List PassRows)}
    (hr : ReadsPasses h ps bs r) : ∀ passes, r = some passes → passes.map Prod.fst = ps ∧
      ∀ x ∈ passes, x.1.width h.width ≠ 0 → Full h x := by
  induction hr with
  | done =>
    rintro passes ⟨⟩
    exact ⟨rfl, fun _ h => (List.not_mem_nil h).elim⟩
  | wrong _ _ =>
    rintro passes ⟨⟩
  | empty hwidth _ ih =>
    intro passes hpasses
    obtain ⟨y, rfl, rfl⟩ := Option.map_eq_some_iff.1 hpasses
    obtain ⟨hmap, hfull⟩ := ih y rfl
    refine ⟨congrArg _ hmap, fun x hx hne => ?_⟩
    rcases List.mem_cons.1 hx with rfl | hx
    · exact absurd hwidth hne
    · exact hfull x hx hne
  | pass _ hrows _ ih =>
    intro passes hpasses
    obtain ⟨y, rfl, rfl⟩ := Option.map_eq_some_iff.1 hpasses
    obtain ⟨hmap, hfull⟩ := ih y rfl
    refine ⟨congrArg _ hmap, fun x hx hne => ?_⟩
    rcases List.mem_cons.1 hx with rfl | hx
    · obtain ⟨hlength, hbytes⟩ := hrows.full _ rfl
      exact ⟨hlength, fun row hrow => hbytes row (List.mem_toArray.1 hrow)⟩
    · exact hfull x hx hne

/-! ## Pixels -/

/-- Sample `i` of a line is made of bytes that are in the line. -/
def Packed (depth : Nat) (row : Array UInt8) (i v : Nat) : Prop :=
  if depth = 16 then ∃ high low, row[2 * i]? = some high ∧ row[2 * i + 1]? = some low ∧ v = high.toNat * 256 + low.toNat
  else if depth = 8 then ∃ b, row[i]? = some b ∧ v = b.toNat
  else ∃ b, row[i * depth / 8]? = some b ∧ v = b.toNat / 2 ^ (8 - depth - i * depth % 8) % 2 ^ depth

/-- Sample `c` of a pixel stands in a line of the first pass that holds the pixel. -/
def Stored (h : Header) (passes : List PassRows) (x y c v : Nat) : Prop :=
  ∃ pass rows row, (passes.find? fun p => p.1.holds x y) = some (pass, rows) ∧ rows[y / pass.dy]? = some row ∧
    Packed h.depth row (x / pass.dx * h.color.samples + c) v

theorem packed_packedSample {depth i n : Nat} {row : Array UInt8}
    (hd : depth = 1 ∨ depth = 2 ∨ depth = 4 ∨ depth = 8 ∨ depth = 16) (hi : i < n)
    (hsize : row.size = (n * depth + 7) / 8) : Packed depth row i (packedSample depth row i) := by
  unfold Packed packedSample
  by_cases hwide : depth = 16
  · subst hwide
    rw [if_pos rfl, if_pos rfl]
    exact ⟨_, _, getElem?_eq_some_getD (by omega) 0, getElem?_eq_some_getD (by omega) 0, rfl⟩
  · rw [if_neg hwide, if_neg hwide]
    by_cases hbyte : depth = 8
    · subst hbyte
      rw [if_pos rfl, if_pos rfl]
      exact ⟨_, getElem?_eq_some_getD (by omega) 0, rfl⟩
    · rw [if_neg hbyte, if_neg hbyte]
      have hlt : i * depth / 8 < row.size := by
        rcases hd with rfl | rfl | rfl | rfl | rfl <;> omega
      exact ⟨_, getElem?_eq_some_getD hlt 0, rfl⟩

/-- A number of a class of `d` has its place among those of the class. -/
theorem place_lt_of_mod {d r w x : Nat} (hd : d = 1 ∨ d = 2 ∨ d = 4 ∨ d = 8) (hr : x % d = r) (hx : x < w) :
    x / d < (w - r + d - 1) / d := by
  rcases hd with rfl | rfl | rfl | rfl <;> omega

theorem stored_storedSample {h : Header} {passes : List PassRows} {x y c : Nat} (hlegal : h.isLegal = true)
    (hmap : passes.map Prod.fst = h.passes) (hfull : ∀ x ∈ passes, x.1.width h.width ≠ 0 → Full h x) (hx : x < h.width)
    (hy : y < h.height) (hc : c < h.color.samples) : Stored h passes x y c (storedSample h passes x y c) := by
  unfold Stored storedSample
  cases hf : passes.find? fun p => p.1.holds x y with
  | none =>
    exfalso
    obtain ⟨p, hp, hholds⟩ := exists_pass h x y
    rw [← hmap, List.mem_map] at hp
    obtain ⟨q, hq, rfl⟩ := hp
    exact List.find?_eq_none.1 hf q hq hholds
  | some q =>
    obtain ⟨pass, rows⟩ := q
    have hmem := List.mem_of_find?_eq_some hf
    have hholds : pass.holds x y = true := by simpa using List.find?_some hf
    obtain ⟨n, -, hpass⟩ := exists_of_forall₂ (passes_match h) (hmap ▸ List.mem_map_of_mem (f := Prod.fst) hmem)
    simp only [Pass.holds, Bool.and_eq_true, beq_iff_eq] at hholds
    have hcolumn : x / pass.dx < pass.width h.width := place_lt_of_mod hpass.dx hholds.1 hx
    have hline : y / pass.dy < pass.height h.height := place_lt_of_mod hpass.dy hholds.2 hy
    have hrows := hfull _ hmem (Nat.ne_of_gt (Nat.lt_of_le_of_lt (Nat.zero_le _) hcolumn))
    have hthere : y / pass.dy < rows.size := hrows.rows ▸ hline
    have hrow : rows[y / pass.dy]? = some (rows.getD (y / pass.dy) #[]) := getElem?_eq_some_getD hthere #[]
    have hsize := hrows.bytes _ (Array.mem_of_getElem? hrow)
    refine ⟨pass, rows, _, rfl, hrow, ?_⟩
    refine packed_packedSample (n := pass.width h.width * h.color.samples) (depth_cases hlegal) ?_ ?_
    · calc x / pass.dx * h.color.samples + c < (x / pass.dx + 1) * h.color.samples := by rw [Nat.succ_mul]; omega
        _ ≤ pass.width h.width * h.color.samples := Nat.mul_le_mul_right _ hcolumn
    · rw [hsize, Header.rowBytes, Header.bitsPerPixel, Nat.mul_comm h.depth, Nat.mul_assoc]

end IconMaker.Png
