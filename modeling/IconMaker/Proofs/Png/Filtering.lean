import IconMaker.Png.Scanline

/-
  IconMaker.Proofs.Png.Filtering — restoring undoes every filter.

  The writer's side is stated from the numbers of the format: a line is the number of its
  filter and its bytes, and `filtered` subtracts from each byte what the filter predicts from
  the bytes of the line itself and of the line above. `restoreRows_filteredLines`: whatever
  filters are chosen, line for line, reading gives the lines back and stops behind them.
-/

namespace IconMaker.Png

/-! ## The filters by number -/

/-- Of `left`, `up` and `corner` the first that is nearest to `left + up - corner`. -/
def paeth (left up corner : UInt8) : UInt8 :=
  let estimate : Int := left.toNat + up.toNat - corner.toNat
  let far (b : UInt8) : Nat := (estimate - b.toNat).natAbs
  if far left ≤ far up ∧ far left ≤ far corner then left
  else if far up ≤ far corner then up
  else corner

def predicted (kind : Nat) (left up corner : UInt8) : UInt8 :=
  match kind with
  | 0 => 0
  | 1 => left
  | 2 => up
  | 3 => UInt8.ofNat ((left.toNat + up.toNat) / 2)
  | _ => paeth left up corner

/-- The byte `back` places before place `i`, 0 outside the line. -/
def byteBefore (row : Bytes) (back i : Nat) : UInt8 := if i < back then 0 else row.getD (i - back) 0

def filtered (kind back : Nat) (above row : Bytes) : Bytes :=
  row.mapIdx fun i x => x - predicted kind (byteBefore row back i) (above.getD i 0) (byteBefore above back i)

/-- A line of an image and the filter it is written with. -/
structure Line where
  kind : Nat
  row : Bytes
  deriving DecidableEq, Repr

def filteredLines (back : Nat) : Bytes → List Line → Bytes
  | _, [] => []
  | above, l :: ls => UInt8.ofNat l.kind :: (filtered l.kind back above l.row ++ filteredLines back l.row ls)

@[simp] theorem length_filtered (kind back : Nat) (above row : Bytes) : (filtered kind back above row).length = row.length := by
  simp [filtered]

theorem length_filteredLines {n : Nat} {ls : List Line} (back : Nat) (above : Bytes)
    (h : ∀ l ∈ ls, l.row.length = n) : (filteredLines back above ls).length = ls.length * (1 + n) := by
  induction ls generalizing above with
  | nil => simp [filteredLines]
  | cons l ls ih =>
    rw [filteredLines, List.length_cons, List.length_append, length_filtered, h l (List.mem_cons_self ..),
      ih _ fun l hl => h l (List.mem_cons_of_mem _ hl), List.length_cons, Nat.succ_mul]
    omega

/-! ## Restoring -/

theorem exists_predictor {kind : Nat} (h : kind < 5) :
    ∃ p, Predictor.ofCode? (UInt8.ofNat kind) = some p ∧ p.predict = predicted kind := by
  match kind, h with
  | 0, _ => exact ⟨.zero, rfl, rfl⟩
  | 1, _ => exact ⟨.left, rfl, rfl⟩
  | 2, _ => exact ⟨.up, rfl, rfl⟩
  | 3, _ => exact ⟨.average, rfl, rfl⟩
  | 4, _ => exact ⟨.paeth, rfl, rfl⟩

theorem before_toArray (row : Bytes) (back i : Nat) : Predictor.before row.toArray back i = byteBefore row back i := by
  simp [Predictor.before, byteBefore, List.getD_eq_getElem?_getD]

theorem getD_toArray (row : Bytes) (i : Nat) : row.toArray.getD i 0 = row.getD i 0 := by
  simp [List.getD_eq_getElem?_getD]

theorem byteBefore_append {done r : Bytes} {back : Nat} (hback : 0 < back) :
    byteBefore (done ++ r) back done.length = byteBefore done back done.length := by
  unfold byteBefore
  split
  · rfl
  · rename_i h
    have : 0 < done.length := by omega
    rw [List.getD_eq_getElem?_getD, List.getElem?_append_left (by omega), ← List.getD_eq_getElem?_getD]

/-- The bytes restored so far are those of the line, so the next prediction is the writer's. -/
theorem restore_suffix {p : Predictor} {kind back : Nat} (hp : p.predict = predicted kind) (hback : 0 < back)
    (above done r : Bytes) :
    p.restore back above.toArray ((filtered kind back above (done ++ r)).drop done.length) done.toArray
      = (done ++ r).toArray := by
  induction r generalizing done with
  | nil =>
    rw [List.append_nil, List.drop_of_length_le (Nat.le_of_eq (length_filtered ..))]
    rfl
  | cons x r ih =>
    have hlt : done.length < (filtered kind back above (done ++ x :: r)).length := by
      rw [length_filtered, List.length_append, List.length_cons]
      omega
    rw [List.drop_eq_getElem_cons hlt, Predictor.restore]
    have hget : (filtered kind back above (done ++ x :: r))[done.length] = x - predicted kind
        (byteBefore done back done.length) (above.getD done.length 0) (byteBefore above back done.length) := by
      simp only [filtered, List.getElem_mapIdx, byteBefore_append hback]
      rw [List.getElem_append_right (Nat.le_refl _)]
      simp
    have hnext := ih (done ++ [x])
    rw [List.append_assoc, List.singleton_append, List.length_append, List.length_singleton] at hnext
    rw [hget, List.size_toArray, before_toArray, before_toArray, hp]
    simp only [getD_toArray, UInt8.sub_add_cancel, List.push_toArray]
    exact hnext

theorem restore_filtered {p : Predictor} {kind back : Nat} (hp : p.predict = predicted kind) (hback : 0 < back)
    (above row : Bytes) : p.restore back above.toArray (filtered kind back above row) #[] = row.toArray :=
  restore_suffix hp hback above [] row

theorem restoreRows_filteredLines {back n : Nat} {ls : List Line} (hback : 0 < back) (above rest : Bytes)
    (h : ∀ l ∈ ls, l.kind < 5 ∧ l.row.length = n) :
    restoreRows back n ls.length above.toArray (filteredLines back above ls ++ rest)
      = some (ls.map (·.row.toArray), rest) := by
  induction ls generalizing above with
  | nil => rfl
  | cons l ls ih =>
    obtain ⟨hkind, hlen⟩ := h l (List.mem_cons_self ..)
    obtain ⟨p, hcode, hp⟩ := exists_predictor hkind
    have hsplit : Bytes.split? n (filtered l.kind back above l.row ++ (filteredLines back l.row ls ++ rest))
        = some (filtered l.kind back above l.row, filteredLines back l.row ls ++ rest) := by
      rw [← hlen, ← length_filtered l.kind back above l.row]
      exact Bytes.split?_append _ _
    rw [filteredLines, List.length_cons, List.cons_append, List.append_assoc, restoreRows, hcode, hsplit]
    dsimp only
    rw [restore_filtered hp hback, ih _ fun l hl => h l (List.mem_cons_of_mem _ hl)]
    rfl

end IconMaker.Png
