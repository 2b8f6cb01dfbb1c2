import Mathlib.Data.List.Forall2
import IconMaker.Png.Interlace

/-
  IconMaker.Proofs.Png.Interlacing — which pixels a pass holds.

  The format gives the passes as a pattern of eight by eight numbers; a pass has a line for
  every row with pixels of its number, and in it these pixels from the left. The reader has
  starts and steps instead. `columns_pass` and `rows_pass`: both are the same pixels in the
  same order, for every width and height, also where a pass has no pixels at all.
-/

namespace IconMaker.Png

/-- The pass of each pixel of a square; the image is paved with it. -/
def adam7 : List (List Nat) :=
  [[1, 6, 4, 6, 2, 6, 4, 6],
   [7, 7, 7, 7, 7, 7, 7, 7],
   [5, 6, 5, 6, 5, 6, 5, 6],
   [7, 7, 7, 7, 7, 7, 7, 7],
   [3, 6, 4, 6, 3, 6, 4, 6],
   [7, 7, 7, 7, 7, 7, 7, 7],
   [5, 6, 5, 6, 5, 6, 5, 6],
   [7, 7, 7, 7, 7, 7, 7, 7]]

def passNumber (interlaced : Bool) (x y : Nat) : Nat :=
  if interlaced then (adam7.getD (y % 8) []).getD (x % 8) 0 else 1

/-- The passes in the order in which they are stored. -/
def passNumbers (interlaced : Bool) : List Nat := if interlaced then [1, 2, 3, 4, 5, 6, 7] else [1]

/-- The columns of row `y` that are in a pass. -/
def columns (interlaced : Bool) (n width y : Nat) : List Nat :=
  (List.range width).filter fun x => passNumber interlaced x y == n

/-- The rows that have pixels in a pass. -/
def rows (interlaced : Bool) (n width height : Nat) : List Nat :=
  (List.range height).filter fun y => columns interlaced n width y != []

/-! ## Starts and steps -/

/-- A pass of the reader holds the pixels of one number. -/
structure IsPass (interlaced : Bool) (n : Nat) (p : Pass) : Prop where
  dx : p.dx = 1 ∨ p.dx = 2 ∨ p.dx = 4 ∨ p.dx = 8
  dy : p.dy = 1 ∨ p.dy = 2 ∨ p.dy = 4 ∨ p.dy = 8
  x0 : p.x0 < p.dx
  y0 : p.y0 < p.dy
  holds : ∀ x y, p.holds x y = (passNumber interlaced x y == n)

theorem holds_mod {p : Pass} (hx : p.dx ∣ 8) (hy : p.dy ∣ 8) (x y : Nat) :
    p.holds x y = p.holds (x % 8) (y % 8) := by
  simp only [Pass.holds, Nat.mod_mod_of_dvd _ hx, Nat.mod_mod_of_dvd _ hy]

theorem isPass_seven {n : Nat} {p : Pass} (hx : p.dx = 1 ∨ p.dx = 2 ∨ p.dx = 4 ∨ p.dx = 8)
    (hy : p.dy = 1 ∨ p.dy = 2 ∨ p.dy = 4 ∨ p.dy = 8) (hx0 : p.x0 < p.dx) (hy0 : p.y0 < p.dy)
    (h : ∀ x < 8, ∀ y < 8, p.holds x y = (passNumber true x y == n)) : IsPass true n p := by
  have dvd : ∀ {d : Nat}, d = 1 ∨ d = 2 ∨ d = 4 ∨ d = 8 → d ∣ 8 := by
    rintro d (rfl | rfl | rfl | rfl) <;> decide
  refine ⟨hx, hy, hx0, hy0, fun x y => ?_⟩
  rw [holds_mod (dvd hx) (dvd hy), h _ (Nat.mod_lt _ (by decide)) _ (Nat.mod_lt _ (by decide))]
  simp [passNumber]

/-- The passes of the reader are those of the pattern, in its order. -/
theorem passes_match (h : Header) : List.Forall₂ (IsPass h.interlaced) (passNumbers h.interlaced) h.passes := by
  unfold Header.passes passNumbers
  cases h.interlaced with
  | false =>
    refine .cons ⟨Or.inl rfl, Or.inl rfl, by decide, by decide, fun x y => ?_⟩ .nil
    simp [Pass.holds, Pass.whole, passNumber, Nat.mod_one]
  | true =>
    refine .cons ?_ (.cons ?_ (.cons ?_ (.cons ?_ (.cons ?_ (.cons ?_ (.cons ?_ .nil)))))) <;>
      exact isPass_seven (by decide) (by decide) (by decide) (by decide) (by decide)

/-- Every `d`-th number from `r` on. -/
theorem filter_range_mod {d r : Nat} (hd : d = 1 ∨ d = 2 ∨ d = 4 ∨ d = 8) (hr : r < d) (w : Nat) :
    (List.range w).filter (fun x => x % d == r) = (List.range ((w - r + d - 1) / d)).map fun i => r + i * d := by
  induction w with
  | zero =>
    have : (0 - r + d - 1) / d = 0 := Nat.div_eq_of_lt (by omega)
    rw [this]
    rfl
  | succ w ih =>
    rw [List.range_succ, List.filter_append, ih]
    by_cases hw : w % d = r
    · have hcount : (w + 1 - r + d - 1) / d = (w - r + d - 1) / d + 1 ∧ r + (w - r + d - 1) / d * d = w := by
        rcases hd with rfl | rfl | rfl | rfl <;> omega
      rw [hcount.1, List.range_succ, List.map_append]
      simp [hw, hcount.2]
    · have hcount : (w + 1 - r + d - 1) / d = (w - r + d - 1) / d := by
        rcases hd with rfl | rfl | rfl | rfl <;> omega
      simp [hw, hcount]

variable {interlaced : Bool} {n : Nat} {p : Pass}

theorem columns_pass (hp : IsPass interlaced n p) (width y : Nat) :
    columns interlaced n width y
      = if y % p.dy = p.y0 then (List.range (p.width width)).map fun i => p.x0 + i * p.dx else [] := by
  unfold columns
  have hfun : (fun x => passNumber interlaced x y == n) = fun x => x % p.dx == p.x0 && y % p.dy == p.y0 :=
    funext fun x => (hp.holds x y).symm
  rw [hfun]
  split
  · rename_i hy
    rw [Pass.width, ← filter_range_mod hp.dx hp.x0]
    simp [hy]
  · rename_i hy
    simp [hy]

theorem rows_pass (hp : IsPass interlaced n p) (width height : Nat) :
    rows interlaced n width height
      = if p.width width = 0 then [] else (List.range (p.height height)).map fun j => p.y0 + j * p.dy := by
  unfold rows
  split
  · rename_i hw
    simp [columns_pass hp, hw]
  · rename_i hw
    rw [Pass.height, ← filter_range_mod hp.dy hp.y0]
    refine List.filter_congr fun y _ => ?_
    rw [columns_pass hp]
    by_cases hy : y % p.dy = p.y0
    · simp [hy, hw]
    · simp [hy]

/-- Every pixel is in a pass. -/
theorem exists_pass (h : Header) (x y : Nat) : ∃ p ∈ h.passes, p.holds x y = true := by
  unfold Header.passes
  cases h.interlaced with
  | false => exact ⟨Pass.whole, List.mem_singleton.2 rfl, by simp [Pass.holds, Pass.whole, Nat.mod_one]⟩
  | true =>
    have hsquare : ∀ x < 8, ∀ y < 8, ∃ p ∈ Pass.seven, p.holds x y = true := by decide
    obtain ⟨p, hp, hh⟩ := hsquare (x % 8) (Nat.mod_lt _ (by decide)) (y % 8) (Nat.mod_lt _ (by decide))
    have hdvd : ∀ p ∈ Pass.seven, p.dx ∣ 8 ∧ p.dy ∣ 8 := by decide
    exact ⟨p, hp, by rw [holds_mod (hdvd p hp).1 (hdvd p hp).2]; exact hh⟩

end IconMaker.Png
