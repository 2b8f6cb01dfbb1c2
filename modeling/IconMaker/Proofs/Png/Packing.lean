import IconMaker.Proofs.Png.Container

/-
  IconMaker.Proofs.Png.Packing — the samples of a picture come out of its lines.

  `packedSample_packs` reads one sample out of one line, at every depth and whatever pads the
  line. `readPasses_lines` goes through the passes one after another: each takes its own lines
  and no more, and afterwards every pixel finds its samples (`storedSample_of_right`).
-/

namespace IconMaker.Png

variable {p : Picture} {e : Encoding}

/-! ## One sample -/

theorem eq_of_bits {a v n : Nat} (ha : a < 2 ^ n) (hv : v < 2 ^ n)
    (h : ∀ j < n, a.testBit j = v.testBit j) : a = v := by
  refine Nat.eq_of_testBit_eq fun j => ?_
  by_cases hj : j < n
  · exact h j hj
  · have hle : 2 ^ n ≤ 2 ^ j := Nat.pow_le_pow_right Nat.two_pos (Nat.le_of_not_lt hj)
    rw [Nat.testBit_lt_two_pow (Nat.lt_of_lt_of_le ha hle), Nat.testBit_lt_two_pow (Nat.lt_of_lt_of_le hv hle)]

/-- Bit `r` of byte `q` of a line. -/
theorem rowBit_byte (row : Bytes) (q : Nat) {r : Nat} (hr : r < 8) :
    Picture.rowBit row (8 * q + r) = (row.getD q 0).toNat.testBit (7 - r) := by
  rw [Picture.rowBit, show (8 * q + r) / 8 = q by omega, show (8 * q + r) % 8 = r by omega]

/-- Sample `m` of a line, if its bits are the right ones. -/
theorem packedSample_of_bits {depth v m : Nat} {row : Bytes}
    (hd : depth = 1 ∨ depth = 2 ∨ depth = 4 ∨ depth = 8 ∨ depth = 16) (hv : v < 2 ^ depth)
    (h : ∀ k < depth, Picture.rowBit row (m * depth + k) = v.testBit (depth - 1 - k)) :
    packedSample depth row.toArray m = v := by
  unfold packedSample
  simp only [getD_toArray]
  by_cases hwide : depth = 16
  · subst hwide
    have hlo := (row.getD (2 * m + 1) 0).toNat_lt
    have hhi := (row.getD (2 * m) 0).toNat_lt
    rw [if_pos rfl, Nat.mul_comm]
    refine eq_of_bits (by omega) hv fun j hj => ?_
    rw [Nat.testBit_two_pow_mul_add _ hlo]
    have := h (15 - j) (by omega)
    rw [show 16 - 1 - (15 - j) = j by omega] at this
    rw [← this]
    split
    · rw [show m * 16 + (15 - j) = 8 * (2 * m + 1) + (7 - j) by omega, rowBit_byte _ _ (by omega),
        show 7 - (7 - j) = j by omega]
    · rw [show m * 16 + (15 - j) = 8 * (2 * m) + (15 - j) by omega, rowBit_byte _ _ (by omega),
        show 7 - (15 - j) = j - 8 by omega]
  by_cases hbyte : depth = 8
  · subst hbyte
    rw [if_neg (by decide), if_pos rfl]
    refine eq_of_bits (row.getD m 0).toNat_lt hv fun j hj => ?_
    have := h (7 - j) (by omega)
    rw [show 8 - 1 - (7 - j) = j by omega, Nat.mul_comm, rowBit_byte _ _ (by omega), show 7 - (7 - j) = j by omega] at this
    exact this
  rw [if_neg hwide, if_neg hbyte]
  have hsmall : depth = 1 ∨ depth = 2 ∨ depth = 4 := by omega
  refine eq_of_bits (Nat.mod_lt _ (Nat.two_pow_pos depth)) hv fun j hj => ?_
  have hroom : m * depth % 8 + depth ≤ 8 := by
    rcases hsmall with rfl | rfl | rfl <;> omega
  have := h (depth - 1 - j) (by omega)
  rw [show depth - 1 - (depth - 1 - j) = j by omega,
    show m * depth + (depth - 1 - j) = 8 * (m * depth / 8) + (m * depth % 8 + (depth - 1 - j)) by omega,
    rowBit_byte _ _ (by omega)] at this
  rw [Nat.testBit_mod_two_pow, Nat.testBit_div_two_pow, decide_eq_true hj, Bool.true_and, ← this]
  congr 1
  omega

theorem packedSample_packs (hp : p.Legal) {columns : List Nat} {y i c : Nat} {row : Bytes} (h : p.Packs columns y row)
    (hi : i < columns.length) (hc : c < p.channels) (hv : p.sample (columns.getD i 0) y c < 2 ^ p.depth) :
    packedSample p.depth row.toArray (i * p.channels + c) = p.sample (columns.getD i 0) y c :=
  packedSample_of_bits (ColorType.depth_le hp.depth) hv fun k hk => h.bits i hi c hc k hk

/-! ## One pass -/

theorem header_samples (p : Picture) (e : Encoding) : (e.header p).color.samples = p.channels :=
  ColorType.samples_eq p.color

theorem header_rowBytes (p : Picture) (e : Encoding) (width : Nat) :
    (e.header p).rowBytes width = (width * p.channels * p.depth + 7) / 8 := by
  rw [Header.rowBytes, Header.bitsPerPixel, header_samples, Nat.mul_assoc, Nat.mul_comm p.channels]
  rfl

theorem header_pixelBytes (hp : p.Legal) (e : Encoding) : (e.header p).pixelBytes = p.pixelBytes := by
  rw [Header.pixelBytes, Header.bitsPerPixel, header_samples, Picture.pixelBytes, Nat.mul_comm p.channels]
  have key : ∀ t : ColorType, ∀ d ∈ t.legalDepths, max 1 (d * t.channels / 8) = (d * t.channels + 7) / 8 := by
    intro t
    cases t <;> decide
  exact key p.color p.depth hp.depth

theorem pixelBytes_pos (hp : p.Legal) : 0 < p.pixelBytes := by
  rw [← header_pixelBytes hp ⟨false, [], []⟩]
  exact Nat.lt_of_lt_of_le Nat.one_pos (Nat.le_max_left ..)

theorem exists_of_forall₂ {α β : Type} {R : α → β → Prop} {as : List α} {bs : List β} (h : List.Forall₂ R as bs) {b : β}
    (hb : b ∈ bs) : ∃ a ∈ as, R a b := by
  induction h with
  | nil => cases hb
  | cons hab _ ih =>
    rcases List.mem_cons.1 hb with rfl | hb
    · exact ⟨_, List.mem_cons_self .., hab⟩
    · obtain ⟨a, ha, hr⟩ := ih hb
      exact ⟨a, List.mem_cons_of_mem _ ha, hr⟩

theorem getElem?_of_forall₂ {α β : Type} {R : α → β → Prop} {as : List α} {bs : List β} (h : List.Forall₂ R as bs)
    {j : Nat} {a : α} (ha : as[j]? = some a) : ∃ b, bs[j]? = some b ∧ R a b := by
  induction h generalizing j with
  | nil => simp at ha
  | cons hab _ ih =>
    cases j with
    | zero =>
      rw [List.getElem?_cons_zero, Option.some.injEq] at ha
      subst ha
      exact ⟨_, rfl, hab⟩
    | succ j => exact ih ha

variable {interlaced : Bool} {n : Nat} {pass : Pass} {ls : List Line}

/-- The lines of a pass are as many and as long as the reader expects. -/
theorem legalPass_lines (e : Encoding) (hpass : IsPass interlaced n pass) (h : p.LegalPass interlaced n ls) :
    ls.length = (if pass.width p.width = 0 then 0 else pass.height p.height) ∧
      ∀ l ∈ ls, l.kind < 5 ∧ l.row.length = (e.header p).rowBytes (pass.width p.width) := by
  refine ⟨?_, fun l hl => ?_⟩
  · rw [← h.length_eq, rows_pass hpass]
    split <;> simp
  · obtain ⟨y, hy, hkind, hpacks⟩ := exists_of_forall₂ h hl
    have hcount : (columns interlaced n p.width y).length = pass.width p.width := by
      have hne : columns interlaced n p.width y ≠ [] := by simpa using (List.mem_filter.1 hy).2
      rw [columns_pass hpass] at hne ⊢
      split at hne
      · rename_i hrow
        rw [if_pos hrow, List.length_map, List.length_range]
      · exact absurd rfl hne
    exact ⟨hkind, by rw [hpacks.length, hcount, header_rowBytes]⟩

/-- A pixel of a pass is at the place that its column and its row give it. -/
theorem place_of_holds (hpass : IsPass interlaced n pass) {x y w h : Nat} (hx : x < w) (hy : y < h)
    (hh : pass.holds x y = true) :
    (columns interlaced n w y)[x / pass.dx]? = some x ∧ (rows interlaced n w h)[y / pass.dy]? = some y := by
  have hstep : ∀ {d r : Nat} (i : Nat), r < d → (r + i * d) / d = i := fun i hr => by
    rw [Nat.add_mul_div_right _ _ (Nat.lt_of_le_of_lt (Nat.zero_le _) hr), Nat.div_eq_of_lt hr, Nat.zero_add]
  have hcolumn : x ∈ columns interlaced n w y :=
    List.mem_filter.2 ⟨List.mem_range.2 hx, by rw [← hpass.holds]; exact hh⟩
  have hrow : y ∈ rows interlaced n w h :=
    List.mem_filter.2 ⟨List.mem_range.2 hy, by simpa using List.ne_nil_of_mem hcolumn⟩
  rw [columns_pass hpass] at hcolumn ⊢
  rw [rows_pass hpass] at hrow ⊢
  constructor
  · split at hcolumn
    · rename_i hmod
      obtain ⟨i, hi, rfl⟩ := List.mem_map.1 hcolumn
      rw [if_pos hmod, hstep i hpass.x0]
      simp [List.mem_range.1 hi]
    · cases hcolumn
  · split at hrow
    · cases hrow
    · rename_i hwidth
      obtain ⟨j, hj, rfl⟩ := List.mem_map.1 hrow
      rw [if_neg hwidth, hstep j hpass.y0]
      simp [List.mem_range.1 hj]

/-- The lines that the reader has for a pass hold the samples of its pixels. -/
def Right (p : Picture) (r : PassRows) : Prop :=
  ∀ x < p.width, ∀ y < p.height, r.1.holds x y = true → ∀ c < p.channels,
    packedSample p.depth (r.2.getD (y / r.1.dy) #[]) (x / r.1.dx * p.channels + c) = p.sample x y c

theorem right_pass (hp : p.Legal) (hpass : IsPass interlaced n pass) (h : p.LegalPass interlaced n ls) :
    Right p (pass, (ls.map (·.row.toArray)).toArray) := by
  intro x hx y hy hh c hc
  obtain ⟨hcolumn, hrow⟩ := place_of_holds hpass hx hy hh
  obtain ⟨l, hl, _, hpacks⟩ := getElem?_of_forall₂ h hrow
  have hi := (List.getElem?_eq_some_iff.1 hcolumn).1
  have hget : (columns interlaced n p.width y).getD (x / pass.dx) 0 = x := by
    rw [List.getD_eq_getElem?_getD, hcolumn]
    rfl
  have hline : (ls.map (·.row.toArray)).toArray.getD (y / pass.dy) #[] = l.row.toArray := by
    simp [hl]
  have hv := hp.samples x hx y hy c hc
  have := packedSample_packs hp hpacks hi hc (by rw [hget]; exact hv)
  rw [hget] at this
  dsimp only
  rw [hline, this]

/-! ## All passes -/

theorem readPasses_lines (hp : p.Legal) (e : Encoding) {ns : List Nat} {passes : List Pass} {lss : List (List Line)}
    (hpasses : List.Forall₂ (IsPass interlaced) ns passes) (h : List.Forall₂ (p.LegalPass interlaced) ns lss) :
    ∃ rs, readPasses (e.header p) passes (lss.flatMap (filteredLines p.pixelBytes [])) = some rs ∧
      rs.map Prod.fst = passes ∧ ∀ r ∈ rs, Right p r := by
  induction hpasses generalizing lss with
  | nil =>
    cases h
    exact ⟨[], rfl, rfl, by simp⟩
  | @cons n pass ns passes hpass _ ih =>
    cases h with
    | @cons _ ls _ lss hls hlss =>
      obtain ⟨rs, hrs, hmap, hright⟩ := ih hlss
      have hr := right_pass hp hpass hls
      obtain ⟨hcount, hlines⟩ := legalPass_lines e hpass hls
      unfold readPasses
      by_cases hw : pass.width p.width = 0
      · rw [if_pos hw] at hcount
        obtain rfl := List.length_eq_zero_iff.1 hcount
        have hwidth : pass.width (e.header p).width = 0 := hw
        rw [if_pos hwidth, List.flatMap_cons, filteredLines, List.nil_append, hrs]
        refine ⟨_, rfl, by rw [List.map_cons, hmap], fun r hr' => ?_⟩
        rcases List.mem_cons.1 hr' with rfl | hr'
        · exact hr
        · exact hright r hr'
      · rw [if_neg hw] at hcount
        have hwidth : ¬pass.width (e.header p).width = 0 := hw
        have hread := restoreRows_filteredLines (pixelBytes_pos hp) [] (lss.flatMap (filteredLines p.pixelBytes [])) hlines
        rw [hcount] at hread
        rw [if_neg hwidth, List.flatMap_cons, header_pixelBytes hp]
        have hread : restoreRows p.pixelBytes ((e.header p).rowBytes (pass.width (e.header p).width))
            (pass.height (e.header p).height) #[] (filteredLines p.pixelBytes [] ls
              ++ lss.flatMap (filteredLines p.pixelBytes [])) = _ := hread
        rw [hread]
        dsimp only
        rw [hrs]
        refine ⟨_, rfl, by rw [List.map_cons, hmap], fun r hr' => ?_⟩
        rcases List.mem_cons.1 hr' with rfl | hr'
        · exact hr
        · exact hright r hr'

/-- The filtered lines are no longer than the reader counts. -/
theorem length_data (e : Encoding) {ns : List Nat} {passes : List Pass} {lss : List (List Line)}
    (hpasses : List.Forall₂ (IsPass interlaced) ns passes) (h : List.Forall₂ (p.LegalPass interlaced) ns lss) :
    (lss.flatMap (filteredLines p.pixelBytes [])).length
      ≤ passes.foldr (fun q n => q.height p.height * (1 + (e.header p).rowBytes (q.width p.width)) + n) 0 := by
  induction hpasses generalizing lss with
  | nil =>
    cases h
    exact Nat.le_refl 0
  | @cons n pass ns passes hpass _ ih =>
    cases h with
    | cons hls hlss =>
      obtain ⟨hcount, hlines⟩ := legalPass_lines e hpass hls
      rw [List.flatMap_cons, List.length_append, length_filteredLines _ _ fun l hl => (hlines l hl).2, List.foldr_cons]
      refine Nat.add_le_add (Nat.mul_le_mul_right _ ?_) (ih hlss)
      rw [hcount]
      split
      · exact Nat.zero_le _
      · exact Nat.le_refl _

/-- Every pixel finds its samples. -/
theorem storedSample_of_right (e : Encoding) {rs : List PassRows} (hmap : rs.map Prod.fst = (e.header p).passes)
    (hright : ∀ r ∈ rs, Right p r) {x y c : Nat} (hx : x < p.width) (hy : y < p.height) (hc : c < p.channels) :
    storedSample (e.header p) rs x y c = p.sample x y c := by
  unfold storedSample
  cases hf : rs.find? fun r => r.1.holds x y with
  | none =>
    obtain ⟨pass, hmem, hh⟩ := exists_pass (e.header p) x y
    rw [← hmap] at hmem
    obtain ⟨r, hr, rfl⟩ := List.mem_map.1 hmem
    exact absurd hh (by simpa using List.find?_eq_none.1 hf r hr)
  | some r =>
    have hmem := List.mem_of_find?_eq_some hf
    have hh : r.1.holds x y = true := by simpa using List.find?_some hf
    rw [header_samples]
    exact hright r hmem x hx y hy hh c hc

end IconMaker.Png
