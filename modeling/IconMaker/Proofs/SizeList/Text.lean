import IconMaker.Proofs.Results
import IconMaker.Proofs.Size
import IconMaker.Proofs.SizeList

/-
  IconMaker.Proofs.SizeList.Text — a list of sizes reads back from what is written for it.

  A text is cut at its commas, and each piece is read as a size by itself. The blank that is
  written behind a comma stands in front of the next piece, where it does not count.
  - `pieces_text`: the pieces of a written list are the texts of its sizes, but for these blanks.
    No comma is part of a size, so there are no other cuts.
  - `lists_read_back`: so a list reads back as it is, no two lists are written alike, and what is
    written for texts of sizes is read as these texts are.
-/

namespace IconMaker

namespace Size

variable {c : Char} {s : List Char}

theorem trim_cons_blank (hc : Text.isBlank c = true) (s : List Char) : Text.trim (c :: s) = Text.trim s := by
  rw [Text.trim, List.dropWhile_cons_of_pos hc, Text.trim]

/-- A blank in front of a text does not count. -/
theorem parse_cons_blank (hc : Text.isBlank c = true) (s : List Char) : parse (c :: s) = parse s := by
  unfold parse
  rw [trim_cons_blank hc]

theorem comma_notMem_text (s : Size) : ',' ∉ s.text := by
  have hdigits : ',' ∉ Nat.toDigits 10 s.edge := by
    intro h
    have hdigit := Nat.isDigit_of_mem_toDigits (by decide) (by decide) h
    exact absurd hdigit (by decide)
  simp [text, hdigits]

end Size

namespace SizeList

/-- Texts of sizes, each read by itself, as a list. -/
def ofTexts (texts : List (List Char)) : Except SizeError SizeList := (texts.mapM Size.parse).bind ofList

/-- What stands between the commas of a text. -/
def pieces (t : List Char) : List (List Char) := t.splitOn ','

variable {l : List Size} {list : SizeList} {texts : List (List Char)}

theorem ofTexts_of_parse (h : List.Forall₂ (fun t s => Size.parse t = .ok s) texts l) : ofTexts texts = ofList l := by
  unfold ofTexts
  rw [mapM_eq_ok_iff.2 h]
  rfl

/-! ## The pieces of a written list -/

/-- A size as it stands behind a comma. -/
def blankText (s : Size) : List Char := ' ' :: s.text

theorem intercalate_cons (c : Char) (t : List Char) (ts : List (List Char)) :
    [','].intercalate ((c :: t) :: ts) = c :: [','].intercalate (t :: ts) := by
  cases ts with
  | nil => simp
  | cons u ts => rw [List.intercalate_cons_cons, List.intercalate_cons_cons, List.cons_append, List.cons_append]

theorem joinText_cons (s : Size) (l : List Size) :
    joinText (s :: l) = [','].intercalate (s.text :: l.map blankText) := by
  induction l generalizing s with
  | nil => simp [joinText]
  | cons t l ih =>
    have hjoin : joinText (s :: t :: l) = s.text ++ ',' :: ' ' :: joinText (t :: l) := rfl
    rw [hjoin, ih, List.map_cons, List.intercalate_cons_cons, blankText, intercalate_cons, List.append_assoc,
      List.singleton_append]

theorem pieces_text {s : Size} (h : list.sizes = s :: l) : pieces list.text = s.text :: l.map blankText := by
  unfold pieces text
  rw [h, joinText_cons]
  refine List.splitOn_intercalate ',' ?_ (List.cons_ne_nil _ _)
  intro t ht
  rcases List.mem_cons.1 ht with rfl | ht
  · exact s.comma_notMem_text
  · obtain ⟨u, -, rfl⟩ := List.mem_map.1 ht
    exact List.not_mem_cons_of_ne_of_not_mem (by decide) u.comma_notMem_text

/-- A list reads back from its text. -/
theorem ofTexts_pieces (list : SizeList) : ofTexts (pieces list.text) = .ok list := by
  obtain ⟨s, l, hsizes⟩ := List.exists_cons_of_ne_nil list.nonempty
  have hparse : List.Forall₂ (fun t s => Size.parse t = .ok s) (s.text :: l.map blankText) (s :: l) := by
    refine .cons (Size.parse_text s) ?_
    rw [List.forall₂_map_left_iff, List.forall₂_same]
    exact fun u _ => (Size.parse_cons_blank rfl u.text).trans (Size.parse_text u)
  rw [pieces_text hsizes, ofTexts_of_parse hparse, ← hsizes, ofList_sizes]

theorem text_injective : Function.Injective text := by
  intro list list' h
  have hread := ofTexts_pieces list
  rw [h, ofTexts_pieces, Except.ok.injEq] at hread
  exact hread.symm

/-! ## The law -/

/-- A list that is written, cut at the commas and read piece by piece is the same list, with the
    same sizes in the same order, and no two lists have one text. Texts that are sizes, and a list
    together, are read as this list; so are the pieces of what is written for it, and written again
    it is the same text. -/
theorem lists_read_back :
    (∀ list : SizeList, ofTexts (pieces list.text) = .ok list) ∧
    (∀ list list' : SizeList, list.text = list'.text → list = list') ∧
    ∀ texts l list, List.Forall₂ (fun t s => Size.parse t = .ok s) texts l → ofList l = .ok list →
      ofTexts texts = .ok list ∧ ofTexts (pieces list.text) = ofTexts texts ∧
        (ofTexts (pieces list.text)).map text = .ok list.text := by
  refine ⟨ofTexts_pieces, fun list list' h => text_injective h, fun texts l list hparse hlist => ?_⟩
  have hread : ofTexts texts = .ok list := (ofTexts_of_parse hparse).trans hlist
  rw [ofTexts_pieces, hread]
  exact ⟨rfl, rfl, rfl⟩

/-- Texts in other spellings than those that are written. -/
def spelledTexts : List (List Char) := [['+', '0', '1', '6', ' '], ['3', '2', ' ', 'X', '3', '2']]

/-- What is written for texts in other spellings reads back as they do. -/
theorem other_spellings_read_back :
    List.Forall₂ (fun t s => Size.parse t = .ok s) spelledTexts [sixteen, thirtyTwo] ∧
    (∃ list, ofList [sixteen, thirtyTwo] = .ok list ∧ list.text = "16x16, 32x32".toList ∧
      ofTexts spelledTexts = .ok list ∧ ofTexts (pieces list.text) = ofTexts spelledTexts) ∧
    ∀ list : SizeList, list.text = "16x16, 32x32".toList → list.sizes = [sixteen, thirtyTwo] := by
  have hparse : List.Forall₂ (fun t s => Size.parse t = .ok s) spelledTexts [sixteen, thirtyTwo] :=
    .cons (by decide) (.cons (by decide) .nil)
  obtain ⟨hback, hsame, hspelled⟩ := lists_read_back
  obtain ⟨hread, hagain, -⟩ := hspelled _ _ ⟨[sixteen, thirtyTwo], by decide, by decide⟩ hparse rfl
  refine ⟨hparse, ⟨_, rfl, rfl, hread, hagain⟩, fun list htext => ?_⟩
  rw [hsame list ⟨[sixteen, thirtyTwo], by decide, by decide⟩ htext]

end SizeList

end IconMaker
