import Mathlib.Data.List.Induction
import IconMaker.Proofs.Png.Accepted
import IconMaker.Proofs.Png.Chunks

/-
  IconMaker.Proofs.Png.Preamble — the chunks before the image data of any file whatsoever.

  `Takes` has a rule for everything that can become of one chunk. What is looked at in a chunk is
  there, for the rules that look at it ask for its length. `ReadsChunks` is the way from chunk to
  chunk, and each of them ends within the file. Of all chunks only a transparency chunk gives the
  image an alpha channel that its colour type has not, and only one that is right for the colour
  type (`GivesTransparency`, `gained_of_takeAll`).
-/

namespace IconMaker.Png

/-! ## One chunk -/

/-- What is known after a chunk before the image data; nothing, if the file is refused for it. -/
inductive Takes (p : Preamble) (c : Chunk) : Option Preamble → Prop
  | palette : c.kind = Chunk.palette → c.sound = true → p.palette = none → 3 ≤ c.data.length → c.data.length ≤ 768 →
      Takes p c (some { p with palette := some c.data })
  /-- A palette that is wrong, or something else that cannot be left out. -/
  | critical : Chunk.isCritical c.kind = true → Takes p c none
  | frameData : c.kind = Chunk.frameData → Takes p c none
  | frameLength : c.kind = Chunk.frameControl → c.data.length ≠ frameControlLength → Takes p c none
  | unsound : Chunk.isCritical c.kind = false → c.sound = false → Takes p c (some p)
  | transparency : c.kind = Chunk.transparency → c.sound = true → c.data.length ≤ maxTransparency →
      Takes p c (some { p with transparency := p.transparency.or (transparencyOf p c.data) })
  | background : c.kind = Chunk.background → p.header.color = .indexed → p.palette = none → Takes p c none
  | colorCode : c.kind = Chunk.colorCode → c.data.length = colorCodeLength → colorCodeFits c.data = true →
      Takes p c (some { p with colorCoded := true })
  | colorCodeWrong : c.kind = Chunk.colorCode → c.data.length = colorCodeLength → colorCodeFits c.data = false →
      Takes p c none
  | frameControl : c.kind = Chunk.frameControl → c.data.length = frameControlLength → frameFits p c.data = true →
      Takes p c (some { p with sequence := some (Bytes.ofBE (c.data.take 4)) })
  | frameControlWrong : c.kind = Chunk.frameControl → c.data.length = frameControlLength → frameFits p c.data = false →
      Takes p c none
  | passedOver : Chunk.isCritical c.kind = false → (c.kind = Chunk.transparency → maxTransparency < c.data.length) →
      Takes p c (some p)

variable {p q : Preamble} {c : Chunk}

theorem takes_takeSound (hkind : Chunk.isCritical c.kind = false) (hsound : c.sound = true)
    (hframe : c.kind = Chunk.frameControl → c.data.length = frameControlLength) : Takes p c (p.takeSound c) := by
  unfold Preamble.takeSound
  simp only [Bool.and_eq_true, beq_iff_eq, decide_eq_true_eq, Bool.or_eq_true]
  split
  · rename_i h
    exact .transparency h.1 hsound h.2
  · rename_i htransparency
    have hpassed : Takes p c (some p) :=
      .passedOver hkind fun hk => Nat.lt_of_not_le fun hle => htransparency ⟨hk, hle⟩
    split
    · rename_i hbackground
      split
      · rename_i hcolor
        exact .background hbackground.1 hcolor.1 (Option.isNone_iff_eq_none.1 hcolor.2)
      · exact hpassed
    · split
      · rename_i hcode
        split
        · exact hpassed
        · split
          · rename_i hfits
            exact .colorCode hcode.1 hcode.2 hfits
          · rename_i hfits
            exact .colorCodeWrong hcode.1 hcode.2 (Bool.not_eq_true _ ▸ hfits)
      · split
        · rename_i hcontrol
          split
          · rename_i hfits
            exact .frameControl hcontrol (hframe hcontrol) hfits
          · rename_i hfits
            exact .frameControlWrong hcontrol (hframe hcontrol) (Bool.not_eq_true _ ▸ hfits)
        · exact hpassed

theorem takes_take (p : Preamble) (c : Chunk) : Takes p c (p.take c) := by
  unfold Preamble.take
  simp only [Bool.and_eq_true, beq_iff_eq, bne_iff_ne, decide_eq_true_eq]
  split
  · rename_i hcritical
    split
    · rename_i h
      exact .palette h.1.1.1.2 h.1.1.1.1 (Option.isNone_iff_eq_none.1 h.1.1.2) h.1.2 h.2
    · exact .critical hcritical
  · rename_i hkind
    have hkind : Chunk.isCritical c.kind = false := Bool.not_eq_true _ ▸ hkind
    split
    · exact .frameData ‹_›
    · split
      · rename_i hlength
        exact .frameLength hlength.1 hlength.2
      · rename_i hlength
        split
        · exact takes_takeSound hkind ‹_› fun hk => Decidable.not_not.1 fun hne => hlength ⟨hk, hne⟩
        · exact .unsound hkind (Bool.not_eq_true _ ▸ ‹_›)

/-! ## From chunk to chunk -/

/-- The chunks up to the image data, and the file from there. -/
inductive ReadsChunks : Preamble → Bytes → Option (Preamble × Bytes) → Prop
  | imageData {p : Preamble} {bs : Bytes} : Chunk.kind? bs = some Chunk.imageData → ReadsChunks p bs (some (p, bs))
  /-- The file ends within the chunk. -/
  | cut {p : Preamble} {bs : Bytes} : Chunk.next? bs = none → ReadsChunks p bs none
  | refused {p : Preamble} {c : RawChunk} {rest : Bytes} : c.kind ≠ Chunk.imageData → Takes p c.read none →
      ReadsChunks p (c.bytes ++ rest) none
  | chunk {p q : Preamble} {c : RawChunk} {rest : Bytes} {r : Option (Preamble × Bytes)} : c.kind ≠ Chunk.imageData →
      Takes p c.read (some q) → ReadsChunks q rest r → ReadsChunks p (c.bytes ++ rest) r

theorem readsChunks_readPreamble (p : Preamble) (bs : Bytes) : ReadsChunks p bs (readPreamble p bs) := by
  fun_induction readPreamble p bs with
  | case1 p bs hkind => exact .imageData hkind
  | case2 p bs hkind hnext => exact .cut hnext
  | case3 p bs hkind x rest hnext htake =>
    obtain ⟨c, rfl, rfl⟩ := exists_raw hnext
    rw [kind?_raw] at hkind
    exact .refused (fun e => hkind (congrArg some e)) (htake ▸ takes_take p c.read)
  | case4 p bs hkind x rest hnext q htake hlt ih =>
    obtain ⟨c, rfl, rfl⟩ := exists_raw hnext
    rw [kind?_raw] at hkind
    exact .chunk (fun e => hkind (congrArg some e)) (htake ▸ takes_take p c.read) ih
  | case5 p bs hkind x rest hnext q htake hlt =>
    obtain ⟨c, rfl, rfl⟩ := exists_raw hnext
    exact absurd (length_lt_raw c rest) hlt

/-! ## Transparency -/

/-- Behind the others, the chunk makes parts of the image transparent: it says which stored samples
    of each channel do, or how the colours of a palette do that came before it. -/
structure GivesTransparency (h : Header) (before : List RawChunk) (c : RawChunk) : Prop where
  kind : c.kind = Chunk.transparency
  sound : c.Sound
  short : c.data.length ≤ maxTransparency
  fits : h.color = .grey ∧ 2 ≤ c.data.length ∨ h.color = .rgb ∧ 6 ≤ c.data.length ∨
    h.color = .indexed ∧ c.data ≠ [] ∧ ∃ d ∈ before, d.kind = Chunk.palette

theorem isSome_keyOf (depth channels : Nat) (data : Bytes) : (keyOf depth channels data).isSome ↔ 2 * channels ≤ data.length := by
  unfold keyOf
  dsimp only
  split
  · simp; omega
  · split <;> simp <;> omega

theorem isSome_transparencyOf (p : Preamble) (data : Bytes) : (transparencyOf p data).isSome ↔
    p.header.color = .grey ∧ 2 ≤ data.length ∨ p.header.color = .rgb ∧ 6 ≤ data.length ∨
      p.header.color = .indexed ∧ data ≠ [] ∧ p.palette.isSome := by
  unfold transparencyOf
  cases p.header.color with
  | grey | rgb => simp [isSome_keyOf]
  | indexed =>
    cases p.palette <;> cases data <;> simp
  | greyAlpha | rgba => simp

/-- A chunk that can be left out is no palette. -/
theorem ne_palette {kind : Bytes} (h : Chunk.isCritical kind = false) : kind ≠ Chunk.palette := by
  rintro rfl
  cases h

theorem palette_take {c : RawChunk} (h : p.take c.read = some q) :
    q.palette.isSome ↔ p.palette.isSome ∨ c.kind = Chunk.palette := by
  have htakes := takes_take p c.read
  rw [h] at htakes
  cases htakes with
  | palette hk => simp [show c.kind = Chunk.palette from hk]
  | transparency hk | colorCode hk | frameControl hk =>
    have hne : c.kind ≠ Chunk.palette := ne_palette (congrArg Chunk.isCritical hk)
    simp [hne]
  | unsound hk | passedOver hk =>
    have hne : c.kind ≠ Chunk.palette := ne_palette hk
    simp [hne]

theorem transparency_take {c : RawChunk} (h : p.take c.read = some q) : q.transparency.isSome ↔ p.transparency.isSome ∨
    c.kind = Chunk.transparency ∧ c.Sound ∧ c.data.length ≤ maxTransparency ∧ (transparencyOf p c.data).isSome := by
  have htakes := takes_take p c.read
  rw [h] at htakes
  cases htakes with
  | transparency hk hsound hshort =>
    have hk : c.kind = Chunk.transparency := hk
    have hshort : c.data.length ≤ maxTransparency := hshort
    simp only [Option.isSome_or, Bool.or_eq_true, hk, c.sound_read.1 hsound, hshort, true_and]
    rfl
  | palette hk | colorCode hk | frameControl hk =>
    have hne : c.kind ≠ Chunk.transparency := by
      rw [show c.kind = _ from hk]
      decide
    simp [hne]
  | unsound _ hsound =>
    have hunsound : ¬c.Sound := fun hs => by rw [c.sound_read.2 hs] at hsound; cases hsound
    simp [hunsound]
  | passedOver _ hlong =>
    have hlong : c.kind = Chunk.transparency → ¬c.data.length ≤ maxTransparency := fun hk => Nat.not_le.2 (hlong hk)
    exact ⟨Or.inl, fun h => h.elim id fun h => absurd h.2.2.1 (hlong h.1)⟩

theorem header_takeAll {cs : List RawChunk} (h : p.takeAll cs = some q) : q.header = p.header := by
  induction cs generalizing p with
  | nil => cases h; rfl
  | cons c cs ih =>
    rw [Preamble.takeAll, List.foldlM_cons] at h
    obtain ⟨p', htake, hrest⟩ := Option.bind_eq_some_iff.1 h
    rw [ih hrest, header_take htake]

theorem takeAll_snoc (p : Preamble) (cs : List RawChunk) (c : RawChunk) :
    p.takeAll (cs ++ [c]) = (p.takeAll cs).bind fun q => q.take c.read := by
  rw [Preamble.takeAll, List.foldlM_append]
  simp [Preamble.takeAll]

/-- A chunk stands among others and a last one if it stands among the others or is the last one. -/
theorem exists_among_snoc {P : List RawChunk → RawChunk → Prop} {cs : List RawChunk} {c : RawChunk} :
    (∃ before d after, cs ++ [c] = before ++ d :: after ∧ P before d) ↔
      (∃ before d after, cs = before ++ d :: after ∧ P before d) ∨ P cs c := by
  constructor
  · rintro ⟨before, d, after, he, hP⟩
    rcases List.eq_nil_or_concat after with rfl | ⟨after, x, rfl⟩
    · obtain ⟨rfl, hd⟩ := List.append_inj' he rfl
      cases hd
      exact Or.inr hP
    · rw [List.concat_eq_append, ← List.cons_append, ← List.append_assoc] at he
      exact Or.inl ⟨before, d, after, (List.append_inj' he rfl).1, hP⟩
  · rintro (⟨before, d, after, rfl, hP⟩ | hP)
    · exact ⟨before, d, after ++ [c], by simp, hP⟩
    · exact ⟨cs, c, [], rfl, hP⟩

/-- The image has a palette, or a transparency, if one of the chunks has given it one. -/
theorem gained_of_takeAll {h : Header} {cs : List RawChunk} (hall : h.opening.takeAll cs = some q) :
    (q.palette.isSome ↔ ∃ d ∈ cs, d.kind = Chunk.palette) ∧
      (q.transparency.isSome ↔ ∃ before c after, cs = before ++ c :: after ∧ GivesTransparency h before c) := by
  induction cs using List.reverseRecOn generalizing q with
  | nil =>
    cases hall
    simp [Header.opening]
  | append_singleton cs c ih =>
    rw [takeAll_snoc] at hall
    obtain ⟨p, hp, htake⟩ := Option.bind_eq_some_iff.1 hall
    obtain ⟨hpalette, htransparency⟩ := ih hp
    refine ⟨?_, ?_⟩
    · rw [palette_take htake, hpalette]
      simp [or_and_right, exists_or]
    · rw [transparency_take htake, htransparency, isSome_transparencyOf, header_takeAll hp, hpalette, exists_among_snoc]
      refine or_congr Iff.rfl ⟨fun ⟨hkind, hsound, hshort, hfits⟩ => ⟨hkind, hsound, hshort, hfits⟩, ?_⟩
      exact fun hgives => ⟨hgives.kind, hgives.sound, hgives.short, hgives.fits⟩

end IconMaker.Png
