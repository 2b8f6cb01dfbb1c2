import IconMaker.Proofs.Text.Utf8
import IconMaker.Text.Quoted
import IconMaker.Toml.Strings

/-
  IconMaker.Proofs.Text.Quoted — what stands between double quotes is one line, and it is what it
  was made of.

  (1) `legible_of_shown`: no character that shows by itself is a control, format or private-use
      code, or a separator other than the ASCII space. So what is made of such characters has no
      line break in it.
  (2) `guarded_escapePiece`: all that is written for a character or a broken byte shows, and a
      quote in it stands behind a backslash.
  (3) `unquoted?_quoted` / `unquotedBytes?_quotedBytes`: a reader that goes through the text
      character by character, and knows nothing of what was written, finds the text or the byte
      string again, and where it ends, whatever stands behind it.
  `faithful_quoted` / `faithful_quotedBytes`: so both forms are `Faithful`, and what is written for
  two texts or byte strings differs (`Faithful.cancel`).

  The reader takes the bytes of a broken run one by one, so it does not find the runs again, only
  their bytes (`Piece.parts`); with those of the characters they are the byte string.
-/

namespace IconMaker.Text

variable {c : Char} {p : Piece} {ps : List Piece} {b : UInt8} {k n : Nat} {r s t : List Char}

/-! ## (1) Characters that show -/

/-- The code points of the categories Control, Format and Private_Use and of all separators but
    the ASCII space. -/
def hidden : List (Nat × Nat) :=
  [(0x0, 0x1f), (0x7f, 0xa0), (0xad, 0xad), (0x600, 0x605), (0x61c, 0x61c), (0x6dd, 0x6dd), (0x70f, 0x70f),
    (0x890, 0x891), (0x8e2, 0x8e2), (0x1680, 0x1680), (0x180e, 0x180e), (0x2000, 0x200f), (0x2028, 0x202f),
    (0x205f, 0x2064), (0x2066, 0x206f), (0x3000, 0x3000), (0xe000, 0xf8ff), (0xfeff, 0xfeff), (0xfff9, 0xfffb),
    (0x110bd, 0x110bd), (0x110cd, 0x110cd), (0x13430, 0x1343f), (0x1bca0, 0x1bca3), (0x1d173, 0x1d17a),
    (0xe0001, 0xe0001), (0xe0020, 0xe007f), (0xf0000, 0xffffd), (0x100000, 0x10fffd)]

/-- The ranges have no number in common. -/
def apart (x y : Nat × Nat) : Bool := x.2 < y.1 || y.2 < x.1

theorem shown_apart_hidden : (shown.all fun x => hidden.all (apart x)) = true := by decide +kernel

theorem not_hidden_of_shown (h : inRanges shown n = true) : inRanges hidden n = false := by
  cases hn : inRanges hidden n with
  | false => rfl
  | true =>
    unfold inRanges at h hn
    rw [List.any_eq_true] at h hn
    obtain ⟨x, hx, hnx⟩ := h
    obtain ⟨y, hy, hny⟩ := hn
    have hapart := List.all_eq_true.1 (List.all_eq_true.1 shown_apart_hidden x hx) y hy
    simp only [apart, Bool.or_eq_true, Bool.and_eq_true, decide_eq_true_eq] at hapart hnx hny
    omega

/-- Every character shows, and none is a control, a line break or another code that does not. -/
def Legible (t : List Char) : Prop := ∀ c ∈ t, isShown c = true ∧ inRanges hidden c.toNat = false

theorem legible_of_shown (h : ∀ c ∈ t, isShown c = true) : Legible t := by
  intro c hc
  exact ⟨h c hc, not_hidden_of_shown (h c hc)⟩

theorem legible_append (hs : Legible s) (ht : Legible t) : Legible (s ++ t) := by
  intro c hc
  rcases List.mem_append.1 hc with hc | hc
  · exact hs c hc
  · exact ht c hc

theorem isShown_of_ascii (hl : 0x20 ≤ c.toNat) (hu : c.toNat ≤ 0x7e) : isShown c = true := by
  have hmem : (0x20, 0x7e) ∈ shown := List.mem_cons_self ..
  exact List.any_eq_true.2 ⟨_, hmem, by simp [hl, hu]⟩

/-- Words of printable ASCII, such as stand around what is quoted. -/
theorem legible_literal (h : ∀ c ∈ t, 0x20 ≤ c.toNat ∧ c.toNat ≤ 0x7e) : Legible (String.ofList t).toList := by
  rw [String.toList_ofList]
  exact legible_of_shown fun c hc => isShown_of_ascii (h c hc).1 (h c hc).2

/-! ## (2) What is written -/

/-- Characters that show; a quote or a backslash has a backslash in front that is its own. -/
inductive Guarded : List Char → Prop
  | nil : Guarded []
  | plain {c : Char} {r : List Char} : isShown c = true → c ≠ '"' → c ≠ '\\' → Guarded r → Guarded (c :: r)
  | escaped {c : Char} {r : List Char} : isShown c = true → Guarded r → Guarded ('\\' :: c :: r)

/-- Between two quotes there is none but behind a backslash. -/
def Enclosed (t : List Char) : Prop := ∃ body, t = '"' :: (body ++ ['"']) ∧ Guarded body

theorem Guarded.append (hs : Guarded s) (ht : Guarded t) : Guarded (s ++ t) := by
  induction hs with
  | nil => exact ht
  | plain hc hq hb _ ih => exact .plain hc hq hb ih
  | escaped hc _ ih => exact .escaped hc ih

theorem Guarded.isShown (h : Guarded t) : ∀ c ∈ t, isShown c = true := by
  induction h with
  | nil => simp
  | plain hc _ _ _ ih => exact List.forall_mem_cons.2 ⟨hc, ih⟩
  | escaped hc _ ih =>
    have hslash : Text.isShown '\\' = true := isShown_of_ascii (by decide) (by decide)
    exact List.forall_mem_cons.2 ⟨hslash, List.forall_mem_cons.2 ⟨hc, ih⟩⟩

/-- A character of an escape, behind its backslash. -/
def IsInner (c : Char) : Prop := 0x20 ≤ c.toNat ∧ c.toNat ≤ 0x7e ∧ c ≠ '"' ∧ c ≠ '\\'

instance : DecidablePred IsInner := fun _ => inferInstanceAs (Decidable (_ ∧ _ ∧ _ ∧ _))

theorem IsInner.isShown (h : IsInner c) : isShown c = true := isShown_of_ascii h.1 h.2.1

theorem guarded_of_inner (h : ∀ c ∈ t, IsInner c) : Guarded t := by
  induction t with
  | nil => exact .nil
  | cons c t ih =>
    have hc := h c (List.mem_cons_self ..)
    exact .plain hc.isShown hc.2.2.1 hc.2.2.2 (ih fun d hd => h d (List.mem_cons_of_mem _ hd))

theorem inner_hexLower (n : Nat) : ∀ c ∈ hexLower n, IsInner c := by
  have hdigit : ∀ k < 16, IsInner (Nat.digitChar k) := by decide
  unfold hexLower
  induction n using Nat.strongRecOn with
  | _ n ih =>
    intro c hc
    by_cases hn : n < 16
    · rw [Nat.toDigits_of_lt_base hn, List.mem_singleton] at hc
      rw [hc]
      exact hdigit n hn
    · rw [Nat.toDigits_of_base_le (by decide) (Nat.not_lt.1 hn), List.mem_append, List.mem_singleton] at hc
      rcases hc with hc | hc
      · exact ih (n / 16) (by omega) c hc
      · rw [hc]
        exact hdigit _ (Nat.mod_lt n (by decide))

theorem inner_hexUpper2 (b : UInt8) : ∀ c ∈ hexUpper2 b, IsInner c := by
  have hdigit : ∀ k < 16, IsInner (if k < 10 then Char.ofNat (48 + k) else Char.ofNat (55 + k)) := by decide
  have hlt := b.toNat_lt
  intro c hc
  unfold hexUpper2 at hc
  simp only [List.mem_cons, List.not_mem_nil, or_false] at hc
  rcases hc with rfl | rfl
  · exact hdigit _ (by omega)
  · exact hdigit _ (by omega)

/-- The character that a letter behind a backslash stands for. -/
def escaped? (l : Char) : Option Char :=
  if l = '0' then some '\x00'
  else if l = 't' then some '\t'
  else if l = 'r' then some '\r'
  else if l = 'n' then some '\n'
  else if l = '"' then some '"'
  else if l = '\\' then some '\\'
  else none

/-- The three ways in which a character is written. -/
inductive Writes (c : Char) : List Char → Prop
  | letter {l : Char} : escaped? l = some c → isShown l = true → Writes c ['\\', l]
  | itself : isShown c = true → c ≠ '"' → c ≠ '\\' → Writes c [c]
  | number : Writes c ('\\' :: 'u' :: '\x7b' :: (hexLower c.toNat ++ ['\x7d']))

theorem writes_escapeChar (c : Char) : Writes c (escapeChar c) := by
  have hletter : ∀ l, escaped? l = some c → 0x20 ≤ l.toNat → l.toNat ≤ 0x7e → Writes c ['\\', l] := by
    intro l hl hlow hup
    exact .letter hl (isShown_of_ascii hlow hup)
  unfold escapeChar
  split_ifs with hzero htab hreturn hfeed hquote hslash hshown
  · exact hletter '0' (by rw [hzero]; rfl) (by decide) (by decide)
  · exact hletter 't' (by rw [htab]; rfl) (by decide) (by decide)
  · exact hletter 'r' (by rw [hreturn]; rfl) (by decide) (by decide)
  · exact hletter 'n' (by rw [hfeed]; rfl) (by decide) (by decide)
  · exact hletter '"' (by rw [hquote]; rfl) (by decide) (by decide)
  · exact hletter '\\' (by rw [hslash]; rfl) (by decide) (by decide)
  · exact .itself hshown hquote hslash
  · exact .number

theorem guarded_of_writes (h : Writes c t) : Guarded t := by
  cases h with
  | letter _ hl => exact .escaped hl .nil
  | itself hc hq hb => exact .plain hc hq hb .nil
  | number =>
    have hbraces : ∀ d ∈ '\x7b' :: (hexLower c.toNat ++ ['\x7d']), IsInner d := by
      intro d hd
      rw [List.mem_cons, List.mem_append, List.mem_singleton] at hd
      rcases hd with rfl | hd | rfl
      · decide
      · exact inner_hexLower _ d hd
      · decide
    exact .escaped (isShown_of_ascii (by decide) (by decide)) (guarded_of_inner hbraces)

theorem escapePiece_cons (b : UInt8) (bs : Bytes) :
    escapePiece (.broken (b :: bs)) = '\\' :: 'x' :: hexUpper2 b ++ escapePiece (.broken bs) := rfl

theorem guarded_escapePiece (p : Piece) : Guarded (escapePiece p) := by
  cases p with
  | char c => exact guarded_of_writes (writes_escapeChar c)
  | broken bs =>
    induction bs with
    | nil => exact .nil
    | cons b bs ih =>
      rw [escapePiece_cons]
      refine Guarded.append ?_ ih
      exact .escaped (isShown_of_ascii (by decide) (by decide)) (guarded_of_inner (inner_hexUpper2 b))

theorem guarded_pieces (ps : List Piece) : Guarded (ps.flatMap escapePiece) := by
  induction ps with
  | nil => exact .nil
  | cons p ps ih =>
    rw [List.flatMap_cons]
    exact Guarded.append (guarded_escapePiece p) ih

theorem enclosed_between (ps : List Piece) : Enclosed (between (ps.flatMap escapePiece)) :=
  ⟨_, rfl, guarded_pieces ps⟩

theorem Enclosed.legible (h : Enclosed t) : Legible t := by
  obtain ⟨body, rfl, hbody⟩ := h
  have hquote : isShown '"' = true := isShown_of_ascii (by decide) (by decide)
  refine legible_of_shown fun c hc => ?_
  rw [List.mem_cons, List.mem_append, List.mem_singleton] at hc
  rcases hc with rfl | hc | rfl
  · exact hquote
  · exact hbody.isShown c hc
  · exact hquote

/-- A text is quoted as its characters are. -/
theorem quoted_eq (s : List Char) : quoted s = between ((s.map Piece.char).flatMap escapePiece) := by
  rw [List.flatMap_map]
  rfl

/-! ## (3) Reading -/

/-- Where in an escape the reader stands. -/
inductive Position where
  | outside
  /-- After the backslash. -/
  | begun
  /-- After the `u`. -/
  | brace
  /-- Among the digits of a character's number, `n` being the value of those before. -/
  | number (n : Nat)
  /-- After the `x`. -/
  | high
  /-- After the first digit of a byte. -/
  | low (n : Nat)

/-- One more piece in front of what is read. -/
def consPiece (p : Piece) (x : Option (List Piece × List Char)) : Option (List Piece × List Char) :=
  x.map fun y => (p :: y.1, y.2)

/-- The pieces up to the quote that ends the text, and what is behind it. -/
def readPieces : Position → List Char → Option (List Piece × List Char)
  | _, [] => none
  | .outside, c :: r =>
    if c = '"' then some ([], r)
    else if c = '\\' then readPieces .begun r
    else consPiece (.char c) (readPieces .outside r)
  | .begun, c :: r =>
    match escaped? c with
    | some d => consPiece (.char d) (readPieces .outside r)
    | none => if c = 'u' then readPieces .brace r else if c = 'x' then readPieces .high r else none
  | .brace, c :: r => if c = '\x7b' then readPieces (.number 0) r else none
  | .number n, c :: r =>
    if c = '\x7d' then
      match Toml.character? n with
      | some d => consPiece (.char d) (readPieces .outside r)
      | none => none
    else match Toml.hexValue? c with
      | some k => readPieces (.number (16 * n + k)) r
      | none => none
  | .high, c :: r =>
    match Toml.hexValue? c with
    | some k => readPieces (.low k) r
    | none => none
  | .low n, c :: r =>
    match Toml.hexValue? c with
    | some k => consPiece (.broken [UInt8.ofNat (16 * n + k)]) (readPieces .outside r)
    | none => none

/-- The pieces between two quotes, and what is behind them. -/
def unquotedPieces? : List Char → Option (List Piece × List Char)
  | '"' :: r => readPieces .outside r
  | _ => none

/-- The byte string that stands between two quotes, and what is behind them. -/
def unquotedBytes? (t : List Char) : Option (Bytes × List Char) :=
  (unquotedPieces? t).map fun x => (x.1.flatMap Piece.bytes, x.2)

/-- The text that stands between two quotes, and what is behind them. -/
def unquoted? (t : List Char) : Option (List Char × List Char) :=
  (unquotedPieces? t).bind fun x => (x.1.mapM Piece.char?).map fun s => (s, x.2)

theorem hexValue?_digitChar (hk : k < 16) : Toml.hexValue? (Nat.digitChar k) = some k := by
  revert k
  decide

theorem readPieces_digit (hk : k < 16) (n : Nat) (r : List Char) :
    readPieces (.number n) (Nat.digitChar k :: r) = readPieces (.number (16 * n + k)) r := by
  have hne : ∀ k < 16, Nat.digitChar k ≠ '\x7d' := by decide
  rw [readPieces, if_neg (hne k hk), hexValue?_digitChar hk]

/-- The number is found that the digits write. -/
theorem readPieces_hexLower (n : Nat) (r : List Char) :
    readPieces (.number 0) (hexLower n ++ r) = readPieces (.number n) r := by
  unfold hexLower
  induction n using Nat.strongRecOn generalizing r with
  | _ n ih =>
    by_cases hn : n < 16
    · have hdigit := readPieces_digit hn 0 r
      rw [Nat.mul_zero, Nat.zero_add] at hdigit
      rw [Nat.toDigits_of_lt_base hn]
      exact hdigit
    · have hlast := readPieces_digit (Nat.mod_lt n (by decide : 16 > 0)) (n / 16) r
      rw [Nat.div_add_mod] at hlast
      rw [Nat.toDigits_of_base_le (by decide) (Nat.not_lt.1 hn), List.append_assoc, ih (n / 16) (by omega)]
      exact hlast

theorem character?_toNat (c : Char) : Toml.character? c.toNat = some c := by
  have hvalid : c.toNat.isValidChar := c.valid
  have hofNat := Char.ofNat_toNat c
  rw [Char.ofNat, dif_pos hvalid] at hofNat
  rw [Toml.character?, dif_pos hvalid, hofNat]

theorem readPieces_writes (h : Writes c t) (r : List Char) :
    readPieces .outside (t ++ r) = consPiece (.char c) (readPieces .outside r) := by
  cases h with
  | letter hl =>
    change readPieces .begun (_ :: r) = _
    rw [readPieces, hl]
  | itself _ hq hb => rw [List.singleton_append, readPieces, if_neg hq, if_neg hb]
  | number =>
    have happend : '\\' :: 'u' :: '\x7b' :: (hexLower c.toNat ++ ['\x7d']) ++ r =
        '\\' :: 'u' :: '\x7b' :: (hexLower c.toNat ++ '\x7d' :: r) := by simp
    rw [happend]
    change readPieces (.number 0) (hexLower c.toNat ++ '\x7d' :: r) = _
    rw [readPieces_hexLower, readPieces, if_pos rfl, character?_toNat]

/-- A byte is read by itself. -/
theorem readPieces_hexUpper2 (b : UInt8) (r : List Char) :
    readPieces .outside ('\\' :: 'x' :: hexUpper2 b ++ r) = consPiece (.broken [b]) (readPieces .outside r) := by
  have hdigit : ∀ k < 16, Toml.hexValue? (if k < 10 then Char.ofNat (48 + k) else Char.ofNat (55 + k)) = some k := by
    decide
  have hlt := b.toNat_lt
  have hhigh := hdigit (b.toNat / 16) (by omega)
  have hlow := hdigit (b.toNat % 16) (by omega)
  unfold hexUpper2
  change readPieces .high (_ :: _ :: r) = _
  simp only [readPieces, hhigh, hlow, Nat.div_add_mod, UInt8.ofNat_toNat]

/-- A piece as it is found again: the bytes of a broken run one by one. -/
def Piece.parts : Piece → List Piece
  | .char c => [.char c]
  | .broken bs => bs.map fun b => .broken [b]

theorem bytes_parts (p : Piece) : p.parts.flatMap Piece.bytes = p.bytes := by
  cases p with
  | char c => simp [Piece.parts]
  | broken bs => simp [Piece.parts, Piece.bytes, List.flatMap_map]

theorem readPieces_escapePiece (p : Piece) (h : readPieces .outside r = some (ps, s)) :
    readPieces .outside (escapePiece p ++ r) = some (p.parts ++ ps, s) := by
  cases p with
  | char c =>
    rw [escapePiece, readPieces_writes (writes_escapeChar c), h]
    rfl
  | broken bs =>
    induction bs with
    | nil => exact h
    | cons b bs ih =>
      rw [escapePiece_cons, List.append_assoc, readPieces_hexUpper2, ih]
      rfl

theorem readPieces_body (ps : List Piece) (rest : List Char) :
    readPieces .outside (ps.flatMap escapePiece ++ '"' :: rest) = some (ps.flatMap Piece.parts, rest) := by
  induction ps with
  | nil => rfl
  | cons p ps ih =>
    rw [List.flatMap_cons, List.append_assoc, readPieces_escapePiece p ih]
    rfl

theorem unquotedPieces?_between (ps : List Piece) (rest : List Char) :
    unquotedPieces? (between (ps.flatMap escapePiece) ++ rest) = some (ps.flatMap Piece.parts, rest) := by
  have happend : between (ps.flatMap escapePiece) ++ rest = '"' :: (ps.flatMap escapePiece ++ '"' :: rest) := by
    simp [between]
  rw [happend]
  exact readPieces_body ps rest

theorem unquotedBytes?_quotedBytes (bs : Bytes) (rest : List Char) :
    unquotedBytes? (quotedBytes bs ++ rest) = some (bs, rest) := by
  have hbytes : ((pieces bs).flatMap Piece.parts).flatMap Piece.bytes = bs := by
    simp only [List.flatMap_assoc, bytes_parts, bytes_pieces]
  rw [unquotedBytes?, quotedBytes, unquotedPieces?_between, Option.map_some, hbytes]

theorem unquoted?_quoted (s rest : List Char) : unquoted? (quoted s ++ rest) = some (s, rest) := by
  have hchars : ((s.map Piece.char).flatMap Piece.parts).mapM Piece.char? = some s := by
    induction s with
    | nil => rfl
    | cons c s ih =>
      rw [List.map_cons, List.flatMap_cons, Piece.parts, List.singleton_append, List.mapM_cons, ih]
      rfl
  rw [unquoted?, quoted_eq, unquotedPieces?_between, Option.bind_some, hchars, Option.map_some]

/-! ## All of it -/

/-- What is written stands between two quotes, is legible, and is read again from the front of
    every text that begins with it. -/
structure Faithful {α : Type} (write : α → List Char) (read? : List Char → Option (α × List Char)) : Prop where
  enclosed : ∀ x, Enclosed (write x)
  legible : ∀ x, Legible (write x)
  found : ∀ x rest, read? (write x ++ rest) = some (x, rest)

theorem Faithful.cancel {α : Type} {write : α → List Char} {read? : List Char → Option (α × List Char)} {x y : α}
    (h : Faithful write read?) (heq : write x ++ s = write y ++ t) : x = y ∧ s = t := by
  have hread := congrArg read? heq
  rw [h.found, h.found] at hread
  exact Prod.mk.inj (Option.some.inj hread)

theorem faithful_quotedBytes : Faithful quotedBytes unquotedBytes? where
  enclosed bs := enclosed_between (pieces bs)
  legible bs := (enclosed_between (pieces bs)).legible
  found := unquotedBytes?_quotedBytes

theorem faithful_quoted : Faithful quoted unquoted? where
  enclosed s := quoted_eq s ▸ enclosed_between _
  legible s := quoted_eq s ▸ (enclosed_between _).legible
  found := unquoted?_quoted

end IconMaker.Text
