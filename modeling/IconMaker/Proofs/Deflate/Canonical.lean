import IconMaker.Proofs.Deflate.Bits

/-
  IconMaker.Proofs.Deflate.Canonical — codes as the format states them, and as they are read.

  The format numbers the codewords of each length consecutively, from a first number that
  follows from the shorter ones (`Lengths.firstNumber`), and wants a code whose codewords take
  up all sequences of bits (`Lengths.Complete`). The reader has neither: it walks down the
  groups of symbols and counts. Proved here:

    finds_read        the reader finds the symbol of every codeword, with its length;
    isComplete_ofLengths, isSingle_ofLengths, ofLengths_eq_nil
                      what the reader takes for a code that will do is one that will do.
-/

namespace IconMaker.Deflate

/-! ## The statement of the format -/

/-- One length per symbol, 0 for a symbol that does not occur. -/
abbrev Lengths := List Nat

namespace Lengths

/-- The symbols with codewords of `n` bits. -/
def used (ls : Lengths) (n : Nat) : Nat := if n = 0 then 0 else ls.count n

/-- The number of the first codeword of `n` bits. -/
def firstNumber (ls : Lengths) : Nat → Nat
  | 0 => 0
  | n + 1 => 2 * (firstNumber ls n + ls.used n)

def lengthOf (ls : Lengths) (sym : Nat) : Nat := ls.getD sym 0

def number (ls : Lengths) (sym : Nat) : Nat := ls.firstNumber (ls.lengthOf sym) + (ls.take sym).count (ls.lengthOf sym)

def codeword (ls : Lengths) (sym : Nat) : List Bool := highBits (ls.lengthOf sym) (ls.number sym)

/-- The sequences of `n` bits that one codeword of `l` bits takes up. -/
def share (n l : Nat) : Nat := if l = 0 ∨ n < l then 0 else 2 ^ (n - l)

/-- The sequences of `n` bits that begin with a codeword. -/
def taken (n : Nat) (ls : Lengths) : Nat := ls.foldr (fun l t => share n l + t) 0

def maxLength : Nat := 15

/-- No more codewords than there is room for. -/
structure Fits (ls : Lengths) : Prop where
  le_max : ∀ l ∈ ls, l ≤ maxLength
  le : taken maxLength ls ≤ 2 ^ maxLength

/-- Every sequence of bits begins with a codeword. -/
structure Complete (ls : Lengths) : Prop where
  le_max : ∀ l ∈ ls, l ≤ maxLength
  eq : taken maxLength ls = 2 ^ maxLength

instance (ls : Lengths) : Decidable ls.Complete :=
  decidable_of_iff ((∀ l ∈ ls, l ≤ maxLength) ∧ taken maxLength ls = 2 ^ maxLength)
    ⟨fun h => ⟨h.1, h.2⟩, fun h => ⟨h.le_max, h.eq⟩⟩

/-- The lengths of the symbols that occur. -/
def present (ls : Lengths) : List Nat := ls.filter (· ≠ 0)

/-! ## Room for codewords -/

variable {ls : Lengths}

theorem share_succ (n l : Nat) : share (n + 1) l = 2 * share n l + if l = n + 1 then 1 else 0 := by
  unfold share
  by_cases h0 : l = 0
  · simp [h0]
  by_cases hlt : n + 1 < l
  · simp [hlt, show n < l by omega, show l ≠ n + 1 by omega]
  by_cases he : l = n + 1
  · simp [he]
  have h : n + 1 - l = (n - l) + 1 := by omega
  simp only [h0, hlt, he, show ¬n < l by omega, or_self, if_false, h, Nat.pow_succ, Nat.add_zero]
  exact Nat.mul_comm _ _

theorem taken_cons (n l : Nat) (ls : Lengths) : taken n (l :: ls) = share n l + taken n ls := rfl

theorem taken_succ (n : Nat) (ls : Lengths) : taken (n + 1) ls = 2 * taken n ls + ls.count (n + 1) := by
  induction ls with
  | nil => rfl
  | cons l ls ih =>
    rw [taken_cons, taken_cons, ih, share_succ, List.count_cons]
    simp only [beq_iff_eq]
    omega

theorem taken_zero (ls : Lengths) : taken 0 ls = 0 := by
  induction ls with
  | nil => rfl
  | cons l ls ih => rw [taken_cons, ih]; simp [share, Nat.pos_iff_ne_zero, Classical.em]

/-- The codewords of `n` bits end where those that begin with a codeword do. -/
theorem firstNumber_add_used (n : Nat) (ls : Lengths) : ls.firstNumber n + ls.used n = taken n ls := by
  induction n with
  | zero => rw [taken_zero]; rfl
  | succ n ih => rw [firstNumber, ih, taken_succ]; rfl

theorem taken_le {n : Nat} (h : ls.Fits) (hn : n ≤ maxLength) : taken n ls ≤ 2 ^ n := by
  have key : ∀ k, n + k = maxLength → taken (n + k) ls ≤ 2 ^ (n + k) → taken n ls ≤ 2 ^ n := by
    intro k
    induction k generalizing n with
    | zero => exact fun _ h => h
    | succ k ih =>
      intro hk hle
      have := ih (n := n + 1) (by omega) (by omega) (by rwa [Nat.add_right_comm, Nat.add_assoc])
      rw [taken_succ, Nat.pow_succ] at this
      omega
  have := key (maxLength - n) (by omega)
  rw [Nat.add_sub_of_le hn] at this
  exact this h.le

theorem lengthOf_le {n : Nat} (h : ∀ l ∈ ls, l ≤ n) (sym : Nat) : ls.lengthOf sym ≤ n := by
  unfold lengthOf
  rw [List.getD_eq_getElem?_getD]
  cases hl : ls[sym]? with
  | none => exact Nat.zero_le _
  | some l => exact h l (List.mem_of_getElem? hl)

theorem Complete.fits (h : ls.Complete) : ls.Fits := ⟨h.le_max, Nat.le_of_eq h.eq⟩

theorem count_present (ls : Lengths) (n : Nat) : ls.count (n + 1) = ls.present.count (n + 1) :=
  (List.count_filter (by simp)).symm

theorem taken_present (n : Nat) (ls : Lengths) : taken n ls = taken n ls.present := by
  induction n with
  | zero => rw [taken_zero, taken_zero]
  | succ n ih => rw [taken_succ, taken_succ, ih, count_present]

theorem fits_of_present {l : List Nat} (h : ls.present = l) (hl : ∀ n ∈ l, n ≤ maxLength)
    (ht : taken maxLength l ≤ 2 ^ maxLength) : ls.Fits := by
  refine ⟨fun n hn => ?_, ?_⟩
  · by_cases h0 : n = 0
    · omega
    · exact hl n (h ▸ List.mem_filter.2 ⟨hn, by simpa using h0⟩)
  · rw [taken_present, h]
    exact ht

end Lengths

/-! ## The groups of a code -/

namespace Code

theorem length_ofLength (l first : Nat) (ls : List Nat) : (ofLength l first ls).length = ls.count l := by
  induction ls generalizing first with
  | nil => rfl
  | cons x ls ih =>
    unfold ofLength
    by_cases h : x = l
    · simp [h, ih]
    · simp [h, ih]

/-- A symbol stands behind those before it that have its length. -/
theorem getElem?_ofLength {ls : List Nat} {sym l : Nat} (first : Nat) (h : ls[sym]? = some l) :
    (ofLength l first ls)[(ls.take sym).count l]? = some (first + sym) := by
  induction ls generalizing sym first with
  | nil => simp at h
  | cons x ls ih =>
    cases sym with
    | zero =>
      simp only [List.getElem?_cons_zero, Option.some.injEq] at h
      simp [ofLength, h]
    | succ sym =>
      rw [List.getElem?_cons_succ] at h
      have := ih (first + 1) h
      by_cases hx : x = l
      · simp only [ofLength, hx, if_true, List.take_succ_cons, List.count_cons, beq_self_eq_true,
          List.getElem?_cons_succ, this]
        congr 1
        omega
      · simp only [ofLength, hx, if_false, List.take_succ_cons, List.count_cons, beq_iff_eq, Nat.add_zero, this]
        congr 1
        omega

/-- The groups up to a length, empty ones at the end included. -/
def groups (ls : Lengths) (n : Nat) : Code := (List.range n).map fun k => (ofLength (k + 1) 0 ls).toArray

theorem length_groups (ls : Lengths) (n : Nat) : (groups ls n).length = n := by
  simp [groups]

theorem groups_succ (ls : Lengths) (n : Nat) :
    groups ls (n + 1) = groups ls n ++ [(ofLength (n + 1) 0 ls).toArray] := by
  simp [groups, List.range_succ]

theorem take_groups {j n : Nat} (ls : Lengths) (h : j ≤ n) : (groups ls n).take j = groups ls j := by
  rw [groups, ← List.map_take, List.take_range, Nat.min_eq_left h]
  rfl

theorem getElem?_groups {j n : Nat} (ls : Lengths) (h : j < n) :
    (groups ls n)[j]? = some (ofLength (j + 1) 0 ls).toArray := by
  simp [groups, h]

/-- What `dropEmptyEnd` drops is empty. -/
theorem exists_dropEmptyEnd (c : Code) : ∃ e, c = dropEmptyEnd c ++ e ∧ ∀ g ∈ e, g.isEmpty = true := by
  refine ⟨(c.reverse.takeWhile (·.isEmpty)).reverse, ?_, fun g hg => ?_⟩
  · have := congrArg List.reverse (List.takeWhile_append_dropWhile (p := (·.isEmpty)) (l := c.reverse))
    rw [List.reverse_append, List.reverse_reverse] at this
    exact this.symm
  · rw [List.mem_reverse] at hg
    exact List.all_eq_true.1 List.all_takeWhile g hg

theorem dropEmptyEnd_append {c e : Code} (he : ∀ g ∈ e, g.isEmpty = true) :
    dropEmptyEnd (c ++ e) = dropEmptyEnd c := by
  unfold dropEmptyEnd
  rw [List.reverse_append, List.dropWhile_append_of_pos fun g hg => he g (List.mem_reverse.1 hg)]

theorem dropEmptyEnd_singleton {g : Array Nat} (hg : g.isEmpty = false) : dropEmptyEnd [g] = [g] := by
  simp [dropEmptyEnd, hg]

theorem ofLengths_eq (ls : Lengths) : ofLengths ls = dropEmptyEnd (groups ls maxLength) := rfl

/-- The sequences of as many bits as there are groups that begin with a codeword. -/
def weight : Code → Nat
  | [] => 0
  | g :: gs => g.size * 2 ^ gs.length + weight gs

theorem weight_append (c d : Code) : weight (c ++ d) = weight c * 2 ^ d.length + weight d := by
  induction c with
  | nil => simp [weight]
  | cons g gs ih =>
    rw [List.cons_append, weight, ih, weight, List.length_append, Nat.pow_add, Nat.add_mul, Nat.mul_assoc,
      Nat.add_assoc]

theorem weight_groups (ls : Lengths) (n : Nat) : weight (groups ls n) = Lengths.taken n ls := by
  induction n with
  | zero => rw [Lengths.taken_zero]; rfl
  | succ n ih =>
    rw [groups_succ, weight_append, ih, Lengths.taken_succ]
    simp [weight, length_ofLength, Nat.mul_comm]

theorem weight_empty {e : Code} (he : ∀ g ∈ e, g.isEmpty = true) : weight e = 0 := by
  induction e with
  | nil => rfl
  | cons g gs ih =>
    have hg : g.size = 0 := by simpa using he g (List.mem_cons_self ..)
    rw [weight, hg, ih fun x hx => he x (List.mem_cons_of_mem _ hx), Nat.zero_mul]

/-! ## Codes that will do -/

theorem free_of_weight {n : Nat} {c : Code} (h : weight c = n * 2 ^ c.length) : free n c = some 0 := by
  induction c generalizing n with
  | nil =>
    simp only [weight, List.length_nil, Nat.pow_zero, Nat.mul_one] at h
    simp [free, ← h]
  | cons g gs ih =>
    have hpos := Nat.two_pow_pos gs.length
    rw [weight, List.length_cons, Nat.pow_succ', ← Nat.mul_assoc, Nat.mul_comm n] at h
    have hle : g.size ≤ 2 * n := Nat.le_of_mul_le_mul_right (by omega) hpos
    unfold free
    rw [if_pos hle]
    apply ih
    rw [Nat.sub_mul]
    omega

theorem isComplete_ofLengths {ls : Lengths} (h : ls.Complete) : (ofLengths ls).isComplete = true := by
  obtain ⟨e, he, hempty⟩ := exists_dropEmptyEnd (groups ls maxLength)
  rw [← ofLengths_eq] at he
  have hlen : (ofLengths ls).length + List.length e = maxLength := by
    rw [← List.length_append, ← he, length_groups]
  have hweight : weight (ofLengths ls) * 2 ^ List.length e = 2 ^ List.length (ofLengths ls) * 2 ^ List.length e := by
    have := weight_groups ls maxLength
    rw [he, weight_append, weight_empty hempty, Nat.add_zero] at this
    rw [this, ← Nat.pow_add, hlen]
    exact h.eq
  have hweight := Nat.eq_of_mul_eq_mul_right (Nat.two_pow_pos _) hweight
  have : free 1 (ofLengths ls) = some 0 := free_of_weight (by rw [hweight, Nat.one_mul])
  simp [isComplete, this]

theorem groups_of_present {ls : Lengths} (n : Nat) (h : ∀ k, ls.present.count (k + 2) = 0) :
    ∃ e, groups ls (n + 1) = (ofLength 1 0 ls).toArray :: e ∧ ∀ g ∈ e, g.isEmpty = true := by
  induction n with
  | zero => exact ⟨[], rfl, by simp⟩
  | succ n ih =>
    obtain ⟨e, he, hempty⟩ := ih
    refine ⟨e ++ [(ofLength (n + 2) 0 ls).toArray], by rw [groups_succ, he]; rfl, ?_⟩
    intro g hg
    rcases List.mem_append.1 hg with hg | hg
    · exact hempty g hg
    · rw [List.mem_singleton.1 hg]
      have := h n
      rw [← Lengths.count_present, ← length_ofLength _ 0] at this
      simpa [Array.isEmpty] using this

theorem isSingle_ofLengths {ls : Lengths} (h : ls.present = [1]) : (ofLengths ls).isSingle = true := by
  obtain ⟨e, he, hempty⟩ := groups_of_present 14 (by simp [h] : ∀ k, ls.present.count (k + 2) = 0)
  have h1 : (ofLength 1 0 ls).length = 1 := by rw [length_ofLength, Lengths.count_present, h]; rfl
  rw [ofLengths_eq, maxLength, he, ← List.singleton_append, dropEmptyEnd_append hempty,
    dropEmptyEnd_singleton (by simp [Array.isEmpty, h1])]
  simp [isSingle, h1]

/-- A single codeword leaves half of all sequences of bits to none. -/
theorem isComplete_of_single {ls : Lengths} (h : ls.present = [1]) : (ofLengths ls).isComplete = false := by
  have hs := isSingle_ofLengths h
  unfold isSingle at hs
  split at hs
  · rename_i g hc
    have hg : g.size = 1 := by simpa using hs
    rw [hc]
    simp [isComplete, free, hg]
  · cases hs

theorem ofLengths_eq_nil {ls : Lengths} (h : ls.present = []) : ofLengths ls = [] := by
  obtain ⟨e, he, hempty⟩ := groups_of_present 14 (by simp [h] : ∀ k, ls.present.count (k + 2) = 0)
  have h1 : (ofLength 1 0 ls).length = 0 := by rw [length_ofLength, Lengths.count_present, h]; rfl
  rw [ofLengths_eq, maxLength, he, ← List.nil_append (_ :: e)]
  refine dropEmptyEnd_append fun g hg => ?_
  rcases List.mem_cons.1 hg with rfl | hg
  · simp [Array.isEmpty, h1]
  · exact hempty g hg

/-! ## Reading a codeword -/

variable {s : Source} {more : Bytes} {after : List Bool}

/-- Passing a group of `g` codewords, `p` being what one more bit and those after it can say. -/
theorem offset_of_group {o b r g w i p : Nat} (hr : r < p) (h : 2 * (o * p) + (r + b * p) = g * p + 2 * w + i) :
    g ≤ 2 * o + b ∧ (2 * o + b - g) * p + r = 2 * w + i := by
  have hsum : (2 * o + b) * p = 2 * (o * p) + b * p := by rw [Nat.add_mul, Nat.mul_assoc]
  have hle : g ≤ 2 * o + b := by
    refine Nat.le_of_not_lt fun hlt => ?_
    have := Nat.mul_le_mul_right p (Nat.succ_le_of_lt hlt)
    rw [Nat.succ_mul] at this
    omega
  have := Nat.mul_le_mul_right p hle
  exact ⟨hle, by rw [Nat.sub_mul]; omega⟩

/-- `o` codewords of this length lie between the last one that is taken and the bits so far. -/
theorem finds_readFrom {code : Code} {g : Array Nat} {j i o v depth sym : Nat} (hg : code[j]? = some g)
    (hi : g[i]? = some sym) (ho : o * 2 ^ (j + 1) + v % 2 ^ (j + 1) = 2 * weight (code.take j) + i)
    (h : (s.feed more).Holds (highBits (j + 1) v ++ after)) :
    Finds (readFrom code depth o s) more ⟨sym, depth + j + 1⟩ after := by
  induction code generalizing j o s depth with
  | nil => simp at hg
  | cons g' gs ih =>
    rw [highBits_succ, List.cons_append] at h
    unfold readFrom
    rcases finds_next? h with ⟨hn, hm⟩ | ⟨t, hn, ht⟩
    · rw [hn]
      exact finds_exhausted hm
    rw [hn]
    have hmod := Nat.mod_pow_succ (x := v) (b := 2) (k := j)
    rw [← Nat.toNat_testBit, Nat.mul_comm] at hmod
    rw [hmod, Nat.pow_succ'] at ho
    cases j with
    | zero =>
      simp only [List.getElem?_cons_zero, Option.some.injEq] at hg
      subst hg
      obtain ⟨hlt, hget⟩ := Array.getElem?_eq_some_iff.1 hi
      have hx : 2 * o + (v.testBit 0).toNat = i := by
        simp only [List.take_zero, weight, Nat.pow_zero, Nat.mod_one] at ho
        omega
      simp only [hx, hlt, dite_true, hget]
      exact finds_ok ht
    | succ j =>
      rw [List.getElem?_cons_succ] at hg
      have hj : j < gs.length := (List.getElem?_eq_some_iff.1 hg).1
      have hr := Nat.mod_lt v (Nat.two_pow_pos (j + 1))
      have hsize : 2 * (g'.size * 2 ^ j) = g'.size * 2 ^ (j + 1) := by rw [Nat.pow_succ', Nat.mul_left_comm]
      rw [List.take_succ_cons, weight, List.length_take, Nat.min_eq_left (Nat.le_of_lt hj), Nat.mul_add, hsize,
        Nat.mul_left_comm] at ho
      obtain ⟨hle, ho⟩ := offset_of_group hr ho
      dsimp only
      rw [dif_neg (Nat.not_lt.2 hle)]
      rw [show depth + (j + 1) + 1 = depth + 1 + j + 1 by omega]
      exact ih hg ho ht

/-- A group that is not empty is not dropped, nor is any before it. -/
theorem getElem?_ofLengths {ls : Lengths} {j : Nat} {g : Array Nat} (hg : (groups ls maxLength)[j]? = some g)
    (hne : g.isEmpty = false) : (ofLengths ls)[j]? = some g ∧ (ofLengths ls).take j = groups ls j := by
  have hj : j < maxLength := by
    have := (List.getElem?_eq_some_iff.1 hg).1
    rwa [length_groups] at this
  obtain ⟨e, he, hempty⟩ := exists_dropEmptyEnd (groups ls maxLength)
  rw [← ofLengths_eq] at he
  by_cases hlt : j < (ofLengths ls).length
  · rw [he, List.getElem?_append_left hlt] at hg
    refine ⟨hg, ?_⟩
    rw [← take_groups ls (Nat.le_of_lt hj), he, List.take_append_of_le_length (Nat.le_of_lt hlt)]
  · rw [he, List.getElem?_append_right (by omega)] at hg
    have := hempty g (List.mem_of_getElem? hg)
    rw [hne] at this
    cases this

/-- The symbol of every codeword is found. -/
theorem finds_read {ls : Lengths} {sym : Nat} (hf : ls.Fits) (hs : ls.lengthOf sym ≠ 0)
    (h : (s.feed more).Holds (ls.codeword sym ++ after)) :
    Finds ((ofLengths ls).read s) more ⟨sym, ls.lengthOf sym⟩ after := by
  have hget : ls[sym]? = some (ls.lengthOf sym) := by
    cases hl : ls[sym]? with
    | none => simp [Lengths.lengthOf, List.getD_eq_getElem?_getD, hl] at hs
    | some l => simp [Lengths.lengthOf, List.getD_eq_getElem?_getD, hl]
  have hle := hf.le_max _ (List.mem_of_getElem? hget)
  obtain ⟨j, hj⟩ := Nat.exists_eq_add_one_of_ne_zero hs
  have hsym := getElem?_ofLength 0 hget
  rw [Nat.zero_add] at hsym
  unfold Lengths.codeword Lengths.number at h
  rw [hj] at hsym hle h ⊢
  have hi := (List.getElem?_eq_some_iff.1 hsym).1
  obtain ⟨hg, htake⟩ := getElem?_ofLengths (getElem?_groups ls (hle))
    (by
      have : (ofLength (j + 1) 0 ls).length ≠ 0 := Nat.ne_of_gt (Nat.lt_of_le_of_lt (Nat.zero_le _) hi)
      simpa [Array.isEmpty] using this)
  have hfirst : ls.firstNumber (j + 1) = 2 * Lengths.taken j ls := by
    rw [Lengths.firstNumber, Lengths.firstNumber_add_used]
  have hroom := Lengths.taken_le hf hle
  rw [length_ofLength] at hi
  rw [Lengths.taken_succ] at hroom
  rw [← Nat.zero_add (j + 1)]
  refine finds_readFrom hg (List.getElem?_toArray.trans hsym) ?_ h
  rw [htake, weight_groups, Nat.zero_mul, Nat.zero_add, Nat.mod_eq_of_lt (by omega), hfirst]

end Code

end IconMaker.Deflate
