import IconMaker.Bytes

/-
  IconMaker.Proofs.Bytes — parts of a byte string.

  A reader that goes from the front cuts off what stands there (`split?_of_length`). One that
  takes bytes from a fixed place does not have to know what stands before and behind them
  (`slice_within`, `number_within`). What is put together from equal pieces is as long as all of
  them (`length_flatMap_of_length`). A number that was read stands for its bytes (`be_ofBE`), and
  one bit turned over makes another byte in one place (`exists_flipBit`).
-/

namespace IconMaker

theorem length_flatMap_of_length {α β : Type} {f : α → List β} {n : Nat} (hf : ∀ a, (f a).length = n) (as : List α) :
    (as.flatMap f).length = n * as.length := by
  induction as with
  | nil => rfl
  | cons a as ih =>
    rw [List.flatMap_cons, List.length_append, ih, hf, List.length_cons, Nat.mul_succ, Nat.add_comm]

theorem getElem?_eq_some_getD {α : Type} {a : Array α} {i : Nat} (h : i < a.size) (d : α) : a[i]? = some (a.getD i d) := by
  rw [Array.getD_eq_getD_getElem?, Array.getElem?_eq_getElem h, Option.getD_some]

namespace Bytes

/-! ## From the front -/

theorem split?_of_length {n : Nat} {a : Bytes} (b : Bytes) (h : a.length = n) : split? n (a ++ b) = some (a, b) := by
  rw [← h]
  exact split?_append a b

theorem lt_of_split? {n : Nat} {bs : Bytes} (h : split? n bs = none) : bs.length < n := by
  unfold split? at h
  split at h
  · cases h
  · rename_i hn
    rw [List.length_take] at hn
    omega

theorem ofBE_be_of_lt {k n : Nat} (h : n < 256 ^ k) : ofBE (be k n) = n := by
  rw [ofBE_be, Nat.mod_eq_of_lt h]

theorem le_ofLE (bs : Bytes) : le bs.length (ofLE bs) = bs := by
  induction bs with
  | nil => rfl
  | cons b r ih =>
    have hb := b.toNat_lt
    have hquotient : (b.toNat + 256 * ofLE r) / 256 = ofLE r := by omega
    have hbyte : UInt8.ofNat (b.toNat + 256 * ofLE r) = b := by
      refine UInt8.toNat_inj.1 ?_
      rw [UInt8.toNat_ofNat']
      omega
    rw [List.length_cons, ofLE, le, hquotient, ih, hbyte]

theorem be_ofBE (bs : Bytes) : be bs.length (ofBE bs) = bs := by
  rw [be, ofBE, ← List.length_reverse, le_ofLE, List.reverse_reverse]

theorem ofLE_lt (bs : Bytes) : ofLE bs < 256 ^ bs.length := by
  rw [← le_ofLE bs, ofLE_le, length_le]
  exact Nat.mod_lt _ (Nat.pow_pos (by decide))

theorem ofBE_lt (bs : Bytes) : ofBE bs < 256 ^ bs.length := by
  rw [ofBE, ← List.length_reverse]
  exact ofLE_lt _

/-! ## From a place on -/

/-- `n` bytes from a place on. -/
def slice (bs : Bytes) (place n : Nat) : Bytes := (bs.drop place).take n

/-- The number in `n` bytes from a place on, the lowest byte first. -/
def number (bs : Bytes) (place n : Nat) : Nat := ofLE (bs.slice place n)

theorem slice_middle (a b c : Bytes) : (a ++ (b ++ c)).slice a.length b.length = b := by
  simp [slice]

/-- A slice of a part is one of the whole. -/
theorem slice_within (a c : Bytes) {b : Bytes} {place n : Nat} (h : place + n ≤ b.length) :
    (a ++ (b ++ c)).slice (a.length + place) n = b.slice place n := by
  have hdrop : (a ++ (b ++ c)).drop (a.length + place) = b.drop place ++ c := by
    rw [← List.drop_drop, List.drop_left, List.drop_append_of_le_length (by omega)]
  rw [slice, slice, hdrop, List.take_append_of_le_length (by rw [List.length_drop]; omega)]

theorem number_within (a c : Bytes) {b : Bytes} {place n : Nat} (h : place + n ≤ b.length) :
    (a ++ (b ++ c)).number (a.length + place) n = b.number place n := by
  rw [number, slice_within a c h, number]

/-! ## One bit -/

/-- The bytes with one bit of one byte turned over. -/
def flipBit (bs : Bytes) (place bit : Nat) : Bytes := bs.modify place fun b => b ^^^ (1 <<< UInt8.ofNat bit)

@[simp] theorem length_flipBit (bs : Bytes) (place bit : Nat) : (bs.flipBit place bit).length = bs.length :=
  List.length_modify ..

theorem flipBit_eq_self {bs : Bytes} {place : Nat} (h : bs.length ≤ place) (bit : Nat) : bs.flipBit place bit = bs :=
  List.modify_eq_self h

theorem flipBit_append (a b : Bytes) (place bit : Nat) : (a ++ b).flipBit place bit =
    if place < a.length then a.flipBit place bit ++ b else a ++ b.flipBit (place - a.length) bit := by
  induction a generalizing place with
  | nil => rfl
  | cons x a ih =>
    cases place with
    | zero => rfl
    | succ place =>
      have htail : flipBit (x :: a ++ b) (place + 1) bit = x :: flipBit (a ++ b) place bit := rfl
      rw [htail, ih, List.length_cons, Nat.add_sub_add_right]
      simp only [Nat.add_lt_add_iff_right]
      split <;> rfl

theorem flipped_ne {bit : Nat} (b : UInt8) (h : bit < 8) : b ≠ b ^^^ (1 <<< UInt8.ofNat bit) := by
  have hbit : (1 <<< UInt8.ofNat bit : UInt8) ≠ 0 := by
    revert bit
    decide
  intro he
  exact hbit ((UInt8.xor_right_inj b).1 (by rw [← he, UInt8.xor_zero]))

/-- The byte that the bit is in becomes another one, and all others stay. -/
theorem exists_flipBit {bs : Bytes} {place bit : Nat} (hplace : place < bs.length) (hbit : bit < 8) :
    ∃ before x y after, bs = before ++ x :: after ∧ bs.flipBit place bit = before ++ y :: after ∧ x ≠ y := by
  refine ⟨bs.take place, bs[place], _, bs.drop (place + 1), ?_, List.modify_eq_take_cons_drop hplace,
    flipped_ne bs[place] hbit⟩
  rw [← List.drop_eq_getElem_cons hplace, List.take_append_drop]

end Bytes

end IconMaker
