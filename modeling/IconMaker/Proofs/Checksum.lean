import IconMaker.Checksum

/-
  IconMaker.Proofs.Checksum — which byte strings the cyclic redundancy check tells apart.

  The polynomial has the highest bit. So one step of the division shows there which bit it has
  pushed out at the low end, and can be undone (`eq_of_crcBit`). The steps for a byte begin
  with the sum of the remainder and the byte, so they lose neither (`xor_of_crcByte`). Hence two
  byte strings that agree but for one byte, wherever it stands and however long they are, have
  different checks (`crc_ne`).
-/

namespace IconMaker.Checksum

variable {a b c d : UInt32}

/-! ## One bit -/

theorem low_bit (c : UInt32) : c &&& 1 = 1 ↔ c.toNat % 2 = 1 := by
  rw [← UInt32.toNat_inj, UInt32.toNat_and, UInt32.toNat_one, Nat.and_one_is_mod]

theorem toNat_half (c : UInt32) : (c >>> 1).toNat = c.toNat / 2 := by
  simp [Nat.shiftRight_eq_div_pow]

theorem testBit_half (c : UInt32) : (c >>> 1).toNat.testBit 31 = false := by
  have hc := c.toNat_lt
  rw [toNat_half]
  exact Nat.testBit_lt_two_pow (by omega)

/-- The highest bit is the one that was pushed out. -/
theorem testBit_crcBit (c : UInt32) : (crcBit c).toNat.testBit 31 = true ↔ c &&& 1 = 1 := by
  unfold crcBit
  split
  · rename_i hlow
    rw [UInt32.toNat_xor, Nat.testBit_xor, testBit_half]
    exact ⟨fun _ => hlow, fun _ => by decide⟩
  · rename_i hlow
    rw [testBit_half]
    exact ⟨fun h => absurd h Bool.false_ne_true, fun h => absurd h hlow⟩

theorem eq_of_crcBit (h : crcBit a = crcBit b) : a = b := by
  have hlow : a &&& 1 = 1 ↔ b &&& 1 = 1 := by
    rw [← testBit_crcBit, ← testBit_crcBit, h]
  have hhalf : a >>> 1 = b >>> 1 := by
    unfold crcBit at h
    by_cases ha : a &&& 1 = 1
    · rw [if_pos ha, if_pos (hlow.1 ha)] at h
      exact (UInt32.xor_left_inj _).1 h
    · rwa [if_neg ha, if_neg (mt hlow.2 ha)] at h
  have hquotient := congrArg UInt32.toNat hhalf
  rw [low_bit, low_bit] at hlow
  rw [toNat_half, toNat_half] at hquotient
  exact UInt32.toNat_inj.1 (by omega)

/-! ## Bytes -/

theorem xor_of_crcByte {x y : UInt8} (h : crcByte c x = crcByte d y) : c ^^^ x.toUInt32 = d ^^^ y.toUInt32 := by
  unfold crcByte at h
  iterate 8 replace h := eq_of_crcBit h
  exact h

/-- What follows is the same for both, and keeps remainders apart. -/
theorem eq_of_foldl_crcByte {bs : Bytes} (h : bs.foldl crcByte c = bs.foldl crcByte d) : c = d := by
  induction bs generalizing c d with
  | nil => exact h
  | cons x bs ih => exact (UInt32.xor_left_inj _).1 (xor_of_crcByte (ih h))

theorem crc_ne {x y : UInt8} (before after : Bytes) (h : x ≠ y) : crc (before ++ x :: after) ≠ crc (before ++ y :: after) := by
  intro hcrc
  have hremainder := (UInt32.xor_left_inj _).1 hcrc
  rw [List.foldl_append, List.foldl_append, List.foldl_cons, List.foldl_cons] at hremainder
  have hbyte := (UInt32.xor_right_inj _).1 (xor_of_crcByte (eq_of_foldl_crcByte hremainder))
  exact h (UInt8.toUInt32_inj.1 hbyte)

end IconMaker.Checksum
