/-
  IconMaker.Bytes — byte strings and the fixed-width integers written in them.

  `le k n` / `be k n` write the `k` low bytes of `n`, least or most significant first;
  `ofLE` / `ofBE` read a whole byte string as a number; `split? n` cuts off exactly `n`
  bytes. `ofLE_le` / `ofBE_be`: what is written reads back when it fits.
-/

namespace IconMaker

-- Powers of numbers are those of the core library, whatever else is in sight.
attribute [default_instance high, instance (high)] instPowNat

abbrev Bytes := List UInt8

namespace Bytes

def le : Nat → Nat → Bytes
  | 0, _ => []
  | k + 1, n => UInt8.ofNat n :: le k (n / 256)

def be (k n : Nat) : Bytes := (le k n).reverse

def ofLE : Bytes → Nat
  | [] => 0
  | b :: r => b.toNat + 256 * ofLE r

def ofBE (bs : Bytes) : Nat := ofLE bs.reverse

/-- Exactly `n` bytes and what follows them. -/
def split? (n : Nat) (bs : Bytes) : Option (Bytes × Bytes) :=
  if (bs.take n).length = n then some (bs.take n, bs.drop n) else none

@[simp] theorem length_le (k n : Nat) : (le k n).length = k := by
  induction k generalizing n with
  | zero => rfl
  | succ k ih => simp [le, ih]

@[simp] theorem length_be (k n : Nat) : (be k n).length = k := by
  simp [be, length_le]

theorem ofLE_le (k n : Nat) : ofLE (le k n) = n % 256 ^ k := by
  induction k generalizing n with
  | zero => simp [le, ofLE, Nat.mod_one]
  | succ k ih =>
    have byte : (UInt8.ofNat n).toNat = n % 256 := by simp
    rw [le, ofLE, ih, byte, Nat.pow_succ, Nat.mul_comm (256 ^ k) 256, Nat.mod_mul]

theorem ofBE_be (k n : Nat) : ofBE (be k n) = n % 256 ^ k := by
  simp [ofBE, be, ofLE_le]

theorem split?_append (a b : Bytes) : split? a.length (a ++ b) = some (a, b) := by
  simp [split?]

theorem split?_eq {n : Nat} {bs a b : Bytes} (h : split? n bs = some (a, b)) : bs = a ++ b ∧ a.length = n := by
  unfold split? at h
  split at h
  · rename_i hn
    cases h
    exact ⟨(List.take_append_drop n bs).symm, hn⟩
  · cases h

end Bytes

end IconMaker
