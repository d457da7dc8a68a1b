import Mathlib

/-! # Byte strings

Fixed-width little-endian numbers and the one reading primitive every parser below is built
from: take `n` bytes off the front, or fail when there are fewer. -/

namespace OtapDataflow

abbrev Bytes := List UInt8

namespace Bytes

/-- The low `k` bytes of `n`, least significant first. -/
def leBytes : Nat → Nat → Bytes
  | 0, _ => []
  | k + 1, n => UInt8.ofNat n :: leBytes k (n / 256)

/-- The number a little-endian byte string denotes. -/
def ofLe : Bytes → Nat
  | [] => 0
  | b :: bs => b.toNat + 256 * ofLe bs

@[simp] theorem length_leBytes (k n : Nat) : (leBytes k n).length = k := by
  induction k generalizing n with
  | zero => rfl
  | succ k ih => simp [leBytes, ih]

variable {n : Nat} {rest bs : Bytes}

/-- Reading back a number that fits its width. -/
theorem ofLe_leBytes {k : Nat} (h : n < 256 ^ k) : ofLe (leBytes k n) = n := by
  induction k generalizing n with
  | zero =>
    have hn : n = 0 := by simpa using h
    rw [hn]
    rfl
  | succ k ih =>
    have hdiv : n / 256 < 256 ^ k := by
      rw [Nat.div_lt_iff_lt_mul (by decide)]
      rwa [← pow_succ]
    have hlow : (UInt8.ofNat n).toNat = n % 256 := UInt8.toNat_ofNat'
    rw [leBytes, ofLe, ih hdiv, hlow]
    omega

/-! ## Taking bytes off the front -/

/-- The first `n` bytes and the rest. -/
def split (n : Nat) (bs : Bytes) : Option ({ field : Bytes // field.length = n } × Bytes) :=
  if h : n ≤ bs.length then some (⟨bs.take n, List.length_take_of_le h⟩, bs.drop n) else none

/-- Reading a field off its own encoding. -/
theorem split_append {field : Bytes} (h : field.length = n) :
    split n (field ++ rest) = some (⟨field, h⟩, rest) := by
  subst h
  simp [split]

theorem split_eq_none (h : bs.length < n) : split n bs = none :=
  dif_neg (not_le.mpr h)

theorem split_eq_some {field : { field : Bytes // field.length = n }}
    (h : split n bs = some (field, rest)) : bs = field.1 ++ rest := by
  unfold split at h
  split at h
  · cases h
    exact (List.take_append_drop n bs).symm
  · cases h

/-- Bytes further on do not change the field in front. -/
theorem split_extend {field : { field : Bytes // field.length = n }}
    (h : split n bs = some (field, rest)) (tail : Bytes) :
    split n (bs ++ tail) = some (field, rest ++ tail) := by
  rw [split_eq_some h, List.append_assoc, split_append field.2]

end Bytes

end OtapDataflow
