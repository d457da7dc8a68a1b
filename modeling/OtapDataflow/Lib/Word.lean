import Mathlib

/-! # 64-bit counters

Machine counters are modelled by natural numbers; the operations that differ from those
of `Nat` at the top of the range are written out. -/

namespace OtapDataflow.Word

/-- The largest value of a `u64` or `usize` counter. -/
def u64Max : Nat := 2 ^ 64 - 1

/-- `saturating_add` on 64-bit counters. -/
def saturatingAdd (a b : Nat) : Nat := min (a + b) u64Max

/-- `wrapping_add` on 64-bit counters. -/
def wrappingAdd (a b : Nat) : Nat := (a + b) % 2 ^ 64

/-- `checked_add` on 64-bit counters. -/
def checkedAdd (a b : Nat) : Option Nat := if a + b ≤ u64Max then some (a + b) else none

theorem checkedAdd_eq {a b : Nat} (h : a + b ≤ u64Max) : checkedAdd a b = some (a + b) := if_pos h

/-- Below the top of the range a saturating sum is the sum. -/
theorem saturatingAdd_eq {a b : Nat} (h : a + b < 2 ^ 64) : saturatingAdd a b = a + b := by
  unfold saturatingAdd u64Max
  omega

/-- Saturating twice is saturating once. -/
@[simp] theorem saturatingAdd_min (a b : Nat) :
    saturatingAdd (min a u64Max) b = min (a + b) u64Max := by
  unfold saturatingAdd
  omega

/-- Within the range, a difference of cut-off positions is the distance. -/
theorem min_sub_min {s d : Nat} (h : s + d ≤ u64Max) : min (s + d) u64Max - min s u64Max = d := by
  rw [min_eq_left h, min_eq_left (le_trans (Nat.le_add_right s d) h)]
  exact Nat.add_sub_cancel_left s d

theorem saturatingAdd_le_add (a b : Nat) : saturatingAdd a b ≤ a + b := min_le_left ..

theorem saturatingAdd_le (a b : Nat) : saturatingAdd a b ≤ u64Max := min_le_right ..

end OtapDataflow.Word
