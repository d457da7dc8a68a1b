import Mathlib

/-! # Bitmaps of 64-bit words

A set of small indices kept as a list of 64-bit words: index `i` is bit `i % 64` of word
`i / 64`.  Every operation is specified by `test`, so that clients never look at words. -/

namespace OtapDataflow.Bitmap

open List

abbrev Word := BitVec 64

/-- The word with bit `b` set. -/
def mask (b : Nat) : Word := 1#64 <<< b

/-- All-zero bitmap of `n` words. -/
def zeros (n : Nat) : List Word := replicate n 0#64

/-- Is index `i` in the set? -/
def test (words : List Word) (i : Nat) : Bool :=
  (words.getD (i / 64) 0#64 &&& mask (i % 64)) != 0#64

/-- Add index `i`. -/
def set (words : List Word) (i : Nat) : List Word :=
  words.modify (i / 64) (· ||| mask (i % 64))

/-- Number of set bits of a word. -/
def popcount (w : Word) : Nat := (range 64).countP w.getLsbD

/-- Position of the lowest set bit, `64` for the zero word. -/
def trailingZeros (w : Word) : Nat := ((range 64).find? w.getLsbD).getD 64

/-- Number of set bits of a bitmap. -/
def count (words : List Word) : Nat := (words.map popcount).sum

/-- Scan the words from word `k` on for the lowest index below `limit` that is not in the
set: skip full words, otherwise look at the first zero bit. -/
def firstUnsetFrom (limit : Nat) : Nat → List Word → Option Nat
  | _, [] => none
  | k, w :: ws =>
    if w = BitVec.allOnes 64 then firstUnsetFrom limit (k + 1) ws
    else if k * 64 + trailingZeros (~~~w) < limit then some (k * 64 + trailingZeros (~~~w))
    else firstUnsetFrom limit (k + 1) ws

/-! ## Membership -/

theorem mask_getLsbD {b j : Nat} (hj : j < 64) : (mask b).getLsbD j = decide (b = j) := by
  unfold mask
  by_cases h : b = j
  · subst h
    simp [hj]
  · rw [decide_eq_false h]
    by_cases hlt : j < b
    · simp [hlt]
    · have hpos : j - b ≠ 0 := by omega
      simp [hpos]

variable {w : Word} {words : List Word} {i : Nat}

theorem and_mask_ne_zero {b : Nat} (hb : b < 64) : ((w &&& mask b) != 0#64) = w.getLsbD b := by
  cases hbit : w.getLsbD b with
  | true =>
    have hne : w &&& mask b ≠ 0#64 := by
      intro hzero
      have hbit' := congrArg (fun v => BitVec.getLsbD v b) hzero
      simp [hbit, mask_getLsbD hb] at hbit'
    simpa using hne
  | false =>
    have hzero : w &&& mask b = 0#64 := by
      apply BitVec.eq_of_getLsbD_eq
      intro j hj
      rw [BitVec.getLsbD_and, mask_getLsbD hj, BitVec.getLsbD_zero]
      by_cases h : b = j
      · subst h
        simp [hbit]
      · simp [h]
    simp [hzero]

theorem test_eq_getLsbD (words : List Word) (i : Nat) :
    test words i = (words.getD (i / 64) 0#64).getLsbD (i % 64) :=
  and_mask_ne_zero (Nat.mod_lt _ (by decide))

@[simp] theorem test_zeros (n i : Nat) : test (zeros n) i = false := by
  rw [test_eq_getLsbD, zeros, getD_eq_getElem?_getD, getElem?_replicate]
  split <;> simp

@[simp] theorem length_set (words : List Word) (i : Nat) : (set words i).length = words.length :=
  length_modify _ _ _

@[simp] theorem length_zeros (n : Nat) : (zeros n).length = n := length_replicate

/-- Setting an index adds that index and no other. -/
theorem test_set (hi : i / 64 < words.length) (j : Nat) :
    test (set words i) j = (decide (i = j) || test words j) := by
  have hbit : j % 64 < 64 := Nat.mod_lt _ (by decide)
  rw [test_eq_getLsbD, test_eq_getLsbD, set, getD_eq_getElem?_getD,
    getElem?_modify, getD_eq_getElem?_getD]
  by_cases hword : i / 64 = j / 64
  · obtain ⟨w, hw⟩ : ∃ w, words[j / 64]? = some w := by
      rw [← hword]
      exact ⟨_, getElem?_eq_getElem hi⟩
    have hiff : i % 64 = j % 64 ↔ i = j := by omega
    simp [hword, hw, mask_getLsbD hbit, hiff, Bool.or_comm]
  · have hne : i ≠ j := fun h => hword (by rw [h])
    simp [hword, hne]

/-! ## Counting -/

theorem test_cons_add (w : Word) (ws : List Word) (i : Nat) :
    test (w :: ws) (64 + i) = test ws i := by
  rw [test_eq_getLsbD, test_eq_getLsbD]
  have hdiv : (64 + i) / 64 = i / 64 + 1 := by omega
  have hmod : (64 + i) % 64 = i % 64 := by omega
  rw [hdiv, hmod, getD_cons_succ]

theorem test_cons_lt (w : Word) (ws : List Word) (hi : i < 64) :
    test (w :: ws) i = w.getLsbD i := by
  rw [test_eq_getLsbD, Nat.div_eq_of_lt hi, Nat.mod_eq_of_lt hi, getD_cons_zero]

/-- Adding one new element of a duplicate-free list to a predicate adds one to its count. -/
theorem countP_insert {l : List Nat} {q : Nat → Bool} {a : Nat} (hnd : l.Nodup) (ha : a ∈ l)
    (hq : ¬ q a = true) : l.countP (fun i => decide (i = a) || q i) = l.countP q + 1 := by
  induction l with
  | nil => cases ha
  | cons b l ih =>
    obtain ⟨hb, hnd⟩ := nodup_cons.mp hnd
    by_cases hba : b = a
    · subst hba
      have hrest : l.countP (fun i => decide (i = b) || q i) = l.countP q := by
        apply countP_congr
        intro i hi
        have hne : i ≠ b := fun he => hb (he ▸ hi)
        simp [hne]
      simp [hrest, hq]
    · have hmem : a ∈ l := (mem_cons.mp ha).resolve_left (fun he => hba he.symm)
      simp only [countP_cons, ih hnd hmem, hba, decide_false, Bool.false_or]
      omega

/-- Setting a new index below `limit` adds one to the count below `limit`. -/
theorem countP_set {limit : Nat} (hword : i / 64 < words.length) (hi : i < limit)
    (hnew : ¬ test words i = true) :
    (range limit).countP (test (set words i)) =
      (range limit).countP (test words) + 1 := by
  have hfun : test (set words i) = fun j => decide (j = i) || test words j := by
    funext j
    rw [test_set hword]
    simp [eq_comm]
  rw [hfun]
  exact countP_insert nodup_range (mem_range.mpr hi) hnew

/-! ## Scanning -/

theorem trailingZeros_spec (hw : w ≠ 0#64) :
    trailingZeros w < 64 ∧ w.getLsbD (trailingZeros w) = true ∧
      ∀ j < trailingZeros w, w.getLsbD j = false := by
  unfold trailingZeros
  cases hfind : (range 64).find? w.getLsbD with
  | none =>
    refine absurd (BitVec.eq_of_getLsbD_eq fun j hj => ?_) hw
    have hnone := find?_eq_none.mp hfind j (mem_range.mpr hj)
    simpa using hnone
  | some b =>
    rw [find?_range_eq_some] at hfind
    obtain ⟨hbit, hmem, hbefore⟩ := hfind
    exact ⟨mem_range.mp hmem, hbit, fun j hj => by simpa using hbefore j hj⟩

/-- The lowest zero bit of a word that is not full, among the indices below `limit`. -/
theorem find_unset_word (hw : w ≠ BitVec.allOnes 64) (base limit : Nat) :
    (range 64).find? (fun j => !w.getLsbD j && decide (base + j < limit)) =
      if base + trailingZeros (~~~w) < limit then some (trailingZeros (~~~w)) else none := by
  have hne : ~~~w ≠ 0#64 := by
    intro hzero
    apply hw
    rw [← @BitVec.not_not _ w, hzero, BitVec.not_zero]
  obtain ⟨hlt, hbit, hbefore⟩ := trailingZeros_spec hne
  have hset : ∀ j < 64, (~~~w).getLsbD j = !w.getLsbD j := by
    intro j hj
    simp [hj]
  split_ifs with hin
  · rw [find?_range_eq_some]
    refine ⟨?_, mem_range.mpr hlt, ?_⟩
    · rw [← hset _ hlt, hbit]
      simpa using hin
    · intro j hj
      have hj64 : j < 64 := by omega
      rw [← hset j hj64, hbefore j hj]
      rfl
  · rw [find?_eq_none]
    intro j hj hboth
    rw [Bool.and_eq_true, ← hset j (mem_range.mp hj), decide_eq_true_eq] at hboth
    have hge : trailingZeros (~~~w) ≤ j := by
      rw [hbefore j (by omega)] at hboth
      exact absurd hboth.1 (by decide)
    omega

theorem firstUnsetFrom_eq (limit k : Nat) (ws : List Word) :
    firstUnsetFrom limit k ws =
      ((range (64 * ws.length)).find?
        (fun j => !test ws j && decide (k * 64 + j < limit))).map (k * 64 + ·) := by
  induction ws generalizing k with
  | nil => rfl
  | cons w ws ih =>
    have hlen : 64 * (w :: ws).length = 64 + 64 * ws.length := by
      rw [length_cons]
      ring
    -- the first 64 indices are decided by `w`, the others by `ws` one word further on
    have hlow : (range 64).find? (fun j => !test (w :: ws) j && decide (k * 64 + j < limit)) =
        (range 64).find? (fun j => !w.getLsbD j && decide (k * 64 + j < limit)) := by
      apply find?_congr
      intro j hj
      rw [test_cons_lt w ws (mem_range.mp hj)]
    have hshift : ∀ j, k * 64 + (64 + j) = (k + 1) * 64 + j := by
      intro j
      ring
    have hhigh : ((range (64 * ws.length)).map (64 + ·)).find?
          (fun j => !test (w :: ws) j && decide (k * 64 + j < limit)) =
        ((range (64 * ws.length)).find?
          (fun j => !test ws j && decide ((k + 1) * 64 + j < limit))).map (64 + ·) := by
      rw [find?_map]
      congr 1
      apply find?_congr
      intro j _
      simp [Function.comp, test_cons_add, hshift]
    rw [hlen, range_add, find?_append, hlow, hhigh, firstUnsetFrom, ih]
    by_cases hw : w = BitVec.allOnes 64
    · have hfull : (range 64).find?
          (fun j => !w.getLsbD j && decide (k * 64 + j < limit)) = none := by
        rw [find?_eq_none]
        intro j hj
        have hbit : w.getLsbD j = true := by
          rw [hw, BitVec.getLsbD_allOnes]
          exact decide_eq_true (mem_range.mp hj)
        simp [hbit]
      rw [if_pos hw, hfull, Option.none_or, Option.map_map]
      congr 1
      funext j
      exact (hshift j).symm
    · rw [if_neg hw, find_unset_word hw]
      split
      · rfl
      · rw [Option.none_or, Option.map_map]
        congr 1
        funext j
        exact (hshift j).symm

/-- The scan of the whole bitmap finds the lowest index below `limit` not in the set. -/
theorem firstUnset_eq {limit : Nat} (h : limit ≤ 64 * words.length) :
    firstUnsetFrom limit 0 words = (range limit).find? (fun j => !test words j) := by
  obtain ⟨d, hd⟩ := Nat.exists_eq_add_of_le h
  have hlow : (range limit).find? (fun j => !test words j && decide (0 * 64 + j < limit)) =
      (range limit).find? (fun j => !test words j) := by
    apply find?_congr
    intro j hj
    simp [mem_range.mp hj]
  have hhigh : ((range d).map (limit + ·)).find?
      (fun j => !test words j && decide (0 * 64 + j < limit)) = none := by
    rw [find?_eq_none]
    intro j hj
    obtain ⟨e, -, rfl⟩ := mem_map.mp hj
    simp
  rw [firstUnsetFrom_eq, hd, range_add, find?_append, hlow, hhigh, Option.or_none]
  simp

end OtapDataflow.Bitmap
