import OtapDataflow.Lib.Bytes

/-! # UTF-8

The well-formed byte sequences of the Unicode Standard, Table 3-7: a lead byte fixes how many
continuation bytes follow and the range of the first of them (`lead`).  `first` looks at the
start of a byte string and finds a well-formed sequence, the maximal subpart of an ill-formed
one, or a sequence that has not ended yet.  `fromUtf8` is the validation of a whole string with
the error report of `core::str::from_utf8`. -/

namespace OtapDataflow.Utf8

open Bytes List

/-- How many continuation bytes a lead byte asks for, and the range of the first of them. -/
def lead (a : UInt8) : Option (Nat × UInt8 × UInt8) :=
  if a ≤ 0x7f then some (0, 0x80, 0xbf)
  else if a < 0xc2 then none
  else if a ≤ 0xdf then some (1, 0x80, 0xbf)
  else if a = 0xe0 then some (2, 0xa0, 0xbf)
  else if a ≤ 0xec then some (2, 0x80, 0xbf)
  else if a = 0xed then some (2, 0x80, 0x9f)
  else if a ≤ 0xef then some (2, 0x80, 0xbf)
  else if a = 0xf0 then some (3, 0x90, 0xbf)
  else if a ≤ 0xf3 then some (3, 0x80, 0xbf)
  else if a = 0xf4 then some (3, 0x80, 0x8f)
  else none

/-- The scalar value of a lead byte and its continuation bytes. -/
def value (a : UInt8) (tail : Bytes) : Char :=
  let bits : Nat :=
    match tail.length with
    | 0 => a.toNat
    | n + 1 => a.toNat % 2 ^ (5 - n)
  Char.ofNat (tail.foldl (fun acc b => acc * 64 + b.toNat % 64) bits)

/-- Exactly `n` continuation bytes, the first in the given range. -/
def tails : Nat → UInt8 → UInt8 → Bytes → Bool
  | 0, _, _, [] => true
  | n + 1, lo, hi, b :: rest => decide (lo ≤ b ∧ b ≤ hi) && tails n 0x80 0xbf rest
  | _, _, _, _ => false

/-- The scalar that a byte sequence is the well-formed encoding of. -/
def decode? : Bytes → Option Char
  | [] => none
  | a :: tail => (lead a).bind fun (n, lo, hi) =>
    if tails n lo hi tail then some (value a tail) else none

/-- The beginning of a well-formed sequence, without its end. -/
def Subpart (bs : Bytes) : Prop := ∃ more, more ≠ [] ∧ (decode? (bs ++ more)).isSome

/-! ## The start of a byte string -/

/-- How many bytes at the start of a string continue the sequence. -/
def matched : Nat → UInt8 → UInt8 → Bytes → Nat
  | n + 1, lo, hi, b :: rest => if lo ≤ b ∧ b ≤ hi then matched n 0x80 0xbf rest + 1 else 0
  | _, _, _, _ => 0

inductive First where
  | scalar (c : Char) (len : Nat)
  | malformed (len : Nat)
  | incomplete
  deriving DecidableEq, Repr

def first : Bytes → First
  | [] => .incomplete
  | a :: tail =>
    match lead a with
    | none => .malformed 1
    | some (n, lo, hi) =>
      if matched n lo hi tail = n then .scalar (value a (tail.take n)) (n + 1)
      else if matched n lo hi tail = tail.length then .incomplete
      else .malformed (matched n lo hi tail + 1)

/-- `Utf8Error` -/
structure Utf8Error where
  validUpTo : Nat
  errorLen : Option Nat
  deriving DecidableEq, Repr

/-- The loop of `from_utf8`; every round consumes at least one byte. -/
def validate : Nat → Nat → Bytes → Except Utf8Error (List Char)
  | _, _, [] => .ok []
  | 0, pos, _ => .error ⟨pos, none⟩
  | fuel + 1, pos, bs =>
    match first bs with
    | .scalar c len => (validate fuel (pos + len) (bs.drop len)).map (c :: ·)
    | .malformed len => .error ⟨pos, some len⟩
    | .incomplete => .error ⟨pos, none⟩

/-- `core::str::from_utf8`, with the characters of a valid string. -/
def fromUtf8 (bs : Bytes) : Except Utf8Error (List Char) := validate bs.length 0 bs

/-! ## Continuation bytes -/

variable {n : Nat}

section

variable {lo hi : UInt8}

theorem matched_le (n : Nat) (lo hi : UInt8) (bs : Bytes) :
    matched n lo hi bs ≤ n ∧ matched n lo hi bs ≤ bs.length := by
  induction n generalizing lo hi bs with
  | zero => simp [matched]
  | succ n ih =>
    cases bs with
    | nil => simp [matched]
    | cons b rest =>
      unfold matched
      have hrest := ih 0x80 0xbf rest
      split
      · simp only [length_cons]
        omega
      · simp

theorem tails_iff (n : Nat) (lo hi : UInt8) (bs : Bytes) :
    tails n lo hi bs = true ↔ bs.length = n ∧ matched n lo hi bs = n := by
  induction n generalizing lo hi bs with
  | zero => cases bs <;> simp [tails, matched]
  | succ n ih =>
    cases bs with
    | nil => simp [tails]
    | cons b rest =>
      by_cases hb : lo ≤ b ∧ b ≤ hi
      · simp [tails, matched, hb, ih]
      · simp [tails, matched, hb]

/-- A prefix is matched to the same extent, or to its end. -/
theorem matched_take (bs : Bytes) (m : Nat) :
    matched n lo hi (bs.take m) = min (matched n lo hi bs) m := by
  induction bs generalizing n lo hi m with
  | nil => cases n <;> simp [matched]
  | cons b rest ih =>
    cases m with
    | zero => cases n <;> simp [matched]
    | succ m =>
      cases n with
      | zero => simp [matched]
      | succ n =>
        rw [take_succ_cons]
        unfold matched
        split
        · rw [ih]
          omega
        · simp

/-- A string that is matched to its end can be completed. -/
theorem exists_tails (bs : Bytes) (h : matched n lo hi bs = bs.length) (hlen : bs.length ≤ n)
    (hrange : lo ≤ hi) : ∃ more, tails n lo hi (bs ++ more) = true := by
  induction n generalizing lo hi bs with
  | zero =>
    obtain rfl := eq_nil_of_length_eq_zero (Nat.le_zero.mp hlen)
    exact ⟨[], rfl⟩
  | succ n ih =>
    cases bs with
    | nil =>
      obtain ⟨more, hmore⟩ := ih [] (by cases n <;> rfl) (Nat.zero_le _)
          (by decide : (0x80 : UInt8) ≤ 0xbf)
      refine ⟨lo :: more, ?_⟩
      rw [nil_append, tails, ← nil_append more, hmore]
      simp [hrange]
    | cons b rest =>
      unfold matched at h
      split at h
      · rename_i hb
        obtain ⟨more, hmore⟩ := ih rest (by simpa using h) (by simpa using hlen)
          (by decide : (0x80 : UInt8) ≤ 0xbf)
        refine ⟨more, ?_⟩
        rw [cons_append, tails, hmore]
        simp [hb]
      · cases h

end

/-- The range of the first continuation byte is not empty. -/
theorem lead_range {a : UInt8} {lo hi : UInt8} (h : lead a = some (n, lo, hi)) :
    n ≤ 3 ∧ lo ≤ hi := by
  unfold lead at h
  repeat' split at h
  all_goals
    cases h
    try exact ⟨by decide, by decide⟩

/-! ## What the first unit is -/

variable {bs : Bytes}

section

variable {c : Char}

theorem first_ascii {a : UInt8} (h : a ≤ 0x7f) (tail : Bytes) :
    first (a :: tail) = .scalar (Char.ofNat a.toNat) 1 := by
  have hlead : lead a = some (0, 0x80, 0xbf) := if_pos h
  simp only [first, hlead, matched, if_true, take_zero]
  rfl

/-- A well-formed sequence at the start of the string. -/
theorem decode_of_first (h : first bs = .scalar c n) :
    decode? (bs.take n) = some c ∧ 0 < n ∧ n ≤ bs.length := by
  cases bs with
  | nil => cases h
  | cons a tail =>
    rw [first] at h
    cases hlead : lead a with
    | none => simp [hlead] at h
    | some r =>
      obtain ⟨k, lo, hi⟩ := r
      simp only [hlead] at h
      split at h
      · obtain ⟨rfl, rfl⟩ := First.scalar.inj h
        have hk := (matched_le k lo hi tail).2
        have htails : tails k lo hi (tail.take k) = true := by
          rw [tails_iff, matched_take, length_take]
          omega
        refine ⟨?_, Nat.succ_pos _, by simp only [length_cons]; omega⟩
        simp [decode?, hlead, htails]
      · split at h <;> cases h

/-- A prefix of the string that is well-formed is found. -/
theorem first_of_decode (h : decode? (bs.take n) = some c) :
    first bs = .scalar c (bs.take n).length := by
  cases bs with
  | nil => simp [decode?] at h
  | cons a tail =>
    cases n with
    | zero => simp [decode?] at h
    | succ m =>
      rw [take_succ_cons] at h ⊢
      cases hlead : lead a with
      | none => simp [decode?, hlead] at h
      | some r =>
        obtain ⟨k, lo, hi⟩ := r
        simp only [decode?, hlead, Option.bind_some] at h
        split at h
        · rename_i htails
          obtain ⟨hlen, hall⟩ := (tails_iff ..).mp htails
          rw [matched_take] at hall
          have hk := matched_le k lo hi tail
          have hmatch : matched k lo hi tail = k := by omega
          have htake : tail.take k = tail.take m := by
            rw [← hlen, length_take]
            exact (take_eq_take_min ..).symm
          rw [first, hlead]
          simp only [hmatch, if_pos]
          rw [htake, length_cons, hlen, Option.some.inj h]
        · cases h

theorem subpart_cons (a : UInt8) (tail : Bytes) :
    Subpart (a :: tail) ↔ ∃ n lo hi, lead a = some (n, lo, hi) ∧
      matched n lo hi tail = tail.length ∧ tail.length < n := by
  constructor
  · rintro ⟨more, hne, hsome⟩
    obtain ⟨c, hc⟩ := Option.isSome_iff_exists.mp hsome
    rw [cons_append] at hc
    obtain ⟨⟨n, lo, hi⟩, hlead, hval⟩ := Option.bind_eq_some_iff.mp hc
    dsimp only at hval
    split at hval
    · rename_i htails
      obtain ⟨hlen, hall⟩ := (tails_iff ..).mp htails
      have hpos := length_pos_iff.mpr hne
      rw [length_append] at hlen
      have htake : matched n lo hi ((tail ++ more).take tail.length) =
          min (matched n lo hi (tail ++ more)) tail.length := matched_take ..
      rw [take_left, hall] at htake
      exact ⟨n, lo, hi, hlead, by omega, by omega⟩
    · cases hval
  · rintro ⟨n, lo, hi, hlead, hmatch, hlt⟩
    obtain ⟨more, hmore⟩ := exists_tails tail hmatch hlt.le (lead_range hlead).2
    have hlen := ((tails_iff ..).mp hmore).1
    refine ⟨more, ?_, ?_⟩
    · rintro rfl
      simp at hlen
      omega
    · simp [decode?, hlead, hmore]

/-- A well-formed sequence has at most four bytes. -/
theorem length_le_of_decode (h : decode? bs = some c) : bs.length ≤ 4 := by
  cases bs with
  | nil => exact Nat.zero_le _
  | cons a tail =>
    cases hlead : lead a with
    | none => simp [decode?, hlead] at h
    | some r =>
      obtain ⟨n, lo, hi⟩ := r
      have htails : tails n lo hi tail = true := by
        by_contra hne
        simp [decode?, hlead, hne] at h
      have hlen := ((tails_iff ..).mp htails).1
      have hn := (lead_range hlead).1
      rw [length_cons]
      omega

/-- A string in which no well-formed sequence is found has no well-formed prefix. -/
theorem decode_eq_none (h : ∀ c n, first bs ≠ .scalar c n) (m : Nat) :
    decode? (bs.take m) = none := by
  cases hd : decode? (bs.take m) with
  | none => rfl
  | some c => exact absurd (first_of_decode hd) (h _ _)

/-- **A malformed unit is a maximal subpart.**  No prefix of the string is well-formed, the
unit is the beginning of a well-formed sequence or a single byte, and no longer prefix is the
beginning of one. -/
theorem subpart_of_first (h : first bs = .malformed n) :
    0 < n ∧ n ≤ bs.length ∧ (∀ m, decode? (bs.take m) = none) ∧
      (n = 1 ∨ Subpart (bs.take n)) ∧ ∀ m, n < m → m ≤ bs.length → ¬ Subpart (bs.take m) := by
  have hnone : ∀ m, decode? (bs.take m) = none :=
    decode_eq_none fun c n hs => by rw [h] at hs; cases hs
  cases bs with
  | nil => cases h
  | cons a tail =>
    rw [first] at h
    cases hlead : lead a with
    | none =>
      rw [hlead] at h
      obtain rfl := First.malformed.inj h
      refine ⟨Nat.one_pos, by simp, hnone, .inl rfl, fun m hm _ hsub => ?_⟩
      obtain ⟨m, rfl⟩ := Nat.exists_eq_succ_of_ne_zero (by omega : m ≠ 0)
      obtain ⟨_, _, _, hlead', -⟩ := (subpart_cons ..).mp hsub
      cases hlead.symm.trans hlead'
    | some r =>
      obtain ⟨k, lo, hi⟩ := r
      simp only [hlead] at h
      split at h
      · cases h
      split at h
      · cases h
      obtain rfl := First.malformed.inj h
      have hle := matched_le k lo hi tail
      refine ⟨Nat.succ_pos _, by simp only [length_cons]; omega, hnone, .inr ?_,
        fun m hm hlen hsub => ?_⟩
      · rw [take_succ_cons, subpart_cons]
        refine ⟨k, lo, hi, hlead, ?_, ?_⟩
        · rw [matched_take, length_take]
          omega
        · rw [length_take]
          omega
      · obtain ⟨m, rfl⟩ := Nat.exists_eq_succ_of_ne_zero (by omega : m ≠ 0)
        obtain ⟨_, _, _, hlead', hmatch, hlt⟩ := (subpart_cons ..).mp hsub
        cases hlead.symm.trans hlead'
        rw [matched_take, length_take] at hmatch
        omega

/-- The whole string is the beginning of a well-formed sequence. -/
theorem subpart_of_incomplete (h : first bs = .incomplete) (hne : bs ≠ []) :
    Subpart bs ∧ ∀ m, decode? (bs.take m) = none := by
  refine ⟨?_, decode_eq_none fun c n hs => by rw [h] at hs; cases hs⟩
  cases bs with
  | nil => exact absurd rfl hne
  | cons a tail =>
    rw [first] at h
    cases hlead : lead a with
    | none => simp [hlead] at h
    | some r =>
      obtain ⟨k, lo, hi⟩ := r
      simp only [hlead] at h
      split at h
      · cases h
      split at h
      · rename_i hend
        have hle := matched_le k lo hi tail
        exact (subpart_cons ..).mpr ⟨k, lo, hi, hlead, hend, by omega⟩
      · cases h

/-! ## One byte at a time -/

/-- What has been found does not depend on later bytes. -/
theorem first_append (more : Bytes) (h : first bs ≠ .incomplete) :
    first (bs ++ more) = first bs := by
  cases bs with
  | nil => exact absurd rfl h
  | cons a tail =>
    rw [cons_append]
    rw [first] at h ⊢
    rw [first]
    cases hlead : lead a with
    | none => rfl
    | some r =>
      obtain ⟨k, lo, hi⟩ := r
      simp only [hlead] at h ⊢
      have hle' := matched_le k lo hi (tail ++ more)
      have htake : matched k lo hi ((tail ++ more).take tail.length) =
          min (matched k lo hi (tail ++ more)) tail.length := matched_take ..
      rw [take_left] at htake
      by_cases hall : matched k lo hi tail = k
      · rw [if_pos hall, if_pos (by omega), take_append_of_le_length (by omega)]
      · rw [if_neg hall] at h ⊢
        by_cases hend : matched k lo hi tail = tail.length
        · rw [if_pos hend] at h
          exact absurd rfl h
        · rw [if_neg hend]
          have hsame : matched k lo hi (tail ++ more) = matched k lo hi tail := by omega
          rw [if_neg (by omega), if_neg (by rw [length_append]; omega), hsame]

/-- **One more byte.**  After a string that has not ended, the next byte completes a scalar,
continues the sequence, or shows that it is malformed: then the unit ends before the byte,
unless the byte is the only one. -/
theorem first_snoc (h : first bs = .incomplete) (b : UInt8) :
    (∃ c, first (bs ++ [b]) = .scalar c (bs.length + 1)) ∨ first (bs ++ [b]) = .incomplete ∨
      (bs = [] ∧ first (bs ++ [b]) = .malformed 1) ∨
      (bs ≠ [] ∧ first (bs ++ [b]) = .malformed bs.length) := by
  cases bs with
  | nil =>
    rw [nil_append, first]
    cases hlead : lead b with
    | none => exact .inr (.inr (.inl ⟨rfl, rfl⟩))
    | some r =>
      obtain ⟨k, lo, hi⟩ := r
      dsimp only
      have hle := matched_le k lo hi []
      by_cases hall : matched k lo hi [] = k
      · obtain rfl : k = 0 := by simpa using hall.symm.trans (Nat.le_zero.mp hle.2)
        exact .inl ⟨_, rfl⟩
      · have hend : matched k lo hi [] = ([] : Bytes).length := Nat.le_zero.mp hle.2
        rw [if_neg hall, if_pos hend]
        exact .inr (.inl rfl)
  | cons a tail =>
    rw [first] at h
    rw [cons_append, first]
    cases hlead : lead a with
    | none => simp [hlead] at h
    | some r =>
      obtain ⟨k, lo, hi⟩ := r
      simp only [hlead] at h ⊢
      split at h
      · cases h
      split at h
      · rename_i hend
        have hle' := matched_le k lo hi (tail ++ [b])
        have htake : matched k lo hi ((tail ++ [b]).take tail.length) =
            min (matched k lo hi (tail ++ [b])) tail.length := matched_take ..
        rw [take_left] at htake
        rw [length_append, length_singleton] at hle'
        by_cases hmore : matched k lo hi (tail ++ [b]) = tail.length
        · refine .inr (.inr (.inr ⟨cons_ne_nil _ _, ?_⟩))
          rw [if_neg (by omega), if_neg (by rw [length_append, length_singleton]; omega), hmore]
          rfl
        · by_cases hall : matched k lo hi (tail ++ [b]) = k
          · refine .inl ⟨value a ((tail ++ [b]).take k), ?_⟩
            rw [if_pos hall, length_cons]
            congr 1
            omega
          · refine .inr (.inl ?_)
            rw [if_neg hall, if_pos (by rw [length_append, length_singleton]; omega)]
      · cases h

end

/-! ## Validation -/

theorem fromUtf8_cons (a : UInt8) (tail : Bytes) :
    fromUtf8 (a :: tail) =
      match first (a :: tail) with
      | .scalar c len => (validate tail.length (0 + len) ((a :: tail).drop len)).map (c :: ·)
      | .malformed len => .error ⟨0, some len⟩
      | .incomplete => .error ⟨0, none⟩ := rfl

/-- A string that is one well-formed sequence. -/
theorem fromUtf8_scalar {c : Char} (h : first bs = .scalar c bs.length) :
    fromUtf8 bs = .ok [c] := by
  cases bs with
  | nil => cases h
  | cons a tail =>
    rw [fromUtf8_cons, h]
    simp only [drop_length]
    cases tail.length <;> rfl

/-- A string that is malformed from its start. -/
theorem fromUtf8_malformed (h : first bs = .malformed n) : fromUtf8 bs = .error ⟨0, some n⟩ := by
  cases bs with
  | nil => cases h
  | cons a tail => rw [fromUtf8_cons, h]

theorem fromUtf8_incomplete (h : first bs = .incomplete) (hne : bs ≠ []) :
    fromUtf8 bs = .error ⟨0, none⟩ := by
  cases bs with
  | nil => exact absurd rfl hne
  | cons a tail => rw [fromUtf8_cons, h]

end OtapDataflow.Utf8
