import Mathlib

/-! # Removing the delta encoding of a column

In a slice of an array the validity bitmap starts inside its buffer.  The loop of the decoder reads
the bits from the start of the buffer, so it adds up the deltas of other rows.  What is decoded
depends on the logical content alone exactly if these deltas have the sums of the valid ones
(`decoded_logically`); in general a slice is decoded differently from an equal array
(`slice_decoded_differently`). -/

namespace OtapDataflow.TransportEncoding

open List

/-- A validity bitmap: the bits of a buffer from an offset on. -/
structure NullBuffer where
  buffer : List Bool
  offset : Nat

/-- An array of ids, after the offset into the values buffer. -/
structure PrimitiveArray where
  values : List Nat
  nulls : Option NullBuffer

/-- Addition of ids below `limit`; `none` is an overflow. -/
def checkedAdd (limit a b : Nat) : Option Nat := if a + b < limit then some (a + b) else none

/-- The loop over the runs of bits that are set: it visits the rows of these bits in order. -/
def accumulate (limit acc : Nat) : List Nat → List Bool → Option (List Nat)
  | delta :: values, true :: bits => do
    let acc ← checkedAdd limit acc delta
    let values ← accumulate limit acc values bits
    return acc :: values
  | value :: values, false :: bits => (accumulate limit acc values bits).map (value :: ·)
  | values, _ => some values

namespace PrimitiveArray

def validity (array : PrimitiveArray) : List Bool :=
  match array.nulls with
  | none => replicate array.values.length true
  | some nulls => (nulls.buffer.drop nulls.offset).take array.values.length

/-- The bits that the loop goes by. -/
def visited (array : PrimitiveArray) : List Bool :=
  match array.nulls with
  -- the iterator over the runs starts at bit 0
  | some nulls => nulls.buffer.take array.values.length
  | none => replicate array.values.length true

def removeDeltaEncodingFromColumn (limit : Nat) (array : PrimitiveArray) : Option PrimitiveArray :=
  (accumulate limit 0 array.values array.visited).map fun values => { array with values }

/-- The value of a slot, unless it is null. -/
def slot (value : Nat) (valid : Bool) : Option Nat := if valid then some value else none

/-- The rows of an array, without what is stored in null slots. -/
def logical (array : PrimitiveArray) : List (Option Nat) := zipWith slot array.values array.validity

def slice (array : PrimitiveArray) (start len : Nat) : PrimitiveArray :=
  ⟨(array.values.drop start).take len,
    array.nulls.map fun nulls => { nulls with offset := nulls.offset + start }⟩

end PrimitiveArray

open PrimitiveArray

/-- The sum of the first `n` rows, where the bits are set. -/
def sumBefore (values : List Nat) (bits : List Bool) (n : Nat) : Nat :=
  ((zipWith slot values bits).take n).reduceOption.sum

/-- The deltas that the loop adds up do not overflow.  In front of each valid row they have the sum
of the valid deltas, if the loop visits that row; otherwise the valid deltas are zero. -/
def SumsAgree (limit : Nat) (array : PrimitiveArray) : Prop :=
  sumBefore array.values array.visited array.values.length < limit ∧
    ∀ i < array.values.length, array.validity[i]? = some true →
      (if array.visited[i]? = some true then sumBefore array.values array.visited i else 0) =
        sumBefore array.values array.validity i

theorem sumBefore_cons_succ (value : Nat) (values : List Nat) (bit : Bool) (bits : List Bool)
    (n : Nat) : sumBefore (value :: values) (bit :: bits) (n + 1) =
      (if bit then value else 0) + sumBefore values bits n := by
  cases bit <;> simp [sumBefore, slot, reduceOption_cons_of_some, reduceOption_cons_of_none]

/-- What the loop writes, and when it does not overflow. -/
theorem accumulate_spec {limit acc : Nat} (values : List Nat) (bits : List Bool)
    (hacc : acc < limit) :
    ((∃ out, accumulate limit acc values bits = some out) ↔
        acc + sumBefore values bits values.length < limit) ∧
      ∀ out, accumulate limit acc values bits = some out → out.length = values.length ∧
        ∀ i : Nat, out[i]? = values[i]?.map fun x =>
          if bits[i]? = some true then acc + sumBefore values bits i + x else x := by
  fun_induction accumulate limit acc values bits with
  | case1 acc delta values bits ih =>
    rw [length_cons, sumBefore_cons_succ, if_pos rfl, ← add_assoc]
    by_cases hadd : acc + delta < limit
    · obtain ⟨hsum, hrows⟩ := ih (acc + delta) hadd
      simp only [checkedAdd, hadd, if_true, Option.bind_eq_bind, Option.bind_some, ← hsum]
      refine ⟨by simp [Option.bind_eq_some_iff], fun out hout => ?_⟩
      obtain ⟨tail, htail, hcons⟩ := Option.bind_eq_some_iff.mp hout
      cases hcons
      obtain ⟨hlen, hrows⟩ := hrows tail htail
      refine ⟨congrArg (· + 1) hlen, fun i => ?_⟩
      cases i with
      | zero => simp [sumBefore]
      | succ i => simp [hrows i, sumBefore_cons_succ, add_assoc]
    · simp only [checkedAdd, hadd, if_false, Option.bind_eq_bind, Option.bind_none]
      exact ⟨iff_of_false nofun (by omega), nofun⟩
  | case2 acc value values bits ih =>
    obtain ⟨hsum, hrows⟩ := ih hacc
    rw [length_cons, sumBefore_cons_succ, if_neg Bool.false_ne_true, zero_add, ← hsum]
    refine ⟨by simp, fun out hout => ?_⟩
    obtain ⟨tail, htail, rfl⟩ := Option.map_eq_some_iff.mp hout
    obtain ⟨hlen, hrows⟩ := hrows tail htail
    refine ⟨congrArg (· + 1) hlen, fun i => ?_⟩
    cases i with
    | zero => simp
    | succ i => simp [hrows i, sumBefore_cons_succ]
  | case3 acc values bits hset hclear =>
    have hnil : values = [] ∨ bits = [] := by
      rcases values with _ | ⟨value, values⟩
      · exact .inl rfl
      · rcases bits with _ | ⟨_ | _, bits⟩
        · exact .inr rfl
        · exact absurd rfl (hclear _ _ _ rfl)
        · exact absurd rfl (hset _ _ _ rfl)
    have hzero : sumBefore values bits values.length = 0 := by
      rcases hnil with rfl | rfl <;> simp [sumBefore]
    refine ⟨by simp [hzero, hacc], ?_⟩
    rintro out ⟨⟩
    refine ⟨rfl, fun i => ?_⟩
    rcases hnil with rfl | rfl <;> simp

theorem sumBefore_succ (values : List Nat) (bits : List Bool) {i x : Nat}
    (hx : values[i]? = some x) (hbit : bits[i]? = some true) :
    sumBefore values bits (i + 1) = sumBefore values bits i + x := by
  have hrow : (zipWith slot values bits)[i]? = some (some x) := by
    simp [getElem?_zipWith, hx, hbit, slot]
  rw [sumBefore, take_add_one, hrow]
  simp [sumBefore, reduceOption_append]

/-- The array is decoded, and each valid row to the sum of the valid rows up to it. -/
def DecodedLogically (limit : Nat) (array : PrimitiveArray) : Prop :=
  ∃ decoded, array.removeDeltaEncodingFromColumn limit = some decoded ∧
    ∀ i : Nat, decoded.logical[i]? = array.logical[i]?.map
      (Option.map fun _ => (array.logical.take (i + 1)).reduceOption.sum)

theorem decodedLogically_iff {limit : Nat} (hlimit : 0 < limit) (array : PrimitiveArray) :
    DecodedLogically limit array ↔ SumsAgree limit array := by
  obtain ⟨hsum, hrows⟩ := accumulate_spec array.values array.visited hlimit
  rw [zero_add] at hsum
  rw [SumsAgree, ← hsum]
  have hrow : ∀ out, accumulate limit 0 array.values array.visited = some out →
      ((∀ i : Nat, (PrimitiveArray.logical { array with values := out })[i]? = array.logical[i]?.map
        (Option.map fun _ => (array.logical.take (i + 1)).reduceOption.sum)) ↔
      ∀ i < array.values.length, array.validity[i]? = some true →
        (if array.visited[i]? = some true then sumBefore array.values array.visited i else 0) =
          sumBefore array.values array.validity i) := by
    intro out hout
    obtain ⟨hlen, hrows⟩ := hrows out hout
    have hvalidity : PrimitiveArray.validity { array with values := out } = array.validity := by
      simp only [validity, hlen]
    simp only [logical, hvalidity, getElem?_zipWith, hrows, zero_add]
    refine forall_congr' fun i => ?_
    by_cases hi : i < array.values.length
    · rw [getElem?_eq_getElem hi]
      rcases hbit : array.validity[i]? with _ | _ | _
      · simp [hi]
      · simp [hi, slot]
      · have hnext := sumBefore_succ _ _ (getElem?_eq_getElem hi) hbit
        rw [sumBefore] at hnext
        simp only [Option.map_some, slot, if_true, hnext, hi, true_imp_iff, Option.some.injEq]
        split_ifs <;> omega
    · simp [hi]
  constructor
  · rintro ⟨decoded, hdecoded, hlogical⟩
    obtain ⟨out, hout, rfl⟩ := Option.map_eq_some_iff.mp hdecoded
    exact ⟨⟨out, hout⟩, (hrow out hout).mp hlogical⟩
  · rintro ⟨⟨out, hout⟩, hagree⟩
    exact ⟨_, Option.map_eq_some_iff.mpr ⟨out, hout, rfl⟩, (hrow out hout).mpr hagree⟩

theorem DecodedLogically.eq_of_logical {limit : Nat} {array other : PrimitiveArray}
    (h : DecodedLogically limit array) (hother : DecodedLogically limit other)
    (hsame : other.logical = array.logical) :
    (other.removeDeltaEncodingFromColumn limit).map logical =
      (array.removeDeltaEncodingFromColumn limit).map logical := by
  obtain ⟨decoded, hdecoded, hrows⟩ := h
  obtain ⟨decoded', hdecoded', hrows'⟩ := hother
  rw [hdecoded, hdecoded', Option.map_some, Option.map_some]
  refine congrArg some (ext_getElem? fun i => ?_)
  rw [hrows, hrows', hsame]

/-- **What is decoded depends on the logical content alone**: each valid row is decoded to the sum
of the valid rows up to it, if and only if the sums of the visited deltas are those of the valid
ones; and two such arrays, one a slice perhaps, are decoded alike if they are logically equal. -/
theorem decoded_logically {limit : Nat} (hlimit : 0 < limit) (array : PrimitiveArray) :
    (DecodedLogically limit array ↔ SumsAgree limit array) ∧
    ∀ other, SumsAgree limit array → SumsAgree limit other → other.logical = array.logical →
      (other.removeDeltaEncodingFromColumn limit).map logical =
        (array.removeDeltaEncodingFromColumn limit).map logical := by
  refine ⟨decodedLogically_iff hlimit array, fun other h hother hsame => ?_⟩
  rw [← decodedLogically_iff hlimit] at h hother
  exact h.eq_of_logical hother hsame

/-- An array with a null first row, without an offset. -/
def nullFirst : PrimitiveArray := ⟨[7, 1, 2], some ⟨[false, true, true], 0⟩⟩

/-- The rows after the null one, in an array of which the first row is valid. -/
def sliceOfValid : PrimitiveArray :=
  (⟨[7, 1, 2], some ⟨[true, true, true], 0⟩⟩ : PrimitiveArray).slice 1 2

theorem decoded_logically_slice :
    SumsAgree (2 ^ 16) nullFirst ∧
      (sliceOfValid.removeDeltaEncodingFromColumn (2 ^ 16)).map logical =
      ((⟨[1, 2], none⟩ : PrimitiveArray).removeDeltaEncodingFromColumn (2 ^ 16)).map logical :=
  ⟨by unfold SumsAgree; decide,
    (@decoded_logically (2 ^ 16) (by decide) ⟨[1, 2], none⟩).2 sliceOfValid
      (by unfold SumsAgree; decide) (by unfold SumsAgree; decide) rfl⟩

/-- Its valid rows are decoded to 1 and 2, an equal array without nulls to 1 and 3. -/
theorem slice_decoded_differently :
    (nullFirst.slice 1 2).logical = (⟨[1, 2], none⟩ : PrimitiveArray).logical ∧
      ((nullFirst.slice 1 2).removeDeltaEncodingFromColumn (2 ^ 16)).map logical =
        some [some 1, some 2] ∧
      ((⟨[1, 2], none⟩ : PrimitiveArray).removeDeltaEncodingFromColumn (2 ^ 16)).map logical =
        some [some 1, some 3] := by
  decide

/-! # Quasi-delta encoding of parent ids

In a sorted batch the parent id of a row is replaced by its difference to the one before if the
two rows agree in the equality columns.  Both directions read the bits of "same as the previous
row" without looking at their validity.  The bit of a null slot compares whatever the buffers
hold, so a null next to a value can count as equal to it; the round trip depends on the parent ids
of two such rows being in order (`quasi_delta_round_trip`, `null_taken_for_equal`). -/

/-- A slot of an Arrow array: the entry in its buffer and its validity bit. -/
structure Slot (α : Type) where
  raw : α
  valid : Bool
  deriving DecidableEq, Repr

/-- An equality column.  A dictionary is compared by its keys, so there an entry is a key;
`rank` is the place of the value it stands for in the order of the sort. -/
structure EqualityColumn (κ ρ : Type) where
  slots : List (Slot κ)
  rank : κ → ρ

section

variable {κ : Type} [DecidableEq κ]

/-- The `eq` kernel compares the buffers; a result is valid if both sides are. -/
def eqKernel (lhs rhs : List (Slot κ)) : List (Slot Bool) :=
  List.zipWith (fun a b => ⟨decide (a.raw = b.raw), a.valid && b.valid⟩) lhs rhs

/-- The `and` kernel. -/
def andKernel (lhs rhs : List (Slot Bool)) : List (Slot Bool) :=
  List.zipWith (fun a b => ⟨a.raw && b.raw, a.valid && b.valid⟩) lhs rhs

def createNextElementEqualityArray (arr : List (Slot κ)) : List (Slot Bool) :=
  eqKernel arr.dropLast arr.tail

end

/-! ## Encoding -/

variable {κ ρ : Type}

section

variable [DecidableEq κ]

/-- The loop over the rows after the first one; `none` is an underflow. -/
def encodeRows (prev : Nat) : List Nat → List (Slot Bool) → Option (List Nat)
  | [], _ => some []
  | _ :: _, [] => none
  | curr :: rest, eq :: eqs => do
    let delta ← if eq.raw then (if prev ≤ curr then some (curr - prev) else none) else some curr
    let deltas ← encodeRows curr rest eqs
    return delta :: deltas

/-- `transport_encode_parent_id_for_columns`, for the equality columns that are present. -/
def transportEncodeParentIdForColumns (columns : List (EqualityColumn κ ρ)) :
    List Nat → Option (List Nat)
  | [] => some []
  | first :: rest =>
    let eqNext := columns.foldl
      (fun eqNext c => andKernel (createNextElementEqualityArray c.slots) eqNext)
      (List.replicate rest.length ⟨true, true⟩)
    (encodeRows first rest eqNext).map (first :: ·)

/-! ## Decoding -/

/-- The loop over the rows after the first one. -/
def decodeRows (limit curr : Nat) : List Nat → List (Slot Bool) → Option (List Nat)
  | [], _ => some []
  | _ :: _, [] => none
  | delta :: deltas, eq :: eqs => do
    let curr ← if eq.raw then checkedAdd limit curr delta else some delta
    let ids ← decodeRows limit curr deltas eqs
    return curr :: ids

/-- `materialize_parent_ids_by_columns`; without equality columns the ids are delta encoded. -/
def materializeParentIdsByColumns (limit : Nat) (columns : List (EqualityColumn κ ρ)) :
    List Nat → Option (List Nat)
  | [] => some []
  | first :: rest =>
    let eqNext : Option (List (Slot Bool)) := columns.foldl
      (fun eqNext c => some (match eqNext with
        | some eqNext => andKernel (createNextElementEqualityArray c.slots) eqNext
        | none => createNextElementEqualityArray c.slots)) none
    match eqNext with
    | some eqNext => (decodeRows limit first rest eqNext).map (first :: ·)
    | none => (removeDeltaEncodingFromColumn limit ⟨first :: rest, none⟩).map (·.values)

end

/-! ## The bits -/

variable {i : Nat} {columns : List (EqualityColumn κ ρ)}

section

variable {n : Nat}

/-- The entries of a column in row `i` and in the row after it. -/
def EqualityColumn.pair (c : EqualityColumn κ ρ) (i : Nat) : Option (Slot κ × Slot κ) :=
  (c.slots[i]?).bind fun a => (c.slots[i + 1]?).map fun b => (a, b)

/-- The buffers of all columns have the same entry in rows `i` and `i + 1`. -/
def SameEntries (columns : List (EqualityColumn κ ρ)) (i : Nat) : Prop :=
  ∀ c ∈ columns, ∃ a b, c.pair i = some (a, b) ∧ a.raw = b.raw

variable [DecidableEq κ]

theorem length_createNext (arr : List (Slot κ)) :
    (createNextElementEqualityArray arr).length = arr.length - 1 := by
  simp [createNextElementEqualityArray, eqKernel]

theorem length_andKernel (lhs rhs : List (Slot Bool)) :
    (andKernel lhs rhs).length = min lhs.length rhs.length := by
  simp [andKernel]

theorem raw_andKernel {lhs rhs : List (Slot Bool)} {bit : Slot Bool}
    (h : (andKernel lhs rhs)[i]? = some bit) :
    bit.raw = true ↔
      (∃ a, lhs[i]? = some a ∧ a.raw = true) ∧ ∃ b, rhs[i]? = some b ∧ b.raw = true := by
  rw [andKernel, getElem?_zipWith_eq_some] at h
  obtain ⟨a, b, ha, hb, rfl⟩ := h
  simp [ha, hb]

theorem raw_createNext (c : EqualityColumn κ ρ) :
    (∃ bit, (createNextElementEqualityArray c.slots)[i]? = some bit ∧ bit.raw = true) ↔
      ∃ a b, c.pair i = some (a, b) ∧ a.raw = b.raw := by
  have hpair : ∀ a b, (c.slots.dropLast[i]? = some a ∧ c.slots.tail[i]? = some b) ↔
      c.pair i = some (a, b) := by
    intro a b
    rw [EqualityColumn.pair, getElem?_tail, getElem?_dropLast]
    grind
  simp only [createNextElementEqualityArray, eqKernel, getElem?_zipWith_eq_some, ← hpair]
  grind

/-- What the two loops over the columns compute: a bit is set if and only if the rows have the same
entries in all columns, and there is a bit for each row but the last. -/
theorem foldl_andKernel {start : List (Slot Bool)}
    (hlen : ∀ c ∈ columns, c.slots.length = n + 1) (hstart : start.length = n) :
    let eqNext := columns.foldl
      (fun eqNext c => andKernel (createNextElementEqualityArray c.slots) eqNext) start
    eqNext.length = n ∧ ∀ i bit, eqNext[i]? = some bit →
      (bit.raw = true ↔ SameEntries columns i ∧ ∃ b, start[i]? = some b ∧ b.raw = true) := by
  induction columns generalizing start with
  | nil =>
    refine ⟨hstart, fun i bit hbit => ?_⟩
    simp only [foldl_nil] at hbit
    simp [SameEntries, hbit]
  | cons c columns ih =>
    have hc := hlen c mem_cons_self
    have hnew : (andKernel (createNextElementEqualityArray c.slots) start).length = n := by
      rw [length_andKernel, length_createNext, hc, hstart]
      simp
    obtain ⟨hlen', hbits⟩ := ih (fun d hd => hlen d (mem_cons_of_mem _ hd)) hnew
    refine ⟨hlen', fun i bit hbit => ?_⟩
    have hi : i < n := hlen' ▸ (List.getElem?_eq_some_iff.mp hbit).1
    have hand := getElem?_eq_getElem (hnew.symm ▸ hi)
    rw [hbits i bit hbit, SameEntries, SameEntries, forall_mem_cons, hand]
    simp only [Option.some.injEq, exists_eq_left', raw_andKernel hand, raw_createNext]
    tauto

/-- The decoder's loop, which starts without an array, computes the encoder's bits. -/
theorem foldl_some {start : List (Slot Bool)} :
    columns.foldl (fun eqNext c => some (match eqNext with
        | some eqNext => andKernel (createNextElementEqualityArray c.slots) eqNext
        | none => createNextElementEqualityArray c.slots)) (some start) =
      some (columns.foldl
        (fun eqNext c => andKernel (createNextElementEqualityArray c.slots) eqNext) start) := by
  induction columns generalizing start with
  | nil => rfl
  | cons c columns ih => exact ih

/-- An array of `true` is neutral. -/
theorem andKernel_replicate (lhs : List (Slot Bool)) :
    andKernel lhs (List.replicate lhs.length ⟨true, true⟩) = lhs := by
  induction lhs with
  | nil => rfl
  | cons a lhs ih =>
    rw [length_cons, replicate_succ, andKernel, zipWith_cons_cons, ← andKernel, ih]
    simp

end

/-! ## The round trip -/

section

/-- What row `i` is sorted by in the equality columns: nulls come last. -/
def sortKey (columns : List (EqualityColumn κ ρ)) (i : Nat) : List (WithTop ρ) :=
  columns.map fun c => match c.slots[i]? with
    | some slot => if slot.valid then (c.rank slot.raw : WithTop ρ) else ⊤
    | none => ⊤

/-- The rows are in the order of `sort_record_batch`: by the equality columns, then by the
parent id. -/
def SortedRows [LinearOrder ρ] (columns : List (EqualityColumn κ ρ)) (parentIds : List Nat) :
    Prop :=
  ∀ i p q, parentIds[i]? = some p → parentIds[i + 1]? = some q →
    toLex (sortKey columns i, p) ≤ toLex (sortKey columns (i + 1), q)

/-- Rows `i` and `i + 1` have the same entries in all columns, in some of which one of them is null
and the other is not. -/
def NullFacesValue (columns : List (EqualityColumn κ ρ)) (i : Nat) : Prop :=
  SameEntries columns i ∧ ∃ c ∈ columns, ∃ x ∈ c.pair i, x.1.valid ≠ x.2.valid

/-- Where a null faces a value, the parent ids happen to be in order. -/
def NullsInOrder (columns : List (EqualityColumn κ ρ)) (parentIds : List Nat) : Prop :=
  ∀ i p q, parentIds[i]? = some p → parentIds[i + 1]? = some q → NullFacesValue columns i → p ≤ q

/-- Rows with the same entries agree in what they are sorted by, unless a null faces a value. -/
theorem sortKey_eq (h : SameEntries columns i) (hnull : ¬ NullFacesValue columns i) :
    sortKey columns i = sortKey columns (i + 1) := by
  refine map_congr_left fun c hc => ?_
  obtain ⟨a, b, hpair, hraw⟩ := h c hc
  have hvalid : a.valid = b.valid := by
    by_contra hne
    exact hnull ⟨h, c, hc, (a, b), hpair, hne⟩
  obtain ⟨a', ha, hb⟩ := Option.bind_eq_some_iff.mp hpair
  obtain ⟨b', hb', heq⟩ := Option.map_eq_some_iff.mp hb
  cases heq
  simp [ha, hb', hraw, hvalid]

/-- In a sorted batch only a null that faces a value can bring marked rows out of order. -/
theorem nullsInOrder_iff [LinearOrder ρ] {parentIds : List Nat}
    (hsorted : SortedRows columns parentIds) :
    NullsInOrder columns parentIds ↔ ∀ i p q, parentIds[i]? = some p → parentIds[i + 1]? = some q →
      SameEntries columns i → p ≤ q := by
  refine forall₅_congr fun i p q hp hq => ⟨fun h hsame => ?_, fun h hnull => h hnull.1⟩
  by_cases hnull : NullFacesValue columns i
  · exact h hnull
  · have hle := hsorted i p q hp hq
    rw [sortKey_eq hsame hnull, Prod.Lex.toLex_le_toLex] at hle
    rcases hle with hlt | ⟨-, hle⟩
    · exact absurd hlt (lt_irrefl _)
    · exact hle

/-- The encoder's loop succeeds where marked rows are in order, and the decoder's inverts it. -/
theorem encodeRows_decodeRows (limit prev : Nat) {rest : List Nat} {eqs : List (Slot Bool)}
    (hlen : eqs.length = rest.length) (hrange : ∀ p ∈ rest, p < limit)
    (hsorted : ∀ (i : Nat) (bit : Slot Bool) (p q : Nat), eqs[i]? = some bit → bit.raw = true →
      (prev :: rest)[i]? = some p → rest[i]? = some q → p ≤ q) :
    ∃ deltas, encodeRows prev rest eqs = some deltas ∧
      decodeRows limit prev deltas eqs = some rest ∧ deltas.length = rest.length := by
  induction rest generalizing prev eqs with
  | nil => exact ⟨[], rfl, rfl, rfl⟩
  | cons curr rest ih =>
    cases eqs with
    | nil => cases hlen
    | cons eq eqs =>
      obtain ⟨deltas, henc, hdec, hcount⟩ := ih curr (Nat.succ.inj hlen)
        (fun p hp => hrange p (mem_cons_of_mem _ hp))
        (fun i bit p q hbit hraw hp hq => hsorted (i + 1) bit p q hbit hraw hp hq)
      have hcurr := hrange curr mem_cons_self
      cases hraw : eq.raw with
      | false =>
        exact ⟨curr :: deltas, by simp [encodeRows, hraw, henc], by simp [decodeRows, hraw, hdec],
          congrArg (· + 1) hcount⟩
      | true =>
        have hle := hsorted 0 eq prev curr rfl hraw rfl rfl
        have hsum : prev + (curr - prev) = curr := by omega
        refine ⟨(curr - prev) :: deltas, by simp [encodeRows, hraw, hle, henc], ?_,
          congrArg (· + 1) hcount⟩
        simp [decodeRows, hraw, checkedAdd, hsum, hcurr, hdec]

/-- Where the encoder's loop succeeds, marked rows are in order. -/
theorem encodeRows_sorted {prev : Nat} {rest deltas : List Nat} {eqs : List (Slot Bool)}
    (h : encodeRows prev rest eqs = some deltas) :
    ∀ (i : Nat) (bit : Slot Bool) (p q : Nat), eqs[i]? = some bit → bit.raw = true →
      (prev :: rest)[i]? = some p → rest[i]? = some q → p ≤ q := by
  induction rest generalizing prev eqs deltas with
  | nil => exact fun i bit p q hbit hraw hp hq => by cases hq
  | cons curr rest ih =>
    cases eqs with
    | nil => cases h
    | cons eq eqs =>
      obtain ⟨⟨deltas, hrest⟩, hle⟩ : (∃ deltas, encodeRows curr rest eqs = some deltas) ∧
          (eq.raw = true → prev ≤ curr) := by
        cases hraw : eq.raw <;> by_cases hle : prev ≤ curr <;>
          simp [encodeRows, hraw, hle, Option.bind_eq_some_iff] at h ⊢
        all_goals exact h.imp fun _ h => h.1
      intro i bit p q hbit hraw hp hq
      cases i with
      | zero =>
        cases hbit; cases hp; cases hq
        exact hle hraw
      | succ i => exact ih hrest i bit p q hbit hraw hp hq

/-- Accumulating all deltas is decoding with every row marked. -/
theorem accumulate_eq_decodeRows (limit acc : Nat) (deltas : List Nat) :
    accumulate limit acc deltas (List.replicate deltas.length true) =
      decodeRows limit acc deltas (List.replicate deltas.length ⟨true, true⟩) := by
  induction deltas generalizing acc with
  | nil => rfl
  | cons delta deltas ih =>
    rw [length_cons, replicate_succ, replicate_succ, accumulate, decodeRows]
    cases checkedAdd limit acc delta with
    | none => rfl
    | some acc => simp [ih]

variable [DecidableEq κ] [LinearOrder ρ]

/-- **Quasi-delta round trip.**  A sorted batch is encoded without an underflow and decoded to its
parent ids, if and only if these are in order wherever a null faces a value with its entry. -/
theorem quasi_delta_round_trip {limit : Nat} {parentIds : List Nat}
    (hlen : ∀ c ∈ columns, c.slots.length = parentIds.length) (hrange : ∀ p ∈ parentIds, p < limit)
    (hsorted : SortedRows columns parentIds) :
    (∃ encoded, transportEncodeParentIdForColumns columns parentIds = some encoded ∧
      materializeParentIdsByColumns limit columns encoded = some parentIds) ↔
    NullsInOrder columns parentIds := by
  rw [nullsInOrder_iff hsorted]
  cases parentIds with
  | nil => exact iff_of_true ⟨[], rfl, rfl⟩ nofun
  | cons first rest =>
    obtain ⟨hbits, hmarked⟩ := foldl_andKernel (n := rest.length) hlen
      (length_replicate (n := rest.length) (a := (⟨true, true⟩ : Slot Bool)))
    rw [transportEncodeParentIdForColumns]
    generalize heq : columns.foldl
      (fun eqNext c => andKernel (createNextElementEqualityArray c.slots) eqNext)
      (List.replicate rest.length ⟨true, true⟩) = eqNext at hbits hmarked ⊢
    have hbit : ∀ i, i < rest.length → ∃ bit, eqNext[i]? = some bit ∧
        (bit.raw = true ↔ SameEntries columns i) := by
      intro i hi
      have hget := getElem?_eq_getElem (hbits.symm ▸ hi)
      refine ⟨_, hget, ?_⟩
      rw [hmarked i _ hget]
      simp [hi]
    constructor
    · rintro ⟨encoded, hencoded, -⟩ i p q hp hq hsame
      obtain ⟨deltas, henc, -⟩ := Option.map_eq_some_iff.mp hencoded
      obtain ⟨bit, hget, hraw⟩ :=
          hbit i (Nat.succ_lt_succ_iff.mp (List.getElem?_eq_some_iff.mp hq).1)
      exact encodeRows_sorted henc i bit p q hget (hraw.mpr hsame) hp hq
    · intro horder
      obtain ⟨deltas, henc, hdec, hcount⟩ := encodeRows_decodeRows limit first hbits
        (fun p hp => hrange p (mem_cons_of_mem _ hp)) (by
          intro i bit p q hget hraw hp hq
          exact horder i p q hp hq ((hmarked i bit hget).mp hraw).1)
      refine ⟨first :: deltas, by rw [henc]; rfl, ?_⟩
      have hfirst := hrange first mem_cons_self
      cases columns with
      | nil =>
        have hadd : checkedAdd limit 0 first = some first := by simp [checkedAdd, hfirst]
        have hall : decodeRows limit first deltas (List.replicate deltas.length ⟨true, true⟩) =
            some rest := by rw [hcount, ← hdec, ← heq, foldl_nil]
        simp [materializeParentIdsByColumns, removeDeltaEncodingFromColumn, visited,
          replicate_succ, accumulate, hadd, accumulate_eq_decodeRows, hall]
      | cons c columns =>
        have hc : (createNextElementEqualityArray c.slots).length = rest.length := by
          rw [length_createNext, hlen c mem_cons_self]
          rfl
        rw [foldl_cons, ← hc, andKernel_replicate] at heq
        rw [materializeParentIdsByColumns, foldl_cons, foldl_some, heq]
        dsimp only
        rw [hdec]
        rfl

/-- The names of three span events: two have one name, the third has none. -/
def namedEvents : List (EqualityColumn Nat Nat) :=
  [{ slots := [⟨0, true⟩, ⟨0, true⟩, ⟨1, false⟩], rank := id }]

theorem quasi_delta_round_trip_events :
    ∃ encoded, transportEncodeParentIdForColumns namedEvents [5, 7, 3] = some encoded ∧
      materializeParentIdsByColumns (2 ^ 16) namedEvents encoded = some [5, 7, 3] := by
  refine (quasi_delta_round_trip (by decide) (by decide) ?_).mpr ?_
  · intro i p q hp hq
    rcases i with _ | _ | i
    · cases hp; cases hq; decide
    · cases hp; cases hq; decide
    · cases hq
  · intro i p q hp hq hnull
    rcases i with _ | _ | i
    · cases hp; cases hq; decide
    · obtain ⟨a, b, hpair, hraw⟩ := hnull.1 _ (.head _)
      cases hpair
      cases hraw
    · cases hq

/-- The names of two span events: a value and a null for which the key buffer also holds `0`. -/
def nullName : List (EqualityColumn Nat Nat) :=
  [{ slots := [⟨0, true⟩, ⟨0, false⟩], rank := id }]

/-- The row without a name comes last, with any parent id, yet counts as equal to the row before:
the subtraction of the parent ids underflows. -/
theorem null_taken_for_equal :
    SortedRows nullName [5, 3] ∧ transportEncodeParentIdForColumns nullName [5, 3] = none := by
  refine ⟨?_, by decide⟩
  intro i p q hp hq
  rcases i with _ | i
  · cases hp; cases hq; decide
  · cases hq

end

end OtapDataflow.TransportEncoding
