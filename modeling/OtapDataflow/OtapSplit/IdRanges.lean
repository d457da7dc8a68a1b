import Mathlib

/-! # Contiguous ranges of ids

The ids of a column are cut into runs in the order of the column.  If the runs are not in order, or
touch, they are sorted and merged.  Each comparison adds one to an id.  The ranges
are exact if and only if nothing follows the largest id of the type, in the column or in the order
of the runs (`contiguous_ranges_exact`); otherwise the addition overflows
(`largest_id_overflows`). -/

namespace OtapDataflow.IdRanges

open List

inductive IdType
  | uint16
  | uint32

def IdType.max : IdType → Nat
  | .uint16 => 2 ^ 16 - 1
  | .uint32 => 2 ^ 32 - 1

structure RangeInclusive where
  start : Nat
  stop : Nat

/-- `none` is an overflow, at which the function panics. -/
def addOne (max id : Nat) : Option Nat := if id < max then some (id + 1) else none

/-- The ranges of the chunks, of which the current one is from `first` to `last`. -/
def chunkRanges (max first last : Nat) : List Nat → Option (List RangeInclusive)
  | [] => some [⟨first, last⟩]
  | id :: ids => do
    let next ← addOne max last
    if id = next ∨ id = last then chunkRanges max first id ids
    else return ⟨first, last⟩ :: (← chunkRanges max id id ids)

/-- Whether some range starts before the end of the previous one, or right after it. -/
def needsFix (max : Nat) : List RangeInclusive → Option Bool
  | a :: b :: ranges => do
    let next ← addOne max a.stop
    if b.start ≤ next then some true else needsFix max (b :: ranges)
  | _ => some false

/-- The loop of `reduce_ranges`, with the range at the write cursor. -/
def mergeRanges (max : Nat) (write : RangeInclusive) :
    List RangeInclusive → Option (List RangeInclusive)
  | [] => some [write]
  | read :: ranges => do
    let next ← addOne max write.stop
    if read.start ≤ next then
      mergeRanges max (if write.stop < read.stop then ⟨write.start, read.stop⟩ else write) ranges
    else return write :: (← mergeRanges max read ranges)

def before (a b : RangeInclusive) : Bool := a.start < b.start ∨ a.start = b.start ∧ a.stop ≤ b.stop

def reduceRanges (max : Nat) (ranges : List RangeInclusive) : Option (List RangeInclusive) :=
  match ranges.mergeSort before with
  | [] => some []
  | first :: rest => mergeRanges max first rest

def getContiguousIdRanges (type : IdType) : List Nat → Option (List RangeInclusive)
  | [] => some []
  | id :: ids => do
    let ranges ← chunkRanges type.max id id ids
    if ← needsFix type.max ranges then reduceRanges type.max ranges else some ranges

/-! ## Runs of the column -/

/-- The ids that start a new run, after a row with id `last`. -/
def startsAfter (last : Nat) : List Nat → List Nat
  | [] => []
  | id :: ids => if id = last + 1 ∨ id = last then startsAfter id ids else id :: startsAfter id ids

/-- The ids at which the runs of a column start. -/
def runStarts : List Nat → List Nat
  | [] => []
  | id :: ids => id :: startsAfter id ids

/-- Nothing comes after the largest id, neither a row of the column nor, in the order of their
starts, a run. -/
def NothingAfterLargest (max : Nat) (values : List Nat) : Prop :=
  max ∉ values.dropLast ∧
    (max ∈ values → ∀ last ∈ (runStarts values).getLast?, ∀ start ∈ runStarts values, start ≤ last)

/-! ## What the ranges hold -/

/-- Well-formed ranges of ids up to `max`, which hold the ids of `p` and no others. -/
def Hold (max : Nat) (ranges : List RangeInclusive) (p : Nat → Prop) : Prop :=
  (∀ r ∈ ranges, r.start ≤ r.stop ∧ r.stop ≤ max) ∧
    ∀ id, (∃ r ∈ ranges, r.start ≤ id ∧ id ≤ r.stop) ↔ p id

/-- Only the last range can end with the largest id. -/
def Room (max : Nat) (ranges : List RangeInclusive) : Prop := ∀ r ∈ ranges.dropLast, r.stop < max

/-- In increasing order, with an id between any two. -/
def Apart (ranges : List RangeInclusive) : Prop := ranges.Pairwise fun a b => a.stop + 1 < b.start

variable {max : Nat} {ranges : List RangeInclusive} {p : Nat → Prop}

theorem Hold.cons {q : Nat → Prop} {r : RangeInclusive} (h : Hold max ranges p)
    (hr : r.start ≤ r.stop ∧ r.stop ≤ max)
    (hq : ∀ id, (r.start ≤ id ∧ id ≤ r.stop) ∨ p id ↔ q id) : Hold max (r :: ranges) q :=
  ⟨forall_mem_cons.mpr ⟨hr, h.1⟩, fun id => by rw [← hq, ← h.2, exists_mem_cons_iff]⟩

theorem chunkRanges_spec {first last : Nat} (ids : List Nat) (hle : first ≤ last)
    (hids : ∀ id ∈ last :: ids, id ≤ max) (hmax : max ∉ (last :: ids).dropLast) :
    ∃ ranges, chunkRanges max first last ids = some ranges ∧
      (Hold max ranges fun id => (first ≤ id ∧ id ≤ last) ∨ id ∈ ids) ∧ Room max ranges ∧
      ranges.map (·.start) = first :: startsAfter last ids ∧
      (ranges.getLast?.map (·.stop)) = (last :: ids).getLast? := by
  induction ids generalizing first last with
  | nil => exact ⟨_, rfl, by simpa [Hold, hle] using hids, by simp [Room], rfl, rfl⟩
  | cons id ids ih =>
    obtain ⟨hlast, hids⟩ := forall_mem_cons.mp hids
    rw [dropLast_cons_cons, mem_cons, not_or] at hmax
    have hroom : last < max := lt_of_le_of_ne hlast (Ne.symm hmax.1)
    by_cases hnext : id = last + 1 ∨ id = last
    · obtain ⟨ranges, hranges, hhold, hrest⟩ := @ih first id (by omega) hids hmax.2
      refine ⟨ranges, by simp [chunkRanges, addOne, hroom, hnext, hranges], by grind [Hold], ?_⟩
      simpa [startsAfter, hnext] using hrest
    · obtain ⟨ranges, hranges, hhold, hlastRoom, hstarts, hend⟩ := @ih id id le_rfl hids hmax.2
      have hne : ranges ≠ [] := by rintro rfl; simp at hstarts
      refine ⟨⟨first, last⟩ :: ranges, by simp [chunkRanges, addOne, hroom, hnext, hranges],
        hhold.cons ⟨hle, hlast⟩ fun v => or_congr_right ?_, ?_, ?_, ?_⟩
      · rw [mem_cons]
        exact or_congr_left (by omega)
      · rw [Room, dropLast_cons_of_ne_nil hne]
        exact forall_mem_cons.mpr ⟨hroom, hlastRoom⟩
      · simp [startsAfter, hnext, hstarts]
      · rw [getLast?_cons_of_ne_nil hne, hend, getLast?_cons_cons]

/-- A row after the largest id. -/
theorem chunkRanges_none {first last : Nat} {ids : List Nat} (hmax : max ∈ (last :: ids).dropLast) :
    chunkRanges max first last ids = none := by
  induction ids generalizing first last with
  | nil => simp at hmax
  | cons id ids ih =>
    rw [dropLast_cons_cons, mem_cons] at hmax
    by_cases hlast : last < max
    · have hmax := hmax.resolve_left (by omega)
      simp [chunkRanges, addOne, hlast, ih hmax]
    · simp [chunkRanges, addOne, hlast]

theorem needsFix_spec (h : ∀ r ∈ ranges, r.start ≤ r.stop) (hroom : Room max ranges) :
    ∃ fix, needsFix max ranges = some fix ∧ (fix = false → Apart ranges) := by
  fun_induction needsFix max ranges with
  | case1 a b ranges ih =>
    obtain ⟨ha, h⟩ := forall_mem_cons.mp h
    rw [Room, dropLast_cons_cons] at hroom
    obtain ⟨haroom, hroom⟩ := forall_mem_cons.mp hroom
    obtain ⟨fix, hfix, hapart⟩ := ih h hroom
    by_cases htouch : b.start ≤ a.stop + 1
    · exact ⟨true, by grind [addOne], by simp⟩
    · refine ⟨fix, by grind [addOne], fun hno => pairwise_cons.mpr ⟨?_, hapart hno⟩⟩
      have hnext := (pairwise_cons.mp (hapart hno)).1
      grind
  | case2 ranges hshort =>
    refine ⟨false, rfl, fun _ => ?_⟩
    rcases ranges with _ | ⟨a, _ | ⟨b, ranges⟩⟩
    · exact .nil
    · exact pairwise_singleton ..
    · exact absurd rfl (hshort a b ranges)

theorem mergeRanges_spec {write : RangeInclusive} (h : Hold max (write :: ranges) p)
    (hroom : Room max (write :: ranges))
    (hsorted : (write :: ranges).Pairwise fun a b => a.start ≤ b.start) :
    ∃ merged, mergeRanges max write ranges = some merged ∧ Hold max merged p ∧ Apart merged ∧
      ∀ r ∈ merged, write.start ≤ r.start := by
  induction ranges generalizing write p with
  | nil => exact ⟨[write], rfl, h, by simp [Apart], by simp⟩
  | cons read ranges ih =>
    obtain ⟨hwrite, hwf⟩ := forall_mem_cons.mp h.1
    obtain ⟨hread, hrest⟩ := forall_mem_cons.mp hwf
    obtain ⟨hstart, hsorted⟩ := pairwise_cons.mp hsorted
    rw [Room, dropLast_cons_cons] at hroom
    obtain ⟨hadd, hroom⟩ := forall_mem_cons.mp hroom
    by_cases htouch : read.start ≤ write.stop + 1
    · -- the range at the write cursor grows, or holds the one that is read
      obtain ⟨next, hnext⟩ : ∃ next,
        next = if write.stop < read.stop then ⟨write.start, read.stop⟩ else write := ⟨_, rfl⟩
      have hsame : next.start = write.start := by grind
      have hids : ∀ id, (∃ r ∈ next :: ranges, r.start ≤ id ∧ id ≤ r.stop) ↔ p id := fun id => by
        rw [← h.2]
        simp only [exists_mem_cons_iff, ← or_assoc]
        exact or_congr_left (by grind)
      have hlater : Room max (next :: ranges) := by
        cases ranges with
        | nil => simp [Room]
        | cons r ranges =>
          rw [dropLast_cons_cons] at hroom
          rw [Room, dropLast_cons_cons]
          grind
      obtain ⟨merged, hmerged, hmore⟩ := ih ⟨forall_mem_cons.mpr ⟨by grind, hrest⟩, hids⟩ hlater
        (pairwise_cons.mpr ⟨by grind, hsorted.of_cons⟩)
      refine ⟨merged, ?_, hsame ▸ hmore⟩
      simp [mergeRanges, addOne, hadd, htouch, ← hnext, hmerged]
    · obtain ⟨merged, hmerged, hhold, hapart, hafter⟩ := ih ⟨hwf, fun _ => .rfl⟩ hroom hsorted
      refine ⟨write :: merged, by simp [mergeRanges, addOne, hadd, htouch, hmerged],
        hhold.cons hwrite fun id => ?_, pairwise_cons.mpr ⟨by grind, hapart⟩, by grind⟩
      rw [← h.2, exists_mem_cons_iff (a := write)]

/-- A range after one that ends with the largest id. -/
theorem mergeRanges_none {write : RangeInclusive} (hroom : ¬ Room max (write :: ranges))
    (hle : ∀ r ∈ write :: ranges, r.stop ≤ max) : mergeRanges max write ranges = none := by
  induction ranges generalizing write with
  | nil => simp [Room] at hroom
  | cons read ranges ih =>
    obtain ⟨hwrite, hle⟩ := forall_mem_cons.mp hle
    obtain ⟨hread, hrest⟩ := forall_mem_cons.mp hle
    by_cases hadd : write.stop < max
    · have hnext : ¬ Room max (read :: ranges) := fun h => hroom (by
        rw [Room, dropLast_cons_cons]
        exact forall_mem_cons.mpr ⟨hadd, h⟩)
      by_cases htouch : read.start ≤ write.stop + 1
      · -- the range that is too large is read, or comes later
        have hgrown : ¬ Room max ((if write.stop < read.stop then ⟨write.start, read.stop⟩
            else write) :: ranges) := by
          cases ranges with
          | nil => simp [Room] at hnext
          | cons r ranges =>
            rw [Room, dropLast_cons_cons, forall_mem_cons] at hnext ⊢
            grind
        simp only [mergeRanges, addOne, hadd, if_true, htouch, Option.bind_eq_bind,
          Option.bind_some]
        exact ih hgrown (forall_mem_cons.mpr ⟨by grind, hrest⟩)
      · simp [mergeRanges, addOne, hadd, htouch, ih hnext hle]
    · simp [mergeRanges, addOne, hadd]

/-- Sorted by their starts, the range that ends with the largest id is the last one. -/
theorem room_mergeSort (hroom : Room max ranges) (hle : ∀ r ∈ ranges, r.stop ≤ max)
    (hlast : ∀ r ∈ ranges.getLast?, r.stop = max) :
    Room max (ranges.mergeSort before) ↔
      ∀ last ∈ (ranges.map (·.start)).getLast?, ∀ start ∈ ranges.map (·.start), start ≤ last := by
  have hsorted := @pairwise_mergeSort _ before (by grind [before]) (by grind [before]) ranges
  have hperm := mergeSort_perm ranges before
  generalize ranges.mergeSort before = sorted at hsorted hperm
  rcases eq_nil_or_concat ranges with rfl | ⟨init, largest, rfl⟩
  · rw [hperm.eq_nil]
    simp [Room]
  rcases eq_nil_or_concat sorted with rfl | ⟨front, greatest, rfl⟩
  · simpa using hperm.length_eq
  simp only [concat_eq_append] at *
  simp only [Room, dropLast_concat, map_append, map_cons, map_nil, getLast?_concat,
    Option.mem_some_iff, forall_eq', forall_mem_append, forall_mem_singleton,
    pairwise_append] at hroom hle hlast hsorted ⊢
  have hmem : ∀ r, r ∈ front ∨ r = greatest ↔ r ∈ init ∨ r = largest := by
    simpa using fun r => hperm.mem_iff
  constructor
  · intro hfront
    have heq : largest = greatest := by grind
    subst heq
    simp only [mem_map, forall_exists_index, and_imp]
    grind [before]
  · -- an earlier range that ends with the largest id is the last one before it was sorted
    rintro ⟨hstarts, -⟩ r hr
    by_contra hend
    have hlargest : r = largest := by grind
    subst hlargest
    by_cases heq : greatest = r
    · subst heq
      have hinit := ((perm_append_right_iff _).mp hperm).mem_iff.mp hr
      grind
    · have hgreatest : greatest ∈ init := by grind
      have hbefore := hsorted.2.2 r hr
      have hstart := hstarts _ (mem_map_of_mem hgreatest)
      grind [before]

theorem reduceRanges_spec (h : Hold max ranges p) (hroom : Room max (ranges.mergeSort before)) :
    ∃ merged, reduceRanges max ranges = some merged ∧ Hold max merged p ∧ Apart merged := by
  unfold reduceRanges
  have hsorted := @pairwise_mergeSort _ before (by grind [before]) (by grind [before]) ranges
  have hperm : Hold max (ranges.mergeSort before) p := by simpa only [Hold, mem_mergeSort] using h
  generalize ranges.mergeSort before = sorted at hsorted hperm hroom
  cases sorted with
  | nil => exact ⟨[], rfl, hperm, .nil⟩
  | cons first rest =>
    obtain ⟨merged, hmerged, hhold, hapart, -⟩ :=
      mergeRanges_spec hperm hroom (hsorted.imp fun hle => by grind [before])
    exact ⟨merged, hmerged, hhold, hapart⟩

theorem reduceRanges_none (hroom : ¬ Room max (ranges.mergeSort before))
    (hle : ∀ r ∈ ranges, r.stop ≤ max) : reduceRanges max ranges = none := by
  have hle : ∀ r ∈ ranges.mergeSort before, r.stop ≤ max := by simpa only [mem_mergeSort] using hle
  unfold reduceRanges
  cases hsorted : ranges.mergeSort before with
  | nil => simp [hsorted, Room] at hroom
  | cons first rest => exact mergeRanges_none (hsorted ▸ hroom) (hsorted ▸ hle)

/-- **The ranges are exact**, and nothing overflows, if and only if nothing comes after the largest
id of the type. -/
theorem contiguous_ranges_exact (type : IdType) (values : List Nat)
    (hvalues : ∀ id ∈ values, id ≤ type.max) :
    (∃ ranges, getContiguousIdRanges type values = some ranges ∧
      (∀ r ∈ ranges, r.start ≤ r.stop) ∧ Apart ranges ∧
      ∀ id, (∃ r ∈ ranges, r.start ≤ id ∧ id ≤ r.stop) ↔ id ∈ values) ↔
    NothingAfterLargest type.max values := by
  cases values with
  | nil => simp [getContiguousIdRanges, NothingAfterLargest, Apart]
  | cons first ids =>
    by_cases hrow : type.max ∈ (first :: ids).dropLast
    · simp [getContiguousIdRanges, chunkRanges_none hrow, NothingAfterLargest, hrow]
    obtain ⟨chunks, hchunks, hhold, hroom, hstarts, hend⟩ :=
      chunkRanges_spec ids (le_refl first) hvalues hrow
    have hids : Hold type.max chunks (· ∈ first :: ids) := ⟨hhold.1, fun v => by
      rw [hhold.2]
      grind⟩
    have hsort : Room type.max (chunks.mergeSort before) ↔
        NothingAfterLargest type.max (first :: ids) := by
      by_cases hmax : type.max ∈ first :: ids
      · have hlast : (first :: ids).getLast? = some type.max := by
          rw [← dropLast_append_getLast (cons_ne_nil first ids), mem_append] at hmax
          rw [getLast?_eq_some_getLast (cons_ne_nil _ _), mem_singleton.mp (hmax.resolve_left hrow)]
        rw [room_mergeSort hroom (fun r hr => (hids.1 r hr).2) (by grind), hstarts]
        simp [NothingAfterLargest, hrow, hmax, runStarts]
      · refine iff_of_true (fun r hr => ?_) ⟨hrow, fun h => absurd h hmax⟩
        have hr := mem_mergeSort.mp (mem_of_mem_dropLast hr)
        have hstop := (hids.2 r.stop).mp ⟨r, hr, (hids.1 r hr).1, le_rfl⟩
        exact lt_of_le_of_ne (hids.1 r hr).2 fun h => hmax (h ▸ hstop)
    obtain ⟨fix, hfix, hapart⟩ := needsFix_spec (fun r hr => (hids.1 r hr).1) hroom
    rw [getContiguousIdRanges, hchunks]
    simp only [Option.bind_eq_bind, Option.bind_some, hfix]
    cases fix with
    | false =>
      have hinorder : chunks.mergeSort before = chunks := mergeSort_of_pairwise
        ((hapart rfl).imp_of_mem fun ha _ hlt => by
          have := (hids.1 _ ha).1
          grind [before])
      rw [hinorder] at hsort
      exact iff_of_true ⟨chunks, rfl, fun r hr => (hids.1 r hr).1, hapart rfl, hids.2⟩
        (hsort.mp hroom)
    | true =>
      rw [← hsort]
      constructor
      · rintro ⟨ranges, hranges, -⟩
        by_contra hnone
        rw [if_pos rfl, reduceRanges_none hnone fun r hr => (hids.1 r hr).2] at hranges
        cases hranges
      · intro hsorted
        obtain ⟨ranges, hranges, hhold, hapart⟩ := reduceRanges_spec hids hsorted
        exact ⟨ranges, hranges, fun r hr => (hhold.1 r hr).1, hapart, hhold.2⟩

/-- Ids that start again, up to the largest one. -/
theorem contiguous_ranges_exact_restart :
    ∃ ranges, getContiguousIdRanges .uint16 [1, 2, 0, 3, 65534, 65535] = some ranges ∧
      Apart ranges := by
  obtain ⟨ranges, hranges, -, hapart, -⟩ :=
    (contiguous_ranges_exact .uint16 [1, 2, 0, 3, 65534, 65535] (by decide)).mpr (by
      simp [NothingAfterLargest, IdType.max, runStarts, startsAfter])
  exact ⟨ranges, hranges, hapart⟩

/-- The comparison with what follows the largest id. -/
theorem largest_id_overflows : getContiguousIdRanges .uint16 [65535, 0] = none := rfl

end OtapDataflow.IdRanges
