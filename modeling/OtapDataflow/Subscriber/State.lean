import OtapDataflow.Lib.Bitmap
import OtapDataflow.Lib.OrdMap

/-! # Subscriber state

Per-subscriber progress through the segment stream: a bitmap of resolved bundles for every
tracked segment and the set of bundles currently claimed.  `SegmentProgress` carries its
own bookkeeping, so the counter and the bitmap cannot disagree. -/

namespace OtapDataflow.Subscriber

open Bitmap

abbrev SegmentSeq := Nat

abbrev BundleIndex := Nat

structure BundleRef where
  segmentSeq : SegmentSeq
  bundleIndex : BundleIndex
  deriving DecidableEq, Repr

inductive AckOutcome where
  | acked
  | dropped
  deriving DecidableEq, Repr

/-! ## Progress within one segment -/

/-- Resolution status of the bundles of one segment. -/
structure SegmentProgress where
  bundleCount : Nat
  resolved : List Word
  resolvedCount : Nat
  /-- The bitmap has a word for every 64 bundles. -/
  words : resolved.length = (bundleCount + 63) / 64
  /-- No bit is set past the last bundle. -/
  inRange : ∀ i, test resolved i = true → i < bundleCount
  /-- The counter counts the resolved bundles. -/
  counted : resolvedCount = (List.range bundleCount).countP (test resolved)

namespace SegmentProgress

def new (bundleCount : Nat) : SegmentProgress where
  bundleCount := bundleCount
  resolved := zeros ((bundleCount + 63) / 64)
  resolvedCount := 0
  words := length_zeros _
  inRange := fun i hi => by rw [test_zeros] at hi; cases hi
  counted := by
    rw [eq_comm, List.countP_eq_zero]
    intro i _
    rw [test_zeros]
    exact Bool.false_ne_true

theorem word_lt (p : SegmentProgress) {i : Nat} (hi : i < p.bundleCount) :
    i / 64 < p.resolved.length := by
  rw [p.words]
  omega

def isResolved (p : SegmentProgress) (index : BundleIndex) : Bool :=
  if index ≥ p.bundleCount then false else test p.resolved index

theorem isResolved_eq_test (p : SegmentProgress) (i : Nat) :
    p.isResolved i = test p.resolved i := by
  unfold isResolved
  split_ifs with hge
  · cases ht : test p.resolved i with
    | false => rfl
    | true => exact absurd (p.inRange i ht) (not_lt.mpr hge)
  · rfl

/-- Mark a bundle as resolved; the flag says whether this was a new resolution. -/
def markResolved (p : SegmentProgress) (index : BundleIndex) : SegmentProgress × Bool :=
  if hge : index ≥ p.bundleCount then (p, false)
  else if hset : test p.resolved index = true then (p, false)
  else
    ({ bundleCount := p.bundleCount
       resolved := set p.resolved index
       resolvedCount := p.resolvedCount + 1
       words := (length_set _ _).trans p.words
       inRange := by
         intro i hi
         rw [test_set (p.word_lt (not_le.mp hge)), Bool.or_eq_true, decide_eq_true_eq] at hi
         rcases hi with rfl | hi
         · exact not_le.mp hge
         · exact p.inRange i hi
       counted := by
         have hlt := not_le.mp hge
         rw [countP_set (p.word_lt hlt) hlt hset, p.counted] },
      true)

def isComplete (p : SegmentProgress) : Bool := p.resolvedCount == p.bundleCount

/-- Scan the bitmap for the first unresolved bundle. -/
def nextUnresolved (p : SegmentProgress) : Option BundleIndex :=
  firstUnsetFrom p.bundleCount 0 p.resolved

@[simp] theorem new_bundleCount (n : Nat) : (new n).bundleCount = n := rfl

@[simp] theorem new_isResolved (n i : Nat) : (new n).isResolved i = false := by
  rw [isResolved_eq_test]
  exact test_zeros _ i

theorem isResolved_lt {p : SegmentProgress} {i : Nat} (h : p.isResolved i = true) :
    i < p.bundleCount := by
  rw [isResolved_eq_test] at h
  exact p.inRange i h

section

variable (p : SegmentProgress)

include p

@[simp] theorem markResolved_bundleCount (i : Nat) :
    (p.markResolved i).1.bundleCount = p.bundleCount := by
  unfold markResolved
  split
  · rfl
  · split <;> rfl

/-- Marking resolves exactly the marked bundle, if the segment has it. -/
theorem markResolved_isResolved (i j : Nat) :
    (p.markResolved i).1.isResolved j =
      (p.isResolved j || (decide (i = j) && decide (j < p.bundleCount))) := by
  simp only [isResolved_eq_test]
  unfold markResolved
  split
  · rename_i hge
    by_cases hij : i = j
    · subst hij
      simp [Nat.not_lt.mpr hge]
    · simp [hij]
  · rename_i hge
    have hlt := Nat.lt_of_not_le hge
    split
    · rename_i hset
      by_cases hij : i = j
      · subst hij
        simp [hset]
      · simp [hij]
    · rw [test_set (p.word_lt hlt)]
      by_cases hij : i = j
      · subst hij
        simp [hlt]
      · simp [hij]

/-- The counter reaches the bundle count exactly when every bundle is resolved. -/
theorem isComplete_iff : p.isComplete = true ↔ ∀ i < p.bundleCount, p.isResolved i = true := by
  unfold isComplete
  rw [beq_iff_eq, p.counted]
  nth_rewrite 2 [← @List.length_range p.bundleCount]
  rw [List.countP_eq_length]
  simp [isResolved_eq_test]

theorem nextUnresolved_eq :
    p.nextUnresolved = (List.range p.bundleCount).find? (fun i => !p.isResolved i) := by
  unfold nextUnresolved
  rw [firstUnset_eq (by rw [p.words]; omega)]
  simp [isResolved_eq_test]

end

end SegmentProgress

/-! ## The serialised form of a segment's progress -/

/-- A progress entry as written to the progress file. -/
structure SegmentProgressEntry where
  segSeq : SegmentSeq
  bundleCount : Nat
  ackedBitmap : List Word

namespace SegmentProgressEntry

def fromBitmap (segSeq : SegmentSeq) (bundleCount : Nat) (bitmap : List Word) :
    SegmentProgressEntry :=
  ⟨segSeq, bundleCount, bitmap⟩

def ackedCount (e : SegmentProgressEntry) : Nat := count e.ackedBitmap

def isComplete (e : SegmentProgressEntry) : Bool := e.ackedCount == e.bundleCount

end SegmentProgressEntry

/-! ## The state of one subscriber -/

/-- Progress and claims of one subscriber. -/
structure SubscriberState (Id : Type) where
  id : Id
  segments : OrdMap SegmentSeq SegmentProgress
  claimed : Finset BundleRef
  active : Bool

namespace SubscriberState

variable {Id : Type}

def new (id : Id) : SubscriberState Id where
  id := id
  segments := .empty
  claimed := ∅
  active := false

variable (st : SubscriberState Id)

def isActive : Bool := st.active

def activate : SubscriberState Id := { st with active := true }

def deactivate : SubscriberState Id := { st with active := false }

def addSegment (seq : SegmentSeq) (bundleCount : Nat) :
    SubscriberState Id :=
  { st with segments := st.segments.insertNew seq (.new bundleCount) }

def isResolved (b : BundleRef) : Bool :=
  match st.segments.get? b.segmentSeq with
  | some progress => progress.isResolved b.bundleIndex
  | none => false

def isClaimed (b : BundleRef) : Bool := b ∈ st.claimed

/-- Record a terminal outcome.  A segment that is not tracked has nothing to mark. -/
def recordOutcome (b : BundleRef) (_outcome : AckOutcome) :
    SubscriberState Id × Bool :=
  let st := { st with claimed := st.claimed.erase b }
  match st.segments.get? b.segmentSeq with
  | some progress =>
    ({ st with segments :=
        st.segments.modify b.segmentSeq (fun p => (p.markResolved b.bundleIndex).1) },
      (progress.markResolved b.bundleIndex).2)
  | none => (st, false)

/-- Claim a bundle; the flag says whether the claim was taken. -/
def claim (b : BundleRef) : SubscriberState Id × Bool :=
  if st.isResolved b then (st, false)
  else ({ st with claimed := insert b st.claimed }, decide (b ∉ st.claimed))

def release (b : BundleRef) : SubscriberState Id :=
  { st with claimed := st.claimed.erase b }

def oldestIncompleteSegment : Option SegmentSeq :=
  (st.segments.entries.find? (fun e => !e.2.isComplete)).map (·.1)

def highestTrackedSegment : Option SegmentSeq :=
  st.segments.keys.getLast?

/-- The scan of one segment in `next_pending`: the first unresolved bundle unless it is
claimed, otherwise the next one that is neither resolved nor claimed. -/
def nextPendingIn (seq : SegmentSeq) (progress : SegmentProgress) :
    Option BundleRef :=
  match progress.nextUnresolved with
  | none => none
  | some first =>
    if !st.isClaimed ⟨seq, first⟩ then some ⟨seq, first⟩
    else ((List.range' (first + 1) (progress.bundleCount - (first + 1))).find?
      (fun idx => !progress.isResolved idx && !st.isClaimed ⟨seq, idx⟩)).map (⟨seq, ·⟩)

def nextPending : Option BundleRef :=
  st.segments.entries.findSome? (fun e => st.nextPendingIn e.1 e.2)

def removeCompletedSegmentsBefore (before : SegmentSeq) :
    SubscriberState Id :=
  { st with segments :=
      st.segments.filter (fun seq progress => seq ≥ before || !progress.isComplete) }

def hasClaimedInSegment (seq : SegmentSeq) : Bool :=
  decide (∃ b ∈ st.claimed, b.segmentSeq = seq)

/-- The loop that marks the bundles `0..n` of a segment as resolved. -/
def markAll (p : SegmentProgress) : Nat → SegmentProgress
  | 0 => p
  | n + 1 => ((markAll p n).markResolved n).1

/-- Release every claim in a segment and mark all its bundles as resolved. -/
def forceCompleteSegment (seq : SegmentSeq) :
    SubscriberState Id × Bool :=
  ({ st with
      claimed := st.claimed.filter (fun b => b.segmentSeq ≠ seq)
      segments := st.segments.modify seq (fun p => markAll p p.bundleCount) },
    st.segments.contains seq)

def toProgressEntries : List SegmentProgressEntry :=
  st.segments.entries.map (fun e => .fromBitmap e.1 e.2.bundleCount e.2.resolved)

end SubscriberState

/-! # What the operations of a subscriber state do

A subscriber state is seen through three questions: how many bundles a tracked segment has
(`trackedCount`), whether a bundle is resolved, and whether it is claimed.  Each operation
has one lemma per question, and `nextPending` is the head of the ordered list of pending
bundles. -/

open List SegmentProgress OrdMap

/-- Segment order first, then index order within the segment. -/
def BundleRef.Lt (a b : BundleRef) : Prop :=
  a.segmentSeq < b.segmentSeq ∨ a.segmentSeq = b.segmentSeq ∧ a.bundleIndex < b.bundleIndex

variable {b : BundleRef}

theorem BundleRef.Lt.ne {a : BundleRef} (h : a.Lt b) : a ≠ b := by
  rintro rfl
  rcases h with h | ⟨-, h⟩ <;> exact absurd h (lt_irrefl _)

namespace SubscriberState

variable {Id : Type} (st : SubscriberState Id)

/-- The number of bundles of a tracked segment. -/
def trackedCount (seq : SegmentSeq) : Option Nat := (st.segments.get? seq).map (·.bundleCount)

/-- Every bundle of a tracked segment is resolved. -/
def Complete (seq : SegmentSeq) : Prop :=
  ∀ n, st.trackedCount seq = some n → ∀ i < n, st.isResolved ⟨seq, i⟩ = true

/-- The bundles of a segment that are neither resolved nor claimed, in index order. -/
def pendingIn (seq : SegmentSeq) (progress : SegmentProgress) : List BundleRef :=
  ((range progress.bundleCount).filter
    (fun i => !progress.isResolved i && !st.isClaimed ⟨seq, i⟩)).map (⟨seq, ·⟩)

/-- All bundles that are neither resolved nor claimed, in delivery order. -/
def pending : List BundleRef := st.segments.entries.flatMap (fun e => st.pendingIn e.1 e.2)

variable {st}

variable {seq before : SegmentSeq}

theorem isResolved_of_get {p : SegmentProgress} (h : st.segments.get? seq = some p)
    (i : BundleIndex) : st.isResolved ⟨seq, i⟩ = p.isResolved i := by
  simp [isResolved, h]

theorem isResolved_iff : st.isResolved b = true ↔
    ∃ p, st.segments.get? b.segmentSeq = some p ∧ p.isResolved b.bundleIndex = true := by
  unfold isResolved
  cases st.segments.get? b.segmentSeq <;> simp

/-- A resolved bundle belongs to a tracked segment. -/
theorem tracked_of_isResolved (h : st.isResolved b = true) :
    ∃ n, st.trackedCount b.segmentSeq = some n ∧ b.bundleIndex < n := by
  obtain ⟨p, hget, hres⟩ := isResolved_iff.mp h
  exact ⟨p.bundleCount, by simp [trackedCount, hget], isResolved_lt hres⟩

theorem isComplete_iff_complete {p : SegmentProgress} (h : st.segments.get? seq = some p) :
    p.isComplete = true ↔ st.Complete seq := by
  rw [isComplete_iff]
  have hcount : st.trackedCount seq = some p.bundleCount := by simp [trackedCount, h]
  constructor
  · intro hall n hn i hi
    rw [hcount] at hn
    cases hn
    rw [isResolved_of_get h]
    exact hall i hi
  · intro hall i hi
    rw [← isResolved_of_get h]
    exact hall _ hcount i hi

/-! ## Adding and removing segments -/

@[simp] theorem addSegment_trackedCount (seq seq' : SegmentSeq) (n : Nat) :
    (st.addSegment seq n).trackedCount seq' =
      if seq' = seq then some ((st.trackedCount seq).getD n) else st.trackedCount seq' := by
  unfold trackedCount addSegment
  rw [get?_insertNew]
  split
  · cases st.segments.get? seq <;> rfl
  · rfl

@[simp] theorem addSegment_isResolved (seq : SegmentSeq) (n : Nat) (b : BundleRef) :
    (st.addSegment seq n).isResolved b = st.isResolved b := by
  unfold isResolved addSegment
  rw [get?_insertNew]
  by_cases h : b.segmentSeq = seq
  · rw [if_pos h, h]
    cases st.segments.get? seq <;> simp
  · rw [if_neg h]

theorem get?_removeCompleted (seq : SegmentSeq) :
    (st.removeCompletedSegmentsBefore before).segments.get? seq =
      (st.segments.get? seq).filter (fun p => seq ≥ before || !p.isComplete) :=
  get?_filter _ _ _

/-- A segment survives the removal unless it is complete and below the boundary. -/
theorem removeCompleted_keeps (h : before ≤ seq ∨ ¬ st.Complete seq) :
    (st.removeCompletedSegmentsBefore before).segments.get? seq = st.segments.get? seq := by
  rw [get?_removeCompleted]
  cases hget : st.segments.get? seq with
  | none => rfl
  | some p =>
    rcases h with h | h
    · simp [h]
    · have hinc : p.isComplete = false := by
        rw [← isComplete_iff_complete hget] at h
        simpa using h
      simp [hinc]

theorem removeCompleted_drops (hlt : seq < before) (h : st.Complete seq) :
    (st.removeCompletedSegmentsBefore before).segments.get? seq = none := by
  rw [get?_removeCompleted]
  cases hget : st.segments.get? seq with
  | none => rfl
  | some p =>
    have hc : p.isComplete = true := (isComplete_iff_complete hget).mpr h
    simp [hc, not_le.mpr hlt]

/-! ## Outcomes and claims -/

@[simp] theorem recordOutcome_claimed (b : BundleRef) (o : AckOutcome) :
    (st.recordOutcome b o).1.claimed = st.claimed.erase b := by
  unfold recordOutcome
  dsimp only
  split <;> rfl

theorem recordOutcome_get? (b : BundleRef) (o : AckOutcome) (seq : SegmentSeq) :
    (st.recordOutcome b o).1.segments.get? seq =
      if seq = b.segmentSeq then
        (st.segments.get? seq).map (fun p => (p.markResolved b.bundleIndex).1)
      else st.segments.get? seq := by
  unfold recordOutcome
  dsimp only
  split
  · rw [get?_modify]
    split_ifs with heq
    · rw [heq]
    · rfl
  · rename_i hnone
    split_ifs with heq
    · rw [heq, hnone]
      rfl
    · rfl

@[simp] theorem recordOutcome_trackedCount (b : BundleRef) (o : AckOutcome) (seq : SegmentSeq) :
    (st.recordOutcome b o).1.trackedCount seq = st.trackedCount seq := by
  unfold trackedCount
  rw [recordOutcome_get?]
  split
  · cases st.segments.get? seq <;> simp
  · rfl

/-- A terminal outcome resolves exactly its bundle, if the segment is tracked and has it. -/
theorem recordOutcome_isResolved (b b' : BundleRef) (o : AckOutcome) :
    (st.recordOutcome b o).1.isResolved b' = (st.isResolved b' ||
      (decide (b = b') && (st.trackedCount b.segmentSeq).any (b.bundleIndex < ·))) := by
  obtain ⟨seq, i⟩ := b
  obtain ⟨seq', j⟩ := b'
  unfold isResolved trackedCount
  rw [recordOutcome_get?]
  by_cases hseq : seq' = seq
  · subst hseq
    cases st.segments.get? seq' with
    | none => simp
    | some p =>
      by_cases hij : i = j <;> simp [markResolved_isResolved, hij]
  · simp [hseq, Ne.symm hseq]

/-! ## Forced completion -/

theorem markAll_spec (p : SegmentProgress) (n : Nat) :
    (markAll p n).bundleCount = p.bundleCount ∧
      ∀ i, (markAll p n).isResolved i =
        (p.isResolved i || (decide (i < n) && decide (i < p.bundleCount))) := by
  induction n with
  | zero => exact ⟨rfl, fun i => by simp [markAll]⟩
  | succ n ih =>
    obtain ⟨hcount, hres⟩ := ih
    refine ⟨by simp [markAll, hcount], fun i => ?_⟩
    rw [markAll, markResolved_isResolved, hres, hcount]
    by_cases hin : n = i
    · subst hin
      cases p.isResolved n <;> simp
    · have hlt : i < n + 1 ↔ i < n := by
        constructor
        · intro h
          exact lt_of_le_of_ne (Nat.le_of_lt_succ h) (Ne.symm hin)
        · exact fun h => Nat.lt_succ_of_lt h
      simp [hin, hlt]

theorem forceComplete_get? (seq seq' : SegmentSeq) :
    (st.forceCompleteSegment seq).1.segments.get? seq' =
      if seq' = seq then (st.segments.get? seq).map (fun p => markAll p p.bundleCount)
      else st.segments.get? seq' :=
  get?_modify _ _ _ _

@[simp] theorem forceComplete_trackedCount (seq seq' : SegmentSeq) :
    (st.forceCompleteSegment seq).1.trackedCount seq' = st.trackedCount seq' := by
  unfold trackedCount
  rw [forceComplete_get?]
  split_ifs with h
  · rw [h]
    cases st.segments.get? seq with
    | none => rfl
    | some p => simp [(markAll_spec p _).1]
  · rfl

theorem forceComplete_isResolved_mono (h : st.isResolved b = true) :
    (st.forceCompleteSegment seq).1.isResolved b = true := by
  obtain ⟨p, hget, hres⟩ := isResolved_iff.mp h
  rw [isResolved_iff, forceComplete_get?]
  by_cases heq : b.segmentSeq = seq
  · subst heq
    refine ⟨_, by rw [if_pos rfl, hget]; rfl, ?_⟩
    rw [(markAll_spec p _).2, hres]
    rfl
  · exact ⟨p, by rw [if_neg heq]; exact hget, hres⟩

theorem forceComplete_complete (seq : SegmentSeq) :
    (st.forceCompleteSegment seq).1.Complete seq := by
  intro n hn i hi
  rw [forceComplete_trackedCount] at hn
  obtain ⟨p, hget, rfl⟩ := Option.map_eq_some_iff.mp hn
  rw [isResolved_iff, forceComplete_get?, if_pos rfl, hget]
  refine ⟨_, rfl, ?_⟩
  rw [(markAll_spec p _).2]
  simp [hi]

theorem mem_forceComplete_claimed :
    b ∈ (st.forceCompleteSegment seq).1.claimed ↔ b ∈ st.claimed ∧ b.segmentSeq ≠ seq := by
  simp [forceCompleteSegment]

/-! ## The next pending bundle -/

theorem mem_pending : b ∈ st.pending ↔
    ∃ n, st.trackedCount b.segmentSeq = some n ∧ b.bundleIndex < n ∧
      st.isResolved b = false ∧ b ∉ st.claimed := by
  obtain ⟨seq, i⟩ := b
  unfold pending pendingIn
  rw [mem_flatMap]
  constructor
  · rintro ⟨⟨seq', p⟩, hmem, hb⟩
    obtain ⟨j, hj, heq⟩ := mem_map.mp hb
    obtain ⟨rfl, rfl⟩ := BundleRef.mk.inj heq
    have hget := get?_eq_some.mpr hmem
    rw [mem_filter, mem_range] at hj
    refine ⟨p.bundleCount, by simp [trackedCount, hget], hj.1, ?_, ?_⟩
    · rw [isResolved_of_get hget]
      simpa using (Bool.and_eq_true_iff.mp hj.2).1
    · simpa [isClaimed] using (Bool.and_eq_true_iff.mp hj.2).2
  · rintro ⟨n, hn, hi, hres, hclaim⟩
    obtain ⟨p, hget, rfl⟩ := Option.map_eq_some_iff.mp hn
    rw [isResolved_of_get hget] at hres
    refine ⟨(seq, p), get?_eq_some.mp hget, mem_map.mpr ⟨i, ?_, rfl⟩⟩
    rw [mem_filter, mem_range]
    exact ⟨hi, by simp [hres, isClaimed, hclaim]⟩

/-- Pending bundles are listed in delivery order. -/
theorem pending_sorted : st.pending.Pairwise BundleRef.Lt := by
  unfold pending
  rw [pairwise_flatMap]
  constructor
  · rintro ⟨seq, p⟩ _
    rw [pendingIn, pairwise_map]
    exact (pairwise_lt_range.filter _).imp fun hlt => .inr ⟨rfl, hlt⟩
  · refine st.segments.sorted.imp ?_
    intro e e' hlt b hb b' hb'
    obtain ⟨i, -, rfl⟩ := mem_map.mp hb
    obtain ⟨i', -, rfl⟩ := mem_map.mp hb'
    exact .inl hlt

/-- The two-stage scan of a segment finds its first pending bundle. -/
theorem nextPendingIn_eq (seq : SegmentSeq) (p : SegmentProgress) :
    st.nextPendingIn seq p = (st.pendingIn seq p).head? := by
  unfold nextPendingIn pendingIn
  rw [head?_map, head?_filter, nextUnresolved_eq]
  cases hfirst : (range p.bundleCount).find? (fun i => !p.isResolved i) with
  | none =>
    have hnone : (range p.bundleCount).find?
        (fun i => !p.isResolved i && !st.isClaimed ⟨seq, i⟩) = none := by
      rw [find?_eq_none] at hfirst ⊢
      intro i hi hboth
      exact hfirst i hi (Bool.and_eq_true_iff.mp hboth).1
    rw [hnone]
    rfl
  | some first =>
    rw [find?_range_eq_some] at hfirst
    obtain ⟨hres, hmem, hbefore⟩ := hfirst
    have hlt := mem_range.mp hmem
    by_cases hclaim : st.isClaimed ⟨seq, first⟩ = true
    · -- the first unresolved bundle is claimed: the scan goes on behind it
      have hsplit : range p.bundleCount = range (first + 1) ++
          range' (first + 1) (p.bundleCount - (first + 1)) := by
        rw [range_eq_range', range_eq_range']
        have happ := @range'_append_1 0 (first + 1) (p.bundleCount - (first + 1))
        rw [zero_add] at happ
        rw [happ]
        congr 1
        omega
      have hprefix : (range (first + 1)).find?
          (fun i => !p.isResolved i && !st.isClaimed ⟨seq, i⟩) = none := by
        rw [find?_eq_none]
        intro i hi
        rcases Nat.lt_or_eq_of_le (Nat.le_of_lt_succ (mem_range.mp hi)) with hi | rfl
        · have hdone : p.isResolved i = true := by simpa using hbefore i hi
          simp [hdone]
        · simp [hclaim]
      rw [hsplit, find?_append, hprefix, Option.none_or]
      simp [hclaim]
    · have hfind : (range p.bundleCount).find?
          (fun i => !p.isResolved i && !st.isClaimed ⟨seq, i⟩) = some first := by
        rw [find?_range_eq_some]
        refine ⟨by simp [hclaim] at hres ⊢; exact hres, hmem, fun j hj => ?_⟩
        have hdone : p.isResolved j = true := by simpa using hbefore j hj
        simp [hdone]
      rw [hfind]
      simp [hclaim]

theorem nextPending_eq : st.nextPending = st.pending.head? := by
  unfold nextPending pending
  rw [head?_flatMap]
  congr 1
  funext e
  exact nextPendingIn_eq e.1 e.2

/-- Claiming a bundle takes it off the pending list. -/
theorem pending_claim (h : st.isResolved b = false) :
    (st.claim b).1.pending = st.pending.filter (fun b' => b' ≠ b) := by
  have hst : (st.claim b).1 = { st with claimed := insert b st.claimed } := by
    simp [claim, h]
  rw [hst]
  unfold pending pendingIn isClaimed
  rw [filter_flatMap]
  congr 1
  funext e
  rw [filter_map, filter_filter]
  congr 1
  apply filter_congr
  intro i _
  by_cases hb : (⟨e.1, i⟩ : BundleRef) = b
  · simp [hb]
  · simp [hb, Function.comp]

end SubscriberState

end OtapDataflow.Subscriber
