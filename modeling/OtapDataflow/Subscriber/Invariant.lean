import OtapDataflow.Lib.Machine
import OtapDataflow.Subscriber.State

/-! # The subscriber registry over a segment store

The registry, the part of the segment store it reads, and the handles that are alive in
the embedding layer.  A handle is identified by the subscriber and the bundle it was given
for.  The environment decides whether the read of a segment file succeeds, which segments
have expired, and in which order a hash map is iterated; each of these is an input. -/

namespace OtapDataflow.Subscriber

/-- A bundle handed out to a subscriber and not resolved yet. -/
structure Handle (Id : Type) where
  subscriberId : Id
  bundleRef : BundleRef
  deriving DecidableEq, Repr

inductive SubscriberError (Id : Type) where
  | notFound (id : Id)
  | bundleNotAvailable (message : String)
  | segmentNotFound (segmentSeq : SegmentSeq)
  | segmentIo
  deriving DecidableEq, Repr

/-- Registry state, store contents and live handles.  `store` maps every segment file that
is registered to its bundle count; `nextSegmentSeq` is the sequence number of the next
finalised segment. -/
structure World (Id : Type) [LinearOrder Id] where
  subscribers : OrdMap Id (SubscriberState Id)
  dirtySubscribers : Finset Id
  store : OrdMap SegmentSeq Nat
  nextSegmentSeq : SegmentSeq
  handles : List (Handle Id)

variable {Id : Type} [LinearOrder Id]

namespace World

def init : World Id where
  subscribers := .empty
  dirtySubscribers := ∅
  store := .empty
  nextSegmentSeq := 0
  handles := []

variable (w : World Id)

/-- `SegmentStore::read_bundle`; `readOk` is the outcome of the file access. -/
def readBundle (readOk : Bool) (b : BundleRef) : Except (SubscriberError Id) Unit :=
  match w.store.get? b.segmentSeq with
  | none => .error (.segmentNotFound b.segmentSeq)
  | some bundleCount =>
    if b.bundleIndex ≥ bundleCount then
      .error (.bundleNotAvailable
        ("bundle index " ++ toString b.bundleIndex ++ " out of range (segment " ++
          toString b.segmentSeq ++ " has " ++ toString bundleCount ++ " bundles)"))
    else if readOk then .ok () else .error .segmentIo

/-- Replace the state of one registered subscriber. -/
def update (id : Id) (f : SubscriberState Id → SubscriberState Id) : World Id :=
  { w with subscribers := w.subscribers.modify id f }

/-- Change the state of every registered subscriber. -/
def updateAll (f : SubscriberState Id → SubscriberState Id) : World Id :=
  { w with subscribers := w.subscribers.mapVal (fun _ st => f st) }

/-! ## Lifecycle -/

def register (id : Id) : World Id :=
  if w.subscribers.contains id then w
  else { w with subscribers := w.subscribers.insert id (.new id) }

/-- The loop of `activate` over the available segments. -/
def addAvailable (store : List (SegmentSeq × Nat)) (st : SubscriberState Id) : SubscriberState Id :=
  store.foldl (fun st e => st.addSegment e.1 e.2) st

def activate (id : Id) : World Id × Except (SubscriberError Id) Unit :=
  match w.subscribers.get? id with
  | none => (w, .error (.notFound id))
  | some st =>
    if st.isActive then (w, .ok ())
    else (w.update id (fun st => (addAvailable w.store.entries st).activate), .ok ())

def deactivate (id : Id) : World Id × Except (SubscriberError Id) Unit :=
  match w.subscribers.get? id with
  | none => (w, .error (.notFound id))
  | some _ => (w.update id (·.deactivate), .ok ())

def onSegmentFinalized (seq : SegmentSeq) (bundleCount : Nat) : World Id :=
  w.updateAll (fun st => if st.isActive then st.addSegment seq bundleCount else st)

/-- A segment has been written: `register_new_segment` puts it into the store and its
callback notifies the registry. -/
def registerNewSegment (bundleCount : Nat) : World Id :=
  { w with
    store := w.store.insert w.nextSegmentSeq bundleCount
    nextSegmentSeq := w.nextSegmentSeq + 1 }.onSegmentFinalized w.nextSegmentSeq bundleCount

/-! ## Delivery -/

/-- The end of `poll_next_bundle` and `claim_bundle`: the claim has been taken, the bundle
is read, and only a successful read makes a handle. -/
def deliver (id : Id) (b : BundleRef) (readOk : Bool) :
    World Id × Except (SubscriberError Id) BundleRef :=
  match w.readBundle readOk b with
  | .ok () => ({ w with handles := ⟨id, b⟩ :: w.handles }, .ok b)
  | .error e => (w, .error e)

def pollNextBundle (id : Id) (readOk : Bool) :
    World Id × Except (SubscriberError Id) (Option BundleRef) :=
  match w.subscribers.get? id with
  | none => (w, .error (.notFound id))
  | some st =>
    if !st.isActive then (w, .error (.notFound id))
    else match st.nextPending with
      | none => (w, .ok none)
      | some b =>
        let r := (w.update id (fun st => (st.claim b).1)).deliver id b readOk
        (r.1, r.2.map some)

def claimBundle (id : Id) (b : BundleRef) (readOk : Bool) :
    World Id × Except (SubscriberError Id) BundleRef :=
  match w.subscribers.get? id with
  | none => (w, .error (.notFound id))
  | some st =>
    if st.isResolved b then (w, .error (.bundleNotAvailable "already resolved"))
    else if st.isClaimed b then (w, .error (.bundleNotAvailable "already claimed"))
    else if !(st.claim b).2 then (w, .error (.bundleNotAvailable "claim failed"))
    else (w.update id (fun st => (st.claim b).1)).deliver id b readOk

def recordResolution (id : Id) (b : BundleRef) (outcome : AckOutcome) : World Id :=
  { w.update id (fun st => (st.recordOutcome b outcome).1) with
    dirtySubscribers := insert id w.dirtySubscribers }

def releaseBundle (id : Id) (b : BundleRef) : World Id :=
  w.update id (·.release b)

/-- `ack` and `reject` consume the handle and record the outcome. -/
def resolve (h : Handle Id) (outcome : AckOutcome) : World Id :=
  { w.recordResolution h.subscriberId h.bundleRef outcome with handles := w.handles.erase h }

/-- `defer`, and dropping a handle that was not resolved. -/
def deferHandle (h : Handle Id) : World Id :=
  { w.releaseBundle h.subscriberId h.bundleRef with handles := w.handles.erase h }

/-! ## Retention -/

def cleanupSegmentsBefore (before : SegmentSeq) : World Id :=
  w.updateAll (·.removeCompletedSegmentsBefore before)

def deleteSegment (seq : SegmentSeq) : World Id :=
  { w with store := w.store.erase seq }

def oldestIncompleteSegment : Option SegmentSeq :=
  (w.subscribers.values.filterMap (·.oldestIncompleteSegment)).min?

def minHighestTrackedSegment : Option SegmentSeq :=
  (w.subscribers.values.filterMap
    (fun st => if st.isActive then st.highestTrackedSegment else none)).min?

/-- The boundary of `cleanup_completed_segments`: everything below it is processed. -/
def deleteBoundary : Option SegmentSeq :=
  match w.oldestIncompleteSegment with
  | some seq => some seq
  | none => w.minHighestTrackedSegment.map (· + 1)

def cleanupCompletedSegments : World Id × Nat :=
  match w.deleteBoundary with
  | none => (w, 0)
  | some boundary =>
    ({ w with store := w.store.filter (fun seq _ => seq ≥ boundary) }.cleanupSegmentsBefore
        boundary,
      (w.store.keys.filter (· < boundary)).length)

/-- The subscribers in the order a hash map is iterated in: first those of `order`. -/
def visit (order : List Id) : List (SubscriberState Id) :=
  (order.dedup ++ w.subscribers.keys.filter (· ∉ order)).filterMap w.subscribers.get?

/-- The scan of `force_drop_oldest_pending_segments`: collect the incomplete segments
seen so far (an ordered set) and, among these, those with claims of the subscriber being
visited. -/
def scanPending : List (SubscriberState Id) → OrdMap SegmentSeq Unit → List SegmentSeq →
    OrdMap SegmentSeq Unit × List SegmentSeq
  | [], pending, readers => (pending, readers)
  | st :: rest, pending, readers =>
    let incomplete := (st.toProgressEntries.filter (fun e => !e.isComplete)).map (·.segSeq)
    let pending := incomplete.foldl (fun pending seq => pending.insertNew seq ()) pending
    scanPending rest pending
      (readers ++ pending.keys.filter (fun seq => st.hasClaimedInSegment seq))

/-- The oldest incomplete segment without readers. -/
def oldestDroppable (order : List Id) : Option SegmentSeq :=
  let scan := scanPending (w.visit order) .empty []
  (scan.1.keys.filter (· ∉ scan.2)).head?

/-- Force-complete the given segments for one subscriber. -/
def forceCompleteState (segments : List SegmentSeq) (st : SubscriberState Id) :
    SubscriberState Id :=
  segments.foldl (fun st seq => (st.forceCompleteSegment seq).1) st

/-- Does force-completing the segments touch the subscriber? -/
def anyCompleted (segments : List SegmentSeq) (st : SubscriberState Id) : Bool :=
  segments.any st.segments.contains

def forceCompleteSegments (segments : List SegmentSeq) : World Id :=
  { w.updateAll (forceCompleteState segments) with
    dirtySubscribers := w.dirtySubscribers ∪
      ((w.subscribers.entries.filter (fun e => anyCompleted segments e.2)).map (·.1)).toFinset }

/-- The common tail of the two retention paths: force-complete the segments, delete their
files, then drop the tracking state below the highest of them. -/
def dropSegments (segments : List SegmentSeq) : World Id :=
  match segments.max? with
  | none => w
  | some highest =>
    (segments.foldl deleteSegment (w.forceCompleteSegments segments)).cleanupSegmentsBefore
      (highest + 1)

def forceDropOldestPendingSegments (order : List Id) :
    World Id × List SegmentSeq :=
  match w.oldestDroppable order with
  | none => (w, [])
  | some seq => (w.dropSegments [seq], [seq])

/-- `isExpired` is the outcome of the age check of each segment file. -/
def cleanupExpiredSegments (isExpired : SegmentSeq → Bool) :
    World Id × List SegmentSeq :=
  let expired := w.store.keys.filter isExpired
  (w.dropSegments expired, expired)

end World

/-! ## The machine -/

inductive Op (Id : Type) where
  | register (id : Id)
  | activate (id : Id)
  | deactivate (id : Id)
  | segmentFinalized (bundleCount : Nat)
  | pollNextBundle (id : Id) (readOk : Bool)
  | claimBundle (id : Id) (b : BundleRef) (readOk : Bool)
  | ack (h : Handle Id)
  | reject (h : Handle Id)
  | defer (h : Handle Id)
  | dropHandle (h : Handle Id)
  | forceDropOldest (order : List Id)
  | cleanupExpired (isExpired : SegmentSeq → Bool)
  | cleanupCompleted

inductive Ret (Id : Type) where
  | unit (result : Except (SubscriberError Id) Unit)
  | polled (result : Except (SubscriberError Id) (Option BundleRef))
  | claimed (result : Except (SubscriberError Id) BundleRef)
  | resolved
  | deferred
  | noHandle
  | dropped (segments : List SegmentSeq)
  | deleted (count : Nat)

/-- One call.  Operations on a handle consume it, so they need a live one. -/
def step (w : World Id) : Op Id → World Id × Ret Id
  | .register id => (w.register id, .unit (.ok ()))
  | .activate id => ((w.activate id).1, .unit (w.activate id).2)
  | .deactivate id => ((w.deactivate id).1, .unit (w.deactivate id).2)
  | .segmentFinalized bundleCount => (w.registerNewSegment bundleCount, .unit (.ok ()))
  | .pollNextBundle id readOk =>
    ((w.pollNextBundle id readOk).1, .polled (w.pollNextBundle id readOk).2)
  | .claimBundle id b readOk =>
    ((w.claimBundle id b readOk).1, .claimed (w.claimBundle id b readOk).2)
  | .ack h => if h ∈ w.handles then (w.resolve h .acked, .resolved) else (w, .noHandle)
  | .reject h => if h ∈ w.handles then (w.resolve h .dropped, .resolved) else (w, .noHandle)
  | .defer h => if h ∈ w.handles then (w.deferHandle h, .deferred) else (w, .noHandle)
  | .dropHandle h => if h ∈ w.handles then (w.deferHandle h, .deferred) else (w, .noHandle)
  | .forceDropOldest order =>
    ((w.forceDropOldestPendingSegments order).1,
      .dropped (w.forceDropOldestPendingSegments order).2)
  | .cleanupExpired isExpired =>
    ((w.cleanupExpiredSegments isExpired).1, .dropped (w.cleanupExpiredSegments isExpired).2)
  | .cleanupCompleted => (w.cleanupCompletedSegments.1, .deleted w.cleanupCompletedSegments.2)

/-! # The registry invariant

What keeps delivery sound is a correspondence between three things that different calls
update: the claims of a subscriber and its live handles; the resolution bitmaps and the
segments still in the store; the tracked segments and the store.

`Allowed` names the calls that keep it.  It excludes a poll or claim whose read fails after
the claim was taken (nobody releases that claim), an acknowledgement for a segment the
subscriber does not track although it is in the store (the outcome is lost), and a
retention pass that drops the tracking state of a completed segment whose file stays in
the store (the segment would be added again as unread). -/

namespace World

/-- The file of a segment that was finalised earlier has been deleted. -/
def Gone (w : World Id) (seq : SegmentSeq) : Prop :=
  seq < w.nextSegmentSeq ∧ w.store.get? seq = none

/-- The bundle does not exist and never will: its segment is gone or too short. -/
def Absent (w : World Id) (b : BundleRef) : Prop :=
  b.segmentSeq < w.nextSegmentSeq ∧
    ∀ n, w.store.get? b.segmentSeq = some n → n ≤ b.bundleIndex

/-- The bundle cannot be handed out to the subscriber any more. -/
def Closed (w : World Id) (st : SubscriberState Id) (b : BundleRef) : Prop :=
  st.isResolved b = true ∨ w.Gone b.segmentSeq

/-- No completed segment below the highest of `segments` loses its tracking state while its
file stays in the store. -/
def SafeToDrop (w : World Id) (segments : List SegmentSeq) : Prop :=
  ∀ id st seq p, w.subscribers.get? id = some st → st.segments.get? seq = some p →
    p.isComplete = true → 0 < p.bundleCount → (∃ d ∈ segments, seq < d) → seq ∉ segments →
    w.store.get? seq = none

/-- The calls that keep the invariant; a condition on the state before the call. -/
def Allowed (w : World Id) : Op Id → Prop
  | .pollNextBundle id readOk => ∀ st b, w.subscribers.get? id = some st →
      st.isActive = true → st.nextPending = some b → w.readBundle readOk b = .ok ()
  | .claimBundle id b readOk => ∀ st, w.subscribers.get? id = some st →
      st.isResolved b = false → st.isClaimed b = false →
      w.readBundle readOk b = .ok () ∨ w.Absent b
  | .ack h | .reject h => h ∈ w.handles → ∀ st, w.subscribers.get? h.subscriberId = some st →
      st.segments.contains h.bundleRef.segmentSeq = true ∨
        w.store.get? h.bundleRef.segmentSeq = none
  | .forceDropOldest order => ∀ seq, w.oldestDroppable order = some seq → w.SafeToDrop [seq]
  | .cleanupExpired isExpired => w.SafeToDrop (w.store.keys.filter isExpired)
  | _ => True

/-- The invariant of one registered subscriber. -/
structure SubInv (w : World Id) (id : Id) (st : SubscriberState Id) : Prop where
  tracked_lt : ∀ seq n, st.trackedCount seq = some n → seq < w.nextSegmentSeq
  tracked_count : ∀ seq n m, st.trackedCount seq = some n → w.store.get? seq = some m → m = n
  incomplete_stored : ∀ seq n, st.trackedCount seq = some n → ¬ st.Complete seq →
    ∃ m, w.store.get? seq = some m
  claimed_held : ∀ b ∈ st.claimed, ⟨id, b⟩ ∈ w.handles ∨ w.Absent b

/-- The invariant of the registry, its store and the live handles. -/
structure Inv (w : World Id) : Prop where
  nodup : w.handles.Nodup
  store_lt : ∀ seq n, w.store.get? seq = some n → seq < w.nextSegmentSeq
  subs : ∀ id st, w.subscribers.get? id = some st → w.SubInv id st
  held : ∀ h ∈ w.handles, ∃ st, w.subscribers.get? h.subscriberId = some st ∧
    (h.bundleRef ∈ st.claimed ∨ w.Closed st h.bundleRef)
  exist : ∀ h ∈ w.handles, h.bundleRef.segmentSeq < w.nextSegmentSeq ∧
    ∀ n, w.store.get? h.bundleRef.segmentSeq = some n → h.bundleRef.bundleIndex < n

/-- The store only loses old segments. -/
structure Evolves (w w' : World Id) : Prop where
  next_le : w.nextSegmentSeq ≤ w'.nextSegmentSeq
  store_old : ∀ seq < w.nextSegmentSeq, ∀ n, w'.store.get? seq = some n →
    w.store.get? seq = some n

variable {w w' : World Id} {b : BundleRef} {id : Id} {st : SubscriberState Id} {n : Nat}

theorem Evolves.of_eq (hn : w'.nextSegmentSeq = w.nextSegmentSeq) (hs : w'.store = w.store) :
    w.Evolves w' where
  next_le := by rw [hn]
  store_old := fun _ _ _ h => by rwa [hs] at h

theorem Gone.mono {seq : SegmentSeq} (h : w.Gone seq) (he : w.Evolves w') : w'.Gone seq := by
  refine ⟨lt_of_lt_of_le h.1 he.next_le, ?_⟩
  cases hget : w'.store.get? seq with
  | none => rfl
  | some n =>
    have hold := he.store_old seq h.1 n hget
    rw [h.2] at hold
    cases hold

theorem Absent.mono (h : w.Absent b) (he : w.Evolves w') : w'.Absent b :=
  ⟨lt_of_lt_of_le h.1 he.next_le, fun n hn => h.2 n (he.store_old _ h.1 n hn)⟩

/-- A subscriber that a call does not touch keeps its invariant. -/
theorem SubInv.mono (h : w.SubInv id st) (he : w.Evolves w')
    (hstore : ∀ seq n, st.trackedCount seq = some n → ¬ st.Complete seq →
      w'.store.get? seq = w.store.get? seq)
    (hhandles : ∀ b ∈ st.claimed, ⟨id, b⟩ ∈ w.handles → ⟨id, b⟩ ∈ w'.handles) :
    w'.SubInv id st where
  tracked_lt := fun seq n hn => lt_of_lt_of_le (h.tracked_lt seq n hn) he.next_le
  tracked_count := fun seq n m hn hm =>
    h.tracked_count seq n m hn (he.store_old seq (h.tracked_lt seq n hn) m hm)
  incomplete_stored := fun seq n hn hc => by
    rw [hstore seq n hn hc]
    exact h.incomplete_stored seq n hn hc
  claimed_held := fun b hb => by
    rcases h.claimed_held b hb with hheld | habs
    · exact .inl (hhandles b hb hheld)
    · exact .inr (habs.mono he)

theorem SubInv.of_same (h : w.SubInv id st) (hn : w'.nextSegmentSeq = w.nextSegmentSeq)
    (hs : w'.store = w.store) (hh : w'.handles = w.handles) : w'.SubInv id st :=
  h.mono (.of_eq hn hs) (fun _ _ _ _ => by rw [hs]) (fun _ _ hm => by rwa [hh])

section

variable (h : w.SubInv id st) (hn : st.trackedCount b.segmentSeq = some n) (hi : b.bundleIndex < n)
  (hres : st.isResolved b = false)
include h hn hi hres

/-- An unresolved bundle of a tracked segment can be read from the store. -/
theorem SubInv.stored : w.store.get? b.segmentSeq = some n := by
  have hinc : ¬ st.Complete b.segmentSeq := by
    intro hc
    have := hc n hn b.bundleIndex hi
    rw [hres] at this
    cases this
  obtain ⟨m, hm⟩ := h.incomplete_stored _ n hn hinc
  rw [hm, h.tracked_count _ n m hn hm]

theorem SubInv.not_gone : ¬ w.Closed st b := by
  rintro (hr | ⟨-, hnone⟩)
  · rw [hres] at hr
    cases hr
  · rw [h.stored hn hi hres] at hnone
    cases hnone

end

theorem readBundle_ok (h : w.store.get? b.segmentSeq = some n) (hi : b.bundleIndex < n) :
    w.readBundle true b = .ok () := by
  unfold readBundle
  simp [h, not_le.mpr hi]

theorem of_readBundle_ok {readOk : Bool} (h : w.readBundle readOk b = .ok ()) :
    ∃ n, w.store.get? b.segmentSeq = some n ∧ b.bundleIndex < n := by
  unfold readBundle at h
  cases hget : w.store.get? b.segmentSeq with
  | none => simp [hget] at h
  | some n =>
    rw [hget] at h
    refine ⟨n, rfl, ?_⟩
    by_contra hge
    simp [not_lt.mp hge] at h

theorem init_inv : (init : World Id).Inv where
  nodup := List.nodup_nil
  store_lt := fun _ _ h => by cases h
  subs := fun _ _ h => by cases h
  held := fun _ h => by cases h
  exist := fun _ h => by cases h

/-! ## What one call preserves -/

/-- The call leads to a state of the invariant and closed bundles stay closed. -/
structure Preserves (w w' : World Id) : Prop where
  inv : w'.Inv
  evolves : w.Evolves w'
  closed : ∀ id st b, w.subscribers.get? id = some st → w.Closed st b →
    ∃ st', w'.subscribers.get? id = some st' ∧ w'.Closed st' b

theorem Preserves.refl (h : w.Inv) : w.Preserves w :=
  ⟨h, .of_eq rfl rfl, fun _ st _ hst hc => ⟨st, hst, hc⟩⟩

/-- A call that changes the subscribers one by one and leaves the handles alone. -/
theorem Preserves.of_map (h : w.Inv) (g : Id → SubscriberState Id → SubscriberState Id)
    (hsubs : ∀ id, w'.subscribers.get? id = (w.subscribers.get? id).map (g id))
    (hhandles : w'.handles = w.handles) (he : w.Evolves w')
    (hstore : ∀ seq n, w'.store.get? seq = some n → seq < w'.nextSegmentSeq)
    (hsub : ∀ id st, w.subscribers.get? id = some st → w.SubInv id st → w'.SubInv id (g id st))
    (hclaim : ∀ id st, w.subscribers.get? id = some st → ∀ b ∈ st.claimed,
      b.segmentSeq < w.nextSegmentSeq → b ∈ (g id st).claimed ∨ w'.Closed (g id st) b)
    (hclosed : ∀ id st, w.subscribers.get? id = some st → w.SubInv id st →
      ∀ b, st.isResolved b = true → w'.Closed (g id st) b) : w.Preserves w' := by
  have hkeep : ∀ id st b, w.subscribers.get? id = some st → w.Closed st b →
      w'.Closed (g id st) b := by
    intro id st b hst hc
    rcases hc with hres | hgone
    · exact hclosed id st hst (h.subs id st hst) b hres
    · exact .inr (hgone.mono he)
  refine ⟨⟨?_, hstore, ?_, ?_, ?_⟩, he, ?_⟩
  · rw [hhandles]
    exact h.nodup
  · intro id st' hst'
    rw [hsubs] at hst'
    obtain ⟨st, hst, rfl⟩ := Option.map_eq_some_iff.mp hst'
    exact hsub id st hst (h.subs id st hst)
  · intro hd hmem
    rw [hhandles] at hmem
    obtain ⟨st, hst, hcase⟩ := h.held hd hmem
    refine ⟨g hd.subscriberId st, by rw [hsubs, hst]; rfl, ?_⟩
    rcases hcase with hcl | hc
    · exact hclaim _ st hst _ hcl (h.exist hd hmem).1
    · exact .inr (hkeep _ st _ hst hc)
  · intro hd hmem
    rw [hhandles] at hmem
    obtain ⟨hlt, hex⟩ := h.exist hd hmem
    exact ⟨lt_of_lt_of_le hlt he.next_le, fun n hn => hex n (he.store_old _ hlt n hn)⟩
  · intro id st b hst hc
    exact ⟨g id st, by rw [hsubs, hst]; rfl, hkeep id st b hst hc⟩

@[simp] theorem get?_update (w : World Id) (id id' : Id)
    (f : SubscriberState Id → SubscriberState Id) :
    (w.update id f).subscribers.get? id' =
      (w.subscribers.get? id').map (fun st => if id' = id then f st else st) := by
  unfold update
  by_cases h : id' = id <;> simp [h]

@[simp] theorem get?_updateAll (w : World Id) (id : Id)
    (f : SubscriberState Id → SubscriberState Id) :
    (w.updateAll f).subscribers.get? id = (w.subscribers.get? id).map f :=
  OrdMap.get?_mapVal _ _ _

/-! ## Lifecycle calls -/

omit [LinearOrder Id] in
theorem addAvailable_spec (store : List (SegmentSeq × Nat)) (st : SubscriberState Id) :
    (addAvailable store st).claimed = st.claimed ∧
      (∀ b, (addAvailable store st).isResolved b = st.isResolved b) ∧
      (∀ seq n, st.trackedCount seq = some n →
        (addAvailable store st).trackedCount seq = some n) ∧
      (∀ seq n, (addAvailable store st).trackedCount seq = some n →
        st.trackedCount seq = some n ∨ (seq, n) ∈ store) := by
  unfold addAvailable
  induction store generalizing st with
  | nil => exact ⟨rfl, fun _ => rfl, fun _ _ h => h, fun _ _ h => .inl h⟩
  | cons e store ih =>
    obtain ⟨hcl, hres, hold, hnew⟩ := ih (st.addSegment e.1 e.2)
    rw [List.foldl_cons]
    refine ⟨hcl, fun b => ?_, fun seq n hn => ?_, fun seq n hn => ?_⟩
    · rw [hres, SubscriberState.addSegment_isResolved]
    · apply hold
      rw [SubscriberState.addSegment_trackedCount]
      split_ifs with heq
      · rw [← heq, hn]
        rfl
      · exact hn
    · rcases hnew seq n hn with hadd | hmem
      · rw [SubscriberState.addSegment_trackedCount] at hadd
        split_ifs at hadd with heq
        · subst heq
          cases htr : st.trackedCount e.1 with
          | some m =>
            rw [htr] at hadd
            exact .inl hadd
          | none =>
            rw [htr] at hadd
            cases hadd
            exact .inr (List.mem_cons_self)
        · exact .inl hadd
      · exact .inr (List.mem_cons_of_mem _ hmem)

/-- Tracking more segments of the store, all unresolved, keeps a subscriber's invariant. -/
theorem SubInv.of_more_tracked {st' : SubscriberState Id} (h : w.SubInv id st) (he : w.Evolves w')
    (hkeep : ∀ seq < w.nextSegmentSeq,
      w'.store.get? seq = w.store.get? seq) (hhandles : w'.handles = w.handles)
    (hcl : st'.claimed = st.claimed) (hres : ∀ b, st'.isResolved b = st.isResolved b)
    (hstore : ∀ seq n, w'.store.get? seq = some n → seq < w'.nextSegmentSeq)
    (hnew : ∀ seq n, st'.trackedCount seq = some n →
      st.trackedCount seq = some n ∨ w'.store.get? seq = some n) : w'.SubInv id st' where
  tracked_lt := fun seq n hn => by
    rcases hnew seq n hn with hold | hst
    · exact lt_of_lt_of_le (h.tracked_lt seq n hold) he.next_le
    · exact hstore seq n hst
  tracked_count := fun seq n m hn hm => by
    rcases hnew seq n hn with hold | hst
    · exact h.tracked_count seq n m hold (he.store_old seq (h.tracked_lt seq n hold) m hm)
    · rw [hst] at hm
      exact (Option.some.inj hm).symm
  incomplete_stored := fun seq n hn hc => by
    rcases hnew seq n hn with hold | hst
    · rw [hkeep seq (h.tracked_lt seq n hold)]
      apply h.incomplete_stored seq n hold
      intro hcomp
      apply hc
      intro k hk i hi
      rw [hn] at hk
      cases hk
      rw [hres]
      exact hcomp n hold i hi
    · exact ⟨n, hst⟩
  claimed_held := fun b hb => by
    rw [hcl] at hb
    rw [hhandles]
    exact (h.claimed_held b hb).imp_right fun habs => habs.mono he

theorem activate_preserves (h : w.Inv) (id : Id) : w.Preserves (w.activate id).1 := by
  unfold activate
  split
  · exact .refl h
  · split
    · exact .refl h
    · have hspec : ∀ st : SubscriberState Id, _ := addAvailable_spec w.store.entries
      refine .of_map h _ (fun id' => get?_update w id id' _) rfl (.of_eq rfl rfl)
        h.store_lt ?_ ?_ ?_
      · intro id' st _ hinv
        split
        · refine hinv.of_more_tracked (.of_eq rfl rfl) (fun _ _ => rfl) rfl (hspec st).1
            (hspec st).2.1 h.store_lt fun seq n hn => ?_
          exact ((hspec st).2.2.2 seq n hn).imp_right OrdMap.get?_eq_some.mpr
        · exact hinv.of_same rfl rfl rfl
      · intro id' st _ b hb _
        split
        · exact .inl (by rw [← (hspec st).1] at hb; exact hb)
        · exact .inl hb
      · intro id' st _ _ b hb
        split
        · exact .inl (((hspec st).2.1 b).trans hb)
        · exact .inl hb

theorem deactivate_preserves (h : w.Inv) (id : Id) : w.Preserves (w.deactivate id).1 := by
  unfold deactivate
  split
  · exact .refl h
  · refine .of_map h _ (fun id' => get?_update w id id' _) rfl (.of_eq rfl rfl) h.store_lt ?_ ?_ ?_
    · intro id' st _ hinv
      split
      · exact { hinv with }
      · exact hinv.of_same rfl rfl rfl
    · intro id' st _ b hb _
      split <;> exact .inl hb
    · intro id' st _ _ b hb
      split <;> exact .inl hb

theorem register_preserves (h : w.Inv) (id : Id) : w.Preserves (w.register id) := by
  unfold register
  split
  · exact .refl h
  · rename_i hnew
    have hother : ∀ id' st, w.subscribers.get? id' = some st → id' ≠ id := by
      rintro id' st hst rfl
      exact hnew (OrdMap.contains_iff.mpr ⟨st, hst⟩)
    have hget : ∀ id' st, w.subscribers.get? id' = some st →
        (w.subscribers.insert id (.new id)).get? id' = some st := by
      intro id' st hst
      rw [OrdMap.get?_insert, if_neg (hother id' st hst)]
      exact hst
    refine ⟨⟨h.nodup, h.store_lt, ?_, ?_, h.exist⟩, .of_eq rfl rfl, ?_⟩
    · intro id' st hst
      rw [OrdMap.get?_insert] at hst
      split at hst
      · cases hst
        refine ⟨?_, ?_, ?_, ?_⟩
        · rintro _ _ ⟨⟩
        · rintro _ _ _ ⟨⟩
        · rintro _ _ ⟨⟩
        · rintro b hb
          simp [SubscriberState.new] at hb
      · exact (h.subs id' st hst).of_same rfl rfl rfl
    · intro hd hmem
      obtain ⟨st, hst, hcase⟩ := h.held hd hmem
      exact ⟨st, hget _ st hst, hcase⟩
    · exact fun id' st b hst hc => ⟨st, hget id' st hst, hc⟩

end World

end OtapDataflow.Subscriber
