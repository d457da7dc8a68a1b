import OtapDataflow.Subscriber.Invariant

/-! # Every allowed call preserves the registry invariant

One lemma per call, assembled in `step_preserves`. -/

namespace OtapDataflow.Subscriber

open List SubscriberState OrdMap Option Nat

variable {Id : Type} [LinearOrder Id] {w : World Id} {st : SubscriberState Id} {id : Id}
  {segments : List SegmentSeq}

namespace World

/-! ## New segments -/

theorem registerNewSegment_preserves (h : w.Inv) (bundleCount : Nat) :
    w.Preserves (w.registerNewSegment bundleCount) := by
  have hold : ∀ seq < w.nextSegmentSeq,
      (w.store.insert w.nextSegmentSeq bundleCount).get? seq = w.store.get? seq := by
    intro seq hlt
    rw [get?_insert, if_neg (Nat.ne_of_lt hlt)]
  have he : w.Evolves (w.registerNewSegment bundleCount) :=
    ⟨le_succ _, fun seq hlt n hn => (hold seq hlt).symm.trans hn⟩
  have hstore : ∀ seq n, (w.store.insert w.nextSegmentSeq bundleCount).get? seq = some n →
      seq < w.nextSegmentSeq + 1 := by
    intro seq n hn
    rw [get?_insert] at hn
    split_ifs at hn with heq
    · exact lt_succ_of_le (le_of_eq heq)
    · exact lt_succ_of_lt (h.store_lt seq n hn)
  refine .of_map h (fun _ st => if st.isActive then
    st.addSegment w.nextSegmentSeq bundleCount else st) (fun id => ?_) rfl he hstore ?_ ?_ ?_
  · exact get?_updateAll _ _ _
  · intro id st _ hinv
    refine hinv.of_more_tracked he hold rfl ?_ ?_ hstore ?_
    · split <;> rfl
    · intro b
      split
      · exact addSegment_isResolved _ _ b
      · rfl
    · intro seq n hn
      split at hn
      · rw [addSegment_trackedCount] at hn
        split_ifs at hn with heq
        · -- the sequence number is fresh, so the segment was not tracked
          have hfresh : st.trackedCount w.nextSegmentSeq = none := by
            cases htr : st.trackedCount w.nextSegmentSeq with
            | none => rfl
            | some m => exact absurd (hinv.tracked_lt _ m htr) (lt_irrefl _)
          rw [hfresh] at hn
          right
          show (w.store.insert w.nextSegmentSeq bundleCount).get? seq = some n
          rwa [get?_insert, if_pos heq]
        · exact .inl hn
      · exact .inl hn
  · intro id st _ b hb _
    split <;> exact .inl hb
  · intro id st _ _ b hb
    split
    · exact .inl ((addSegment_isResolved _ _ b).trans hb)
    · exact .inl hb

/-! ## Delivery -/

/-- The claim that `poll_next_bundle` and `claim_bundle` take before they read. -/
def grab (w : World Id) (id : Id) (b : BundleRef) : World Id :=
    w.update id (fun st => (st.claim b).1)

variable {n : Nat} {w' : World Id} {readOk : Bool} {seq : SegmentSeq}

section

variable {b : BundleRef}

/-- Taking a claim on a bundle that is not resolved changes the claimed set only. -/
theorem get?_grab (hst : w.subscribers.get? id = some st) (hres : st.isResolved b = false)
    (id' : Id) : (w.grab id b).subscribers.get? id' = (w.subscribers.get? id').map
      (fun st' => if id' = id then { st' with claimed := insert b st'.claimed } else st') := by
  rw [grab, get?_update]
  by_cases h : id' = id
  · subst h
    simp [hst, claim, hres]
  · simp [h]

/-- The invariant of a subscriber while it holds `b`. -/
theorem SubInv.grab {id' : Id} {st' : SubscriberState Id} (h : w.SubInv id' st') (he : w.Evolves w')
    (hstore : w'.store = w.store) (hhandles : ∀ hd ∈ w.handles, hd ∈ w'.handles)
    (hb : ⟨id, b⟩ ∈ w'.handles ∨ w'.Absent b) :
    w'.SubInv id' (if id' = id then { st' with claimed := insert b st'.claimed } else st') := by
  have hsame : w'.SubInv id' st' :=
    h.mono he (fun _ _ _ _ => by rw [hstore]) (fun _ _ hm => hhandles _ hm)
  split_ifs with heq
  · refine { hsame with claimed_held := ?_ }
    intro b' hb'
    rcases Finset.mem_insert.mp hb' with rfl | hb'
    · rwa [heq]
    · exact hsame.claimed_held b' hb'
  · exact hsame

section

variable (h : w.Inv) (hst : w.subscribers.get? id = some st) (hres : st.isResolved b = false)
include h hst hres

/-- A claim that no handle answers for is harmless when the bundle does not exist. -/
theorem grab_preserves (habs : w.Absent b) : w.Preserves (w.grab id b) := by
  refine .of_map h _ (get?_grab hst hres) rfl (.of_eq rfl rfl) h.store_lt ?_ ?_ ?_
  · exact fun id' st' _ hinv => hinv.grab (.of_eq rfl rfl) rfl (fun _ hm => hm) (.inr habs)
  · intro id' st' _ b' hb' _
    left
    split
    · exact Finset.mem_insert_of_mem hb'
    · exact hb'
  · intro id' st' _ _ b' hb'
    left
    split <;> exact hb'

/-- A claim with its handle. -/
theorem hold_preserves (hfresh : (⟨id, b⟩ : Handle Id) ∉ w.handles)
    (hn : w.store.get? b.segmentSeq = some n) (hi : b.bundleIndex < n) :
    w.Preserves { w.grab id b with handles := ⟨id, b⟩ :: w.handles } := by
  have hget : ∀ id' st', w.subscribers.get? id' = some st' → (w.grab id b).subscribers.get? id' =
      some (if id' = id then { st' with claimed := insert b st'.claimed } else st') := by
    intro id' st' hst'
    rw [get?_grab hst hres, hst']
    rfl
  have hclosed : ∀ (id' : Id) (st' : SubscriberState Id) b', w.Closed st' b' →
      w.Closed (if id' = id then { st' with claimed := insert b st'.claimed } else st') b' := by
    intro id' st' b' hc
    split <;> exact hc
  refine ⟨⟨nodup_cons.mpr ⟨hfresh, h.nodup⟩, h.store_lt, ?_, ?_, ?_⟩, .of_eq rfl rfl, ?_⟩
  · intro id' st' hst'
    rw [get?_grab hst hres] at hst'
    obtain ⟨st₀, hst₀, rfl⟩ := map_eq_some_iff.mp hst'
    exact (h.subs id' st₀ hst₀).grab (.of_eq rfl rfl) rfl
      (fun _ hm => mem_cons_of_mem _ hm) (.inl mem_cons_self)
  · intro hd hmem
    rcases mem_cons.mp hmem with rfl | hmem
    · refine ⟨_, hget id st hst, .inl ?_⟩
      rw [if_pos rfl]
      exact Finset.mem_insert_self _ _
    · obtain ⟨st', hst', hcase⟩ := h.held hd hmem
      refine ⟨_, hget _ st' hst', hcase.imp ?_ (hclosed _ st' _)⟩
      intro hcl
      split
      · exact Finset.mem_insert_of_mem hcl
      · exact hcl
  · intro hd hmem
    rcases mem_cons.mp hmem with rfl | hmem
    · refine ⟨h.store_lt _ n hn, fun m hm => ?_⟩
      rw [show w.store.get? b.segmentSeq = some m from hm] at hn
      cases hn
      exact hi
    · exact h.exist hd hmem
  · exact fun id' st' b' hst' hc => ⟨_, hget id' st' hst', hclosed id' st' b' hc⟩

/-- A claim followed by a successful read, or by the failed read of a bundle that does not
exist. -/
theorem deliver_preserves (hclaim : b ∉ st.claimed)
    (hread : w.readBundle readOk b = .ok () ∨ w.Absent b) :
    w.Preserves ((w.grab id b).deliver id b readOk).1 := by
  have hsame : (w.grab id b).readBundle readOk b = w.readBundle readOk b := rfl
  unfold deliver
  rw [hsame]
  cases hr : w.readBundle readOk b with
  | ok u =>
    obtain ⟨n, hn, hi⟩ := of_readBundle_ok hr
    refine hold_preserves h hst hres ?_ hn hi
    intro hmem
    obtain ⟨st', hst', hcase⟩ := h.held _ hmem
    rw [show w.subscribers.get? id = some st' from hst'] at hst
    cases hst
    rcases hcase with hcl | hr' | ⟨-, hnone⟩
    · exact hclaim hcl
    · rw [hres] at hr'
      cases hr'
    · rw [hn] at hnone
      cases hnone
  | error e =>
    rcases hread with hok | habs
    · rw [hr] at hok
      cases hok
    · exact grab_preserves h hst hres habs

end

end

theorem pollNextBundle_preserves (h : w.Inv)
    (hok : w.Allowed (.pollNextBundle id readOk)) : w.Preserves (w.pollNextBundle id readOk).1 := by
  unfold pollNextBundle
  split
  · exact .refl h
  · rename_i st hst
    split_ifs with hactive
    · exact .refl h
    · split
      · exact .refl h
      · rename_i b hnext
        have hmem : b ∈ st.pending := by
          rw [nextPending_eq] at hnext
          exact mem_of_mem_head? hnext
        obtain ⟨n, hn, hi, hres, hclaim⟩ := mem_pending.mp hmem
        exact deliver_preserves h hst hres hclaim
          (.inl (hok st b hst (by simpa using hactive) hnext))

theorem claimBundle_preserves (h : w.Inv) {b : BundleRef}
    (hok : w.Allowed (.claimBundle id b readOk)) : w.Preserves (w.claimBundle id b readOk).1 := by
  unfold claimBundle
  split
  · exact .refl h
  · rename_i st hst
    split
    · exact .refl h
    · rename_i hres
      split
      · exact .refl h
      · rename_i hclaim
        split
        · exact .refl h
        · have hres' : st.isResolved b = false := by simpa using hres
          have hclaim' : st.isClaimed b = false := by simpa using hclaim
          exact deliver_preserves h hst hres' (by simpa [isClaimed] using hclaim')
            (hok st hst hres' hclaim')

/-! ## Giving a handle back -/

section

variable {hd : Handle Id}

/-- A handle goes away together with its claim; resolutions may be added. -/
theorem handback_preserves (h : w.Inv) (f : SubscriberState Id → SubscriberState Id)
    (hsubs : w'.subscribers = (w.update hd.subscriberId f).subscribers)
    (hstore : w'.store = w.store) (hnext : w'.nextSegmentSeq = w.nextSegmentSeq)
    (hhandles : w'.handles = w.handles.erase hd)
    (hclaim : ∀ st, (f st).claimed = st.claimed.erase hd.bundleRef)
    (htracked : ∀ st seq, (f st).trackedCount seq = st.trackedCount seq)
    (hres : ∀ st b, st.isResolved b = true → (f st).isResolved b = true) : w.Preserves w' := by
  have he : w.Evolves w' := .of_eq hnext hstore
  have hget : ∀ id, w'.subscribers.get? id = (w.subscribers.get? id).map
      (fun st => if id = hd.subscriberId then f st else st) := by
    intro id
    rw [hsubs, get?_update]
  have hgone : ∀ seq, w.Gone seq → w'.Gone seq := fun seq hg => hg.mono he
  have hclosed : ∀ id st b, w.Closed st b →
      w'.Closed (if id = hd.subscriberId then f st else st) b := by
    rintro id st b (hr | hg)
    · left
      split
      · exact hres st b hr
      · exact hr
    · exact .inr (hgone _ hg)
  have hkept : ∀ hd' ∈ w.handles, hd' ≠ hd → hd' ∈ w'.handles := by
    intro hd' hmem hne
    rw [hhandles]
    exact (mem_erase_of_ne hne).mpr hmem
  have hbefore : ∀ hd' ∈ w'.handles, hd' ∈ w.handles ∧ hd' ≠ hd := by
    intro hd' hmem
    rw [hhandles, h.nodup.mem_erase_iff] at hmem
    exact ⟨hmem.2, hmem.1⟩
  refine ⟨⟨?_, ?_, ?_, ?_, ?_⟩, he, ?_⟩
  · rw [hhandles]
    exact h.nodup.erase hd
  · rw [hstore, hnext]
    exact h.store_lt
  · intro id st' hst'
    rw [hget] at hst'
    obtain ⟨st, hst, rfl⟩ := map_eq_some_iff.mp hst'
    have hinv := h.subs id st hst
    split_ifs with hne
    · refine ⟨?_, ?_, ?_, ?_⟩
      · intro seq n hn
        rw [htracked] at hn
        rw [hnext]
        exact hinv.tracked_lt seq n hn
      · intro seq n m hn hm
        rw [htracked] at hn
        rw [hstore] at hm
        exact hinv.tracked_count seq n m hn hm
      · intro seq n hn hc
        rw [htracked] at hn
        rw [hstore]
        apply hinv.incomplete_stored seq n hn
        intro hcomp
        apply hc
        intro k hk i hi
        rw [htracked] at hk
        exact hres st _ (hcomp k hk i hi)
      · intro b hb
        rw [hclaim, Finset.mem_erase] at hb
        rcases hinv.claimed_held b hb.2 with hheld | habs
        · refine .inl (hkept _ hheld ?_)
          rintro rfl
          exact hb.1 rfl
        · exact .inr (habs.mono he)
    · refine hinv.mono he (fun _ _ _ _ => by rw [hstore]) (fun b _ hm => hkept _ hm ?_)
      rintro rfl
      exact hne rfl
  · intro hd' hmem
    obtain ⟨hmem, hne⟩ := hbefore hd' hmem
    obtain ⟨st, hst, hcase⟩ := h.held hd' hmem
    refine ⟨_, by rw [hget, hst]; rfl, hcase.imp ?_ (hclosed _ st _)⟩
    intro hcl
    split
    · rw [hclaim, Finset.mem_erase]
      cases hd'
      cases hd
      simp_all
    · exact hcl
  · intro hd' hmem
    rw [hnext, hstore]
    exact h.exist hd' (hbefore hd' hmem).1
  · intro id st b hst hc
    exact ⟨_, by rw [hget, hst]; rfl, hclosed id st b hc⟩

theorem resolve_preserves (h : w.Inv) (outcome : AckOutcome) : w.Preserves (w.resolve hd outcome) :=
  handback_preserves h (fun st => (st.recordOutcome hd.bundleRef outcome).1) rfl rfl rfl rfl
    (fun _ => recordOutcome_claimed _ _)
    (fun _ _ => recordOutcome_trackedCount _ _ _)
    (fun _ _ hr => by rw [recordOutcome_isResolved, hr, Bool.true_or])

theorem deferHandle_preserves (h : w.Inv) : w.Preserves (w.deferHandle hd) :=
  handback_preserves h (·.release hd.bundleRef) rfl rfl rfl rfl (fun _ => rfl) (fun _ _ => rfl)
    (fun _ _ hr => hr)

/-- After an outcome was recorded the bundle is closed: it is resolved, or its file has
been deleted. -/
theorem resolve_closes (h : w.Inv) (outcome : AckOutcome) (hmem : hd ∈ w.handles)
    (hok : ∀ st, w.subscribers.get? hd.subscriberId = some st →
      st.segments.contains hd.bundleRef.segmentSeq = true ∨
        w.store.get? hd.bundleRef.segmentSeq = none) :
    ∃ st', (w.resolve hd outcome).subscribers.get? hd.subscriberId = some st' ∧
      (w.resolve hd outcome).Closed st' hd.bundleRef := by
  obtain ⟨st, hst, -⟩ := h.held hd hmem
  obtain ⟨hlt, hex⟩ := h.exist hd hmem
  refine ⟨(st.recordOutcome hd.bundleRef outcome).1, ?_, ?_⟩
  · show (w.update _ _).subscribers.get? _ = _
    rw [get?_update, hst]
    simp
  · cases hget : w.store.get? hd.bundleRef.segmentSeq with
    | none => exact .inr ⟨hlt, hget⟩
    | some m =>
      have hcont := (hok st hst).resolve_right (by simp [hget])
      obtain ⟨p, hp⟩ := contains_iff.mp hcont
      have hn : st.trackedCount hd.bundleRef.segmentSeq = some p.bundleCount := by
        simp [trackedCount, hp]
      have heq := (h.subs _ st hst).tracked_count _ _ m hn hget
      refine .inl ?_
      rw [recordOutcome_isResolved, hn]
      simpa using .inr (heq ▸ hex m hget)

end

/-! ## Retention -/

omit [LinearOrder Id] in
theorem forceCompleteState_spec (segments : List SegmentSeq) (st : SubscriberState Id) :
    (∀ seq, (forceCompleteState segments st).trackedCount seq = st.trackedCount seq) ∧
      (∀ b, st.isResolved b = true → (forceCompleteState segments st).isResolved b = true) ∧
      (∀ seq ∈ segments, (forceCompleteState segments st).Complete seq) ∧
      (∀ seq ∉ segments,
        (forceCompleteState segments st).segments.get? seq = st.segments.get? seq) ∧
      (∀ b, b ∈ (forceCompleteState segments st).claimed ↔
        b ∈ st.claimed ∧ b.segmentSeq ∉ segments) := by
  unfold forceCompleteState
  induction segments generalizing st with
  | nil => simp
  | cons seq segments ih =>
    obtain ⟨htr, hres, hcomp, hget, hcl⟩ := ih (st.forceCompleteSegment seq).1
    rw [foldl_cons]
    refine ⟨fun seq' => ?_, fun b hb => ?_, fun seq' hmem => ?_, fun seq' hnot => ?_, fun b => ?_⟩
    · rw [htr, forceComplete_trackedCount]
    · exact hres b (forceComplete_isResolved_mono hb)
    · rcases mem_cons.mp hmem with rfl | hmem
      · intro n hn i hi
        rw [htr] at hn
        exact hres _ (forceComplete_complete seq' n hn i hi)
      · exact hcomp seq' hmem
    · rw [mem_cons, not_or] at hnot
      rw [hget seq' hnot.2, forceComplete_get?, if_neg hnot.1]
    · rw [hcl, mem_forceComplete_claimed, mem_cons, not_or]
      tauto

theorem get?_store_deleteSegments (w : World Id) (segments : List SegmentSeq) (seq : SegmentSeq) :
    (segments.foldl deleteSegment w).store.get? seq =
      if seq ∈ segments then none else w.store.get? seq := by
  induction segments generalizing w with
  | nil => simp
  | cons d segments ih =>
    rw [foldl_cons, ih]
    by_cases hmem : seq ∈ segments
    · simp [hmem]
    · by_cases heq : seq = d <;> simp [hmem, heq, deleteSegment]

theorem deleteSegments_frame (w : World Id) (segments : List SegmentSeq) :
    (segments.foldl deleteSegment w).subscribers = w.subscribers ∧
      (segments.foldl deleteSegment w).nextSegmentSeq = w.nextSegmentSeq ∧
      (segments.foldl deleteSegment w).handles = w.handles := by
  induction segments generalizing w with
  | nil => exact ⟨rfl, rfl, rfl⟩
  | cons d segments ih => exact ih (w.deleteSegment d)

omit [LinearOrder Id] in
/-- A subscriber that loses completed segments below a boundary, all of them deleted. -/
theorem removeCompleted_trackedCount {before : SegmentSeq}
    (h : (st.removeCompletedSegmentsBefore before).trackedCount seq = some n) :
    st.trackedCount seq = some n ∧
      (st.removeCompletedSegmentsBefore before).segments.get? seq = st.segments.get? seq := by
  by_cases hkeep : before ≤ seq ∨ ¬ st.Complete seq
  · have hget := removeCompleted_keeps hkeep
    unfold trackedCount at h ⊢
    rw [hget] at h
    exact ⟨h, hget⟩
  · rw [not_or, not_not] at hkeep
    have hnone := removeCompleted_drops (not_le.mp hkeep.1) hkeep.2
    rw [trackedCount, hnone] at h
    cases h

/-- A retention pass: every subscriber's state is force-completed on `segments` and then
loses its completed segments below `before`; the files of `segments` and of what is
deleted besides are gone. -/
theorem retention_preserves (h : w.Inv) (segments : List SegmentSeq)
    (before : SegmentSeq) (hsubs : ∀ id, w'.subscribers.get? id = (w.subscribers.get? id).map
      (fun st => (forceCompleteState segments st).removeCompletedSegmentsBefore before))
    (hhandles : w'.handles = w.handles) (hnext : w'.nextSegmentSeq = w.nextSegmentSeq)
    (hstore : ∀ seq n, w'.store.get? seq = some n → w.store.get? seq = some n)
    (hdeleted : ∀ seq ∈ segments, w'.store.get? seq = none)
    (hkept : ∀ id st seq n, w.subscribers.get? id = some st → st.trackedCount seq = some n →
      ¬ st.Complete seq → seq ∉ segments → w'.store.get? seq = w.store.get? seq)
    (hsafe : ∀ id st seq p, w.subscribers.get? id = some st → st.segments.get? seq = some p →
      p.isComplete = true → 0 < p.bundleCount → seq < before → seq ∉ segments →
      w'.store.get? seq = none) : w.Preserves w' := by
  have he : w.Evolves w' := ⟨by rw [hnext], fun seq _ n hn => hstore seq n hn⟩
  refine .of_map h _ hsubs hhandles he ?_ ?_ ?_ ?_
  · intro seq n hn
    rw [hnext]
    exact h.store_lt seq n (hstore seq n hn)
  · intro id st hst hinv
    obtain ⟨htr, hres, hcomp, -, hcl⟩ := forceCompleteState_spec segments st
    refine ⟨?_, ?_, ?_, ?_⟩
    · intro seq n hn
      have hold := (removeCompleted_trackedCount hn).1
      rw [htr] at hold
      rw [hnext]
      exact hinv.tracked_lt seq n hold
    · intro seq n m hn hm
      have hold := (removeCompleted_trackedCount hn).1
      rw [htr] at hold
      exact hinv.tracked_count seq n m hold (hstore seq m hm)
    · intro seq n hn hc
      obtain ⟨hold, hget⟩ := removeCompleted_trackedCount hn
      -- what is still incomplete was incomplete before and is not one of `segments`
      have hinc : ¬ (forceCompleteState segments st).Complete seq := by
        intro hcomp'
        apply hc
        intro k hk i hi
        obtain ⟨p, hp, -⟩ := map_eq_some_iff.mp hold
        rw [isResolved_of_get (hget.trans hp), ← isResolved_of_get hp]
        exact hcomp' k (removeCompleted_trackedCount hk).1 i hi
      have hnot : seq ∉ segments := fun hmem => hinc (hcomp seq hmem)
      rw [htr] at hold
      have hinc₀ : ¬ st.Complete seq := by
        intro hc₀
        apply hinc
        intro k hk i hi
        rw [htr] at hk
        exact hres _ (hc₀ k hk i hi)
      rw [hkept id st seq n hst hold hinc₀ hnot]
      exact hinv.incomplete_stored seq n hold hinc₀
    · intro b hb
      have hold : b ∈ st.claimed := ((hcl b).mp hb).1
      rw [hhandles]
      exact (hinv.claimed_held b hold).imp_right fun habs => habs.mono he
  · intro id st hst b hb hlt
    obtain ⟨-, -, -, -, hcl⟩ := forceCompleteState_spec segments st
    by_cases hmem : b.segmentSeq ∈ segments
    · exact .inr (.inr ⟨by rw [hnext]; exact hlt, hdeleted _ hmem⟩)
    · exact .inl ((hcl b).mpr ⟨hb, hmem⟩)
  · intro id st hst hinv b hb
    obtain ⟨-, hres, -, hget, -⟩ := forceCompleteState_spec segments st
    obtain ⟨n, hn, hi⟩ := tracked_of_isResolved hb
    have hlt : b.segmentSeq < w'.nextSegmentSeq := by
      rw [hnext]
      exact hinv.tracked_lt _ n hn
    by_cases hmem : b.segmentSeq ∈ segments
    · exact .inr ⟨hlt, hdeleted _ hmem⟩
    · by_cases hkeep : before ≤ b.segmentSeq ∨
          ¬ (forceCompleteState segments st).Complete b.segmentSeq
      · left
        have hsame := removeCompleted_keeps hkeep
        rw [isResolved_iff, hsame, ← isResolved_iff]
        exact hres b hb
      · -- the segment loses its tracking state, so its file must be gone
        rw [not_or, not_not] at hkeep
        obtain ⟨p, hp, hpn⟩ := map_eq_some_iff.mp hn
        have hp' := (hget _ hmem).trans hp
        have hcomp : p.isComplete = true :=
          (isComplete_iff_complete hp').mpr hkeep.2
        exact .inr ⟨hlt, hsafe id st _ p hst hp hcomp (hpn ▸ zero_lt_of_lt hi)
          (not_le.mp hkeep.1) hmem⟩

theorem dropSegments_preserves (h : w.Inv)
    (hsafe : w.SafeToDrop segments) : w.Preserves (w.dropSegments segments) := by
  unfold dropSegments
  split
  · exact .refl h
  · rename_i highest hmax
    have hframe := deleteSegments_frame (w.forceCompleteSegments segments) segments
    have hget : ∀ seq, ((segments.foldl deleteSegment (w.forceCompleteSegments segments)
        ).cleanupSegmentsBefore (highest + 1)).store.get? seq =
          if seq ∈ segments then none else w.store.get? seq :=
      get?_store_deleteSegments (w.forceCompleteSegments segments) segments
    refine retention_preserves h segments (highest + 1) ?_ hframe.2.2 hframe.2.1 ?_ ?_ ?_ ?_
    · intro id
      unfold cleanupSegmentsBefore
      rw [get?_updateAll, hframe.1]
      show ((w.updateAll (forceCompleteState segments)).subscribers.get? id).map _ = _
      rw [get?_updateAll, Option.map_map]
      rfl
    · intro seq n hn
      rw [hget] at hn
      split at hn
      · cases hn
      · exact hn
    · intro seq hmem
      rw [hget, if_pos hmem]
    · intro id st seq n _ _ _ hnot
      rw [hget, if_neg hnot]
    · intro id st seq p hst hp hc hpos hlt hnot
      rw [hget, if_neg hnot]
      have hmem : highest ∈ segments := max?_mem hmax
      have hne : seq ≠ highest := fun he => hnot (he ▸ hmem)
      exact hsafe id st seq p hst hp hc hpos
        ⟨highest, hmem, lt_of_le_of_ne (le_of_lt_succ hlt) hne⟩ hnot

/-- After a segment was force-dropped its file is gone. -/
theorem dropSegments_gone (hmem : seq ∈ segments)
    (hlt : seq < w.nextSegmentSeq) : (w.dropSegments segments).Gone seq := by
  unfold dropSegments
  split
  · rename_i hnone
    rw [max?_eq_none_iff.mp hnone] at hmem
    cases hmem
  · have hframe := deleteSegments_frame (w.forceCompleteSegments segments) segments
    refine ⟨?_, ?_⟩
    · show seq < (segments.foldl deleteSegment (w.forceCompleteSegments segments)).nextSegmentSeq
      rwa [hframe.2.1]
    · have hget := get?_store_deleteSegments (w.forceCompleteSegments segments) segments seq
      rwa [if_pos hmem] at hget

omit [LinearOrder Id] in
/-- The oldest incomplete segment of a subscriber is at or below each of its incomplete
segments. -/
theorem oldestIncomplete_le (hn : st.trackedCount seq = some n) (hc : ¬ st.Complete seq) :
    ∃ oldest, st.oldestIncompleteSegment = some oldest ∧ oldest ≤ seq := by
  obtain ⟨p, hp, -⟩ := map_eq_some_iff.mp hn
  have hinc : (!p.isComplete) = true := by
    rw [← isComplete_iff_complete hp] at hc
    simpa using hc
  have hmem := get?_eq_some.mp hp
  unfold SubscriberState.oldestIncompleteSegment
  cases hfind : st.segments.entries.find? (fun e => !e.2.isComplete) with
  | none => exact absurd hinc (find?_eq_none.mp hfind _ hmem)
  | some e =>
    refine ⟨e.1, rfl, ?_⟩
    obtain ⟨-, l₁, l₂, heq, hbefore⟩ := find?_eq_some_iff_append.mp hfind
    have hsorted := st.segments.sorted
    rw [heq] at hmem hsorted
    rcases mem_append.mp hmem with h₁ | h₂
    · have := hbefore _ h₁
      rw [hinc] at this
      cases this
    · rcases mem_cons.mp h₂ with heq | h₂
      · rw [← heq]
      · exact le_of_lt ((pairwise_cons.mp (pairwise_append.mp hsorted).2.1).1 _ h₂)

/-- Nothing below the boundary of `cleanup_completed_segments` is incomplete. -/
theorem deleteBoundary_le {boundary : SegmentSeq} (hb : w.deleteBoundary = some boundary)
    (hst : w.subscribers.get? id = some st) (hn : st.trackedCount seq = some n)
    (hc : ¬ st.Complete seq) : boundary ≤ seq := by
  obtain ⟨oldest, hold, hle⟩ := oldestIncomplete_le hn hc
  have hmem : oldest ∈ w.subscribers.values.filterMap (·.oldestIncompleteSegment) :=
    mem_filterMap.mpr ⟨st, mem_values.mpr ⟨id, hst⟩, hold⟩
  unfold deleteBoundary at hb
  cases hmin : w.oldestIncompleteSegment with
  | none =>
    rw [oldestIncompleteSegment, min?_eq_none_iff] at hmin
    rw [hmin] at hmem
    cases hmem
  | some m =>
    rw [hmin] at hb
    cases hb
    exact le_trans ((min?_eq_some_iff.mp hmin).2 oldest hmem) hle

theorem cleanupCompletedSegments_preserves (h : w.Inv) :
    w.Preserves w.cleanupCompletedSegments.1 := by
  unfold cleanupCompletedSegments
  split
  · exact .refl h
  · rename_i boundary hb
    have hget : ∀ seq, ({ w with store := w.store.filter (fun seq _ => seq ≥ boundary)
        }.cleanupSegmentsBefore boundary).store.get? seq =
          if boundary ≤ seq then w.store.get? seq else none := by
      intro seq
      show (w.store.filter (fun seq _ => seq ≥ boundary)).get? seq = _
      rw [get?_filter]
      split
      · rename_i hle
        cases w.store.get? seq <;> simp [hle]
      · rename_i hnle
        cases w.store.get? seq <;> simp [hnle]
    refine retention_preserves h [] boundary ?_ rfl rfl ?_ (fun _ hm => by cases hm) ?_ ?_
    · exact fun id => get?_updateAll _ _ _
    · intro seq n hn
      rw [hget] at hn
      split at hn
      · exact hn
      · cases hn
    · intro id st seq n hst hn hc _
      rw [hget, if_pos (deleteBoundary_le hb hst hn hc)]
    · intro id st seq p _ _ _ _ hlt _
      rw [hget, if_neg (not_le.mpr hlt)]

omit [LinearOrder Id] in
/-- The segment chosen by `force_drop_oldest_pending_segments` is tracked by somebody. -/
theorem scanPending_tracked {sts : List (SubscriberState Id)} {pending : OrdMap SegmentSeq Unit}
    {readers : List SegmentSeq} (h : seq ∈ (scanPending sts pending readers).1.keys) :
    seq ∈ pending.keys ∨ ∃ st ∈ sts, ∃ n, st.trackedCount seq = some n := by
  induction sts generalizing pending readers with
  | nil => exact .inl h
  | cons st sts ih =>
    have hins : ∀ (l : List SegmentSeq) (m : OrdMap SegmentSeq Unit),
        seq ∈ (l.foldl (fun m s => m.insertNew s ()) m).keys → seq ∈ m.keys ∨ seq ∈ l := by
      intro l
      induction l with
      | nil => exact fun m hm => .inl hm
      | cons s l ihl =>
        intro m hm
        rcases ihl _ hm with hk | hl
        · obtain ⟨u, hu⟩ := mem_keys.mp hk
          rw [get?_insertNew] at hu
          split_ifs at hu with heq
          · exact .inr (heq ▸ mem_cons_self)
          · exact .inl (mem_keys.mpr ⟨u, hu⟩)
        · exact .inr (mem_cons_of_mem _ hl)
    rcases ih h with hk | ⟨st', hst', hn⟩
    · rcases hins _ _ hk with hk | hl
      · exact .inl hk
      · obtain ⟨entry, hentry, heq⟩ := mem_map.mp hl
        obtain ⟨e, he, rfl⟩ := mem_map.mp (mem_filter.mp hentry).1
        have hseq : e.1 = seq := heq
        refine .inr ⟨st, mem_cons_self, e.2.bundleCount, ?_⟩
        rw [← hseq, trackedCount, get?_eq_some.mpr he]
        rfl
    · exact .inr ⟨st', mem_cons_of_mem _ hst', hn⟩

theorem oldestDroppable_lt (h : w.Inv) {order : List Id}
    (hseq : w.oldestDroppable order = some seq) : seq < w.nextSegmentSeq := by
  have hmem : seq ∈ (scanPending (w.visit order) .empty []).1.keys :=
    (mem_filter.mp (mem_of_mem_head? hseq)).1
  rcases scanPending_tracked hmem with hnone | ⟨st, hst, n, hn⟩
  · cases hnone
  · obtain ⟨id, -, hget⟩ := mem_filterMap.mp hst
    exact (h.subs id st hget).tracked_lt seq n hn

/-! ## One call -/

/-- **Every allowed call preserves the invariant** and keeps closed bundles closed. -/
theorem step_preserves (h : w.Inv) {op : Op Id} (hok : w.Allowed op) :
    w.Preserves (step w op).1 := by
  cases op with
  | register id => exact register_preserves h id
  | activate id => exact activate_preserves h id
  | deactivate id => exact deactivate_preserves h id
  | segmentFinalized n => exact registerNewSegment_preserves h n
  | pollNextBundle id readOk => exact pollNextBundle_preserves h hok
  | claimBundle id b readOk => exact claimBundle_preserves h hok
  | ack hd | reject hd =>
    unfold step
    dsimp only
    split
    · exact resolve_preserves h _
    · exact .refl h
  | defer hd | dropHandle hd =>
    unfold step
    dsimp only
    split
    · exact deferHandle_preserves h
    · exact .refl h
  | forceDropOldest order =>
    show w.Preserves (w.forceDropOldestPendingSegments order).1
    unfold forceDropOldestPendingSegments
    split
    · exact .refl h
    · rename_i seq hseq
      exact dropSegments_preserves h (hok seq hseq)
  | cleanupExpired isExpired => exact dropSegments_preserves h hok
  | cleanupCompleted => exact cleanupCompletedSegments_preserves h

end World

/-! # Delivery to subscribers

The laws of the registry over whole runs of allowed calls: a bundle has at most one live
handle per subscriber, a resolved bundle is never handed out again, and repeated polling
returns exactly the bundles that are neither resolved nor held, in order
(`subscriber_delivery`).  A failed read breaks the last of these
(`poll_read_failure_strands_bundle`). -/

open World Machine

/-- The call hands bundle `b` out to subscriber `id`. -/
def HandsOut (id : Id) (b : BundleRef) : Op Id × Ret Id → Prop
  | (.pollNextBundle id' _, .polled (.ok (some b'))) => id' = id ∧ b' = b
  | (.claimBundle id' _ _, .claimed (.ok b')) => id' = id ∧ b' = b
  | _ => False

/-- The call resolves bundle `b` for subscriber `id`: an acknowledgement, a rejection, or a
forced drop of its segment. -/
def Resolves (id : Id) (b : BundleRef) : Op Id × Ret Id → Prop
  | (.ack h, .resolved) => h = ⟨id, b⟩
  | (.reject h, .resolved) => h = ⟨id, b⟩
  | (.forceDropOldest _, .dropped segments) => b.segmentSeq ∈ segments
  | (.cleanupExpired _, .dropped segments) => b.segmentSeq ∈ segments
  | _ => False

variable {op : Op Id}

namespace World

/-- A bundle of a tracked segment that is neither resolved nor held by a live handle. -/
def Undelivered (w : World Id) (id : Id) (b : BundleRef) : Prop :=
  ∃ st n, w.subscribers.get? id = some st ∧ st.trackedCount b.segmentSeq = some n ∧
    b.bundleIndex < n ∧ st.isResolved b = false ∧ ⟨id, b⟩ ∉ w.handles

/-- The bundle is closed for the subscriber, registered or not. -/
def Settled (w : World Id) (id : Id) (b : BundleRef) : Prop :=
  w.Gone b.segmentSeq ∨ ∃ st, w.subscribers.get? id = some st ∧ w.Closed st b

variable {b : BundleRef} {readOk : Bool}

theorem Settled.mono {w' : World Id} (hp : w.Preserves w') (h : w.Settled id b) :
    w'.Settled id b := by
  rcases h with hg | ⟨st, hst, hc⟩
  · exact .inl (hg.mono hp.evolves)
  · obtain ⟨st', hst', hc'⟩ := hp.closed id st b hst hc
    exact .inr ⟨st', hst', hc'⟩

/-- Pending bundles are the undelivered ones. -/
theorem mem_pending_iff (h : w.Inv) (hst : w.subscribers.get? id = some st) :
    b ∈ st.pending ↔ w.Undelivered id b := by
  have hinv := h.subs id st hst
  rw [mem_pending]
  constructor
  · rintro ⟨n, hn, hi, hres, hclaim⟩
    refine ⟨st, n, hst, hn, hi, hres, fun hmem => ?_⟩
    obtain ⟨st', hst', hcase⟩ := h.held _ hmem
    rw [show w.subscribers.get? id = some st' from hst'] at hst
    cases hst
    exact hcase.elim hclaim (hinv.not_gone hn hi hres)
  · rintro ⟨st', n, hst', hn, hi, hres, hfree⟩
    rw [hst] at hst'
    cases hst'
    refine ⟨n, hn, hi, hres, fun hclaim => ?_⟩
    rcases hinv.claimed_held b hclaim with hheld | ⟨-, habs⟩
    · exact hfree hheld
    · exact absurd (habs n (hinv.stored hn hi hres)) (not_le.mpr hi)

/-! ## Resolved bundles stay resolved -/

/-- Only a bundle that is in the store is handed out. -/
theorem deliver_ok {b' : BundleRef} (h : (w.deliver id b readOk).2 = .ok b') :
    b' = b ∧ ∃ n, w.store.get? b.segmentSeq = some n := by
  unfold deliver at h
  cases hr : w.readBundle readOk b with
  | ok u =>
    rw [hr] at h
    obtain ⟨n, hn, -⟩ := of_readBundle_ok hr
    exact ⟨(Except.ok.inj h).symm, n, hn⟩
  | error e =>
    rw [hr] at h
    cases h

theorem not_settled {n : Nat} (hst : w.subscribers.get? id = some st)
    (hres : st.isResolved b = false) (hn : w.store.get? b.segmentSeq = some n) :
    ¬ w.Settled id b := by
  rintro (⟨-, hnone⟩ | ⟨st', hst', hr | ⟨-, hnone⟩⟩)
  · rw [hn] at hnone
    cases hnone
  · rw [hst] at hst'
    cases hst'
    rw [hres] at hr
    cases hr
  · rw [hn] at hnone
    cases hnone

/-- A bundle that a poll hands out was not settled. -/
theorem pollNextBundle_handsOut (h : (w.pollNextBundle id readOk).2 = .ok (some b)) :
    ¬ w.Settled id b := by
  unfold pollNextBundle at h
  split at h
  · cases h
  · rename_i st hst
    split at h
    · cases h
    · split at h
      · cases h
      · rename_i b' hnext
        dsimp only at h
        cases hd : ((w.update id (fun st => (st.claim b').1)).deliver id b' readOk).2 with
        | error e =>
          rw [hd] at h
          cases h
        | ok b'' =>
          rw [hd] at h
          cases h
          obtain ⟨rfl, n, hn⟩ := deliver_ok hd
          rw [nextPending_eq] at hnext
          obtain ⟨-, -, -, hres, -⟩ :=
            mem_pending.mp (mem_of_mem_head? hnext)
          exact not_settled hst hres hn

/-- A bundle that a claim hands out was not settled. -/
theorem claimBundle_handsOut {b' : BundleRef} (h : (w.claimBundle id b readOk).2 = .ok b') :
    ¬ w.Settled id b' := by
  unfold claimBundle at h
  split at h
  · cases h
  · rename_i st hst
    split at h
    · cases h
    · rename_i hres
      split at h
      · cases h
      · split at h
        · cases h
        · obtain ⟨rfl, n, hn⟩ := deliver_ok h
          exact not_settled hst (by simpa using hres) hn

theorem step_handsOut (hout : HandsOut id b (op, (step w op).2)) : ¬ w.Settled id b := by
  cases op with
  | pollNextBundle id' readOk =>
    change HandsOut id b (.pollNextBundle id' readOk, .polled (w.pollNextBundle id' readOk).2)
      at hout
    cases hr : (w.pollNextBundle id' readOk).2 with
    | error e =>
      rw [hr] at hout
      exact hout.elim
    | ok r =>
      rw [hr] at hout
      cases r with
      | none => exact hout.elim
      | some b' =>
        obtain ⟨rfl, rfl⟩ := hout
        exact pollNextBundle_handsOut hr
  | claimBundle id' b' readOk =>
    change HandsOut id b (.claimBundle id' b' readOk, .claimed (w.claimBundle id' b' readOk).2)
      at hout
    cases hr : (w.claimBundle id' b' readOk).2 with
    | error e =>
      rw [hr] at hout
      exact hout.elim
    | ok b'' =>
      rw [hr] at hout
      obtain ⟨rfl, rfl⟩ := hout
      exact claimBundle_handsOut hr
  | _ => exact hout.elim

/-- A call that resolves a bundle settles it. -/
theorem step_resolves (h : w.Inv) (hok : w.Allowed op) (hres : Resolves id b (op, (step w op).2)) :
    (step w op).1.Settled id b := by
  cases op with
  | ack hd | reject hd =>
    unfold step at hres ⊢
    dsimp only at hres ⊢
    split_ifs at hres with hmem
    · obtain rfl := hres
      rw [if_pos hmem]
      obtain ⟨st', hst', hc⟩ := resolve_closes h _ hmem (hok hmem)
      exact .inr ⟨st', hst', hc⟩
    · exact hres.elim
  | forceDropOldest order =>
    change b.segmentSeq ∈ (w.forceDropOldestPendingSegments order).2 at hres
    show (w.forceDropOldestPendingSegments order).1.Settled id b
    unfold forceDropOldestPendingSegments at hres ⊢
    split
    · rename_i hnone
      rw [hnone] at hres
      cases hres
    · rename_i seq hseq
      rw [hseq] at hres
      have hb := mem_singleton.mp hres
      exact .inl (dropSegments_gone hres (hb ▸ oldestDroppable_lt h hseq))
  | cleanupExpired isExpired =>
    obtain ⟨n, hn⟩ := OrdMap.mem_keys.mp (mem_filter.mp hres).1
    exact .inl (dropSegments_gone hres (h.store_lt _ n hn))
  | _ => exact hres.elim

/-! ## Repeated polling -/

/-- What a poll with a successful read does in a state of the invariant. -/
theorem poll_pending (h : w.Inv) (hst : w.subscribers.get? id = some st)
    (hactive : st.active = true) {rest : List BundleRef} (hp : st.pending = b :: rest) :
    (step w (.pollNextBundle id true)).2 = .polled (.ok (some b)) ∧
      (step w (.pollNextBundle id true)).1.Inv ∧
      ∃ st', (step w (.pollNextBundle id true)).1.subscribers.get? id = some st' ∧
        st'.active = true ∧ st'.pending = rest := by
  have hnext : st.nextPending = some b := by rw [nextPending_eq, hp]; rfl
  have hmem : b ∈ st.pending := by rw [hp]; exact mem_cons_self
  obtain ⟨n, hn, hi, hres, -⟩ := mem_pending.mp hmem
  have hread : w.readBundle true b = .ok () :=
    readBundle_ok ((h.subs id st hst).stored hn hi hres) hi
  have hpoll : w.pollNextBundle id true =
      ({ w.grab id b with handles := ⟨id, b⟩ :: w.handles }, .ok (some b)) := by
    unfold pollNextBundle
    rw [hst]
    dsimp only
    rw [show st.isActive = true from hactive, hnext]
    have hread' : (w.update id (fun st => (st.claim b).1)).readBundle true b = .ok () := hread
    simp only [deliver, hread']
    rfl
  have hallowed : w.Allowed (.pollNextBundle id true) := by
    intro st₀ b₀ hst₀ _ hnext₀
    rw [hst] at hst₀
    cases hst₀
    rw [hnext] at hnext₀
    cases hnext₀
    exact hread
  refine ⟨congrArg Ret.polled (congrArg Prod.snd hpoll), (step_preserves h hallowed).inv,
    { st with claimed := insert b st.claimed }, ?_, hactive, ?_⟩
  · show (w.pollNextBundle id true).1.subscribers.get? id = _
    rw [hpoll]
    rw [get?_grab hst hres, hst]
    simp
  · have hclaim := pending_claim hres
    have hst' : (st.claim b).1 = { st with claimed := insert b st.claimed } := by
      simp [claim, hres]
    rw [← hst', hclaim, hp]
    have hsorted : st.pending.Pairwise BundleRef.Lt := pending_sorted
    rw [hp] at hsorted
    have hne : ∀ b' ∈ rest, b' ≠ b := fun b' hb' =>
      ((pairwise_cons.mp hsorted).1 b' hb').ne.symm
    rw [filter_cons_of_neg (by simp), filter_eq_self]
    intro b' hb'
    simpa using hne b' hb'

theorem poll_empty (hst : w.subscribers.get? id = some st) (hactive : st.active = true)
    (hp : st.pending = []) : step w (.pollNextBundle id readOk) = (w, .polled (.ok none)) := by
  have hnext : st.nextPending = none := by rw [nextPending_eq, hp]; rfl
  have hpoll : w.pollNextBundle id readOk = (w, .ok none) := by
    unfold pollNextBundle
    rw [hst]
    dsimp only
    rw [show st.isActive = true from hactive, hnext]
    rfl
  show ((w.pollNextBundle id readOk).1, Ret.polled (w.pollNextBundle id readOk).2) = _
  rw [hpoll]

/-- Repeated polling hands out the pending bundles one by one and then nothing. -/
theorem polls_pending (pending : List BundleRef) (h : w.Inv) (hst : w.subscribers.get? id = some st)
    (hactive : st.active = true) (hp : st.pending = pending) :
    (history step w (List.replicate (pending.length + 1) (.pollNextBundle id true))).map
        Prod.snd =
      pending.map (fun b => .polled (.ok (some b))) ++ [.polled (.ok none)] := by
  induction pending generalizing w st with
  | nil => simp [poll_empty hst hactive hp]
  | cons b rest ih =>
    obtain ⟨hout, hinv, st', hst', hactive', hp'⟩ := poll_pending h hst hactive hp
    rw [length_cons, replicate_succ, history_cons, map_cons, ih hinv hst' hactive' hp', hout]
    rfl

end World

/-! ## Whole runs -/

/-- What a run of allowed calls maintains. -/
structure RunInv (w : World Id) (past : List (Op Id × Ret Id)) : Prop where
  inv : w.Inv
  settled : ∀ e ∈ past, ∀ id b, Resolves id b e → w.Settled id b
  final : past.Pairwise (fun e e' => ∀ id b, Resolves id b e → ¬ HandsOut id b e')

theorem step_runInv {past : List (Op Id × Ret Id)} (h : RunInv w past) (hok : w.Allowed op) :
    RunInv (step w op).1 (past ++ [(op, (step w op).2)]) := by
  have hp := step_preserves h.inv hok
  refine ⟨hp.inv, ?_, ?_⟩
  · intro e he id b hres
    rcases mem_append.mp he with he | he
    · exact (h.settled e he id b hres).mono hp
    · rw [mem_singleton.mp he] at hres
      exact step_resolves h.inv hok hres
  · rw [pairwise_append]
    refine ⟨h.final, pairwise_singleton _ _, ?_⟩
    intro e he e' he' id b hres hout
    rw [mem_singleton.mp he'] at hout
    exact step_handsOut hout (h.settled e he id b hres)

theorem run_inv {ops : List (Op Id)} (h : Machine.Meets step World.Allowed init ops) :
    RunInv (final step init ops) (history step init ops) := by
  have hstart : RunInv (init : World Id) [] := ⟨init_inv, by simp, .nil⟩
  have hrun := history_invariant_of_meets RunInv (fun _ _ _ hi hok => step_runInv hi hok)
    hstart h
  rwa [nil_append] at hrun

/-- Activation keeps what is undelivered and leaves the subscriber active. -/
theorem World.activate_active (hst : w.subscribers.get? id = some st) :
    ∃ st', (step w (.activate id)).1.subscribers.get? id = some st' ∧ st'.active = true ∧
      ∀ b, w.Undelivered id b → (step w (.activate id)).1.Undelivered id b := by
  show ∃ st', (w.activate id).1.subscribers.get? id = some st' ∧ st'.active = true ∧
    ∀ b, w.Undelivered id b → (w.activate id).1.Undelivered id b
  unfold activate
  rw [hst]
  dsimp only
  split_ifs with hactive
  · exact ⟨st, hst, hactive, fun b hb => hb⟩
  · have hget : (w.update id (fun st => (addAvailable w.store.entries st).activate)
        ).subscribers.get? id = some (addAvailable w.store.entries st).activate := by
      rw [get?_update, hst]
      simp
    refine ⟨_, hget, rfl, ?_⟩
    rintro b ⟨st₀, n, hst₀, hn, hi, hres, hfree⟩
    rw [hst] at hst₀
    cases hst₀
    obtain ⟨-, hres', hold, -⟩ := addAvailable_spec w.store.entries st
    exact ⟨_, n, hget, hold _ n hn, hi, (hres' b).trans hres, hfree⟩

/-- **Delivery over whole runs.**  After any run of allowed calls, and for every subscriber:
a bundle has at most one live handle; a bundle once resolved was not handed out later; and
once a registered subscriber is active, repeated polling returns, in order, exactly the
bundles of tracked segments that are neither resolved nor held. -/
theorem subscriber_delivery {ops : List (Op Id)}
    (h : Machine.Meets step World.Allowed init ops) (id : Id) : let w := final step init ops
    let active := (step w (.activate id)).1
    (∀ b, w.handles.count ⟨id, b⟩ ≤ 1) ∧
      (∀ b, (history step init ops).Pairwise
        (fun e e' => Resolves id b e → ¬ HandsOut id b e')) ∧
      (w.subscribers.contains id = true → ∃ pending : List BundleRef,
        pending.Pairwise BundleRef.Lt ∧
        (∀ b, b ∈ pending ↔ active.Undelivered id b) ∧
        (∀ b, w.Undelivered id b → b ∈ pending) ∧
        (history step active
            (List.replicate (pending.length + 1) (.pollNextBundle id true))).map Prod.snd =
          pending.map (fun b => .polled (.ok (some b))) ++ [.polled (.ok none)]) := by
  have hrun := run_inv h
  refine ⟨fun b => nodup_iff_count_le_one.mp hrun.inv.nodup _,
    fun b => hrun.final.imp fun hfinal => hfinal id b, fun hreg => ?_⟩
  obtain ⟨st, hst⟩ := OrdMap.contains_iff.mp hreg
  obtain ⟨st', hst', hactive, hkeep⟩ := activate_active hst
  have hok : (final step init ops).Allowed (.activate id) := trivial
  have hinv := (step_preserves hrun.inv hok).inv
  have hmem : ∀ b, b ∈ st'.pending ↔ (step _ (.activate id)).1.Undelivered id b :=
    fun b => mem_pending_iff hinv hst'
  exact ⟨st'.pending, pending_sorted, hmem, fun b hb => (hmem b).mpr (hkeep b hb),
    polls_pending _ hinv hst' hactive rfl⟩

/-- A subscriber acknowledges all of one segment, which is then deleted, and one of two bundles of
the next. -/
def ackedRun : List (Op Nat) :=
  [.register 0, .activate 0, .segmentFinalized 1, .segmentFinalized 2, .pollNextBundle 0 true,
    .ack ⟨0, ⟨0, 0⟩⟩, .cleanupCompleted, .pollNextBundle 0 true, .ack ⟨0, ⟨1, 0⟩⟩]

theorem ackedRun_meets : Machine.Meets step World.Allowed init ackedRun := by
  refine ⟨trivial, trivial, trivial, trivial, ?_, ?_, trivial, ?_, ?_, trivial⟩
  · rintro st b hst - hnext
    cases hst
    cases hnext
    rfl
  · rintro - st hst
    cases hst
    exact .inl rfl
  · rintro st b hst - hnext
    cases hst
    cases hnext
    rfl
  · rintro - st hst
    cases hst
    exact .inl rfl

/-- In that run the other bundle is what the polls go on to return. -/
theorem subscriber_delivery_acked :
    ∃ pending : List BundleRef, ⟨1, 1⟩ ∈ pending ∧
      (history step (step (final step init ackedRun) (.activate 0)).1
        (List.replicate (pending.length + 1) (.pollNextBundle 0 true))).map Prod.snd =
      pending.map (fun b => .polled (.ok (some b))) ++ [.polled (.ok none)] := by
  obtain ⟨-, -, hpolls⟩ := subscriber_delivery ackedRun_meets 0
  obtain ⟨pending, -, -, hkeep, hout⟩ := hpolls rfl
  have hfree : (final step init ackedRun).Undelivered 0 ⟨1, 1⟩ :=
    ⟨_, 2, rfl, rfl, Nat.one_lt_two, rfl, not_mem_nil⟩
  exact ⟨pending, hkeep _ hfree, hout⟩

/-- **An unresolved bundle keeps its segment**: no cleanup deletes it while a subscriber has not
completed it. -/
theorem open_segment_stored {ops : List (Op Id)} {seq : SegmentSeq} {n : Nat}
    (h : Meets step Allowed init ops)
    (hst : (final step init ops).subscribers.get? id = some st)
    (hn : st.trackedCount seq = some n) (hopen : ¬ st.Complete seq) :
    (final step init ops).store.get? seq = some n := by
  have hsub := (run_inv h).inv.subs id st hst
  obtain ⟨m, hm⟩ := hsub.incomplete_stored seq n hn hopen
  rw [hm, hsub.tracked_count seq n m hn hm]

theorem open_segment_stored_acked : (final step init ackedRun).store.get? 0 = none ∧
    (final step init ackedRun).store.get? 1 = some 2 := by
  have hst : (final step init ackedRun).subscribers.get? 0 = some _ := rfl
  refine ⟨rfl, open_segment_stored ackedRun_meets hst rfl fun h => ?_⟩
  cases h 2 rfl 1 Nat.one_lt_two

/-! ## The failed read -/

/-- The subscriber's first read fails. -/
def failedReadRun : List (Op Nat) :=
  [.register 0, .activate 0, .segmentFinalized 1, .pollNextBundle 0 false]

/-- A poll whose read fails keeps the claim it took, and there is no handle to release it: the
bundle is neither resolved nor held, and no later poll returns it. -/
theorem poll_read_failure_strands_bundle :
    (final step init failedReadRun).Undelivered 0 ⟨0, 0⟩ ∧
      ∀ n, (history step (final step init failedReadRun)
          (List.replicate n (.pollNextBundle 0 true))).map Prod.snd =
        List.replicate n (.polled (.ok none)) := by
  refine ⟨⟨_, 1, rfl, rfl, Nat.zero_lt_one, rfl, not_mem_nil⟩, fun n => ?_⟩
  have hpoll : step (final step init failedReadRun) (.pollNextBundle 0 true) =
      (final step init failedReadRun, .polled (.ok none)) :=
    poll_empty rfl rfl rfl
  induction n with
  | zero => rfl
  | succ n ih => simp [replicate_succ, hpoll, ih]

end OtapDataflow.Subscriber
