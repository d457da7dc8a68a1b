import OtapDataflow.Fanout.Processor

/-! # The record of one request

What the processor keeps about a request in flight, and how it changes.

Along a chain the states of the destinations go together (`Linked`): a fallback is held in reserve
as long as the destination before it may succeed, it is skipped once that has been acked or was
skipped itself, and it has been started exactly if that one has failed.  `Sound` says so of a whole
record, and every change keeps it: a dispatch, an ack, a failure, and an advance of sequential
delivery that does not start a fallback. -/

namespace OtapDataflow.Fanout

open Node List Inflight Option

variable {P : Type}

/-- The states of two successive destinations of a chain. -/
def Linked : DestinationStatus → DestinationStatus → Prop
  | .pendingSend, s => s = .pendingSend
  | .inFlight, s => s = .pendingSend
  | .acked, s => s = .skipped
  | .skipped, s => s = .skipped
  | .nacked, s => s ≠ .pendingSend ∧ s ≠ .skipped
  | .timedOut, s => s ≠ .pendingSend ∧ s ≠ .skipped

namespace DestinationStatus

/-- Failed for good. -/
def Failed (s : DestinationStatus) : Prop := s = .nacked ∨ s = .timedOut

/-- A message went out, or is about to. -/
def Started (s : DestinationStatus) : Prop := s ≠ .pendingSend ∧ s ≠ .skipped

theorem Failed.started {s : DestinationStatus} (h : s.Failed) : s.Started := by
  obtain rfl | rfl := h <;> exact ⟨nofun, nofun⟩

end DestinationStatus

open DestinationStatus

theorem Linked.failed {s s' : DestinationStatus} (h : Linked s s') (hs : s'.Started) :
    s.Failed := by
  cases s with
  | pendingSend | inFlight => exact absurd h hs.1
  | acked | skipped => exact absurd h hs.2
  | nacked => exact .inl rfl
  | timedOut => exact .inr rfl

theorem linked_of_failed {s s' : DestinationStatus} (h : s.Failed) : Linked s s' ↔ s'.Started := by
  obtain rfl | rfl := h <;> exact Iff.rfl

variable {inf inf' : Inflight P} {f : DestinationState P → DestinationState P} {d : Nat}
  {effects : List (Effect P)}

namespace Inflight

def status (inflight : Inflight P) (i : Nat) : DestinationStatus :=
  (inflight.statusOf i).getD .pendingSend

def payloadOf (inflight : Inflight P) (i : Nat) : Option (Subscribed P) :=
  inflight.destinations[i]?.bind (·.payload)

variable {inflight : Inflight P} {i idx : Nat} {ep : DestinationState P}

theorem statusOf_eq (h : inflight.destinations[i]? = some ep) :
    inflight.statusOf i = some ep.status := by
  rw [statusOf, h, map_some]

theorem status_eq (h : inflight.destinations[i]? = some ep) : inflight.status i = ep.status := by
  rw [status, statusOf_eq h, getD_some]

theorem statusOf_eq_some (h : i < inflight.destinations.length) :
    inflight.statusOf i = some (inflight.status i) := by
  rw [status, statusOf, getElem?_eq_getElem h, map_some, getD_some]

theorem getElem?_modifyDest :
    (inflight.modifyDest idx f).destinations[i]? =
      if i = idx then inflight.destinations[i]?.map f else inflight.destinations[i]? := by
  rw [modifyDest, getElem?_modify]
  simp only [eq_comm]
  split_ifs
  · rfl
  · exact map_id'

@[simp] theorem length_modifyDest :
    (inflight.modifyDest idx f).destinations.length = inflight.destinations.length :=
  length_modify ..

theorem status_modifyDest (h : inflight.destinations[idx]? = some ep) :
    (inflight.modifyDest idx f).status i =
      if i = idx then (f ep).status else inflight.status i := by
  rw [status, statusOf, getElem?_modifyDest]
  split_ifs with hi
  · rw [hi, h]
    rfl
  · rfl

theorem payloadOf_modifyDest (h : inflight.destinations[idx]? = some ep) :
    (inflight.modifyDest idx f).payloadOf i =
      if i = idx then (f ep).payload else inflight.payloadOf i := by
  rw [payloadOf, getElem?_modifyDest]
  split_ifs with hi
  · rw [hi, h]
    rfl
  · rfl

/-- A change that leaves the payloads alone. -/
theorem payloadOf_modifyDest_same (hf : ∀ ep, (f ep).payload = ep.payload) (i : Nat) :
    (inflight.modifyDest idx f).payloadOf i = inflight.payloadOf i := by
  rw [payloadOf, getElem?_modifyDest, payloadOf]
  split_ifs
  · rw [bind_map]
    exact congrArg (bind _) (funext hf)
  · rfl

variable (cfg : ValidatedConfig)

/-- A record that the processor can have. -/
structure Sound (inflight : Inflight P) : Prop where
  length : inflight.destinations.length = cfg.count
  awaitAck : inflight.awaitAck = cfg.awaitAck
  mode : inflight.mode = cfg.mode
  primary : inflight.primary = cfg.primaryIndex
  required : inflight.requiredOrigins = cfg.destinations.countP (·.fallbackFor.isNone)
  origin : ∀ {i ep}, inflight.destinations[i]? = some ep → ep.origin = cfg.origin i
  linked : ∀ {j i}, cfg.Follows j i → Linked (inflight.status j) (inflight.status i)
  root : ∀ {i}, cfg.isFallback i = false → inflight.status i ≠ .skipped
  queued : ∀ i ∈ inflight.nextSendQueue, inflight.payloadOf i ≠ none →
    inflight.status i = .inFlight ∨ inflight.status i = .timedOut
  kept : ∀ i < cfg.count, inflight.status i = .pendingSend → inflight.payloadOf i ≠ none
  single : cfg.mode = .sequential → ∀ i j, inflight.status i = .inFlight →
    inflight.status j = .inFlight → i = j
  begun : ∀ o < cfg.count, cfg.isFallback o = false → (∀ c < o, cfg.isFallback c = true) →
    inflight.status o ≠ .pendingSend

variable {cfg} (hv : cfg.Valid)

namespace Sound

variable (h : Sound cfg inf)

include h

theorem getElem? (hi : i < cfg.count) : ∃ ep, inf.destinations[i]? = some ep :=
  ⟨_, getElem?_eq_getElem (h.length ▸ hi)⟩

variable {d j : Nat}

/-- The destinations before one that was started have failed. -/
theorem failed_of_started (hd : (inf.status d).Started) (hj : Relation.TransGen cfg.Follows j d) :
    (inf.status j).Failed := by
  induction hj using Relation.TransGen.head_induction_on with
  | single hjd => exact (h.linked hjd).failed hd
  | head hji _ ih => exact (h.linked hji).failed ih.started

/-- Those after one that may still succeed are held in reserve. -/
theorem pending_of_waiting (hd : inf.status d = .pendingSend ∨ inf.status d = .inFlight)
    (hj : Relation.TransGen cfg.Follows d j) : inf.status j = .pendingSend := by
  have hnext : ∀ {a b}, cfg.Follows a b → (inf.status a = .pendingSend ∨ inf.status a = .inFlight) →
      inf.status b = .pendingSend := by
    intro a b hab ha
    have hlinked := h.linked hab
    obtain ha | ha := ha <;> rwa [ha] at hlinked
  induction hj with
  | single hdj => exact hnext hdj hd
  | tail _ hij ih => exact hnext hij (.inl ih)

include hv

/-- In a chain only one destination is in flight. -/
theorem status_of_inFlight (hd : d < cfg.count) (hj : j < cfg.count)
    (horigin : cfg.origin j = cfg.origin d) (hne : j ≠ d) (hflight : inf.status d = .inFlight) :
    (inf.status j).Failed ∨ inf.status j = .pendingSend ∧ cfg.isFallback j = true := by
  rcases hv.comparable hj hd horigin with hjd | hdj
  · rcases Relation.reflTransGen_iff_eq_or_transGen.mp hjd with heq | hjd
    · exact absurd heq.symm hne
    · exact .inl (h.failed_of_started (by rw [hflight]; exact ⟨nofun, nofun⟩) hjd)
  · rcases Relation.reflTransGen_iff_eq_or_transGen.mp hdj with heq | hdj
    · exact absurd heq hne
    · obtain ⟨k, _, hkj⟩ := Relation.TransGen.tail'_iff.mp hdj
      exact .inr ⟨h.pending_of_waiting (.inr hflight) hdj, hv.follows_fallback hkj⟩

end Sound

/-! ## Changes of a record -/

/-- Only states, payloads and deadlines of destinations differ, and the queue. -/
structure Reshaped (inf inf' : Inflight P) : Prop where
  rest : { inf' with destinations := inf.destinations, nextSendQueue := inf.nextSendQueue } = inf
  origins : inf'.destinations.map (·.origin) = inf.destinations.map (·.origin)

namespace Reshaped

variable {inf inf' inf'' : Inflight P}

theorem refl (inf : Inflight P) : Reshaped inf inf := ⟨rfl, rfl⟩

theorem trans (h : Reshaped inf inf') (h' : Reshaped inf' inf'') : Reshaped inf inf'' where
  rest := by
    rw [← h.rest, ← h'.rest]
  origins := h'.origins.trans h.origins

theorem modifyDest (hf : ∀ ep, (f ep).origin = ep.origin) :
    Reshaped inf (inf.modifyDest idx f) where
  rest := rfl
  origins := by
    refine ext_getElem? fun i => ?_
    rw [getElem?_map, getElem?_map, getElem?_modifyDest]
    split_ifs
    · rw [Option.map_map]
      exact congrArg (Option.map · _) (funext hf)
    · rfl

theorem withQueue (h : Reshaped inf inf') (queue : List Nat) :
    Reshaped inf { inf' with nextSendQueue := queue } where
  rest := h.rest
  origins := h.origins

theorem skipFallbacks (o : Nat) : Reshaped inf (inf.skipFallbacks cfg o) where
  rest := rfl
  origins := by
    refine ext_getElem? fun i => ?_
    rw [Inflight.skipFallbacks, getElem?_map, getElem?_map, getElem?_mapIdx, Option.map_map]
    refine congrArg (Option.map · _) (funext fun ep => ?_)
    rw [Function.comp_apply]
    split_ifs <;> rfl

theorem originalPdata (h : Reshaped inf inf') : inf'.originalPdata = inf.originalPdata := by
  have heq := congrArg Inflight.originalPdata h.rest
  exact heq

theorem completedOrigins (h : Reshaped inf inf') : inf'.completedOrigins =
    inf.completedOrigins := by
  have heq := congrArg Inflight.completedOrigins h.rest
  exact heq

theorem length (h : Reshaped inf inf') : inf'.destinations.length = inf.destinations.length := by
  have := congrArg List.length h.origins
  rwa [length_map, length_map] at this

end Reshaped

theorem Sound.reshape (h : Sound cfg inf) (hr : Reshaped inf inf')
    (linked : ∀ {j i}, cfg.Follows j i → Linked (inf'.status j) (inf'.status i))
    (root : ∀ {i}, cfg.isFallback i = false → inf'.status i ≠ .skipped)
    (queued : ∀ i ∈ inf'.nextSendQueue, inf'.payloadOf i ≠ none →
      inf'.status i = .inFlight ∨ inf'.status i = .timedOut)
    (kept : ∀ i < cfg.count, inf'.status i = .pendingSend → inf'.payloadOf i ≠ none)
    (single : cfg.mode = .sequential → ∀ i j, inf'.status i = .inFlight →
      inf'.status j = .inFlight → i = j)
    (begun : ∀ o < cfg.count, cfg.isFallback o = false → (∀ c < o, cfg.isFallback c = true) →
      inf'.status o ≠ .pendingSend) : Sound cfg inf' where
  length := hr.length.trans h.length
  awaitAck := by rw [← h.awaitAck, ← hr.rest]
  mode := by rw [← h.mode, ← hr.rest]
  primary := by rw [← h.primary, ← hr.rest]
  required := by rw [← h.required, ← hr.rest]
  origin := by
    intro i ep hep
    have heq := congrArg (·[i]?) hr.origins
    simp only [getElem?_map, hep, map_some] at heq
    obtain ⟨ep₀, hep₀, horigin⟩ := map_eq_some_iff.mp heq.symm
    rw [← horigin, h.origin hep₀]
  linked := linked
  root := root
  queued := queued
  kept := kept
  single := single
  begun := begun

/-! ## Dispatch -/

variable (clock : Nat → Nat)

/-- Dispatching has sent to `sent`: their payloads are gone, and no state has changed. -/
structure Dispatched (cfg : ValidatedConfig) (inf inf' : Inflight P) (effects : List (Effect P))
    (sent : List Nat) : Prop where
  reshaped : Reshaped inf inf'
  queue : inf'.nextSendQueue = inf.nextSendQueue
  status : ∀ i, inf'.status i = inf.status i
  payload : ∀ i, inf'.payloadOf i = if i ∈ sent then none else inf.payloadOf i
  nodup : sent.Nodup
  ready : ∀ i ∈ sent, inf.payloadOf i ≠ none
  effects : effects = sent.filterMap fun i =>
    (inf.payloadOf i).map fun m => .sendMessageTo (cfg.portOf i) m.data m.callData

theorem Dispatched.refl (cfg : ValidatedConfig) (inf : Inflight P) :
    Dispatched cfg inf inf [] [] where
  reshaped := .refl inf
  queue := rfl
  status := fun _ => rfl
  payload := fun _ => rfl
  nodup := .nil
  ready := forall_mem_nil _
  effects := rfl

variable {sent : List Nat}

theorem dispatchOne_dispatched (r idx : Nat) {d : Dispatch P}
    (h : Dispatched cfg inf d.inflight d.effects sent) :
    ∃ sent' ⊆ idx :: sent, Dispatched cfg inf (dispatchOne cfg clock r d idx).inflight
      (dispatchOne cfg clock r d idx).effects sent' := by
  cases hpayload : d.inflight.destinations[idx]?.bind (·.payload) with
  | none =>
    rw [dispatchOne, hpayload]
    exact ⟨sent, subset_cons_self _ _, h⟩
  | some m =>
    obtain ⟨ep, hep, hm⟩ := bind_eq_some_iff.mp hpayload
    have hidx : d.inflight.payloadOf idx = some m := hpayload
    rw [h.payload] at hidx
    have hnotin : idx ∉ sent := fun hmem => by simp [hmem] at hidx
    rw [if_neg hnotin] at hidx
    rw [dispatchOne, hpayload]
    refine ⟨sent ++ [idx], ?_, ?_⟩
    · simp
    · exact {
        reshaped := h.reshaped.trans (.modifyDest fun _ => rfl)
        queue := h.queue
        status := by
          intro i
          rw [status_modifyDest hep, ← h.status]
          split_ifs with hi
          · rw [hi, status_eq hep]
          · rfl
        payload := by
          intro i
          rw [payloadOf_modifyDest hep, h.payload]
          by_cases hi : i = idx <;> simp [hi]
        nodup := nodup_append.mpr ⟨h.nodup, nodup_singleton _, by
          rintro a ha b hb rfl
          exact hnotin (mem_singleton.mp hb ▸ ha)⟩
        ready := by
          refine forall_mem_append.mpr ⟨h.ready, forall_mem_singleton.mpr ?_⟩
          rw [hidx]
          exact nofun
        effects := by
          rw [filterMap_append, ← h.effects, filterMap_cons, hidx]
          rfl }

/-- **What a dispatch does**: it sends to some of the destinations it looks at. -/
theorem dispatchReady_dispatched (r : Nat) (inf : Inflight P) (reads : Nat) :
    ∃ sent ⊆ inf.toSend, Dispatched cfg inf (dispatchReady cfg clock r inf reads).inflight
      (dispatchReady cfg clock r inf reads).effects sent := by
  have hfold : ∀ (idxs : List Nat) (d : Dispatch P) (sent : List Nat),
      Dispatched cfg inf d.inflight d.effects sent →
      ∃ sent' ⊆ idxs ++ sent, Dispatched cfg inf
        (idxs.foldl (dispatchOne cfg clock r) d).inflight
        (idxs.foldl (dispatchOne cfg clock r) d).effects sent' := by
    intro idxs
    induction idxs with
    | nil => exact fun d sent h => ⟨sent, List.Subset.refl _, h⟩
    | cons idx idxs ih =>
      intro d sent h
      obtain ⟨sent₁, hsub₁, h₁⟩ := dispatchOne_dispatched clock r idx h
      obtain ⟨sent₂, hsub₂, h₂⟩ := ih _ _ h₁
      refine ⟨sent₂, fun i hi => ?_, h₂⟩
      have := hsub₂ hi
      have hcons := @hsub₁ i
      simp only [mem_append, mem_cons] at this hcons ⊢
      tauto
  obtain ⟨sent, hsub, h⟩ := hfold inf.toSend ⟨inf, [], [], reads⟩ [] (Dispatched.refl cfg inf)
  exact ⟨sent, by rwa [append_nil] at hsub, h⟩

/-- What is sent to is in flight, or had timed out before its message went out. -/
theorem Dispatched.status_of_sent
    (h : Dispatched cfg inf inf' effects sent) (hs : Sound cfg inf) (hsub : sent ⊆ inf.toSend)
    (hi : i ∈ sent) : i < cfg.count ∧ (inf.status i = .inFlight ∨ inf.status i = .timedOut) := by
  have hready := h.ready i hi
  have hlt : i < cfg.count := by
    rw [← hs.length]
    by_contra hge
    exact hready (by rw [payloadOf, getElem?_eq_none (not_lt.mp hge)]; rfl)
  have hmem := hsub hi
  rw [toSend] at hmem
  cases hmode : inf.mode with
  | parallel =>
    rw [hmode] at hmem
    have hstatus : inf.statusOf i = some .inFlight := by simpa using (mem_filter.mp hmem).2
    refine ⟨hlt, .inl ?_⟩
    rw [Inflight.status, hstatus, getD_some]
  | sequential =>
    rw [hmode] at hmem
    exact ⟨hlt, hs.queued i (mem_of_mem_head? (mem_toList.mp hmem)) hready⟩

theorem Dispatched.sound
    (h : Dispatched cfg inf inf' effects sent) (hs : Sound cfg inf) (hsub : sent ⊆ inf.toSend) :
    Sound cfg inf' := by
  refine hs.reshape h.reshaped ?_ ?_ ?_ ?_ ?_ ?_
  · intro j i hji
    rw [h.status, h.status]
    exact hs.linked hji
  · intro i hi
    rw [h.status]
    exact hs.root hi
  · intro i hi hpayload
    rw [h.queue] at hi
    rw [h.payload] at hpayload
    rw [h.status]
    refine hs.queued i hi fun hnone => hpayload ?_
    rw [hnone, ite_self]
  · intro i hi hpending
    rw [h.status] at hpending
    rw [h.payload, if_neg]
    · exact hs.kept i hi hpending
    · intro hmem
      have hsent := (h.status_of_sent hs hsub hmem).2
      rw [hpending] at hsent
      exact hsent.elim nofun nofun
  · intro hmode i j hi hj
    rw [h.status] at hi hj
    exact hs.single hmode i j hi hj
  · intro o ho hroot hfirst
    rw [h.status]
    exact hs.begun o ho hroot hfirst

/-! ## An ack -/

section

theorem status_skipFallbacks {o : Nat} (hlen : inf.destinations.length = cfg.count)
    (horigin : ∀ {i ep}, inf.destinations[i]? = some ep → ep.origin = cfg.origin i)
    (hfallback : ∀ {i}, cfg.isFallback i = true → i < cfg.count) (i : Nat) :
    (inf.skipFallbacks cfg o).status i =
      if cfg.origin i = o ∧ inf.status i = .pendingSend ∧ cfg.isFallback i = true then .skipped
      else inf.status i := by
  by_cases hi : i < cfg.count
  · have hep := getElem?_eq_getElem (hlen ▸ hi)
    rw [status_eq hep, ← horigin hep, status, statusOf, skipFallbacks,
      getElem?_mapIdx, hep, map_some, map_some, getD_some]
    split_ifs <;> rfl
  · rw [if_neg fun hskip => hi (hfallback hskip.2.2)]
    rw [status, statusOf, skipFallbacks, getElem?_mapIdx,
      status, statusOf, getElem?_eq_none (hlen ▸ not_lt.mp hi)]
    rfl

theorem Reshaped.acknowledged (o : Nat) : Reshaped inf (inf.acknowledged cfg d o) :=
  (Reshaped.modifyDest (f := fun ep => { ep with status := .acked }) fun _ => rfl).trans
    (.skipFallbacks o)

theorem payloadOf_skipFallbacks_or (o : Nat) :
    (inf.skipFallbacks cfg o).payloadOf i = inf.payloadOf i ∨
      (inf.skipFallbacks cfg o).payloadOf i = none := by
  rw [payloadOf, skipFallbacks, getElem?_mapIdx, payloadOf]
  cases inf.destinations[i]? with
  | none => exact .inr rfl
  | some ep =>
    rw [map_some, bind_some, bind_some]
    split_ifs
    · exact .inr rfl
    · exact .inl rfl

theorem payloadOf_skipFallbacks {o : Nat} (h : inf.payloadOf i = none) :
    (inf.skipFallbacks cfg o).payloadOf i = none := by
  rcases payloadOf_skipFallbacks_or o with hsame | hnone
  · rw [hsame, h]
  · exact hnone

/-- What stays in reserve keeps its payload. -/
theorem payloadOf_skipFallbacks_of_pending {o : Nat}
    (h : (inf.skipFallbacks cfg o).status i = .pendingSend) :
    (inf.skipFallbacks cfg o).payloadOf i = inf.payloadOf i := by
  rw [status, statusOf, skipFallbacks, getElem?_mapIdx] at h
  rw [payloadOf, skipFallbacks, getElem?_mapIdx, payloadOf]
  cases hep : inf.destinations[i]? with
  | none => rfl
  | some ep =>
    rw [hep, map_some, map_some, getD_some] at h
    rw [map_some, bind_some, bind_some]
    split_ifs at h ⊢
    rfl

include hv

theorem Sound.status_acknowledged (h : Sound cfg inf) (hd : d < cfg.count) (i : Nat) :
    (inf.acknowledged cfg d (cfg.origin d)).status i =
      if i = d then .acked
      else if cfg.origin i = cfg.origin d ∧ inf.status i = .pendingSend ∧
        cfg.isFallback i = true then
        .skipped
      else inf.status i := by
  obtain ⟨ep, hep⟩ := h.getElem? hd
  have hlt : ∀ {i}, cfg.isFallback i = true → i < cfg.count := fun hi =>
    (hv.follows_lt (hv.follows_of_fallback hi).choose_spec).2
  rw [acknowledged, status_skipFallbacks (by rw [length_modifyDest, h.length]) ?_ hlt,
    status_modifyDest hep]
  · by_cases hi : i = d <;> simp [hi]
  · intro i ep' hep'
    rw [getElem?_modifyDest] at hep'
    split_ifs at hep'
    · obtain ⟨ep₁, hep₁, rfl⟩ := map_eq_some_iff.mp hep'
      have horigin : ep₁.origin = cfg.origin i := h.origin hep₁
      exact horigin
    · exact h.origin hep'

theorem Sound.inFlight_of_acknowledged (h : Sound cfg inf) (hd : d < cfg.count)
    (hi : (inf.acknowledged cfg d (cfg.origin d)).status i = .inFlight) :
    inf.status i = .inFlight ∧ i ≠ d := by
  rw [h.status_acknowledged hv hd] at hi
  split_ifs at hi with hid
  exact ⟨hi, hid⟩

theorem Sound.acknowledged (h : Sound cfg inf) (hd : d < cfg.count)
    (hflight : inf.status d = .inFlight) (hsent : inf.payloadOf d = none) :
    Sound cfg (inf.acknowledged cfg d (cfg.origin d)) := by
  have hstatus := h.status_acknowledged hv hd
  refine h.reshape (.acknowledged _) ?_ ?_ ?_ ?_ ?_ ?_
  · intro j i hji
    have hlinked := h.linked hji
    have hsame := hv.origin_follows hji
    have hfb := hv.follows_fallback hji
    obtain ⟨hj, hi⟩ := hv.follows_lt hji
    rw [hstatus, hstatus]
    by_cases horigin : cfg.origin j = cfg.origin d
    · by_cases hjd : j = d
      · subst hjd
        rw [hflight] at hlinked
        have hid : i ≠ j := fun hid => by simp [hid, hflight, Linked] at hlinked
        simp [hid, hsame, hfb, show inf.status i = .pendingSend from hlinked, Linked]
      · rcases h.status_of_inFlight hv hd hj horigin hjd hflight with hfailed | ⟨hpending, hjfb⟩
        · have hstarted := (linked_of_failed hfailed).mp hlinked
          have hne : inf.status j ≠ .pendingSend := hfailed.started.1
          rw [if_neg hjd, if_neg fun hskip => hne hskip.2.1, linked_of_failed hfailed]
          split_ifs with hid hskip
          · exact ⟨nofun, nofun⟩
          · exact absurd hskip.2.1 hstarted.1
          · exact hstarted
        · rw [hpending] at hlinked
          have hid : i ≠ d := by
            rintro rfl
            rw [hflight] at hlinked
            exact nomatch hlinked
          simp [hjd, hid, horigin, hsame, hpending, hjfb, hfb,
            show inf.status i = .pendingSend from hlinked, Linked]
    · have hjd : j ≠ d := fun hjd => horigin (by rw [hjd])
      have hid : i ≠ d := fun hid => horigin (by rw [← hsame, hid])
      simpa [hjd, hid, hsame, horigin] using hlinked
  · intro i hi
    rw [hstatus, hi]
    split_ifs with hid hskip
    · exact nofun
    · exact nomatch hskip.2.2
    · exact h.root hi
  · intro i hi hpayload
    have hid : i ≠ d := by
      rintro rfl
      obtain ⟨ep, hep⟩ := h.getElem? hd
      refine hpayload (payloadOf_skipFallbacks ?_)
      rw [payloadOf_modifyDest hep, if_pos rfl]
      rwa [payloadOf, hep] at hsent
    have hkept : inf.payloadOf i ≠ none := by
      intro hnone
      obtain ⟨ep, hep⟩ := h.getElem? hd
      refine hpayload (payloadOf_skipFallbacks ?_)
      rw [payloadOf_modifyDest hep, if_neg hid, hnone]
    have hready := h.queued i hi hkept
    rw [hstatus, if_neg hid, if_neg]
    · exact hready
    · rintro ⟨_, hpending, _⟩
      rw [hpending] at hready
      exact nomatch hready
  · intro i hi hpending
    have hold : inf.status i = .pendingSend := by
      rw [hstatus] at hpending
      split_ifs at hpending
      exact hpending
    have hsame : (inf.modifyDest d _).payloadOf i = _ :=
      payloadOf_modifyDest_same (f := fun ep => { ep with status := .acked }) (fun _ => rfl) i
    rw [Inflight.acknowledged, payloadOf_skipFallbacks_of_pending hpending, hsame]
    exact h.kept i hi hold
  · intro hmode i j hi hj
    exact h.single hmode i j (h.inFlight_of_acknowledged hv hd hi).1
      (h.inFlight_of_acknowledged hv hd hj).1
  · intro o ho hroot hfirst
    rw [hstatus]
    split_ifs
    · exact nofun
    · exact nofun
    · exact h.begun o ho hroot hfirst

end

/-! ## Advancing -/

section

theorem advance_cases (inf : Inflight P) (d : Nat) :
    (∃ queue, queue ⊆ inf.nextSendQueue ∧ inf.advance d = { inf with nextSendQueue := queue }) ∨
      ∃ next ep queue, inf.mode = .sequential ∧ inf.advanceTo d = some next ∧
        inf.destinations[next]? = some ep ∧ ep.status = .pendingSend ∧
        queue ⊆ inf.nextSendQueue ∧
        inf.advance d = { inf.modifyDest next fun ep => { ep with status := .inFlight } with
          nextSendQueue := queue ++ [next] } := by
  have hmode : inf.mode = .parallel ∨ inf.mode = .sequential := by
    cases inf.mode
    · exact .inl rfl
    · exact .inr rfl
  obtain hmode | hmode := hmode
  · have hsame : inf.advance d = inf := by rw [advance, hmode]
    exact .inl ⟨inf.nextSendQueue, List.Subset.refl _, hsame⟩
  · have hsub : inf.nextSendQueue.filter (· ≠ d) ⊆ inf.nextSendQueue := filter_subset_self _
    cases hto : inf.advanceTo d with
    | none => exact .inl ⟨_, hsub, by rw [advance, hmode, hto]⟩
    | some next =>
      have hnext : inf.nextPending = some next := by
        rw [advanceTo] at hto
        split_ifs at hto
        exact hto
      obtain ⟨hlt, hpending, -⟩ := findIdx?_eq_some_iff_getElem.mp hnext
      simp only [Bool.and_eq_true, decide_eq_true_eq] at hpending
      exact .inr ⟨next, _, _, hmode, rfl, getElem?_eq_getElem hlt, hpending.1, hsub,
        by rw [advance, hmode, hto]⟩

theorem Reshaped.advance (inf : Inflight P) (d : Nat) : Reshaped inf (inf.advance d) := by
  obtain ⟨queue, -, heq⟩ | ⟨next, ep, queue, -, -, -, -, -, heq⟩ := advance_cases inf d
  · rw [heq]
    exact (Reshaped.refl inf).withQueue queue
  · rw [heq]
    exact (Reshaped.modifyDest (f := fun ep => { ep with status := .inFlight })
      fun _ => rfl).withQueue _

/-- Advancing may start a destination that was waiting. -/
theorem status_advance (inf : Inflight P) (d i : Nat) :
    (inf.advance d).status i = inf.status i ∨
      inf.status i = .pendingSend ∧ (inf.advance d).status i = .inFlight := by
  obtain ⟨queue, -, heq⟩ | ⟨next, ep, queue, -, -, hep, hpending, -, heq⟩ := advance_cases inf d
  · rw [heq]
    exact .inl rfl
  · have hstatus : (inf.advance d).status i = if i = next then .inFlight else inf.status i := by
      rw [heq]
      exact status_modifyDest hep
    rw [hstatus]
    split_ifs with hi
    · exact .inr ⟨by rw [hi, status_eq hep, hpending], rfl⟩
    · exact .inl rfl

theorem payloadOf_advance (inf : Inflight P) (d i : Nat) :
    (inf.advance d).payloadOf i = inf.payloadOf i := by
  obtain ⟨queue, -, heq⟩ | ⟨next, ep, queue, -, -, -, -, -, heq⟩ := advance_cases inf d
  · rw [heq]
    rfl
  · rw [heq]
    exact payloadOf_modifyDest_same
      (f := fun ep => { ep with status := .inFlight }) (fun _ => rfl) i

/-- A chain that has begun, with a destination in reserve, has one in flight. -/
theorem Sound.exists_inFlight (h : Sound cfg inf) {o : Nat}
    (hbegun : inf.status o ≠ .pendingSend) (hpath : Relation.ReflTransGen cfg.Follows o i)
    (hpending : inf.status i = .pendingSend) : ∃ a, inf.status a = .inFlight := by
  induction hpath with
  | refl => exact absurd hpending hbegun
  | @tail b c _ hbc ih =>
    have hlinked := h.linked hbc
    rw [hpending] at hlinked
    cases hb : inf.status b with
    | pendingSend => exact ih hb
    | inFlight => exact ⟨b, hb⟩
    | acked | skipped =>
      rw [hb] at hlinked
      exact nomatch hlinked
    | nacked | timedOut =>
      rw [hb] at hlinked
      exact absurd rfl hlinked.1

include hv

/-- If no destination is in flight, the first one that was not sent to is an origin. -/
theorem Sound.nextPending_origin (h : Sound cfg inf) (hmode : cfg.mode = .sequential)
    (hbehind : cfg.ReservesBehind) (hidle : ∀ i, inf.status i ≠ .inFlight) {next : Nat}
    (hnext : inf.nextPending = some next) : cfg.isFallback next = false := by
  by_contra hfb
  rw [Bool.not_eq_false] at hfb
  obtain ⟨hlt, hpending, hfirst⟩ := findIdx?_eq_some_iff_getElem.mp hnext
  simp only [Bool.and_eq_true, decide_eq_true_eq] at hpending
  have hstatus : inf.status next = .pendingSend :=
    (status_eq (getElem?_eq_getElem hlt)).trans hpending.1
  have hcount : next < cfg.count := h.length ▸ hlt
  have horigin := hv.origin_lt hcount
  have hbegun : inf.status (cfg.origin next) ≠ .pendingSend := by
    rcases hbehind hmode next hfb with hbefore | hfirst'
    · intro hwaits
      -- the origin comes first in the list and would have been found
      have hep := getElem?_eq_getElem (h.length ▸ horigin)
      have hpayload := h.kept _ horigin hwaits
      rw [payloadOf, hep, bind_some] at hpayload
      rw [status_eq hep] at hwaits
      have hnot := hfirst (cfg.origin next) hbefore
      simp [hwaits, Option.isSome_iff_ne_none.mpr hpayload] at hnot
    · exact h.begun _ horigin (hv.origin_origin hcount) hfirst'
  obtain ⟨a, ha⟩ := h.exists_inFlight hbegun (hv.reached hcount) hstatus
  exact hidle a ha

/-- Advancing keeps a record sound if it does not reach for a fallback. -/
theorem Sound.advance (h : Sound cfg inf)
    (hidle : cfg.mode = .sequential → ∀ i, inf.status i ≠ .inFlight)
    (hreserve : ∀ next, inf.mode = .sequential → inf.advanceTo d = some next →
      cfg.isFallback next = false) : Sound cfg (inf.advance d) := by
  obtain ⟨queue, hsub, heq⟩ | ⟨next, ep, queue, hmode, hto, hep, hpending, hsub, heq⟩ :=
    advance_cases inf d
  · rw [heq]
    exact h.reshape ((Reshaped.refl inf).withQueue queue) h.linked h.root
      (fun i hi => h.queued i (hsub hi)) h.kept h.single h.begun
  · have hnext := hreserve next hmode hto
    have hstatus : ∀ i, (inf.advance d).status i =
        if i = next then .inFlight else inf.status i := by
      intro i
      rw [heq]
      exact status_modifyDest hep
    have hold : inf.status next = .pendingSend := by rw [status_eq hep, hpending]
    refine h.reshape (.advance inf d) ?_ ?_ ?_ ?_ ?_ ?_
    · intro j i hji
      have hi : i ≠ next := by
        rintro rfl
        exact hv.no_follows hnext j hji
      have hlinked := h.linked hji
      rw [hstatus, hstatus, if_neg hi]
      split_ifs with hj
      · rwa [hj, hold] at hlinked
      · exact hlinked
    · intro i hi
      rw [hstatus]
      split_ifs
      · exact nofun
      · exact h.root hi
    · intro i hi hpayload
      rw [hstatus]
      split_ifs with hinext
      · exact .inl rfl
      · rw [payloadOf_advance] at hpayload
        rw [heq] at hi
        rw [mem_append, mem_singleton, or_iff_left hinext] at hi
        exact h.queued i (hsub hi) hpayload
    · intro i hi hwaits
      rw [hstatus] at hwaits
      rw [payloadOf_advance]
      split_ifs at hwaits
      exact h.kept i hi hwaits
    · intro hseq i j hi hj
      rw [hstatus] at hi hj
      split_ifs at hi hj with hi' hj' hj'
      · rw [hi', hj']
      · exact absurd hj (hidle hseq j)
      · exact absurd hi (hidle hseq i)
      · exact h.single hseq i j hi hj
    · intro o ho hroot hfirst
      rw [hstatus]
      split_ifs
      · exact nofun
      · exact h.begun o ho hroot hfirst

end

/-! ## A failure -/

section

variable {s : DestinationStatus}

/-- The record with destination `d` failed. -/
def failed (inf : Inflight P) (d : Nat) (s : DestinationStatus) : Inflight P :=
  inf.modifyDest d fun ep => { ep with status := s }

theorem Sound.status_failed (h : Sound cfg inf) (hd : d < cfg.count) (i : Nat) :
    (inf.failed d s).status i = if i = d then s else inf.status i := by
  obtain ⟨ep, hep⟩ := h.getElem? hd
  exact status_modifyDest hep

theorem payloadOf_failed (i : Nat) : (inf.failed d s).payloadOf i = inf.payloadOf i :=
  payloadOf_modifyDest_same (f := fun ep => { ep with status := s }) (fun _ => rfl) i

theorem Reshaped.failed : Reshaped inf (inf.failed d s) :=
  .modifyDest fun _ => rfl

/-- If the last destination of a chain has failed, the whole chain has. -/
theorem Sound.chain_failed (hv : cfg.Valid) (h : Sound cfg inf) (hd : d < cfg.count)
    (hfailed : (inf.status d).Failed) (hlast : ∀ i, ¬cfg.Follows d i) (hi : i < cfg.count)
    (horigin : cfg.origin i = cfg.origin d) : (inf.status i).Failed := by
  rcases hv.comparable hi hd horigin with hid | hdi
  · rcases Relation.reflTransGen_iff_eq_or_transGen.mp hid with heq | hid
    · rwa [← heq]
    · exact h.failed_of_started hfailed.started hid
  · rcases Relation.ReflTransGen.cases_head hdi with heq | ⟨k, hdk, _⟩
    · rwa [← heq]
    · exact absurd hdk (hlast k)

variable {fb : Nat} {timeoutAt : Option Nat}

theorem Reshaped.trigger : Reshaped inf (inf.trigger fb timeoutAt) := by
  have hmodify : Reshaped inf (inf.modifyDest fb fun ep =>
      { ep with status := .inFlight, timeoutAt }) :=
    .modifyDest fun _ => rfl
  rw [Inflight.trigger]
  cases inf.mode with
  | parallel => exact hmodify
  | sequential => exact hmodify.withQueue [fb]

theorem status_trigger (hfb : fb < inf.destinations.length) (i : Nat) :
    (inf.trigger fb timeoutAt).status i = if i = fb then .inFlight else inf.status i := by
  have hmodify := status_modifyDest (i := i)
      (f := fun ep => { ep with status := .inFlight, timeoutAt })
    (getElem?_eq_getElem hfb)
  rw [trigger]
  cases inf.mode <;> exact hmodify

theorem payloadOf_trigger (i : Nat) : (inf.trigger fb timeoutAt).payloadOf i = inf.payloadOf i := by
  have hmodify : (inf.modifyDest fb _).payloadOf i = _ := payloadOf_modifyDest_same
    (f := fun ep => { ep with status := .inFlight, timeoutAt }) (fun _ => rfl) i
  rw [trigger]
  cases inf.mode <;> exact hmodify

theorem queue_trigger :
    (inf.trigger fb timeoutAt).nextSendQueue = inf.nextSendQueue ∨
      (inf.trigger fb timeoutAt).nextSendQueue = [fb] := by
  rw [trigger]
  cases inf.mode
  · exact .inl rfl
  · exact .inr rfl

/-- The fallback of a destination in flight is held in reserve. -/
theorem Sound.follows_pending (h : Sound cfg inf) (hflight : inf.status d = .inFlight)
    (hfb : cfg.Follows d fb) : inf.status fb = .pendingSend ∧ fb ≠ d := by
  have hlinked := h.linked hfb
  rw [hflight] at hlinked
  exact ⟨hlinked, fun hfbd => by simp [hfbd, hflight, Linked] at hlinked⟩

include hv

theorem Sound.pendingFallback_eq (h : Sound cfg inf) (hd : d < cfg.count)
    (hflight : inf.status d = .inFlight) :
    (inf.failed d s).pendingFallback cfg d = cfg.fallbackForDest[d]?.join := by
  rw [pendingFallback]
  cases hfb : cfg.fallbackForDest[d]?.join with
  | none => rfl
  | some fb =>
    obtain ⟨hpending, hne⟩ := h.follows_pending hflight hfb
    have hstatus : (inf.failed d s).statusOf fb = some .pendingSend := by
      rw [statusOf_eq_some, h.status_failed hd, if_neg hne, hpending]
      rw [Reshaped.failed.length, h.length]
      exact (hv.follows_lt hfb).2
    rw [filter_some_pos (by simpa using hstatus)]

/-- The record after a failure of `d`, which may have started a fallback. -/
structure FailedRecord (cfg : ValidatedConfig) (inf inf' : Inflight P) (d : Nat)
    (s : DestinationStatus) : Prop where
  sound : inf'.Sound cfg
  reshaped : Inflight.Reshaped inf inf'
  failed : inf'.status d = s
  other : ∀ i ≠ d, inf'.status i = inf.status i ∨
    inf.status i = .pendingSend ∧ inf'.status i = .inFlight
  payload : ∀ i, inf'.payloadOf i = inf.payloadOf i

/-- A destination fails, and its fallback is started if it has one. -/
theorem Sound.fail (h : Sound cfg inf) (hs : s.Failed) (hflight : inf.status d = .inFlight)
    (hsent : s = .timedOut ∨ inf.payloadOf d = none) (hr : Reshaped inf inf')
    (hstatus : ∀ i, inf'.status i =
      if cfg.Follows d i then .inFlight else if i = d then s else inf.status i)
    (hpayload : ∀ i, inf'.payloadOf i = inf.payloadOf i)
    (hqueue : ∀ i ∈ inf'.nextSendQueue, i ∈ inf.nextSendQueue ∨ cfg.Follows d i) :
    FailedRecord cfg inf inf' d s := by
  have hself : ¬cfg.Follows d d := fun hdd => (h.follows_pending hflight hdd).2 rfl
  refine ⟨h.reshape hr ?_ ?_ ?_ ?_ ?_ ?_, hr, ?_, fun i hi => ?_, hpayload⟩
  · intro j i hji
    have hlinked := h.linked hji
    rw [hstatus, hstatus]
    by_cases hjd : j = d
    · rw [hjd] at hji ⊢
      rw [if_pos hji, if_neg hself, if_pos rfl]
      exact (linked_of_failed hs).mpr ⟨nofun, nofun⟩
    · have hi : ¬cfg.Follows d i := fun hi => hjd (hv.follows_left hji hi)
      rw [if_neg hi, if_neg hjd]
      split_ifs with hj hid hid
      · rw [(h.follows_pending hflight hj).1, hid, hflight] at hlinked
        exact nomatch hlinked
      · rwa [(h.follows_pending hflight hj).1] at hlinked
      · rw [hid, hflight] at hlinked
        exact (linked_of_failed (hlinked.failed ⟨nofun, nofun⟩)).mpr hs.started
      · exact hlinked
  · intro i hi
    rw [hstatus]
    split_ifs
    · exact nofun
    · exact hs.started.2
    · exact h.root hi
  · intro i hi hsome
    rw [hpayload] at hsome
    rw [hstatus]
    split_ifs with hifb hid
    · exact .inl rfl
    · obtain hs | hnone := hsent
      · exact .inr hs
      · rw [hid] at hsome
        exact absurd hnone hsome
    · exact h.queued i ((hqueue i hi).resolve_right hifb) hsome
  · intro i hi hwaits
    rw [hstatus] at hwaits
    rw [hpayload]
    split_ifs at hwaits
    · exact absurd hwaits hs.started.1
    · exact h.kept i hi hwaits
  · intro hmode
    -- only the fallback can be in flight now
    have honly : ∀ i, inf'.status i = .inFlight → cfg.Follows d i := by
      intro i hi
      rw [hstatus] at hi
      split_ifs at hi with hfb hid
      · exact hfb
      · rw [hi] at hs
        exact hs.elim nofun nofun
      · exact absurd (h.single hmode i d hi hflight) hid
    intro i j hi hj
    exact Option.some.inj ((honly i hi).symm.trans (honly j hj))
  · intro o ho hroot hfirst
    rw [hstatus]
    split_ifs
    · exact nofun
    · exact hs.started.1
    · exact h.begun o ho hroot hfirst
  · rw [hstatus, if_neg hself, if_pos rfl]
  · rw [hstatus, if_neg hi]
    split_ifs with hifb
    · exact .inr ⟨(h.follows_pending hflight hifb).1, rfl⟩
    · exact .inl rfl

end

end Inflight

/-! # The invariant of the request table

Every request that the processor has taken on is in one of three situations (`RequestInv`): it is in
the table and waits, with a record that agrees with the trace; it is in the table of the fast path
and waits; or it has had its outcome, which was right and which nothing can make wrong any more.

A step is about one request at a time, so that an invariant over all of them is kept by looking at
that one (`Inv.update`). -/

variable (cfg : ValidatedConfig)

/-- The record of request `r` agrees with the trace and with the messages that were sent. -/
structure Tracked (t : List (Event P)) (unanswered : List CallData) (r : Nat) (inf : Inflight P) :
    Prop where
  sound : inf.Sound cfg
  acked : ∀ i, inf.status i = .acked ↔ Acked t r i
  timedOut : ∀ i, inf.status i = .timedOut ↔ TimedOut t r i
  nacked : ∀ i, inf.status i = .nacked → Nacked t r i
  held : ∀ i, buildCallData r i ∈ unanswered →
    inf.payloadOf i = none ∧ (inf.status i = .inFlight ∨ inf.status i = .timedOut)
  payload : ∀ i m, inf.payloadOf i = some m → m.callData = buildCallData r i

/-- The request has to wait still, and the origins that were acked are counted. -/
structure Unsettled (t : List (Event P)) (r : Nat) (inf : Inflight P) : Prop where
  waits : ¬Succeeded cfg t r
  counted : cfg.awaitAck = .all → ∀ o, inf.completedOrigins.getLsbD o = true ↔
    ∃ i < cfg.count, cfg.origin i = o ∧ inf.status i = .acked

/-- The outcome was right, and no answer that may still come makes it wrong. -/
def Settled (t : List (Event P)) (unanswered : List CallData) (r : Nat) : Outcome P → Prop
  | .ack _ => Succeeded cfg t r
  | .nack _ _ => ∃ o, Required cfg o ∧ ∀ d < cfg.count, cfg.origin d = o →
      Failed t r d ∧ ¬Acked t r d ∧ (TimedOut t r d ∨ buildCallData r d ∉ unanswered)

/-- What holds of request `r`, by the entries it has in the two tables and the outcomes it had. -/
inductive RequestInv (t : List (Event P)) (unanswered : List CallData) (r : Nat) :
    Option (Inflight P) → Option P → List (Outcome P) → P → Prop
  | inflight {inf : Inflight P} (slim : cfg.useSlimPrimary = false)
      (tracked : Tracked cfg t unanswered r inf) (unsettled : Unsettled cfg t r inf) :
      RequestInv t unanswered r (some inf) none [] inf.originalPdata
  | slim {data : P} (slim : cfg.useSlimPrimary = true) (untimed : ∀ d, ¬TimedOut t r d)
      (waits : ¬Acked t r cfg.primaryIndex) : RequestInv t unanswered r none (some data) [] data
  | settled {outcome : Outcome P} (settled : Settled cfg t unanswered r outcome) :
      RequestInv t unanswered r none none [outcome] outcome.data

/-- **The invariant.**  `upstream` are the outcomes that were sent or are about to be. -/
structure Inv (p : Processor P) (unanswered : List CallData) (t : List (Event P))
    (upstream : Nat → List (Outcome P)) : Prop where
  nextId : p.nextId = (requests t).length + 1
  nodup : unanswered.Nodup
  held : ∀ c ∈ unanswered, ∃ r d, c = buildCallData r d ∧ 1 ≤ r ∧ r < p.nextId ∧ d < cfg.count
  known : ∀ r data, 1 ≤ r → (requests t)[r - 1]? = some data →
    RequestInv cfg t unanswered r (p.inflight.get? r) (p.slimInflight.get? r) (upstream r) data
  unknown : ∀ r, r = 0 ∨ p.nextId ≤ r → p.inflight.get? r = none ∧ p.slimInflight.get? r = none ∧
    upstream r = [] ∧ ∀ e ∈ t, ¬Event.Concerns r e

variable {cfg}

/-! ## Requests that a step is not about -/

variable {r : Nat} {t es : List (Event P)} {U U' : List CallData}

theorem succeeded_quiet (hes : ∀ e ∈ es, ¬Event.Concerns r e) :
    Succeeded cfg (t ++ es) r ↔ Succeeded cfg t r := by
  simp [Succeeded, acked_quiet hes]

theorem Tracked.frame {inf : Inflight P} (h : Tracked cfg t U r inf)
    (hes : ∀ e ∈ es, ¬Event.Concerns r e)
    (hU : ∀ d, buildCallData r d ∈ U' → buildCallData r d ∈ U) :
    Tracked cfg (t ++ es) U' r inf where
  sound := h.sound
  acked := fun i => by rw [h.acked, acked_quiet hes]
  timedOut := fun i => by rw [h.timedOut, timedOut_quiet hes]
  nacked := fun i hi => (nacked_quiet hes).mpr (h.nacked i hi)
  held := fun i hi => h.held i (hU i hi)
  payload := h.payload

theorem Unsettled.frame {inf : Inflight P} (h : Unsettled cfg t r inf)
    (hes : ∀ e ∈ es, ¬Event.Concerns r e) : Unsettled cfg (t ++ es) r inf where
  waits := by rw [succeeded_quiet hes]; exact h.waits
  counted := h.counted

theorem Settled.frame {outcome : Outcome P} (h : Settled cfg t U r outcome)
    (hes : ∀ e ∈ es, ¬Event.Concerns r e)
    (hU : ∀ d, buildCallData r d ∈ U' → buildCallData r d ∈ U) :
    Settled cfg (t ++ es) U' r outcome := by
  cases outcome with
  | ack accepted => exact (succeeded_quiet hes).mpr h
  | nack refused refusal =>
    obtain ⟨o, ho, hchain⟩ := h
    refine ⟨o, ho, fun d hd hdo => ?_⟩
    rw [Failed, nacked_quiet hes, timedOut_quiet hes, acked_quiet hes]
    obtain ⟨hfailed, hacked, hlate⟩ := hchain d hd hdo
    exact ⟨hfailed, hacked, hlate.imp_right fun hnot hmem => hnot (hU d hmem)⟩

theorem Settled.quiet {outcome : Outcome P} (h : Settled cfg t U r outcome)
    (hes : ∀ e ∈ es, ¬Event.Concerns r e) : Settled cfg (t ++ es) U r outcome :=
  h.frame hes fun _ hmem => hmem

theorem RequestInv.frame {inf : Option (Inflight P)} {slim : Option P} {up : List (Outcome P)}
    {data : P} (h : RequestInv cfg t U r inf slim up data) (hes : ∀ e ∈ es, ¬Event.Concerns r e)
    (hU : ∀ d, buildCallData r d ∈ U' → buildCallData r d ∈ U) :
    RequestInv cfg (t ++ es) U' r inf slim up data := by
  cases h with
  | inflight hslim htracked hunsettled =>
    exact .inflight hslim (htracked.frame hes hU) (hunsettled.frame hes)
  | slim hslim huntimed hwaits =>
    refine .slim hslim (fun d => ?_) ?_
    · rw [timedOut_quiet hes]
      exact huntimed d
    · rwa [acked_quiet hes]
  | settled hsettled => exact .settled (hsettled.frame hes hU)

/-- Only the entries of request `r` differ, the deadlines and the clock apart. -/
structure Changes (r : Nat) (p p' : Processor P) : Prop where
  nextId : p'.nextId = p.nextId
  inflight : ∀ r' ≠ r, p'.inflight.get? r' = p.inflight.get? r'
  slimInflight : ∀ r' ≠ r, p'.slimInflight.get? r' = p.slimInflight.get? r'

theorem Changes.refl (r : Nat) (p : Processor P) : Changes r p p :=
  ⟨rfl, fun _ _ => rfl, fun _ _ => rfl⟩

theorem Changes.trans {p p' p'' : Processor P} (h : Changes r p p')
    (h' : Changes r p' p'') : Changes r p p'' where
  nextId := h'.nextId.trans h.nextId
  inflight := fun r' hr => (h'.inflight r' hr).trans (h.inflight r' hr)
  slimInflight := fun r' hr => (h'.slimInflight r' hr).trans (h.slimInflight r' hr)

theorem buildCallData_inj {r r' d d' : Nat} (h : buildCallData r d = buildCallData r' d') :
    r = r' ∧ d = d' := by
  simpa [buildCallData] using h

section

variable {p p' : Processor P}
  {up up' : Nat → List (Outcome P)}

theorem requests_append : requests (t ++ es) = requests t ++ requests es := filterMap_append

theorem outcomes_append : outcomes (t ++ es) r = outcomes t r ++ outcomes es r :=
  filterMap_append

theorem requests_did (effects : List (Effect P)) : requests (effects.map .did) = [] := by
  rw [requests, filterMap_eq_nil_iff]
  intro e he
  obtain ⟨effect, _, rfl⟩ := mem_map.mp he
  rfl

theorem subscriptions_append (effects effects' : List (Effect P)) :
    subscriptions (effects ++ effects') = subscriptions effects ++ subscriptions effects' :=
  filterMap_append

/-- A step that is about request `r` only has to be looked at there. -/
theorem Inv.update (h : Inv cfg p U t up) (hp : Changes r p p') (hup : ∀ r' ≠ r, up' r' = up r')
    (hes : ∀ r' ≠ r, ∀ e ∈ es, ¬Event.Concerns r' e) (hreq : requests es = []) (hnodup : U'.Nodup)
    (hU : ∀ c ∈ U', c ∈ U ∨ ∃ d < cfg.count, c = buildCallData r d)
    (hr : 1 ≤ r) (hlt : r < p.nextId) (hnew : ∀ data, (requests t)[r - 1]? = some data →
      RequestInv cfg (t ++ es) U' r (p'.inflight.get? r) (p'.slimInflight.get? r) (up' r) data) :
    Inv cfg p' U' (t ++ es) up' where
  nextId := by rw [hp.nextId, h.nextId, requests_append, hreq, append_nil]
  nodup := hnodup
  held := by
    intro c hc
    rw [hp.nextId]
    obtain hc | ⟨d, hd, rfl⟩ := hU c hc
    · exact h.held c hc
    · exact ⟨r, d, rfl, hr, hlt, hd⟩
  known := by
    intro r' data hr' hdata
    rw [requests_append, hreq, append_nil] at hdata
    by_cases heq : r' = r
    · subst heq
      exact hnew data hdata
    · rw [hp.inflight r' heq, hp.slimInflight r' heq, hup r' heq]
      refine (h.known r' data hr' hdata).frame (hes r' heq) fun d hd => ?_
      obtain hd | ⟨d', _, hd'⟩ := hU _ hd
      · exact hd
      · exact absurd (buildCallData_inj hd').1 heq
  unknown := by
    intro r' hr'
    rw [hp.nextId] at hr'
    have heq : r' ≠ r := by omega
    obtain ⟨hinf, hslim, hout, hquiet⟩ := h.unknown r' hr'
    rw [hp.inflight r' heq, hp.slimInflight r' heq, hup r' heq]
    exact ⟨hinf, hslim, hout, forall_mem_append.mpr ⟨hquiet, hes r' heq⟩⟩

/-- The request that a message belongs to is known. -/
theorem Inv.of_held (h : Inv cfg p U t up) {d : Nat} (hd : buildCallData r d ∈ U) :
    1 ≤ r ∧ r < p.nextId ∧ d < cfg.count ∧ ∃ data, (requests t)[r - 1]? = some data ∧
      RequestInv cfg t U r (p.inflight.get? r) (p.slimInflight.get? r) (up r) data := by
  obtain ⟨r', d', heq, hr, hlt, hd⟩ := h.held _ hd
  obtain ⟨rfl, rfl⟩ := buildCallData_inj heq
  have hidx : r - 1 < (requests t).length := by
    have := h.nextId
    omega
  exact ⟨hr, hlt, hd, _, getElem?_eq_getElem hidx, h.known r _ hr (getElem?_eq_getElem hidx)⟩

end

/-! ## Dispatch -/

section

variable {p : Processor P} {U : List CallData} {t : List (Event P)}
  {inf inf' : Inflight P} {effects : List (Effect P)} {sent : List Nat} (clock : Nat → Nat)

section

variable (h : Inflight.Dispatched cfg inf inf' effects sent)

include h

theorem Inflight.Dispatched.mem_effects {e : Effect P} (he : e ∈ effects) :
    ∃ (i : Nat) (m : Subscribed P), e = .sendMessageTo (cfg.portOf i) m.data m.callData := by
  rw [h.effects] at he
  obtain ⟨i, _, hi⟩ := mem_filterMap.mp he
  obtain ⟨m, _, rfl⟩ := Option.map_eq_some_iff.mp hi
  exact ⟨i, m, rfl⟩

/-- Messages to destinations are no news about any request. -/
theorem Inflight.Dispatched.quiet (r : Nat) : ∀ e ∈ effects.map Event.did, ¬Event.Concerns r e := by
  intro e he
  obtain ⟨effect, heffect, rfl⟩ := mem_map.mp he
  obtain ⟨i, m, rfl⟩ := h.mem_effects heffect
  exact id

theorem Inflight.Dispatched.outcomes (r : Nat) : outcomes (effects.map Event.did) r = [] := by
  rw [Fanout.outcomes, filterMap_eq_nil_iff]
  intro e he
  obtain ⟨effect, heffect, rfl⟩ := mem_map.mp he
  obtain ⟨i, m, rfl⟩ := h.mem_effects heffect
  rfl

theorem Inflight.Dispatched.subscriptions
    (hpayload : ∀ i m, inf.payloadOf i = some m → m.callData = buildCallData r i) :
    subscriptions effects = sent.map (buildCallData r) := by
  rw [h.effects, Fanout.subscriptions, filterMap_filterMap]
  have hready := h.ready
  clear h
  induction sent with
  | nil => rfl
  | cons i sent ih =>
    obtain ⟨m, hm⟩ := Option.ne_none_iff_exists'.mp (hready i mem_cons_self)
    rw [filterMap_cons, hm, map_cons, ← ih fun j hj => hready j (mem_cons_of_mem _ hj)]
    simp [hpayload i m hm]

end

/-- A dispatch keeps the record in step with the trace. -/
theorem Tracked.dispatched (h : Tracked cfg t U r inf)
    (hd : Inflight.Dispatched cfg inf inf' effects sent) (hsub : sent ⊆ inf.toSend) :
    Tracked cfg (t ++ effects.map .did) (U ++ subscriptions effects) r inf' where
  sound := hd.sound h.sound hsub
  acked := fun i => by rw [hd.status, h.acked, acked_quiet (hd.quiet r)]
  timedOut := fun i => by rw [hd.status, h.timedOut, timedOut_quiet (hd.quiet r)]
  nacked := fun i hi => by
    rw [hd.status] at hi
    exact (nacked_quiet (hd.quiet r)).mpr (h.nacked i hi)
  held := fun i hi => by
    rw [hd.status, hd.payload]
    rcases mem_append.mp hi with hi | hi
    · obtain ⟨hnone, hstatus⟩ := h.held i hi
      exact ⟨by rw [hnone, ite_self], hstatus⟩
    · rw [hd.subscriptions h.payload] at hi
      obtain ⟨j, hj, heq⟩ := mem_map.mp hi
      obtain ⟨-, rfl⟩ := buildCallData_inj heq
      exact ⟨if_pos hj, (hd.status_of_sent h.sound hsub hj).2⟩
  payload := fun i m hm => by
    rw [hd.payload] at hm
    split_ifs at hm
    exact h.payload i m hm

theorem Unsettled.dispatched (h : Unsettled cfg t r inf)
    (hd : Inflight.Dispatched cfg inf inf' effects sent) :
    Unsettled cfg (t ++ effects.map .did) r inf' where
  waits := by
    rw [succeeded_quiet (hd.quiet r)]
    exact h.waits
  counted := fun hawait o => by
    have hsame : inf'.completedOrigins = inf.completedOrigins := by rw [← hd.reshaped.rest]
    simp only [hsame, hd.status]
    exact h.counted hawait o

section

variable (h : Tracked cfg t U r inf) (hd : Inflight.Dispatched cfg inf inf' effects sent)
include h hd

/-- No message is sent twice. -/
theorem Tracked.nodup_dispatched (hU : U.Nodup) : (U ++ subscriptions effects).Nodup := by
  rw [hd.subscriptions h.payload]
  refine nodup_append.mpr ⟨hU, hd.nodup.map fun i j hij => (buildCallData_inj hij).2, ?_⟩
  rintro c hc c' hc' rfl
  obtain ⟨i, hi, rfl⟩ := mem_map.mp hc'
  exact hd.ready i hi (h.held i hc).1

theorem Tracked.sent_known (hsub : sent ⊆ inf.toSend) {c : CallData}
    (hc : c ∈ sent.map (buildCallData r)) : ∃ i < cfg.count, c = buildCallData r i := by
  obtain ⟨i, hi, rfl⟩ := mem_map.mp hc
  exact ⟨i, (hd.status_of_sent h.sound hsub hi).1, rfl⟩

end

theorem Processor.dispatch_spec (hinf : p.inflight.get? r = some inf) :
    ∃ inf' sent, sent ⊆ inf.toSend ∧
      Inflight.Dispatched cfg inf inf' (p.dispatch cfg clock r).2 sent ∧
      Changes r p (p.dispatch cfg clock r).1 ∧
      (p.dispatch cfg clock r).1.inflight.get? r = some inf' ∧
      (p.dispatch cfg clock r).1.slimInflight = p.slimInflight := by
  obtain ⟨sent, hsub, hd⟩ := Inflight.dispatchReady_dispatched clock r inf p.clockReads
  rw [dispatch, hinf]
  refine ⟨_, sent, hsub, hd, ⟨rfl, fun r' hr => ?_, fun _ _ => rfl⟩, ?_, rfl⟩
  · simp [hr]
  · simp

end

end OtapDataflow.Fanout
