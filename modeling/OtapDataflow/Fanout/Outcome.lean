import OtapDataflow.Fanout.Replies

/-! # Timeouts and new requests

The other handlers keep the invariant as well: the timer, which fails every destination whose
deadline has passed and refuses the requests that have no destination left, and the arrival of a
request. -/

namespace OtapDataflow.Fanout

open Node List Processor Inflight

variable {P : Type} {cfg : ValidatedConfig} {U : List CallData} {up : Nat → List (Outcome P)}

section

variable {p p' : Processor P} {t es : List (Event P)} (clock : Nat → Nat)

/-- Deadlines, the clock and the timer are not part of the invariant. -/
theorem Inv.congr (h : Inv cfg p U t up) (hid : p'.nextId = p.nextId)
    (hinf : p'.inflight.get? = p.inflight.get?)
    (hslim : p'.slimInflight.get? = p.slimInflight.get?) : Inv cfg p' U t up where
  nextId := hid.trans h.nextId
  nodup := h.nodup
  held := by
    rw [hid]
    exact h.held
  known := by
    rw [hinf, hslim]
    exact h.known
  unknown := by
    rw [hid, hinf, hslim]
    exact h.unknown

/-- Events that concern no request. -/
theorem Inv.quiet (h : Inv cfg p U t up) (hes : ∀ r, ∀ e ∈ es, ¬Event.Concerns r e)
    (hreq : requests es = []) : Inv cfg p U (t ++ es) up where
  nextId := by rw [requests_append, hreq, append_nil, h.nextId]
  nodup := h.nodup
  held := h.held
  known := by
    intro r data hr hdata
    rw [requests_append, hreq, append_nil] at hdata
    exact (h.known r data hr hdata).frame (hes r) fun _ hmem => hmem
  unknown := by
    intro r hr
    obtain ⟨hinf, hslim, hout, hquiet⟩ := h.unknown r hr
    exact ⟨hinf, hslim, hout, forall_mem_append.mpr ⟨hquiet, hes r⟩⟩

theorem outcomes_received (input : Input P) (r : Nat) :
    outcomes [(.received input : Event P)] r = [] := rfl

/-- An input that answers no message. -/
theorem After.of_inv {input : Input P} {result : Processor P × List (Effect P)}
    (up : Nat → List (Outcome P)) (hanswers : input.answers = none)
    (h : Inv cfg result.1 (U ++ subscriptions result.2)
      (t ++ [.received input] ++ result.2.map .did) up)
    (hup : ∀ r, up r = outcomes t r ++ outcomes (result.2.map .did) r) :
    After cfg U t input result := by
  have hout : outcomes (t ++ [.received input] ++ result.2.map .did) = up := by
    funext r
    rw [hup, outcomes_append, outcomes_append, outcomes_received, append_nil]
  rw [After, hanswers]
  rwa [← hout, append_assoc, singleton_append] at h

theorem After.idle {input : Input P} (h : Inv cfg p U t (outcomes t))
    (hanswers : input.answers = none)
    (hrequest : Event.request? (.received input) = none) : After cfg U t input (p, []) := by
  have hquiet : ∀ r, ∀ e ∈ [(.received input : Event P)], ¬Event.Concerns r e := by
    refine fun r => forall_mem_singleton.mpr ?_
    cases input with
    | ack | nack => exact nomatch hanswers
    | pdata => exact nomatch hrequest
    | timerTick | otherControl => exact id
  have hreq : requests [(.received input : Event P)] = [] := by
    rw [requests, filterMap_cons, hrequest]
    rfl
  refine After.of_inv (outcomes t) hanswers ?_ fun r => (append_nil _).symm
  simpa [subscriptions] using h.quiet hquiet hreq

/-- A request in the table is known, and waits. -/
theorem Inv.of_inflight (h : Inv cfg p U t up) {r : Nat} {inf : Inflight P}
    (hinf : p.inflight.get? r = some inf) :
    1 ≤ r ∧ r < p.nextId ∧ p.slimInflight.get? r = none ∧ up r = [] ∧
      (requests t)[r - 1]? = some inf.originalPdata ∧ cfg.useSlimPrimary = false ∧
      Tracked cfg t U r inf ∧ Unsettled cfg t r inf := by
  have hknown : ¬(r = 0 ∨ p.nextId ≤ r) := fun hr => by
    rw [(h.unknown r hr).1] at hinf
    exact nomatch hinf
  have hidx : r - 1 < (requests t).length := by
    have := h.nextId
    omega
  have hdata := getElem?_eq_getElem hidx
  have hreq := h.known r _ (by omega) hdata
  rw [hinf] at hreq
  generalize p.slimInflight.get? r = slot at hreq ⊢
  generalize up r = out at hreq ⊢
  generalize (requests t)[r - 1] = data at hreq hdata
  cases hreq with
  | inflight hfull htracked hunsettled =>
    exact ⟨by omega, by omega, rfl, rfl, hdata, hfull, htracked, hunsettled⟩

theorem Inv.dispatch (h : Inv cfg p U t up) (r : Nat) :
    Inv cfg (p.dispatch cfg clock r).1 (U ++ subscriptions (p.dispatch cfg clock r).2)
      (t ++ (p.dispatch cfg clock r).2.map .did) up := by
  cases hinf : p.inflight.get? r with
  | none =>
    have hnone : p.dispatch cfg clock r = (p, []) := by rw [Processor.dispatch, hinf]
    rw [hnone]
    simpa [subscriptions] using h
  | some inf =>
    obtain ⟨hr, hlt, hslot, hup, hdata, hfull, htracked, hunsettled⟩ := h.of_inflight hinf
    obtain ⟨inf', sent, hsub, hd, hp, hinf', hslim⟩ := dispatch_spec clock hinf
    refine h.update hp (fun _ _ => rfl) (fun r' _ => hd.quiet r') (requests_did _)
      (htracked.nodup_dispatched hd h.nodup) (fun c hc => ?_) hr hlt fun data' hdata' => ?_
    · rw [mem_append, hd.subscriptions htracked.payload] at hc
      exact hc.imp_right (htracked.sent_known hd hsub)
    · rw [hdata] at hdata'
      cases hdata'
      rw [hinf', hslim, hslot, hup, ← hd.reshaped.originalPdata]
      exact .inflight hfull (htracked.dispatched hd hsub) (hunsettled.dispatched hd)

theorem Inv.dispatchAll (h : Inv cfg p U t up) (rs : List Nat) :
    Inv cfg (p.dispatchAll cfg clock rs).1 (U ++ subscriptions (p.dispatchAll cfg clock rs).2)
      (t ++ (p.dispatchAll cfg clock rs).2.map .did) up := by
  induction rs generalizing p U t with
  | nil => simpa [dispatchAll, subscriptions] using h
  | cons r rs ih =>
    have hrest := ih (h.dispatch clock r)
    rwa [append_assoc, append_assoc, ← subscriptions_append, ← map_append] at hrest

theorem Processor.outcomes_dispatch (p : Processor P) (r r' : Nat) :
    outcomes ((p.dispatch cfg clock r).2.map .did) r' = [] := by
  cases hinf : p.inflight.get? r with
  | none =>
    rw [dispatch, hinf]
    rfl
  | some inf =>
    obtain ⟨_, _, _, hd, _⟩ := dispatch_spec clock hinf
    exact hd.outcomes r'

theorem Processor.outcomes_dispatchAll (p : Processor P) (rs : List Nat) (r' : Nat) :
    outcomes ((p.dispatchAll cfg clock rs).2.map .did) r' = [] := by
  induction rs generalizing p with
  | nil => rfl
  | cons r rs ih =>
    rw [dispatchAll, map_append, outcomes_append, outcomes_dispatch, ih]
    rfl

end

/-! ## Timeouts -/

variable {e : Expiry P} {t : List (Event P)}

section

variable (hv : cfg.Valid) (clock : Nat → Nat)

/-- The refusals that are due for request `r`. -/
def due (expired : List (Nat × P × Refusal)) (r : Nat) : List (Outcome P) :=
  expired.filterMap fun n => if n.1 = r then some (.nack n.2.1 n.2.2) else none

/-- The invariant inside the loop: the refusals were decided but not sent. -/
def Expiry.Inv (cfg : ValidatedConfig) (U : List CallData)
    (t : List (Event P)) (e : Expiry P) : Prop :=
  Fanout.Inv cfg e.proc U (t ++ e.effects.map .did) (fun r => outcomes t r ++ due e.expired r) ∧
    subscriptions e.effects = [] ∧ ∀ r, outcomes (e.effects.map .did) r = []

section

variable {dueAt r d : Nat} {inf : Inflight P} {ep : DestinationState P}
  (hinf : e.proc.inflight.get? r = some inf)
  (hep : inf.destinations[d]? = some ep)

include hinf hep

theorem expireOne_stale (h : ¬(ep.status = .inFlight ∧ ep.timeoutAt = some dueAt)) :
    expireOne cfg clock e ⟨dueAt, r, d⟩ = e := by
  simp [expireOne, hinf, hep, if_neg h]

/-- A timeout that ends nothing: a fallback was started, or the chain is not waited for. -/
theorem expireOne_continues (h : ep.status = .inFlight ∧ ep.timeoutAt = some dueAt)
    (hcase : (e.proc.handleFailure cfg clock r d .timedOut).2 = none ∨
      inf.awaitAck = .primary ∧ ep.origin ≠ inf.primary) :
    ∃ requests, expireOne cfg clock e ⟨dueAt, r, d⟩ = { e with
      proc := (e.proc.handleFailure cfg clock r d .timedOut).1
      dispatchRequests := requests
      effects := e.effects ++ [.recordTimeout r d] } := by
  simp only [expireOne, hinf, hep, if_pos h]
  cases hresult : (e.proc.handleFailure cfg clock r d .timedOut).2 with
  | none => exact ⟨_, rfl⟩
  | some refused =>
    rw [hresult] at hcase
    exact ⟨_, if_pos (hcase.resolve_left nofun)⟩

theorem expireOne_refuses (h : ep.status = .inFlight ∧ ep.timeoutAt = some dueAt) {refused : P}
    (hresult : (e.proc.handleFailure cfg clock r d .timedOut).2 = some refused)
    (hrequired : ¬(inf.awaitAck = .primary ∧ ep.origin ≠ inf.primary)) :
    expireOne cfg clock e ⟨dueAt, r, d⟩ = { e with
      proc := { (e.proc.handleFailure cfg clock r d .timedOut).1 with
        inflight := (e.proc.handleFailure cfg clock r d .timedOut).1.inflight.erase r }
      expired := e.expired ++ [(r, refused, timeoutRefusal cfg d)]
      effects := e.effects ++ [.recordTimeout r d] } := by
  simp [expireOne, hinf, hep, if_pos h, hresult, if_neg hrequired]

end

theorem due_append (expired expired' : List (Nat × P × Refusal)) (r : Nat) :
    due (expired ++ expired') r = due expired r ++ due expired' r := filterMap_append

include hv

theorem Expiry.Inv.expire (h : e.Inv cfg U t) (deadline : Deadline) :
    (expireOne cfg clock e deadline).Inv cfg U t := by
  obtain ⟨hinv, hsubs, houts⟩ := h
  obtain ⟨dueAt, r, d⟩ := deadline
  have hsame : expireOne cfg clock e ⟨dueAt, r, d⟩ = e →
      (expireOne cfg clock e ⟨dueAt, r, d⟩).Inv cfg U t :=
    fun heq => by rw [heq]; exact ⟨hinv, hsubs, houts⟩
  cases hinf : e.proc.inflight.get? r with
  | none => exact hsame (by rw [expireOne, hinf])
  | some inf =>
    obtain ⟨hr, hlt, hslot, hup, hdata, hfull, htracked, hunsettled⟩ := hinv.of_inflight hinf
    cases hep : inf.destinations[d]? with
    | none => exact hsame (by simp [expireOne, hinf, hep])
    | some ep =>
      by_cases hvalid : ep.status = .inFlight ∧ ep.timeoutAt = some dueAt
      · have hd : d < cfg.count := by
          rw [← htracked.sound.length]
          exact (List.getElem?_eq_some_iff.mp hep).1
        have hflight : inf.status d = .inFlight := by rw [status_eq hep, hvalid.1]
        obtain ⟨inf₁, hf, hchange, hinf₁, hslim₁, hresult⟩ :=
          handleFailure_spec hv clock htracked.sound hinf hd hflight (.inr rfl) (.inl rfl)
        obtain ⟨htracked₁, hiff⟩ := htracked.failed_record (e := .did (.recordTimeout r d)) hf
          (.inr rfl) hflight (fun i => nofun) (fun i => by simp [TimedOut]) nofun
          (fun i hi => ⟨hi, fun _ => rfl⟩)
        have hacked := hf.acked_iff (.inr rfl) hflight
        have hunsettled₁ :
            Unsettled cfg (t ++ e.effects.map .did ++ [.did (.recordTimeout r d)]) r inf₁ := by
          refine ⟨fun hdone => hunsettled.waits (hiff.mp hdone), fun hall o => ?_⟩
          simp only [hf.reshaped.completedOrigins, hacked]
          exact hunsettled.counted hall o
        have hquiet : ∀ r' ≠ r, ∀ e' ∈ [(.did (.recordTimeout r d) : Event P)],
            ¬Event.Concerns r' e' :=
          fun r' hr' => forall_mem_singleton.mpr fun heq => hr' heq.symm
        have hmap : (e.effects ++ [Effect.recordTimeout r d]).map Event.did =
            e.effects.map Event.did ++ [.did (.recordTimeout r d)] := map_append
        have hrest : subscriptions (e.effects ++ [.recordTimeout r d]) = [] ∧
            ∀ r', outcomes ((e.effects ++ [Effect.recordTimeout r d]).map .did) r' = [] := by
          rw [subscriptions_append, hsubs, hmap]
          exact ⟨rfl, fun r => by rw [outcomes_append, houts]; rfl⟩
        by_cases hcase : (e.proc.handleFailure cfg clock r d .timedOut).2 = none ∨
            inf.awaitAck = .primary ∧ ep.origin ≠ inf.primary
        · obtain ⟨requests', heq⟩ := expireOne_continues clock hinf hep hvalid hcase
          rw [heq]
          refine ⟨?_, hrest⟩
          rw [hmap, ← append_assoc]
          refine hinv.update hchange (fun _ _ => rfl) hquiet rfl hinv.nodup
            (fun c hc => .inl hc) hr hlt
            fun data hdata' => ?_
          rw [hdata] at hdata'
          cases hdata'
          rw [hinf₁, hslim₁, hslot, hup, ← hf.reshaped.originalPdata]
          exact .inflight hfull htracked₁ hunsettled₁
        · obtain ⟨hsome, hrequired⟩ := not_or.mp hcase
          obtain ⟨hlast, hrefused⟩ := hresult.resolve_right hsome
          rw [expireOne_refuses clock hinf hep hvalid hrefused hrequired]
          refine ⟨?_, hrest⟩
          rw [hmap, ← append_assoc]
          refine hinv.update (hchange.trans (.erase r _)) (fun r' hr' => ?_) hquiet rfl hinv.nodup
            (fun c hc => .inl hc) hr hlt fun data hdata' => ?_
          · simp [due, Ne.symm hr']
          · rw [hdata] at hdata'
            cases hdata'
            have hmine : cfg.awaitAck = .primary → cfg.origin d = cfg.primaryIndex := by
              rw [htracked.sound.origin hep, htracked.sound.awaitAck,
                htracked.sound.primary] at hrequired
              exact fun hawait => not_not.mp fun hne => hrequired ⟨hawait, hne⟩
            have hone : due [(r, inf.originalPdata, timeoutRefusal cfg d)] r =
                [.nack inf.originalPdata (timeoutRefusal cfg d)] := by simp [due]
            have hsettled := htracked₁.chain_settled hv hd
                (.inr hf.failed) hlast hmine inf.originalPdata
              (timeoutRefusal cfg d)
            rw [due_append, ← append_assoc, hup, hone, hslim₁, hslot, OrdMap.get?_erase, if_pos rfl]
            exact .settled hsettled
      · exact hsame (expireOne_stale clock hinf hep hvalid)

theorem Expiry.Inv.expireLoop (h : e.Inv cfg U t) (now rounds : Nat) :
    (expireLoop cfg clock now rounds e).Inv cfg U t := by
  induction rounds generalizing e with
  | zero => exact h
  | succ rounds ih =>
    rw [Fanout.expireLoop]
    cases e.proc.deadlineHeap with
    | nil => exact h
    | cons deadline rest =>
      dsimp only
      split_ifs
      · exact h
      · have hpopped : Expiry.Inv cfg U t { e with proc := { e.proc with deadlineHeap := rest } } :=
          ⟨h.1.congr rfl rfl rfl, h.2⟩
        exact ih (hpopped.expire hv clock deadline)

omit hv in
/-- The refusals, as they are sent. -/
theorem refusals_spec (expired : List (Nat × P × Refusal)) :
    let nacks : List (Effect P) := expired.map fun n => .notifyNack n.1 n.2.1 n.2.2
    subscriptions nacks = [] ∧ (∀ r, outcomes (nacks.map .did) r = due expired r) ∧
      ∀ r, ∀ e ∈ nacks.map Event.did, ¬Event.Concerns r e := by
  refine ⟨?_, fun r => ?_, fun r e he => ?_⟩
  · rw [subscriptions, filterMap_map, filterMap_eq_nil_iff]
    exact fun _ _ => rfl
  · rw [outcomes, map_map, filterMap_map]
    rfl
  · rw [map_map] at he
    obtain ⟨n, _, rfl⟩ := mem_map.mp he
    exact id

theorem Inv.processTimerTick {p : Processor P} (h : Inv cfg p U t (outcomes t)) :
    After cfg U t .timerTick (p.processTimerTick cfg clock) := by
  rw [Processor.processTimerTick]
  split_ifs
  · exact .idle h rfl rfl
  · have hquiet : ∀ r, ∀ e ∈ [(.received .timerTick : Event P)], ¬Event.Concerns r e :=
      fun r e he => mem_singleton.mp he ▸ id
    have hstart : Expiry.Inv cfg U (t ++ [.received .timerTick])
        ⟨{ p with clockReads := p.clockReads + 1 }, [], [], []⟩ := by
      refine ⟨?_, rfl, fun _ => rfl⟩
      have hup : (fun r => outcomes (t ++ [(.received .timerTick : Event P)]) r ++ due [] r) =
          outcomes t := by
        funext r
        rw [outcomes_append, outcomes_received, append_nil]
        exact append_nil _
      rw [hup, map_nil, append_nil]
      exact (h.quiet hquiet rfl).congr rfl rfl rfl
    have hloop := hstart.expireLoop hv clock (clock p.clockReads) p.expireRounds
    rw [handleTimeout]
    generalize expireLoop cfg clock (clock p.clockReads) p.expireRounds
      ⟨{ p with clockReads := p.clockReads + 1 }, [], [], []⟩ = e at hloop ⊢
    obtain ⟨hloop, hsubs, houts⟩ := hloop
    obtain ⟨hnosubs, hdue, hnoconcern⟩ := refusals_spec e.expired
    have hsent := (hloop.dispatchAll clock e.dispatchRequests).quiet hnoconcern (requests_did _)
    refine After.of_inv (fun r => outcomes (t ++ [.received .timerTick]) r ++ due e.expired r) rfl
      ?_ fun r => ?_
    · rwa [subscriptions_append, subscriptions_append, hsubs, hnosubs, nil_append, append_nil,
        map_append, map_append, ← append_assoc, ← append_assoc]
    · rw [map_append, map_append, outcomes_append, outcomes_append, outcomes_append, houts,
        outcomes_dispatchAll, hdue, outcomes_received]
      simp

end

/-! ## New requests -/

section

variable {p : Processor P} (hv : cfg.Valid)
  (clock : Nat → Nat) {r now : Nat} {pdata : P}

/-- What a new request starts with: origins in flight or waiting for their turn, fallbacks held in
reserve, and nothing sent. -/
theorem registerDestinations_spec (cfg : ValidatedConfig) (r now : Nat) (pdata : P)
    (rest : List DestinationConfig) (idx : Nat) (queue : List Nat) :
    let registered := registerDestinations cfg r now pdata rest idx queue
    registered.1.length = rest.length ∧
      (∀ i ep, registered.1[i]? = some ep → ep.origin = cfg.origin (idx + i) ∧
        ep.payload = some ⟨pdata, buildCallData r (idx + i)⟩ ∧
        (ep.status = .pendingSend ∨ ep.status = .inFlight) ∧
        ((rest[i]?.bind (·.fallbackFor)).isSome → ep.status = .pendingSend)) ∧
      ∀ i ∈ registered.2, i ∈ queue ∨ ∃ k ep, i = idx + k ∧ registered.1[k]? = some ep ∧
        ep.status = .inFlight := by
  induction rest generalizing idx queue with
  | nil => exact ⟨rfl, by simp [registerDestinations], fun i hi => .inl hi⟩
  | cons dest rest ih =>
    obtain ⟨hlen, hall, hqueue⟩ := ih (idx + 1) (if dest.fallbackFor.isSome ||
      (cfg.mode = .sequential && !queue.isEmpty) then queue else queue ++ [idx])
    refine ⟨?_, fun i ep hep => ?_, fun i hi => ?_⟩
    · rw [registerDestinations, length_cons, hlen, length_cons]
    · cases i with
      | zero =>
        cases hep
        refine ⟨rfl, rfl, ?_, fun hfb => ?_⟩
        · dsimp only
          split_ifs
          · exact .inl rfl
          · exact .inr rfl
        · rw [getElem?_cons_zero, Option.bind_some] at hfb
          simp [hfb]
      | succ i =>
        have hadd : idx + (i + 1) = idx + 1 + i := by omega
        rw [hadd]
        exact hall i ep hep
    · rcases hqueue i hi with hmem | ⟨k, ep, rfl, hep, hstatus⟩
      · split_ifs at hmem with hwaits
        · exact .inl hmem
        · refine (mem_append.mp hmem).imp_right fun hmem => ?_
          obtain rfl := mem_singleton.mp hmem
          exact ⟨0, _, rfl, rfl, if_neg hwaits⟩
      · exact .inr ⟨k + 1, ep, by omega, hep, hstatus⟩

/-- In sequential mode one destination is sent to first: the first origin. -/
theorem registerDestinations_single (hmode : cfg.mode = .sequential) (r now : Nat) (pdata : P)
    (rest : List DestinationConfig) (idx : Nat) (queue : List Nat) :
    let registered := registerDestinations cfg r now pdata rest idx queue
    (queue ≠ [] → ∀ (i : Nat) (ep : DestinationState P), registered.1[i]? = some ep →
        ep.status = .pendingSend) ∧
      ∀ (i j : Nat) (ep ep' : DestinationState P), registered.1[i]? = some ep →
        registered.1[j]? = some ep' →
        ep.status = .inFlight → ep'.status = .inFlight → i = j := by
  induction rest generalizing idx queue with
  | nil => simp [registerDestinations]
  | cons dest rest ih =>
    obtain ⟨hwait, hone⟩ := ih (idx + 1) (if dest.fallbackFor.isSome ||
      (cfg.mode = .sequential && !queue.isEmpty) then queue else queue ++ [idx])
    -- behind a destination that is sent to, the others wait
    have hbehind : ∀ (ep : DestinationState P) (j : Nat) (ep' : DestinationState P),
        (registerDestinations cfg r now pdata (dest :: rest) idx queue).1[0]? = some ep →
        ep.status = .inFlight →
        (registerDestinations cfg r now pdata (dest :: rest) idx queue).1[j + 1]? = some ep' →
        ep'.status = .pendingSend := by
      rintro ep j ep' ⟨⟩ hep hep'
      dsimp only at hep
      split_ifs at hep with hwaits
      refine hwait ?_ j ep' hep'
      rw [if_neg hwaits]
      simp
    refine ⟨fun hqueue i ep hep => ?_, fun i j ep ep' hi hj hep hep' => ?_⟩
    · have hwaits : (dest.fallbackFor.isSome ||
          (decide (cfg.mode = .sequential) && !queue.isEmpty)) = true := by
        simp [hmode, hqueue]
      cases i with
      | zero =>
        cases hep
        exact if_pos hwaits
      | succ i =>
        refine hwait ?_ i ep hep
        rwa [if_pos hwaits]
    · cases i with
      | zero =>
        cases j with
        | zero => rfl
        | succ j =>
          have hwaits := hbehind ep j ep' hi hep hj
          rw [hep'] at hwaits
          cases hwaits
      | succ i =>
        cases j with
        | zero =>
          have hwaits := hbehind ep' i ep hj hep' hi
          rw [hep] at hwaits
          cases hwaits
        | succ j => exact congrArg _ (hone i j ep ep' hi hj hep hep')

/-- The first origin is sent to at once. -/
theorem registerDestinations_first (cfg : ValidatedConfig) (r now : Nat) (pdata : P)
    {rest : List DestinationConfig} {o : Nat} {dest : DestinationConfig}
    (ho : rest[o]? = some dest) (horigin : dest.fallbackFor = none)
    (hfirst : ∀ c < o, ∀ dest', rest[c]? = some dest' → dest'.fallbackFor.isSome = true)
    (idx : Nat) {ep : DestinationState P}
    (hep : (registerDestinations cfg r now pdata rest idx []).1[o]? = some ep) :
    ep.status = .inFlight := by
  induction rest generalizing idx o with
  | nil => cases ho
  | cons head rest ih =>
    cases o with
    | zero =>
      cases ho
      cases hep
      simp [horigin]
    | succ o =>
      have hhead := hfirst 0 (Nat.succ_pos o) head rfl
      refine ih ho (fun c hc => hfirst (c + 1) (Nat.succ_lt_succ hc)) (idx + 1) ?_
      rw [registerDestinations, hhead] at hep
      exact hep

/-- The record of a new request. -/
def newRecord (cfg : ValidatedConfig) (r now : Nat) (pdata : P) : Inflight P where
  awaitAck := cfg.awaitAck
  mode := cfg.mode
  primary := cfg.primaryIndex
  destinations := (registerDestinations cfg r now pdata cfg.destinations 0 []).1
  completedOrigins := 0#64
  requiredOrigins := cfg.destinations.countP (·.fallbackFor.isNone)
  originalPdata := pdata
  nextSendQueue := (registerDestinations cfg r now pdata cfg.destinations 0 []).2

theorem status_newRecord (cfg : ValidatedConfig) (r now : Nat) (pdata : P) (i : Nat) :
    ((newRecord cfg r now pdata).status i = .pendingSend ∨
      (newRecord cfg r now pdata).status i = .inFlight) ∧
    (cfg.isFallback i = true → (newRecord cfg r now pdata).status i = .pendingSend) := by
  obtain ⟨hlen, hall, -⟩ := registerDestinations_spec cfg r now pdata cfg.destinations 0 []
  cases hep : (newRecord cfg r now pdata).destinations[i]? with
  | none =>
    rw [status, statusOf, hep]
    exact ⟨.inl rfl, fun _ => rfl⟩
  | some ep =>
    obtain ⟨-, -, hstatus, hfb⟩ := hall i ep hep
    rw [status_eq hep]
    exact ⟨hstatus, hfb⟩

include hv in
theorem sound_newRecord : (newRecord cfg r now pdata).Sound cfg := by
  obtain ⟨hlen, hall, hqueue⟩ := registerDestinations_spec cfg r now pdata cfg.destinations 0 []
  exact {
    length := hlen
    awaitAck := rfl
    mode := rfl
    primary := rfl
    required := rfl
    origin := fun {i ep} hep => by
      have := (hall i ep hep).1
      rwa [zero_add] at this
    linked := fun {j i} hji => by
      rw [(status_newRecord cfg r now pdata i).2 (hv.follows_fallback hji)]
      obtain ⟨hj | hj, -⟩ := status_newRecord cfg r now pdata j
      · rw [hj]
        rfl
      · rw [hj]
        rfl
    root := fun {i} _ heq => by
      obtain hi | hi := (status_newRecord cfg r now pdata i).1
      · cases hi.symm.trans heq
      · cases hi.symm.trans heq
    queued := fun i hi _ => by
      obtain hmem | ⟨k, ep, rfl, hep, hstatus⟩ := hqueue i hi
      · cases hmem
      · rw [zero_add]
        exact .inl ((status_eq hep).trans hstatus)
    kept := fun i hi _ hnone => by
      have hep := getElem?_eq_getElem (hlen ▸ hi :
        i < (registerDestinations cfg r now pdata cfg.destinations 0 []).1.length)
      have hpayload := (hall i _ hep).2.1
      rw [payloadOf, show (newRecord cfg r now pdata).destinations[i]? = _ from hep,
        Option.bind_some, hpayload] at hnone
      cases hnone
    single := fun hmode i j hi hj => by
      have hep : ∀ i, (newRecord cfg r now pdata).status i = .inFlight →
          ∃ ep, (newRecord cfg r now pdata).destinations[i]? = some ep ∧ ep.status = .inFlight := by
        intro i hi
        cases hep : (newRecord cfg r now pdata).destinations[i]? with
        | none =>
          rw [status, statusOf, hep] at hi
          cases hi
        | some ep => exact ⟨ep, rfl, (status_eq hep).symm.trans hi⟩
      obtain ⟨ep, hepi, hsi⟩ := hep i hi
      obtain ⟨ep', hepj, hsj⟩ := hep j hj
      exact (registerDestinations_single hmode r now pdata cfg.destinations 0 []).2 i j ep ep' hepi
        hepj hsi hsj
    begun := fun o ho hroot hfirst => by
      have hep := getElem?_eq_getElem (hlen ▸ ho :
        o < (registerDestinations cfg r now pdata cfg.destinations 0 []).1.length)
      obtain ⟨dest, hdest⟩ : ∃ dest, cfg.destinations[o]? = some dest :=
        ⟨_, getElem?_eq_getElem ho⟩
      have hnone : dest.fallbackFor = none := by
        rw [ValidatedConfig.isFallback, hdest, Option.bind_some] at hroot
        simpa using hroot
      have hbefore : ∀ c < o, ∀ dest', cfg.destinations[c]? = some dest' →
          dest'.fallbackFor.isSome = true := by
        intro c hc dest' hdest'
        have hfb := hfirst c hc
        rwa [ValidatedConfig.isFallback, hdest', Option.bind_some] at hfb
      have hstatus := registerDestinations_first cfg r now pdata hdest hnone hbefore 0 hep
      rw [status_eq (show (newRecord cfg r now pdata).destinations[o]? = _ from hep), hstatus]
      intro hpending
      cases hpending }

theorem payloadOf_newRecord {i : Nat} {m : Subscribed P}
    (h : (newRecord cfg r now pdata).payloadOf i = some m) : m.callData = buildCallData r i := by
  obtain ⟨ep, hep, hm⟩ := Option.bind_eq_some_iff.mp h
  obtain ⟨-, hpayload, -⟩ :=
      (registerDestinations_spec cfg r now pdata cfg.destinations 0 []).2.1 i ep hep
  rw [hpayload, zero_add] at hm
  rw [← Option.some.inj hm]

theorem requests_pdata (data : P) :
    requests (t ++ [.received (.pdata data)]) = requests t ++ [data] :=
  requests_append

theorem pdata_quiet (data : P) (r : Nat) :
    ∀ e ∈ [(.received (.pdata data) : Event P)], ¬Event.Concerns r e :=
  fun _ he => mem_singleton.mp he ▸ id

/-- A request gets an id that was not used before. -/
theorem Inv.request {p' : Processor P} {data : P} (h : Inv cfg p U t up)
    (hid : p'.nextId = p.nextId + 1) (hinf : ∀ r ≠ p.nextId, p'.inflight.get? r = p.inflight.get? r)
    (hslim : ∀ r ≠ p.nextId, p'.slimInflight.get? r = p.slimInflight.get? r)
    (hnew : RequestInv cfg (t ++ [.received (.pdata data)]) U p.nextId (p'.inflight.get? p.nextId)
      (p'.slimInflight.get? p.nextId) [] data) :
    Inv cfg p' U (t ++ [.received (.pdata data)]) up where
  nextId := by
    rw [hid, h.nextId, requests_pdata, length_append, length_singleton]
  nodup := h.nodup
  held := by
    intro c hc
    obtain ⟨r, d, hcd, hr, hlt, hd⟩ := h.held c hc
    exact ⟨r, d, hcd, hr, by omega, hd⟩
  known := by
    intro r data' hr hdata
    have hnext := h.nextId
    rw [requests_pdata] at hdata
    by_cases hrn : r = p.nextId
    · subst hrn
      have hidx : p.nextId - 1 = (requests t).length := by omega
      rw [hidx, getElem?_concat_length] at hdata
      cases hdata
      rwa [(h.unknown _ (.inr le_rfl)).2.2.1]
    · have hlt : r - 1 < (requests t).length := by
        have := (List.getElem?_eq_some_iff.mp hdata).1
        rw [length_append, length_singleton] at this
        omega
      rw [getElem?_append_left hlt] at hdata
      rw [hinf r hrn, hslim r hrn]
      exact (h.known r data' hr hdata).frame (pdata_quiet data r) fun _ hmem => hmem
  unknown := by
    intro r hr
    have hpos := h.nextId
    have hrn : r ≠ p.nextId := by omega
    obtain ⟨hinf', hslim', hup, hquiet⟩ := h.unknown r (by omega)
    exact ⟨(hinf r hrn).trans hinf', (hslim r hrn).trans hslim', hup,
      forall_mem_append.mpr ⟨hquiet, pdata_quiet data r⟩⟩

theorem Processor.followingId_eq (hid : p.nextId + 1 < 2 ^ 64) : p.followingId = p.nextId + 1 := by
  rw [followingId, Word.wrappingAdd, Nat.mod_eq_of_lt hid]
  omega

/-- Nothing is known of a request that has not been made. -/
theorem Inv.unknown_facts (h : Inv cfg p U t up) (data : P) (d : Nat) :
    ¬TimedOut (t ++ [.received (.pdata data)]) p.nextId d ∧
      ¬Acked (t ++ [.received (.pdata data)]) p.nextId d ∧ buildCallData p.nextId d ∉ U := by
  obtain ⟨-, -, -, hquiet⟩ := h.unknown p.nextId (.inr le_rfl)
  rw [timedOut_quiet (pdata_quiet data _), acked_quiet (pdata_quiet data _)]
  refine ⟨not_timedOut_of_quiet hquiet, ?_, fun hmem => ?_⟩
  · have := (acked_quiet (t := []) (d := d) hquiet).not
    refine this.mpr ?_
    rintro ⟨before, after, heq, -⟩
    exact absurd heq (by simp)
  · obtain ⟨r, d', heq, -, hlt, -⟩ := h.held _ hmem
    have := (buildCallData_inj heq).1
    omega

include hv

theorem Inv.registerInflight (h : Inv cfg p U t up) (hfull : cfg.useSlimPrimary = false)
    (hid : p.nextId + 1 < 2 ^ 64) (data : P) :
    Inv cfg (p.registerInflight cfg clock data) U (t ++ [.received (.pdata data)]) up := by
  obtain ⟨-, hslot, -⟩ := h.unknown p.nextId (.inr le_rfl)
  refine h.request (followingId_eq hid) (fun r hr => ?_) (fun _ _ => rfl) ?_
  · rw [Processor.registerInflight, OrdMap.get?_insert, if_neg hr]
  · have hrecord : (p.registerInflight cfg clock data).inflight.get? p.nextId =
        some (newRecord cfg p.nextId (clock p.clockReads) data) := by
      rw [Processor.registerInflight, OrdMap.get?_insert, if_pos rfl]
      rfl
    have hfacts := h.unknown_facts data
    have hstatus := status_newRecord cfg p.nextId (clock p.clockReads) data
    rw [hrecord]
    have hslim : (p.registerInflight cfg clock data).slimInflight.get? p.nextId = none := hslot
    have hnew : ∀ {i s}, (newRecord cfg p.nextId (clock p.clockReads) data).status i = s →
        s = .pendingSend ∨ s = .inFlight := fun heq => heq ▸ (hstatus _).1
    rw [hslim]
    have htracked : Tracked cfg (t ++ [.received (.pdata data)]) U p.nextId
        (newRecord cfg p.nextId (clock p.clockReads) data) := {
      sound := sound_newRecord hv
      acked := fun i => iff_of_false (fun heq => (hnew heq).elim nofun nofun) (hfacts i).2.1
      timedOut := fun i => iff_of_false (fun heq => (hnew heq).elim nofun nofun) (hfacts i).1
      nacked := fun i heq => (hnew heq).elim nofun nofun
      held := fun i hi => absurd hi (hfacts i).2.2
      payload := fun i m => payloadOf_newRecord }
    have hunsettled : Unsettled cfg (t ++ [.received (.pdata data)]) p.nextId
        (newRecord cfg p.nextId (clock p.clockReads) data) := by
      refine ⟨fun hdone => ?_, fun _ o => iff_of_false (by simp [newRecord]) ?_⟩
      · obtain ⟨i, -, -, hack⟩ := hdone _ ⟨hv.primary_lt, hv.primary_origin, fun _ => rfl⟩
        exact (hfacts i).2.1 hack
      · rintro ⟨i, -, -, heq⟩
        exact (hnew heq).elim nofun nofun
    exact .inflight hfull htracked hunsettled

end

/-! # The outcome of a request

**`fanout_outcome`**: in every run in which each message is answered at most once, every request
gets at most one outcome; it is an ack exactly if every origin the request must wait for was acked,
by itself or through a fallback, and a nack only if the whole chain of one of them has failed.

The runs are those in which sequential delivery never moves on to a fallback.  It does so if a
fallback is listed before the destination it is for (`fallback_out_of_turn`): the fallback is then
sent to before that destination, and when it refuses, so does the processor, although the
destination was never tried. -/

open Machine Fanout.System OrdMap

/-! ## The fast path -/

variable {input : Input P} {t : List (Event P)} {U : List CallData} {p : Processor P}

section

variable {r d : Nat} (hv : cfg.Valid)
  (hslim : cfg.useSlimPrimary = true)

include hv hslim

/-- Without fallbacks the primary is the only destination of its chain. -/
theorem primary_alone (hd : d < cfg.count) (h : cfg.origin d = cfg.primaryIndex) :
    d = cfg.primaryIndex := by
  rw [← h, hv.origin_self hd ((hv.slim hslim).2 d)]

theorem succeeded_slim : Succeeded cfg t r ↔ Acked t r cfg.primaryIndex := by
  constructor
  · intro h
    obtain ⟨d, hd, horigin, hack⟩ := h _ ⟨hv.primary_lt, hv.primary_origin, fun _ => rfl⟩
    rwa [primary_alone hv hslim hd horigin] at hack
  · intro h o ho
    obtain rfl := ho.2.2 (hv.slim hslim).1
    exact ⟨_, hv.primary_lt, hv.origin_self hv.primary_lt hv.primary_origin, h⟩

omit hv in
/-- A reply that the fast path ignores, because it is not the primary's or comes late. -/
theorem Inv.ignore_slim (h : Inv cfg p U t (outcomes t)) (hc : buildCallData r d ∈ U)
    (hanswers : input.answers = some (buildCallData r d))
    (hcase : d ≠ cfg.primaryIndex ∨ p.slimInflight.get? r = none) : After cfg U t input (p, []) :=
  h.ignore_reply hc hanswers (fun hfull => nomatch hfull.symm.trans hslim)
    fun _ hsome => hcase.resolve_right hsome

omit hv hslim in
/-- The primary has answered. -/
theorem Inv.finish_slim {data : P} (h : Inv cfg p U t (outcomes t))
    (hc : buildCallData r cfg.primaryIndex ∈ U)
    (hanswers : input.answers = some (buildCallData r cfg.primaryIndex))
    (hdata : p.slimInflight.get? r = some data) (outcome : Outcome P) (hsame : outcome.data = data)
    (hsettled : ¬TimedOut t r cfg.primaryIndex → ¬Acked t r cfg.primaryIndex →
      Settled cfg (t ++ [.received input]) (U.erase (buildCallData r cfg.primaryIndex)) r outcome) :
    After cfg U t input ({ p with slimInflight := p.slimInflight.erase r },
      [outcome.notify r]) := by
  obtain ⟨-, -, -, data', hdata', hreq⟩ := h.of_held hc
  have hsubs : U.erase (buildCallData r cfg.primaryIndex) ++ subscriptions [outcome.notify r] =
      U.erase (buildCallData r cfg.primaryIndex) := by
    rw [outcome.subscriptions_notify, append_nil]
  have hquiet : ∀ r', ∀ e ∈ [outcome.notify r].map Event.did, ¬Event.Concerns r' e :=
    fun r' => forall_mem_singleton.mpr (outcome.quiet_notify r r')
  refine h.answer hc hanswers hdata' ⟨rfl, fun _ _ => rfl, fun r' hr' => by simp [hr']⟩
    (fun r' _ => hquiet r') (fun r' hr' => ?_) ?_ ?_ ?_
  · exact (outcome.outcomes_notify r r').trans (if_neg (Ne.symm hr'))
  · rw [hsubs]
    exact h.nodup.erase _
  · rw [outcome.subscriptions_notify]
    exact forall_mem_nil _
  · have hone : outcomes ([outcome.notify r].map Event.did) r = [outcome] :=
      (outcome.outcomes_notify r r).trans (if_pos rfl)
    rw [hdata] at hreq
    rw [hsubs, hone]
    rw [get?_erase, if_pos rfl]
    generalize outcomes t r = up at hreq ⊢
    generalize p.inflight.get? r = inf at hreq ⊢
    cases hreq with
    | slim _ huntimed hwaits =>
      rw [← hsame]
      have hfinal := (hsettled (huntimed _) hwaits).quiet (hquiet r)
      rw [append_assoc, singleton_append] at hfinal
      exact .settled hfinal

omit hv in
/-- The primary's answer to a request that is not in the table. -/
theorem Inv.ignore_primary (h : Inv cfg p U t (outcomes t)) (hc : buildCallData r d ∈ U)
    (hanswers : input.answers = some (buildCallData r d)) (hnone : p.slimInflight.get? r = none) :
    After cfg U t input ({ p with slimInflight := p.slimInflight.erase r }, []) := by
  have hsame := h.ignore_slim hslim hc hanswers (.inr hnone)
  refine Inv.congr hsame rfl rfl ?_
  funext r'
  by_cases hr : r' = r
  · rw [hr, get?_erase, if_pos rfl, hnone]
  · rw [get?_erase, if_neg hr]

omit hv in
/-- A reply on the fast path, where `outcome` is what the primary's reply means. -/
theorem Inv.slim_reply (h : Inv cfg p U t (outcomes t)) (hc : buildCallData r d ∈ U)
    (hanswers : input.answers = some (buildCallData r d)) (outcome : P → Outcome P)
    (hsame : ∀ data, (outcome data).data = data)
    (hsettled : d = cfg.primaryIndex → ¬TimedOut t r d → ¬Acked t r d → ∀ data,
      Settled cfg (t ++ [.received input]) (U.erase (buildCallData r d)) r (outcome data)) :
    After cfg U t input (if d ≠ cfg.primaryIndex then (p, []) else
      ({ p with slimInflight := p.slimInflight.erase r },
        (p.slimInflight.get? r).toList.map fun data => (outcome data).notify r)) := by
  by_cases hd : d = cfg.primaryIndex
  · subst hd
    rw [if_neg (not_not.mpr rfl)]
    cases hdata : p.slimInflight.get? r with
    | none => exact h.ignore_primary hslim hc hanswers hdata
    | some data =>
      exact h.finish_slim hc hanswers hdata (outcome data) (hsame data)
        fun huntimed hwaits => hsettled rfl huntimed hwaits data
  · rw [if_pos hd]
    exact h.ignore_slim hslim hc hanswers (.inl hd)

theorem Inv.processAckSlimPrimary (h : Inv cfg p U t (outcomes t)) (hc : buildCallData r d ∈ U) :
    After cfg U t (.ack (buildCallData r d)) (p.processAckSlimPrimary cfg (buildCallData r d)) := by
  refine h.slim_reply hslim hc rfl .ack (fun _ => rfl) ?_
  rintro rfl huntimed - data
  exact (succeeded_slim hv hslim).mpr (acked_snoc.mpr (.inr ⟨rfl, huntimed⟩))

theorem Inv.processNackSlimPrimary (h : Inv cfg p U t (outcomes t)) (hc : buildCallData r d ∈ U)
    (refusal : Refusal) :
    After cfg U t (.nack (buildCallData r d) refusal)
      (p.processNackSlimPrimary cfg (buildCallData r d) refusal) := by
  refine h.slim_reply hslim hc rfl (.nack · refusal) (fun _ => rfl) ?_
  rintro rfl - hwaits data
  refine ⟨_, ⟨hv.primary_lt, hv.primary_origin, fun _ => rfl⟩, fun i hi hio => ?_⟩
  obtain rfl := primary_alone hv hslim hi hio
  refine ⟨.inl (nacked_append.mpr (.inr ⟨refusal, mem_singleton_self _⟩)), ?_, .inr ?_⟩
  · rwa [acked_snoc, or_iff_left fun hack => by cases hack.1]
  · exact h.nodup.not_mem_erase

omit hv hslim in
/-- One message to each destination. -/
theorem slim_sends (data : P) (r : Nat) (destinations : List DestinationConfig) :
    let sends : List (Effect P) := destinations.mapIdx fun idx dest =>
      .sendMessageTo dest.port data (buildCallData r idx)
    subscriptions sends = (List.range destinations.length).map (buildCallData r) ∧
      (∀ r', outcomes (sends.map .did) r' = []) ∧
      ∀ r', ∀ e ∈ sends.map Event.did, ¬Event.Concerns r' e := by
  induction destinations using List.reverseRecOn with
  | nil => exact ⟨rfl, fun _ => rfl, fun _ => forall_mem_nil _⟩
  | append_singleton destinations dest ih =>
    obtain ⟨hsubs, houts, hquiet⟩ := ih
    dsimp only at hsubs houts hquiet ⊢
    rw [mapIdx_append, length_append, length_singleton, range_succ]
    refine ⟨?_, fun r' => ?_, fun r' => ?_⟩
    · rw [subscriptions_append, hsubs, map_append]
      simp [subscriptions]
    · rw [map_append, outcomes_append, houts]
      rfl
    · rw [map_append]
      exact forall_mem_append.mpr ⟨hquiet r', forall_mem_singleton.mpr id⟩

omit hv in
theorem Inv.processSlimPrimary (h : Inv cfg p U t (outcomes t)) (hid : p.nextId + 1 < 2 ^ 64)
    (data : P) : After cfg U t (.pdata data) (p.processSlimPrimary cfg data) := by
  obtain ⟨hsubs, houts, hquiet⟩ := slim_sends data p.nextId cfg.destinations
  obtain ⟨hinf, -, hup, -⟩ := h.unknown p.nextId (.inr le_rfl)
  have hfacts := h.unknown_facts data
  have hnext := followingId_eq hid
  have hrequest : Inv cfg (p.processSlimPrimary cfg data).1 U (t ++ [.received (.pdata data)])
      (outcomes t) := by
    refine h.request hnext (fun _ _ => rfl) (fun r hr => ?_) ?_
    · rw [Processor.processSlimPrimary, get?_insert, if_neg hr]
    · rw [Processor.processSlimPrimary, get?_insert, if_pos rfl, hinf]
      exact .slim hslim (fun d => (hfacts d).1) (hfacts _).2.1
  have hpos := h.nextId
  refine After.of_inv (outcomes t) rfl ?_ fun r => ?_
  · refine hrequest.update (.refl p.nextId _) (fun _ _ => rfl) (fun r' _ => hquiet r')
      (requests_did _) ?_ (fun c hc => ?_) (by omega) ?_ fun data' hdata' => ?_
    · rw [Processor.processSlimPrimary, hsubs]
      refine nodup_append.mpr
        ⟨h.nodup, nodup_range.map fun i j hij => (buildCallData_inj hij).2, ?_⟩
      rintro c hc c' hc' rfl
      obtain ⟨d, -, rfl⟩ := mem_map.mp hc'
      exact (hfacts d).2.2 hc
    · rw [Processor.processSlimPrimary, hsubs] at hc
      refine (mem_append.mp hc).imp_right fun hc => ?_
      obtain ⟨d, hd, rfl⟩ := mem_map.mp hc
      exact ⟨d, mem_range.mp hd, rfl⟩
    · exact lt_of_lt_of_eq (Nat.lt_succ_self _) hnext.symm
    · have hidx : p.nextId - 1 = (requests t).length := by omega
      rw [requests_pdata, hidx, getElem?_concat_length] at hdata'
      cases hdata'
      rw [hup, Processor.processSlimPrimary, get?_insert, if_pos rfl, hinf]
      refine .slim hslim (fun d => ?_) ?_
      · rw [timedOut_quiet (hquiet _)]
        exact (hfacts d).1
      · rw [acked_quiet (hquiet _)]
        exact (hfacts _).2.1
  · rw [Processor.processSlimPrimary, houts, append_nil]

end

/-! ## Runs -/

section

variable (cfg) (clock : Nat → Nat)

/-- What a step must meet: messages are answered once, and ids last. -/
def System.Ok (s : System P) (input : Input P) : Prop :=
  s.AnswersOnce input ∧ s.IdsLeft input

variable {cfg}

end

/-! ## Fire and forget -/

section

variable (clock : Nat → Nat)

end

/-! ## Timeouts are due

A deadline is put on the heap when the clock has been read for it, and is its reading plus the
timeout of the destination.  What a tick takes off the heap is due at the tick's own reading. -/

section

variable (cfg) (clock : Nat → Nat)

/-- The deadline is one of the first readings of the clock plus the timeout of its destination. -/
def Deadline.DatedBy (reads : Nat) (deadline : Deadline) : Prop :=
  ∃ k < reads, ∃ timeout, cfg.timeoutOf deadline.destIndex = some timeout ∧
    deadline.due = clock k + timeout

def Processor.Dated (p : Processor P) : Prop :=
  ∀ deadline ∈ p.deadlineHeap, deadline.DatedBy cfg clock p.clockReads

variable {cfg clock}

theorem Deadline.DatedBy.mono {reads reads' : Nat} {deadline : Deadline}
    (h : deadline.DatedBy cfg clock reads) (hle : reads ≤ reads') :
    deadline.DatedBy cfg clock reads' := by
  obtain ⟨k, hk, timeout, hdue⟩ := h
  exact ⟨k, hk.trans_le hle, timeout, hdue⟩

theorem mem_foldl_push {deadlines : List Deadline} {heap : DeadlineHeap} {deadline : Deadline} :
    deadline ∈ deadlines.foldl DeadlineHeap.push heap ↔ deadline ∈ deadlines ∨ deadline ∈ heap := by
  induction deadlines generalizing heap with
  | nil => simp
  | cons first rest ih =>
    rw [foldl_cons, ih, DeadlineHeap.push, mem_orderedInsert, mem_cons]
    tauto

/-- The deadline of a destination whose clock was just read. -/
theorem datedBy_read {r d reads : Nat} {deadline : Deadline}
    (h : deadline ∈ (((cfg.timeoutOf d).map (clock reads + ·)).map
      (fun due => (⟨due, r, d⟩ : Deadline))).toList) :
    deadline.DatedBy cfg clock
      (reads + ((cfg.timeoutOf d).map (clock reads + ·)).toList.length) := by
  cases htimeout : cfg.timeoutOf d with
  | none =>
    rw [htimeout] at h
    cases h
  | some timeout =>
    rw [htimeout] at h
    obtain rfl := mem_singleton.mp h
    exact ⟨reads, Nat.lt_succ_self reads, timeout, htimeout, rfl⟩

theorem Processor.Dated.push {p p' : Processor P} {deadlines : List Deadline}
    (h : p.Dated cfg clock)
    (hheap : p'.deadlineHeap = deadlines.foldl DeadlineHeap.push p.deadlineHeap)
    (hreads : p.clockReads ≤ p'.clockReads)
    (hnew : ∀ deadline ∈ deadlines, deadline.DatedBy cfg clock p'.clockReads) :
    p'.Dated cfg clock := by
  intro deadline hmem
  rw [hheap, mem_foldl_push] at hmem
  exact hmem.elim (hnew deadline) fun hold => (h deadline hold).mono hreads

theorem dispatchOne_dated (r idx : Nat) {d : Dispatch P}
    (h : ∀ deadline ∈ d.deadlines, deadline.DatedBy cfg clock d.clockReads) :
    d.clockReads ≤ (dispatchOne cfg clock r d idx).clockReads ∧
      ∀ deadline ∈ (dispatchOne cfg clock r d idx).deadlines,
        deadline.DatedBy cfg clock (dispatchOne cfg clock r d idx).clockReads := by
  rw [dispatchOne]
  split
  · exact ⟨le_rfl, h⟩
  · refine ⟨Nat.le_add_right _ _, fun deadline hmem => ?_⟩
    exact (mem_append.mp hmem).elim (fun hold => (h deadline hold).mono (Nat.le_add_right _ _))
      datedBy_read

theorem dispatchReady_dated (r : Nat) (inf : Inflight P) (reads : Nat) :
    reads ≤ (dispatchReady cfg clock r inf reads).clockReads ∧
      ∀ deadline ∈ (dispatchReady cfg clock r inf reads).deadlines,
        deadline.DatedBy cfg clock (dispatchReady cfg clock r inf reads).clockReads := by
  have hfold : ∀ (targets : List Nat) (d : Dispatch P), reads ≤ d.clockReads →
      (∀ deadline ∈ d.deadlines, deadline.DatedBy cfg clock d.clockReads) →
      reads ≤ (targets.foldl (dispatchOne cfg clock r) d).clockReads ∧
        ∀ deadline ∈ (targets.foldl (dispatchOne cfg clock r) d).deadlines,
          deadline.DatedBy cfg clock (targets.foldl (dispatchOne cfg clock r) d).clockReads := by
    intro targets
    induction targets with
    | nil => exact fun d hreads h => ⟨hreads, h⟩
    | cons idx targets ih =>
      intro d hreads h
      obtain ⟨hle, hnew⟩ := dispatchOne_dated r idx h
      exact ih _ (hreads.trans hle) hnew
  exact hfold inf.toSend ⟨inf, [], [], reads⟩ le_rfl (forall_mem_nil _)

namespace Processor.Dated

variable {p : Processor P} (h : p.Dated cfg clock)

include h

theorem dispatch (r : Nat) : (p.dispatch cfg clock r).1.Dated cfg clock := by
  rw [Processor.dispatch]
  split
  · exact h
  · obtain ⟨hreads, hnew⟩ := dispatchReady_dated r _ p.clockReads
    exact h.push rfl hreads hnew

theorem handleFailure (r d : Nat) (s : DestinationStatus) :
    (p.handleFailure cfg clock r d s).1.Dated cfg clock := by
  rw [Processor.handleFailure]
  split
  · exact h
  · dsimp only
    split
    · exact h
    · exact h.push rfl (Nat.le_add_right _ _) fun _ => datedBy_read

theorem dispatchAll (ids : List Nat) : (p.dispatchAll cfg clock ids).1.Dated cfg clock := by
  induction ids generalizing p with
  | nil => exact h
  | cons r ids ih => exact ih (h.dispatch r)

theorem markComplete (r origin : Nat) : (p.markComplete r origin).1.Dated cfg clock := by
  rw [Processor.markComplete]
  split
  · exact h
  · dsimp only
    split <;> exact h

theorem dispatchNext (r : Nat) : (p.dispatchNext cfg clock r).1.Dated cfg clock := by
  rw [Processor.dispatchNext]
  split
  · exact h
  · exact h.dispatch r

theorem settleAck (r origin : Nat) (inf : Inflight P) :
    (p.settleAck cfg clock r origin inf).1.Dated cfg clock := by
  rw [Processor.settleAck]
  split
  · exact h
  · split
    · exact h
    · exact h.dispatchNext r
  · exact (h.dispatchNext r).markComplete r origin

theorem processAck (callData : CallData) : (p.processAck cfg clock callData).1.Dated cfg clock := by
  rw [Processor.processAck]
  split
  · exact h
  · split
    · exact h
    · split
      · exact h
      · split
        · exact h
        · have hacked : ∀ inflight, Processor.Dated cfg clock { p with inflight } := fun _ => h
          exact (hacked _).settleAck _ _ _

theorem processNack (callData : CallData) (refusal : Refusal) :
    (p.processNack cfg clock callData refusal).1.Dated cfg clock := by
  rw [Processor.processNack]
  split
  · exact h
  · split
    · exact h
    · split
      · exact h
      · split
        · exact h
        · split
          · exact h
          · dsimp only
            split
            · exact h.handleFailure _ _ _
            · exact (h.handleFailure _ _ _).dispatch _

end Processor.Dated

theorem Processor.clockReads_handleFailure (p : Processor P) (r d : Nat) (s : DestinationStatus) :
    p.clockReads ≤ (p.handleFailure cfg clock r d s).1.clockReads := by
  rw [Processor.handleFailure]
  split
  · exact le_rfl
  · dsimp only
    split
    · exact le_rfl
    · exact Nat.le_add_right _ _

/-- At the time `now`, the timeout of destination `d` is over since a reading of the clock. -/
def Overdue (cfg : ValidatedConfig) (clock : Nat → Nat) (reads d now : Nat) : Prop :=
  ∃ k < reads, ∃ timeout, cfg.timeoutOf d = some timeout ∧ clock k + timeout ≤ now

theorem Overdue.mono {reads reads' d now : Nat} (h : Overdue cfg clock reads d now)
    (hle : reads ≤ reads') : Overdue cfg clock reads' d now := by
  obtain ⟨k, hk, timeout, hdue⟩ := h
  exact ⟨k, hk.trans_le hle, timeout, hdue⟩

/-- What the loop over expired deadlines keeps: the timeouts that it records are due. -/
structure Expiry.Timely (cfg : ValidatedConfig) (clock : Nat → Nat) (now : Nat) (e : Expiry P) :
    Prop where
  dated : e.proc.Dated cfg clock
  due : ∀ r d, .recordTimeout r d ∈ e.effects → Overdue cfg clock e.proc.clockReads d now

variable {now : Nat} {e : Expiry P} {deadline : Deadline}

/-- A timeout that is recorded for a deadline that is due. -/
theorem Expiry.Timely.record (h : e.Timely cfg clock now)
    (hover : Overdue cfg clock e.proc.clockReads deadline.destIndex now) {e' : Expiry P}
    {inflight : OrdMap Nat (Inflight P)}
    (hproc : e'.proc = { (e.proc.handleFailure cfg clock deadline.requestId deadline.destIndex
      .timedOut).1 with inflight })
    (heffects : e'.effects =
      e.effects ++ [.recordTimeout deadline.requestId deadline.destIndex]) :
    e'.Timely cfg clock now := by
  have hreads : e.proc.clockReads ≤ (e.proc.handleFailure cfg clock deadline.requestId
      deadline.destIndex .timedOut).1.clockReads := e.proc.clockReads_handleFailure _ _ _
  constructor
  · rw [hproc]
    exact h.dated.handleFailure _ _ _
  · intro r d hmem
    rw [heffects] at hmem
    rw [hproc]
    rcases mem_append.mp hmem with hmem | hmem
    · exact (h.due r d hmem).mono hreads
    · cases mem_singleton.mp hmem
      exact hover.mono hreads

theorem Expiry.Timely.expireOne (h : e.Timely cfg clock now)
    (hover : Overdue cfg clock e.proc.clockReads deadline.destIndex now) :
    (expireOne cfg clock e deadline).Timely cfg clock now := by
  rw [Fanout.expireOne]
  split
  · exact h
  · split
    · exact h
    · split
      · dsimp only
        split
        · split
          · exact h.record hover rfl rfl
          · exact h.record hover rfl rfl
        · exact h.record hover rfl rfl
      · exact h

theorem Expiry.Timely.expireLoop (h : e.Timely cfg clock now) (rounds : Nat) :
    (expireLoop cfg clock now rounds e).Timely cfg clock now := by
  induction rounds generalizing e with
  | zero => exact h
  | succ rounds ih =>
    rw [Fanout.expireLoop]
    split
    · exact h
    · rename_i deadline rest hheap
      split_ifs with hlate
      · exact h
      · obtain ⟨k, hk, timeout, htimeout, hdue⟩ := h.dated deadline (by rw [hheap]; simp)
        refine ih (Expiry.Timely.expireOne ⟨fun x hx => h.dated x ?_, h.due⟩
          ⟨k, hk, timeout, htimeout, by omega⟩)
        rw [hheap]
        exact mem_cons_of_mem _ hx

/-- No timeout is recorded. -/
def Untimed (effects : List (Effect P)) : Prop := ∀ r d, .recordTimeout r d ∉ effects

theorem Untimed.append {effects effects' : List (Effect P)} (h : Untimed effects)
    (h' : Untimed effects') : Untimed (effects ++ effects') :=
  fun r d hmem => (mem_append.mp hmem).elim (h r d) (h' r d)

end

/-! ## The outcome -/

end OtapDataflow.Fanout
