import OtapDataflow.Fanout.Record

/-! # Acks and nacks

The two handlers of replies keep the invariant (`Inv.processAck`, `Inv.processNack`).  An ack does
so if it does not make sequential delivery reach for a fallback. -/

namespace OtapDataflow.Fanout

open Node List Processor Inflight Bitmap

variable {P : Type} {cfg : ValidatedConfig}

/-! ## Acks -/

variable {input : Input P} {ep : DestinationState P} {inf inf' : Inflight P} {data : P}
  {t : List (Event P)} {p : Processor P} {effects : List (Effect P)}

section

variable {U : List CallData} {r d : Nat} (hv : cfg.Valid) (clock : Nat → Nat)

theorem countP_range {n : Nat} (q : Nat → Bool) :
    (List.range n).countP q = ((Finset.range n).filter fun i => q i = true).card := by
  rw [countP_eq_length_filter, Finset.card_def, Finset.filter_val, Finset.range_val,
    Multiset.range, Multiset.filter_coe, Multiset.coe_card]
  simp

theorem countP_eq_countP_range {α : Type} (q : α → Bool) (l : List α) :
    l.countP q = (List.range l.length).countP fun i => l[i]?.any q := by
  induction l using List.reverseRecOn with
  | nil => rfl
  | append_singleton l a ih =>
    have hcongr : (List.range l.length).countP (fun i => (l ++ [a])[i]?.any q) =
        (List.range l.length).countP fun i => l[i]?.any q := by
      refine countP_congr fun i hi => ?_
      rw [getElem?_append_left (mem_range.mp hi)]
    rw [length_append, length_singleton, range_succ, countP_append, countP_append, hcongr, ← ih]
    simp

include hv in
/-- The bit set holds every origin that has to be waited for exactly if its size says so. -/
theorem complete_iff (hs : inf.Sound cfg) (hawait : cfg.awaitAck = .all) {bits : Bitmap.Word}
    (hcounted : ∀ o, bits.getLsbD o = true ↔
      ∃ i < cfg.count, cfg.origin i = o ∧ inf.status i = .acked) :
    inf.requiredOrigins ≤ popcount bits ↔
      ∀ o, Required cfg o → ∃ i < cfg.count, cfg.origin i = o ∧ inf.status i = .acked := by
  have hrequired : ∀ o, Required cfg o ↔ o < cfg.count ∧ cfg.isFallback o = false := by
    intro o
    rw [Required, hawait]
    exact ⟨fun h => ⟨h.1, h.2.1⟩, fun h => ⟨h.1, h.2, nofun⟩⟩
  let required := (Finset.range cfg.count).filter fun o => cfg.isFallback o = false
  let done := (Finset.range 64).filter fun o => bits.getLsbD o = true
  have hcard : inf.requiredOrigins = required.card := by
    rw [hs.required, countP_eq_countP_range, countP_range]
    refine congrArg _ (Finset.filter_congr fun o ho => ?_)
    rw [ValidatedConfig.isFallback, getElem?_eq_getElem (Finset.mem_range.mp ho)]
    simp
  have hsub : done ⊆ required := by
    intro o ho
    obtain ⟨i, hi, rfl, _⟩ := (hcounted o).mp (Finset.mem_filter.mp ho).2
    exact Finset.mem_filter.mpr ⟨Finset.mem_range.mpr (hv.origin_lt hi), hv.origin_origin hi⟩
  have hpop : popcount bits = done.card := countP_range _
  rw [hcard, hpop]
  constructor
  · intro hle o ho
    have hmem : o ∈ required :=
      Finset.mem_filter.mpr ⟨Finset.mem_range.mpr ho.1, ho.2.1⟩
    rw [← Finset.eq_of_subset_of_card_le hsub hle] at hmem
    exact (hcounted o).mp (Finset.mem_filter.mp hmem).2
  · intro hall
    refine Finset.card_le_card fun o ho => ?_
    obtain ⟨ho, hfb⟩ := Finset.mem_filter.mp ho
    have hlt := Finset.mem_range.mp ho
    have hle := hv.count_le
    exact Finset.mem_filter.mpr ⟨Finset.mem_range.mpr (by omega),
      (hcounted o).mpr (hall o ((hrequired o).mpr ⟨hlt, hfb⟩))⟩

/-- The record after an ack, before the next dispatch. -/
def ackedRecord (cfg : ValidatedConfig) (inf : Inflight P) (d : Nat) : Inflight P :=
  (inf.acknowledged cfg d (cfg.origin d)).advance d

section

variable (hs : inf.Sound cfg) (hd : d < cfg.count)

include hv hs hd

/-- Where the record differs: at the destination, at the fallbacks that are skipped, and where
the sequence has advanced to. -/
theorem status_ackedRecord (i : Nat) :
    i = d ∧ (ackedRecord cfg inf d).status i = .acked ∨
      i ≠ d ∧ (ackedRecord cfg inf d).status i = inf.status i ∨
      i ≠ d ∧ inf.status i = .pendingSend ∧
        ((ackedRecord cfg inf d).status i = .skipped ∨
          (ackedRecord cfg inf d).status i = .inFlight) := by
  have hacked := hs.status_acknowledged hv hd i
  rcases status_advance (inf.acknowledged cfg d (cfg.origin d)) d i with hsame | ⟨hold, hnew⟩
  · rw [ackedRecord, hsame, hacked]
    split_ifs with hi hskip
    · exact .inl ⟨hi, rfl⟩
    · exact .inr (.inr ⟨hi, hskip.2.1, .inl rfl⟩)
    · exact .inr (.inl ⟨hi, rfl⟩)
  · rw [ackedRecord, hnew]
    rw [hacked] at hold
    split_ifs at hold with hi hskip
    exact .inr (.inr ⟨hi, hold, .inr rfl⟩)

theorem status_ackedRecord_acked (i : Nat) :
    (ackedRecord cfg inf d).status i = .acked ↔ i = d ∨ inf.status i = .acked := by
  rcases status_ackedRecord hv hs hd i with ⟨hi, h⟩ | ⟨hi, h⟩ | ⟨hi, hold, h | h⟩
  · simp [hi, ← hi ▸ h]
  · simp [hi, h]
  · simp [hi, h, hold]
  · simp [hi, h, hold]

theorem status_ackedRecord_failed (hflight : inf.status d = .inFlight) {s : DestinationStatus}
    (hfailed : s.Failed) (i : Nat) : (ackedRecord cfg inf d).status i = s ↔ inf.status i = s := by
  rcases status_ackedRecord hv hs hd i with ⟨rfl, h⟩ | ⟨_, h⟩ | ⟨_, hold, h | h⟩
  · rw [h, hflight]
    obtain rfl | rfl := hfailed <;> decide
  · rw [h]
  · rw [h, hold]
    obtain rfl | rfl := hfailed <;> decide
  · rw [h, hold]
    obtain rfl | rfl := hfailed <;> decide

theorem status_ackedRecord_inFlight {i : Nat} (hi : i ≠ d) (h : inf.status i = .inFlight) :
    (ackedRecord cfg inf d).status i = .inFlight := by
  rcases status_ackedRecord hv hs hd i with ⟨hid, _⟩ | ⟨_, hsame⟩ | ⟨_, hold, _⟩
  · exact absurd hid hi
  · rw [hsame, h]
  · rw [h] at hold
    exact nomatch hold

omit hv hs hd in
theorem payloadOf_ackedRecord (i : Nat) :
    (ackedRecord cfg inf d).payloadOf i = inf.payloadOf i ∨
      (ackedRecord cfg inf d).payloadOf i = none := by
  have hmodify : (inf.modifyDest d fun ep => { ep with status := .acked }).payloadOf i =
      inf.payloadOf i :=
    payloadOf_modifyDest_same (f := fun ep => { ep with status := .acked }) (fun _ => rfl) i
  rw [ackedRecord, payloadOf_advance, acknowledged, ← hmodify]
  exact payloadOf_skipFallbacks_or _

theorem Tracked.acked_record (h : Tracked cfg t U r inf) (hflight : inf.status d = .inFlight)
    (hU : U.Nodup) (hc : buildCallData r d ∈ U) (hbehind : cfg.ReservesBehind) :
    Tracked cfg (t ++ [.received (.ack (buildCallData r d))]) (U.erase (buildCallData r d)) r
      (ackedRecord cfg inf d) where
  sound := by
    have hacked := hs.acknowledged hv hd hflight (h.held d hc).1
    -- in sequential mode nothing else was in flight
    have hidle : cfg.mode = .sequential →
        ∀ i, (inf.acknowledged cfg d (cfg.origin d)).status i ≠ .inFlight := by
      intro hmode i hi
      obtain ⟨hi, hne⟩ := hs.inFlight_of_acknowledged hv hd hi
      exact hne (hs.single hmode i d hi hflight)
    refine hacked.advance hv hidle fun next hmode hto => ?_
    have hmode := hacked.mode.symm.trans hmode
    rw [advanceTo] at hto
    split_ifs at hto
    exact hacked.nextPending_origin hv hmode hbehind (hidle hmode) hto
  acked := fun i => by
    have hintime : ¬TimedOut t r d := by
      rw [← h.timedOut, hflight]
      intro hfailed
      cases hfailed
    rw [status_ackedRecord_acked hv hs hd, acked_snoc, h.acked, or_comm]
    refine or_congr_right ⟨?_, ?_⟩
    · rintro rfl
      exact ⟨rfl, hintime⟩
    · rintro ⟨heq, _⟩
      simp only [Event.received.injEq, Input.ack.injEq] at heq
      exact (buildCallData_inj heq).2.symm
  timedOut := fun i => by
    rw [status_ackedRecord_failed hv hs hd hflight (.inr rfl), h.timedOut, timedOut_append,
      or_iff_left (by simp [TimedOut])]
  nacked := fun i hi => by
    rw [status_ackedRecord_failed hv hs hd hflight (.inl rfl)] at hi
    exact nacked_append.mpr (.inl (h.nacked i hi))
  held := fun i hi => by
    obtain ⟨hne, hi⟩ := hU.mem_erase_iff.mp hi
    have hid : i ≠ d := fun hid => hne (by rw [hid])
    obtain ⟨hnone, hstatus⟩ := h.held i hi
    refine ⟨?_, hstatus.imp (status_ackedRecord_inFlight hv hs hd hid)
      (status_ackedRecord_failed hv hs hd hflight (.inr rfl) i).mpr⟩
    obtain hsame | hnone' := payloadOf_ackedRecord i
    · rw [hsame, hnone]
    · exact hnone'
  payload := fun i m hm => by
    obtain hsame | hnone := payloadOf_ackedRecord i
    · rw [hsame] at hm
      exact h.payload i m hm
    · rw [hnone] at hm
      cases hm

end

theorem Processor.dispatchNext_spec (hinf : p.inflight.get? r = some inf) :
    ∃ inf' sent, sent ⊆ inf.toSend ∧
      Inflight.Dispatched cfg inf inf' (p.dispatchNext cfg clock r).2 sent ∧
      Changes r p (p.dispatchNext cfg clock r).1 ∧
      (p.dispatchNext cfg clock r).1.inflight.get? r = some inf' ∧
      (p.dispatchNext cfg clock r).1.slimInflight = p.slimInflight := by
  rw [dispatchNext]
  cases cfg.mode with
  | parallel =>
    exact ⟨inf, [], nil_subset _, .refl cfg inf, .refl r p, hinf, rfl⟩
  | sequential => exact dispatch_spec clock hinf

/-- A late answer to a request that has its outcome changes nothing. -/
theorem Settled.late {outcome : Outcome P} {e : Event P} (h : Settled cfg t U r outcome)
    (hc : buildCallData r d ∈ U) (he : ∀ i, e = .received (.ack (buildCallData r i)) → i = d)
    {U' : List CallData} (hU : ∀ c ∈ U', c ∈ U) : Settled cfg (t ++ [e]) U' r outcome := by
  have hmono : ∀ {i}, Acked t r i → Acked (t ++ [e]) r i := fun h => acked_snoc.mpr (.inl h)
  cases outcome with
  | ack accepted =>
    intro o ho
    obtain ⟨i, hi, hio, hacked⟩ := h o ho
    exact ⟨i, hi, hio, hmono hacked⟩
  | nack refused refusal =>
    obtain ⟨o, ho, hchain⟩ := h
    refine ⟨o, ho, fun i hi hio => ?_⟩
    obtain ⟨hfailed, hacked, hlate⟩ := hchain i hi hio
    refine ⟨?_, ?_, ?_⟩
    · rw [Failed, nacked_append, timedOut_append]
      exact hfailed.imp .inl .inl
    · rw [acked_snoc]
      rintro (hack | ⟨heq, htime⟩)
      · exact hacked hack
      · obtain rfl := he i heq
        obtain hlate | hgone := hlate
        · exact htime hlate
        · exact hgone hc
    · rw [timedOut_append]
      exact hlate.imp .inl fun hnot hmem => hnot (hU _ hmem)

/-- An ack is the answer to the message of its own destination. -/
theorem answers_ack (hanswers : input.answers = some (buildCallData r d)) {i : Nat}
    (heq : (.received input : Event P) = .received (.ack (buildCallData r i))) : i = d := by
  rw [Event.received.inj heq] at hanswers
  exact (buildCallData_inj (Option.some.inj hanswers)).2

theorem Processor.processAck_unknown (hinf : p.inflight.get? r = none) :
    p.processAck cfg clock (buildCallData r d) = (p, []) := by
  simp [processAck, parseCallData, buildCallData, hinf]

theorem Processor.processAck_late (hinf : p.inflight.get? r = some inf)
    (hep : inf.destinations[d]? = some ep) (hstatus : ep.status = .timedOut) :
    p.processAck cfg clock (buildCallData r d) = (p, []) := by
  simp [processAck, parseCallData, buildCallData, hinf, hep, hstatus]

theorem Processor.processAck_inFlight
    (hinf : p.inflight.get? r = some inf) (hep : inf.destinations[d]? = some ep)
    (hstatus : ep.status = .inFlight) (horigin : ep.origin = cfg.origin d) :
    p.processAck cfg clock (buildCallData r d) =
      settleAck cfg clock { p with inflight := p.inflight.insert r (ackedRecord cfg inf d) } r
        (cfg.origin d) (ackedRecord cfg inf d) := by
  simp [processAck, parseCallData, buildCallData, hinf, hep, hstatus, horigin, ackedRecord]

theorem Changes.insert (inf : Inflight P) :
    Changes r p { p with inflight := p.inflight.insert r inf } :=
  ⟨rfl, fun r' hr => by simp [hr], fun _ _ => rfl⟩

theorem Changes.erase (r : Nat) (p : Processor P) :
    Changes r p { p with inflight := p.inflight.erase r } :=
  ⟨rfl, fun r' hr => by simp [hr], fun _ _ => rfl⟩

/-- The invariant after an input was handled with the given result. -/
def After (cfg : ValidatedConfig) (U : List CallData) (t : List (Event P)) (input : Input P)
    (result : Processor P × List (Effect P)) : Prop :=
  Inv cfg result.1 (input.answers.elim U U.erase ++ subscriptions result.2)
    (t ++ .received input :: result.2.map .did)
    (outcomes (t ++ .received input :: result.2.map .did))

section

variable (h : Inv cfg p U t (outcomes t)) (hc : buildCallData r d ∈ U)
  (hanswers : input.answers = some (buildCallData r d)) (hdata : (requests t)[r - 1]? = some data)
include h hc hanswers hdata

/-- An answer to a message of request `r` only has to be looked at there. -/
theorem Inv.answer {p' : Processor P}
    (hp : Changes r p p') (hquiet : ∀ r' ≠ r, ∀ e ∈ effects.map .did, ¬Event.Concerns r' e)
    (hout : ∀ r' ≠ r, outcomes (effects.map .did) r' = [])
    (hnodup : (U.erase (buildCallData r d) ++ subscriptions effects).Nodup)
    (hsent : ∀ c ∈ subscriptions effects, ∃ i < cfg.count, c = buildCallData r i)
    (hnew : RequestInv cfg (t ++ .received input :: effects.map .did)
      (U.erase (buildCallData r d) ++ subscriptions effects) r (p'.inflight.get? r)
      (p'.slimInflight.get? r) (outcomes t r ++ outcomes (effects.map .did) r) data) :
    After cfg U t input (p', effects) := by
  obtain ⟨hr, hlt, -⟩ := h.of_held hc
  have hinput : ∀ r' ≠ r, ¬Event.Concerns r' (.received input) := by
    intro r' hr' hconcerns
    cases input with
    | ack | nack =>
      obtain ⟨d', rfl⟩ := hconcerns
      exact hr' (buildCallData_inj (Option.some.inj hanswers)).1
    | pdata | timerTick | otherControl => exact hconcerns
  have hcons : ∀ r', outcomes (.received input :: effects.map .did) r' =
      outcomes (effects.map .did) r' := fun r' => rfl
  have hrequests : requests (.received input :: effects.map .did) = [] := by
    cases input with
    | pdata => exact nomatch hanswers
    | ack | nack | timerTick | otherControl => exact requests_did effects
  rw [After, hanswers]
  refine h.update hp (fun r' hr' => ?_) (fun r' hr' => ?_) hrequests hnodup (fun c hc => ?_) hr hlt
    fun data' hdata' => ?_
  · rw [outcomes_append, hcons, hout r' hr', append_nil]
  · exact forall_mem_cons.mpr ⟨hinput r' hr', hquiet r' hr'⟩
  · exact (mem_append.mp hc).imp mem_of_mem_erase (hsent c)
  · rw [hdata] at hdata'
    cases hdata'
    rwa [outcomes_append, hcons]

/-- An answer that is ignored. -/
theorem Inv.ignore (hnew : RequestInv cfg (t ++ [.received input]) (U.erase (buildCallData r d)) r
      (p.inflight.get? r) (p.slimInflight.get? r) (outcomes t r) data) :
    After cfg U t input (p, []) := by
  have hnone : subscriptions ([] : List (Effect P)) = [] := rfl
  refine h.answer hc hanswers hdata (.refl r p) (fun _ _ => forall_mem_nil _)
    (fun _ _ => rfl) ?_ (forall_mem_nil _) ?_
  · rw [hnone, append_nil]
    exact h.nodup.erase _
  · rw [hnone, append_nil]
    exact (append_nil (outcomes t r)).symm ▸ hnew

end

theorem Tracked.withBits (h : Tracked cfg t U r inf) (bits : Bitmap.Word) :
    Tracked cfg t U r { inf with completedOrigins := bits } where
  sound := { h.sound with }
  acked := h.acked
  timedOut := h.timedOut
  nacked := h.nacked
  held := h.held
  payload := h.payload

theorem Processor.markComplete_eq (hinf : p.inflight.get? r = some inf) (o : Nat) :
    p.markComplete r o =
      if inf.requiredOrigins ≤ popcount (inf.completedOrigins ||| mask o) then
        ({ p with inflight := p.inflight.erase r }, some inf.originalPdata)
      else
        ({ p with inflight := (p.inflight.insert r
             { inf with completedOrigins := inf.completedOrigins ||| mask o }) }, none) := by
  rw [markComplete, hinf]

section

variable {p' : Processor P} {inf₁ inf₂ : Inflight P} {sent : List Nat}
  (h : Inv cfg p U t (outcomes t)) (hc : buildCallData r d ∈ U)
  (hanswers : input.answers = some (buildCallData r d)) (hdata : (requests t)[r - 1]? = some data)
  (hfresh : outcomes t r = []) (hslim : p.slimInflight.get? r = none)
  (htracked : Tracked cfg (t ++ [.received input]) (U.erase (buildCallData r d)) r inf₁)
  (hd : Inflight.Dispatched cfg inf₁ inf₂ effects sent) (hsub : sent ⊆ inf₁.toSend)
  (hp : Changes r p p') (hslim' : p'.slimInflight = p.slimInflight)

include h hc hanswers hdata hfresh hslim htracked hd hsub hp hslim'

/-- The answer settles the request, which is answered upstream in turn. -/
theorem Inv.answer_finish (outcome : Outcome P) (hgone : p'.inflight.get? r = none)
    (hdone : Settled cfg (t ++ [.received input])
      (U.erase (buildCallData r d) ++ subscriptions effects) r outcome) (hsame :
      outcome.data = data) :
    After cfg U t input (p', effects ++ [outcome.notify r]) := by
  have hsubs : subscriptions (effects ++ [outcome.notify r]) = subscriptions effects := by
    rw [subscriptions_append, outcome.subscriptions_notify, append_nil]
  have hmap : (effects ++ [outcome.notify r]).map Event.did =
      effects.map Event.did ++ [.did (outcome.notify r)] := map_append
  have hquiet : ∀ r', ∀ e ∈ (effects ++ [outcome.notify r]).map Event.did,
      ¬Event.Concerns r' e := by
    intro r'
    rw [hmap]
    exact forall_mem_append.mpr ⟨hd.quiet r', forall_mem_singleton.mpr (outcome.quiet_notify r r')⟩
  refine h.answer hc hanswers hdata hp (fun r' _ => hquiet r') ?_ ?_ ?_ ?_
  · intro r' hr'
    rw [hmap, outcomes_append, hd.outcomes, outcome.outcomes_notify, if_neg (Ne.symm hr')]
    rfl
  · rw [hsubs]
    exact htracked.nodup_dispatched hd (h.nodup.erase _)
  · rw [hsubs, hd.subscriptions htracked.payload]
    exact fun c hc => htracked.sent_known hd hsub hc
  · rw [hgone, hslim', hslim, hfresh, hmap, outcomes_append, hd.outcomes, outcome.outcomes_notify,
      if_pos rfl, hsubs, ← hsame]
    have hall := hdone.quiet (hquiet r)
    rw [hmap, append_assoc, singleton_append] at hall
    exact .settled hall

/-- The request goes on waiting. -/
theorem Inv.answer_continue (hfull : cfg.useSlimPrimary = false) {inf₃ : Inflight P}
    (hinf : p'.inflight.get? r = some inf₃)
    (htracked' : Tracked cfg (t ++ [.received input] ++ effects.map .did)
      (U.erase (buildCallData r d) ++ subscriptions effects) r inf₃)
    (hunsettled : Unsettled cfg (t ++ [.received input] ++ effects.map .did) r inf₃)
    (hsame : inf₃.originalPdata = data) : After cfg U t input (p', effects) := by
  refine h.answer hc hanswers hdata hp (fun r' _ => hd.quiet r') (fun r' _ => hd.outcomes r')
    (htracked.nodup_dispatched hd (h.nodup.erase _)) ?_ ?_
  · rw [hd.subscriptions htracked.payload]
    exact fun c hc => htracked.sent_known hd hsub hc
  · rw [hinf, hslim', hslim, hfresh, hd.outcomes, ← hsame]
    rw [append_assoc, singleton_append] at htracked' hunsettled
    exact .inflight hfull htracked' hunsettled

end

/-- The origins counted after an ack. -/
theorem counted_ack {bits : Bitmap.Word} (hv : cfg.Valid) (hd : d < cfg.count)
    (hcounted : ∀ o, bits.getLsbD o = true ↔
      ∃ i < cfg.count, cfg.origin i = o ∧ inf.status i = .acked)
    (hstatus : ∀ i, inf'.status i = .acked ↔ i = d ∨ inf.status i = .acked) (o : Nat) :
    (bits ||| mask (cfg.origin d)).getLsbD o = true ↔
      ∃ i < cfg.count, cfg.origin i = o ∧ inf'.status i = .acked := by
  have hmask : (mask (cfg.origin d)).getLsbD o = true ↔ cfg.origin d = o := by
    by_cases ho : o < 64
    · rw [mask_getLsbD ho, decide_eq_true_eq]
    · have hlt := hv.origin_lt hd
      have hle := hv.count_le
      rw [BitVec.getLsbD_of_ge _ _ (not_lt.mp ho)]
      exact ⟨nofun, fun heq => by omega⟩
  rw [BitVec.getLsbD_or, Bool.or_eq_true, hcounted, hmask]
  simp only [hstatus]
  constructor
  · rintro (⟨i, hi, hio, hacked⟩ | ho)
    · exact ⟨i, hi, hio, .inr hacked⟩
    · exact ⟨d, hd, ho, .inl rfl⟩
  · rintro ⟨i, hi, hio, rfl | hacked⟩
    · exact .inr hio
    · exact .inl ⟨i, hi, hio, hacked⟩

/-- Acks in the record and in the trace. -/
theorem Tracked.succeeded_iff (h : Tracked cfg t U r inf) :
    Succeeded cfg t r ↔
      ∀ o, Required cfg o → ∃ i < cfg.count, cfg.origin i = o ∧ inf.status i = .acked := by
  simp [Succeeded, h.acked]

section

variable (h : Inv cfg p U t (outcomes t)) (hfull : cfg.useSlimPrimary = false)
  (hc : buildCallData r d ∈ U) (hdcount : d < cfg.count)
  (hdata : (requests t)[r - 1]? = some inf.originalPdata)
  (hfresh : outcomes t r = []) (hslim : p.slimInflight.get? r = none)
  (hunsettled : Unsettled cfg t r inf)
  (htracked : Tracked cfg (t ++ [.received (.ack (buildCallData r d))])
    (U.erase (buildCallData r d)) r (ackedRecord cfg inf d))
  (hacked : ∀ i, (ackedRecord cfg inf d).status i = .acked ↔ i = d ∨ inf.status i = .acked)

include hv h hfull hc hdcount hdata hfresh hslim hunsettled htracked hacked

theorem Inv.settleAck (hawait : cfg.awaitAck ≠ .none) :
    After cfg U t (.ack (buildCallData r d))
      (settleAck cfg clock { p with inflight := p.inflight.insert r (ackedRecord cfg inf d) }
        r (cfg.origin d) (ackedRecord cfg inf d)) := by
  have hreshaped : Inflight.Reshaped inf (ackedRecord cfg inf d) :=
    (Inflight.Reshaped.acknowledged _).trans (.advance _ _)
  have hinf₁ : ({ p with inflight := p.inflight.insert r (ackedRecord cfg inf d) } :
      Processor P).inflight.get? r = some (ackedRecord cfg inf d) := by simp
  have hchange : Changes r p { p with inflight := p.inflight.insert r (ackedRecord cfg inf d) } :=
    .insert _
  obtain ⟨inf₂, sent, hsub, hd, hp, hinf₂, hslim₂⟩ := dispatchNext_spec clock hinf₁
  have htracked₂ := htracked.dispatched hd hsub
  have hdata₂ : inf₂.originalPdata = inf.originalPdata :=
    hd.reshaped.originalPdata.trans hreshaped.originalPdata
  rw [Processor.settleAck, htracked.sound.awaitAck, htracked.sound.primary]
  cases hcase : cfg.awaitAck with
  | none => exact absurd hcase hawait
  | primary =>
    dsimp only
    split_ifs with horigin
    · rw [hreshaped.originalPdata]
      refine h.answer_finish hc rfl hdata hfresh hslim htracked (.refl cfg _) (nil_subset _)
        (hchange.trans (.erase r _)) rfl (.ack inf.originalPdata) (by simp) ?_ rfl
      intro o ho
      obtain rfl := ho.2.2 hcase
      exact ⟨d, hdcount, horigin, (htracked.acked d).mp ((hacked d).mpr (.inl rfl))⟩
    · refine h.answer_continue hc rfl hdata hfresh hslim htracked hd hsub (hchange.trans hp) hslim₂
        hfull hinf₂ htracked₂ ?_ hdata₂
      refine Unsettled.dispatched ⟨fun hdone => ?_, fun hall =>
        absurd (hcase.symm.trans hall) nofun⟩ hd
      obtain ⟨i, hi, hio, hack⟩ := hdone _ ⟨hv.primary_lt, hv.primary_origin, fun _ => rfl⟩
      obtain hold | ⟨heq, _⟩ := acked_snoc.mp hack
      · refine hunsettled.waits fun o ho => ?_
        obtain rfl := ho.2.2 hcase
        exact ⟨i, hi, hio, hold⟩
      · exact horigin (answers_ack rfl heq ▸ hio)
  | all =>
    have hcounted := counted_ack hv hdcount (hunsettled.counted hcase)
      (fun i => (hd.status i ▸ hacked i : inf₂.status i = .acked ↔ _))
    have hbits : inf₂.completedOrigins = inf.completedOrigins :=
      hd.reshaped.completedOrigins.trans hreshaped.completedOrigins
    have hsucceeded : Succeeded cfg (t ++ [.received (.ack (buildCallData r d))]) r ↔
        inf₂.requiredOrigins ≤
          popcount (inf₂.completedOrigins ||| mask (cfg.origin d)) := by
      rw [hbits, complete_iff hv htracked₂.sound hcase hcounted, ← htracked₂.succeeded_iff,
        succeeded_quiet (hd.quiet r)]
    dsimp only
    rw [markComplete_eq hinf₂]
    split_ifs with hdone
    · rw [hdata₂]
      exact h.answer_finish hc rfl hdata hfresh hslim htracked hd hsub
        ((hchange.trans hp).trans (.erase r _)) hslim₂ (.ack inf.originalPdata) (by simp)
        (hsucceeded.mpr hdone) rfl
    · dsimp only
      rw [Option.toList_none, map_nil, append_nil]
      refine h.answer_continue hc rfl hdata hfresh hslim htracked hd hsub
        ((hchange.trans hp).trans (.insert _)) hslim₂ hfull
        ((OrdMap.get?_insert _ _ _ _).trans (if_pos rfl)) (htracked₂.withBits _)
        ⟨?_, fun _ o => ?_⟩ hdata₂
      · rwa [succeeded_quiet (hd.quiet r), hsucceeded]
      · rw [hbits]
        exact hcounted o

end

/-- An answer that is ignored leaves the record in step with the trace: a nack, or an ack that
comes too late. -/
theorem Tracked.answered (h : Tracked cfg t U r inf) (d : Nat)
    (hlate : ∀ i, input = .ack (buildCallData r i) → TimedOut t r i) :
    Tracked cfg (t ++ [.received input]) (U.erase (buildCallData r d)) r inf ∧
      (Succeeded cfg (t ++ [.received input]) r ↔ Succeeded cfg t r) := by
  have hacked : ∀ i, Acked (t ++ [.received input]) r i ↔ Acked t r i := by
    intro i
    rw [acked_snoc, or_iff_left]
    rintro ⟨heq, htime⟩
    exact htime (hlate i (Event.received.inj heq))
  refine ⟨{
    sound := h.sound
    acked := fun i => by rw [hacked, h.acked]
    timedOut := fun i => by
      rw [timedOut_append, or_iff_left (by simp [TimedOut]), h.timedOut]
    nacked := fun i hi => nacked_append.mpr (.inl (h.nacked i hi))
    held := fun i hi => h.held i (mem_of_mem_erase hi)
    payload := h.payload }, ?_⟩
  simp [Succeeded, hacked]

/-- A reply that changes nothing: it is late, or it does not decide. -/
theorem Inv.ignore_reply (h : Inv cfg p U t (outcomes t))
    (hc : buildCallData r d ∈ U) (hanswers : input.answers = some (buildCallData r d))
    (hlate : cfg.useSlimPrimary = false → ∀ inf, p.inflight.get? r = some inf →
      ∀ i, input = .ack (buildCallData r i) → TimedOut t r i)
    (hother : cfg.useSlimPrimary = true → p.slimInflight.get? r ≠ none → d ≠ cfg.primaryIndex) :
    After cfg U t input (p, []) := by
  obtain ⟨-, -, -, data, hdata, hreq⟩ := h.of_held hc
  refine h.ignore hc hanswers hdata ?_
  generalize outcomes t r = up at hreq ⊢
  generalize p.inflight.get? r = inf at hreq hlate ⊢
  generalize p.slimInflight.get? r = slot at hreq hother ⊢
  cases hreq with
  | inflight hfull htracked hunsettled =>
    obtain ⟨htracked', hiff⟩ := htracked.answered d (hlate hfull _ rfl)
    exact .inflight hfull htracked' ⟨fun hdone => hunsettled.waits (hiff.mp hdone),
      hunsettled.counted⟩
  | slim hslim huntimed hwaits =>
    refine .slim hslim (fun i => ?_) ?_
    · rw [timedOut_append, or_iff_left (by simp [TimedOut])]
      exact huntimed i
    · rwa [acked_snoc, or_iff_left fun hack => hother hslim (Option.some_ne_none _)
        (answers_ack hanswers hack.1).symm]
  | settled hsettled =>
    exact .settled (hsettled.late hc (fun i => answers_ack hanswers) fun c => mem_of_mem_erase)

include hv in
theorem Inv.processAck (h : Inv cfg p U t (outcomes t)) (hfull : cfg.useSlimPrimary = false)
    (hawait : cfg.awaitAck ≠ .none) (hc : buildCallData r d ∈ U)
    (hbehind : cfg.ReservesBehind) :
    After cfg U t (.ack (buildCallData r d)) (p.processAck cfg clock (buildCallData r d)) := by
  have hignore : (∀ inf, p.inflight.get? r = some inf → TimedOut t r d) →
      After cfg U t (.ack (buildCallData r d)) (p, []) := by
    intro hlate
    refine h.ignore_reply hc rfl (fun _ inf hinf i heq => ?_)
      fun hslim => nomatch hfull.symm.trans hslim
    obtain rfl := (buildCallData_inj (Input.ack.inj heq)).2
    exact hlate inf hinf
  obtain ⟨-, -, hd, data, hdata, hreq⟩ := h.of_held hc
  generalize hup : outcomes t r = up at hreq
  generalize hslot : p.slimInflight.get? r = slot at hreq
  cases hinf : p.inflight.get? r with
  | none =>
    rw [processAck_unknown clock hinf]
    exact hignore fun inf hsome => nomatch hinf.symm.trans hsome
  | some inf =>
    rw [hinf] at hreq
    obtain ⟨-, htracked, hunsettled⟩ := hreq
    obtain ⟨ep, hep⟩ := htracked.sound.getElem? hd
    have hstatus := status_eq hep
    have horigin := htracked.sound.origin hep
    obtain ⟨-, hflight | hlate⟩ := htracked.held d hc
    · rw [processAck_inFlight clock hinf hep (hstatus ▸ hflight) horigin]
      refine h.settleAck hv clock hfull hc hd hdata hup hslot hunsettled
        (htracked.acked_record hv htracked.sound hd hflight h.nodup hc hbehind)
        (status_ackedRecord_acked hv htracked.sound hd) hawait
    · rw [processAck_late clock hinf hep (hstatus ▸ hlate)]
      exact hignore fun _ _ => (htracked.timedOut d).mp hlate

end

/-! ## Failures -/

variable {refusal : Refusal}

section

variable {U U' : List CallData} {r d : Nat} (hv : cfg.Valid) (clock : Nat → Nat)
  {s : DestinationStatus} {e : Event P}

theorem Inflight.FailedRecord.acked_iff (h : Inflight.FailedRecord cfg inf inf' d s) (hs : s.Failed)
    (hflight : inf.status d = .inFlight) (i : Nat) :
    inf'.status i = .acked ↔ inf.status i = .acked := by
  by_cases hi : i = d
  · rw [hi, h.failed, hflight]
    obtain rfl | rfl := hs <;> decide
  · obtain hsame | ⟨hold, hnew⟩ := h.other i hi
    · rw [hsame]
    · rw [hold, hnew]
      decide

theorem Inflight.FailedRecord.failed_iff (h : Inflight.FailedRecord cfg inf inf' d s)
    (hflight : inf.status d = .inFlight) {s' : DestinationStatus} (hs' : s'.Failed) (i : Nat) :
    inf'.status i = s' ↔ inf.status i = s' ∨ i = d ∧ s = s' := by
  by_cases hi : i = d
  · rw [hi, h.failed, hflight]
    obtain rfl | rfl := hs' <;> simp
  · obtain hsame | ⟨hold, hnew⟩ := h.other i hi
    · simp [hsame, hi]
    · rw [hold, hnew]
      obtain rfl | rfl := hs' <;> simp [hi]

/-- A failure keeps the record in step with the trace, to which the event `e` adds it. -/
theorem Tracked.failed_record (h : Tracked cfg t U r inf)
    (hf : Inflight.FailedRecord cfg inf inf' d s)
    (hs : s.Failed) (hflight : inf.status d = .inFlight)
    (hack : ∀ i, e ≠ .received (.ack (buildCallData r i)))
    (htime : ∀ i, TimedOut [e] r i ↔ i = d ∧ s = .timedOut) (hnack : s = .nacked → Nacked [e] r d)
    (hU : ∀ i, buildCallData r i ∈ U' → buildCallData r i ∈ U ∧ (i = d → s = .timedOut)) :
    Tracked cfg (t ++ [e]) U' r inf' ∧ (Succeeded cfg (t ++ [e]) r ↔ Succeeded cfg t r) := by
  have hacked : ∀ i, Acked (t ++ [e]) r i ↔ Acked t r i := by
    intro i
    rw [acked_snoc, or_iff_left fun hnew => hack i hnew.1]
  refine ⟨{
    sound := hf.sound
    acked := fun i => by rw [hf.acked_iff hs hflight, h.acked, hacked]
    timedOut := fun i => by
      rw [hf.failed_iff hflight (.inr rfl), h.timedOut, timedOut_append, htime]
    nacked := fun i hi => by
      rw [nacked_append]
      obtain hold | ⟨rfl, hnew⟩ := (hf.failed_iff hflight (.inl rfl) i).mp hi
      · exact .inl (h.nacked i hold)
      · exact .inr (hnack hnew)
    held := fun i hi => by
      obtain ⟨hmem, hlate⟩ := hU i hi
      obtain ⟨hnone, hstatus⟩ := h.held i hmem
      rw [hf.payload]
      refine ⟨hnone, ?_⟩
      by_cases hid : i = d
      · rw [hid, hf.failed]
        exact .inr (hlate hid)
      · obtain hsame | ⟨_, hnew⟩ := hf.other i hid
        · rwa [hsame]
        · exact .inl hnew
    payload := fun i m hm => h.payload i m (hf.payload i ▸ hm) }, ?_⟩
  simp [Succeeded, hacked]

include hv

/-- A destination in flight fails: the last one of its chain, or one with a fallback. -/
theorem Processor.handleFailure_spec (hs : inf.Sound cfg) (hinf : p.inflight.get? r = some inf)
    (hd : d < cfg.count) (hflight : inf.status d = .inFlight) (hstatus : s.Failed)
    (hsent : s = .timedOut ∨ inf.payloadOf d = none) :
    ∃ inf', Inflight.FailedRecord cfg inf inf' d s ∧
      Changes r p (p.handleFailure cfg clock r d s).1 ∧
      (p.handleFailure cfg clock r d s).1.inflight.get? r = some inf' ∧
      (p.handleFailure cfg clock r d s).1.slimInflight = p.slimInflight ∧
      ((∀ i, ¬cfg.Follows d i) ∧
          (p.handleFailure cfg clock r d s).2 = some inf.originalPdata ∨
        (p.handleFailure cfg clock r d s).2 = none) := by
  have hpending := hs.pendingFallback_eq (s := s) hv hd hflight
  rw [failed] at hpending
  rw [handleFailure, hinf]
  dsimp only
  rw [hpending]
  cases hfb : cfg.fallbackForDest[d]?.join with
  | none =>
    have hlast : ∀ i, ¬cfg.Follows d i := fun i hi => by cases hfb.symm.trans hi
    refine ⟨inf.failed d s, hs.fail hv hstatus hflight hsent .failed (fun i => ?_)
      payloadOf_failed fun _ => .inl, .insert _, ?_, rfl, .inl ⟨hlast, rfl⟩⟩
    · rw [hs.status_failed hd, if_neg (hlast i)]
    · exact (OrdMap.get?_insert _ _ _ _).trans (if_pos rfl)
  | some fb =>
    have hlen : fb < (inf.failed d s).destinations.length := by
      rw [Inflight.Reshaped.failed.length, hs.length]
      exact (hv.follows_lt hfb).2
    refine ⟨_, hs.fail hv hstatus hflight hsent (Inflight.Reshaped.failed.trans .trigger)
      (fun i => ?_) (fun i => ?_) fun i hi => ?_, ⟨rfl, fun r' hr => ?_, fun _ _ => rfl⟩,
      (OrdMap.get?_insert _ _ _ _).trans (if_pos rfl), rfl, .inr rfl⟩
    · rw [status_trigger hlen, hs.status_failed hd]
      simp only [ValidatedConfig.Follows, hfb, Option.some.injEq, eq_comm]
    · rw [payloadOf_trigger, payloadOf_failed]
    · obtain hqueue | hqueue := queue_trigger <;> rw [hqueue] at hi
      · exact .inl hi
      · exact .inr (mem_singleton.mp hi ▸ hfb)
    · simp [hr]

omit hv in
/-- The destinations of a chain that has failed can give no ack any more. -/
theorem Tracked.chain_settled (hv : cfg.Valid) (h : Tracked cfg t U r inf) (hd : d < cfg.count)
    (hfailed : (inf.status d).Failed) (hlast : ∀ i, ¬cfg.Follows d i)
    (hrequired : cfg.awaitAck = .primary → cfg.origin d = cfg.primaryIndex) (refused : P)
    (refusal : Refusal) : Settled cfg t U r (.nack refused refusal) := by
  refine ⟨cfg.origin d, ⟨hv.origin_lt hd, hv.origin_origin hd, hrequired⟩, fun i hi hio => ?_⟩
  have hstatus := h.sound.chain_failed hv hd hfailed hlast hi hio
  refine ⟨hstatus.imp (h.nacked i) (h.timedOut i).mp, ?_, ?_⟩
  · rw [← h.acked]
    obtain heq | heq := hstatus <;> rw [heq] <;> exact nofun
  · obtain heq | heq := hstatus
    · refine .inr fun hmem => ?_
      have := (h.held i hmem).2
      rw [heq] at this
      exact this.elim nofun nofun
    · exact .inl ((h.timedOut i).mp heq)

omit hv in
theorem Processor.processNack_unknown (hinf : p.inflight.get? r = none) :
    p.processNack cfg clock (buildCallData r d) refusal = (p, []) := by
  simp [processNack, parseCallData, buildCallData, hinf]

omit hv in
theorem Processor.processNack_ignored
    (hinf : p.inflight.get? r = some inf) (hep : inf.destinations[d]? = some ep)
    (hstatus : ep.status = .timedOut ∨ inf.awaitAck = .primary ∧ ep.origin ≠ inf.primary) :
    p.processNack cfg clock (buildCallData r d) refusal = (p, []) := by
  simp only [processNack, parseCallData, buildCallData, hinf, hep]
  split_ifs with h₁ h₂
  · rfl
  · rfl
  · exact absurd hstatus (not_or.mpr ⟨h₁, h₂⟩)

section

variable (hinf : p.inflight.get? r = some inf) (hep : inf.destinations[d]? = some ep)
  (hstatus : ep.status ≠ .timedOut)
  (hrequired : ¬(inf.awaitAck = .primary ∧ ep.origin ≠ inf.primary))

include hinf hep hstatus hrequired

omit hv in
theorem Processor.processNack_refused {refused : P}
    (hfailure : (p.handleFailure cfg clock r d .nacked).2 = some refused) :
    p.processNack cfg clock (buildCallData r d) refusal =
      ({ (p.handleFailure cfg clock r d .nacked).1 with
         inflight := (p.handleFailure cfg clock r d .nacked).1.inflight.erase r },
        [.notifyNack r refused refusal]) := by
  simp only [processNack, parseCallData, buildCallData, hinf, hep]
  rw [if_neg hstatus, if_neg hrequired, hfailure]

omit hv in
theorem Processor.processNack_triggered
    (hfailure : (p.handleFailure cfg clock r d .nacked).2 = none) :
    p.processNack cfg clock (buildCallData r d) refusal =
      (p.handleFailure cfg clock r d .nacked).1.dispatch cfg clock r := by
  simp only [processNack, parseCallData, buildCallData, hinf, hep]
  rw [if_neg hstatus, if_neg hrequired, hfailure]

end

theorem Inv.processNack (h : Inv cfg p U t (outcomes t)) (hfull : cfg.useSlimPrimary = false)
    (hc : buildCallData r d ∈ U) (refusal : Refusal) :
    After cfg U t (.nack (buildCallData r d) refusal)
      (p.processNack cfg clock (buildCallData r d) refusal) := by
  have hnoack : ∀ i, (.nack (buildCallData r d) refusal : Input P) ≠ .ack (buildCallData r i) :=
    fun i => nofun
  have hignore : After cfg U t (.nack (buildCallData r d) refusal) (p, []) :=
    h.ignore_reply hc rfl (fun _ _ _ i heq => absurd heq (hnoack i))
      fun hslim => nomatch hfull.symm.trans hslim
  obtain ⟨-, -, hd, data, hdata, hreq⟩ := h.of_held hc
  generalize hup : outcomes t r = up at hreq
  generalize hslot : p.slimInflight.get? r = slot at hreq
  cases hinf : p.inflight.get? r with
  | none =>
    rwa [processNack_unknown clock hinf]
  | some inf =>
    rw [hinf] at hreq
    obtain ⟨-, htracked, hunsettled⟩ := hreq
    obtain ⟨ep, hep⟩ := htracked.sound.getElem? hd
    have hstatus := status_eq hep
    have horigin := htracked.sound.origin hep
    by_cases hignored : ep.status = .timedOut ∨ inf.awaitAck = .primary ∧ ep.origin ≠ inf.primary
    · rwa [processNack_ignored clock hinf hep hignored]
    · obtain ⟨hlate, hrequired⟩ := not_or.mp hignored
      obtain ⟨hnone, hflight⟩ := htracked.held d hc
      have hflight : inf.status d = .inFlight :=
        hflight.resolve_right fun htime => hlate (hstatus ▸ htime)
      obtain ⟨inf₁, hf, hchange, hinf₁, hslim₁, hresult⟩ :=
        handleFailure_spec (s := .nacked) hv clock htracked.sound hinf hd hflight (.inl rfl)
          (.inr hnone)
      have hleft : ∀ i, buildCallData r i ∈ U.erase (buildCallData r d) →
          buildCallData r i ∈ U ∧ (i = d → (.nacked : DestinationStatus) = .timedOut) := by
        intro i hi
        obtain ⟨hne, hi⟩ := h.nodup.mem_erase_iff.mp hi
        exact ⟨hi, fun hid => absurd (by rw [hid]) hne⟩
      obtain ⟨htracked₁, hiff⟩ :=
        htracked.failed_record (e := .received (.nack (buildCallData r d) refusal)) hf
          (.inl rfl) hflight
          (fun i heq => hnoack i (Event.received.inj heq)) (fun i => by simp [TimedOut])
          (fun _ => ⟨refusal, mem_singleton_self _⟩) hleft
      have hacked := hf.acked_iff (.inl rfl) hflight
      obtain ⟨hlast, hrefused⟩ | htriggered := hresult
      · rw [processNack_refused clock hinf hep hlate hrequired hrefused]
        refine h.answer_finish hc rfl hdata hup hslot htracked₁ (.refl cfg _) (nil_subset _)
          (hchange.trans (.erase r _)) hslim₁ (.nack inf.originalPdata refusal) (by simp) ?_ rfl
        have hmine : cfg.awaitAck = .primary → cfg.origin d = cfg.primaryIndex := by
          rw [horigin, htracked.sound.awaitAck, htracked.sound.primary] at hrequired
          exact fun hawait => not_not.mp fun hne => hrequired ⟨hawait, hne⟩
        have hsettled := htracked₁.chain_settled hv hd (.inl hf.failed) hlast hmine
            inf.originalPdata refusal
        rwa [← append_nil (U.erase _)] at hsettled
      · rw [processNack_triggered clock hinf hep hlate hrequired htriggered]
        obtain ⟨inf₂, sent, hsub, hdisp, hchange₂, hinf₂, hslim₂⟩ :=
          dispatch_spec clock hinf₁
        refine h.answer_continue hc rfl hdata hup hslot htracked₁ hdisp hsub
          (hchange.trans hchange₂)
          (hslim₂.trans hslim₁) hfull hinf₂ (htracked₁.dispatched hdisp hsub)
          (Unsettled.dispatched ⟨fun hdone => hunsettled.waits (hiff.mp hdone), fun hall o => ?_⟩
            hdisp)
          (hdisp.reshaped.originalPdata.trans hf.reshaped.originalPdata)
        simp only [hf.reshaped.completedOrigins, hacked]
        exact hunsettled.counted hall o

end

end OtapDataflow.Fanout
