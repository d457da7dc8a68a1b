import OtapDataflow.Batch.Places

/-! # Completion accounting

The books are kept in every run, and what they say is that the requests are accounted for. -/

namespace OtapDataflow.Batch

open Node List SignalBuffer BatchProcessor Batch.System Slots Machine

variable {P : Type} {sources : P → Set Nat} {s : System P} {action : Action P}

/-! ## The books of a run -/

/-- Messages that wait for their reply, and the outcomes. -/
def System.ghost (s : System P) : Ghost P := ⟨unansweredOf s.outputs, s.outcomes⟩

structure System.Kept (sources : P → Set Nat) (s : System P) : Prop where
  inv : Inv sources s.proc s.requests s.ghost noOne
  routed : Routed s.proc
  /-- The requests in an output that was nacked are nacked. -/
  refused : ∀ output ∈ s.outputs, ∀ refusal, output.reply = some (.nack refusal) →
    Backed sources s.requests (new 0) s.outcomes ⟨output.message.payload, []⟩

theorem ghost_record (s : System P) (handled : Handled (BatchProcessor P) P) :
    (s.record handled).1.ghost = s.ghost.after handled.effects := by
  simp [record, Node.System.record, ghost, Ghost.after, unansweredOf_append, unansweredOf_fresh]

theorem kept_record {handled : Handled (BatchProcessor P) P}
    (hinv : Inv sources handled.state s.requests (s.ghost.after handled.effects) noOne)
    (hrouted : Routed handled.state)
    (hrefused : ∀ output ∈ s.outputs, ∀ refusal, output.reply = some (.nack refusal) →
      Backed sources s.requests (new 0) (s.ghost.after handled.effects).up
        ⟨output.message.payload, []⟩) : (s.record handled).1.Kept sources where
  inv := by
    rwa [ghost_record]
  routed := hrouted
  refused := by
    refine forall_mem_append.mpr ⟨hrefused, fun output hmem refusal hreply => ?_⟩
    obtain ⟨message, -, rfl⟩ := mem_map.mp hmem
    cases hreply

/-! ## Steps -/

theorem System.Kept.control (h : s.Kept sources) (hok : s.Ok sources action) {input : Input P}
    (hinput : input = .shutdown ∨ input = .otherControl ∨ ∃ slot time, input = .wakeup slot time) :
    (s.handle action input).1.Kept sources := by
  refine kept_record (h.inv.control hok.1 hinput) (h.routed.process _ _) ?_
  intro output hmem refusal hreply
  exact (h.refused output hmem refusal hreply).append _

theorem System.Kept.request (h : s.Kept sources) (hok : s.Ok sources action)
    (hrunning : s.failed = none) {tracked : Bool} {peerAddr : Option Nat} {signal : SignalType}
    {format : PdataFormat} {payload : P}
    (hevent : action.event = .request tracked peerAddr (signal, format, payload)) :
    ({ s with requests := s.requests ++ [tracked] }.handle action
      (.pdata ⟨⟨s.requests.length, tracked, peerAddr⟩, signal, format, payload⟩)).1.Kept
        sources := by
  obtain ⟨hcodec, -, hown, hremainder⟩ := hok
  refine kept_record (h.inv.processSignalImpl h.routed hcodec rfl (hown _ _ _ _ _ hevent) ?_)
    (h.routed.process _ _) ?_
  · intro haccepts
    exact hremainder hrunning (by simpa using haccepts) _ _ _ _ _ hevent
  intro output hmem refusal hreply
  exact ((h.refused output hmem refusal hreply).arrive tracked).append _

section

variable {index : Nat} {outcome : Outcome} {output : Output P}

theorem answer_outputs (h : s.outputs[index]? = some output) :
    ∃ pre post, s.outputs = pre ++ output :: post ∧ ∀ outcome,
      (s.answer index outcome).outputs = pre ++ { output with reply := some outcome } :: post :=
  answer_split h

section

variable (h : s.Kept sources) (hget : s.outputs[index]? = some output)
include h hget

/-- The nacks of the outputs, when one more of them has got its reply. -/
theorem System.Kept.refused_answer (more : List (Nat × Outcome))
    (hnew : ∀ refusal, outcome = .nack refusal →
      Backed sources s.requests (new 0) (s.outcomes ++ more) ⟨output.message.payload, []⟩) :
    ∀ o ∈ (s.answer index outcome).outputs, ∀ refusal, o.reply = some (.nack refusal) →
      Backed sources s.requests (new 0) (s.outcomes ++ more) ⟨o.message.payload, []⟩ := by
  obtain ⟨pre, post, hsplit, hanswer⟩ := answer_outputs hget
  intro o hmem refusal hreply
  have hold : o ∈ s.outputs → Backed sources s.requests (new 0) (s.outcomes ++ more)
      ⟨o.message.payload, []⟩ :=
    fun hmem => (h.refused o hmem refusal hreply).append more
  rw [hanswer] at hmem
  rw [hsplit] at hold
  rcases mem_append.mp hmem with hmem | hmem
  · exact hold (mem_append_left _ hmem)
  · rcases mem_cons.mp hmem with rfl | hmem
    · exact hnew refusal (Option.some.inj hreply)
    · exact hold (mem_append_right _ (mem_cons_of_mem _ hmem))

/-- A reply to a forwarded request is the outcome of the request. -/
theorem System.Kept.reply_forwarded (hreply : output.reply = none) {ctx : Context}
    (hdel : output.message.delivery = .forwarded ctx) :
    System.Kept sources
      { s.answer index outcome with outcomes := s.outcomes ++ [(ctx.request, outcome)] } := by
  obtain ⟨pre, post, hsplit, hanswer⟩ := answer_outputs hget
  have hinv := h.inv
  rw [ghost, hsplit, unansweredOf_split hreply] at hinv
  have hnoted : ctx.request < s.requests.length :=
    (hinv.settled.apart ctx.request (.inr (.inl ⟨output.message, by simp, ctx, hdel, rfl⟩))).1
  refine ⟨?_, h.routed, ?_⟩
  · rw [ghost, hanswer, unansweredOf_answered]
    exact (hinv.unforward hdel).inform outcome
  · refine h.refused_answer hget _ ?_
    rintro refusal rfl r hr
    obtain rfl := hinv.own output.message (by simp) ctx hdel r hr
    exact ⟨_, getElem?_eq_getElem hnoted, fun _ => .inr ⟨refusal, by simp⟩⟩

/-- A reply that nobody waits for. -/
theorem System.Kept.reply_unsubscribed (hreply : output.reply = none)
    (hdel : output.message.delivery = .unsubscribed) : (s.answer index outcome).Kept sources := by
  obtain ⟨pre, post, hsplit, hanswer⟩ := answer_outputs hget
  have hinv := h.inv
  rw [ghost, hsplit, unansweredOf_split hreply] at hinv
  refine ⟨?_, h.routed, ?_⟩
  · rw [ghost, hanswer, unansweredOf_answered]
    exact hinv.forget hdel
  · have hnew : ∀ refusal, outcome = .nack refusal →
        Backed sources s.requests (new 0) (s.outcomes ++ [])
          ⟨output.message.payload, []⟩ :=
      fun _ _ => (hinv.stray output.message (by simp) hdel).append []
    have hrefused := h.refused_answer hget [] hnew
    rwa [append_nil] at hrefused

theorem System.Kept.reply_subscribed (hreply : output.reply = none) {callData : CallData}
    (hdel : output.message.delivery = .subscribed callData) {input : Input P}
    {res : Except BatchFailure Unit}
    (hinput : ∀ env, s.proc.process env input = s.proc.handleResponse callData res)
    (hres : ∀ refusal, outcome = .nack refusal → ∃ failure, res = .error failure) :
    ((s.answer index outcome).handle action input).1.Kept sources := by
  obtain ⟨pre, post, hsplit, hanswer⟩ := answer_outputs hget
  have hinv := h.inv
  rw [ghost, hsplit, unansweredOf_split hreply] at hinv
  obtain ⟨hafter, hrefused⟩ := hinv.handleResponse hdel res
  have hghost : (s.answer index outcome).ghost =
      ⟨unansweredOf pre ++ unansweredOf post, s.outcomes⟩ := by
    rw [ghost, hanswer, unansweredOf_answered]
    rfl
  have hprocess : ∀ env, (s.answer index outcome).proc.process env input =
    s.proc.handleResponse callData res := hinput
  rw [handle, hprocess]
  refine kept_record ?_ ?_ ?_
  · rwa [hghost]
  · rw [← hinput ⟨action.codec, action.now, !s.latched⟩]
    exact h.routed.process _ _
  · refine h.refused_answer hget _ fun refusal hrefusal => ?_
    obtain ⟨failure, hfailure⟩ := hres refusal hrefusal
    exact hrefused failure hfailure

end

end

/-- **Every step keeps the books.**  A processor that has ended does nothing. -/
theorem System.Kept.step (h : s.Kept sources) (hok : s.Ok sources action) :
    (s.step action).1.Kept sources := by
  rw [System.step]
  split_ifs with hfailed
  · exact h
  have hrunning : s.failed = none := by simpa using hfailed
  cases hevent : action.event with
  | request tracked peerAddr data => exact h.request hok hrunning hevent
  | reply index outcome =>
    obtain ⟨output, hget, hreply⟩ := hok.2.1 index outcome hevent
    dsimp only
    rw [hget]
    dsimp only
    split
    · rename_i ctx hdel
      exact h.reply_forwarded hget hreply hdel
    · rename_i callData hdel
      cases outcome with
      | ack => exact h.reply_subscribed hget hreply hdel (fun _ => rfl) (by simp)
      | nack refusal =>
        exact h.reply_subscribed hget hreply hdel (fun _ => rfl) fun _ _ => ⟨_, rfl⟩
    · rename_i hdel
      exact h.reply_unsubscribed hget hreply hdel
  | wakeup data => exact h.control hok (.inr (.inr ⟨data.1, data.2, rfl⟩))
  | latchShutdown => exact ⟨h.inv, h.routed, h.refused⟩
  | shutdown => exact h.control hok (.inl rfl)
  | otherControl => exact h.control hok (.inr (.inl rfl))

/-! ## The start of a run -/

/-- A processor whose buffers are all new. -/
structure Fresh (config : Config) (proc : BatchProcessor P) : Prop where
  buffers : ∀ i state, proc.format i = some state → state.signals = .new config i
  routed : Routed proc
  reserved : 2 ≤ proc.formats.length

theorem placeFormat_le (formats : List (Option (FormatState P))) (source : PdataFormat)
    (plan : BatchPlan) (h : 2 ≤ formats.length) :
    placeFormat formats source plan ≤ formats.length := by
  unfold placeFormat
  cases hfind : formats.findIdx? fun state => state.any fun state => decide (state.plan = plan) with
  | none => cases source <;> simp only [Option.getD_none] <;> omega
  | some i =>
    have := (findIdx?_eq_some_iff_findIdx_eq.mp hfind).1
    simp only [Option.getD_some]
    omega

theorem format_addPlan (config : Config) (proc : BatchProcessor P) (source : PdataFormat)
    (plan : BatchPlan) (h : 2 ≤ proc.formats.length) (j : Nat) :
    (proc.addPlan config source plan).format j =
      if placeFormat proc.formats source plan = j ∧ proc.format j = none then
        some ⟨plan, .new config j⟩
      else proc.format j := by
  have hplace := placeFormat_le proc.formats source plan h
  unfold addPlan
  generalize placeFormat proc.formats source plan = index at hplace ⊢
  have hgrown : ∃ formats, (if index = proc.formats.length then proc.formats ++ [none]
      else proc.formats) = formats ∧ index < formats.length ∧
      ∀ j, formats[j]?.join = proc.format j := by
    refine ⟨_, rfl, ?_, fun j => ?_⟩
    · split
      · simp; omega
      · omega
    · split
      · rw [BatchProcessor.format, getElem?_append]
        split
        · rfl
        · rw [getElem?_eq_none (by omega : proc.formats.length ≤ j)]
          cases j - proc.formats.length <;> rfl
      · rfl
  obtain ⟨formats, hformats, hlt, hjoin⟩ := hgrown
  dsimp only
  rw [hformats, hjoin index]
  show (if (proc.format index).isNone = true then _ else _ :
    List (Option (FormatState P)))[j]?.join = _
  by_cases hj : index = j
  · subst hj
    cases hnone : proc.format index with
    | none => simp [getElem?_set_self hlt]
    | some state => simp [hjoin, hnone]
  · have hother : ¬(index = j ∧ proc.format j = none) := fun hand => hj hand.1
    rw [if_neg hother, ← hjoin j]
    split
    · rw [getElem?_set_ne hj]
    · rfl

variable {config : Config} {ledger : List Bool} {r : Nat} {b : SignalBuffer P} {inkey : Nat}

theorem Fresh.addPlan {proc : BatchProcessor P} (h : Fresh config proc) (source : PdataFormat)
    (plan : BatchPlan) : Fresh config (proc.addPlan config source plan) where
  buffers := by
    intro i state hstate
    rw [format_addPlan _ _ _ _ h.reserved] at hstate
    split at hstate
    · cases hstate
      rfl
    · exact h.buffers i state hstate
  routed := by
    intro route hroute
    rw [format_addPlan _ _ _ _ h.reserved]
    split
    · rfl
    · rename_i hno
      rcases mem_append.mp hroute with hroute | hroute
      · exact h.routed route hroute
      · cases mem_singleton.mp hroute
        rw [← Option.ne_none_iff_isSome]
        exact fun hnone => hno ⟨rfl, hnone⟩
  reserved := by
    have hreserved := h.reserved
    unfold BatchProcessor.addPlan
    dsimp only
    split <;> split <;> simp <;> omega

theorem fresh_build (config : Config) (plans : List (PdataFormat × BatchPlan)) :
    Fresh config (build (P := P) config plans) := by
  refine List.foldlRecOn plans _ ?_ fun proc h plan _ => h.addPlan plan.1 plan.2
  refine ⟨?_, forall_mem_nil _, le_rfl⟩
  intro i state hstate
  match i with
  | 0 => cases hstate
  | 1 => cases hstate
  | i + 2 => cases hstate

theorem books_new {elsewhere : Nat → Prop} {slot : Nat} {up : List (Nat × Outcome)}
    (h : Settlement ledger elsewhere (new 0) up) :
    Books sources ledger elsewhere (new config slot : SignalBuffer P) [] []
      ⟨[], up⟩ where
  settlement := ⟨h.once, h.past, h.owed, h.apart, nofun, nofun⟩
  counts := ⟨nofun, forall_mem_nil _⟩
  backed := forall_mem_nil _
  stray := forall_mem_nil _
  shape := ⟨rfl, nodup_nil, forall_mem_nil _, nofun, forall_mem_nil _, nodup_nil⟩

theorem Fresh.inv {proc : BatchProcessor P} (h : Fresh config proc) :
    Inv sources proc [] ⟨[], []⟩ noOne := by
  have hbuffer : ∀ i sig b, proc.buffer? i sig = some b →
      b = new config (wakeupSlot i sig) := by
    intro i sig b hb
    obtain ⟨state, hstate, rfl⟩ := Option.map_eq_some_iff.mp hb
    rw [h.buffers i state hstate]
    cases sig <;> rfl
  have hlive : ∀ place r, ¬LiveAt proc place r := by
    rintro place r ⟨b, k, hb, c, hc, -⟩
    rw [hbuffer _ _ _ hb] at hc
    cases hc
  have hforwarded : ∀ r, ¬Forwarded (⟨[], []⟩ : Ghost P) r := by
    rintro r ⟨m, hm, -⟩
    cases hm
  have hsettled : ∀ elsewhere : Nat → Prop, (∀ r, ¬elsewhere r) →
      Settlement [] elsewhere (new 0) [] := fun elsewhere hno =>
    ⟨nodup_nil, forall_mem_nil _, nofun, fun r hr => (hno r hr).elim, nofun, nofun⟩
  refine ⟨?_, ?_, forall_mem_nil _, nodup_nil, forall_mem_nil _,
    hsettled _ ?_, forall_mem_nil _, nodup_nil, fun _ hr => hr.elim⟩
  · intro i sig b hb
    rw [hbuffer i sig b hb]
    rfl
  · intro i sig b hb
    rw [hbuffer i sig b hb]
    refine books_new (hsettled _ ?_)
    rintro r (hr | hr | ⟨place, -, hr⟩)
    · exact hr
    · exact hforwarded r hr
    · exact hlive place r hr
  · rintro r (hr | hr | ⟨place, hr⟩)
    · exact hr
    · exact hforwarded r hr
    · exact hlive place r hr

theorem System.kept_init (config : Config) (plans : List (PdataFormat × BatchPlan)) :
    (init config plans).Kept sources where
  inv := (fresh_build config plans).inv
  routed := (fresh_build config plans).routed
  refused := forall_mem_nil _

/-! ## What the books say -/

theorem nacked_of_backed {inbound : Slots BatchContext} {up : List (Nat × Outcome)} {p : P}
    (h : Backed sources ledger inbound up ⟨p, []⟩) (hr : r ∈ sources p)
    (htracked : ledger[r]? = some true) : Nacked up r := by
  obtain ⟨t, ht, hback⟩ := h r hr
  rw [htracked] at ht
  rcases hback (Option.some.inj ht).symm with ⟨k, hk, -⟩ | hn
  · cases hk
  · exact hn

/-- Data of an acked request is held nowhere. -/
theorem Books.not_backed_of_acked {elsewhere : Nat → Prop} {g : Ghost P} {hd : Holding P}
    (h : Books sources ledger elsewhere b [] [] g) (hack : (r, .ack) ∈ g.up)
    (htracked : ledger[r]? = some true) (hhd : hd ∈ holdings b [] g) : r ∉ sources hd.payload := by
  intro hr
  obtain ⟨t, ht, hback⟩ := h.backed hd hhd r hr
  rw [htracked] at ht
  rcases hback (Option.some.inj ht).symm with ⟨k, -, hk⟩ | ⟨refusal, hn⟩
  · exact (h.settlement.waiting k r hk).2 (mem_map.mpr ⟨_, hack, rfl⟩)
  · have := inj_on_of_nodup_map h.settlement.once hack hn rfl
    cases this

theorem System.Kept.acked (h : s.Kept sources) (htracked : s.Tracked r)
    (hack : .ack ∈ s.outcomesOf r) :
    (∀ output ∈ s.outputs, r ∈ sources output.message.payload → output.reply = some .ack) ∧
      ∀ index signal buffer, s.proc.buffer? index signal = some buffer →
        ∀ payload ∈ buffer.inputs.pending, r ∉ sources payload := by
  rw [outcomesOf, mem_outcomesOf] at hack
  have hsettled := h.inv.settled
  have hnot := not_nacked_of_acked hsettled.once hack
  refine ⟨fun output hmem hr => ?_, fun index signal buffer hb payload hp hr => ?_⟩
  · cases hreply : output.reply with
    | none =>
      have hsent : output.message ∈ s.ghost.sent := mem_unansweredOf.mpr ⟨output, hmem, hreply, rfl⟩
      exfalso
      cases hdel : output.message.delivery with
      | forwarded ctx =>
        obtain rfl := h.inv.own output.message hsent ctx hdel r hr
        exact (hsettled.apart _ (.inr (.inl ⟨output.message, hsent, ctx, hdel, rfl⟩))).2.1
          (mem_map.mpr ⟨_, hack, rfl⟩)
      | subscribed callData =>
        obtain ⟨i, sig, b, outkey, hb, rfl⟩ := h.inv.addressed output.message hsent callData hdel
        have hbooks := h.inv.books i sig b hb
        obtain ⟨parts, hparts⟩ := hbooks.shape.keyed output.message hsent outkey hdel
        have hhd : (⟨output.message.payload, keys parts⟩ : Holding P) ∈ holdings b [] s.ghost := by
          refine mem_append_right _ (mem_filterMap.mpr ⟨output.message, hsent, ?_⟩)
          simp [sentHolding, hdel, hparts]
        exact hbooks.not_backed_of_acked hack htracked hhd hr
      | unsubscribed =>
        exact hnot (nacked_of_backed (h.inv.stray output.message hsent hdel) hr htracked)
    | some outcome =>
      cases outcome with
      | ack => rfl
      | nack refusal =>
        exact absurd (nacked_of_backed (h.refused output hmem refusal hreply) hr htracked) hnot
  · have hbooks := h.inv.books index signal buffer hb
    obtain ⟨i, hi, rfl⟩ := mem_iff_getElem.mp hp
    have hi' : i < buffer.inputs.context.length := hbooks.shape.aligned ▸ hi
    have hhd : (⟨buffer.inputs.pending[i], (buffer.inputs.context[i]).inkey.toList⟩ : Holding P) ∈
        holdings buffer [] s.ghost := by
      refine mem_append_left _ (mem_append_left _ (mem_pendingHoldings.mpr ?_))
      exact ⟨i, _, _, getElem?_eq_getElem hi, getElem?_eq_getElem hi', rfl⟩
    exact hbooks.not_backed_of_acked hack htracked hhd hr

theorem count_sentHolding {output : Output P} (hreply : output.reply = none)
    (honce : ∀ outkey parts, b.outbound.get? outkey = some parts → (keys parts).Nodup) :
    ((sentHolding b output.message).toList.flatMap (·.tokens)).count inkey =
      if b.refers inkey output then 1 else 0 := by
  have hcount : ∀ outkey parts, b.outbound.get? outkey = some parts →
      (keys parts).count inkey =
        if parts.any fun part => decide (part.inkey = some inkey) then 1 else 0 := by
    intro outkey parts hparts
    rw [(honce outkey parts hparts).count]
    simp [keys]
  cases hdel : output.message.delivery with
  | subscribed callData =>
    rcases callData with _ | ⟨outkey, _ | ⟨slot, _ | ⟨_, _⟩⟩⟩
    · simp [sentHolding, refers, hdel]
    · simp [sentHolding, refers, hdel]
    · by_cases hslot : slot = b.slot
      · cases hparts : b.outbound.get? outkey with
        | none => simp [sentHolding, refers, hdel, hslot, hparts]
        | some parts =>
          have := hcount outkey parts hparts
          simpa [sentHolding, refers, hdel, hslot, hparts, hreply] using this
      · simp [sentHolding, refers, hdel, hslot]
    · simp [sentHolding, refers, hdel]
  | forwarded | unsubscribed => simp [sentHolding, refers, hdel]

theorem count_sent (outputs : List (Output P))
    (honce : ∀ outkey parts, b.outbound.get? outkey = some parts → (keys parts).Nodup) :
    (((unansweredOf outputs).filterMap (sentHolding b)).flatMap (·.tokens)).count inkey =
      outputs.countP (b.refers inkey) := by
  induction outputs with
  | nil => rfl
  | cons output outputs ih =>
    rw [countP_cons, ← ih]
    cases hreply : output.reply with
    | none =>
      rw [← count_sentHolding hreply honce, add_comm, ← count_append, ← flatMap_append]
      have hcons : unansweredOf (output :: outputs) = output.message :: unansweredOf outputs := by
        simp [unansweredOf, hreply]
      rw [hcons, filterMap_cons]
      cases sentHolding b output.message <;> rfl
    | some outcome => simp [unansweredOf, refers, hreply]

/-- The outstanding count is the number of pending portions and of unanswered outputs. -/
theorem System.Kept.counted (h : s.Kept sources) {index : Nat} {signal : SignalType}
    {buffer : SignalBuffer P} {input : BatchContext}
    (hb : s.proc.buffer? index signal = some buffer)
    (hinput : buffer.inbound.get? inkey = some input) :
    input.outbound = buffer.portionsOf inkey + s.outputs.countP (buffer.refers inkey) ∧
      0 < input.outbound := by
  have hbooks := h.inv.books index signal buffer hb
  obtain ⟨hcount, hpos⟩ := hbooks.counts.counted inkey input hinput
  refine ⟨?_, hpos⟩
  rw [hcount, tokens, holdings, append_nil, append_nil, flatMap_append,
    pendingHoldings_tokens hbooks.shape.aligned, count_append]
  congr 1
  · rw [keys, count_filterMap, portionsOf]
    refine countP_congr fun part _ => ?_
    simp
  · exact count_sent s.outputs hbooks.shape.partsOnce

theorem System.Kept.accounted (h : s.Kept sources) : s.Accounted sources where
  once := fun r => length_outcomesOf_le h.inv.settled.once
  acked := fun r htracked hack => h.acked htracked hack
  nacked := by
    intro r htracked output hmem hr refusal hreply
    obtain ⟨refusal', hn⟩ := nacked_of_backed (h.refused output hmem refusal hreply) hr htracked
    exact ⟨refusal', mem_outcomesOf.mpr hn⟩
  counted := fun index signal buffer inkey input hb hinput => (h.counted hb hinput).1
  waiting := by
    intro r htracked hnone
    rw [outcomesOf, outcomesOf_eq_nil] at hnone
    rcases h.inv.settled.owed r htracked with hnoted | ⟨k, c, hc, -⟩ | hwait
    · exact absurd hnoted hnone
    · cases hc
    · rcases hwait with hno | ⟨m, hm, ctx, hdel, hctx⟩ | ⟨⟨i, sig⟩, b, k, hb, c, hc, hctx⟩
      · exact hno.elim
      · obtain ⟨output, hmem, hreply, rfl⟩ := mem_unansweredOf.mp hm
        exact .inl ⟨output, hmem, ctx, hreply, hdel, hctx⟩
      · obtain ⟨hcount, hpos⟩ := h.counted hb hc
        exact .inr ⟨i, sig, b, k, c, hb, hc, hctx, hcount ▸ hpos⟩

/-- **Completion accounting.**  In a run whose requests hold their own data, whose outputs are
answered at most once, and in which no request leaves a remainder after the shutdown was latched,
the requests are accounted for. -/
theorem completions_accounted (config : Config) (plans : List (PdataFormat × BatchPlan))
    (actions : List (Action P))
    (h : Machine.Meets step (System.Ok sources) (init config plans) actions) :
    (final step (init config plans) actions).Accounted sources :=
  (final_invariant_of_meets (System.Kept sources) (fun _ _ hkept hok => hkept.step hok)
    (kept_init config plans) h).accounted

/-! ## Example -/

/-- Cut the items into pieces of the given size. -/
def cutItems (size : Nat) : Nat → List (Nat × Nat) → List (List (Nat × Nat))
  | 0, _ => []
  | _, [] => []
  | fuel + 1, items => items.take size :: cutItems size fuel (items.drop size)

/-- The items of all inputs, each with the number of its input. -/
def itemsOf (inputs : List (List Nat)) : List (Nat × Nat) :=
  inputs.zipIdx.flatMap fun (payload, i) => payload.map fun item => (item, i)

/-- The first and the last input that contribute to a piece. -/
def rangeOf (piece : List (Nat × Nat)) : InputRange :=
  ⟨(piece.head?.map Prod.snd).getD 0, (piece.getLast?.map Prod.snd).getD 0⟩

/-- Payloads are lists of items, each labelled with its request.  The codec packs the items of all
inputs into batches of the maximal size, as the batchers of the repository do. -/
def packingCodec : Codec (List Nat) where
  prepare := fun _ payload => .ok payload
  batchSize := fun _ payload => .ok payload.length
  batch := fun plan _ inputs =>
    let items := itemsOf inputs
    let size := plan.settings.maxSize.getD items.length
    .ok ⟨(cutItems size items.length items).map fun piece =>
      (piece.map Prod.fst, rangeOf piece), []⟩
  finish := fun _ payload => .ok payload

def labels (payload : List Nat) : Set Nat := { r | r ∈ payload }

theorem sublist_of_mem_cutItems {size : Nat} {piece : List (Nat × Nat)} {fuel : Nat}
    {items : List (Nat × Nat)} (h : piece ∈ cutItems size fuel items) : piece.Sublist items := by
  induction fuel generalizing items with
  | zero => cases h
  | succ fuel ih =>
    cases items with
    | nil => cases h
    | cons item items =>
      rcases mem_cons.mp h with rfl | h
      · exact take_sublist _ _
      · exact (ih h).trans (drop_sublist _ _)

theorem itemsOf_sorted (inputs : List (List Nat)) :
    (itemsOf inputs).Pairwise fun x y => x.2 ≤ y.2 := by
  refine pairwise_flatMap.mpr ⟨?_, ?_⟩
  · intro entry _
    exact pairwise_map.mpr (pairwise_of_forall fun _ _ => le_rfl)
  · have hlt : inputs.zipIdx.Pairwise fun entry entry' => entry.2 < entry'.2 := by
      rw [← pairwise_map, zipIdx_map_snd]
      exact pairwise_lt_range'
    refine hlt.imp fun h x hx y hy => ?_
    obtain ⟨_, -, rfl⟩ := mem_map.mp hx
    obtain ⟨_, -, rfl⟩ := mem_map.mp hy
    exact h.le

theorem mem_rangeOf {piece : List (Nat × Nat)} (h : piece.Pairwise fun x y => x.2 ≤ y.2)
    {item : Nat × Nat} (hmem : item ∈ piece) :
    (rangeOf piece).start ≤ item.2 ∧ item.2 ≤ (rangeOf piece).last := by
  constructor
  · cases piece with
    | nil => cases hmem
    | cons first rest =>
      rcases mem_cons.mp hmem with rfl | hmem
      · exact le_rfl
      · exact rel_of_pairwise_cons h hmem
  · rcases eq_nil_or_concat' piece with rfl | ⟨rest, last, rfl⟩
    · cases hmem
    · rw [rangeOf, getLast?_concat]
      rcases mem_append.mp hmem with hmem | hmem
      · exact (pairwise_append.mp h).2.2 item hmem last (mem_singleton_self _)
      · rw [mem_singleton.mp hmem]
        exact le_rfl

theorem packingCodec_contract : packingCodec.Contract labels where
  prepare_sources := by
    rintro plan p p' ⟨⟩
    exact subset_rfl
  finish_sources := by
    rintro plan p p' ⟨⟩
    exact subset_rfl
  batch_sources := by
    rintro plan signal inputs result ⟨⟩ output hmem r hr
    obtain ⟨piece, hpiece, rfl⟩ := mem_map.mp hmem
    have hsublist := sublist_of_mem_cutItems hpiece
    obtain ⟨⟨item, i⟩, hitem, rfl⟩ := mem_map.mp hr
    obtain ⟨hstart, hlast⟩ := mem_rangeOf ((itemsOf_sorted inputs).sublist hsublist) hitem
    obtain ⟨⟨payload, i'⟩, hi, hitem⟩ := mem_flatMap.mp (hsublist.subset hitem)
    obtain ⟨_, hr, heq⟩ := mem_map.mp hitem
    cases heq
    exact ⟨i, payload, hstart, hlast, mem_zipIdx_iff_getElem?.mp hi, hr⟩
  prepare_measured := fun _ _ p _ => ⟨p.length, rfl⟩
  batch_measured := fun _ _ _ _ _ output _ => ⟨output.1.length, rfl⟩

def smallConfig : Config := ⟨5, 10, 10, false⟩

/-- Batches of two items. -/
def pairPlan : BatchPlan := ⟨.otap, .otap, ⟨none, some 2, .items, rfl⟩⟩

def requestOf (payload : List Nat) : Action (List Nat) :=
  ⟨.request true none (.logs, .otap, payload), packingCodec, 0⟩

def replyTo (output : Nat) : Action (List Nat) := ⟨.reply output .ack, packingCodec, 0⟩

def latch : Action (List Nat) := ⟨.latchShutdown, packingCodec, 0⟩

/-- The remainder of the second request is sent when its time has come.  The two requests around the
latch fill their batches. -/
def pairsRun : List (Action (List Nat)) :=
  [requestOf [0], requestOf [1, 1, 1, 1], replyTo 0, replyTo 1,
    ⟨.wakeup (0, 5), packingCodec, 5⟩, replyTo 2, requestOf [2], latch, requestOf [3, 3, 3],
    replyTo 3, replyTo 4]

theorem ok_of_labels {s : System (List Nat)} {event : Event (List Nat)} {now : Nat}
    (hanswers : s.AnswersOnce ⟨event, packingCodec, now⟩)
    (hown : s.OwnData labels ⟨event, packingCodec, now⟩)
    (hremainder : s.NoLateRemainder ⟨event, packingCodec, now⟩) :
    s.Ok labels ⟨event, packingCodec, now⟩ :=
  ⟨packingCodec_contract, hanswers, hown, hremainder⟩

theorem ownData_requestOf {s : System (List Nat)} {payload : List Nat}
    (h : ∀ r ∈ payload, r = s.requests.length) : s.OwnData labels (requestOf payload) := by
  rintro _ _ _ _ _ ⟨⟩ r hr
  exact h r hr

theorem answersOnce_replyTo {s : System (List Nat)} {index : Nat} {output : Output (List Nat)}
    (h : s.outputs[index]? = some output) (hreply : output.reply = none) :
    s.AnswersOnce (replyTo index) := by
  rintro _ _ ⟨⟩
  exact ⟨_, h, hreply⟩

theorem noLateRemainder_of_open {s : System (List Nat)} {action : Action (List Nat)}
    (h : s.latched = false) : s.NoLateRemainder action := by
  intro _ hlatched
  rw [h] at hlatched
  cases hlatched

theorem completions_accounted_pairs :
    (final step (init smallConfig [(.otap, pairPlan)]) pairsRun).Accounted labels ∧
    (final step (init smallConfig [(.otap, pairPlan)]) pairsRun).outcomes =
      [(0, .ack), (1, .ack), (2, .ack), (3, .ack)] := by
  refine ⟨completions_accounted _ _ _ ?_, by decide⟩
  have hrequest : ∀ (s : System (List Nat)) payload, (∀ r ∈ payload, r = s.requests.length) →
      s.NoLateRemainder (requestOf payload) → s.Ok labels (requestOf payload) :=
    fun s payload h hremainder => ok_of_labels nofun (ownData_requestOf h) hremainder
  have hreply : ∀ (s : System (List Nat)) index output, s.outputs[index]? = some output →
      output.reply = none → s.Ok labels (replyTo index) :=
    fun s index output h hnone => ok_of_labels (answersOnce_replyTo h hnone) nofun nofun
  refine ⟨hrequest _ _ (by decide) (noLateRemainder_of_open rfl),
    hrequest _ _ (by decide) (noLateRemainder_of_open rfl), hreply _ _ _ rfl rfl,
    hreply _ _ _ rfl rfl, ok_of_labels nofun nofun nofun, hreply _ _ _ rfl rfl,
    hrequest _ _ (by decide) (noLateRemainder_of_open rfl), ok_of_labels nofun nofun nofun,
    hrequest _ _ (by decide) ?_, hreply _ _ _ rfl rfl, hreply _ _ _ rfl rfl, trivial⟩
  -- One item waits, three more come: two full batches and nothing over.
  rintro - - _ _ _ _ _ ⟨⟩
    ⟨index, state, payload, ⟨⟩, ⟨⟩, ⟨⟩, size, part, ⟨⟩, -, -, ⟨-, rfl⟩, -, -, outputs, rest, ⟨⟩,
      hrest⟩
  have hnone : (.ok none : Except EngineError (Option Nat)) = .ok (some rest) := hrest
  cases hnone

/-- A request is still delivered after the shutdown was latched.  The flush that it starts takes
both requests out of the buffer, cannot ask for the wakeup of the remainder, and ends the processor
before anything is sent: nothing is left of the first request. -/
theorem completions_lost_after_latch :
    Machine.Meets step (fun s action => action.codec.Contract labels ∧
        s.AnswersOnce action ∧ s.OwnData labels action) (init smallConfig [(.otap, pairPlan)])
      [requestOf [0], latch, requestOf [1, 1, 1, 1]] ∧
    ¬(final step (init smallConfig [(.otap, pairPlan)])
      [requestOf [0], latch, requestOf [1, 1, 1, 1]]).Accounted labels := by
  refine ⟨⟨⟨packingCodec_contract, nofun, ownData_requestOf (by decide)⟩,
    ⟨packingCodec_contract, nofun, nofun⟩,
    ⟨packingCodec_contract, nofun, ownData_requestOf (by decide)⟩, trivial⟩, fun h => ?_⟩
  have hcount := h.counted 0 .logs _ 0 _ rfl rfl
  revert hcount
  decide

end OtapDataflow.Batch
