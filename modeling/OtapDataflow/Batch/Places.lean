import OtapDataflow.Batch.Sending

/-! # Requests and replies keep the books

A new request is told its outcome at once, is forwarded as it is, or becomes a pending input.  A
reply takes the output out of the slot in which it waits. -/

namespace OtapDataflow.Batch

open Node List Slots Ghost

variable {P : Type} {sources : P → Set Nat} {ledger : List Bool} {elsewhere : Nat → Prop}
  {b : SignalBuffer P} {loose : List (Holding P)} {free : List Nat} {g : Ghost P}

/-! ## A new request -/

theorem getElem?_arrived {r : Nat} {t : Bool} (h : ledger[r]? = some t) (tracked : Bool) :
    (ledger ++ [tracked])[r]? = some t := by
  rw [List.getElem?_append_left (List.getElem?_eq_some_iff.mp h).1, h]

variable {inbound : Slots BatchContext} {up : List (Nat × Outcome)} {ctx : Context} {m : Sent P}
  {pre post : List (Sent P)}

theorem Settlement.arrive (h : Settlement ledger elsewhere inbound up) (tracked : Bool) :
    Settlement (ledger ++ [tracked]) (fun r => elsewhere r ∨ r = ledger.length) inbound up := by
  have hlen : (ledger ++ [tracked]).length = ledger.length + 1 := by simp
  refine ⟨h.once, ?_, ?_, ?_, ?_, h.distinct⟩
  · intro r hr
    have := h.past r hr
    omega
  · intro r hr
    have hle : r < ledger.length + 1 := hlen ▸ (List.getElem?_eq_some_iff.mp hr).1
    rcases Nat.lt_succ_iff_lt_or_eq.mp hle with hlt | heq
    · rw [List.getElem?_append_left hlt] at hr
      exact (h.owed r hr).imp_right (Or.imp_right .inl)
    · exact .inr (.inr (.inr heq))
  · rintro r (hr | rfl)
    · obtain ⟨hlt, hrest⟩ := h.apart r hr
      exact ⟨by omega, hrest⟩
    · refine ⟨by omega, fun hnoted => (h.past _ hnoted).false, fun k hk => ?_⟩
      exact ((List.getElem?_eq_some_iff.mp (h.waiting k _ hk).1).1).false
  · intro k r hk
    obtain ⟨ht, hn⟩ := h.waiting k r hk
    exact ⟨getElem?_arrived ht tracked, hn⟩

theorem Backed.arrive {hd : Holding P} (h : Backed sources ledger inbound up hd) (tracked : Bool) :
    Backed sources (ledger ++ [tracked]) inbound up hd := by
  intro r hr
  obtain ⟨t, ht, hrest⟩ := h r hr
  exact ⟨t, getElem?_arrived ht tracked, hrest⟩

/-- A request has arrived, and nothing was done with it yet. -/
theorem Books.arrive (h : Books sources ledger elsewhere b loose free g) (tracked : Bool) :
    Books sources (ledger ++ [tracked]) (fun r => elsewhere r ∨ r = ledger.length)
      b loose free g where
  settlement := h.settlement.arrive tracked
  counts := h.counts
  backed := fun hd hmem => (h.backed hd hmem).arrive tracked
  stray := fun m hm hd => (h.stray m hm hd).arrive tracked
  shape := h.shape

theorem Backed.append {hd : Holding P} (h : Backed sources ledger inbound up hd)
    (more : List (Nat × Outcome)) : Backed sources ledger inbound (up ++ more) hd := by
  intro r hr
  obtain ⟨t, ht, hrest⟩ := h r hr
  exact ⟨t, ht, fun htrue => (hrest htrue).imp_right fun hn => hn.append more⟩

theorem live_insert {n k x : Nat} :
    Live (inbound.insert ⟨ctx, n⟩) k x ↔
      k = inbound.next ∧ ctx.request = x ∨ Live inbound k x := by
  by_cases hk : k = inbound.next
  · subst hk
    simp [Live, get?_next]
  · simp [Live, hk]

/-- A new input has one token. -/
theorem Counts.insert {toks : List Nat} (h : Counts inbound toks) (ctx : Context) :
    Counts (inbound.insert ⟨ctx, 1⟩) (inbound.next :: toks) where
  counted := by
    intro k c hk
    rw [get?_insert] at hk
    split at hk
    · rename_i hkk
      subst hkk
      cases hk
      have hnot : inbound.next ∉ toks := fun hmem => (h.issued _ hmem).false
      rw [count_cons_self, count_eq_zero.mpr hnot]
      exact ⟨rfl, Nat.one_pos⟩
    · rename_i hne
      rw [count_cons_of_ne (Ne.symm hne)]
      exact h.counted k c hk
  issued := by
    intro k hk
    rcases mem_cons.mp hk with rfl | hk
    · exact Nat.lt_succ_self _
    · exact (h.issued k hk).trans (Nat.lt_succ_self _)

section

variable {r : Nat} (hr : ¬elsewhere r)
  (h : Books sources ledger (fun r' => elsewhere r' ∨ r' = r) b loose free g)

include hr h

/-- The request is told its outcome. -/
theorem Books.inform (o : Outcome) :
    Books sources ledger elsewhere b loose free ⟨g.sent, g.up ++ [(r, o)]⟩ where
  settlement := h.settlement.inform hr o
  counts := h.counts
  backed := fun hd hmem => (h.backed hd hmem).append _
  stray := fun m hm hd => (h.stray m hm hd).append _
  shape := h.shape.congr rfl rfl rfl rfl

omit hr in
/-- The request is not tracked. -/
theorem Books.untracked (ht : ledger[r]? = some false) :
    Books sources ledger elsewhere b loose free g := by
  refine { h with settlement := ⟨h.settlement.once, h.settlement.past, ?_, ?_, h.settlement.waiting,
    h.settlement.distinct⟩ }
  · intro x hx
    rcases h.settlement.owed x hx with hn | hl | he | rfl
    · exact .inl hn
    · exact .inr (.inl hl)
    · exact .inr (.inr he)
    · rw [ht] at hx
      cases hx
  · exact fun x hx => h.settlement.apart x (.inl hx)

/-- The request takes a slot, with one token. -/
theorem Books.enter (ht : ledger[r]? = some true) (hctx : ctx.request = r) :
    Books sources ledger elsewhere { b with inbound := b.inbound.insert ⟨ctx, 1⟩ } loose
      (b.inbound.next :: free) g := by
  obtain ⟨-, -, hlive⟩ := h.settlement.apart r (.inr rfl)
  have hback : ∀ hd, Backed sources ledger b.inbound g.up hd →
      Backed sources ledger (b.inbound.insert ⟨ctx, 1⟩) g.up hd := by
    intro hd hb x hx
    obtain ⟨t, ht, hrest⟩ := hb x hx
    refine ⟨t, ht, fun htrue => (hrest htrue).imp_left ?_⟩
    rintro ⟨k, hk, hl⟩
    exact ⟨k, hk, live_insert.mpr (.inr hl)⟩
  refine ⟨h.settlement.view ?_ ?_ ?_ ?_, (h.counts.insert ctx).perm (tokens_free_cons _ _ _),
    fun hd hmem => hback hd (h.backed hd hmem), fun m hm hd => hback _ (h.stray m hm hd),
    h.shape.congr rfl rfl rfl rfl⟩
  · intro x
    simp only [live_insert, exists_or, exists_eq_left, hctx, or_assoc, or_comm, eq_comm]
  · intro x hx k hk
    rcases live_insert.mp hk with ⟨-, heq⟩ | hk
    · exact hr (hctx ▸ heq ▸ hx)
    · exact (h.settlement.apart x (.inl hx)).2.2 k hk
  · intro k x hk
    rcases live_insert.mp hk with ⟨-, heq⟩ | hk
    · rw [← heq, hctx]
      exact ht
    · exact (h.settlement.waiting k x hk).1
  · intro k k' x hk hk'
    rcases live_insert.mp hk with ⟨rfl, heq⟩ | hk <;>
      rcases live_insert.mp hk' with ⟨rfl, heq'⟩ | hk'
    · rfl
    · exact absurd (hctx ▸ heq ▸ hk') (hlive k')
    · exact absurd (hctx ▸ heq' ▸ hk) (hlive k)
    · exact h.settlement.distinct k k' x hk hk'

end

/-- An input is put into the buffer. -/
theorem Books.bufferInput {config : Config} {env : Env P} (hcodec : env.codec.Contract sources)
    {plan : BatchPlan} {signal : SignalType} {payload : P} {part : BatchPortion} {size : Nat}
    (h : Books sources ledger elsewhere b [] (part.inkey.toList ++ []) g)
    (hback : Backed sources ledger b.inbound g.up ⟨payload, part.inkey.toList⟩)
    (honce : (keys (b.inputs.context ++ [part])).Nodup)
    (hkept : env.acceptsWakeups = false →
      Due config plan (b.inputs.accept payload part size) →
      ¬KeepsRemainder config env.codec plan signal (b.inputs.accept payload part size)) :
    Flushed sources ledger elsewhere b g
      (b.bufferInput config env plan signal payload part size) := by
  have hheld : Books sources ledger elsewhere b [⟨payload, part.inkey.toList⟩] [] g :=
    h.attach hback (by cases part.inkey <;> simp)
  have haccepted := hheld.accept size honce
  have hstays : Local b { b with inputs := b.inputs.accept payload part size } [] :=
    .of_quiet rfl (by simp)
  rw [SignalBuffer.bufferInput]
  split
  · split
    · have harrived := haccepted.setArrival env env.now config.maxBatchDuration
      exact { harrived with stays := hstays.trans harrived.stays }
    · exact ⟨by rw [after_nil]; exact haccepted, hstays⟩
  · rename_i hbelow
    have hdue : Due config plan (b.inputs.accept payload part size) := by
      rw [not_and_or, not_not, not_lt] at hbelow
      exact hbelow
    obtain ⟨hbooks, hlocal⟩ := haccepted.flushSignalImpl hcodec
      (fun haccepts _ => hkept haccepts hdue) env.now
    exact ⟨hbooks, hstays.trans hlocal⟩

/-- How a request is taken in: it is forwarded, or the buffer deals with it. -/
inductive Taken (sources : P → Set Nat) (ledger : List Bool) (elsewhere : Nat → Prop)
    (b : SignalBuffer P) (g : Ghost P) (ctx : Context) : Handled (SignalBuffer P) P → Prop
  | forwarded {m : Sent P} (delivery : m.delivery = .forwarded ctx)
      (own : ∀ r ∈ sources m.payload, r = ctx.request) :
      Taken sources ledger elsewhere b g ctx ⟨b, [.sendMessage m], none⟩
  | kept {handled : Handled (SignalBuffer P) P}
      (books : Books sources ledger elsewhere handled.state [] [] (g.after handled.effects))
      (stays : Local b handled.state handled.effects) :
      Taken sources ledger elsewhere b g ctx handled

theorem taken_of_notice {e : Effect P} {o : Outcome} (hr : ¬elsewhere ctx.request)
    (h : Books sources ledger (fun r => elsewhere r ∨ r = ctx.request) b [] [] g)
    (he : g.after [e] = ⟨g.sent, g.up ++ [(ctx.request, o)]⟩) (hquiet : ∀ m, e ≠ .sendMessage m) :
    Taken sources ledger elsewhere b g ctx ⟨b, [e], none⟩ := by
  refine .kept ?_ (.of_quiet rfl ?_)
  · rw [he]
    exact Books.inform hr h o
  · intro m hm
    exact hquiet m (mem_singleton.mp hm).symm

theorem acceptPayload_taken {config : Config} {env : Env P} (hcodec : env.codec.Contract sources)
    {plan : BatchPlan} {signal : SignalType} {payload : P} (hr : ¬elsewhere ctx.request)
    (h : Books sources ledger (fun r => elsewhere r ∨ r = ctx.request) b [] [] g)
    (hledger : ledger[ctx.request]? = some ctx.needsCompletionTracking)
    (hown : ∀ r ∈ sources payload, r = ctx.request)
    (hsize : ∃ size, env.codec.batchSize plan payload = .ok size)
    (hkept : env.acceptsWakeups = false →
      ¬b.LeavesRemainder config env.codec plan signal ctx payload) :
    Taken sources ledger elsewhere b g ctx
      (b.acceptPayload config env plan signal ctx payload) := by
  obtain ⟨size, hsize⟩ := hsize
  rw [SignalBuffer.acceptPayload, hsize]
  dsimp only
  split
  · exact taken_of_notice hr h (after_ack _ _ _) (by simp)
  · rename_i hpos
    split
    · rw [SignalBuffer.forwardAsIs]
      split
      · exact taken_of_notice hr h (after_nack _ _ _ _) (by simp)
      · rename_i finished hfinish
        exact .forwarded rfl fun r hmem => hown r (hcodec.finish_sources _ _ _ hfinish hmem)
    · rename_i hrange
      have hrange : plan.settings.inPassthroughRange size = false := by simpa using hrange
      split_ifs with htracked
      · rw [allocateWithData]
        by_cases hfull : b.inbound.maxSize ≤ b.inbound.len
        · rw [if_pos hfull]
          exact taken_of_notice hr h (after_nack _ _ _ _) (by simp)
        · rw [if_neg hfull]
          have hentered : Books sources ledger elsewhere
              { b with inbound := b.inbound.insert ⟨ctx, 1⟩ } []
              ((⟨some b.inbound.next, ctx.peerAddr⟩ : BatchPortion).inkey.toList ++ []) g :=
            Books.enter hr h (htracked ▸ hledger) rfl
          have hnew : ∀ k ∈ keys b.inputs.context, k < b.inbound.next := by
            intro k hk
            refine h.counts.issued k (mem_append_left _ ?_)
            rw [holdings, flatMap_append, flatMap_append, pendingHoldings_tokens h.shape.aligned]
            exact mem_append_left _ (mem_append_left _ hk)
          have hback : Backed sources ledger (b.inbound.insert ⟨ctx, 1⟩) g.up
              ⟨payload, [b.inbound.next]⟩ := by
            intro r hmem
            rw [hown r hmem]
            exact ⟨_, hledger, fun _ => .inl ⟨_, mem_singleton_self _,
              live_insert.mpr (.inl ⟨rfl, rfl⟩)⟩⟩
          have honce : (keys (b.inputs.context ++
              [⟨some b.inbound.next, ctx.peerAddr⟩])).Nodup := by
            rw [keys_append]
            refine nodup_append.mpr ⟨h.shape.pendingOnce, nodup_singleton _, ?_⟩
            rintro k hk k' hk' rfl
            exact (hnew k hk).ne (mem_singleton.mp hk')
          have hnone : env.acceptsWakeups = false → _ := fun haccepts hdue hremainder =>
            hkept haccepts ⟨size, ⟨some b.inbound.next, ctx.peerAddr⟩, hsize,
              Nat.pos_of_ne_zero hpos,
              hrange, by rw [if_pos htracked]; exact ⟨not_le.mp hfull, rfl⟩, hdue, hremainder⟩
          obtain ⟨hbooks, hstays⟩ := hentered.bufferInput hcodec hback honce hnone
          exact .kept hbooks ⟨hstays.slot, hstays.sends⟩
      · have hfalse : ctx.needsCompletionTracking = false := by simpa using htracked
        rw [hfalse] at hledger
        have hback : Backed sources ledger b.inbound g.up ⟨payload, []⟩ := by
          intro r hmem
          rw [hown r hmem]
          exact ⟨_, hledger, fun hfalse => absurd hfalse Bool.false_ne_true⟩
        have honce : (keys (b.inputs.context ++ [⟨none, ctx.peerAddr⟩])).Nodup := by
          simpa [keys] using h.shape.pendingOnce
        have hnone : env.acceptsWakeups = false → _ := fun haccepts hdue hremainder =>
          hkept haccepts ⟨size, ⟨none, ctx.peerAddr⟩, hsize, Nat.pos_of_ne_zero hpos, hrange,
            by rw [if_neg htracked], hdue, hremainder⟩
        obtain ⟨hbooks, hstays⟩ :=
          Books.bufferInput hcodec (Books.untracked h hledger) hback honce hnone
        exact .kept hbooks hstays

/-! ## A reply -/

/-- A message that the buffer does not wait for is answered. -/
theorem Books.forget (h : Books sources ledger elsewhere b loose free ⟨pre ++ m :: post, up⟩)
    (hm : sentHolding b m = none) :
    Books sources ledger elsewhere b loose free ⟨pre ++ post, up⟩ := by
  have hsub : (pre ++ post).Sublist (pre ++ m :: post) :=
    (sublist_cons_self m post).append_left pre
  have hold : holdings b loose ⟨pre ++ post, up⟩ = holdings b loose ⟨pre ++ m :: post, up⟩ := by
    simp [holdings, hm]
  refine h.rearrange (fun _ _ => Iff.rfl) rfl ?_ ?_ ?_ ?_
  · rw [hold]
    exact h.counts
  · rw [hold]
    exact h.backed
  · exact fun m' hm' => h.stray m' (hsub.subset hm')
  · exact { h.shape with
      keyed := fun m' hm' => h.shape.keyed m' (hsub.subset hm')
      calls := h.shape.calls.sublist (hsub.filterMap _) }

/-- An output that the buffer waits for is answered: its slot is empty, and its holding is loose. -/
theorem Books.unsend {outkey : Nat} {parts : List BatchPortion}
    (h : Books sources ledger elsewhere b [] [] ⟨pre ++ m :: post, up⟩)
    (hm : m.delivery = .subscribed [outkey, b.slot])
    (hparts : b.outbound.get? outkey = some parts) :
    Books sources ledger elsewhere { b with outbound := b.outbound.erase outkey }
      [⟨m.payload, keys parts⟩] [] ⟨pre ++ post, up⟩ := by
  have hsub : (pre ++ post).Sublist (pre ++ m :: post) :=
    (sublist_cons_self m post).append_left pre
  have hother : ∀ m' ∈ pre ++ post, m'.delivery ≠ .subscribed [outkey, b.slot] := by
    intro m' hm' hdel
    have hcalls := h.shape.calls
    have hcall : Sent.callData? m = some [outkey, b.slot] := by simp [Sent.callData?, hm]
    rw [filterMap_append, filterMap_cons_some hcall, nodup_middle, ← filterMap_append] at hcalls
    refine (nodup_cons.mp hcalls).1 (mem_filterMap.mpr ⟨m', hm', ?_⟩)
    simp [Sent.callData?, hdel]
  have hsent : ∀ m' ∈ pre ++ post,
      sentHolding { b with outbound := b.outbound.erase outkey } m' = sentHolding b m' := by
    intro m' hm'
    have hne := hother m' hm'
    rw [sentHolding, sentHolding]
    split
    · rename_i outkey' slot hdel
      dsimp only
      split_ifs with hslot
      · subst hslot
        have hkey : outkey' ≠ outkey := by
          rintro rfl
          exact hne hdel
        rw [get?_erase, if_neg hkey]
      · rfl
    · rfl
  have hhold : sentHolding b m = some ⟨m.payload, keys parts⟩ := by
    simp [sentHolding, hm, hparts]
  have hold : (holdings { b with outbound := b.outbound.erase outkey }
      [⟨m.payload, keys parts⟩] ⟨pre ++ post, up⟩).Perm (holdings b [] ⟨pre ++ m :: post, up⟩) := by
    rw [holdings, holdings, filterMap_congr hsent, filterMap_append,
      filterMap_append, filterMap_cons_some hhold, append_nil, append_assoc]
    refine List.Perm.append_left _ ?_
    rw [singleton_append]
    exact perm_middle.symm
  refine h.rearrange (fun _ _ => Iff.rfl) rfl (h.counts.perm (tokens_perm hold _))
    (fun hd hmem => h.backed hd (hold.mem_iff.mp hmem)) (fun m' hm' => h.stray m' (hsub.subset hm'))
    ⟨h.shape.aligned, h.shape.pendingOnce, ?_, ?_, ?_, h.shape.calls.sublist (hsub.filterMap _)⟩
  · intro hd hmem
    rw [mem_singleton.mp hmem]
    exact h.shape.partsOnce outkey parts hparts
  · intro outkey' parts' hget
    rw [show (b.outbound.erase outkey).get? outkey' = _ from get?_erase _ _ _] at hget
    split at hget
    · cases hget
    · exact h.shape.partsOnce outkey' parts' hget
  · intro m' hm' outkey' hdel
    show ∃ parts', (b.outbound.erase outkey).get? outkey' = some parts'
    have hkey : outkey' ≠ outkey := by
      rintro rfl
      exact hother m' hm' hdel
    rw [get?_erase, if_neg hkey]
    exact h.shape.keyed m' (hsub.subset hm') outkey' hdel

/-- **A reply keeps the books.**  If it is a refusal, then the tracked requests in the output were
refused. -/
theorem Books.handle {outkey : Nat} (res : Except BatchFailure Unit)
    (h : Books sources ledger elsewhere b [] [] ⟨pre ++ m :: post, up⟩)
    (hm : m.delivery = .subscribed [outkey, b.slot]) :
    Books sources ledger elsewhere (b.handle outkey res).1 [] []
        (after ⟨pre ++ post, up⟩ (b.handle outkey res).2) ∧
      (∀ failure, res = .error failure →
        Backed sources ledger (b.handle outkey res).1.inbound
          (after ⟨pre ++ post, up⟩ (b.handle outkey res).2).up ⟨m.payload, []⟩) := by
  obtain ⟨parts, hparts⟩ := h.shape.keyed m (mem_append_right _ mem_cons_self) outkey hm
  have hloose := h.unsend hm hparts
  have hhandle : b.handle outkey res =
      SignalBuffer.handlePartialResponses { b with outbound := b.outbound.erase outkey } res
        parts := by
    rw [SignalBuffer.handle, Slots.take, hparts]
  rw [hhandle]
  cases res with
  | ok u =>
    refine ⟨?_, fun failure hres => by cases hres⟩
    have hfree := hloose.release
    exact hfree.responses_ok
  | error failure =>
    obtain ⟨hbooks, hdead⟩ := hloose.responses_error failure parts
    have htokens : ∀ k ∈ keys parts, _ := fun k hk => hdead k (.inr hk)
    refine ⟨hbooks.drop htokens, fun _ _ => ?_⟩
    refine (hbooks.backed _ ((holdings_cons _).mem_iff.mpr mem_cons_self)).mono
      (fun _ hr => hr) ?_
    intro k hk hlive
    rw [htokens k hk] at hlive
    cases hlive

theorem handle_local (b : SignalBuffer P) (outkey : Nat) (res : Except BatchFailure Unit) :
    Local b (b.handle outkey res).1 (b.handle outkey res).2 := by
  rw [SignalBuffer.handle]
  split
  · exact .refl b
  · have htaken : Local b { b with outbound := b.outbound.erase outkey } [] :=
      .of_quiet rfl (by simp)
    exact htaken.trans (handlePartialResponses_local _ _ _)

/-! # The books of the processor

The books of all buffers together.  A request that has no outcome waits in exactly one place: in a
slot of one buffer, with an output that forwards it, or, while a message is handled, in the hands of
the processor.  Each buffer sees the other places as `Elsewhere`, so that a step of one buffer is a
step of all of them (`Around.onBuffer`). -/

variable {proc : BatchProcessor P} {inHand : Nat → Prop}

/-! ## Buffers of a processor -/

theorem SignalBatches.get_set_self (signals : SignalBatches P) (signal : SignalType)
    (buffer : SignalBuffer P) : (signals.set signal buffer).get signal = buffer := by
  cases signal <;> rfl

theorem SignalBatches.get_set_ne (signals : SignalBatches P) {signal signal' : SignalType}
    (h : signal' ≠ signal) (buffer : SignalBuffer P) :
    (signals.set signal buffer).get signal' = signals.get signal' := by
  cases signal <;> cases signal' <;> first | rfl | exact absurd rfl h

theorem format_setBuffer (proc : BatchProcessor P) (i i' : Nat) (sig : SignalType)
    (b : SignalBuffer P) :
    (proc.setBuffer i sig b).format i' =
      if i = i' then (proc.format i').map fun state =>
        { state with signals := state.signals.set sig b }
      else proc.format i' := by
  rw [BatchProcessor.setBuffer, BatchProcessor.format, BatchProcessor.format]
  dsimp only
  rw [getElem?_modify]
  split
  · cases proc.formats[i']? with
    | none | some => rfl
  · cases proc.formats[i']? with
    | none | some => rfl

variable {b : SignalBuffer P} {sig : SignalType} {i : Nat}

theorem buffer?_setBuffer_self (h : proc.buffer? i sig = some b) (b' : SignalBuffer P) :
    (proc.setBuffer i sig b').buffer? i sig = some b' := by
  rw [BatchProcessor.buffer?] at h ⊢
  rw [format_setBuffer, if_pos rfl]
  cases hf : proc.format i with
  | none =>
    rw [hf] at h
    cases h
  | some state =>
    simp [SignalBatches.get_set_self]

theorem buffer?_setBuffer_ne {i i' : Nat} {sig sig' : SignalType} (h : (i', sig') ≠ (i, sig))
    (b' : SignalBuffer P) : (proc.setBuffer i sig b').buffer? i' sig' = proc.buffer? i' sig' := by
  rw [BatchProcessor.buffer?, BatchProcessor.buffer?, format_setBuffer]
  split_ifs with hi
  · subst hi
    have hsig : sig' ≠ sig := by
      rintro rfl
      exact h rfl
    cases proc.format i with
    | none => rfl
    | some state => simp [SignalBatches.get_set_ne _ hsig]
  · rfl

theorem wakeupSlot_inj {i i' : Nat} {sig sig' : SignalType}
    (h : wakeupSlot i sig = wakeupSlot i' sig') : (i, sig) = (i', sig') := by
  cases sig <;> cases sig' <;> simp only [wakeupSlot] at h <;> first | omega | skip
  all_goals
    have : i = i' := by omega
    rw [this]

theorem wakeupSlot_div (i : Nat) (sig : SignalType) : wakeupSlot i sig / 3 = i := by
  cases sig <;> simp only [wakeupSlot] <;> omega

theorem signalOfSlot_wakeupSlot (i : Nat) (sig : SignalType) :
    signalOfSlot (wakeupSlot i sig) = sig := by
  cases sig <;> simp [wakeupSlot, signalOfSlot, Nat.add_mod]

/-! ## Places -/

def Forwarded (g : Ghost P) (r : Nat) : Prop :=
  ∃ m ∈ g.sent, ∃ ctx, m.delivery = .forwarded ctx ∧ ctx.request = r

theorem forwarded_iff {r : Nat} : Forwarded g r ↔ r ∈ g.sent.filterMap Sent.forwarded? := by
  simp only [Forwarded, mem_filterMap]
  refine exists_congr fun m => and_congr_right fun _ => ?_
  cases hdel : m.delivery <;> simp [Sent.forwarded?, hdel]

def LiveAt (proc : BatchProcessor P) (place : Nat × SignalType) (r : Nat) : Prop :=
  ∃ b k, proc.buffer? place.1 place.2 = some b ∧ Live b.inbound k r

/-- Between messages the processor holds no request in its hands. -/
def noOne (_ : Nat) : Prop := False

/-- The request waits at another place. -/
def Elsewhere (proc : BatchProcessor P) (g : Ghost P) (inHand : Nat → Prop)
    (place : Nat × SignalType) (r : Nat) : Prop :=
  inHand r ∨ Forwarded g r ∨ ∃ place', place' ≠ place ∧ LiveAt proc place' r

def Waits (proc : BatchProcessor P) (g : Ghost P) (inHand : Nat → Prop) (r : Nat) : Prop :=
  inHand r ∨ Forwarded g r ∨ ∃ place, LiveAt proc place r

theorem waits_iff (hb : proc.buffer? i sig = some b) (r : Nat) :
    Waits proc g inHand r ↔
      (∃ k, Live b.inbound k r) ∨ Elsewhere proc g inHand (i, sig) r := by
  constructor
  · rintro (hr | hr | ⟨place, hr⟩)
    · exact .inr (.inl hr)
    · exact .inr (.inr (.inl hr))
    · by_cases hp : place = (i, sig)
      · subst hp
        obtain ⟨b', k, hb', hk⟩ := hr
        rw [hb] at hb'
        cases hb'
        exact .inl ⟨k, hk⟩
      · exact .inr (.inr (.inr ⟨place, hp, hr⟩))
  · rintro (⟨k, hk⟩ | hr | hr | ⟨place, -, hr⟩)
    · exact .inr (.inr ⟨(i, sig), b, k, hb, hk⟩)
    · exact .inl hr
    · exact .inr (.inl hr)
    · exact .inr (.inr ⟨place, hr⟩)

/-- What holds of everything but the buffer at `place`. -/
structure Around (sources : P → Set Nat) (proc : BatchProcessor P) (ledger : List Bool)
    (g : Ghost P) (inHand : Nat → Prop) (place : Nat × SignalType) : Prop where
  slots : ∀ i sig b, proc.buffer? i sig = some b → b.slot = wakeupSlot i sig
  others : ∀ i sig b, (i, sig) ≠ place → proc.buffer? i sig = some b →
    Books sources ledger (Elsewhere proc g inHand (i, sig)) b [] [] g
  own : ∀ m ∈ g.sent, ∀ ctx, m.delivery = .forwarded ctx → ∀ r ∈ sources m.payload, r = ctx.request
  forwardedOnce : (g.sent.filterMap Sent.forwarded?).Nodup
  addressed : ∀ m ∈ g.sent, ∀ callData, m.delivery = .subscribed callData →
    ∃ i sig b outkey, proc.buffer? i sig = some b ∧ callData = [outkey, b.slot]

/-- **The books of the processor.** -/
structure Inv (sources : P → Set Nat) (proc : BatchProcessor P) (ledger : List Bool)
    (g : Ghost P) (inHand : Nat → Prop) : Prop where
  slots : ∀ i sig b, proc.buffer? i sig = some b → b.slot = wakeupSlot i sig
  books : ∀ i sig b, proc.buffer? i sig = some b →
    Books sources ledger (Elsewhere proc g inHand (i, sig)) b [] [] g
  own : ∀ m ∈ g.sent, ∀ ctx, m.delivery = .forwarded ctx → ∀ r ∈ sources m.payload, r = ctx.request
  forwardedOnce : (g.sent.filterMap Sent.forwarded?).Nodup
  addressed : ∀ m ∈ g.sent, ∀ callData, m.delivery = .subscribed callData →
    ∃ i sig b outkey, proc.buffer? i sig = some b ∧ callData = [outkey, b.slot]
  settled : Settlement ledger (Waits proc g inHand) (Slots.new 0) g.up
  stray : ∀ m ∈ g.sent, m.delivery = .unsubscribed →
    Backed sources ledger (Slots.new 0) g.up ⟨m.payload, []⟩
  calls : (g.sent.filterMap Sent.callData?).Nodup
  hand : ∀ r, inHand r → ¬Forwarded g r ∧ ∀ place, ¬LiveAt proc place r

theorem Inv.around (h : Inv sources proc ledger g inHand) (place : Nat × SignalType) :
    Around sources proc ledger g inHand place :=
  { h with others := fun i sig b _ => h.books i sig b }

/-! ## A step of one buffer -/

theorem not_live_new (n k r : Nat) : ¬Live (Slots.new n) k r := by simp [Live]

variable {up : List (Nat × Outcome)}

theorem Backed.unbacked {inbound : Slots BatchContext} {p : P}
    (h : Backed sources ledger inbound up ⟨p, []⟩) (inbound' : Slots BatchContext) :
    Backed sources ledger inbound' up ⟨p, []⟩ := by
  intro r hr
  obtain ⟨t, ht, hrest⟩ := h r hr
  refine ⟨t, ht, fun htrue => (hrest htrue).imp_left ?_⟩
  rintro ⟨k, hk, -⟩
  cases hk

variable {m : Sent P} {effects : List (Effect P)}

theorem Ghost.mem_after_sent :
    m ∈ (g.after effects).sent ↔ m ∈ g.sent ∨ .sendMessage m ∈ effects := by
  have hsent : ∀ e : Effect P, e.sent? = some m ↔ e = .sendMessage m := by
    intro e
    cases e <;> simp [Effect.sent?]
  simp [Ghost.after, mem_filterMap, hsent]

section

variable {b b' : SignalBuffer P}
  (h : Around sources proc ledger g inHand (i, sig))
  (hb : proc.buffer? i sig = some b) (hlocal : Local b b' effects)

include hlocal

theorem Local.not_forwarded (hm : .sendMessage m ∈ effects) (ctx : Context) :
    m.delivery ≠ .forwarded ctx := by
  rcases hlocal.sends m hm with hun | ⟨outkey, hsub⟩
  · simp [hun]
  · simp [hsub]

theorem Local.subscribed (hm : .sendMessage m ∈ effects) {callData : CallData}
    (hdel : m.delivery = .subscribed callData) : ∃ outkey, callData = [outkey, b.slot] := by
  rcases hlocal.sends m hm with hun | ⟨outkey, hsub⟩
  · cases hun.symm.trans hdel
  · cases hsub.symm.trans hdel
    exact ⟨outkey, rfl⟩

theorem Local.no_forwards : (effects.filterMap Effect.sent?).filterMap Sent.forwarded? = [] := by
  refine filterMap_eq_nil_iff.mpr fun m hm => ?_
  obtain ⟨e, he, hsent⟩ := mem_filterMap.mp hm
  cases e <;> cases hsent
  rw [Sent.forwarded?]
  split
  · rename_i ctx hdel
    exact absurd hdel (hlocal.not_forwarded he ctx)
  · rfl

theorem Local.forwarded_iff (r : Nat) : Forwarded (g.after effects) r ↔ Forwarded g r := by
  simp [OtapDataflow.Batch.forwarded_iff, Ghost.after, hlocal.no_forwards]

omit hlocal in
theorem liveAt_setBuffer_ne {place : Nat × SignalType} (hp : place ≠ (i, sig))
    (b' : SignalBuffer P) (r : Nat) :
    LiveAt (proc.setBuffer i sig b') place r ↔ LiveAt proc place r := by
  simp [LiveAt, buffer?_setBuffer_ne hp]

/-- The places at which a request waits, seen from the buffer that has made a step. -/
theorem elsewhere_step (r : Nat) :
    Elsewhere (proc.setBuffer i sig b') (g.after effects) inHand (i, sig) r ↔
      Elsewhere proc g inHand (i, sig) r := by
  rw [Elsewhere, Elsewhere, hlocal.forwarded_iff]
  refine or_congr_right (or_congr_right (exists_congr fun place => and_congr_right fun hp => ?_))
  exact liveAt_setBuffer_ne hp b' r

variable {b₂ : SignalBuffer P}

omit hlocal in
theorem sentHolding_other (hslot : b₂.slot ≠ b.slot)
    (hm : m.delivery = .unsubscribed ∨ ∃ outkey, m.delivery = .subscribed [outkey, b.slot]) :
    sentHolding b₂ m = none := by
  rcases hm with hun | ⟨outkey, hsub⟩
  · simp [sentHolding, hun]
  · simp [sentHolding, hsub, Ne.symm hslot]

theorem holdings_other (hslot : b₂.slot ≠ b.slot) :
    holdings b₂ [] (g.after effects) = holdings b₂ [] g := by
  have hnone : (effects.filterMap Effect.sent?).filterMap (sentHolding b₂) = [] := by
    refine filterMap_eq_nil_iff.mpr fun m hm => sentHolding_other hslot (hlocal.sends m ?_)
    obtain ⟨e, he, hsent⟩ := mem_filterMap.mp hm
    cases e <;> cases hsent
    exact he
  simp [holdings, Ghost.after, hnone]

variable (hbooks : Books sources ledger (Elsewhere proc g noOne (i, sig)) b' [] []
  (g.after effects))

include h hb hbooks

/-- The books of another buffer. -/
theorem Around.other {i₂ : Nat} {sig₂ : SignalType} (hp : (i₂, sig₂) ≠ (i, sig))
    (hb₂ : proc.buffer? i₂ sig₂ = some b₂) :
    Books sources ledger
      (Elsewhere (proc.setBuffer i sig b') (g.after effects) noOne (i₂, sig₂)) b₂ [] []
      (g.after effects) := by
  have hold := h.others i₂ sig₂ b₂ hp hb₂
  have hslot : b₂.slot ≠ b.slot := by
    rw [h.slots _ _ _ hb₂, h.slots _ _ _ hb]
    exact fun heq => hp (wakeupSlot_inj heq)
  have hself := buffer?_setBuffer_self hb b'
  have hb₂' : (proc.setBuffer i sig b').buffer? i₂ sig₂ = some b₂ := by
    rwa [buffer?_setBuffer_ne hp]
  have hseen : ∀ k r, Live b₂.inbound k r → Elsewhere proc g noOne (i, sig) r :=
    fun k r hk => .inr (.inr ⟨(i₂, sig₂), hp, b₂, k, hb₂, hk⟩)
  refine ⟨hbooks.settlement.view ?_ ?_ (fun k r hk => (hold.settlement.waiting k r hk).1)
    hold.settlement.distinct, ?_, ?_, ?_, ?_⟩
  · intro r
    rw [← waits_iff hb₂', waits_iff hself, elsewhere_step hlocal]
  · -- a request that waits in this buffer waits nowhere else
    rintro r (hr | hr | ⟨place, hplace, hr⟩) k hk
    · exact hr.elim
    · exact (hold.settlement.apart r (.inr (.inl ((hlocal.forwarded_iff r).mp hr)))).2.2 k hk
    · by_cases hpi : place = (i, sig)
      · subst hpi
        obtain ⟨b'', k', hb'', hk'⟩ := hr
        rw [hself] at hb''
        cases hb''
        exact (hbooks.settlement.apart r (hseen k r hk)).2.2 k' hk'
      · rw [liveAt_setBuffer_ne hpi] at hr
        exact (hold.settlement.apart r (.inr (.inr ⟨place, hplace, hr⟩))).2.2 k hk
  · rw [holdings_other hlocal hslot]
    exact hold.counts
  · rw [holdings_other hlocal hslot]
    exact fun hd hmem => (hold.backed hd hmem).append _
  · exact fun m hm hdel => (hbooks.stray m hm hdel).unbacked _
  · refine { hold.shape with keyed := ?_, calls := hbooks.shape.calls }
    intro m hm outkey hdel
    rcases Ghost.mem_after_sent.mp hm with hm | hm
    · exact hold.shape.keyed m hm outkey hdel
    · obtain ⟨outkey', heq⟩ := hlocal.subscribed hm hdel
      exact absurd (by simpa using heq : outkey = outkey' ∧ b₂.slot = b.slot).2 hslot

/-- **A step of one buffer is a step of the processor.** -/
theorem Around.onBuffer : Inv sources (proc.setBuffer i sig b') ledger (g.after effects) noOne := by
  have hself := buffer?_setBuffer_self hb b'
  have hcases : ∀ i₂ sig₂ b₂, (proc.setBuffer i sig b').buffer? i₂ sig₂ = some b₂ →
      (i₂, sig₂) = (i, sig) ∧ b₂ = b' ∨ (i₂, sig₂) ≠ (i, sig) ∧ proc.buffer? i₂ sig₂ = some b₂ := by
    intro i₂ sig₂ b₂ hb₂
    by_cases hp : (i₂, sig₂) = (i, sig)
    · cases hp
      rw [hself] at hb₂
      exact .inl ⟨rfl, (Option.some.inj hb₂).symm⟩
    · rw [buffer?_setBuffer_ne hp] at hb₂
      exact .inr ⟨hp, hb₂⟩
  refine ⟨?_, ?_, ?_, by simpa [Ghost.after, hlocal.no_forwards] using h.forwardedOnce, ?_, ?_,
    fun m hm hdel => (hbooks.stray m hm hdel).unbacked _, hbooks.shape.calls, ?_⟩
  · intro i₂ sig₂ b₂ hb₂
    rcases hcases i₂ sig₂ b₂ hb₂ with ⟨hp, rfl⟩ | ⟨-, hb₂⟩
    · cases hp
      rw [hlocal.slot]
      exact h.slots i sig b hb
    · exact h.slots i₂ sig₂ b₂ hb₂
  · intro i₂ sig₂ b₂ hb₂
    rcases hcases i₂ sig₂ b₂ hb₂ with ⟨hp, rfl⟩ | ⟨hp, hb₂⟩
    · cases hp
      have heq : Elsewhere (proc.setBuffer i sig b₂) (g.after effects) noOne (i, sig) =
          Elsewhere proc g noOne (i, sig) := funext fun r => propext (elsewhere_step hlocal r)
      rwa [heq]
    · exact h.other hb hlocal hbooks hp hb₂
  · intro m hm ctx hdel r hr
    rcases Ghost.mem_after_sent.mp hm with hm | hm
    · exact h.own m hm ctx hdel r hr
    · exact absurd hdel (hlocal.not_forwarded hm ctx)
  · intro m hm callData hdel
    rcases Ghost.mem_after_sent.mp hm with hm | hm
    · obtain ⟨i₂, sig₂, b₂, outkey, hb₂, hcall⟩ := h.addressed m hm callData hdel
      by_cases hp : (i₂, sig₂) = (i, sig)
      · cases hp
        rw [hb] at hb₂
        cases hb₂
        exact ⟨i, sig, b', outkey, hself, by rw [hcall, hlocal.slot]⟩
      · exact ⟨i₂, sig₂, b₂, outkey, by rw [buffer?_setBuffer_ne hp]; exact hb₂, hcall⟩
    · obtain ⟨outkey, rfl⟩ := hlocal.subscribed hm hdel
      exact ⟨i, sig, b', outkey, hself, by rw [hlocal.slot]⟩
  · refine hbooks.settlement.view (fun r => ?_) (fun r _ k => not_live_new 0 k r)
      (fun k r hk => absurd hk (not_live_new 0 k r))
      (fun k _ r hk => absurd hk (not_live_new 0 k r))
    rw [← elsewhere_step hlocal, ← waits_iff hself]
    refine or_iff_right ?_
    rintro ⟨k, hk⟩
    exact not_live_new 0 k r hk
  · exact fun r hr => hr.elim

end

/-! ## A request in the hands of the processor -/

theorem Books.congr_elsewhere {elsewhere elsewhere' : Nat → Prop}
    (h : Books sources ledger elsewhere b [] [] g) (hiff : ∀ r, elsewhere' r ↔ elsewhere r) :
    Books sources ledger elsewhere' b [] [] g := by
  rwa [funext fun r => propext (hiff r)]

theorem elsewhere_hand (place : Nat × SignalType) (r x : Nat) :
    Elsewhere proc g (· = r) place x ↔ Elsewhere proc g noOne place x ∨ x = r := by
  simp only [Elsewhere, noOne, false_or]
  exact or_comm

theorem waits_hand (r : Nat) : Waits proc g (· = r) = fun x => Waits proc g noOne x ∨ x = r := by
  funext x
  simp only [Waits, noOne, false_or]
  exact propext or_comm

/-- A request arrives. -/
theorem Inv.arrive (h : Inv sources proc ledger g noOne) (tracked : Bool) :
    Inv sources proc (ledger ++ [tracked]) g (· = ledger.length) where
  slots := h.slots
  books := fun i sig b hb =>
    ((h.books i sig b hb).arrive tracked).congr_elsewhere (elsewhere_hand (i, sig) ledger.length)
  own := h.own
  forwardedOnce := h.forwardedOnce
  addressed := h.addressed
  settled := by
    rw [waits_hand]
    exact h.settled.arrive tracked
  stray := fun m hm hdel => (h.stray m hm hdel).arrive tracked
  calls := h.calls
  hand := by
    rintro r rfl
    exact ⟨fun hr => (h.settled.apart _ (.inr (.inl hr))).1.false,
      fun place hr => (h.settled.apart _ (.inr (.inr ⟨place, hr⟩))).1.false⟩

section

variable {r : Nat} (h : Inv sources proc ledger g (· = r))

include h

theorem Inv.not_waits : ¬Waits proc g noOne r := by
  obtain ⟨hf, hl⟩ := h.hand r rfl
  rintro (hr | hr | ⟨place, hr⟩)
  · exact hr
  · exact hf hr
  · exact hl place hr

theorem Inv.not_elsewhere (place : Nat × SignalType) : ¬Elsewhere proc g noOne place r := by
  obtain ⟨hf, hl⟩ := h.hand r rfl
  rintro (hr | hr | ⟨place', -, hr⟩)
  · exact hr
  · exact hf hr
  · exact hl place' hr

theorem Inv.books_hand (hb : proc.buffer? i sig = some b) :
    Books sources ledger (fun x => Elsewhere proc g noOne (i, sig) x ∨ x = r) b [] [] g :=
  (h.books i sig b hb).congr_elsewhere fun x => (elsewhere_hand (i, sig) r x).symm

/-- The request is told its outcome. -/
theorem Inv.inform (o : Outcome) : Inv sources proc ledger ⟨g.sent, g.up ++ [(r, o)]⟩ noOne where
  slots := h.slots
  books := fun i sig b hb => Books.inform (h.not_elsewhere (i, sig)) (h.books_hand hb) o
  own := h.own
  forwardedOnce := h.forwardedOnce
  addressed := h.addressed
  settled := by
    have hsettled := h.settled
    rw [waits_hand] at hsettled
    exact hsettled.inform h.not_waits o
  stray := fun m hm hdel => (h.stray m hm hdel).append _
  calls := h.calls
  hand := fun _ hr => hr.elim

/-- The request is forwarded as it is. -/
theorem Inv.forward {ctx : Context} (hm : m.delivery = .forwarded ctx)
    (hctx : ctx.request = r) (hown : ∀ x ∈ sources m.payload, x = ctx.request) :
    Inv sources proc ledger ⟨g.sent ++ [m], g.up⟩ noOne := by
  have hf : m.forwarded? = some r := by simp [Sent.forwarded?, hm, hctx]
  have hforwarded : ∀ x, Forwarded ⟨g.sent ++ [m], g.up⟩ x ↔ x = r ∨ Forwarded g x := by
    simp [forwarded_iff, hf, or_comm]
  have hcall : m.callData? = none := by simp [Sent.callData?, hm]
  have hun : m.delivery ≠ .unsubscribed := by simp [hm]
  refine ⟨h.slots, fun i sig b hb => ?_, ?_, ?_, ?_, ?_, ?_, ?_, fun _ hr => hr.elim⟩
  · refine ((h.books i sig b hb).post hcall fun hdel => absurd hdel hun).congr_elsewhere fun x => ?_
    simp [Elsewhere, noOne, hforwarded, or_assoc]
  · refine forall_mem_append.mpr ⟨h.own, forall_mem_singleton.mpr fun ctx' hdel => ?_⟩
    rw [hm] at hdel
    cases hdel
    exact hown
  · rw [filterMap_append, filterMap_cons_some hf, filterMap_nil]
    refine nodup_append.mpr ⟨h.forwardedOnce, nodup_singleton _, ?_⟩
    rintro x hx x' hx' rfl
    cases mem_singleton.mp hx'
    exact (h.hand r rfl).1 (forwarded_iff.mpr hx)
  · refine forall_mem_append.mpr ⟨h.addressed, forall_mem_singleton.mpr fun callData hdel => ?_⟩
    cases hm.symm.trans hdel
  · have hwaits : Waits proc ⟨g.sent ++ [m], g.up⟩ noOne = Waits proc g (· = r) := by
      funext x
      simp [Waits, noOne, hforwarded, or_assoc]
    rw [hwaits]
    exact h.settled
  · exact forall_mem_append.mpr
      ⟨h.stray, forall_mem_singleton.mpr fun hdel => absurd hdel hun⟩
  · simpa [filterMap_append, hcall] using h.calls

end

/-! ## A message is answered -/

section

variable {pre post : List (Sent P)}
  (h : Inv sources proc ledger ⟨pre ++ m :: post, up⟩ noOne)

theorem answered_sublist (pre post : List (Sent P)) (m : Sent P) :
    (pre ++ post).Sublist (pre ++ m :: post) := (sublist_cons_self m post).append_left pre

theorem forwarded_answered (hm : m.forwarded? = none) (r : Nat) :
    Forwarded ⟨pre ++ post, up⟩ r ↔ Forwarded ⟨pre ++ m :: post, up⟩ r := by
  simp [forwarded_iff, hm]

theorem sentHolding_of_callData (hm : m.callData? = none) : sentHolding b m = none := by
  rw [sentHolding]
  split
  · rename_i outkey slot heq
    simp [Sent.callData?, heq] at hm
  · rfl

include h

/-- A message that nobody waits for. -/
theorem Inv.forget (hm : m.delivery = .unsubscribed) :
    Inv sources proc ledger ⟨pre ++ post, up⟩ noOne := by
  have hsub := answered_sublist pre post m
  have hf : ∀ r, Forwarded ⟨pre ++ post, up⟩ r ↔ Forwarded ⟨pre ++ m :: post, up⟩ r :=
    forwarded_answered (by simp [Sent.forwarded?, hm])
  have hnone : ∀ b, sentHolding b m = none := fun b =>
    sentHolding_of_callData (by simp [Sent.callData?, hm])
  refine ⟨h.slots, fun i sig b hb => ?_, fun m' hm' => h.own m' (hsub.subset hm'),
    h.forwardedOnce.sublist (hsub.filterMap _), fun m' hm' => h.addressed m' (hsub.subset hm'), ?_,
    fun m' hm' => h.stray m' (hsub.subset hm'), h.calls.sublist (hsub.filterMap _),
    fun _ hr => hr.elim⟩
  · refine ((h.books i sig b hb).forget (hnone b)).congr_elsewhere fun r => ?_
    simp [Elsewhere, hf]
  · have hwaits : Waits proc ⟨pre ++ post, up⟩ noOne = Waits proc ⟨pre ++ m :: post, up⟩ noOne := by
      funext r
      simp [Waits, hf]
    rw [hwaits]
    exact h.settled

/-- A request that was forwarded: the outcome is known, and not told yet. -/
theorem Inv.unforward {ctx : Context} (hm : m.delivery = .forwarded ctx) :
    Inv sources proc ledger ⟨pre ++ post, up⟩ (· = ctx.request) := by
  have hsub := answered_sublist pre post m
  have hf' : m.forwarded? = some ctx.request := by simp [Sent.forwarded?, hm]
  have hf : ∀ r, Forwarded ⟨pre ++ m :: post, up⟩ r ↔
      r = ctx.request ∨ Forwarded ⟨pre ++ post, up⟩ r := by
    simp [forwarded_iff, hf', or_left_comm]
  have hnone : ∀ b, sentHolding b m = none := fun b =>
    sentHolding_of_callData (by simp [Sent.callData?, hm])
  have hwas : Forwarded ⟨pre ++ m :: post, up⟩ ctx.request := (hf _).mpr (.inl rfl)
  refine ⟨h.slots, fun i sig b hb => ?_, fun m' hm' => h.own m' (hsub.subset hm'),
    h.forwardedOnce.sublist (hsub.filterMap _), fun m' hm' => h.addressed m' (hsub.subset hm'), ?_,
    fun m' hm' => h.stray m' (hsub.subset hm'), h.calls.sublist (hsub.filterMap _), ?_⟩
  · refine ((h.books i sig b hb).forget (hnone b)).congr_elsewhere fun r => ?_
    simp [Elsewhere, noOne, hf, or_assoc]
  · have hwaits : Waits proc ⟨pre ++ post, up⟩ (· = ctx.request) =
        Waits proc ⟨pre ++ m :: post, up⟩ noOne := by
      funext r
      simp [Waits, noOne, hf, or_assoc]
    rw [hwaits]
    exact h.settled
  · rintro r rfl
    refine ⟨?_, ?_⟩
    · have honce := h.forwardedOnce
      rw [filterMap_append, filterMap_cons_some hf', nodup_middle, ← filterMap_append] at honce
      exact fun hr => (nodup_cons.mp honce).1 (forwarded_iff.mp hr)
    · rintro ⟨i, sig⟩ ⟨b, k, hb, hk⟩
      exact ((h.books i sig b hb).settlement.apart _ (.inr (.inl hwas))).2.2 k hk

/-- An output that a buffer waits for: the other buffers do not notice. -/
theorem Inv.around_answered {outkey : Nat}
    (hb : proc.buffer? i sig = some b) (hm : m.delivery = .subscribed [outkey, b.slot]) :
    Around sources proc ledger ⟨pre ++ post, up⟩ noOne (i, sig) := by
  have hsub := answered_sublist pre post m
  have hf : ∀ r, Forwarded ⟨pre ++ post, up⟩ r ↔ Forwarded ⟨pre ++ m :: post, up⟩ r :=
    forwarded_answered (by simp [Sent.forwarded?, hm])
  refine ⟨h.slots, fun i₂ sig₂ b₂ hp hb₂ => ?_, fun m' hm' => h.own m' (hsub.subset hm'),
    h.forwardedOnce.sublist (hsub.filterMap _), fun m' hm' => h.addressed m' (hsub.subset hm')⟩
  have hslot : b₂.slot ≠ b.slot := by
    rw [h.slots _ _ _ hb₂, h.slots _ _ _ hb]
    exact fun heq => hp (wakeupSlot_inj heq)
  refine ((h.books i₂ sig₂ b₂ hb₂).forget
    (sentHolding_other hslot (.inr ⟨outkey, hm⟩))).congr_elsewhere fun r => ?_
  simp [Elsewhere, hf]

end

/-! # Messages to the processor

Every message keeps the books of the processor. -/

open BatchProcessor Ghost

variable {env : Env P}

/-! ## Routes -/

/-- Routes lead to formats that exist. -/
def Routed (proc : BatchProcessor P) : Prop :=
  ∀ route ∈ proc.routes, (proc.format route.2).isSome

theorem Routed.setBuffer (h : Routed proc) (i : Nat) (sig : SignalType) (b : SignalBuffer P) :
    Routed (proc.setBuffer i sig b) := by
  intro route hroute
  rw [format_setBuffer]
  split
  · rw [Option.isSome_map]
    exact h route hroute
  · exact h route hroute

variable {i : Nat} {sig : SignalType}

theorem Routed.routeOf (h : Routed proc) {format : PdataFormat}
    (hroute : proc.routeOf format = some i) : (proc.format i).isSome := by
  rw [BatchProcessor.routeOf] at hroute
  split at hroute
  · obtain ⟨route, hfind, rfl⟩ := Option.map_eq_some_iff.mp hroute
    exact h route (mem_of_find?_eq_some hfind)
  · obtain ⟨route, hhead, rfl⟩ := Option.map_eq_some_iff.mp hroute
    exact h route (mem_of_mem_head? hhead)

theorem setBuffer_self {b : SignalBuffer P} (hb : proc.buffer? i sig = some b) :
    proc.setBuffer i sig b = proc := by
  obtain ⟨state, hstate, rfl⟩ := Option.map_eq_some_iff.mp hb
  have hformats : proc.formats[i]? = some (some state) := Option.join_eq_some_iff.mp hstate
  have hset : state.signals.set sig (state.signals.get sig) = state.signals := by
    cases sig <;> rfl
  have hmodify : (proc.formats.modify i fun state' => state'.map fun state' =>
      { state' with signals := state'.signals.set sig (state.signals.get sig) }) =
      proc.formats := by
    refine ext_getElem? fun j => ?_
    rw [getElem?_modify]
    split_ifs with hj
    · rw [← hj, hformats]
      simp [hset]
    · simp
  rw [setBuffer, hmodify]

/-- What `onBuffer` does. -/
theorem onBuffer_cases (proc : BatchProcessor P) (i : Nat) (sig : SignalType)
    (op : BatchPlan → SignalBuffer P → Handled (SignalBuffer P) P) :
    proc.format i = none ∧ proc.onBuffer i sig op = ⟨proc, [], none⟩ ∨
      ∃ plan b, proc.buffer? i sig = some b ∧
        proc.onBuffer i sig op = ⟨proc.setBuffer i sig (op plan b).state, (op plan b).effects,
          (op plan b).error⟩ := by
  rw [onBuffer]
  cases hf : proc.format i with
  | none => exact .inl ⟨rfl, rfl⟩
  | some state =>
    exact .inr ⟨state.plan, state.signals.get sig, by simp [buffer?, hf], rfl⟩

theorem Routed.onBuffer (h : Routed proc) (i : Nat) (sig : SignalType)
    (op : BatchPlan → SignalBuffer P → Handled (SignalBuffer P) P) :
    Routed (proc.onBuffer i sig op).state := by
  rcases onBuffer_cases proc i sig op with ⟨-, heq⟩ | ⟨plan, b, -, heq⟩
  · rwa [heq]
  · rw [heq]
    exact h.setBuffer i sig _

theorem Routed.flushBuffers (h : Routed proc) (env : Env P) (places : List (Nat × SignalType)) :
    Routed (proc.flushBuffers env places).state := by
  induction places generalizing proc with
  | nil => exact h
  | cons place places ih =>
    rw [flushBuffers]
    split
    · exact h.onBuffer _ _ _
    · exact ih (h.onBuffer _ _ _)

theorem Routed.process (h : Routed proc) (env : Env P) (input : Input P) :
    Routed (proc.process env input).state := by
  have hresponse : ∀ callData res, Routed (proc.handleResponse callData res).state := by
    intro callData res
    match callData with
    | [] => exact h
    | [_] => exact h
    | [outkey, slot] =>
      rw [handleResponse]
      split
      · exact h
      · exact h.onBuffer _ _ _
    | _ :: _ :: _ :: _ => exact h
  cases input with
  | pdata request =>
    show Routed (proc.processSignalImpl env request).state
    rw [processSignalImpl]
    split
    · exact h
    · exact h.onBuffer _ _ _
  | ack | nack => exact hresponse _ _
  | wakeup slot time => exact h.onBuffer _ _ _
  | shutdown => exact h.flushBuffers env _
  | otherControl => exact h

/-! ## Messages -/

variable (h : Inv sources proc ledger g noOne) (hcodec : env.codec.Contract sources)

include h hcodec in
/-- A flush of one buffer. -/
theorem Inv.flush (i : Nat) (sig : SignalType) (config : Config) (now : Nat) {reason : FlushReason}
    (hreason : reason ≠ .size) :
    Inv sources (proc.onBuffer i sig fun plan b =>
        b.flushSignalImpl config env plan sig now reason).state ledger
      (g.after (proc.onBuffer i sig fun plan b =>
        b.flushSignalImpl config env plan sig now reason).effects) noOne := by
  rcases onBuffer_cases proc i sig fun plan b =>
    b.flushSignalImpl config env plan sig now reason with ⟨-, heq⟩ | ⟨plan, b, hb, heq⟩
  · rw [heq, after_nil]
    exact h
  · rw [heq]
    obtain ⟨hbooks, hstays⟩ := (h.books i sig b hb).flushSignalImpl hcodec
      (fun _ hsize => absurd hsize hreason) now
    exact (h.around (i, sig)).onBuffer hb hstays hbooks

include h hcodec in
theorem Inv.flushBuffers {places : List (Nat × SignalType)} :
    Inv sources (proc.flushBuffers env places).state ledger
      (g.after (proc.flushBuffers env places).effects) noOne := by
  induction places generalizing proc g with
  | nil =>
    rw [flushBuffers, after_nil]
    exact h
  | cons place places ih =>
    rw [flushBuffers]
    have hinv := h.flush hcodec place.1 place.2 proc.config env.now
        (nofun : FlushReason.shutdown ≠ .size)
    dsimp only
    split
    · exact hinv
    · rw [after_append]
      exact ih hinv

/-- A buffer takes the request that the processor holds in its hands. -/
theorem Inv.take {ctx : Context} (h : Inv sources proc ledger g (· = ctx.request))
    {op : BatchPlan → SignalBuffer P → Handled (SignalBuffer P) P}
    (hformat : (proc.format i).isSome)
    (hop : ∀ state, proc.format i = some state → ∀ b, state.signals.get sig = b →
      Taken sources ledger (Elsewhere proc g noOne (i, sig)) b g ctx (op state.plan b)) :
    Inv sources (proc.onBuffer i sig op).state ledger (g.after (proc.onBuffer i sig op).effects)
      noOne := by
  rw [BatchProcessor.onBuffer]
  cases hstate : proc.format i with
  | none =>
    rw [hstate] at hformat
    cases hformat
  | some state =>
    have hb : proc.buffer? i sig = some (state.signals.get sig) := by rw [buffer?, hstate]; rfl
    have htaken := hop state hstate _ rfl
    dsimp only
    revert htaken
    generalize op state.plan (state.signals.get sig) = handled
    intro htaken
    cases htaken with
    | forwarded hdel hown =>
      rw [setBuffer_self hb, after_send]
      exact h.forward hdel rfl hown
    | kept hbooks hlocal => exact (h.around (i, sig)).onBuffer hb hlocal hbooks

/-- **A request keeps the books.** -/
theorem Inv.processSignalImpl (h : Inv sources proc ledger g noOne) (hrouted : Routed proc)
    (hcodec : env.codec.Contract sources) {request : Request P}
    (hctx : request.ctx.request = ledger.length)
    (hown : ∀ r ∈ sources request.payload, r = ledger.length)
    (hkept : env.acceptsWakeups = false → ¬proc.LeavesRemainder env.codec request) :
    Inv sources (proc.processSignalImpl env request).state
      (ledger ++ [request.ctx.needsCompletionTracking])
      (g.after (proc.processSignalImpl env request).effects) noOne := by
  have harrived := h.arrive request.ctx.needsCompletionTracking
  have hledger : (ledger ++ [request.ctx.needsCompletionTracking])[request.ctx.request]? =
      some request.ctx.needsCompletionTracking := by simp [hctx]
  rw [← hctx] at harrived hown
  rw [BatchProcessor.processSignalImpl]
  split
  · rw [after_nack]
    exact harrived.inform _
  · rename_i i hroute
    refine harrived.take (hrouted.routeOf hroute) fun state hstate b hget => ?_
    subst hget
    have hb : proc.buffer? i request.signal = some (state.signals.get request.signal) := by
      rw [buffer?, hstate]
      rfl
    split
    · exact taken_of_notice (harrived.not_elsewhere _) (harrived.books_hand hb)
        (after_nack _ _ _ _) (by simp)
    · rename_i payload hprepare
      exact acceptPayload_taken hcodec (harrived.not_elsewhere _) (harrived.books_hand hb)
        hledger (fun r hr => hown r (hcodec.prepare_sources _ _ _ hprepare hr))
        (hcodec.prepare_measured _ _ _ hprepare) fun haccepts hremainder =>
          hkept haccepts ⟨i, state, payload, hroute, hstate, hprepare, hremainder⟩

/-- **A reply keeps the books.**  The nack of an output is the nack of every request in it. -/
theorem Inv.handleResponse {m : Sent P} {pre post : List (Sent P)} {up : List (Nat × Outcome)}
    {callData : CallData} (h : Inv sources proc ledger ⟨pre ++ m :: post, up⟩ noOne)
    (hm : m.delivery = .subscribed callData) (res : Except BatchFailure Unit) :
    Inv sources (proc.handleResponse callData res).state ledger
        (after ⟨pre ++ post, up⟩ (proc.handleResponse callData res).effects) noOne ∧
      ∀ failure, res = .error failure →
        Backed sources ledger (Slots.new 0)
          (after ⟨pre ++ post, up⟩ (proc.handleResponse callData res).effects).up
          ⟨m.payload, []⟩ := by
  obtain ⟨i, sig, b, outkey, hb, rfl⟩ :=
    h.addressed m (mem_append_right _ mem_cons_self) callData hm
  obtain ⟨state, hstate, hsig⟩ := Option.map_eq_some_iff.mp hb
  have hslot := h.slots i sig b hb
  have heq : proc.handleResponse [outkey, b.slot] res =
      ⟨proc.setBuffer i sig (b.handle outkey res).1, (b.handle outkey res).2, none⟩ := by
    rw [BatchProcessor.handleResponse, hslot, wakeupSlot_div, signalOfSlot_wakeupSlot, hstate]
    rw [if_neg (by simp), onBuffer, hstate]
    dsimp only
    rw [hsig]
  obtain ⟨hbooks, hrefused⟩ := (h.books i sig b hb).handle res hm
  rw [heq]
  refine ⟨?_, fun failure hfailure => (hrefused failure hfailure).unbacked _⟩
  refine (h.around_answered hb hm).onBuffer hb (handle_local b outkey res) ?_
  have hf : ∀ r, Forwarded ⟨pre ++ post, up⟩ r ↔ Forwarded ⟨pre ++ m :: post, up⟩ r :=
    forwarded_answered (by simp [Sent.forwarded?, hm])
  refine hbooks.congr_elsewhere fun r => ?_
  simp [Elsewhere, hf]

include h hcodec in
/-- A message that is neither data nor a reply keeps the books. -/
theorem Inv.control {input : Input P} (hinput : input = .shutdown ∨ input = .otherControl ∨
      ∃ slot time, input = .wakeup slot time) :
    Inv sources (proc.process env input).state ledger
      (g.after (proc.process env input).effects) noOne := by
  rcases hinput with rfl | rfl | ⟨slot, time, rfl⟩
  · exact h.flushBuffers hcodec
  · rw [process, after_nil]
    exact h
  · exact h.flush hcodec _ _ _ _ nofun

end OtapDataflow.Batch
