import OtapDataflow.Batch.Books

/-! # Responses and outputs keep the books

A success spends the tokens of the parts it is about, and an input whose last token is spent is
acked; a failure refuses their inputs.  An output is sent with the tokens of the inputs that wait
still, if there is a slot in which it can wait for its reply. -/

namespace OtapDataflow.Batch

open Node List SignalBuffer Ghost Slots

variable {P : Type} {sources : P → Set Nat} {ledger : List Bool} {elsewhere : Nat → Prop}
  {b : SignalBuffer P} {loose : List (Holding P)} {free : List Nat} {g : Ghost P}

@[simp] theorem Ghost.after_ack (g : Ghost P) (ctx : Context) (accepted : Option P) :
    g.after [.notifyAck ctx accepted] = ⟨g.sent, g.up ++ [(ctx.request, .ack)]⟩ := by
  simp [after, Effect.sent?, Effect.outcome?]

@[simp] theorem Ghost.after_nack (g : Ghost P) (ctx : Context) (refused : Option P)
    (refusal : Refusal) :
    g.after [.notifyNack ctx refused refusal] =
      ⟨g.sent, g.up ++ [(ctx.request, .nack refusal)]⟩ := by
  simp [after, Effect.sent?, Effect.outcome?]

@[simp] theorem Ghost.after_send (g : Ghost P) (message : Sent P) :
    g.after [.sendMessage message] = ⟨g.sent ++ [message], g.up⟩ := by
  simp [after, Effect.sent?, Effect.outcome?]

@[simp] theorem Ghost.after_setWakeup (g : Ghost P) (slot time : Nat) :
    g.after [.setWakeup slot time] = g := by
  show Ghost.mk (g.sent ++ []) (g.up ++ []) = g
  simp

@[simp] theorem Ghost.after_cancelWakeup (g : Ghost P) (slot : Nat) :
    g.after [.cancelWakeup slot] = g := by
  show Ghost.mk (g.sent ++ []) (g.up ++ []) = g
  simp

@[simp] theorem keys_nil : keys [] = [] := rfl

theorem keys_cons (part : BatchPortion) (parts : List BatchPortion) :
    keys (part :: parts) = part.inkey.toList ++ keys parts := by
  cases h : part.inkey <;> simp [keys, h]

theorem keys_append (parts parts' : List BatchPortion) :
    keys (parts ++ parts') = keys parts ++ keys parts' := filterMap_append

variable {parts : List BatchPortion} {hd : Holding P} {m : Sent P} {contexts : List BatchPortion}
  {codec : Codec P}

theorem mem_keys {k : Nat} : k ∈ keys parts ↔ ∃ part ∈ parts, part.inkey = some k := mem_filterMap

/-! ## Responses -/

section

variable {part : BatchPortion} {k : Nat} {c : BatchContext}

theorem handlePart_untracked (res : Except BatchFailure Unit) (h : part.inkey = none) :
    b.handlePart res part = (b, []) := by
  simp [handlePart, h]

theorem handlePart_dead (res : Except BatchFailure Unit) (h : part.inkey = some k)
    (hk : b.inbound.get? k = none) : b.handlePart res part = (b, []) := by
  simp [handlePart, h, mutate, hk]

theorem handlePart_error (failure : BatchFailure) (h : part.inkey = some k)
    (hk : b.inbound.get? k = some c) :
    b.handlePart (.error failure) part =
      ({ b with inbound := b.inbound.erase k }, [.notifyNack c.ctx none failure.refusal]) := by
  simp [handlePart, h, mutate, hk]

theorem handlePart_more (h : part.inkey = some k) (hk : b.inbound.get? k = some c)
    (hmore : 1 < c.outbound) :
    b.handlePart (.ok ()) part =
      ({ b with inbound := b.inbound.modify k fun _ => { c with outbound := c.outbound - 1 } },
        []) := by
  simp [handlePart, h, mutate, hk, hmore]

theorem handlePart_last (h : part.inkey = some k) (hk : b.inbound.get? k = some c)
    (hlast : ¬1 < c.outbound) :
    b.handlePart (.ok ()) part =
      ({ b with inbound := b.inbound.erase k }, [.notifyAck c.ctx none]) := by
  simp [handlePart, h, mutate, hk, hlast]

theorem Books.handlePart_ok
    (h : Books sources ledger elsewhere b loose (part.inkey.toList ++ free) g) :
    Books sources ledger elsewhere (b.handlePart (.ok ()) part).1 loose free
      (g.after (b.handlePart (.ok ()) part).2) := by
  cases hkey : part.inkey with
  | none =>
    rw [handlePart_untracked _ hkey, after_nil]
    rwa [hkey] at h
  | some k =>
    rw [hkey] at h
    cases hk : b.inbound.get? k with
    | none =>
      rw [handlePart_dead _ hkey hk, after_nil]
      exact h.dropToken hk
    | some c =>
      by_cases hmore : 1 < c.outbound
      · rw [handlePart_more hkey hk hmore, after_nil]
        exact h.spend hk hmore
      · rw [handlePart_last hkey hk hmore, after_ack]
        exact h.spendLast hk hmore

/-- A success spends the tokens of the parts. -/
theorem Books.responses_ok (h : Books sources ledger elsewhere b loose (keys parts ++ free) g) :
    Books sources ledger elsewhere (b.handlePartialResponses (.ok ()) parts).1 loose free
      (g.after (b.handlePartialResponses (.ok ()) parts).2) := by
  induction parts generalizing b g with
  | nil =>
    rwa [handlePartialResponses, after_nil]
  | cons part parts ih =>
    rw [keys_cons, append_assoc] at h
    rw [handlePartialResponses, after_append]
    exact ih h.handlePart_ok

/-- After a failure the inputs of the parts have left. -/
theorem Books.handlePart_error (h : Books sources ledger elsewhere b loose free g)
    (failure : BatchFailure) (part : BatchPortion) :
    Books sources ledger elsewhere (b.handlePart (.error failure) part).1 loose free
        (g.after (b.handlePart (.error failure) part).2) ∧
      ∀ k, b.inbound.get? k = none ∨ part.inkey = some k →
        (b.handlePart (.error failure) part).1.inbound.get? k = none := by
  cases hkey : part.inkey with
  | none =>
    rw [handlePart_untracked _ hkey, after_nil]
    exact ⟨h, fun k hk => hk.resolve_right (by simp)⟩
  | some k =>
    cases hk : b.inbound.get? k with
    | none =>
      rw [handlePart_dead _ hkey hk, after_nil]
      refine ⟨h, fun k' hk' => hk'.elim id fun heq => ?_⟩
      rwa [← Option.some.inj heq]
    | some c =>
      rw [OtapDataflow.Batch.handlePart_error failure hkey hk, after_nack]
      refine ⟨h.refuse hk _, fun k' hk' => ?_⟩
      rw [get?_erase]
      split_ifs with hne
      · rfl
      · exact hk'.resolve_right fun heq => hne (Option.some.inj heq).symm

theorem Books.responses_error (h : Books sources ledger elsewhere b loose free g)
    (failure : BatchFailure) (parts : List BatchPortion) :
    Books sources ledger elsewhere (b.handlePartialResponses (.error failure) parts).1 loose free
        (g.after (b.handlePartialResponses (.error failure) parts).2) ∧
      ∀ k, b.inbound.get? k = none ∨ k ∈ keys parts →
        (b.handlePartialResponses (.error failure) parts).1.inbound.get? k = none := by
  induction parts generalizing b g with
  | nil =>
    rw [handlePartialResponses, after_nil]
    exact ⟨h, fun k hk => hk.resolve_right (by simp)⟩
  | cons part parts ih =>
    rw [handlePartialResponses, after_append]
    obtain ⟨hfirst, hdead⟩ := h.handlePart_error failure part
    obtain ⟨hrest, hdead'⟩ := ih hfirst
    refine ⟨hrest, fun k hk => hdead' k ?_⟩
    rcases hk with hk | hk
    · exact .inl (hdead k (.inl hk))
    · rw [keys_cons, mem_append, Option.mem_toList] at hk
      rcases hk with hk | hk
      · exact .inl (hdead k (.inr hk))
      · exact .inr hk

/-- A failure leaves everything else of the buffer alone. -/
theorem handlePartialResponses_frame (b : SignalBuffer P) (res : Except BatchFailure Unit)
    (parts : List BatchPortion) :
    (b.handlePartialResponses res parts).1.inputs = b.inputs ∧
      (b.handlePartialResponses res parts).1.outbound = b.outbound ∧
      (b.handlePartialResponses res parts).1.slot = b.slot := by
  induction parts generalizing b with
  | nil => exact ⟨rfl, rfl, rfl⟩
  | cons part parts ih =>
    obtain ⟨h₁, h₂, h₃⟩ := ih (b.handlePart res part).1
    have hframe : (b.handlePart res part).1.inputs = b.inputs ∧
        (b.handlePart res part).1.outbound = b.outbound ∧
        (b.handlePart res part).1.slot = b.slot := by
      rw [handlePart]
      split <;> exact ⟨rfl, rfl, rfl⟩
    exact ⟨h₁.trans hframe.1, h₂.trans hframe.2.1, h₃.trans hframe.2.2⟩

theorem refuseParts_eq (b : SignalBuffer P) (parts : List BatchPortion) :
    b.refuseParts parts =
      b.handlePartialResponses (.error (.retryable "outbound routes exhausted")) parts := by
  induction parts generalizing b with
  | nil => rfl
  | cons part parts ih =>
    rw [refuseParts, handlePartialResponses]
    cases hkey : part.inkey with
    | none => rw [handlePart_untracked _ hkey, ih, nil_append]
    | some k =>
      cases hk : b.inbound.get? k with
      | none =>
        rw [handlePart_dead _ hkey hk]
        simp [Slots.take, hk, ih, Slots.erase_eq_self hk]
      | some c =>
        rw [OtapDataflow.Batch.handlePart_error _ hkey hk]
        simp [Slots.take, hk, ih, BatchFailure.refusal]

end

/-! ## Sending -/

theorem Books.drop (h : Books sources ledger elsewhere b (hd :: loose) free g)
    (hdead : ∀ k ∈ hd.tokens, b.inbound.get? k = none) :
    Books sources ledger elsewhere b loose free g := h.release.dropTokens hdead

theorem Books.dropAll {hs : List (Holding P)}
    (h : Books sources ledger elsewhere b (hs ++ loose) free g)
    (hdead : ∀ hd ∈ hs, ∀ k ∈ hd.tokens, b.inbound.get? k = none) :
    Books sources ledger elsewhere b loose free g := by
  refine h.releaseAll.dropTokens fun k hk => ?_
  obtain ⟨hd, hmem, hk⟩ := mem_flatMap.mp hk
  exact hdead hd hmem k hk

/-- A message that the processor does not subscribe to. -/
theorem Books.post (h : Books sources ledger elsewhere b loose free g) (hm : m.callData? = none)
    (hback : m.delivery = .unsubscribed → Backed sources ledger b.inbound g.up ⟨m.payload, []⟩) :
    Books sources ledger elsewhere b loose free ⟨g.sent ++ [m], g.up⟩ := by
  have hdel : ∀ callData, m.delivery ≠ .subscribed callData := by
    intro callData hdel
    simp [Sent.callData?, hdel] at hm
  have hnone : sentHolding b m = none := by
    rw [sentHolding]
    split
    · rename_i outkey slot heq
      exact absurd heq (hdel _)
    · rfl
  have hold : holdings b loose ⟨g.sent ++ [m], g.up⟩ = holdings b loose g := by
    simp [holdings, hnone]
  refine h.rearrange (fun _ _ => Iff.rfl) rfl ?_ ?_ ?_ ?_
  · rw [hold]
    exact h.counts
  · rw [hold]
    exact h.backed
  · exact forall_mem_append.mpr ⟨h.stray, forall_mem_singleton.mpr hback⟩
  · refine { h.shape with keyed := forall_mem_append.mpr ⟨h.shape.keyed, ?_⟩, calls := ?_ }
    · exact forall_mem_singleton.mpr fun outkey hsub => absurd hsub (hdel _)
    · simpa [filterMap_append, hm] using h.shape.calls

/-- An output that nobody waits for: the tracked requests in it were refused. -/
theorem Books.sendStray (h : Books sources ledger elsewhere b (hd :: loose) free g)
    (hdead : ∀ k ∈ hd.tokens, b.inbound.get? k = none)
    (hsources : sources m.payload ⊆ sources hd.payload) (hm : m.delivery = .unsubscribed) :
    Books sources ledger elsewhere b loose free ⟨g.sent ++ [m], g.up⟩ := by
  refine (h.drop hdead).post (by simp [Sent.callData?, hm]) fun _ => ?_
  refine (h.backed hd ((holdings_cons hd).mem_iff.mpr mem_cons_self)).mono hsources ?_
  intro k hk hlive
  rw [hdead k hk] at hlive
  cases hlive

/-- Tokens of inputs that have left count for nothing. -/
theorem Counts.prune {inbound : Slots BatchContext} {ts toks : List Nat}
    (h : Counts inbound (ts ++ toks)) :
    Counts inbound (ts.filter (fun k => (inbound.get? k).isSome) ++ toks) where
  counted := by
    intro k c hk
    rw [count_append, count_filter (by simp [hk]), ← count_append]
    exact h.counted k c hk
  issued := by
    intro k hk
    refine h.issued k ?_
    rw [mem_append] at hk ⊢
    exact hk.imp_left fun hk => (mem_filter.mp hk).1

theorem sentHolding_insert (parts : List BatchPortion)
    (hkeyed : ∀ outkey, m.delivery = .subscribed [outkey, b.slot] →
      ∃ parts, b.outbound.get? outkey = some parts) :
    sentHolding { b with outbound := b.outbound.insert parts } m = sentHolding b m := by
  rw [sentHolding, sentHolding]
  split
  · rename_i outkey slot hdel
    split_ifs with hslot
    · subst hslot
      obtain ⟨parts', hparts'⟩ := hkeyed outkey hdel
      rw [get?_insert, if_neg (lt_next hparts').ne]
    · rfl
  · rfl

/-- An output that the buffer waits for. -/
theorem Books.send (h : Books sources ledger elsewhere b (hd :: loose) free g)
    (hparts : keys parts = hd.tokens.filter fun k => (b.inbound.get? k).isSome)
    (hsources : sources m.payload ⊆ sources hd.payload)
    (hm : m.delivery = .subscribed [b.outbound.next, b.slot]) :
    Books sources ledger elsewhere { b with outbound := b.outbound.insert parts } loose free
      ⟨g.sent ++ [m], g.up⟩ := by
  have hnew : sentHolding { b with outbound := b.outbound.insert parts } m =
      some ⟨m.payload, keys parts⟩ := by
    simp [sentHolding, hm]
  have hrelease := h.release
  have hold : (holdings { b with outbound := b.outbound.insert parts } loose
      ⟨g.sent ++ [m], g.up⟩).Perm (⟨m.payload, keys parts⟩ :: holdings b loose g) := by
    have hsent : g.sent.filterMap (sentHolding { b with outbound := b.outbound.insert parts }) =
        g.sent.filterMap (sentHolding b) :=
      filterMap_congr fun m' hm' => sentHolding_insert parts (h.shape.keyed m' hm')
    rw [holdings, filterMap_append, hsent, filterMap_cons_some hnew, filterMap_nil,
      holdings, ← append_assoc]
    exact perm_append_singleton _ _
  refine hrelease.rearrange (fun _ _ => Iff.rfl) rfl ?_ ?_ ?_ ?_
  · refine Counts.perm ?_ ((tokens_perm hold free).trans (tokens_cons _ _ _))
    have hcounts : Counts b.inbound
        (hd.tokens ++ tokens (holdings b loose g) free) :=
      hrelease.counts.perm (perm_append_comm_assoc _ _ _)
    have hpruned := hcounts.prune
    rw [← hparts] at hpruned
    exact hpruned.perm (perm_append_comm_assoc _ _ _)
  · intro hd' hmem
    rcases mem_cons.mp (hold.mem_iff.mp hmem) with rfl | hmem
    · refine (h.backed hd ((holdings_cons hd).mem_iff.mpr mem_cons_self)).mono hsources ?_
      intro k hk hlive
      show k ∈ keys parts
      rw [hparts]
      exact mem_filter.mpr ⟨hk, hlive⟩
    · exact hrelease.backed hd' hmem
  · refine forall_mem_append.mpr ⟨hrelease.stray, forall_mem_singleton.mpr fun hdel => ?_⟩
    cases hm.symm.trans hdel
  · refine { hrelease.shape with partsOnce := ?_, keyed := ?_, calls := ?_ }
    · intro outkey parts' hget
      rw [show (b.outbound.insert parts).get? outkey = _ from get?_insert _ _ _] at hget
      split at hget
      · cases hget
        rw [hparts]
        exact (h.shape.looseOnce hd mem_cons_self).filter _
      · exact h.shape.partsOnce outkey parts' hget
    · intro m' hm' outkey hdel
      show ∃ parts', (b.outbound.insert parts).get? outkey = some parts'
      rw [get?_insert]
      split_ifs with hne
      · exact ⟨_, rfl⟩
      · rcases mem_append.mp hm' with hm' | hm'
        · exact h.shape.keyed m' hm' outkey hdel
        · rw [mem_singleton.mp hm', hm] at hdel
          cases hdel
          exact absurd rfl hne
    · have hcall : Sent.callData? m = some [b.outbound.next, b.slot] := by
        simp [Sent.callData?, hm]
      rw [filterMap_append, filterMap_cons_some hcall, filterMap_nil]
      refine nodup_append.mpr ⟨h.shape.calls, nodup_singleton _, ?_⟩
      rintro cd hcd cd' hcd' rfl
      rw [mem_singleton.mp hcd'] at hcd
      obtain ⟨m', hm', hcall'⟩ := mem_filterMap.mp hcd
      have hdel : m'.delivery = .subscribed [b.outbound.next, b.slot] := by
        unfold Sent.callData? at hcall'
        split at hcall'
        · rename_i cd' hdel
          rw [hdel, Option.some.inj hcall']
        · cases hcall'
      obtain ⟨parts', hparts'⟩ := h.shape.keyed m' hm' _ hdel
      rw [get?_next] at hparts'
      cases hparts'

/-- What an output holds before it is sent. -/
def hold (contexts : List BatchPortion) (output : P × InputRange) : Holding P :=
  ⟨output.1, keys (slice contexts output.2)⟩

theorem keys_outputContext (b : SignalBuffer P) (range : InputRange)
    (contexts : List BatchPortion) :
    keys (b.outputContext range contexts).1 =
      (keys (slice contexts range)).filter fun k => (b.inbound.get? k).isSome := by
  rw [outputContext]
  generalize slice contexts range = parts
  induction parts with
  | nil => rfl
  | cons part parts ih =>
    cases hkey : part.inkey with
    | none => simpa [keys_cons, hkey] using ih
    | some k =>
      by_cases hk : (b.inbound.get? k).isSome <;> simpa [keys_cons, hkey, hk] using ih

/-- If the inputs of the parts of an output have left, then all of its inputs have. -/
theorem dead_of_outputContext {b' : SignalBuffer P} {range : InputRange}
    (hdead : ∀ k, b.inbound.get? k = none ∨ k ∈ keys (b.outputContext range contexts).1 →
      b'.inbound.get? k = none) : ∀ k ∈ keys (slice contexts range), b'.inbound.get? k = none := by
  intro k hk
  refine hdead k ?_
  cases hget : b.inbound.get? k with
  | none => exact .inl rfl
  | some c =>
    rw [keys_outputContext]
    exact .inr (mem_filter.mpr ⟨hk, by simp [hget]⟩)

section

variable (hcodec : codec.Contract sources)

include hcodec

theorem Books.emit (plan : BatchPlan) {output : P × InputRange}
    (h : Books sources ledger elsewhere b (hold contexts output :: loose) free g) :
    Books sources ledger elsewhere (b.emit codec plan contexts output).1 loose free
      (g.after (b.emit codec plan contexts output).2) := by
  rw [SignalBuffer.emit]
  cases hfinish : codec.finish plan output.1 with
  | error error =>
    obtain ⟨hbooks, hdead⟩ := h.responses_error (.permanent error)
        (b.outputContext output.2 contexts).1
    exact hbooks.drop (dead_of_outputContext hdead)
  | ok records =>
    have hsources : sources records ⊆ sources output.1 := hcodec.finish_sources _ _ _ hfinish
    dsimp only
    split_ifs with hnil
    · rw [after_send]
      refine h.sendStray (dead_of_outputContext fun k hk => hk.resolve_right ?_) hsources rfl
      rw [hnil]
      exact not_mem_nil
    · rw [allocateWithData]
      split
      · rename_i parts heq
        split at heq
        · cases heq
          rw [refuseParts_eq, after_append, after_send]
          obtain ⟨hbooks, hdead⟩ := h.responses_error (.retryable "outbound routes exhausted")
            (b.outputContext output.2 contexts).1
          exact hbooks.sendStray (dead_of_outputContext hdead) hsources rfl
        · cases heq
      · rename_i outkey outbound heq
        split at heq
        · cases heq
        · cases heq
          rw [after_send]
          exact h.send (keys_outputContext _ _ _) hsources rfl

theorem Books.emitAll (plan : BatchPlan) {outputs : List (P × InputRange)}
    (h : Books sources ledger elsewhere b (outputs.map (hold contexts) ++ loose) free g) :
    Books sources ledger elsewhere (b.emitAll codec plan contexts outputs).1 loose free
      (g.after (b.emitAll codec plan contexts outputs).2) := by
  induction outputs generalizing b g with
  | nil =>
    rwa [emitAll, after_nil]
  | cons output outputs ih =>
    rw [emitAll, after_append]
    exact ih (Books.emit hcodec plan h)

theorem Books.deliver (plan : BatchPlan) {outputs : List (P × InputRange)}
    (h : Books sources ledger elsewhere b (outputs.map (hold contexts)) (keys contexts) g) :
    Books sources ledger elsewhere (b.deliver codec plan contexts outputs).1 [] []
      (g.after (b.deliver codec plan contexts outputs).2) := by
  rw [SignalBuffer.deliver, after_append]
  rw [← append_nil (keys contexts)] at h
  have hreleased := h.responses_ok
  rw [← append_nil (outputs.map (hold contexts))] at hreleased
  exact hreleased.emitAll hcodec plan

end

/-! ## What a buffer sends -/

/-- The operation stays in its buffer: it sends only outputs that are its own. -/
structure Local (b b' : SignalBuffer P) (effects : List (Effect P)) : Prop where
  slot : b'.slot = b.slot
  sends : ∀ m, .sendMessage m ∈ effects →
    m.delivery = .unsubscribed ∨ ∃ outkey, m.delivery = .subscribed [outkey, b.slot]

theorem Local.refl (b : SignalBuffer P) : Local b b [] := ⟨rfl, fun _ hm => nomatch hm⟩

theorem Local.trans {b' b'' : SignalBuffer P} {es es' : List (Effect P)} (h : Local b b' es)
    (h' : Local b' b'' es') : Local b b'' (es ++ es') where
  slot := h'.slot.trans h.slot
  sends := fun m hm => (mem_append.mp hm).elim (h.sends m) fun hm => h.slot ▸ h'.sends m hm

/-- Effects that send nothing. -/
theorem Local.of_quiet {b' : SignalBuffer P} {effects : List (Effect P)} (hslot : b'.slot = b.slot)
    (h : ∀ m, .sendMessage m ∉ effects) : Local b b' effects :=
  ⟨hslot, fun m hm => absurd hm (h m)⟩

theorem handlePartialResponses_quiet (b : SignalBuffer P) (res : Except BatchFailure Unit)
    (parts : List BatchPortion) (m : Sent P) :
    .sendMessage m ∉ (b.handlePartialResponses res parts).2 := by
  induction parts generalizing b with
  | nil => exact not_mem_nil
  | cons part parts ih =>
    refine fun hm => (mem_append.mp hm).elim (fun hm => ?_) (ih _)
    revert hm
    rw [handlePart]
    split
    · exact not_mem_nil
    · dsimp only
      split
      · exact not_mem_nil
      · split <;> simp

theorem handlePartialResponses_local (b : SignalBuffer P) (res : Except BatchFailure Unit)
    (parts : List BatchPortion) :
    Local b (b.handlePartialResponses res parts).1 (b.handlePartialResponses res parts).2 :=
  .of_quiet (handlePartialResponses_frame b res parts).2.2
    (handlePartialResponses_quiet b res parts)

section

variable (b : SignalBuffer P) (codec : Codec P) (plan : BatchPlan) (contexts : List BatchPortion)

theorem emit_local (output : P × InputRange) :
    Local b (b.emit codec plan contexts output).1 (b.emit codec plan contexts output).2 := by
  have hstray : ∀ (b : SignalBuffer P) (records : P) (peer : Option Nat),
      Local b b [.sendMessage ⟨records, .unsubscribed, peer⟩] := by
    refine fun b records peer => ⟨rfl, fun m hm => .inl ?_⟩
    cases mem_singleton.mp hm
    rfl
  rw [emit]
  split
  · exact handlePartialResponses_local _ _ _
  · split
    · exact hstray _ _ _
    · split
      · rw [refuseParts_eq]
        exact (handlePartialResponses_local _ _ _).trans (hstray _ _ _)
      · rename_i outkey outbound hallocated
        refine ⟨rfl, fun m hm => .inr ⟨outkey, ?_⟩⟩
        cases mem_singleton.mp hm
        rfl

theorem emitAll_local (outputs : List (P × InputRange)) :
    Local b (b.emitAll codec plan contexts outputs).1
      (b.emitAll codec plan contexts outputs).2 := by
  induction outputs generalizing b with
  | nil => exact .refl b
  | cons output outputs ih =>
    exact (emit_local b codec plan contexts output).trans (ih _)

theorem deliver_local (outputs : List (P × InputRange)) :
    Local b (b.deliver codec plan contexts outputs).1 (b.deliver codec plan contexts outputs).2 :=
  (handlePartialResponses_local _ _ _).trans (emitAll_local _ _ _ _ _)

end

/-! # Flushing keeps the books

A flush first gives each output the tokens of the inputs in its range, then spends the tokens of the
inputs themselves, and then sends the outputs; from the first to the last the data of every input is
covered.  A remainder of the last input that goes back to the pending inputs keeps the token that it
had as an output. -/

open Inputs

/-! ## References -/

theorem live_addReference (part : BatchPortion) (k r : Nat) :
    Live (b.addReference part).inbound k r ↔ Live b.inbound k r := by
  rw [addReference]
  split
  · rfl
  · exact live_modify fun _ => rfl

theorem next_addReference (b : SignalBuffer P) (part : BatchPortion) :
    (b.addReference part).inbound.next = b.inbound.next := by
  rw [addReference]
  split <;> rfl

theorem addReferences_frame (b : SignalBuffer P) (parts : List BatchPortion) :
    (parts.foldl addReference b).inputs = b.inputs ∧
      (parts.foldl addReference b).slot = b.slot := by
  induction parts generalizing b with
  | nil => exact ⟨rfl, rfl⟩
  | cons part parts ih =>
    have hfirst : (b.addReference part).inputs = b.inputs ∧
        (b.addReference part).slot = b.slot := by
      rw [addReference]
      split <;> exact ⟨rfl, rfl⟩
    obtain ⟨h₁, h₂⟩ := ih (b.addReference part)
    exact ⟨h₁.trans hfirst.1, h₂.trans hfirst.2⟩

theorem establishReferences_frame (b : SignalBuffer P) (contexts : List BatchPortion)
    (outputs : List (P × InputRange)) :
    (b.establishReferences contexts outputs).inputs = b.inputs ∧
      (b.establishReferences contexts outputs).slot = b.slot := by
  induction outputs generalizing b with
  | nil => exact ⟨rfl, rfl⟩
  | cons output outputs ih =>
    obtain ⟨h₁, h₂⟩ := ih ((slice contexts output.2).foldl addReference b)
    have hfirst := addReferences_frame b (slice contexts output.2)
    exact ⟨h₁.trans hfirst.1, h₂.trans hfirst.2⟩

theorem Books.addReferences {parts : List BatchPortion}
    (h : Books sources ledger elsewhere b loose free g)
    (hissued : ∀ k ∈ keys parts, k < b.inbound.next) :
    Books sources ledger elsewhere (parts.foldl addReference b) loose
        (keys parts ++ free) g ∧
      (∀ k r, Live (parts.foldl addReference b).inbound k r ↔ Live b.inbound k r) ∧
      (parts.foldl addReference b).inbound.next = b.inbound.next := by
  induction parts generalizing b free with
  | nil => exact ⟨h, fun _ _ => Iff.rfl, rfl⟩
  | cons part parts ih =>
    rw [keys_cons] at hissued
    have hfirst : Books sources ledger elsewhere (b.addReference part) loose
        (part.inkey.toList ++ free) g := by
      rw [addReference]
      cases hkey : part.inkey with
      | none => exact h
      | some k =>
        exact h.addToken (hissued k (mem_append_left _ (by simp [hkey])))
    obtain ⟨hrest, hlive, hnext⟩ := ih hfirst fun k hk => by
      rw [next_addReference]
      exact hissued k (mem_append_right _ hk)
    refine ⟨?_, fun k r => (hlive k r).trans (live_addReference part k r),
      hnext.trans (next_addReference b part)⟩
    rw [keys_cons]
    refine hrest.rearrange (fun _ _ => Iff.rfl) rfl (hrest.counts.perm ?_) hrest.backed hrest.stray
      hrest.shape
    refine List.Perm.append_left _ ?_
    rw [append_assoc]
    exact perm_append_comm_assoc _ _ _

variable {contexts : List BatchPortion} {outputs : List (P × InputRange)} {inputs : Inputs P}
  {plan : BatchPlan} {signal : SignalType} {codec : Codec P} {config : Config}
  {reason : FlushReason} {env : Env P} {now : Nat}

/-- Every output holds its data with the tokens of the inputs in its range. -/
theorem Books.establish (h : Books sources ledger elsewhere b loose free g)
    (hissued : ∀ k ∈ keys contexts, k < b.inbound.next) (honce : (keys contexts).Nodup)
    (hback : ∀ output ∈ outputs, Backed sources ledger b.inbound g.up (hold contexts output)) :
    Books sources ledger elsewhere (b.establishReferences contexts outputs)
      (outputs.map (hold contexts) ++ loose) free g := by
  induction outputs generalizing b loose with
  | nil => exact h
  | cons output outputs ih =>
    have hsub : (keys (slice contexts output.2)).Sublist (keys contexts) :=
      ((take_sublist _ _).trans (drop_sublist _ _)).filterMap _
    obtain ⟨hrefs, hlive, hnext⟩ := h.addReferences fun k hk => hissued k (hsub.subset hk)
    have hheld : Books sources ledger elsewhere
        ((slice contexts output.2).foldl addReference b)
        (hold contexts output :: loose) free g :=
      hrefs.attach ((hback output mem_cons_self).congr hlive) (honce.sublist hsub)
    have hrest := ih hheld (by rw [hnext]; exact hissued) fun output' hmem =>
      (hback output' (mem_cons_of_mem _ hmem)).congr hlive
    exact hrest.perm perm_middle.symm

/-! ## Pending inputs -/

theorem pendingHoldings_tokens (haligned : inputs.pending.length = inputs.context.length) :
    (pendingHoldings inputs).flatMap (·.tokens) = keys inputs.context := by
  obtain ⟨pending, context, size⟩ := inputs
  dsimp only [pendingHoldings] at haligned ⊢
  induction context generalizing pending with
  | nil => simp
  | cons part context ih =>
    cases pending with
    | nil => cases haligned
    | cons p pending =>
      have hrest := ih pending (Nat.succ.inj haligned)
      simp only [zip_cons_cons, map_cons, flatMap_cons, keys_cons]
      rw [hrest]

theorem pendingHoldings_accept (haligned : inputs.pending.length = inputs.context.length) (p : P)
    (part : BatchPortion) (size : Nat) :
    pendingHoldings (inputs.accept p part size) =
      pendingHoldings inputs ++ [⟨p, part.inkey.toList⟩] := by
  simp [pendingHoldings, accept, zip_append haligned]

theorem mem_pendingHoldings {hd : Holding P} :
    hd ∈ pendingHoldings inputs ↔ ∃ (i : Nat) (p : P) (part : BatchPortion),
      inputs.pending[i]? = some p ∧ inputs.context[i]? = some part ∧
        hd = ⟨p, part.inkey.toList⟩ := by
  simp only [pendingHoldings, mem_map, Prod.exists]
  constructor
  · rintro ⟨p, part, hmem, rfl⟩
    obtain ⟨i, hi⟩ := mem_iff_getElem?.mp hmem
    obtain ⟨hp, hpart⟩ := getElem?_zip_eq_some.mp hi
    exact ⟨i, p, part, hp, hpart, rfl⟩
  · rintro ⟨i, p, part, hp, hpart, rfl⟩
    exact ⟨p, part, mem_iff_getElem?.mpr ⟨i, getElem?_zip_eq_some.mpr ⟨hp, hpart⟩⟩, rfl⟩

theorem Books.drain (h : Books sources ledger elsewhere b [] free g) :
    Books sources ledger elsewhere { b with inputs := empty } (pendingHoldings b.inputs) free
      g := by
  have hold : holdings { b with inputs := empty } (pendingHoldings b.inputs) g =
      holdings b [] g := by
    show [] ++ _ ++ _ = _ ++ [] ++ _
    rw [nil_append, append_nil]
    rfl
  refine h.rearrange (fun _ _ => Iff.rfl) rfl ?_ ?_ h.stray ?_
  · rw [hold]
    exact h.counts
  · rw [hold]
    exact h.backed
  · refine ⟨rfl, nodup_nil, ?_, h.shape.partsOnce, h.shape.keyed, h.shape.calls⟩
    intro hd hmem
    obtain ⟨i, p, part, -, -, rfl⟩ := mem_pendingHoldings.mp hmem
    cases part.inkey <;> simp

/-- Data goes into the pending inputs. -/
theorem Books.accept {p : P} {part : BatchPortion} (size : Nat)
    (h : Books sources ledger elsewhere b (⟨p, part.inkey.toList⟩ :: loose) free g)
    (honce : (keys (b.inputs.context ++ [part])).Nodup) :
    Books sources ledger elsewhere
      { b with inputs := b.inputs.accept p part size } loose free g := by
  have hold : (holdings { b with inputs := b.inputs.accept p part size } loose g).Perm
      (holdings b (⟨p, part.inkey.toList⟩ :: loose) g) := by
    rw [holdings, holdings, pendingHoldings_accept h.shape.aligned, append_assoc,
      append_assoc, append_assoc, singleton_append]
    rfl
  refine h.rearrange (fun _ _ => Iff.rfl) rfl (h.counts.perm (tokens_perm hold _))
    (fun hd hmem => h.backed hd (hold.mem_iff.mp hmem)) h.stray
    ⟨?_, honce, fun hd hmem => h.shape.looseOnce hd (mem_cons_of_mem _ hmem),
      h.shape.partsOnce, h.shape.keyed, h.shape.calls⟩
  simp [Inputs.accept, h.shape.aligned]

/-! ## Flushes -/

theorem batch_ok {inputs : List P} (h : plan.batch codec signal inputs = .ok outputs) :
    ∃ result, codec.batch plan signal inputs = .ok result ∧ result.batches = outputs := by
  rw [BatchPlan.batch] at h
  cases hbatch : codec.batch plan signal inputs with
  | error reason =>
    rw [hbatch] at h
    cases h
  | ok result =>
    rw [hbatch] at h
    dsimp only at h
    split at h
    · cases h
    · cases h
      exact ⟨result, rfl, rfl⟩

theorem mem_slice {range : InputRange} {i : Nat} {part : BatchPortion}
    (hi : contexts[i]? = some part) (hstart : range.start ≤ i) (hlast : i ≤ range.last) :
    part ∈ slice contexts range := by
  refine mem_iff_getElem?.mpr ⟨i - range.start, ?_⟩
  rwa [slice, getElem?_take_of_lt (by omega), getElem?_drop, Nat.add_sub_cancel' hstart]

/-- The range of an output covers the inputs whose data it holds. -/
theorem backed_output (hcodec : codec.Contract sources)
    (hbatch : plan.batch codec signal inputs.pending = .ok outputs)
    (haligned : inputs.pending.length = inputs.context.length) {inbound : Slots BatchContext}
    {up : List (Nat × Outcome)}
    (hback : ∀ hd ∈ pendingHoldings inputs, Backed sources ledger inbound up hd) :
    ∀ output ∈ outputs, Backed sources ledger inbound up (hold inputs.context output) := by
  obtain ⟨result, hresult, rfl⟩ := batch_ok hbatch
  intro output hmem r hr
  obtain ⟨i, p, hstart, hlast, hp, hrp⟩ :=
    hcodec.batch_sources _ _ _ _ hresult output hmem r hr
  have hi : i < inputs.context.length := haligned ▸ (List.getElem?_eq_some_iff.mp hp).1
  have hpart := List.getElem?_eq_getElem hi
  obtain ⟨tracked, htracked, hlive⟩ :=
    hback ⟨p, (inputs.context[i]).inkey.toList⟩ (mem_pendingHoldings.mpr ⟨i, p, _, hp, hpart, rfl⟩)
      r hrp
  refine ⟨tracked, htracked, fun ht => (hlive ht).imp_left ?_⟩
  rintro ⟨k, hk, hklive⟩
  exact ⟨k, mem_keys.mpr ⟨_, mem_slice hpart hstart hlast, Option.mem_toList.mp hk⟩, hklive⟩

theorem remainderSize_ok {size : Nat}
    (h : remainderSize config codec plan reason contexts outputs = .ok (some size)) :
    reason = .size ∧ ∃ output, outputs.getLast? = some output ∧
      output.2.start = output.2.last ∧ output.2.last = contexts.length - 1 := by
  rw [remainderSize] at h
  split at h
  · rename_i hsize
    split at h
    · cases h
    · rename_i payload range hlast
      split_ifs at h with hrange
      · exact ⟨hsize.2.1, _, hlast, hrange⟩
      · cases h
  · cases h

theorem remainderSize_measured (hcodec : codec.Contract sources) {inputs : List P}
    (hbatch : plan.batch codec signal inputs = .ok outputs) (reason : FlushReason)
    (contexts : List BatchPortion) (error : EngineError) :
    remainderSize config codec plan reason contexts outputs ≠ .error error := by
  obtain ⟨result, hresult, rfl⟩ := batch_ok hbatch
  intro h
  rw [remainderSize] at h
  split at h
  · split at h
    · cases h
    · rename_i payload range hlast
      split at h
      · obtain ⟨size, hsize⟩ :=
          hcodec.batch_measured _ _ _ _ hresult _ (mem_of_getLast? hlast)
        rw [hsize] at h
        dsimp only at h
        split at h <;> cases h
      · cases h
  · cases h

/-- The remainder of the last input goes back to the pending inputs. -/
theorem Books.takeRemaining {output : P × InputRange} (size : Nat)
    (h : Books sources ledger elsewhere b (outputs.map (hold contexts)) free g)
    (hin : b.inputs = empty) (hne : contexts ≠ []) (hlast : outputs.getLast? = some output)
    (hsingle : output.2.start = output.2.last) (hend : output.2.last = contexts.length - 1) :
    Books sources ledger elsewhere (b.takeRemaining size contexts outputs)
      (outputs.dropLast.map (hold contexts)) free g := by
  have hlen : output.2.start < contexts.length := by
    have := length_pos_iff.mpr hne
    omega
  have hpart := getElem?_eq_getElem hlen
  have hslice : slice contexts output.2 = [contexts[output.2.start]] := by
    rw [slice, ← hsingle, Nat.add_sub_cancel_left, drop_eq_getElem_cons hlen]
    rfl
  have htake : b.takeRemaining size contexts outputs =
      { b with inputs := b.inputs.accept output.1 contexts[output.2.start] size } := by
    rw [SignalBuffer.takeRemaining, hlast]
    dsimp only
    rw [hpart]
  have hkeys : (hold contexts output : Holding P) =
      ⟨output.1, (contexts[output.2.start]).inkey.toList⟩ := by
    rw [hold, hslice, keys_cons, keys_nil, append_nil]
  have hsplit : outputs = outputs.dropLast ++ [output] :=
    (dropLast_append_getLast? output hlast).symm
  rw [htake]
  refine Books.accept size ?_ ?_
  · rw [← hkeys]
    refine h.perm ?_
    conv_rhs => rw [hsplit, map_append]
    exact (perm_append_singleton _ _).symm
  · rw [hin]
    show (keys ([] ++ [_])).Nodup
    rw [nil_append, keys_cons, keys_nil, append_nil]
    cases (contexts[output.2.start]).inkey <;> simp

theorem takeRemaining_slot (b : SignalBuffer P) (size : Nat) (contexts : List BatchPortion)
    (outputs : List (P × InputRange)) : (b.takeRemaining size contexts outputs).slot = b.slot := by
  rw [takeRemaining]
  split
  · rfl
  · split <;> rfl

/-- A flush keeps the books, and the buffer sends only outputs that are its own. -/
structure Flushed (sources : P → Set Nat) (ledger : List Bool) (elsewhere : Nat → Prop)
    (b : SignalBuffer P) (g : Ghost P) (handled : Handled (SignalBuffer P) P) : Prop where
  books : Books sources ledger elsewhere handled.state [] [] (g.after handled.effects)
  stays : Local b handled.state handled.effects

/-- The books do not depend on the wakeup. -/
theorem Books.setArrival (h : Books sources ledger elsewhere b [] [] g) (env : Env P)
    (now timeout : Nat) :
    Flushed sources ledger elsewhere b g (b.setArrival env now timeout) := by
  rw [SignalBuffer.setArrival]
  split_ifs
  · refine ⟨?_, .of_quiet rfl (by simp)⟩
    rw [Ghost.after_setWakeup]
    exact h.congr rfl rfl rfl rfl
  · refine ⟨?_, .of_quiet rfl (by simp)⟩
    rwa [Ghost.after_setWakeup]

/-- Outputs that nobody waits for can be lost. -/
theorem Books.dropUntracked (hnone : keys contexts = [])
    (h : Books sources ledger elsewhere b (outputs.map (hold contexts)) (keys contexts) g) :
    Books sources ledger elsewhere b [] [] g := by
  rw [hnone] at h
  rw [← append_nil (outputs.map _)] at h
  refine h.dropAll fun hd hmem k hk => ?_
  obtain ⟨output, -, rfl⟩ := mem_map.mp hmem
  obtain ⟨part, hpart, hkey⟩ := mem_keys.mp hk
  have hk' : k ∈ keys contexts := mem_keys.mpr ⟨part, mem_of_mem_drop (mem_of_mem_take hpart), hkey⟩
  rw [hnone] at hk'
  cases hk'

theorem Books.flushInputs (hcodec : env.codec.Contract sources)
    (h : Books sources ledger elsewhere b (pendingHoldings inputs) [] g)
    (hin : b.inputs = empty) (hne : inputs.pending ≠ [])
    (haligned : inputs.pending.length = inputs.context.length) (honce : (keys inputs.context).Nodup)
    (hkept : env.acceptsWakeups = false → reason = .size →
      ¬KeepsRemainder config env.codec plan signal inputs) (now : Nat) :
    Flushed sources ledger elsewhere b g
      (b.flushInputs config env plan signal inputs now reason) := by
  have hissued : ∀ k ∈ keys inputs.context, k < b.inbound.next := by
    intro k hk
    refine h.counts.issued k (mem_append_left _ ?_)
    rw [holdings, flatMap_append, flatMap_append, pendingHoldings_tokens haligned]
    exact mem_append_left _ (mem_append_right _ hk)
  rw [SignalBuffer.flushInputs]
  cases hbatch : plan.batch env.codec signal inputs.pending with
  | error error =>
    obtain ⟨hbooks, hdead⟩ := h.responses_error (.retryable error) inputs.context
    refine ⟨?_, handlePartialResponses_local _ _ _⟩
    rw [← append_nil (pendingHoldings inputs)] at hbooks
    refine hbooks.dropAll fun hd hmem k hk => hdead k (.inr ?_)
    rw [← pendingHoldings_tokens haligned]
    exact mem_flatMap.mpr ⟨hd, hmem, hk⟩
  | ok outputs =>
    dsimp only
    have hback := backed_output hcodec hbatch haligned fun hd hmem =>
      h.backed hd (mem_append_left _ (mem_append_right _ hmem))
    have hestablished := (h.establish hissued honce hback).perm perm_append_comm
    have hfree := hestablished.releaseAll
    rw [pendingHoldings_tokens haligned, append_nil] at hfree
    have hframe := establishReferences_frame b inputs.context outputs
    revert hfree hframe
    generalize b.establishReferences inputs.context outputs = b₁
    rintro hfree ⟨hinputs, hslot⟩
    rw [hin] at hinputs
    cases hremainder : remainderSize config env.codec plan reason inputs.context
        outputs with
    | error error => exact absurd hremainder (remainderSize_measured hcodec hbatch _ _ _)
    | ok size? =>
      cases size? with
      | none =>
        have hb₁ : Local b b₁ [] := .of_quiet hslot (by simp)
        have hsent := hb₁.trans (deliver_local b₁ env.codec plan inputs.context outputs)
        exact ⟨(hfree.deliver hcodec plan).congr rfl rfl rfl rfl, ⟨hsent.slot, hsent.sends⟩⟩
      | some size =>
        obtain ⟨rfl, output, hlast, hsingle, hend⟩ := remainderSize_ok hremainder
        have hcontexts : inputs.context ≠ [] := by
          rintro hnil
          rw [hnil] at haligned
          exact hne (length_eq_zero_iff.mp haligned)
        have hretained := hfree.takeRemaining size hinputs hcontexts hlast hsingle hend
        have hslot' := (takeRemaining_slot b₁ size inputs.context outputs).trans hslot
        dsimp only
        cases haccepts : env.acceptsWakeups with
        | true =>
          rw [SignalBuffer.setArrival, if_pos haccepts]
          dsimp only
          refine ⟨Books.deliver hcodec plan (hretained.congr rfl rfl rfl rfl), ?_⟩
          refine .trans (.of_quiet ?_ (by simp)) (deliver_local _ env.codec plan inputs.context _)
          exact hslot'
        | false =>
          -- The processor ends here: the outputs are gone, and with them their references.
          have hnone : keys inputs.context = [] := by
            by_contra hkeys
            obtain ⟨k, hk⟩ := exists_mem_of_ne_nil _ hkeys
            obtain ⟨part, hpart, hkey⟩ := mem_keys.mp hk
            exact hkept haccepts rfl
              ⟨⟨part, hpart, by rw [hkey]; rfl⟩, outputs, size, hbatch, hremainder⟩
          rw [SignalBuffer.setArrival, if_neg (by simp [haccepts])]
          refine ⟨?_, .of_quiet hslot' (by simp)⟩
          dsimp only
          rw [Ghost.after_setWakeup]
          exact hretained.dropUntracked hnone

theorem Books.flushSignalImpl (hcodec : env.codec.Contract sources)
    (h : Books sources ledger elsewhere b [] [] g)
    (hkept : env.acceptsWakeups = false → reason = .size →
      ¬KeepsRemainder config env.codec plan signal b.inputs) (now : Nat) :
    Flushed sources ledger elsewhere b g
      (b.flushSignalImpl config env plan signal now reason) := by
  rw [SignalBuffer.flushSignalImpl]
  dsimp only
  have hb₁ : Books sources ledger elsewhere
      (if reason = .timer then { b with wakeupArmed := false } else b) [] [] g ∧
      (if reason = .timer then { b with wakeupArmed := false } else b).slot = b.slot ∧
      (if reason = .timer then { b with wakeupArmed := false } else b).inputs = b.inputs := by
    split
    · exact ⟨h.congr rfl rfl rfl rfl, rfl, rfl⟩
    · exact ⟨h, rfl, rfl⟩
  revert hb₁
  generalize (if reason = .timer then { b with wakeupArmed := false } else b) = b₁
  rintro ⟨hb₁, hslot, hinputs₁⟩
  by_cases hempty : b₁.inputs.isEmpty = true
  · rw [if_pos hempty]
    exact ⟨by rw [Ghost.after_nil]; exact hb₁, .of_quiet hslot (by simp)⟩
  · rw [if_neg hempty]
    have hcancel : ∀ (p : Prop) [Decidable p] (es : List (Effect P)),
        g.after ((if p then [.cancelWakeup b₁.slot] else []) ++ es) = g.after es := by
      intro p _ es
      rw [Ghost.after_append]
      split
      · rw [Ghost.after_cancelWakeup]
      · rw [Ghost.after_nil]
    have hne : b₁.inputs.pending ≠ [] := fun hnil => hempty (by simp [Inputs.isEmpty, hnil])
    have hquiet : ∀ m : Sent P, .sendMessage m ∉
        (if reason ≠ .timer ∧ b₁.wakeupArmed = true
          then [Effect.cancelWakeup b₁.slot] else []) := by
      split <;> simp
    have hb₂ : Books sources ledger elsewhere
        (if reason ≠ .timer then { b₁ with wakeupArmed := false } else b₁) [] [] g ∧
        (if reason ≠ .timer then { b₁ with wakeupArmed := false } else b₁).slot = b.slot ∧
        (if reason ≠ .timer then { b₁ with wakeupArmed := false } else b₁).inputs = b₁.inputs := by
      split
      · exact ⟨hb₁.congr rfl rfl rfl rfl, hslot, rfl⟩
      · exact ⟨hb₁, hslot, rfl⟩
    revert hb₂
    generalize (if reason ≠ .timer then { b₁ with wakeupArmed := false } else b₁) = b₂
    rintro ⟨hb₂, hslot₂, hinputs⟩
    rw [← hinputs] at hne
    split
    · have hnothing := hcancel (reason ≠ .timer ∧ b₁.wakeupArmed = true) []
      rw [append_nil, Ghost.after_nil] at hnothing
      refine ⟨?_, .of_quiet hslot₂ hquiet⟩
      rwa [hnothing]
    · rw [← hinputs₁, ← hinputs] at hkept
      have hflushed := hb₂.drain.flushInputs hcodec rfl hne hb₂.shape.aligned hb₂.shape.pendingOnce
        hkept now
      have hdrained : Local b { b₂ with inputs := empty } _ := .of_quiet hslot₂ hquiet
      refine ⟨?_, hdrained.trans hflushed.stays⟩
      rw [hcancel]
      exact hflushed.books

end OtapDataflow.Batch
