import OtapDataflow.ControlChannel.Protocol

/-! # Control channel: the queue core follows the delivery protocol

`Refines` relates a queue core to a protocol state.  Every operation of the core is
matched by one protocol step with the observation the caller can make of it
(`step_simulates`), so every run of the core is a trace of the protocol and inherits its
laws (`control_channel_delivery`). -/

namespace OtapDataflow.ControlChannel

open Transition Word ControlChannel.Inner

variable {PData Meta Value : Type}

/-- What the caller of one operation observes. -/
def observe : Op PData Meta Value × Ret PData Meta Value → Observation PData Meta Value
  | (.trySend _ (.ack msg), .send (.ok _)) => .accepted (.ack msg)
  | (.trySend _ (.nack msg), .send (.ok _)) => .accepted (.nack msg)
  | (.recordDrainIngress _ _, .lifecycle .accepted) => .drainRecorded
  | (.recordShutdown _ _, .lifecycle .accepted) => .shutdownRecorded
  | (.popEvent _, .event (some event)) => .delivered event
  | _ => .silent

/-- The observations of a run from a fresh queue core. -/
def observations (config : ControlChannelConfig) (ops : List (Op PData Meta Value)) :
    List (Observation PData Meta Value) :=
  (Machine.history step (new config) ops).map observe

/-- The life of a token, read off its sticky flag and its slot. -/
def tokenOf {α : Type} (recorded : Bool) (slot : Option α) : Token :=
  if recorded then (if slot.isSome then .pending else .delivered) else .unrecorded

/-! ## Frames -/

/-- `s'` agrees with `s` on everything the protocol sees; scheduling state and the other
counters may differ, and shutdown may have become forced. -/
structure Frame (s s' : Inner PData Meta Value) : Prop where
  config : s'.config = s.config
  phase : s'.phase = s.phase
  closed : s'.closed = s.closed
  drainIngress : s'.drainIngress = s.drainIngress
  shutdown : s'.shutdown = s.shutdown
  drainIngressRecorded : s'.drainIngressRecorded = s.drainIngressRecorded
  shutdownRecorded : s'.shutdownRecorded = s.shutdownRecorded
  completion : s'.completion = s.completion
  abandoned : s'.completionAbandonedOnForcedShutdownTotal =
    s.completionAbandonedOnForcedShutdownTotal
  forced : s.shutdownForced = true → s'.shutdownForced = true

namespace Frame

theorem refl (s : Inner PData Meta Value) : Frame s s :=
  ⟨rfl, rfl, rfl, rfl, rfl, rfl, rfl, rfl, rfl, id⟩

theorem trans {s₁ s₂ s₃ : Inner PData Meta Value} (h₁ : Frame s₁ s₂) (h₂ : Frame s₂ s₃) :
    Frame s₁ s₃ where
  config := h₂.config.trans h₁.config
  phase := h₂.phase.trans h₁.phase
  closed := h₂.closed.trans h₁.closed
  drainIngress := h₂.drainIngress.trans h₁.drainIngress
  shutdown := h₂.shutdown.trans h₁.shutdown
  drainIngressRecorded := h₂.drainIngressRecorded.trans h₁.drainIngressRecorded
  shutdownRecorded := h₂.shutdownRecorded.trans h₁.shutdownRecorded
  completion := h₂.completion.trans h₁.completion
  abandoned := h₂.abandoned.trans h₁.abandoned
  forced := h₂.forced ∘ h₁.forced

section

variable (s : Inner PData Meta Value)

include s

theorem refreshShutdownForce (now : Instant) : Frame s (s.refreshShutdownForce now) := by
  unfold Inner.refreshShutdownForce
  split
  · exact refl s
  · split
    · split
      · exact ⟨rfl, rfl, rfl, rfl, rfl, rfl, rfl, rfl, rfl, fun _ => rfl⟩
      · exact refl s
    · exact refl s

theorem refreshIfShutdown (now : Instant) : Frame s (s.refreshIfShutdown now) := by
  unfold Inner.refreshIfShutdown
  split
  · exact refreshShutdownForce s now
  · exact refl s

theorem sendConfig (config : Value) : Frame s (s.sendConfig config).1 := by
  unfold Inner.sendConfig
  split
  · exact { refl s with }
  · split <;> exact { refl s with }

theorem sendTimerTick : Frame s s.sendTimerTick.1 := by
  unfold Inner.sendTimerTick
  split
  · exact { refl s with }
  · split <;> exact { refl s with }

theorem sendTelemetryTick : Frame s s.sendTelemetryTick.1 := by
  unfold Inner.sendTelemetryTick
  split
  · exact { refl s with }
  · split <;> exact { refl s with }

/-- One round of the round robin takes nothing or one normal event. -/
theorem takeCandidate :
    Frame s s.takeCandidate.1 ∧ ∀ event ∈ s.takeCandidate.2, event.isNormal = true := by
  unfold Inner.takeCandidate
  dsimp only
  split
  · refine ⟨{ refl s with }, ?_⟩
    rintro event hevent
    obtain ⟨config, -, rfl⟩ := Option.map_eq_some_iff.mp hevent
    rfl
  all_goals
    split
    · exact ⟨{ refl s with }, by rintro _ ⟨⟩; rfl⟩
    · exact ⟨{ refl s with }, by rintro _ ⟨⟩⟩

end

theorem takeNextNormalEventLoop (rounds : Nat) (s : Inner PData Meta Value) :
    Frame s (takeNextNormalEventLoop rounds s).1 ∧
      ∀ event ∈ (takeNextNormalEventLoop rounds s).2, event.isNormal = true := by
  induction rounds generalizing s with
  | zero => exact ⟨refl s, by rintro _ ⟨⟩⟩
  | succ rounds ih =>
    have hround := takeCandidate s
    unfold Inner.takeNextNormalEventLoop
    split
    · rename_i s₁ event heq
      rw [heq] at hround
      exact ⟨hround.1.trans { refl s₁ with }, hround.2⟩
    · rename_i s₁ heq
      rw [heq] at hround
      exact ⟨hround.1.trans (ih s₁).1, (ih s₁).2⟩

end Frame

/-! ## The refinement relation -/

/-- A queue core seen as a protocol state. -/
structure Refines (s : Inner PData Meta Value) (q : Protocol PData Meta) : Prop where
  capacity : q.capacity = s.config.completionMsgCapacity
  pending : q.pending = s.completion
  bounded : s.completion.length ≤ s.config.completionMsgCapacity
  abandoned : q.abandoned.length = s.completionAbandonedOnForcedShutdownTotal
  abandoned_forced : q.abandoned ≠ [] → s.shutdownForced = true
  kept : q.shutdown ≠ .delivered → q.abandoned = []
  drain : q.drain = tokenOf s.drainIngressRecorded s.drainIngress
  shutdown : q.shutdown = tokenOf s.shutdownRecorded s.shutdown
  closed : q.closed = s.closed
  drain_slot : s.drainIngressRecorded = false → s.drainIngress = none
  shutdown_slot : s.shutdownRecorded = false → s.shutdown = none
  phase_normal : s.phase = .normal ↔
    s.drainIngressRecorded = false ∧ s.shutdownRecorded = false
  phase_shutdown : s.phase = .shutdownRecorded ↔ s.shutdownRecorded = true

variable {s' : Inner PData Meta Value}

theorem Refines.of_frame {s : Inner PData Meta Value} {q : Protocol PData Meta} (h : Refines s q)
    (hf : Frame s s') : Refines s' q where
  capacity := by rw [h.capacity, hf.config]
  pending := by rw [h.pending, hf.completion]
  bounded := by rw [hf.completion, hf.config]; exact h.bounded
  abandoned := by rw [h.abandoned, hf.abandoned]
  abandoned_forced := fun hne => hf.forced (h.abandoned_forced hne)
  kept := h.kept
  drain := by rw [h.drain, hf.drainIngressRecorded, hf.drainIngress]
  shutdown := by rw [h.shutdown, hf.shutdownRecorded, hf.shutdown]
  closed := by rw [h.closed, hf.closed]
  drain_slot := by rw [hf.drainIngressRecorded, hf.drainIngress]; exact h.drain_slot
  shutdown_slot := by rw [hf.shutdownRecorded, hf.shutdown]; exact h.shutdown_slot
  phase_normal := by
    rw [hf.phase, hf.drainIngressRecorded, hf.shutdownRecorded]
    exact h.phase_normal
  phase_shutdown := by rw [hf.phase, hf.shutdownRecorded]; exact h.phase_shutdown

theorem new_refines (config : ControlChannelConfig) :
    Refines (new config : Inner PData Meta Value)
      (Protocol.start config.completionMsgCapacity) where
  capacity := rfl
  pending := rfl
  bounded := Nat.zero_le _
  abandoned := rfl
  abandoned_forced := fun h => absurd rfl h
  kept := fun _ => rfl
  drain := rfl
  shutdown := rfl
  closed := rfl
  drain_slot := fun _ => rfl
  shutdown_slot := fun _ => rfl
  phase_normal := by simp [new]
  phase_shutdown := by simp [new]

/-! ## One operation, one protocol step -/

section

variable {s : Inner PData Meta Value} {q : Protocol PData Meta}

section

variable (h : Refines s q)

include h

/-- An operation that shows nothing and keeps the frame is a silent step. -/
theorem Refines.silent (hf : Frame s s') :
    ∃ q', Protocol.Step q (.silent : Observation PData Meta Value) q' ∧ Refines s' q' :=
  ⟨q, .silent id, h.of_frame hf⟩

theorem Refines.pushCompletion (hopen : s.closed = false)
    (hroom : s.completion.length < s.config.completionMsgCapacity)
    (msg : CompletionMsg PData Meta) :
    ∃ q', Protocol.Step q (.accepted msg : Observation PData Meta Value) q' ∧
      Refines (s.pushCompletion msg).1 q' := by
  refine ⟨_, .accept (by rw [h.closed, hopen]) (by rw [h.pending, h.capacity]; exact hroom), ?_⟩
  refine { h with pending := ?_, bounded := ?_ }
  · show q.pending ++ [msg] = s.completion ++ [msg]
    rw [h.pending]
  · show (s.completion ++ [msg]).length ≤ s.config.completionMsgCapacity
    rwa [List.length_append]

theorem Refines.sendCompletion (hopen : s.closed = false)
    (cmd : ControlCmd PData Meta Value) (msg : CompletionMsg PData Meta) :
    ((s.sendCompletion cmd msg).2 = .error (.full .backpressured cmd) ∧
        (s.sendCompletion cmd msg).1 = s) ∨
      ((s.sendCompletion cmd msg).2 = .ok .accepted ∧
        ∃ q', Protocol.Step q (.accepted msg : Observation PData Meta Value) q' ∧
          Refines (s.sendCompletion cmd msg).1 q') := by
  unfold Inner.sendCompletion
  split
  · exact .inl ⟨rfl, rfl⟩
  · rename_i hroom
    exact .inr ⟨rfl, h.pushCompletion hopen (not_le.mp hroom) msg⟩

theorem Refines.trySend (now : Instant) (cmd : ControlCmd PData Meta Value) :
    ∃ q', Protocol.Step q (observe (.trySend now cmd, .send (s.trySend now cmd).2)) q' ∧
      Refines (s.trySend now cmd).1 q' := by
  have hf := Frame.refreshIfShutdown s now
  have h₁ := h.of_frame hf
  unfold Inner.trySend
  dsimp only
  split
  · cases cmd <;> exact h.silent hf
  · have hopen : (s.refreshIfShutdown now).closed = false := by simp_all
    cases cmd with
    | ack msg =>
      rcases h₁.sendCompletion hopen (.ack msg) (.ack msg) with ⟨hr, hs⟩ | ⟨hr, hs⟩
      · rw [hr, hs]
        exact h.silent hf
      · rwa [hr]
    | nack msg =>
      rcases h₁.sendCompletion hopen (.nack msg) (.nack msg) with ⟨hr, hs⟩ | ⟨hr, hs⟩
      · rw [hr, hs]
        exact h.silent hf
      · rwa [hr]
    | config config => exact h₁.silent (.sendConfig _ config)
    | timerTick => exact h₁.silent (.sendTimerTick _)
    | collectTelemetry => exact h₁.silent (.sendTelemetryTick _)

theorem Refines.recordDrainIngress (now : Instant) (msg : DrainIngressMsg) :
    ∃ q', Protocol.Step q
        (observe (.recordDrainIngress now msg, .lifecycle (s.recordDrainIngress now msg).2) :
          Observation PData Meta Value) q' ∧
      Refines (s.recordDrainIngress now msg).1 q' := by
  have hf := Frame.refreshIfShutdown s now
  have h₁ := h.of_frame hf
  unfold Inner.recordDrainIngress
  dsimp only
  split
  · exact h.silent hf
  · split
    · exact h.silent hf
    · split
      · exact h.silent hf
      · rename_i hopen hunrec hforced
        have hrec : (s.refreshIfShutdown now).drainIngressRecorded = false := by simpa using hunrec
        refine ⟨_, .recordDrain (by rw [h₁.closed]; simpa using hopen) ?_, ?_⟩
        · rw [h₁.drain, hrec]
          rfl
        · refine { h₁ with
            drain := rfl
            drain_slot := fun hr => by cases hr
            phase_normal := ?_
            phase_shutdown := ?_ }
          · -- the phase leaves `Normal` and the flag is now set
            by_cases hphase : (s.refreshIfShutdown now).phase = .normal <;>
              simp [bumpVersion, clearNormalPending, hphase]
          · have hps := h₁.phase_shutdown
            by_cases hphase : (s.refreshIfShutdown now).phase = .normal <;>
              simpa [bumpVersion, clearNormalPending, hphase] using hps

theorem Refines.recordShutdown (now : Instant) (msg : ShutdownMsg) :
    ∃ q', Protocol.Step q
        (observe (.recordShutdown now msg, .lifecycle (s.recordShutdown now msg).2) :
          Observation PData Meta Value) q' ∧
      Refines (s.recordShutdown now msg).1 q' := by
  unfold Inner.recordShutdown
  split
  · exact h.silent (.refl s)
  · split
    · exact h.silent (.refl s)
    · rename_i hopen hunrec
      have hrec : s.shutdownRecorded = false := by simpa using hunrec
      have hunrecorded : q.shutdown = .unrecorded := by
        rw [h.shutdown, hrec]
        rfl
      refine ⟨_, .recordShutdown (by rw [h.closed]; simpa using hopen) hunrecorded, ?_⟩
      -- the refresh and the version bump keep the frame of the state they start from
      refine Refines.of_frame ?_ ((Frame.refreshShutdownForce _ now).trans
        ⟨rfl, rfl, rfl, rfl, rfl, rfl, rfl, rfl, rfl, id⟩)
      exact { h with
        kept := fun _ => h.kept (by simp [hunrecorded])
        shutdown := rfl
        shutdown_slot := fun hr => by cases hr
        phase_normal := by simp
        phase_shutdown := by simp }

theorem Refines.close :
    ∃ q', Protocol.Step q (observe (.close, .closed s.close.2) : Observation PData Meta Value) q' ∧
      Refines s.close.1 q' := by
  unfold Inner.close
  split
  · exact h.silent (.refl s)
  · exact ⟨_, .silent (fun _ => rfl), { h with closed := rfl }⟩

/-- A completion batch is a prefix of the backlog. -/
theorem Refines.emitBatch (hne : s.completion ≠ []) (budget : Option Nat) :
    ∃ q', Protocol.Step q (.delivered (s.takeCompletionBatch budget).2) q' ∧
      Refines (s.takeCompletionBatch budget).1 q' := by
  have hsplit : q.pending = s.completion.take (s.completionBatchLen budget) ++
      s.completion.drop (s.completionBatchLen budget) := by
    rw [h.pending, List.take_append_drop]
  refine ⟨_, .deliverBatch (by rw [h.pending]; exact hne) hsplit, ?_⟩
  refine { h with pending := rfl, bounded := ?_ }
  show (s.completion.drop _).length ≤ s.config.completionMsgCapacity
  rw [List.length_drop]
  exact le_trans (Nat.sub_le _ _) h.bounded

/-- The terminal event abandons the backlog when forced; otherwise the backlog is empty. -/
theorem Refines.finalizeShutdown (hdrain : s.drainIngress = none)
    (forced : Bool) (hforced : forced = true → s.shutdownForced = true)
    (hgraceful : forced = false → s.completion = []) (now : Instant) :
    ∃ q', Protocol.Step q (observe (.popEvent now, .event (s.finalizeShutdown forced).2)) q' ∧
      Refines (s.finalizeShutdown forced).1 q' := by
  unfold Inner.finalizeShutdown
  split
  · exact h.silent (.refl s)
  · rename_i msg hmsg
    have hrec : s.shutdownRecorded = true := by
      by_contra hnot
      rw [h.shutdown_slot (by simpa using hnot)] at hmsg
      cases hmsg
    have hpend : q.shutdown = .pending := by
      rw [h.shutdown, hrec, hmsg]
      rfl
    have hab : q.abandoned = [] := h.kept (by simp [hpend])
    have hzero : s.completionAbandonedOnForcedShutdownTotal = 0 := by
      rw [← h.abandoned, hab, List.length_nil]
    have hnodrain : q.drain ≠ .pending := by
      rw [h.drain, hdrain]
      unfold tokenOf
      split <;> simp
    refine ⟨_, .deliverShutdown hnodrain hpend, ?_⟩
    cases forced with
    | true =>
      refine { h with
        pending := rfl
        bounded := Nat.zero_le _
        abandoned := ?_
        abandoned_forced := fun _ => hforced rfl
        kept := fun hn => absurd rfl hn
        shutdown := by simp [bumpVersion, clearNormalPending, hrec, tokenOf]
        closed := rfl
        shutdown_slot := fun _ => rfl }
      show q.pending.length = saturatingAdd s.completionAbandonedOnForcedShutdownTotal
        s.completion.length
      have hlt := s.config.capacity_lt
      have hle := h.bounded
      rw [hzero, h.pending, saturatingAdd_eq (by omega), zero_add]
    | false =>
      have hempty : s.completion = [] := hgraceful rfl
      refine { h with
        pending := hempty.symm
        abandoned := ?_
        abandoned_forced := fun hne => absurd (h.pending.trans hempty) hne
        kept := fun hn => absurd rfl hn
        shutdown := by simp [bumpVersion, clearNormalPending, hrec, tokenOf]
        closed := rfl
        shutdown_slot := fun _ => rfl }
      show q.pending.length = s.completionAbandonedOnForcedShutdownTotal
      rw [hzero, h.pending, hempty, List.length_nil]

/-- A pop that yields nothing or one normal event, in the normal phase. -/
theorem Refines.normalEvent {event : Option (CoreControlEvent PData Meta Value)}
    (hphase : s.phase = .normal) (hf : Frame s s') (hnormal : ∀ e ∈ event, e.isNormal = true)
    (now : Instant) :
    ∃ q', Protocol.Step q (observe (.popEvent now, .event event)) q' ∧ Refines s' q' := by
  obtain ⟨hdrain, hshut⟩ := h.phase_normal.mp hphase
  cases event with
  | none => exact h.silent hf
  | some event =>
    refine ⟨q, .deliverNormal (hnormal event rfl) ?_ ?_, h.of_frame hf⟩
    · rw [h.drain, hdrain]
      rfl
    · rw [h.shutdown, hshut]
      rfl

theorem Refines.popNormal (hphase : s.phase = .normal) (now : Instant) :
    ∃ q', Protocol.Step q (observe (.popEvent now, .event s.popNormal.2)) q' ∧
      Refines s.popNormal.1 q' := by
  have hround : ∀ s : Inner PData Meta Value, Frame s s.takeNextNormalEvent.1 ∧
      ∀ event ∈ s.takeNextNormalEvent.2, event.isNormal = true :=
    fun s => Frame.takeNextNormalEventLoop 3 s
  unfold Inner.popNormal
  split
  · split_ifs with hne
    · exact h.emitBatch hne none
    · exact h.silent (.refl s)
  · -- the state after the guard: the round robin ran, or nothing happened
    generalize hguard : (if s.completionBurstLen ≥ s.config.completionBurstLimit then
      s.takeNextNormalEvent else (s, none)) = guard
    obtain ⟨s₁, event₁⟩ := guard
    have hf : Frame s s₁ ∧ ∀ event ∈ event₁, event.isNormal = true := by
      split at hguard
      · have hr := hround s
        rwa [hguard] at hr
      · cases hguard
        exact ⟨.refl s, by rintro _ ⟨⟩⟩
    have h₁ := h.of_frame hf.1
    cases event₁ with
    | some event => exact h.normalEvent hphase hf.1 hf.2 now
    | none =>
      dsimp only
      split_ifs with hne
      · exact h₁.emitBatch hne _
      · exact h₁.normalEvent (hf.1.phase.trans hphase) (hround s₁).1 (hround s₁).2 now

theorem Refines.popEvent (now : Instant) :
    ∃ q', Protocol.Step q (observe (.popEvent now, .event (s.popEvent now).2)) q' ∧
      Refines (s.popEvent now).1 q' := by
  have h₁ := h.of_frame (Frame.refreshIfShutdown s now)
  unfold Inner.popEvent
  dsimp only
  generalize s.refreshIfShutdown now = s₁ at h₁ ⊢
  split
  · rename_i msg hmsg
    have hrec : s₁.drainIngressRecorded = true := by
      by_contra hnot
      rw [h₁.drain_slot (by simpa using hnot)] at hmsg
      cases hmsg
    refine ⟨_, .deliverDrain ?_, ?_⟩
    · rw [h₁.drain, hrec, hmsg]
      rfl
    · exact { h₁ with
        drain := by simp [bumpVersion, hrec, tokenOf]
        drain_slot := fun _ => rfl }
  · rename_i hnodrain
    split
    · split
      · rename_i hforced
        exact h₁.finalizeShutdown hnodrain true (fun _ => hforced) (fun hc => by cases hc) now
      · split
        · rename_i hne
          exact h₁.emitBatch hne none
        · rename_i hempty
          exact h₁.finalizeShutdown hnodrain false (fun hc => by cases hc)
            (fun _ => by simpa using hempty) now
    · split_ifs with hne
      · exact h₁.emitBatch hne none
      · exact h₁.silent (.refl s₁)
    · rename_i hphase
      exact h₁.popNormal hphase now

/-- **The queue core follows the protocol**, one step per operation. -/
theorem step_simulates (op : Op PData Meta Value) :
    ∃ q', Protocol.Step q (observe (op, (step s op).2)) q' ∧ Refines (step s op).1 q' := by
  cases op with
  | trySend now cmd => exact h.trySend now cmd
  | recordDrainIngress now msg => exact h.recordDrainIngress now msg
  | recordShutdown now msg => exact h.recordShutdown now msg
  | close => exact h.close
  | popEvent now => exact h.popEvent now

end

end

/-- Every run of a fresh queue core is a trace of the protocol. -/
theorem run_simulates (config : ControlChannelConfig) (ops : List (Op PData Meta Value)) :
    ∃ q, Trace Protocol.Step (Protocol.start config.completionMsgCapacity)
        (observations config ops) q ∧
      Refines (Machine.final step (new config) ops) q :=
  Machine.exec_simulates (fun _ _ op h => step_simulates h op) (new_refines config) ops

/-- **Delivery law of the control channel**, for every configuration, every sequence of
operations and any clock readings.  The accepted completions are, in order, those
delivered, those still pending, and a suffix abandoned by a forced shutdown, as long as
the abandoned counter says.  The backlog respects its capacity, each lifecycle token is
delivered at most once, no normal event is delivered after a token has been recorded, and
nothing at all (so no `DrainIngress` either) is delivered after `Shutdown`. -/
theorem control_channel_delivery (config : ControlChannelConfig)
    (ops : List (Op PData Meta Value)) : let s := Machine.final step (new config) ops
    let os := observations config ops
    (∃ abandoned, os.flatMap Observation.acceptedCompletions =
          os.flatMap Observation.deliveredCompletions ++ s.completion ++ abandoned ∧
        abandoned.length = s.stats.completionAbandonedOnForcedShutdownTotal ∧
        (abandoned ≠ [] → s.stats.shutdownForced = true ∧
          os.countP Observation.isShutdownDelivery = 1)) ∧
      s.completion.length ≤ config.completionMsgCapacity ∧
      os.countP Observation.isDrainDelivery ≤ 1 ∧
      os.countP Observation.isShutdownDelivery ≤ 1 ∧
      ∀ pre o post, os = pre ++ o :: post →
        (o.recordsLifecycle = true → ∀ p ∈ post, p.isNormalDelivery = false) ∧
        (o.isShutdownDelivery = true → ∀ p ∈ post, p.isDelivery = false) := by
  intro s os
  obtain ⟨q, ht, href⟩ := run_simulates config ops
  have hinv := Protocol.trace_inv ht
  refine ⟨⟨q.abandoned, ?_, href.abandoned, ?_⟩, ?_, ?_, ?_, ?_⟩
  · have hcons := hinv.conserved
    rwa [href.pending] at hcons
  · intro hne
    have hdel : q.shutdown = .delivered := by
      by_contra hnot
      exact hne (hinv.kept hnot)
    exact ⟨href.abandoned_forced hne, by rw [hinv.shutdown_count, if_pos hdel]⟩
  · rw [← Protocol.trace_capacity ht, ← href.pending]
    exact hinv.bounded
  · rw [hinv.drain_count]
    split <;> omega
  · rw [hinv.shutdown_count]
    split <;> omega
  · intro pre o post hsplit
    rw [show observations config ops = pre ++ o :: post from hsplit] at ht
    exact ⟨fun ho => Protocol.no_normal_after_lifecycle ho ht,
      fun ho => Protocol.nothing_after_shutdown ho ht⟩

/-- **After `Shutdown` nothing is left.**  Once it is delivered the channel is closed, and no
completion and no lifecycle token waits. -/
theorem nothing_left_after_shutdown (config : ControlChannelConfig)
    (ops : List (Op PData Meta Value))
    (hdelivered : ∃ o ∈ observations config ops, o.isShutdownDelivery = true) :
    let s := Machine.final step (new config) ops
    s.closed = true ∧ s.completion = [] ∧ s.drainIngress = none ∧ s.shutdown = none := by
  intro s
  obtain ⟨q, ht, href⟩ := run_simulates config ops
  have hinv := Protocol.trace_inv ht
  have hdone : q.shutdown = .delivered := by
    by_contra hnot
    have hcount := hinv.shutdown_count
    rw [if_neg hnot] at hcount
    obtain ⟨o, ho, hshutdown⟩ := hdelivered
    exact List.countP_eq_zero.mp hcount o ho hshutdown
  obtain ⟨hclosed, hpending, hdrain⟩ := hinv.finished hdone
  rw [href.shutdown, tokenOf] at hdone
  rw [href.drain, tokenOf] at hdrain
  refine ⟨href.closed.symm.trans hclosed, href.pending.symm.trans hpending, ?_, ?_⟩
  · cases hrec : (Machine.final step (new config) ops).drainIngressRecorded with
    | false => exact href.drain_slot hrec
    | true => simpa [hrec] using hdrain
  · split_ifs at hdone with hrec hslot
    simpa using hslot

/-- A completion and both lifecycle messages are delivered, and a send after them is refused. -/
theorem nothing_left_after_shutdown_drained :
    let ops : List (Op Unit Unit Unit) := [.trySend 0 (.ack ⟨(), ()⟩),
      .recordDrainIngress 1 ⟨10, ""⟩, .recordShutdown 2 ⟨10, ""⟩, .popEvent 3, .popEvent 4,
      .popEvent 5, .trySend 6 .timerTick]
    let s := Machine.final step (new ⟨4, 1, 1, by decide, by decide⟩) ops
    s.closed = true ∧ s.completion = [] ∧ s.drainIngress = none ∧ s.shutdown = none := by
  intro ops s
  refine nothing_left_after_shutdown _ ops ?_
  rw [← List.any_eq_true]
  decide

/-! # Control channel: fairness of the normal phase

What a step in the normal phase can do to the scheduling state is said once (`Moves`): nothing,
deliver a batch within the burst budget, or deliver the next normal event of the round robin.  The
two fairness laws are inductions over the steps of a window of a run: the budget left bounds the
completions still to come (`completions_le`), and the classes that the cursor passes on its way to
a pending class bound the normal events that come first (`classes_sublist`). -/

open Machine List

/-- The class of the normal event that is delivered, if one is. -/
@[simp] def Observation.deliveredClass : Observation PData Meta Value → Option NormalEventClass
  | .delivered (.config _) => some .config
  | .delivered .timerTick => some .timerTick
  | .delivered .collectTelemetry => some .collectTelemetry
  | _ => none

/-- Whether an event of the class waits. -/
def Inner.pendingClass (s : Inner PData Meta Value) : NormalEventClass → Bool
  | .config => s.latestConfig.isSome
  | .timerTick => s.pendingTimerTick
  | .collectTelemetry => s.pendingCollectTelemetry

/-- The core is in its normal phase after the operation too. -/
def StaysNormal (s : Inner PData Meta Value) (op : Op PData Meta Value) : Prop :=
  (step s op).1.phase = .normal

/-- The classes from the cursor to `c`, in the order in which the round robin asks them. -/
def upto (c cursor : NormalEventClass) : List NormalEventClass :=
  if cursor = c then [c]
  else if cursor.next = c then [cursor, c]
  else [cursor, cursor.next, c]

theorem upto_eq (c cursor : NormalEventClass) :
    upto c cursor = cursor :: if cursor = c then [] else upto c cursor.next := by
  cases c <;> cases cursor <;> rfl

theorem upto_nodup (c cursor : NormalEventClass) : (upto c cursor).Nodup := by
  cases c <;> cases cursor <;> decide

theorem length_upto_le (c cursor : NormalEventClass) : (upto c cursor).length ≤ 3 := by
  cases c <;> cases cursor <;> decide

/-! ## One step -/

/-- What a step in the normal phase does to the scheduling state, by what it shows. -/
inductive Moves (s s' : Inner PData Meta Value) (o : Observation PData Meta Value) : Prop
  | idle (silent : o.isDelivery = false) (cursor : s'.nextNormalEvent = s.nextNormalEvent)
      (burst : s'.completionBurstLen = s.completionBurstLen)
  | batch (none : o.deliveredClass = none) (cursor : s'.nextNormalEvent = s.nextNormalEvent)
      (burst : s'.completionBurstLen =
        saturatingAdd s.completionBurstLen o.deliveredCompletions.length)
      (fair : s.hasPendingNormalEvent = true →
        o.deliveredCompletions.length ≤ s.config.completionBurstLimit - s.completionBurstLen)
  | normal {k : NormalEventClass} (class_eq : o.deliveredClass = some k)
      (taken : s'.pendingClass k = false) (cursor : s'.nextNormalEvent = k.next)
      (order : ∀ c, s.pendingClass c = true →
        List.Sublist (k :: if k = c then [] else upto c k.next) (upto c s.nextNormalEvent))

section

variable {s : Inner PData Meta Value}

/-- A round of the round robin that finds nothing moves the cursor on. -/
theorem takeCandidate_skip (h : s.pendingClass s.nextNormalEvent = false) :
    s.takeCandidate = ({ s with nextNormalEvent := s.nextNormalEvent.next }, none) := by
  cases hcursor : s.nextNormalEvent <;> rw [hcursor] at h <;>
    simp_all [takeCandidate, pendingClass]

theorem takeCandidate_take (h : s.pendingClass s.nextNormalEvent = true) :
    ∃ s' event, s.takeCandidate = (s', some event) ∧
      (Observation.delivered event).deliveredClass = some s.nextNormalEvent ∧
      s'.pendingClass s.nextNormalEvent = false ∧
      s'.nextNormalEvent = s.nextNormalEvent.next := by
  cases hcursor : s.nextNormalEvent with
  | config =>
    rw [hcursor] at h
    obtain ⟨config, hconfig⟩ := Option.isSome_iff_exists.mp h
    simp [takeCandidate, pendingClass, hcursor, hconfig]
  | timerTick | collectTelemetry =>
    rw [hcursor] at h
    simp only [pendingClass] at h
    simp [takeCandidate, pendingClass, hcursor, h]

/-- The round robin asks far enough to find a class that waits. -/
theorem takeNextNormalEventLoop_moves {rounds : Nat} {c : NormalEventClass}
    (hc : s.pendingClass c = true) (hlen : (upto c s.nextNormalEvent).length ≤ rounds) :
    ∃ s' event k, takeNextNormalEventLoop rounds s = (s', some event) ∧
      (Observation.delivered event).deliveredClass = some k ∧ s'.pendingClass k = false ∧
      s'.nextNormalEvent = k.next ∧ ∀ c, s.pendingClass c = true →
        List.Sublist (k :: if k = c then [] else upto c k.next) (upto c s.nextNormalEvent) := by
  induction rounds generalizing s with
  | zero =>
    rw [upto_eq] at hlen
    cases hlen
  | succ rounds ih =>
    rw [takeNextNormalEventLoop]
    cases hfirst : s.pendingClass s.nextNormalEvent with
    | true =>
      obtain ⟨s', event, htake, hclass, htaken, hcursor⟩ := takeCandidate_take hfirst
      rw [htake]
      refine ⟨_, event, _, rfl, hclass, htaken, hcursor, fun c _ => ?_⟩
      rw [← upto_eq]
    | false =>
      -- No class that waits is at the cursor, so its list loses its head.
      have htail : ∀ c, s.pendingClass c = true →
          upto c s.nextNormalEvent = s.nextNormalEvent :: upto c s.nextNormalEvent.next := by
        intro c hc
        rw [upto_eq, if_neg]
        rintro rfl
        cases hfirst.symm.trans hc
      rw [takeCandidate_skip hfirst]
      rw [htail c hc] at hlen
      obtain ⟨s', event, k, hloop, hclass, htaken, hnext, horder⟩ :=
        @ih { s with nextNormalEvent := s.nextNormalEvent.next } hc (Nat.le_of_succ_le_succ hlen)
      refine ⟨s', event, k, hloop, hclass, htaken, hnext, fun c hc => ?_⟩
      rw [htail c hc]
      exact (horder c hc).cons _

theorem takeNextNormalEvent_moves (h : s.hasPendingNormalEvent = true) :
    ∃ s' event, s.takeNextNormalEvent = (s', some event) ∧ Moves s s' (.delivered event) := by
  have hpending : ∃ c, s.pendingClass c = true := by
    rcases Bool.or_eq_true_iff.mp h with h | h
    · rcases Bool.or_eq_true_iff.mp h with h | h
      · exact ⟨.config, h⟩
      · exact ⟨.timerTick, h⟩
    · exact ⟨.collectTelemetry, h⟩
  obtain ⟨c, hc⟩ := hpending
  obtain ⟨s', event, k, hloop, hclass, htaken, hcursor, horder⟩ :=
    takeNextNormalEventLoop_moves hc (length_upto_le c s.nextNormalEvent)
  exact ⟨s', event, hloop, .normal hclass htaken hcursor horder⟩

theorem emitBatch_moves {budget : Option Nat} (h : s.hasPendingNormalEvent = true →
      s.completionBurstLen < s.config.completionBurstLimit ∧
      budget = some (s.config.completionBurstLimit - s.completionBurstLen)) :
    Moves s (s.takeCompletionBatch budget).1 (.delivered (s.takeCompletionBatch budget).2) := by
  have hlen : (s.completion.take (s.completionBatchLen budget)).length =
      s.completionBatchLen budget := by
    cases budget <;> simp [completionBatchLen]
  refine .batch rfl rfl ?_ fun hpending => ?_
  · show saturatingAdd _ (s.completionBatchLen budget) = saturatingAdd _ (List.length _)
    rw [← hlen]
    rfl
  · obtain ⟨hlt, rfl⟩ := h hpending
    show (List.take _ s.completion).length ≤ _
    rw [hlen]
    refine (min_le_right _ _).trans (max_le le_rfl ?_)
    omega

/-- **A pop in the normal phase.** -/
theorem popNormal_moves (s : Inner PData Meta Value) (now : Instant) :
    Moves s s.popNormal.1 (observe (.popEvent now, .event s.popNormal.2)) ∧
      s.popNormal.1.config = s.config := by
  have hconfig : s.takeNextNormalEvent.1.config = s.config :=
    (Frame.takeNextNormalEventLoop 3 s).1.config
  unfold popNormal
  split
  · rename_i hnone
    split
    · exact ⟨emitBatch_moves fun hpending => by simp [hpending] at hnone, rfl⟩
    · exact ⟨.idle rfl rfl rfl, rfl⟩
  · rename_i hsome
    obtain ⟨s', event, htake, hmoves⟩ := takeNextNormalEvent_moves (by simpa using hsome)
    rw [htake] at hconfig
    by_cases hburst : s.completionBurstLen ≥ s.config.completionBurstLimit
    · rw [if_pos hburst, htake]
      exact ⟨hmoves, hconfig⟩
    · rw [if_neg hburst]
      dsimp only
      split
      · exact ⟨emitBatch_moves fun _ => ⟨not_le.mp hburst, rfl⟩, rfl⟩
      · rw [htake]
        exact ⟨hmoves, hconfig⟩

/-- **A step in the normal phase.**  A lifecycle token that is accepted would end the phase. -/
theorem step_moves {q : Protocol PData Meta} (href : Refines s q) (hphase : s.phase = .normal)
    {op : Op PData Meta Value} (h : StaysNormal s op) :
    Moves s (step s op).1 (observe (op, (step s op).2)) ∧ (step s op).1.config = s.config := by
  have hrefresh : ∀ now, s.refreshIfShutdown now = s := fun now => by
    rw [refreshIfShutdown, hphase, if_neg nofun]
  unfold StaysNormal at h
  cases op with
  | trySend now cmd =>
    cases cmd <;>
      simp only [step, trySend, hrefresh, sendCompletion, pushCompletion,
        sendConfig, sendTimerTick, sendTelemetryTick] <;>
      split_ifs <;> exact ⟨.idle rfl rfl rfl, rfl⟩
  | recordDrainIngress now msg =>
    simp only [step, recordDrainIngress, hrefresh] at h ⊢
    split_ifs at h ⊢ <;> first | exact ⟨.idle rfl rfl rfl, rfl⟩ | skip
    all_goals simp_all [clearNormalPending, bumpVersion]
  | recordShutdown now msg =>
    simp only [step, recordShutdown] at h ⊢
    split_ifs at h ⊢
    · exact ⟨.idle rfl rfl rfl, rfl⟩
    · exact ⟨.idle rfl rfl rfl, rfl⟩
    · cases h.symm.trans (Frame.refreshShutdownForce _ now).phase
  | close =>
    simp only [step, close]
    split <;> exact ⟨.idle rfl rfl rfl, rfl⟩
  | popEvent now =>
    have hdrain := href.drain_slot (href.phase_normal.mp hphase).1
    have hpop : s.popEvent now = s.popNormal := by
      simp [popEvent, hrefresh, hdrain, hphase]
    simp only [step, hpop]
    exact popNormal_moves s now

end

/-! ## Windows -/

section

variable {config : ControlChannelConfig} {s : Inner PData Meta Value}
  {ops : List (Op PData Meta Value)}

/-- A core in its normal phase. -/
structure Steady (config : ControlChannelConfig) (s : Inner PData Meta Value) : Prop where
  phase : s.phase = .normal
  config : s.config = config
  refines : ∃ q, Refines s q

theorem Steady.step (h : Steady config s) {op : Op PData Meta Value} (hop : StaysNormal s op) :
    Steady config (step s op).1 ∧
      Moves s (ControlChannel.step s op).1 (observe (op, (ControlChannel.step s op).2)) := by
  obtain ⟨q, href⟩ := h.refines
  obtain ⟨hmoves, hconfig⟩ := step_moves href h.phase hop
  obtain ⟨q', -, href'⟩ := step_simulates href op
  exact ⟨⟨hop, hconfig.trans h.config, q', href'⟩, hmoves⟩

/-- While a normal event waits and none is delivered, the completions delivered are paid for by
the budget. -/
theorem completions_le (h : Steady config s) (hnormal : Meets step StaysNormal s ops)
    (hpending : Meets step (fun s _ => s.hasPendingNormalEvent = true) s ops)
    (hnone : ∀ o ∈ (history step s ops).map observe, o.deliveredClass = none) :
    (((history step s ops).map observe).flatMap Observation.deliveredCompletions).length ≤
      config.completionBurstLimit - s.completionBurstLen := by
  induction ops generalizing s with
  | nil => exact Nat.zero_le _
  | cons op ops ih =>
    obtain ⟨hop, hnormal⟩ := hnormal
    obtain ⟨hwaits, hpending⟩ := hpending
    obtain ⟨hsteady, hmoves⟩ := h.step hop
    simp only [history_cons, map_cons] at hnone ⊢
    obtain ⟨hfirst, hnone⟩ := forall_mem_cons.mp hnone
    have hrest := ih hsteady hnormal hpending hnone
    generalize observe (op, (step s op).2) = o at hmoves hfirst ⊢
    rw [flatMap_cons, length_append]
    cases hmoves with
    | idle silent cursor burst =>
      cases o <;> simp_all
    | batch none cursor burst fair =>
      have hfair := fair hwaits
      have hlimit := config.burstLimit_lt
      rw [h.config] at hfair
      rw [burst, saturatingAdd, u64Max] at hrest
      omega
    | normal class_eq => cases hfirst.symm.trans class_eq

/-- The normal events delivered while class `c` waits are on the way of the cursor to `c`. -/
theorem classes_sublist {c : NormalEventClass} (h : Steady config s)
    (hnormal : Meets step StaysNormal s ops)
    (hpending : Meets step (fun s _ => s.pendingClass c = true) s ops) :
    List.Sublist (((history step s ops).map observe).filterMap Observation.deliveredClass)
      (upto c s.nextNormalEvent) := by
  induction ops generalizing s with
  | nil => exact nil_sublist _
  | cons op ops ih =>
    obtain ⟨hop, hnormal⟩ := hnormal
    obtain ⟨hwaits, hpending⟩ := hpending
    obtain ⟨hsteady, hmoves⟩ := h.step hop
    have hrest := ih hsteady hnormal hpending
    simp only [history_cons, map_cons]
    generalize observe (op, (step s op).2) = o at hmoves ⊢
    cases hmoves with
    | idle silent cursor burst =>
      have hnone : o.deliveredClass = none := by cases o <;> simp_all
      rw [cursor] at hrest
      rwa [filterMap_cons_none hnone]
    | batch none cursor burst fair =>
      rw [cursor] at hrest
      rwa [filterMap_cons_none none]
    | @normal k class_eq taken cursor order =>
      rw [filterMap_cons_some class_eq]
      refine List.Sublist.trans ?_ (order c hwaits)
      by_cases hk : k = c
      · -- The class is delivered, so it waits no longer and the window ends here.
        subst hk
        cases ops with
        | nil => exact (nil_sublist _).cons_cons _
        | cons next ops => cases taken.symm.trans hpending.1
      · rw [if_neg hk, ← cursor]
        exact hrest.cons_cons _

/-- **Fairness of the control channel.**  Take any window of a run that stays in the normal phase.
If a normal event waits throughout and none is delivered, at most `completion_burst_limit`
completions are.  If an event of class `c` waits throughout, no class is delivered twice. -/
theorem control_channel_fairness (config : ControlChannelConfig)
    (before window : List (Op PData Meta Value))
    (hnormal : Meets step StaysNormal (new config) (before ++ window)) :
    let s := final step (new config) before
    let os := (history step s window).map observe
    (Meets step (fun s _ => s.hasPendingNormalEvent = true) s window →
        (∀ o ∈ os, o.deliveredClass = none) →
        (os.flatMap Observation.deliveredCompletions).length ≤ config.completionBurstLimit) ∧
      ∀ c, Meets step (fun s _ => s.pendingClass c = true) s window →
        ∀ k, (os.filterMap Observation.deliveredClass).count k ≤ 1 := by
  intro s os
  obtain ⟨hbefore, hwindow⟩ := (meets_append step StaysNormal (new config) before window).mp
    hnormal
  have hsteady : Steady config s := final_invariant_of_meets (Steady config)
    (fun s op h hop => (h.step hop).1) ⟨rfl, rfl, _, new_refines config⟩ hbefore
  refine ⟨fun hpending hnone => ?_, fun c hpending k => ?_⟩
  · exact (completions_le hsteady hwindow hpending hnone).trans (Nat.sub_le _ _)
  · exact nodup_iff_count_le_one.mp
      ((classes_sublist hsteady hwindow hpending).nodup (upto_nodup c _)) k

end

/-- One event of each class and three completions. -/
def fullChannelRun : List (Op Unit Unit Unit) :=
  [.trySend 0 (.config ()), .trySend 0 .timerTick, .trySend 0 .collectTelemetry,
    .trySend 0 (.ack ⟨(), ()⟩), .trySend 0 (.ack ⟨(), ()⟩), .trySend 0 (.ack ⟨(), ()⟩)]

/-- The normal events wait while the two completions that the burst limit admits are delivered.
While the telemetry event waits, the other two are delivered once, although the configuration is
sent again. -/
theorem control_channel_fairness_tick :
    let config : ControlChannelConfig := ⟨4, 1, 2, by decide, by decide⟩
    let s := final step (new config) fullChannelRun
    let burst := (history step s [.popEvent 0, .popEvent 0]).map observe
    let turns := (history step s [.popEvent 0, .popEvent 0, .popEvent 0, .trySend 0 (.config ()),
      .popEvent 0, .popEvent 0]).map observe
    (burst.flatMap Observation.deliveredCompletions).length = 2 ∧
      (burst.flatMap Observation.deliveredCompletions).length ≤ config.completionBurstLimit ∧
      turns.filterMap Observation.deliveredClass = [.config, .timerTick] ∧
      ∀ k, (turns.filterMap Observation.deliveredClass).count k ≤ 1 := by
  intro config s burst turns
  have hburst := control_channel_fairness config fullChannelRun [.popEvent 0, .popEvent 0]
    (by simp only [fullChannelRun, cons_append, nil_append, Meets, StaysNormal]; decide)
  have hturns := control_channel_fairness config fullChannelRun [.popEvent 0, .popEvent 0,
      .popEvent 0, .trySend 0 (.config ()), .popEvent 0, .popEvent 0]
    (by simp only [fullChannelRun, cons_append, nil_append, Meets, StaysNormal]; decide)
  refine ⟨by decide, hburst.1 ?_ (by decide), by decide, hturns.2 .collectTelemetry ?_⟩
  · exact ⟨by decide, by decide, trivial⟩
  · exact ⟨by decide, by decide, by decide, by decide, by decide, by decide, trivial⟩

end OtapDataflow.ControlChannel
