import OtapDataflow.Lib.Word
import OtapDataflow.Lib.Machine

/-! # Control channel: configuration, commands and events

The public types of the control-aware channel.  Payloads, completion metadata and
configuration values are opaque to the queue core, so they stay type parameters
(`PData`, `Meta`, `Value`). -/

namespace OtapDataflow.ControlChannel

/-- A reading of the monotonic clock. -/
abbrev Instant := Nat

inductive Phase where
  | normal
  | ingressDrainRecorded
  | shutdownRecorded
  deriving DecidableEq, Repr

inductive AdmissionClass where
  | backpressured
  deriving DecidableEq, Repr

/-- Admission and fairness policy of one channel instance.  The numbers are of type `usize`. -/
structure ControlChannelConfig where
  completionMsgCapacity : Nat
  completionBatchMax : Nat
  completionBurstLimit : Nat
  capacity_lt : completionMsgCapacity < 2 ^ 64
  burstLimit_lt : completionBurstLimit < 2 ^ 64

inductive ConfigError where
  | zeroCompletionMsgCapacity
  | zeroCompletionBatchMax
  | completionBatchMaxExceedsCapacity
  | zeroCompletionBurstLimit
  deriving DecidableEq, Repr

namespace ControlChannelConfig

def validate (c : ControlChannelConfig) : Except ConfigError Unit :=
  if c.completionMsgCapacity = 0 then .error .zeroCompletionMsgCapacity
  else if c.completionBatchMax = 0 then .error .zeroCompletionBatchMax
  else if c.completionBatchMax > c.completionMsgCapacity then
    .error .completionBatchMaxExceedsCapacity
  else if c.completionBurstLimit = 0 then .error .zeroCompletionBurstLimit
  else .ok ()

end ControlChannelConfig

structure DrainIngressMsg where
  deadline : Instant
  reason : String
  deriving DecidableEq, Repr

structure ShutdownMsg where
  deadline : Instant
  reason : String
  deriving DecidableEq, Repr

structure AckMsg (PData Meta : Type) where
  accepted : PData
  metadata : Meta
  deriving DecidableEq, Repr

structure NackMsg (PData Meta : Type) where
  reason : String
  refused : PData
  metadata : Meta
  permanent : Bool
  deriving DecidableEq, Repr

inductive CompletionMsg (PData Meta : Type) where
  | ack (msg : AckMsg PData Meta)
  | nack (msg : NackMsg PData Meta)
  deriving DecidableEq, Repr

/-- Commands that go through bounded admission.  Lifecycle tokens are recorded by their
own operations and are not commands. -/
inductive ControlCmd (PData Meta Value : Type) where
  | ack (msg : AckMsg PData Meta)
  | nack (msg : NackMsg PData Meta)
  | config (config : Value)
  | timerTick
  | collectTelemetry
  deriving DecidableEq, Repr

inductive CoreControlEvent (PData Meta Value : Type) where
  | drainIngress (msg : DrainIngressMsg)
  | completionBatch (batch : List (CompletionMsg PData Meta))
  | config (config : Value)
  | timerTick
  | collectTelemetry
  | shutdown (msg : ShutdownMsg)
  deriving DecidableEq, Repr

inductive SendOutcome where
  | accepted
  | coalesced
  | replaced
  | droppedDuringDrain
  deriving DecidableEq, Repr

inductive LifecycleSendResult where
  | accepted
  | alreadyAccepted
  | closed
  deriving DecidableEq, Repr

inductive TrySendError (PData Meta Value : Type) where
  | closed (cmd : ControlCmd PData Meta Value)
  | full (admissionClass : AdmissionClass) (cmd : ControlCmd PData Meta Value)
  deriving DecidableEq, Repr

namespace CoreControlEvent

variable {PData Meta Value : Type}

/-- The completions an event carries. -/
@[simp] def completions : CoreControlEvent PData Meta Value → List (CompletionMsg PData Meta)
  | .completionBatch batch => batch
  | _ => []

/-- Config updates, timer ticks and telemetry requests are the normal events. -/
@[simp] def isNormal : CoreControlEvent PData Meta Value → Bool
  | .config _ | .timerTick | .collectTelemetry => true
  | _ => false

@[simp] def isDrainIngress : CoreControlEvent PData Meta Value → Bool
  | .drainIngress _ => true
  | _ => false

@[simp] def isShutdown : CoreControlEvent PData Meta Value → Bool
  | .shutdown _ => true
  | _ => false

end CoreControlEvent

/-! # Control channel: the queue core

The in-memory state machine that owns all pending control state and decides admission
and delivery order.  Operations that read the clock take the reading as an argument
`now`; nothing is assumed about successive readings. -/

open Word

/-- Delivery class of the round robin over normal control work. -/
inductive NormalEventClass where
  | config
  | timerTick
  | collectTelemetry
  deriving DecidableEq, Repr

def NormalEventClass.next : NormalEventClass → NormalEventClass
  | .config => .timerTick
  | .timerTick => .collectTelemetry
  | .collectTelemetry => .config

/-- The queue core of one channel instance. -/
structure Inner (PData Meta Value : Type) where
  config : ControlChannelConfig
  phase : Phase
  closed : Bool
  version : Nat
  drainIngress : Option DrainIngressMsg
  shutdown : Option ShutdownMsg
  shutdownDeadline : Option Instant
  drainIngressRecorded : Bool
  shutdownRecorded : Bool
  shutdownForced : Bool
  completion : List (CompletionMsg PData Meta)
  latestConfig : Option Value
  pendingTimerTick : Bool
  pendingCollectTelemetry : Bool
  completionBurstLen : Nat
  completionBatchEmittedTotal : Nat
  completionMessageEmittedTotal : Nat
  configReplacedTotal : Nat
  timerTickCoalescedTotal : Nat
  collectTelemetryCoalescedTotal : Nat
  normalEventDroppedDuringDrainTotal : Nat
  completionAbandonedOnForcedShutdownTotal : Nat
  nextNormalEvent : NormalEventClass

/-- Snapshot of queue occupancy, lifecycle flags and counters. -/
structure ControlChannelStats where
  phase : Phase
  drainIngressRecorded : Bool
  shutdownRecorded : Bool
  hasPendingDrainIngress : Bool
  hasPendingShutdown : Bool
  completionLen : Nat
  hasPendingConfig : Bool
  hasPendingTimerTick : Bool
  hasPendingCollectTelemetry : Bool
  completionBurstLen : Nat
  completionBatchEmittedTotal : Nat
  completionMessageEmittedTotal : Nat
  configReplacedTotal : Nat
  timerTickCoalescedTotal : Nat
  collectTelemetryCoalescedTotal : Nat
  normalEventDroppedDuringDrainTotal : Nat
  completionAbandonedOnForcedShutdownTotal : Nat
  shutdownForced : Bool
  closed : Bool
  deriving DecidableEq, Repr

namespace Inner

variable {PData Meta Value : Type}

def new (config : ControlChannelConfig) : Inner PData Meta Value where
  config := config
  phase := .normal
  closed := false
  version := 0
  drainIngress := none
  shutdown := none
  shutdownDeadline := none
  drainIngressRecorded := false
  shutdownRecorded := false
  shutdownForced := false
  completion := []
  latestConfig := none
  pendingTimerTick := false
  pendingCollectTelemetry := false
  completionBurstLen := 0
  completionBatchEmittedTotal := 0
  completionMessageEmittedTotal := 0
  configReplacedTotal := 0
  timerTickCoalescedTotal := 0
  collectTelemetryCoalescedTotal := 0
  normalEventDroppedDuringDrainTotal := 0
  completionAbandonedOnForcedShutdownTotal := 0
  nextNormalEvent := .config

variable (s : Inner PData Meta Value)

def stats : ControlChannelStats where
  phase := s.phase
  drainIngressRecorded := s.drainIngressRecorded
  shutdownRecorded := s.shutdownRecorded
  hasPendingDrainIngress := s.drainIngress.isSome
  hasPendingShutdown := s.shutdown.isSome
  completionLen := s.completion.length
  hasPendingConfig := s.latestConfig.isSome
  hasPendingTimerTick := s.pendingTimerTick
  hasPendingCollectTelemetry := s.pendingCollectTelemetry
  completionBurstLen := s.completionBurstLen
  completionBatchEmittedTotal := s.completionBatchEmittedTotal
  completionMessageEmittedTotal := s.completionMessageEmittedTotal
  configReplacedTotal := s.configReplacedTotal
  timerTickCoalescedTotal := s.timerTickCoalescedTotal
  collectTelemetryCoalescedTotal := s.collectTelemetryCoalescedTotal
  normalEventDroppedDuringDrainTotal := s.normalEventDroppedDuringDrainTotal
  completionAbandonedOnForcedShutdownTotal := s.completionAbandonedOnForcedShutdownTotal
  shutdownForced := s.shutdownForced
  closed := s.closed

def bumpVersion : Inner PData Meta Value :=
  { s with version := wrappingAdd s.version 1 }

def close : Inner PData Meta Value × Bool :=
  if s.closed then (s, false)
  else ({ s with closed := true }.bumpVersion, true)

/-- Flip into forced terminal progress once the shutdown deadline has passed. -/
def refreshShutdownForce (now : Instant) : Inner PData Meta Value :=
  if s.shutdownForced || s.phase != .shutdownRecorded then s
  else match s.shutdownDeadline with
    | some deadline =>
      if now ≥ deadline then { s with shutdownForced := true }.bumpVersion else s
    | none => s

/-- The guarded refresh at the head of `try_send`, `record_drain_ingress` and
`pop_event`. -/
def refreshIfShutdown (now : Instant) : Inner PData Meta Value :=
  if s.phase = .shutdownRecorded then s.refreshShutdownForce now else s

def pushCompletion (msg : CompletionMsg PData Meta) :
    Inner PData Meta Value × SendOutcome :=
  ({ s with completion := s.completion ++ [msg] }.bumpVersion, .accepted)

def sendConfig (config : Value) :
    Inner PData Meta Value × SendOutcome :=
  if s.phase ≠ .normal then
    ({ s with normalEventDroppedDuringDrainTotal :=
        saturatingAdd s.normalEventDroppedDuringDrainTotal 1 }, .droppedDuringDrain)
  else if s.latestConfig.isSome then
    ({ s with
        configReplacedTotal := saturatingAdd s.configReplacedTotal 1
        latestConfig := some config }.bumpVersion, .replaced)
  else ({ s with latestConfig := some config }.bumpVersion, .accepted)

def sendTimerTick : Inner PData Meta Value × SendOutcome :=
  if s.phase ≠ .normal then
    ({ s with normalEventDroppedDuringDrainTotal :=
        saturatingAdd s.normalEventDroppedDuringDrainTotal 1 }, .droppedDuringDrain)
  else if s.pendingTimerTick then
    ({ s with timerTickCoalescedTotal := saturatingAdd s.timerTickCoalescedTotal 1 },
      .coalesced)
  else ({ s with pendingTimerTick := true }.bumpVersion, .accepted)

def sendTelemetryTick : Inner PData Meta Value × SendOutcome :=
  if s.phase ≠ .normal then
    ({ s with normalEventDroppedDuringDrainTotal :=
        saturatingAdd s.normalEventDroppedDuringDrainTotal 1 }, .droppedDuringDrain)
  else if s.pendingCollectTelemetry then
    ({ s with
        collectTelemetryCoalescedTotal := saturatingAdd s.collectTelemetryCoalescedTotal 1 },
      .coalesced)
  else ({ s with pendingCollectTelemetry := true }.bumpVersion, .accepted)

/-- Bounded admission of a completion; `cmd` is what the caller gets back when the
backlog is full. -/
def sendCompletion (cmd : ControlCmd PData Meta Value)
    (msg : CompletionMsg PData Meta) :
    Inner PData Meta Value × Except (TrySendError PData Meta Value) SendOutcome :=
  if s.completion.length ≥ s.config.completionMsgCapacity then
    (s, .error (.full .backpressured cmd))
  else ((s.pushCompletion msg).1, .ok (s.pushCompletion msg).2)

def trySend (now : Instant) (cmd : ControlCmd PData Meta Value) :
    Inner PData Meta Value × Except (TrySendError PData Meta Value) SendOutcome :=
  let s := s.refreshIfShutdown now
  if s.closed || s.shutdownForced then (s, .error (.closed cmd))
  else match cmd with
    | .ack ack => s.sendCompletion cmd (.ack ack)
    | .nack nack => s.sendCompletion cmd (.nack nack)
    | .config config => ((s.sendConfig config).1, .ok (s.sendConfig config).2)
    | .timerTick => (s.sendTimerTick.1, .ok s.sendTimerTick.2)
    | .collectTelemetry => (s.sendTelemetryTick.1, .ok s.sendTelemetryTick.2)

def clearNormalPending : Inner PData Meta Value :=
  { s with
    latestConfig := none
    pendingTimerTick := false
    pendingCollectTelemetry := false
    completionBurstLen := 0 }

def recordDrainIngress (now : Instant) (msg : DrainIngressMsg) :
    Inner PData Meta Value × LifecycleSendResult :=
  let s := s.refreshIfShutdown now
  if s.closed then (s, .closed)
  else if s.drainIngressRecorded then (s, .alreadyAccepted)
  else if s.shutdownForced then (s, .closed)
  else
    let s := s.clearNormalPending
    ({ s with
        drainIngress := some msg
        drainIngressRecorded := true
        phase := if s.phase = Phase.normal then .ingressDrainRecorded else s.phase }.bumpVersion,
      .accepted)

def recordShutdown (now : Instant) (msg : ShutdownMsg) :
    Inner PData Meta Value × LifecycleSendResult :=
  if s.closed then (s, .closed)
  else if s.shutdownRecorded then (s, .alreadyAccepted)
  else
    let s := s.clearNormalPending
    let s := { s with
      shutdownDeadline := some msg.deadline
      shutdown := some msg
      shutdownRecorded := true
      phase := .shutdownRecorded }
    ((s.refreshShutdownForce now).bumpVersion, .accepted)

def hasPendingNormalEvent : Bool :=
  s.latestConfig.isSome || s.pendingTimerTick || s.pendingCollectTelemetry

/-- One round of the loop in `take_next_normal_event`: advance the cursor and take the
candidate if it is pending. -/
def takeCandidate :
    Inner PData Meta Value × Option (CoreControlEvent PData Meta Value) :=
  let candidate := s.nextNormalEvent
  let s := { s with nextNormalEvent := candidate.next }
  match candidate with
  | .config => ({ s with latestConfig := none }, s.latestConfig.map .config)
  | .timerTick =>
    if s.pendingTimerTick then ({ s with pendingTimerTick := false }, some .timerTick)
    else (s, none)
  | .collectTelemetry =>
    if s.pendingCollectTelemetry then
      ({ s with pendingCollectTelemetry := false }, some .collectTelemetry)
    else (s, none)

/-- The `for _ in 0..rounds` loop of `take_next_normal_event`. -/
def takeNextNormalEventLoop : Nat → Inner PData Meta Value →
    Inner PData Meta Value × Option (CoreControlEvent PData Meta Value)
  | 0, s => (s, none)
  | rounds + 1, s =>
    match s.takeCandidate with
    | (s, some event) => ({ s with completionBurstLen := 0 }.bumpVersion, some event)
    | (s, none) => takeNextNormalEventLoop rounds s

def takeNextNormalEvent :
    Inner PData Meta Value × Option (CoreControlEvent PData Meta Value) :=
  takeNextNormalEventLoop 3 s

/-- The size of the next completion batch. -/
def completionBatchLen (fairnessBudget : Option Nat) : Nat :=
  let batchLen := min s.completion.length s.config.completionBatchMax
  match fairnessBudget with
  | some limit => min batchLen (max limit 1)
  | none => batchLen

def takeCompletionBatch (fairnessBudget : Option Nat) :
    Inner PData Meta Value × CoreControlEvent PData Meta Value :=
  let batchLen := s.completionBatchLen fairnessBudget
  ({ s with
      completion := s.completion.drop batchLen
      completionBurstLen := saturatingAdd s.completionBurstLen batchLen
      completionBatchEmittedTotal := saturatingAdd s.completionBatchEmittedTotal 1
      completionMessageEmittedTotal :=
        saturatingAdd s.completionMessageEmittedTotal batchLen }.bumpVersion,
    .completionBatch (s.completion.take batchLen))

def finalizeShutdown (forced : Bool) :
    Inner PData Meta Value × Option (CoreControlEvent PData Meta Value) :=
  match s.shutdown with
  | none => (s, none)
  | some msg =>
    let s := { s with shutdown := none }
    let s := if forced then
      { s with
        completionAbandonedOnForcedShutdownTotal :=
          saturatingAdd s.completionAbandonedOnForcedShutdownTotal s.completion.length
        completion := [] }
      else s
    let s := s.clearNormalPending
    ({ s with shutdownDeadline := none, closed := true }.bumpVersion, some (.shutdown msg))

/-- `take_completion_batch` wrapped in `Some`. -/
def emitBatch (fairnessBudget : Option Nat) :
    Inner PData Meta Value × Option (CoreControlEvent PData Meta Value) :=
  ((s.takeCompletionBatch fairnessBudget).1, some (s.takeCompletionBatch fairnessBudget).2)

/-- The part of `pop_event` that runs in `Phase::Normal`: bounded alternation between
completion batches and round-robin normal events. -/
def popNormal :
    Inner PData Meta Value × Option (CoreControlEvent PData Meta Value) :=
  if !s.hasPendingNormalEvent then
    if s.completion ≠ [] then s.emitBatch none else (s, none)
  else
    -- `take_next_normal_event` runs in the guard, so its effect stays even when it
    -- yields nothing and control falls through to the batch.
    let (s, forcedEvent) :=
      if s.completionBurstLen ≥ s.config.completionBurstLimit then s.takeNextNormalEvent
      else (s, none)
    match forcedEvent with
    | some event => (s, some event)
    | none =>
      if s.completion ≠ [] then
        s.emitBatch (some (s.config.completionBurstLimit - s.completionBurstLen))
      else s.takeNextNormalEvent

def popEvent (now : Instant) :
    Inner PData Meta Value × Option (CoreControlEvent PData Meta Value) :=
  let s := s.refreshIfShutdown now
  match s.drainIngress with
  | some msg =>
    ({ s with drainIngress := none, completionBurstLen := 0 }.bumpVersion,
      some (.drainIngress msg))
  | none =>
    match s.phase with
    | .shutdownRecorded =>
      if s.shutdownForced then s.finalizeShutdown true
      else if s.completion ≠ [] then s.emitBatch none
      else s.finalizeShutdown false
    | .ingressDrainRecorded =>
      if s.completion ≠ [] then s.emitBatch none else (s, none)
    | .normal => s.popNormal

end Inner

/-- The operations of the queue core; those that read the clock carry the reading. -/
inductive Op (PData Meta Value : Type) where
  | trySend (now : Instant) (cmd : ControlCmd PData Meta Value)
  | recordDrainIngress (now : Instant) (msg : DrainIngressMsg)
  | recordShutdown (now : Instant) (msg : ShutdownMsg)
  | close
  | popEvent (now : Instant)

/-- What an operation returns. -/
inductive Ret (PData Meta Value : Type) where
  | send (result : Except (TrySendError PData Meta Value) SendOutcome)
  | lifecycle (result : LifecycleSendResult)
  | closed (first : Bool)
  | event (event : Option (CoreControlEvent PData Meta Value))

variable {PData Meta Value : Type}

/-- One operation on the queue core. -/
def step (s : Inner PData Meta Value) : Op PData Meta Value →
    Inner PData Meta Value × Ret PData Meta Value
  | .trySend now cmd => ((s.trySend now cmd).1, .send (s.trySend now cmd).2)
  | .recordDrainIngress now msg =>
    ((s.recordDrainIngress now msg).1, .lifecycle (s.recordDrainIngress now msg).2)
  | .recordShutdown now msg =>
    ((s.recordShutdown now msg).1, .lifecycle (s.recordShutdown now msg).2)
  | .close => (s.close.1, .closed s.close.2)
  | .popEvent now => ((s.popEvent now).1, .event (s.popEvent now).2)

/-! # Control channel: the delivery protocol

What the queue core is for, without its scheduling: a bounded FIFO of completions, two
lifecycle tokens that go from unrecorded to pending to delivered, and a closed flag.
Normal events carry no state here; the only thing the protocol says about them is when
they may still be delivered.

The queue core simulates this protocol in `OtapDataflow.ControlChannel.Delivery`; the
laws below are proved of the protocol alone. -/

open Transition

/-- What one call on the queue core shows to the outside. -/
inductive Observation (PData Meta Value : Type) where
  | accepted (msg : CompletionMsg PData Meta)
  | drainRecorded
  | shutdownRecorded
  | delivered (event : CoreControlEvent PData Meta Value)
  | silent

namespace Observation

@[simp] def acceptedCompletions : Observation PData Meta Value → List (CompletionMsg PData Meta)
  | .accepted msg => [msg]
  | _ => []

@[simp] def deliveredCompletions : Observation PData Meta Value → List (CompletionMsg PData Meta)
  | .delivered event => event.completions
  | _ => []

@[simp] def isDelivery : Observation PData Meta Value → Bool
  | .delivered _ => true
  | _ => false

@[simp] def isNormalDelivery : Observation PData Meta Value → Bool
  | .delivered event => event.isNormal
  | _ => false

@[simp] def isDrainDelivery : Observation PData Meta Value → Bool
  | .delivered event => event.isDrainIngress
  | _ => false

@[simp] def isShutdownDelivery : Observation PData Meta Value → Bool
  | .delivered event => event.isShutdown
  | _ => false

/-- A lifecycle token has just been recorded. -/
@[simp] def recordsLifecycle : Observation PData Meta Value → Bool
  | .drainRecorded | .shutdownRecorded => true
  | _ => false

end Observation

/-- The life of a lifecycle token. -/
inductive Token where
  | unrecorded
  | pending
  | delivered
  deriving DecidableEq, Repr

/-- State of the delivery protocol.  `abandoned` lists the completions that a forced
shutdown threw away. -/
structure Protocol (PData Meta : Type) where
  capacity : Nat
  pending : List (CompletionMsg PData Meta)
  abandoned : List (CompletionMsg PData Meta)
  drain : Token
  shutdown : Token
  closed : Bool

variable {pre post os : List (Observation PData Meta Value)}

namespace Protocol

def start (capacity : Nat) : Protocol PData Meta where
  capacity := capacity
  pending := []
  abandoned := []
  drain := .unrecorded
  shutdown := .unrecorded
  closed := false

inductive Step : Protocol PData Meta → Observation PData Meta Value → Protocol PData Meta → Prop
  | accept {q : Protocol PData Meta} {msg : CompletionMsg PData Meta} (hopen : q.closed = false)
      (hroom : q.pending.length < q.capacity) :
      Step q (.accepted msg) { q with pending := q.pending ++ [msg] }
  | recordDrain {q : Protocol PData Meta} (hopen : q.closed = false)
      (hdrain : q.drain = .unrecorded) :
      Step q .drainRecorded { q with drain := .pending }
  | recordShutdown {q : Protocol PData Meta} (hopen : q.closed = false)
      (hshut : q.shutdown = .unrecorded) :
      Step q .shutdownRecorded { q with shutdown := .pending }
  | deliverDrain {q : Protocol PData Meta} {msg : DrainIngressMsg} (hdrain : q.drain = .pending) :
      Step q (.delivered (.drainIngress msg)) { q with drain := .delivered }
  | deliverBatch {q : Protocol PData Meta} {batch rest : List (CompletionMsg PData Meta)}
      (hne : q.pending ≠ []) (hsplit : q.pending = batch ++ rest) :
      Step q (.delivered (.completionBatch batch)) { q with pending := rest }
  | deliverNormal {q : Protocol PData Meta} {event : CoreControlEvent PData Meta Value}
      (hnormal : event.isNormal = true) (hdrain : q.drain = .unrecorded)
      (hshut : q.shutdown = .unrecorded) :
      Step q (.delivered event) q
  | deliverShutdown {q : Protocol PData Meta} {msg : ShutdownMsg} (hdrain : q.drain ≠ .pending)
      (hshut : q.shutdown = .pending) :
      Step q (.delivered (.shutdown msg))
        { q with
          pending := []
          abandoned := q.pending
          shutdown := .delivered
          closed := true }
  | silent {q : Protocol PData Meta} {closed : Bool} (hclosed : q.closed = true → closed = true) :
      Step q .silent { q with closed := closed }

/-- What a protocol state remembers about its past. -/
structure Inv (q : Protocol PData Meta) (past : List (Observation PData Meta Value)) : Prop where
  conserved : past.flatMap Observation.acceptedCompletions =
    past.flatMap Observation.deliveredCompletions ++ q.pending ++ q.abandoned
  bounded : q.pending.length ≤ q.capacity
  drain_count : past.countP Observation.isDrainDelivery = if q.drain = .delivered then 1 else 0
  shutdown_count : past.countP Observation.isShutdownDelivery =
    if q.shutdown = .delivered then 1 else 0
  kept : q.shutdown ≠ .delivered → q.abandoned = []
  finished : q.shutdown = .delivered → q.closed = true ∧ q.pending = [] ∧ q.drain ≠ .pending

theorem start_inv (capacity : Nat) :
    Inv (start capacity : Protocol PData Meta) ([] : List (Observation PData Meta Value)) where
  conserved := rfl
  bounded := Nat.zero_le _
  drain_count := rfl
  shutdown_count := rfl
  kept := fun _ => rfl
  finished := fun h => by cases h

variable {q q' : Protocol PData Meta} {o : Observation PData Meta Value}

theorem step_inv {past : List (Observation PData Meta Value)} (h : Inv q past) (hs : Step q o q') :
    Inv q' (past ++ [o]) := by
  have ⟨hcons, hbound, hdrain, hshut, hkept, hfin⟩ := h
  -- while the channel is open, `Shutdown` has not been delivered
  have hlive : q.closed = false → q.shutdown ≠ .delivered := by
    intro hopen hd
    simp [hopen] at hfin
    exact hfin hd
  cases hs with
  | accept hopen hroom =>
    refine ⟨?_, ?_, by simpa using hdrain, by simpa using hshut, hkept,
      fun hd => absurd hd (hlive hopen)⟩
    · simp [hcons, hkept (hlive hopen)]
    · rw [List.length_append]
      exact hroom
  | recordDrain hopen hunrec =>
    refine ⟨by simpa using hcons, hbound, ?_, by simpa using hshut, hkept,
      fun hd => absurd hd (hlive hopen)⟩
    simpa [hunrec] using hdrain
  | recordShutdown hopen hunrec =>
    refine ⟨by simpa using hcons, hbound, by simpa using hdrain, ?_,
      fun _ => hkept (hlive hopen), fun hd => by cases hd⟩
    simpa [hunrec] using hshut
  | deliverDrain hpend =>
    refine ⟨by simpa using hcons, hbound, ?_, by simpa using hshut, hkept,
      fun hd => ⟨(hfin hd).1, (hfin hd).2.1, by simp⟩⟩
    simpa [hpend] using hdrain
  | deliverBatch hne hsplit =>
    refine ⟨?_, ?_, by simpa using hdrain, by simpa using hshut, hkept,
      fun hd => absurd (hfin hd).2.1 hne⟩
    · simpa [hsplit] using hcons
    · rw [hsplit, List.length_append] at hbound
      exact le_trans (Nat.le_add_left _ _) hbound
  | @deliverNormal event hnormal =>
    cases event with
    | config _ | timerTick | collectTelemetry =>
      exact ⟨by simpa using hcons, hbound, by simpa using hdrain, by simpa using hshut, hkept, hfin⟩
    | drainIngress _ | completionBatch _ | shutdown _ => cases hnormal
  | deliverShutdown hd hpend =>
    have hab : q.abandoned = [] := hkept (by simp [hpend])
    refine ⟨?_, Nat.zero_le _, by simpa using hdrain, ?_, fun hn => absurd rfl hn,
      fun _ => ⟨rfl, rfl, hd⟩⟩
    · simpa [hab] using hcons
    · simpa [hpend] using hshut
  | silent hclosed =>
    exact ⟨by simpa using hcons, hbound, by simpa using hdrain, by simpa using hshut, hkept,
      fun hd => ⟨hclosed (hfin hd).1, (hfin hd).2⟩⟩

/-- The protocol's bookkeeping holds along every trace from the start. -/
theorem trace_inv {capacity : Nat} (ht : Trace Step (start capacity) os q) : Inv q os :=
  ht.invariant Inv (fun _ _ _ _ => step_inv) (start_inv capacity)

theorem trace_capacity {capacity : Nat}
    (ht : Trace Step (start capacity) os q) : q.capacity = capacity := by
  refine ht.invariant (fun q _ => q.capacity = capacity) ?_ rfl
  intro q o q' _ h hs
  cases hs <;> exact h

/-! ## What a state rules out for the rest of the run -/

/-- A lifecycle token has been recorded. -/
def Draining (q : Protocol PData Meta) : Prop := q.drain ≠ .unrecorded ∨ q.shutdown ≠ .unrecorded

/-- `Shutdown` has been delivered and nothing is left to deliver. -/
def Finished (q : Protocol PData Meta) : Prop :=
  q.shutdown = .delivered ∧ q.closed = true ∧ q.pending = [] ∧ q.drain ≠ .pending

theorem step_draining (h : Draining q) (hs : Step q o q') :
    Draining q' ∧ o.isNormalDelivery = false := by
  cases hs with
  | deliverNormal _ hd hs => rcases h with h | h <;> contradiction
  | recordDrain | deliverDrain => exact ⟨.inl (by simp), rfl⟩
  | recordShutdown | deliverShutdown => exact ⟨.inr (by simp), rfl⟩
  | accept | deliverBatch | silent => exact ⟨h, rfl⟩

theorem step_finished (h : Finished q) (hs : Step q o q') : Finished q' ∧ o.isDelivery = false := by
  obtain ⟨hshut, hclosed, hpend, hdrain⟩ := h
  cases hs with
  | accept hopen | recordDrain hopen | recordShutdown hopen => simp [hclosed] at hopen
  | deliverDrain | deliverBatch => contradiction
  | deliverNormal _ _ hs => simp [hshut] at hs
  | deliverShutdown _ hs => simp [hshut] at hs
  | silent hc => exact ⟨⟨hshut, hc hclosed, hpend, hdrain⟩, rfl⟩

/-- No normal event is delivered once a lifecycle token has been recorded. -/
theorem no_normal_after_lifecycle
    (ho : o.recordsLifecycle = true) (ht : Trace Step q (pre ++ o :: post) q') :
    ∀ p ∈ post, p.isNormalDelivery = false := by
  obtain ⟨q₁, -, h₁⟩ := ht.split
  cases h₁ with
  | cons hs hrest =>
    refine hrest.forall_labels Draining (fun _ _ _ => step_draining) ?_
    cases hs with
    | recordDrain => exact .inl (by simp)
    | recordShutdown => exact .inr (by simp)
    | _ => cases ho

/-- Nothing at all is delivered after `Shutdown`. -/
theorem nothing_after_shutdown
    (ho : o.isShutdownDelivery = true) (ht : Trace Step q (pre ++ o :: post) q') :
    ∀ p ∈ post, p.isDelivery = false := by
  obtain ⟨q₁, -, h₁⟩ := ht.split
  cases h₁ with
  | cons hs hrest =>
    refine hrest.forall_labels Finished (fun _ _ _ => step_finished) ?_
    cases hs with
    | deliverShutdown hd _ => exact ⟨rfl, rfl, rfl, hd⟩
    | @deliverNormal event hn => cases event <;> simp at hn ho
    | _ => cases ho

end Protocol

end OtapDataflow.ControlChannel
