import Mathlib

/-! # Control messages of a pipeline node

What the nodes of a pipeline say to each other about data: a message was accepted, or it was
refused.  A node that wants to hear about a message subscribes to it with call data of its own
choice, and the reply brings the call data back. -/

namespace OtapDataflow.Node

/-- Call data: the words a node attached to its subscription. -/
abbrev CallData := List Nat

inductive NackCause
  | unspecified
  | refused
  deriving DecidableEq, Repr

/-- What a refusal says, the refused data apart. -/
structure Refusal where
  reason : String
  permanent : Bool
  cause : NackCause
  deriving DecidableEq, Repr

/-- A refusal after which the sender may try again. -/
def Refusal.new (reason : String) : Refusal := ⟨reason, false, .unspecified⟩

def Refusal.newPermanent (reason : String) : Refusal := ⟨reason, true, .unspecified⟩

/-! # Messages of a processor

What a processor that tracks completions takes in and puts out.  A request is known by its number,
in the order of arrival, so that everything a processor does for it can be told apart from what it
does for others.  The payload type is a parameter. -/

inductive SignalType
  | logs
  | metrics
  | traces
  deriving DecidableEq, Repr

/-- The context of a request: its number, whether completion tracking is needed, and the peer that
sent it. -/
structure Context where
  request : Nat
  needsCompletionTracking : Bool
  peerAddr : Option Nat
  deriving DecidableEq, Repr

/-- Who hears about an output: the senders of a request that is forwarded as it is, the processor
itself, or nobody. -/
inductive Delivery
  | forwarded (ctx : Context)
  | subscribed (callData : CallData)
  | unsubscribed
  deriving DecidableEq, Repr

structure Sent (P : Type) where
  payload : P
  delivery : Delivery
  peerAddr : Option Nat
  deriving DecidableEq, Repr

/-- What a processor does.  An outcome returns the data of the request, or an empty payload. -/
inductive Effect (P : Type)
  | notifyAck (ctx : Context) (accepted : Option P)
  | notifyNack (ctx : Context) (refused : Option P) (refusal : Refusal)
  | sendMessage (message : Sent P)
  | setWakeup (slot time : Nat)
  | cancelWakeup (slot : Nat)
  deriving DecidableEq, Repr

/-- What ends a node. -/
inductive EngineError
  | processorError (error : String)
  | internalError (message : String)
  | codecError (error : String)
  | panic (message : String)
  deriving DecidableEq, Repr

/-- What handling a message comes to. -/
structure Handled (σ P : Type) where
  state : σ
  effects : List (Effect P)
  error : Option EngineError

variable {P : Type}

/-- Call data of a message that the processor subscribed to. -/
def Sent.callData? (message : Sent P) : Option CallData :=
  match message.delivery with
  | .subscribed callData => some callData
  | _ => none

/-- The request that a message forwards. -/
def Sent.forwarded? (message : Sent P) : Option Nat :=
  match message.delivery with
  | .forwarded ctx => some ctx.request
  | _ => none

/-! ## Peers -/

inductive PeerAddrMerger
  | empty
  | single (addr : Nat)
  | poisoned

def PeerAddrMerger.push : PeerAddrMerger → Option Nat → PeerAddrMerger
  | .empty, none => .poisoned
  | .empty, some addr => .single addr
  | .single _, none => .poisoned
  | .single existing, some addr => if existing = addr then .single existing else .poisoned
  | .poisoned, _ => .poisoned

def PeerAddrMerger.finish : PeerAddrMerger → Option Nat
  | .single addr => some addr
  | .empty => none
  | .poisoned => none

/-! ## Outcomes -/

inductive Outcome
  | ack
  | nack (refusal : Refusal)
  deriving DecidableEq, Repr

/-- A message that was sent, and the reply to it. -/
structure Output (P : Type) where
  message : Sent P
  reply : Option Outcome

def Effect.sent? : Effect P → Option (Sent P)
  | .sendMessage message => some message
  | _ => none

def Effect.outcome? : Effect P → Option (Nat × Outcome)
  | .notifyAck ctx _ => some (ctx.request, .ack)
  | .notifyNack ctx _ refusal => some (ctx.request, .nack refusal)
  | _ => none

/-! # A processor in a pipeline

The processor runs between the senders of requests and the node that takes its outputs.  `System` is
the processor together with what passed between them: the requests so far, numbered in the order of
their arrival, the outputs with the replies that they got, and the outcomes that the senders were
told.

An output that forwards a request as it is carries the context of the request, so that the reply to
it goes to the senders and not to the processor.

The engine shuts a node down in two steps.  It first latches the shutdown: the scheduler of wakeups
takes no more of them, while the data that is in the channel already is still delivered.  The
shutdown message follows when the channel is empty.  An error of the processor ends the node. -/

/-- What a processor meets with; `D` is what a request brings, and `W` what a wakeup says. -/
inductive Event (D W : Type)
  | request (tracked : Bool) (peerAddr : Option Nat) (data : D)
  | reply (output : Nat) (outcome : Outcome)
  | wakeup (data : W)
  | latchShutdown
  | shutdown
  | otherControl

structure System (σ P : Type) where
  proc : σ
  /-- For each request whether it is tracked. -/
  requests : List Bool
  outputs : List (Output P)
  outcomes : List (Nat × Outcome)
  failed : Option EngineError

namespace System

variable {σ Q : Type}

def init (proc : σ) : System σ P := ⟨proc, [], [], [], none⟩

/-- Take in what handling a message came to; `trace` says how the messages are noted. -/
def record (s : System σ P) (trace : Sent Q → Sent P) (handled : Handled σ Q) : System σ P :=
  { s with
    proc := handled.state
    outputs := s.outputs ++
      (handled.effects.filterMap Effect.sent?).map fun message => ⟨trace message, none⟩
    outcomes := s.outcomes ++ handled.effects.filterMap Effect.outcome?
    failed := handled.error }

/-- The output has got its reply. -/
def answer (s : System σ P) (index : Nat) (outcome : Outcome) : System σ P :=
  { s with outputs := s.outputs.modify index fun output => { output with reply := some outcome } }

end System

/-! # Outcomes and replies

The outcomes that the senders of requests were told, and the outputs that wait for a reply. -/

open List

variable {up : List (Nat × Outcome)} {r : Nat} {o : Outcome}

/-! ## Outcomes of a request -/

def Noted (up : List (Nat × Outcome)) (r : Nat) : Prop := r ∈ up.map Prod.fst

def Nacked (up : List (Nat × Outcome)) (r : Nat) : Prop := ∃ refusal, (r, .nack refusal) ∈ up

/-- The outcomes of one request. -/
def outcomesOf (up : List (Nat × Outcome)) (r : Nat) : List Outcome :=
  up.filterMap fun e => if e.1 = r then some e.2 else none

theorem Nacked.append (h : Nacked up r) (more : List (Nat × Outcome)) : Nacked (up ++ more) r :=
  let ⟨refusal, hmem⟩ := h
  ⟨refusal, mem_append_left _ hmem⟩

theorem Noted.append (h : Noted up r) (more : List (Nat × Outcome)) : Noted (up ++ more) r := by
  rw [Noted, map_append]
  exact mem_append_left _ h

theorem mem_outcomesOf : o ∈ outcomesOf up r ↔ (r, o) ∈ up := by
  simp only [outcomesOf, mem_filterMap, Option.ite_none_right_eq_some, Option.some.injEq,
    Prod.exists]
  constructor
  · rintro ⟨r', o', hmem, rfl, rfl⟩
    exact hmem
  · intro hmem
    exact ⟨r, o, hmem, rfl, rfl⟩

theorem outcomesOf_eq_nil : outcomesOf up r = [] ↔ ¬Noted up r := by
  rw [eq_nil_iff_forall_not_mem, Noted, mem_map]
  simp [mem_outcomesOf]

theorem length_outcomesOf_le (h : (up.map Prod.fst).Nodup) : (outcomesOf up r).length ≤ 1 := by
  have hlength : (outcomesOf up r).length = (up.map Prod.fst).count r := by
    rw [outcomesOf, length_filterMap_eq_countP, count_eq_countP, countP_map]
    refine countP_congr fun e _ => ?_
    by_cases he : e.1 = r <;> simp [he]
  rw [hlength]
  exact nodup_iff_count_le_one.mp h r

/-- One outcome for each request: who is acked is not nacked. -/
theorem not_nacked_of_acked (h : (up.map Prod.fst).Nodup) (hack : (r, .ack) ∈ up) :
    ¬Nacked up r := by
  rintro ⟨refusal, hnack⟩
  have := inj_on_of_nodup_map h hack hnack rfl
  cases this

/-! ## Outputs that wait for their reply -/

def unansweredOf (outputs : List (Output P)) : List (Sent P) :=
  outputs.filterMap fun output => if output.reply.isNone then some output.message else none

theorem mem_unansweredOf {outputs : List (Output P)} {m : Sent P} :
    m ∈ unansweredOf outputs ↔ ∃ output ∈ outputs, output.reply = none ∧ output.message = m := by
  simp [unansweredOf]

theorem unansweredOf_append (outputs outputs' : List (Output P)) :
    unansweredOf (outputs ++ outputs') = unansweredOf outputs ++ unansweredOf outputs' :=
  filterMap_append

theorem unansweredOf_fresh (messages : List (Sent P)) :
    unansweredOf (messages.map fun message => ⟨message, none⟩) = messages := by
  rw [unansweredOf, filterMap_map]
  exact filterMap_some

variable {output : Output P}

theorem unansweredOf_split {pre post : List (Output P)} (h : output.reply = none) :
    unansweredOf (pre ++ output :: post) =
      unansweredOf pre ++ output.message :: unansweredOf post := by
  simp [unansweredOf, h]

theorem unansweredOf_answered {pre post : List (Output P)} (outcome : Outcome) :
    unansweredOf (pre ++ { output with reply := some outcome } :: post) =
      unansweredOf pre ++ unansweredOf post := by
  simp [unansweredOf]

/-- The outputs before and after one of them, and the same when it has got its reply. -/
theorem answer_split {outputs : List (Output P)} {index : Nat} (h : outputs[index]? = some output) :
    ∃ pre post, outputs = pre ++ output :: post ∧ ∀ outcome,
      (outputs.modify index fun output => { output with reply := some outcome }) =
        pre ++ { output with reply := some outcome } :: post := by
  obtain ⟨hlt, hget⟩ := List.getElem?_eq_some_iff.mp h
  refine ⟨outputs.take index, outputs.drop (index + 1), ?_, fun outcome => ?_⟩
  · rw [← hget, List.cons_getElem_drop_succ, List.take_append_drop]
  · rw [List.modify_eq_take_cons_drop hlt, hget]

end OtapDataflow.Node
