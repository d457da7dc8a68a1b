import OtapDataflow.Lib.Codec
import OtapDataflow.Lib.Bitmap
import OtapDataflow.Lib.OrdMap
import OtapDataflow.Lib.Word
import OtapDataflow.Lib.Machine
import OtapDataflow.Node.Message

/-! # Configuration of the fan-out processor

A destination is reached through an output port.  A destination that declares `fallback_for` is
held in reserve until the destination it names has failed; destinations without it are *origins*.
Validation resolves every destination to the origin of its chain and records for every destination
which one, if any, takes over from it.

**`valid_of_validate`**: what validation lets through is a set of disjoint chains.  Every
destination is reached from its origin by following fallbacks, and no step of it is ambiguous. -/

namespace OtapDataflow.Fanout

open Codec List

abbrev PortName := String

inductive DeliveryMode
  | parallel
  | sequential
  deriving DecidableEq, Repr

inductive AwaitAck
  | primary
  | all
  | none
  deriving DecidableEq, Repr

structure DestinationConfig where
  port : PortName
  primary : Bool := false
  timeout : Option Nat := none
  fallbackFor : Option PortName := none
  deriving DecidableEq, Repr

/-- Durations are in nanoseconds. -/
structure FanoutConfig where
  mode : DeliveryMode := .parallel
  awaitAck : AwaitAck := .primary
  destinations : List DestinationConfig := []
  timeoutCheckInterval : Nat := 200000000
  maxInflight : Nat := 10000
  deriving DecidableEq, Repr

abbrev ConfigError := String

structure ValidatedConfig where
  mode : DeliveryMode
  awaitAck : AwaitAck
  destinations : List DestinationConfig
  primaryIndex : Nat
  origins : List Nat
  fallbackForDest : List (Option Nat)
  timeoutCheckInterval : Nat
  maxInflight : Nat
  useFireAndForget : Bool
  useSlimPrimary : Bool
  deriving DecidableEq, Repr

open ValidatedConfig

/-! ## Validation -/

/-- The first destination is primary if none says that it is. -/
def defaultPrimary : List DestinationConfig → List DestinationConfig
  | [] => []
  | first :: rest =>
    if (first :: rest).any (·.primary) then first :: rest
    else { first with primary := true } :: rest

/-- `port_index`, a map from ports to the indices of their destinations. -/
abbrev PortIndex := List (PortName × Nat)

/-- The checks on one destination, in the loop that builds the port index. -/
def checkDestination (outputs : List PortName) (destinations : List DestinationConfig)
    (primarySeen : Bool) (index : PortIndex) (dest : DestinationConfig) :
    Except ConfigError Unit := do
  ensure (dest.port ∈ outputs) s!"fanout: unknown output `{dest.port}`"
  ensure (index.lookup dest.port = none) s!"fanout: duplicate destination port `{dest.port}`"
  ensure (dest.primary → dest.fallbackFor = none)
    s!"fanout: primary destination `{dest.port}` cannot also be a fallback"
  ensure (dest.primary → primarySeen = false) "fanout: only one primary destination is allowed"
  match dest.fallbackFor with
  | none => pure ()
  | some fb =>
    ensure (destinations.any (·.port = fb))
      s!"fanout: fallback_for `{fb}` does not reference a configured destination"

def indexPorts (outputs : List PortName) (destinations : List DestinationConfig) :
    List DestinationConfig → Nat → Bool → PortIndex → Except ConfigError PortIndex
  | [], _, _, index => pure index
  | dest :: rest, idx, primarySeen, index => do
    checkDestination outputs destinations primarySeen index dest
    indexPorts outputs destinations rest (idx + 1) (primarySeen || dest.primary)
      ((dest.port, idx) :: index)

def findPrimary (destinations : List DestinationConfig) : Except ConfigError Nat :=
  match destinations.findIdx? (·.primary) with
  | none => throw "fanout: missing primary destination"
  | some i => pure i

/-- Follow `fallback_for` from `current` to a destination without one.  A round either ends the
walk or adds an index to `seen`, so that the walk ends within one round more than there are
destinations, which is the number of rounds it is given. -/
def resolveOrigin (destinations : List DestinationConfig) (index : PortIndex) :
    Nat → List Nat → Nat → Except ConfigError Nat
  | 0, _, _ => throw "fanout: fallback cycle detected"
  | rounds + 1, seen, current => do
    ensure (current ∉ seen) "fanout: fallback cycle detected"
    match destinations[current]?.bind (·.fallbackFor) with
    | none => pure current
    | some fb =>
      match index.lookup fb with
      | none => throw s!"fanout: fallback_for `{fb}` not found"
      | some next => resolveOrigin destinations index rounds (current :: seen) next

/-- The immediate fallback of every destination. -/
def linkFallbacks (index : PortIndex) :
    List DestinationConfig → Nat → List (Option Nat) → Except ConfigError (List (Option Nat))
  | [], _, links => pure links
  | dest :: rest, fbIdx, links =>
    match dest.fallbackFor with
    | none => linkFallbacks index rest (fbIdx + 1) links
    | some port =>
      match index.lookup port with
      | none => linkFallbacks index rest (fbIdx + 1) links
      | some originIdx =>
        if links[originIdx]?.join.isSome then
          throw s!"fanout: multiple fallbacks declared for port `{port}`"
        else linkFallbacks index rest (fbIdx + 1) (links.set originIdx (some fbIdx))

def FanoutConfig.validate (config : FanoutConfig) (outputs : List PortName) :
    Except ConfigError ValidatedConfig := do
  ensure (config.destinations ≠ []) "fanout: at least one destination is required"
  ensure (config.destinations.length ≤ 64)
    s!"fanout: at most 64 destinations supported, got {config.destinations.length}"
  let destinations := defaultPrimary config.destinations
  let index ← indexPorts outputs destinations destinations 0 false []
  let primaryIndex ← findPrimary destinations
  let origins ← (range destinations.length).mapM
    (resolveOrigin destinations index (destinations.length + 1) [])
  let fallbackForDest ← linkFallbacks index destinations 0
    (replicate destinations.length none)
  let hasAnyFallback := destinations.any (·.fallbackFor.isSome)
  let hasAnyTimeout := destinations.any (·.timeout.isSome)
  ensure (¬(config.awaitAck = .none ∧ hasAnyFallback))
    "fanout: fallback destinations are incompatible with await_ack: none (fire-and-forget mode ignores fallbacks)"
  ensure (¬(config.awaitAck = .none ∧ hasAnyTimeout))
    "fanout: timeouts are incompatible with await_ack: none (fire-and-forget mode does not track responses)"
  pure {
    mode := config.mode
    awaitAck := config.awaitAck
    destinations
    primaryIndex
    origins
    fallbackForDest
    timeoutCheckInterval := config.timeoutCheckInterval
    maxInflight := config.maxInflight
    useFireAndForget := config.awaitAck = .none
    useSlimPrimary := config.mode = .parallel && config.awaitAck = .primary && !hasAnyFallback &&
      !hasAnyTimeout }

/-! ## What validation establishes -/

namespace ValidatedConfig

variable (v : ValidatedConfig)

def count : Nat := v.destinations.length

def isFallback (i : Nat) : Bool := (v.destinations[i]?.bind (·.fallbackFor)).isSome

/-- The origin of the chain that destination `i` belongs to. -/
def origin (i : Nat) : Nat := v.origins.getD i 0

/-- `i` takes over when `j` fails. -/
def Follows (j i : Nat) : Prop := v.fallbackForDest[j]?.join = some i
  deriving Decidable

/-- In sequential mode a fallback is listed behind the origin of its chain, unless this is the
origin that the sequence begins with. -/
def ReservesBehind : Prop :=
  v.mode = .sequential → ∀ i, v.isFallback i = true →
    v.origin i < i ∨ ∀ c < v.origin i, v.isFallback c = true

/-- Destinations form disjoint chains, each of them hanging off an origin. -/
structure Valid : Prop where
  count_le : v.count ≤ 64
  primary_lt : v.primaryIndex < v.count
  primary_origin : v.isFallback v.primaryIndex = false
  follows_lt : ∀ {j i}, v.Follows j i → j < v.count ∧ i < v.count
  follows_fallback : ∀ {j i}, v.Follows j i → v.isFallback i = true
  follows_of_fallback : ∀ {i}, v.isFallback i = true → ∃ j, v.Follows j i
  follows_left : ∀ {j j' i}, v.Follows j i → v.Follows j' i → j = j'
  origin_lt : ∀ {i}, i < v.count → v.origin i < v.count
  origin_origin : ∀ {i}, i < v.count → v.isFallback (v.origin i) = false
  reached : ∀ {i}, i < v.count → Relation.ReflTransGen v.Follows (v.origin i) i
  fireAndForget : v.useFireAndForget = true ↔ v.awaitAck = .none
  fireAndForget_plain : v.awaitAck = .none → ∀ i, v.isFallback i = false
  slim : v.useSlimPrimary = true → v.awaitAck = .primary ∧ ∀ i, v.isFallback i = false

end ValidatedConfig

variable {i j o : Nat} {outputs : List PortName}

section

variable {destinations rest : List DestinationConfig}
  {index index' : PortIndex}

/-- The destination that a destination is a fallback for. -/
def target (destinations : List DestinationConfig) (index : PortIndex) (i : Nat) : Option Nat :=
  (destinations[i]?.bind (·.fallbackFor)).bind fun p => index.lookup p

variable {dest : DestinationConfig} {idx : Nat} {seen : Bool}

end

/-- Two roots from which one destination is reached are the same. -/
theorem root_unique {r : Nat → Nat → Prop} {o' : Nat} (hleft : ∀ {j j' i}, r j i → r j' i → j = j')
    (ho : ∀ j, ¬r j o) (ho' : ∀ j, ¬r j o') (h : Relation.ReflTransGen r o i)
    (h' : Relation.ReflTransGen r o' i) : o = o' := by
  -- going back from `i` there is one way only, and it stops at a root
  have hback : ∀ {a b}, (∀ j, ¬r j b) → Relation.ReflTransGen r a b → a = b := by
    intro a b hb hab
    rcases Relation.ReflTransGen.cases_tail hab with hab | ⟨c, _, hcb⟩
    · exact hab.symm
    · exact absurd hcb (hb c)
  rcases Relation.ReflTransGen.total_of_right_unique (r := Function.swap r)
      (fun _ _ _ hj hj' => hleft hj hj') (Relation.reflTransGen_swap.mpr h)
      (Relation.reflTransGen_swap.mpr h') with hoo | hoo
  · exact (hback ho (Relation.reflTransGen_swap.mp hoo)).symm
  · exact hback ho' (Relation.reflTransGen_swap.mp hoo)

variable {v : ValidatedConfig}

namespace ValidatedConfig.Valid

variable (hv : v.Valid)

include hv

theorem origin_self (hi : i < v.count) (h : v.isFallback i = false) : v.origin i = i := by
  rcases Relation.ReflTransGen.cases_tail (hv.reached hi) with hself | ⟨j, _, hji⟩
  · exact hself.symm
  · rw [hv.follows_fallback hji] at h
    exact nomatch h

theorem no_follows (h : v.isFallback o = false) (j : Nat) : ¬v.Follows j o := by
  intro hj
  rw [hv.follows_fallback hj] at h
  exact nomatch h

theorem origin_follows (h : v.Follows j i) : v.origin i = v.origin j := by
  obtain ⟨hj, hi⟩ := hv.follows_lt h
  have hroot := hv.no_follows (hv.origin_origin hi)
  have hroot' := hv.no_follows (hv.origin_origin hj)
  exact root_unique (r := v.Follows) hv.follows_left hroot hroot' (hv.reached hi)
    ((hv.reached hj).tail h)

/-- Of two destinations of one chain, one is reached from the other. -/
theorem comparable (hi : i < v.count) (hj : j < v.count) (h : v.origin i = v.origin j) :
    Relation.ReflTransGen v.Follows i j ∨ Relation.ReflTransGen v.Follows j i :=
  Relation.ReflTransGen.total_of_right_unique
    (fun _ _ _ ha hb => Option.some.inj (ha.symm.trans hb)) (h ▸ hv.reached hi) (hv.reached hj)

end ValidatedConfig.Valid

/-! # The fan-out processor

The processor clones every message to its destinations and answers the sender of the message when
enough of them have answered.  It handles one message at a time, so that it is a function from a
state and an input to a state and the effects it has had.

The clock is read by `now()`.  A run is given the sequence of all its readings, `clock`, and the
state counts how many have been used; nothing below depends on what the clock says.

Sending never fails here: an error of the channel ends the processor in the source. -/

open Node

inductive DestinationStatus
  | pendingSend
  | inFlight
  | acked
  | nacked
  | timedOut
  | skipped
  deriving DecidableEq, Repr

/-- A clone of the data that subscribes to replies. -/
structure Subscribed (P : Type) where
  data : P
  callData : CallData
  deriving DecidableEq, Repr

structure DestinationState (P : Type) where
  origin : Nat
  status : DestinationStatus
  timeoutAt : Option Nat
  payload : Option (Subscribed P)
  deriving DecidableEq, Repr

structure Inflight (P : Type) where
  awaitAck : AwaitAck
  mode : DeliveryMode
  primary : Nat
  destinations : List (DestinationState P)
  completedOrigins : Bitmap.Word
  requiredOrigins : Nat
  originalPdata : P
  nextSendQueue : List Nat
  deriving DecidableEq

structure Deadline where
  due : Nat
  requestId : Nat
  destIndex : Nat
  deriving DecidableEq, Repr

/-- The order of the deadline heap: by time, request and destination. -/
def Deadline.le (a b : Deadline) : Prop :=
  a.due < b.due ∨ a.due = b.due ∧
    (a.requestId < b.requestId ∨ a.requestId = b.requestId ∧ a.destIndex ≤ b.destIndex)

instance : DecidableRel Deadline.le := fun _ _ => inferInstanceAs (Decidable (_ ∨ _))

/-- The heap yields the least deadline first; it is kept as the list of its deadlines in the order
in which it yields them. -/
abbrev DeadlineHeap := List Deadline

def DeadlineHeap.push (heap : DeadlineHeap) (deadline : Deadline) : DeadlineHeap :=
  heap.orderedInsert Deadline.le deadline

structure Processor (P : Type) where
  inflight : OrdMap Nat (Inflight P)
  slimInflight : OrdMap Nat P
  deadlineHeap : DeadlineHeap
  nextId : Nat
  timerStarted : Bool
  clockReads : Nat

/-- What the processor does.  An outcome names the request it is the outcome of, where the request
was tracked; the message itself carries the data only. -/
inductive Effect (P : Type)
  | sendMessageTo (port : PortName) (message : P) (subscription : Option CallData)
  | notifyAck (request : Option Nat) (accepted : P)
  | notifyNack (request : Nat) (refused : P) (refusal : Refusal)
  | recordTimeout (request dest : Nat)
  | startPeriodicTimer (interval : Nat)
  deriving DecidableEq, Repr

inductive Input (P : Type)
  | pdata (data : P)
  | ack (callData : CallData)
  | nack (callData : CallData) (refusal : Refusal)
  | timerTick
  | otherControl
  deriving DecidableEq, Repr

def buildCallData (requestId destIndex : Nat) : CallData := [requestId, destIndex]

def parseCallData : CallData → Option (Nat × Nat)
  | requestId :: destIndex :: _ => some (requestId, destIndex)
  | _ => none

variable {P : Type}

namespace ValidatedConfig

variable (cfg : ValidatedConfig)

def timeoutOf (idx : Nat) : Option Nat := cfg.destinations[idx]?.bind (·.timeout)

def portOf (idx : Nat) : PortName := (cfg.destinations[idx]?.map (·.port)).getD ""

end ValidatedConfig

/-! ## One request -/

namespace Inflight

variable (cfg : ValidatedConfig) (inflight : Inflight P)

def modifyDest (idx : Nat)
    (f : DestinationState P → DestinationState P) : Inflight P :=
  { inflight with destinations := inflight.destinations.modify idx f }

def statusOf (idx : Nat) : Option DestinationStatus :=
  inflight.destinations[idx]?.map (·.status)

/-- The destinations that `dispatch_ready` looks at. -/
def toSend : List Nat :=
  match inflight.mode with
  | .parallel =>
    (List.range inflight.destinations.length).filter (inflight.statusOf · = some .inFlight)
  | .sequential => inflight.nextSendQueue.head?.toList

/-- The fallback of a destination, if it has not been started. -/
def pendingFallback (destIndex : Nat) : Option Nat :=
  cfg.fallbackForDest[destIndex]?.join.filter (inflight.statusOf · = some .pendingSend)

/-- Start a fallback. -/
def trigger (fbIdx : Nat) (timeoutAt : Option Nat) : Inflight P :=
  let started := inflight.modifyDest fbIdx fun ep => { ep with status := .inFlight, timeoutAt }
  match inflight.mode with
  | .parallel => started
  | .sequential => { started with nextSendQueue := [fbIdx] }

/-- When an origin succeeds its fallbacks will not be needed. -/
def skipFallbacks (origin : Nat) : Inflight P :=
  { inflight with
    destinations := inflight.destinations.mapIdx fun idx ep =>
      if ep.origin = origin ∧ ep.status = .pendingSend ∧ cfg.isFallback idx then
        { ep with status := .skipped, payload := none }
      else ep }

/-- The first destination that was not sent to. -/
def nextPending : Option Nat :=
  inflight.destinations.findIdx? fun ep => ep.status = .pendingSend && ep.payload.isSome

/-- The destination that sequential delivery moves on to after an ack of `destIndex`. -/
def advanceTo (destIndex : Nat) : Option Nat :=
  if inflight.nextSendQueue.filter (· ≠ destIndex) = [] then inflight.nextPending else none

def advance (destIndex : Nat) : Inflight P :=
  match inflight.mode with
  | .parallel => inflight
  | .sequential =>
    let queue := inflight.nextSendQueue.filter (· ≠ destIndex)
    match inflight.advanceTo destIndex with
    | none => { inflight with nextSendQueue := queue }
    | some next =>
      { inflight.modifyDest next fun ep => { ep with status := .inFlight } with
        nextSendQueue := queue ++ [next] }

/-- The record of a request after an ack of `destIndex`, and before the sequence advances. -/
def acknowledged (destIndex origin : Nat) : Inflight P :=
  (inflight.modifyDest destIndex fun ep => { ep with status := .acked }).skipFallbacks cfg origin

end Inflight

section

variable (cfg : ValidatedConfig) (clock : Nat → Nat)

/-- A dispatch in progress: the record of the request, and what was produced so far. -/
structure Dispatch (P : Type) where
  inflight : Inflight P
  deadlines : List Deadline
  effects : List (Effect P)
  clockReads : Nat

def dispatchOne (requestId : Nat) (d : Dispatch P) (idx : Nat) : Dispatch P :=
  match d.inflight.destinations[idx]?.bind (·.payload) with
  | none => d
  | some payload =>
    let timeoutAt := (cfg.timeoutOf idx).map (clock d.clockReads + ·)
    { inflight := d.inflight.modifyDest idx fun ep => { ep with timeoutAt, payload := none }
      deadlines := d.deadlines ++ (timeoutAt.map (⟨·, requestId, idx⟩)).toList
      effects := d.effects ++ [.sendMessageTo (cfg.portOf idx) payload.data payload.callData]
      clockReads := d.clockReads + timeoutAt.toList.length }

def dispatchReady (requestId : Nat) (inflight : Inflight P) (clockReads : Nat) : Dispatch P :=
  inflight.toSend.foldl (dispatchOne cfg clock requestId) ⟨inflight, [], [], clockReads⟩

/-- The destinations of a new request, from index `idx` on, and the queue of those that are sent
to first. -/
def registerDestinations (requestId now : Nat) (pdata : P) :
    List DestinationConfig → Nat → List Nat → List (DestinationState P) × List Nat
  | [], _, queue => ([], queue)
  | dest :: rest, idx, queue =>
    let waits := dest.fallbackFor.isSome || (cfg.mode = .sequential && !queue.isEmpty)
    let others := registerDestinations requestId now pdata rest (idx + 1)
      (if waits then queue else queue ++ [idx])
    ({ origin := cfg.origin idx
       status := if waits then .pendingSend else .inFlight
       timeoutAt := dest.timeout.map (now + ·)
       payload := some ⟨pdata, buildCallData requestId idx⟩ } :: others.1, others.2)

/-! ## The request table -/

namespace Processor

def new : Processor P := ⟨.empty, .empty, [], 1, false, 0⟩

/-- The id after the next one. -/
def followingId (p : Processor P) : Nat := max (Word.wrappingAdd p.nextId 1) 1

def ensureTimer (p : Processor P) : Processor P × List (Effect P) :=
  if p.timerStarted || cfg.destinations.all (·.timeout.isNone) then (p, [])
  else ({ p with timerStarted := true }, [.startPeriodicTimer cfg.timeoutCheckInterval])

/-- Enter a request into the table. -/
def registerInflight (p : Processor P) (pdata : P) : Processor P :=
  let registered :=
      registerDestinations cfg p.nextId (clock p.clockReads) pdata cfg.destinations 0 []
  { p with
    nextId := p.followingId
    clockReads := p.clockReads + 1
    inflight := p.inflight.insert p.nextId {
      awaitAck := cfg.awaitAck
      mode := cfg.mode
      primary := cfg.primaryIndex
      destinations := registered.1
      completedOrigins := 0#64
      requiredOrigins := cfg.destinations.countP (·.fallbackFor.isNone)
      originalPdata := pdata
      nextSendQueue := registered.2 } }

/-- Dispatch what a request has ready and push the deadlines. -/
def dispatch (p : Processor P) (requestId : Nat) : Processor P × List (Effect P) :=
  match p.inflight.get? requestId with
  | none => (p, [])
  | some inflight =>
    let d := dispatchReady cfg clock requestId inflight p.clockReads
    ({ p with
       inflight := p.inflight.insert requestId d.inflight
       deadlineHeap := d.deadlines.foldl DeadlineHeap.push p.deadlineHeap
       clockReads := d.clockReads }, d.effects)

def markComplete (p : Processor P) (requestId origin : Nat) : Processor P × Option P :=
  match p.inflight.get? requestId with
  | none => (p, none)
  | some inflight =>
    let completed := inflight.completedOrigins ||| Bitmap.mask origin
    if inflight.requiredOrigins ≤ Bitmap.popcount completed then
      ({ p with inflight := p.inflight.erase requestId }, some inflight.originalPdata)
    else
      ({ p with
         inflight := p.inflight.insert requestId { inflight with completedOrigins := completed } },
        none)

/-- A destination has failed.  Returns the data to refuse, or nothing if a fallback takes over. -/
def handleFailure (p : Processor P) (requestId destIndex : Nat) (status : DestinationStatus) :
    Processor P × Option P :=
  match p.inflight.get? requestId with
  | none => (p, none)
  | some inflight =>
    let failed := inflight.modifyDest destIndex fun ep => { ep with status }
    match failed.pendingFallback cfg destIndex with
    | none => ({ p with inflight := p.inflight.insert requestId failed },
      some inflight.originalPdata)
    | some fbIdx =>
      let timeoutAt := (cfg.timeoutOf fbIdx).map (clock p.clockReads + ·)
      ({ p with
         inflight := p.inflight.insert requestId (failed.trigger fbIdx timeoutAt)
         deadlineHeap :=
           ((timeoutAt.map (⟨·, requestId, fbIdx⟩)).toList).foldl DeadlineHeap.push p.deadlineHeap
         clockReads := p.clockReads + timeoutAt.toList.length }, none)

end Processor

/-! ## Timeouts -/

/-- The loop over expired deadlines. -/
structure Expiry (P : Type) where
  proc : Processor P
  expired : List (Nat × P × Refusal)
  dispatchRequests : List Nat
  effects : List (Effect P)

def timeoutRefusal (idx : Nat) : Refusal :=
  ⟨s!"fanout: timeout on {cfg.portOf idx}", false, .unspecified⟩

/-- A deadline has expired that was taken off the heap.  It counts if the destination is still in
flight and this is its deadline. -/
def expireOne (e : Expiry P) (deadline : Deadline) : Expiry P :=
  match e.proc.inflight.get? deadline.requestId with
  | none => e
  | some inflight =>
    match inflight.destinations[deadline.destIndex]? with
    | none => e
    | some ep =>
      if ep.status = .inFlight ∧ ep.timeoutAt = some deadline.due then
        let failure :=
            e.proc.handleFailure cfg clock deadline.requestId deadline.destIndex .timedOut
        let effects := e.effects ++ [.recordTimeout deadline.requestId deadline.destIndex]
        match failure.2 with
        | some refused =>
          if inflight.awaitAck = .primary ∧ ep.origin ≠ inflight.primary then
            { e with proc := failure.1, effects }
          else
            { e with
              proc := { failure.1 with inflight := failure.1.inflight.erase deadline.requestId }
              expired := e.expired ++
                [(deadline.requestId, refused, timeoutRefusal cfg deadline.destIndex)]
              effects }
        | none =>
          { e with
            proc := failure.1
            dispatchRequests :=
              if deadline.requestId ∈ e.dispatchRequests then e.dispatchRequests
              else e.dispatchRequests ++ [deadline.requestId]
            effects }
      else e

def expireLoop (now : Nat) : Nat → Expiry P → Expiry P
  | 0, e => e
  | rounds + 1, e =>
    match e.proc.deadlineHeap with
    | [] => e
    | deadline :: rest =>
      if now < deadline.due then e
      else
        expireLoop now rounds
          (expireOne cfg clock { e with proc := { e.proc with deadlineHeap := rest } } deadline)

namespace Processor

variable (p : Processor P)

/-- Destinations that a timeout could still start. -/
def pendingSends : Nat :=
  (p.inflight.values.map fun inflight =>
    inflight.destinations.countP (·.status = .pendingSend)).sum

/-- A round takes a deadline off the heap, and puts one there only if it starts a fallback. -/
def expireRounds (p : Processor P) : Nat := p.deadlineHeap.length + p.pendingSends

/-- Dispatch several requests in turn. -/
def dispatchAll (p : Processor P) : List Nat → Processor P × List (Effect P)
  | [] => (p, [])
  | requestId :: rest =>
    let first := p.dispatch cfg clock requestId
    let others := first.1.dispatchAll rest
    (others.1, first.2 ++ others.2)

def handleTimeout : Processor P × List (Effect P) × List (Nat × P × Refusal) :=
  let now := clock p.clockReads
  let e := expireLoop cfg clock now p.expireRounds
    ⟨{ p with clockReads := p.clockReads + 1 }, [], [], []⟩
  let sent := e.proc.dispatchAll cfg clock e.dispatchRequests
  (sent.1, e.effects ++ sent.2, e.expired)

/-! ## Replies -/

/-- In sequential mode an ack may have made a destination ready. -/
def dispatchNext (requestId : Nat) : Processor P × List (Effect P) :=
  match cfg.mode with
  | .parallel => (p, [])
  | .sequential => p.dispatch cfg clock requestId

/-- The end of `process_ack`, once the record of the request is up to date. -/
def settleAck (requestId origin : Nat) (inflight : Inflight P) :
    Processor P × List (Effect P) :=
  match inflight.awaitAck with
  | .none => (p, [])
  | .primary =>
    if origin = inflight.primary then
      ({ p with inflight := p.inflight.erase requestId },
        [.notifyAck requestId inflight.originalPdata])
    else p.dispatchNext cfg clock requestId
  | .all =>
    let sent := p.dispatchNext cfg clock requestId
    let completed := sent.1.markComplete requestId origin
    (completed.1, sent.2 ++ completed.2.toList.map (.notifyAck requestId))

def processAck (callData : CallData) : Processor P × List (Effect P) :=
  match parseCallData callData with
  | none => (p, [])
  | some (requestId, destIndex) =>
    match p.inflight.get? requestId with
    | none => (p, [])
    | some inflight =>
      match inflight.destinations[destIndex]? with
      | none => (p, [])
      | some ep =>
        if ep.status = .timedOut ∨ ep.status = .nacked then (p, [])
        else
          let acked := (inflight.acknowledged cfg destIndex ep.origin).advance destIndex
          settleAck cfg clock { p with inflight := p.inflight.insert requestId acked } requestId
            ep.origin acked

def processNack (callData : CallData) (refusal : Refusal) :
    Processor P × List (Effect P) :=
  match parseCallData callData with
  | none => (p, [])
  | some (requestId, destIndex) =>
    match p.inflight.get? requestId with
    | none => (p, [])
    | some inflight =>
      match inflight.destinations[destIndex]? with
      | none => (p, [])
      | some ep =>
        if ep.status = .timedOut then (p, [])
        else if inflight.awaitAck = .primary ∧ ep.origin ≠ inflight.primary then (p, [])
        else
          let failure := p.handleFailure cfg clock requestId destIndex .nacked
          match failure.2 with
          | some refused =>
            ({ failure.1 with inflight := failure.1.inflight.erase requestId },
              [.notifyNack requestId refused refusal])
          | none => failure.1.dispatch cfg clock requestId

/-! ## Fast paths -/

def processFireAndForget (pdata : P) : Processor P × List (Effect P) :=
  (p, (cfg.destinations.filter (·.fallbackFor.isNone)).map
      (fun dest => .sendMessageTo dest.port pdata none) ++ [.notifyAck none pdata])

def processSlimPrimary (pdata : P) : Processor P × List (Effect P) :=
  ({ p with
     nextId := p.followingId
     slimInflight := p.slimInflight.insert p.nextId pdata },
    cfg.destinations.mapIdx fun idx dest =>
      .sendMessageTo dest.port pdata (buildCallData p.nextId idx))

def processAckSlimPrimary (callData : CallData) :
    Processor P × List (Effect P) :=
  match parseCallData callData with
  | none => (p, [])
  | some (requestId, destIndex) =>
    if destIndex ≠ cfg.primaryIndex then (p, [])
    else
      ({ p with slimInflight := p.slimInflight.erase requestId },
        (p.slimInflight.get? requestId).toList.map (.notifyAck requestId))

def processNackSlimPrimary (callData : CallData) (refusal : Refusal) :
    Processor P × List (Effect P) :=
  match parseCallData callData with
  | none => (p, [])
  | some (requestId, destIndex) =>
    if destIndex ≠ cfg.primaryIndex then (p, [])
    else
      ({ p with slimInflight := p.slimInflight.erase requestId },
        (p.slimInflight.get? requestId).toList.map (.notifyNack requestId · refusal))

/-! ## The message loop -/

def processPdata (pdata : P) : Processor P × List (Effect P) :=
  if cfg.useFireAndForget then p.processFireAndForget cfg pdata
  else if cfg.useSlimPrimary then p.processSlimPrimary cfg pdata
  else
    let timer := p.ensureTimer cfg
    let sent := (timer.1.registerInflight cfg clock pdata).dispatch cfg clock timer.1.nextId
    (sent.1, timer.2 ++ sent.2)

def processTimerTick : Processor P × List (Effect P) :=
  if cfg.useFireAndForget || cfg.useSlimPrimary then (p, [])
  else
    let handled := p.handleTimeout cfg clock
    (handled.1, handled.2.1 ++ handled.2.2.map fun n => .notifyNack n.1 n.2.1 n.2.2)

def process : Input P → Processor P × List (Effect P)
  | .ack callData =>
    if cfg.useSlimPrimary then p.processAckSlimPrimary cfg callData
    else p.processAck cfg clock callData
  | .nack callData refusal =>
    if cfg.useSlimPrimary then p.processNackSlimPrimary cfg callData refusal
    else p.processNack cfg clock callData refusal
  | .timerTick => p.processTimerTick cfg clock
  | .otherControl => (p, [])
  | .pdata data => p.processPdata cfg clock data

end Processor

end

/-! # Requests and their outcomes

The processor runs between a sender and the destinations.  `System` is the processor together with
the messages that are with the destinations; the destinations answer each of them at most once
(`AnswersOnce`), at any time and in any order.

A run leaves a trace of what the processor received and did.  What a request is owed is read off
the trace: a destination *acked* if its ack arrived before it had timed out, and *failed* if a
nack arrived or it timed out (`Acked`, `Failed`); a request *succeeded* if every origin it must
wait for acked, or one of its fallbacks did (`Succeeded`). -/

open List

/-- The call data of the messages that ask for a reply. -/
def subscriptions (effects : List (Effect P)) : List CallData :=
  effects.filterMap fun
    | .sendMessageTo _ _ subscription => subscription
    | _ => none

/-- The message that an input answers. -/
def Input.answers : Input P → Option CallData
  | .ack callData => some callData
  | .nack callData _ => some callData
  | _ => none

/-- The processor, and the call data of the messages that are with the destinations. -/
structure System (P : Type) where
  proc : Processor P
  unanswered : List CallData

namespace System

variable (cfg : ValidatedConfig) (clock : Nat → Nat)

def init : System P := ⟨.new, []⟩

def step (s : System P) (input : Input P) : System P × List (Effect P) :=
  let result := s.proc.process cfg clock input
  (⟨result.1, input.answers.elim s.unanswered s.unanswered.erase ++ subscriptions result.2⟩,
    result.2)

/-- Only messages that were sent are answered, and once. -/
def AnswersOnce (s : System P) (input : Input P) : Prop :=
  ∀ callData, input.answers = some callData → callData ∈ s.unanswered

/-- Request ids do not wrap around. -/
def IdsLeft (s : System P) (input : Input P) : Prop :=
  ∀ data, input = .pdata data → s.proc.nextId + 1 < 2 ^ 64

end System

/-! ## Traces -/

inductive Event (P : Type)
  | received (input : Input P)
  | did (effect : Effect P)
  deriving DecidableEq

def trace (history : List (Input P × List (Effect P))) : List (Event P) :=
  history.flatMap fun entry => .received entry.1 :: entry.2.map .did

inductive Outcome (P : Type)
  | ack (accepted : P)
  | nack (refused : P) (refusal : Refusal)
  deriving DecidableEq

/-- The data that an outcome returns. -/
def Outcome.data : Outcome P → P
  | .ack accepted => accepted
  | .nack refused _ => refused

def Event.request? : Event P → Option P
  | .received (.pdata data) => some data
  | _ => none

def Event.outcome? (r : Nat) : Event P → Option (Outcome P)
  | .did (.notifyAck (some request) accepted) => if request = r then some (.ack accepted) else none
  | .did (.notifyNack request refused refusal) =>
    if request = r then some (.nack refused refusal) else none
  | _ => none

variable (t : List (Event P))

/-- The requests, in order: request number `r` is the one at index `r - 1`. -/
def requests : List P := t.filterMap Event.request?

/-- The outcomes that were sent upstream for request `r`. -/
def outcomes (r : Nat) : List (Outcome P) := t.filterMap (Event.outcome? r)

def TimedOut (r d : Nat) : Prop := .did (.recordTimeout r d) ∈ t

def Nacked (r d : Nat) : Prop :=
  ∃ refusal, .received (.nack (buildCallData r d) refusal) ∈ t

def Failed (r d : Nat) : Prop := Nacked t r d ∨ TimedOut t r d

/-- An ack of destination `d` arrived in time. -/
def Acked (r d : Nat) : Prop :=
  ∃ before after, t = before ++ .received (.ack (buildCallData r d)) :: after ∧
    ¬TimedOut before r d

/-- The origins that a request has to wait for. -/
def Required (cfg : ValidatedConfig) (o : Nat) : Prop :=
  o < cfg.count ∧ cfg.isFallback o = false ∧ (cfg.awaitAck = .primary → o = cfg.primaryIndex)

/-- Each of them was acked, by the origin itself or by one of its fallbacks. -/
def Succeeded (cfg : ValidatedConfig) (t : List (Event P)) (r : Nat) : Prop :=
  ∀ o, Required cfg o → ∃ d < cfg.count, cfg.origin d = o ∧ Acked t r d

/-- Events that say something about a destination of request `r`. -/
def Event.Concerns (r : Nat) : Event P → Prop
  | .received (.ack callData) => ∃ d, callData = buildCallData r d
  | .received (.nack callData _) => ∃ d, callData = buildCallData r d
  | .did (.recordTimeout request _) => request = r
  | _ => False

/-- The message that tells the sender of request `r`. -/
def Outcome.notify (r : Nat) : Outcome P → Effect P
  | .ack accepted => .notifyAck r accepted
  | .nack refused refusal => .notifyNack r refused refusal

theorem Outcome.subscriptions_notify (r : Nat) (outcome : Outcome P) :
    subscriptions [outcome.notify r] = [] := by
  cases outcome <;> rfl

theorem Outcome.quiet_notify (r r' : Nat) (outcome : Outcome P) :
    ¬Event.Concerns r' (.did (outcome.notify r)) := by
  cases outcome <;> exact id

theorem Outcome.outcomes_notify (r r' : Nat) (outcome : Outcome P) :
    outcomes [.did (outcome.notify r)] r' = if r = r' then [outcome] else [] := by
  cases outcome <;> (by_cases h : r = r' <;> simp [outcomes, Outcome.notify, Event.outcome?, h])

section

variable {t es : List (Event P)} {r d : Nat} {e : Event P}

theorem timedOut_append : TimedOut (t ++ es) r d ↔ TimedOut t r d ∨ TimedOut es r d :=
  mem_append

theorem nacked_append : Nacked (t ++ es) r d ↔ Nacked t r d ∨ Nacked es r d := by
  simp [Nacked, exists_or]

theorem acked_snoc :
    Acked (t ++ [e]) r d ↔
      Acked t r d ∨ e = .received (.ack (buildCallData r d)) ∧ ¬TimedOut t r d := by
  constructor
  · rintro ⟨before, after, heq, htime⟩
    rcases eq_nil_or_concat after with rfl | ⟨after', last, rfl⟩
    · obtain ⟨rfl, he⟩ := append_inj' heq rfl
      exact .inr ⟨singleton_inj.mp he, htime⟩
    · rw [concat_eq_append, ← cons_append, ← append_assoc] at heq
      exact .inl ⟨before, after', (append_inj' heq rfl).1, htime⟩
  · rintro (⟨before, after, rfl, htime⟩ | ⟨rfl, htime⟩)
    · exact ⟨before, after ++ [e], by simp, htime⟩
    · exact ⟨t, [], rfl, htime⟩

section

variable (h : ∀ e ∈ es, ¬Event.Concerns r e)

include h

/-- Events about other requests. -/
theorem not_timedOut_of_quiet : ¬TimedOut es r d :=
  fun hmem => h _ hmem rfl

theorem not_nacked_of_quiet : ¬Nacked es r d :=
  fun ⟨_, hmem⟩ => h _ hmem ⟨d, rfl⟩

theorem timedOut_quiet : TimedOut (t ++ es) r d ↔ TimedOut t r d := by
  rw [timedOut_append, or_iff_left (not_timedOut_of_quiet h)]

theorem nacked_quiet : Nacked (t ++ es) r d ↔ Nacked t r d := by
  rw [nacked_append, or_iff_left (not_nacked_of_quiet h)]

theorem acked_quiet : Acked (t ++ es) r d ↔ Acked t r d := by
  induction es using List.reverseRecOn with
  | nil => rw [append_nil]
  | append_singleton es e ih =>
    have hes : ∀ e ∈ es, ¬Event.Concerns r e := fun e he => h e (mem_append_left _ he)
    have he : e ≠ .received (.ack (buildCallData r d)) := by
      rintro rfl
      exact h _ (mem_append_right _ (mem_singleton_self _)) ⟨d, rfl⟩
    rw [← append_assoc, acked_snoc, ih hes, or_iff_left (fun hack => he hack.1)]

end

end

end OtapDataflow.Fanout
