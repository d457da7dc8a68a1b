import OtapDataflow.Lib.Slots
import OtapDataflow.Lib.Machine
import OtapDataflow.Node.Message

/-! # The batch processor

The processor collects inputs in buffers, one for each format and signal, and sends them on merged
and split into batches of the configured size.  An input that is tracked waits in an inbound slot
for the outputs that hold its data; an output waits in an outbound slot for its reply.

The codecs, which convert, measure, merge and split, are parameters.  What they answer, what the
clock says and whether the scheduler takes a wakeup are given with each message (`Env`).  Sending
never fails here: an error of the channel ends the processor in the source. -/

namespace OtapDataflow.Batch

open Node

inductive Sizer
  | requests
  | items
  | bytes
  deriving DecidableEq, Repr

inductive PdataFormat
  | otap
  | otlp
  | other (codec : Nat)
  deriving DecidableEq, Repr

/-- Sizing thresholds; `validate` refuses settings without a bound. -/
structure BatchSettings where
  minSize : Option Nat
  maxSize : Option Nat
  sizer : Sizer
  bounded : (minSize.or maxSize).isSome
  deriving DecidableEq

namespace BatchSettings

variable (settings : BatchSettings)

def lowerLimit : Nat := (settings.minSize.or settings.maxSize).get settings.bounded

def inPassthroughRange (size : Nat) : Bool :=
  settings.lowerLimit ≤ size && settings.maxSize.all (size ≤ ·)

end BatchSettings

structure BatchPlan where
  working : PdataFormat
  output : PdataFormat
  settings : BatchSettings
  deriving DecidableEq

/-- The inputs `start` to `last`, both included. -/
structure InputRange where
  start : Nat
  last : Nat
  deriving DecidableEq, Repr

structure BatchingResult (P : Type) where
  batches : List (P × InputRange)
  completedInputs : List Nat

/-- The operations of the codec service under a plan. -/
structure Codec (P : Type) where
  prepare : BatchPlan → P → Except String P
  batchSize : BatchPlan → P → Except String Nat
  batch : BatchPlan → SignalType → List P → Except String (BatchingResult P)
  finish : BatchPlan → P → Except String P

/-! ## Provenance of the outputs -/

def formatError (reason : String) : String := "invalid pdata batching operation: " ++ reason

/-- The ranges of the outputs and the completed inputs in the order in which they are looked at;
`true` marks an output. -/
def interleave : List InputRange → List Nat → List (Bool × InputRange)
  | [], completed => completed.map fun index => (false, ⟨index, index⟩)
  | range :: ranges, completed =>
    (completed.takeWhile (· < range.start)).map (fun index => (false, ⟨index, index⟩)) ++
      (true, range) :: interleave ranges (completed.dropWhile (· < range.start))

def checkRanges (inputCount : Nat) : List (Bool × InputRange) → Nat → Bool → Except String Unit
  | [], covered, _ =>
    if covered ≠ inputCount then .error (formatError "batcher did not account for every input")
    else .ok ()
  | (isOutput, range) :: rest, covered, previousOutput =>
    if isOutput ∧ range.last < range.start then
      .error (formatError "batcher returned an empty input range")
    else if range.last < range.start ∨ inputCount ≤ range.last ∨
        (range.start ≠ covered ∧
          ¬(isOutput = true ∧ previousOutput = true ∧ covered = range.start + 1)) then
      .error (formatError "batcher returned invalid or incomplete input ranges")
    else checkRanges inputCount rest (range.last + 1) isOutput

def validateInputRanges {P : Type} (result : BatchingResult P) (inputCount : Nat) :
    Except String Unit :=
  checkRanges inputCount (interleave (result.batches.map (·.2)) result.completedInputs) 0 false

def BatchPlan.batch {P : Type} (plan : BatchPlan) (codec : Codec P) (signal : SignalType)
    (inputs : List P) : Except String (List (P × InputRange)) :=
  match codec.batch plan signal inputs with
  | .error reason => .error reason
  | .ok result =>
    match validateInputRanges result inputs.length with
    | .error reason => .error reason
    | .ok () => .ok result.batches

/-! ## State -/

structure BatchContext where
  ctx : Context
  /-- Pending work plus emitted outputs that must finish before the ack. -/
  outbound : Nat
  deriving DecidableEq, Repr

structure BatchPortion where
  inkey : Option Nat
  peerAddr : Option Nat
  deriving DecidableEq, Repr

structure Inputs (P : Type) where
  pending : List P
  context : List BatchPortion
  size : Nat

structure SignalBuffer (P : Type) where
  inputs : Inputs P
  inbound : Slots BatchContext
  outbound : Slots (List BatchPortion)
  arrival : Option Nat
  wakeupArmed : Bool
  slot : Nat

inductive BatchFailure
  | retryable (reason : String)
  | permanent (reason : String)
  deriving DecidableEq, Repr

inductive FlushReason
  | size
  | timer
  | shutdown
  deriving DecidableEq, Repr

structure Config where
  maxBatchDuration : Nat
  inboundRequestLimit : Nat
  outboundRequestLimit : Nat
  preserve : Bool

/-- What the environment decides while a message is handled. -/
structure Env (P : Type) where
  codec : Codec P
  now : Nat
  acceptsWakeups : Bool

variable {P : Type}

def BatchFailure.refusal : BatchFailure → Refusal
  | .retryable reason => .new reason
  | .permanent reason => .newPermanent reason

/-! ## Buffers -/

namespace Inputs

def empty : Inputs P := ⟨[], [], 0⟩

def isEmpty (inputs : Inputs P) : Bool := inputs.pending.isEmpty

def sizeBy (inputs : Inputs P) : Sizer → Nat
  | .requests => inputs.pending.length
  | .items => inputs.size
  | .bytes => inputs.size

def accept (inputs : Inputs P) (batch : P) (part : BatchPortion) (size : Nat) : Inputs P :=
  ⟨inputs.pending ++ [batch], inputs.context ++ [part], inputs.size + size⟩

end Inputs

/-- The portions of the inputs in a range. -/
def slice (contexts : List BatchPortion) (range : InputRange) : List BatchPortion :=
  (contexts.drop range.start).take (range.last + 1 - range.start)

namespace SignalBuffer

def new (config : Config) (slot : Nat) : SignalBuffer P where
  inputs := .empty
  inbound := .new config.inboundRequestLimit
  outbound := .new config.outboundRequestLimit
  arrival := none
  wakeupArmed := false
  slot := slot

variable (buffer : SignalBuffer P)

/-- One part of a response: its input is told as soon as the outcome is known. -/
def handlePart (res : Except BatchFailure Unit) (part : BatchPortion) :
    SignalBuffer P × List (Effect P) :=
  match part.inkey with
  | none => (buffer, [])
  | some inkey =>
    let mutated := buffer.inbound.mutate inkey fun batch =>
      match res with
      | .error _ => (batch, false)
      | .ok () =>
        if batch.outbound > 1 then ({ batch with outbound := batch.outbound - 1 }, true)
        else (batch, false)
    ({ buffer with inbound := mutated.2 },
      match mutated.1 with
      | none => []
      | some batch =>
        match res with
        | .error failure => [.notifyNack batch.ctx none failure.refusal]
        | .ok () => [.notifyAck batch.ctx none])

def handlePartialResponses (buffer : SignalBuffer P) (res : Except BatchFailure Unit) :
    List BatchPortion → SignalBuffer P × List (Effect P)
  | [] => (buffer, [])
  | part :: parts =>
    let first := buffer.handlePart res part
    let rest := first.1.handlePartialResponses res parts
    (rest.1, first.2 ++ rest.2)

/-- One more output refers to the input of the portion. -/
def addReference (part : BatchPortion) : SignalBuffer P :=
  match part.inkey with
  | none => buffer
  | some key =>
    { buffer with
      inbound := buffer.inbound.modify key fun input =>
        { input with outbound := input.outbound + 1 } }

/-- Every output refers to the inputs in its range. -/
def establishReferences (buffer : SignalBuffer P) (contexts : List BatchPortion)
    (outputs : List (P × InputRange)) : SignalBuffer P :=
  outputs.foldl (fun buffer output => (slice contexts output.2).foldl addReference buffer) buffer

/-- The portions of an output whose inputs wait still, and the merged peer. -/
def outputContext (range : InputRange) (contexts : List BatchPortion) :
    List BatchPortion × Option Nat :=
  let parts := slice contexts range
  (parts.filter fun part => part.inkey.any fun key => (buffer.inbound.get? key).isSome,
    (parts.foldl (fun merger part => merger.push part.peerAddr) PeerAddrMerger.empty).finish)

/-- There is no outbound slot for an output: the inputs are refused, and the output is sent
nevertheless, since it can hold data of inputs that are not tracked. -/
def refuseParts (buffer : SignalBuffer P) : List BatchPortion → SignalBuffer P × List (Effect P)
  | [] => (buffer, [])
  | part :: parts =>
    match part.inkey with
    | none => buffer.refuseParts parts
    | some inkey =>
      let taken := buffer.inbound.take inkey
      let rest := { buffer with inbound := taken.2 }.refuseParts parts
      (rest.1, (taken.1.map fun batch =>
        Effect.notifyNack batch.ctx none (.new "outbound routes exhausted")).toList ++ rest.2)

/-- Send one output. -/
def emit (codec : Codec P) (plan : BatchPlan)
    (contexts : List BatchPortion) (output : P × InputRange) : SignalBuffer P × List (Effect P) :=
  let routed := buffer.outputContext output.2 contexts
  match codec.finish plan output.1 with
  | .error error => buffer.handlePartialResponses (.error (.permanent error)) routed.1
  | .ok records =>
    if routed.1 = [] then (buffer, [.sendMessage ⟨records, .unsubscribed, routed.2⟩])
    else
      match buffer.outbound.allocateWithData routed.1 with
      | .error parts =>
        let refused := buffer.refuseParts parts
        (refused.1, refused.2 ++ [.sendMessage ⟨records, .unsubscribed, routed.2⟩])
      | .ok (outkey, outbound) =>
        ({ buffer with outbound },
          [.sendMessage ⟨records, .subscribed [outkey, buffer.slot], routed.2⟩])

def emitAll (buffer : SignalBuffer P) (codec : Codec P) (plan : BatchPlan)
    (contexts : List BatchPortion) : List (P × InputRange) → SignalBuffer P × List (Effect P)
  | [] => (buffer, [])
  | output :: outputs =>
    let first := buffer.emit codec plan contexts output
    let rest := first.1.emitAll codec plan contexts outputs
    (rest.1, first.2 ++ rest.2)

/-- Release the pending references of the inputs and send the outputs. -/
def deliver (codec : Codec P) (plan : BatchPlan)
    (contexts : List BatchPortion) (outputs : List (P × InputRange)) :
    SignalBuffer P × List (Effect P) :=
  let released := buffer.handlePartialResponses (.ok ()) contexts
  let sent := released.1.emitAll codec plan contexts outputs
  (sent.1, released.2 ++ sent.2)

/-- The size of the last output, if it is a remainder that may wait for the next flush: it belongs
to the last input only and is below the lower limit. -/
def remainderSize (config : Config) (codec : Codec P) (plan : BatchPlan) (reason : FlushReason)
    (contexts : List BatchPortion) (outputs : List (P × InputRange)) :
    Except EngineError (Option Nat) :=
  if config.maxBatchDuration ≠ 0 ∧ reason = .size ∧ plan.settings.maxSize.isSome ∧
      1 < outputs.length then
    match outputs.getLast? with
    | none => .ok none
    | some (payload, range) =>
      if range.start = range.last ∧ range.last = contexts.length - 1 then
        match codec.batchSize plan payload with
        | .error error => .error (.codecError error)
        | .ok size =>
          if 0 < size ∧ size < plan.settings.lowerLimit then .ok (some size) else .ok none
      else .ok none
  else .ok none

/-- Move a remainder with a single owner back into pending storage.  Its output reference becomes
the pending reference of the next flush. -/
def takeRemaining (size : Nat) (contexts : List BatchPortion)
    (outputs : List (P × InputRange)) : SignalBuffer P :=
  match outputs.getLast? with
  | none => buffer
  | some (remaining, range) =>
    match contexts[range.start]? with
    | none => buffer
    | some part => { buffer with inputs := buffer.inputs.accept remaining part size }

def setArrival (env : Env P) (now timeout : Nat) :
    Handled (SignalBuffer P) P :=
  if env.acceptsWakeups then
    ⟨{ buffer with arrival := some now, wakeupArmed := true },
      [.setWakeup buffer.slot (now + timeout)], none⟩
  else
    ⟨buffer, [.setWakeup buffer.slot (now + timeout)],
      some (.processorError "could not set wakeup")⟩

/-- Flush inputs that were taken out of the buffer. -/
def flushInputs (config : Config) (env : Env P) (plan : BatchPlan)
    (signal : SignalType) (inputs : Inputs P) (now : Nat) (reason : FlushReason) :
    Handled (SignalBuffer P) P :=
  match plan.batch env.codec signal inputs.pending with
  | .error error =>
    let failed := buffer.handlePartialResponses (.error (.retryable error)) inputs.context
    ⟨failed.1, failed.2, none⟩
  | .ok outputs =>
    let buffer := buffer.establishReferences inputs.context outputs
    match remainderSize config env.codec plan reason inputs.context outputs with
    | .error error => ⟨buffer, [], some error⟩
    | .ok none =>
      let sent := buffer.deliver env.codec plan inputs.context outputs
      ⟨{ sent.1 with arrival := none, wakeupArmed := false }, sent.2, none⟩
    | .ok (some size) =>
      let retained := buffer.takeRemaining size inputs.context outputs
      let armed := retained.setArrival env now config.maxBatchDuration
      match armed.error with
      | some error => ⟨armed.state, armed.effects, some error⟩
      | none =>
        let sent := armed.state.deliver env.codec plan inputs.context outputs.dropLast
        ⟨sent.1, armed.effects ++ sent.2, none⟩

def flushSignalImpl (config : Config) (env : Env P) (plan : BatchPlan)
    (signal : SignalType) (now : Nat) (reason : FlushReason) : Handled (SignalBuffer P) P :=
  let buffer := if reason = .timer then { buffer with wakeupArmed := false } else buffer
  if buffer.inputs.isEmpty then ⟨buffer, [], none⟩
  else
    let cancelled : List (Effect P) :=
      if reason ≠ .timer ∧ buffer.wakeupArmed then [.cancelWakeup buffer.slot] else []
    let buffer := if reason ≠ .timer then { buffer with wakeupArmed := false } else buffer
    if reason = .timer ∧ config.maxBatchDuration ≠ 0 ∧
        buffer.arrival.any (fun arrival => now - arrival < config.maxBatchDuration) then
      ⟨buffer, cancelled, none⟩
    else
      let flushed := { buffer with inputs := Inputs.empty }.flushInputs config env plan signal
        buffer.inputs now reason
      ⟨flushed.state, cancelled ++ flushed.effects, flushed.error⟩

/-- Put an input into the buffer, and flush it if it has reached the lower limit. -/
def bufferInput (config : Config) (env : Env P) (plan : BatchPlan)
    (signal : SignalType) (payload : P) (part : BatchPortion) (size : Nat) :
    Handled (SignalBuffer P) P :=
  let accepted := { buffer with inputs := buffer.inputs.accept payload part size }
  if config.maxBatchDuration ≠ 0 ∧
      accepted.inputs.sizeBy plan.settings.sizer < plan.settings.lowerLimit then
    if buffer.inputs.isEmpty then accepted.setArrival env env.now config.maxBatchDuration
    else ⟨accepted, [], none⟩
  else accepted.flushSignalImpl config env plan signal env.now .size

def forwardAsIs (codec : Codec P) (plan : BatchPlan) (ctx : Context)
    (payload : P) : Handled (SignalBuffer P) P :=
  match codec.finish plan payload with
  | .error error => ⟨buffer, [.notifyNack ctx (some payload) (.newPermanent error)], none⟩
  | .ok payload => ⟨buffer, [.sendMessage ⟨payload, .forwarded ctx, ctx.peerAddr⟩], none⟩

def acceptPayload (config : Config) (env : Env P) (plan : BatchPlan)
    (signal : SignalType) (ctx : Context) (payload : P) : Handled (SignalBuffer P) P :=
  match env.codec.batchSize plan payload with
  | .error error => ⟨buffer, [], some (.codecError error)⟩
  | .ok size =>
    if size = 0 then ⟨buffer, [.notifyAck ctx (some payload)], none⟩
    else if plan.settings.inPassthroughRange size then
      buffer.forwardAsIs env.codec plan ctx payload
    else if ctx.needsCompletionTracking then
      match buffer.inbound.allocateWithData ⟨ctx, 1⟩ with
      | .error batch =>
        ⟨buffer, [.notifyNack batch.ctx (some payload) (.new "inbound routes exhausted")], none⟩
      | .ok (inkey, inbound) =>
        { buffer with inbound }.bufferInput config env plan signal payload
          ⟨some inkey, ctx.peerAddr⟩ size
    else buffer.bufferInput config env plan signal payload ⟨none, ctx.peerAddr⟩ size

/-- Handle the reply to the output in an outbound slot. -/
def handle (outkey : Nat) (res : Except BatchFailure Unit) :
    SignalBuffer P × List (Effect P) :=
  let taken := buffer.outbound.take outkey
  match taken.1 with
  | none => (buffer, [])
  | some parts => { buffer with outbound := taken.2 }.handlePartialResponses res parts

end SignalBuffer

/-! ## The processor -/

structure SignalBatches (P : Type) where
  logs : SignalBuffer P
  metrics : SignalBuffer P
  traces : SignalBuffer P

def wakeupSlot (index : Nat) : SignalType → Nat
  | .logs => index * 3
  | .metrics => index * 3 + 1
  | .traces => index * 3 + 2

/-- The signal whose buffer has the slot. -/
def signalOfSlot (slot : Nat) : SignalType :=
  match slot % 3 with
  | 0 => .logs
  | 1 => .metrics
  | _ => .traces

namespace SignalBatches

def new (config : Config) (index : Nat) : SignalBatches P where
  logs := .new config (wakeupSlot index .logs)
  metrics := .new config (wakeupSlot index .metrics)
  traces := .new config (wakeupSlot index .traces)

def get (signals : SignalBatches P) : SignalType → SignalBuffer P
  | .logs => signals.logs
  | .metrics => signals.metrics
  | .traces => signals.traces

def set (signals : SignalBatches P) (signal : SignalType) (buffer : SignalBuffer P) :
    SignalBatches P :=
  match signal with
  | .logs => { signals with logs := buffer }
  | .metrics => { signals with metrics := buffer }
  | .traces => { signals with traces := buffer }

end SignalBatches

structure FormatState (P : Type) where
  plan : BatchPlan
  signals : SignalBatches P

structure BatchProcessor (P : Type) where
  config : Config
  formats : List (Option (FormatState P))
  routes : List (PdataFormat × Nat)

/-- A message with data. -/
structure Request (P : Type) where
  ctx : Context
  signal : SignalType
  format : PdataFormat
  payload : P

inductive Input (P : Type)
  | pdata (request : Request P)
  | ack (callData : CallData)
  | nack (callData : CallData) (refusal : Refusal)
  | wakeup (slot time : Nat)
  | shutdown
  | otherControl

namespace BatchProcessor

/-- Where the buffers of a format go: to the buffers of an equal plan, to the position that is
reserved for the format, or to the end. -/
def placeFormat (formats : List (Option (FormatState P))) (source : PdataFormat)
    (plan : BatchPlan) : Nat :=
  (formats.findIdx? fun state => state.any fun state => state.plan = plan).getD
    (match source with
    | .otap => 0
    | .otlp => 1
    | .other _ => formats.length)

def addPlan (config : Config) (processor : BatchProcessor P) (source : PdataFormat)
    (plan : BatchPlan) : BatchProcessor P :=
  let index := placeFormat processor.formats source plan
  let formats :=
    if index = processor.formats.length then processor.formats ++ [none] else processor.formats
  { processor with
    formats :=
      if formats[index]?.join.isNone then formats.set index (some ⟨plan, .new config index⟩)
      else formats
    routes := processor.routes ++ [(source, index)] }

/-- The processor for the plans of the configured formats. -/
def build (config : Config) (plans : List (PdataFormat × BatchPlan)) : BatchProcessor P :=
  plans.foldl (fun processor plan => processor.addPlan config plan.1 plan.2)
    ⟨config, [none, none], []⟩

variable (processor : BatchProcessor P)

/-- The format at an index. -/
def format (index : Nat) : Option (FormatState P) :=
  processor.formats[index]?.join

def setBuffer (index : Nat) (signal : SignalType)
    (buffer : SignalBuffer P) : BatchProcessor P :=
  { processor with
    formats := processor.formats.modify index fun state =>
      state.map fun state => { state with signals := state.signals.set signal buffer } }

/-- Run an operation on the buffer of a format and a signal. -/
def onBuffer (index : Nat) (signal : SignalType)
    (op : BatchPlan → SignalBuffer P → Handled (SignalBuffer P) P) :
    Handled (BatchProcessor P) P :=
  match processor.format index with
  | none => ⟨processor, [], none⟩
  | some state =>
    let handled := op state.plan (state.signals.get signal)
    ⟨processor.setBuffer index signal handled.state, handled.effects, handled.error⟩

def routeOf (format : PdataFormat) : Option Nat :=
  if processor.config.preserve then
    (processor.routes.find? fun route => route.1 = format).map (·.2)
  else processor.routes.head?.map (·.2)

def processSignalImpl (env : Env P) (request : Request P) :
    Handled (BatchProcessor P) P :=
  match processor.routeOf request.format with
  | none =>
    ⟨processor, [.notifyNack request.ctx (some request.payload)
      (.newPermanent "no batching plan for admitted codec")], none⟩
  | some index =>
    processor.onBuffer index request.signal fun plan buffer =>
      match env.codec.prepare plan request.payload with
      | .error error =>
        ⟨buffer, [.notifyNack request.ctx (some request.payload) (.newPermanent error)], none⟩
      | .ok payload =>
        buffer.acceptPayload processor.config env plan request.signal request.ctx payload

def handleResponse (callData : CallData)
    (res : Except BatchFailure Unit) : Handled (BatchProcessor P) P :=
  match callData with
  | [] => ⟨processor, [], none⟩
  | [outkey, slot] =>
    if (processor.format (slot / 3)).isNone then
      ⟨processor, [], some (.internalError "unknown batch completion buffer")⟩
    else
      processor.onBuffer (slot / 3) (signalOfSlot slot) fun _ buffer =>
        ⟨(buffer.handle outkey res).1, (buffer.handle outkey res).2, none⟩
  | _ => ⟨processor, [], some (.internalError "invalid batch completion token")⟩

/-- Flush the buffers at the given places; an error ends the loop. -/
def flushBuffers (processor : BatchProcessor P) (env : Env P) :
    List (Nat × SignalType) → Handled (BatchProcessor P) P
  | [] => ⟨processor, [], none⟩
  | (index, signal) :: places =>
    let flushed := processor.onBuffer index signal fun plan buffer =>
      buffer.flushSignalImpl processor.config env plan signal env.now .shutdown
    match flushed.error with
    | some error => ⟨flushed.state, flushed.effects, some error⟩
    | none =>
      let rest := flushed.state.flushBuffers env places
      ⟨rest.state, flushed.effects ++ rest.effects, rest.error⟩

def flushShutdown (env : Env P) : Handled (BatchProcessor P) P :=
  processor.flushBuffers env
    ((List.range processor.formats.length).flatMap fun index =>
      [(index, .logs), (index, .traces), (index, .metrics)])

def process (env : Env P) : Input P → Handled (BatchProcessor P) P
  | .pdata request => processor.processSignalImpl env request
  | .ack callData => processor.handleResponse callData (.ok ())
  | .nack callData refusal =>
    processor.handleResponse callData
      (.error (if refusal.permanent then .permanent refusal.reason
        else .retryable refusal.reason))
  | .wakeup slot time =>
    processor.onBuffer (slot / 3) (signalOfSlot slot) fun plan buffer =>
      buffer.flushSignalImpl processor.config env plan (signalOfSlot slot) time .timer
  | .shutdown => processor.flushShutdown env
  | .otherControl => ⟨processor, [], none⟩

end BatchProcessor

/-! # Requests, outputs and outcomes -/

/-- A request comes with its signal, its format and its payload, a wakeup with its slot and its
time. -/
abbrev Event (P : Type) := Node.Event (SignalType × PdataFormat × P) (Nat × Nat)

/-- An event, with the codec and the clock as they are at the time. -/
structure Action (P : Type) where
  event : Event P
  codec : Codec P
  now : Nat

structure System (P : Type) extends Node.System (BatchProcessor P) P where
  latched : Bool

namespace System

def init (config : Config) (plans : List (PdataFormat × BatchPlan)) : System P :=
  ⟨.init (.build config plans), false⟩

/-- Take in what handling a message came to. -/
def record (s : System P) (handled : Handled (BatchProcessor P) P) : System P × List (Effect P) :=
  ({ s with toSystem := s.toSystem.record id handled }, handled.effects)

/-- The processor handles a message. -/
def handle (s : System P) (action : Action P) (input : Input P) : System P × List (Effect P) :=
  s.record (s.proc.process ⟨action.codec, action.now, !s.latched⟩ input)

/-- The output has got its reply. -/
def answer (s : System P) (index : Nat) (outcome : Outcome) : System P :=
  { s with toSystem := s.toSystem.answer index outcome }

def step (s : System P) (action : Action P) : System P × List (Effect P) :=
  if s.failed.isSome then (s, [])
  else
    match action.event with
    | .request tracked peerAddr (signal, format, payload) =>
      { s with requests := s.requests ++ [tracked] }.handle action
        (.pdata ⟨⟨s.requests.length, tracked, peerAddr⟩, signal, format, payload⟩)
    | .reply index outcome =>
      match s.outputs[index]? with
      | none => (s, [])
      | some output =>
        match output.message.delivery with
        | .forwarded ctx =>
          ({ s.answer index outcome with outcomes := s.outcomes ++ [(ctx.request, outcome)] }, [])
        | .subscribed callData =>
          (s.answer index outcome).handle action
            (match outcome with
            | .ack => .ack callData
            | .nack refusal => .nack callData refusal)
        | .unsubscribed => (s.answer index outcome, [])
    | .wakeup (slot, time) => s.handle action (.wakeup slot time)
    | .latchShutdown => ({ s with latched := true }, [])
    | .shutdown => s.handle action .shutdown
    | .otherControl => s.handle action .otherControl

end System

/-! ## Remainders -/

/-- A flush of the inputs at their size keeps the last output back as a remainder, and the sender of
one of the inputs waits for an outcome. -/
def KeepsRemainder (config : Config) (codec : Codec P) (plan : BatchPlan) (signal : SignalType)
    (inputs : Inputs P) : Prop :=
  (∃ part ∈ inputs.context, part.inkey.isSome) ∧
    ∃ outputs size, plan.batch codec signal inputs.pending = .ok outputs ∧
      SignalBuffer.remainderSize config codec plan .size inputs.context outputs = .ok (some size)

/-- With this input the buffer reaches its lower limit, or is not to wait. -/
def Due (config : Config) (plan : BatchPlan) (inputs : Inputs P) : Prop :=
  config.maxBatchDuration = 0 ∨ plan.settings.lowerLimit ≤ inputs.sizeBy plan.settings.sizer

/-- The buffer, as it is before the payload arrives, takes the payload in, is then due, and keeps a
remainder. -/
def SignalBuffer.LeavesRemainder (config : Config) (codec : Codec P) (plan : BatchPlan)
    (signal : SignalType) (buffer : SignalBuffer P) (ctx : Context) (payload : P) : Prop :=
  ∃ size part, codec.batchSize plan payload = .ok size ∧ 0 < size ∧
    plan.settings.inPassthroughRange size = false ∧
    (if ctx.needsCompletionTracking then
      buffer.inbound.len < buffer.inbound.maxSize ∧
        part = ⟨some buffer.inbound.next, ctx.peerAddr⟩
    else part = ⟨none, ctx.peerAddr⟩) ∧
    Due config plan (buffer.inputs.accept payload part size) ∧
    KeepsRemainder config codec plan signal (buffer.inputs.accept payload part size)

def BatchProcessor.LeavesRemainder (codec : Codec P) (processor : BatchProcessor P)
    (request : Request P) : Prop :=
  ∃ index state payload, processor.routeOf request.format = some index ∧
    processor.format index = some state ∧
    codec.prepare state.plan request.payload = .ok payload ∧
    (state.signals.get request.signal).LeavesRemainder processor.config codec state.plan
      request.signal request.ctx payload

/-! ## Assumptions -/

/-- What is assumed of a codec.  `sources payload` are the requests whose data a payload holds: no
operation brings in data of others, and the range that is reported with an output covers the inputs
that contribute to it.  A payload that was prepared, or that the batcher returned, can be
measured. -/
structure Codec.Contract (sources : P → Set Nat) (codec : Codec P) : Prop where
  prepare_sources : ∀ plan p p', codec.prepare plan p = .ok p' → sources p' ⊆ sources p
  finish_sources : ∀ plan p p', codec.finish plan p = .ok p' → sources p' ⊆ sources p
  batch_sources : ∀ plan signal inputs result, codec.batch plan signal inputs = .ok result →
    ∀ output ∈ result.batches, ∀ r ∈ sources output.1, ∃ i p, output.2.start ≤ i ∧
      i ≤ output.2.last ∧ inputs[i]? = some p ∧ r ∈ sources p
  prepare_measured : ∀ plan p p', codec.prepare plan p = .ok p' →
    ∃ size, codec.batchSize plan p' = .ok size
  batch_measured : ∀ plan signal inputs result, codec.batch plan signal inputs = .ok result →
    ∀ output ∈ result.batches, ∃ size, codec.batchSize plan output.1 = .ok size

namespace System

/-- Outputs are answered at most once. -/
def AnswersOnce (s : System P) (action : Action P) : Prop :=
  ∀ index outcome, action.event = .reply index outcome →
    ∃ output, s.outputs[index]? = some output ∧ output.reply = none

/-- A request holds its own data only. -/
def OwnData (sources : P → Set Nat) (s : System P) (action : Action P) : Prop :=
  ∀ tracked peerAddr signal format payload,
    action.event = .request tracked peerAddr (signal, format, payload) →
      ∀ r ∈ sources payload, r = s.requests.length

/-- A request that comes after the shutdown was latched leaves no remainder. -/
def NoLateRemainder (s : System P) (action : Action P) : Prop :=
  s.failed = none → s.latched = true → ∀ tracked peerAddr signal format payload,
    action.event = .request tracked peerAddr (signal, format, payload) →
      ¬s.proc.LeavesRemainder action.codec
        ⟨⟨s.requests.length, tracked, peerAddr⟩, signal, format, payload⟩

def Ok (sources : P → Set Nat) (s : System P) (action : Action P) : Prop :=
  action.codec.Contract sources ∧ s.AnswersOnce action ∧ s.OwnData sources action ∧
    s.NoLateRemainder action

/-! ## The law -/

def Tracked (s : System P) (r : Nat) : Prop := s.requests[r]? = some true

def outcomesOf (s : System P) (r : Nat) : List Outcome :=
  Node.outcomesOf s.outcomes r

end System

/-- The buffer of a format and a signal. -/
def BatchProcessor.buffer? (processor : BatchProcessor P) (index : Nat) (signal : SignalType) :
    Option (SignalBuffer P) :=
  (processor.format index).map fun state => state.signals.get signal

/-- The number of pending portions of an input. -/
def SignalBuffer.portionsOf (buffer : SignalBuffer P) (inkey : Nat) : Nat :=
  buffer.inputs.context.countP fun part => part.inkey = some inkey

/-- The output waits for its reply in a slot of the buffer, and refers to the input. -/
def SignalBuffer.refers (buffer : SignalBuffer P) (inkey : Nat) (output : Output P) : Bool :=
  output.reply.isNone &&
    match output.message.delivery with
    | .subscribed [outkey, slot] =>
      slot = buffer.slot && (buffer.outbound.get? outkey).any fun parts =>
        parts.any fun part => part.inkey = some inkey
    | _ => false

/-- **Completion accounting.** -/
structure System.Accounted (sources : P → Set Nat) (s : System P) : Prop where
  /-- At most one outcome. -/
  once : ∀ r, (s.outcomesOf r).length ≤ 1
  /-- An ack only when every output with data of the request was acked, and none is to come. -/
  acked : ∀ r, s.Tracked r → .ack ∈ s.outcomesOf r →
    (∀ output ∈ s.outputs, r ∈ sources output.message.payload → output.reply = some .ack) ∧
      ∀ index signal buffer, s.proc.buffer? index signal = some buffer →
        ∀ payload ∈ buffer.inputs.pending, r ∉ sources payload
  /-- A nack as soon as one of them is nacked. -/
  nacked : ∀ r, s.Tracked r → ∀ output ∈ s.outputs, r ∈ sources output.message.payload →
    ∀ refusal, output.reply = some (.nack refusal) → ∃ refusal', .nack refusal' ∈ s.outcomesOf r
  /-- The outstanding count is the number of pending portions and unanswered outputs. -/
  counted : ∀ index signal buffer inkey input, s.proc.buffer? index signal = some buffer →
    buffer.inbound.get? inkey = some input →
      input.outbound = buffer.portionsOf inkey + s.outputs.countP (buffer.refers inkey)
  /-- A request without an outcome waits for a pending portion or for an unanswered output. -/
  waiting : ∀ r, s.Tracked r → s.outcomesOf r = [] →
    (∃ output ∈ s.outputs, ∃ ctx, output.reply = none ∧
      output.message.delivery = .forwarded ctx ∧ ctx.request = r) ∨
    ∃ index signal buffer inkey input, s.proc.buffer? index signal = some buffer ∧
      buffer.inbound.get? inkey = some input ∧ input.ctx.request = r ∧
      0 < buffer.portionsOf inkey + s.outputs.countP (buffer.refers inkey)

/-! # Books of a buffer

The data that a buffer has taken in is held in several places: in its pending inputs, in outputs
that are being made, and in outputs that wait for their reply.  Each holding has tokens, the keys of
the inputs that it refers to.  The outstanding count of an input is the number of its tokens
(`Counts`), and the data of a tracked request is never held without one of its tokens, unless the
request was refused (`Backed`).

`Books` says so of one buffer while it works: `loose` are the holdings that are neither pending nor
sent, `free` are tokens that belong to no holding.  The steps of the source move holdings around,
spend tokens, and remove inputs. -/

open List

/-- Data, and the keys of the inputs that it refers to. -/
structure Holding (P : Type) where
  payload : P
  tokens : List Nat

/-- The messages that wait for their reply, and the outcomes so far. -/
structure Ghost (P : Type) where
  sent : List (Sent P)
  up : List (Nat × Outcome)

def Ghost.after (g : Ghost P) (effects : List (Effect P)) : Ghost P :=
  ⟨g.sent ++ effects.filterMap Effect.sent?, g.up ++ effects.filterMap Effect.outcome?⟩

@[simp] theorem Ghost.after_nil (g : Ghost P) : g.after [] = g := by simp [Ghost.after]

theorem Ghost.after_append (g : Ghost P) (es es' : List (Effect P)) :
    g.after (es ++ es') = (g.after es).after es' := by
  simp [Ghost.after]

def keys (parts : List BatchPortion) : List Nat := parts.filterMap (·.inkey)

def pendingHoldings (inputs : Inputs P) : List (Holding P) :=
  (inputs.pending.zip inputs.context).map fun e => ⟨e.1, e.2.inkey.toList⟩

/-- What an unanswered output holds, if the buffer waits for its reply. -/
def sentHolding (b : SignalBuffer P) (message : Sent P) : Option (Holding P) :=
  match message.delivery with
  | .subscribed [outkey, slot] =>
    if slot = b.slot then (b.outbound.get? outkey).map fun parts => ⟨message.payload, keys parts⟩
    else none
  | _ => none

def holdings (b : SignalBuffer P) (loose : List (Holding P)) (g : Ghost P) : List (Holding P) :=
  pendingHoldings b.inputs ++ loose ++ g.sent.filterMap (sentHolding b)

def tokens (hs : List (Holding P)) (free : List Nat) : List Nat := hs.flatMap (·.tokens) ++ free

/-- The input waits in a slot. -/
def Live (inbound : Slots BatchContext) (k r : Nat) : Prop :=
  ∃ c, inbound.get? k = some c ∧ c.ctx.request = r

variable {up : List (Nat × Outcome)} {r : Nat} {toks : List Nat}

theorem noted_snoc {r' : Nat} {o : Outcome} : Noted (up ++ [(r', o)]) r ↔ Noted up r ∨ r = r' := by
  simp [Noted]

/-! ## The parts of the books -/

/-- Outcomes and waiting inputs exclude each other, and no tracked request is without both.
`elsewhere` are the requests that wait outside the buffer. -/
structure Settlement (ledger : List Bool) (elsewhere : Nat → Prop) (inbound : Slots BatchContext)
    (up : List (Nat × Outcome)) : Prop where
  once : (up.map Prod.fst).Nodup
  past : ∀ r, Noted up r → r < ledger.length
  owed : ∀ r, ledger[r]? = some true → Noted up r ∨ (∃ k, Live inbound k r) ∨ elsewhere r
  apart : ∀ r, elsewhere r → r < ledger.length ∧ ¬Noted up r ∧ ∀ k, ¬Live inbound k r
  waiting : ∀ k r, Live inbound k r → ledger[r]? = some true ∧ ¬Noted up r
  distinct : ∀ k k' r, Live inbound k r → Live inbound k' r → k = k'

/-- The outstanding counts are the numbers of tokens. -/
structure Counts (inbound : Slots BatchContext) (toks : List Nat) : Prop where
  counted : ∀ k c, inbound.get? k = some c → c.outbound = toks.count k ∧ 0 < c.outbound
  issued : ∀ k ∈ toks, k < inbound.next

/-- The data of a tracked request is held with a token of the request, or the request was
refused. -/
def Backed (sources : P → Set Nat) (ledger : List Bool) (inbound : Slots BatchContext)
    (up : List (Nat × Outcome)) (h : Holding P) : Prop :=
  ∀ r ∈ sources h.payload, ∃ tracked, ledger[r]? = some tracked ∧
    (tracked = true → (∃ k ∈ h.tokens, Live inbound k r) ∨ Nacked up r)

structure Shape (b : SignalBuffer P) (loose : List (Holding P)) (g : Ghost P) : Prop where
  aligned : b.inputs.pending.length = b.inputs.context.length
  pendingOnce : (keys b.inputs.context).Nodup
  looseOnce : ∀ h ∈ loose, h.tokens.Nodup
  partsOnce : ∀ outkey parts, b.outbound.get? outkey = some parts → (keys parts).Nodup
  keyed : ∀ m ∈ g.sent, ∀ outkey, m.delivery = .subscribed [outkey, b.slot] →
    ∃ parts, b.outbound.get? outkey = some parts
  calls : (g.sent.filterMap Sent.callData?).Nodup

structure Books (sources : P → Set Nat) (ledger : List Bool) (elsewhere : Nat → Prop)
    (b : SignalBuffer P) (loose : List (Holding P)) (free : List Nat) (g : Ghost P) : Prop where
  settlement : Settlement ledger elsewhere b.inbound g.up
  counts : Counts b.inbound (tokens (holdings b loose g) free)
  backed : ∀ h ∈ holdings b loose g, Backed sources ledger b.inbound g.up h
  stray : ∀ m ∈ g.sent, m.delivery = .unsubscribed →
    Backed sources ledger b.inbound g.up ⟨m.payload, []⟩
  shape : Shape b loose g

/-! ## An input leaves its slot -/

variable {inbound inbound' : Slots BatchContext} {ledger : List Bool} {c : BatchContext}

section

variable {k : Nat}

theorem live_erase {k' : Nat} : Live (inbound.erase k) k' r ↔ k' ≠ k ∧ Live inbound k' r := by
  by_cases hk : k' = k <;> simp [Live, hk]

theorem live_modify {k' : Nat} {f : BatchContext → BatchContext} (hf : ∀ c, (f c).ctx = c.ctx) :
    Live (inbound.modify k f) k' r ↔ Live inbound k' r := by
  by_cases hk : k' = k
  · subst hk
    simp [Live, hf]
  · simp [Live, hk]

section

variable {elsewhere elsewhere' : Nat → Prop}

/-- The same requests wait, in a slot or elsewhere. -/
theorem Settlement.view (h : Settlement ledger elsewhere inbound up)
    (hiff : ∀ r, (∃ k, Live inbound' k r) ∨ elsewhere' r ↔ (∃ k, Live inbound k r) ∨ elsewhere r)
    (hdisj : ∀ r, elsewhere' r → ∀ k, ¬Live inbound' k r)
    (htracked : ∀ k r, Live inbound' k r → ledger[r]? = some true)
    (hdistinct : ∀ k k' r, Live inbound' k r → Live inbound' k' r → k = k') :
    Settlement ledger elsewhere' inbound' up := by
  have hopen : ∀ r, (∃ k, Live inbound' k r) ∨ elsewhere' r → r < ledger.length ∧ ¬Noted up r := by
    intro r hr
    rcases (hiff r).mp hr with ⟨k, hk⟩ | hr
    · obtain ⟨ht, hn⟩ := h.waiting k r hk
      exact ⟨(List.getElem?_eq_some_iff.mp ht).1, hn⟩
    · obtain ⟨hlt, hn, -⟩ := h.apart r hr
      exact ⟨hlt, hn⟩
  refine ⟨h.once, h.past, fun r hr => ?_, fun r hr => ?_, fun k r hk => ?_, hdistinct⟩
  · exact (h.owed r hr).imp_right (hiff r).mpr
  · obtain ⟨hlt, hn⟩ := hopen r (.inr hr)
    exact ⟨hlt, hn, hdisj r hr⟩
  · exact ⟨htracked k r hk, (hopen r (.inl ⟨k, hk⟩)).2⟩

/-- A request that waited elsewhere is told its outcome. -/
theorem Settlement.inform (hr : ¬elsewhere r)
    (h : Settlement ledger (fun r' => elsewhere r' ∨ r' = r) inbound up) (o : Outcome) :
    Settlement ledger elsewhere inbound (up ++ [(r, o)]) := by
  obtain ⟨hpast, hnoted, hlive⟩ := h.apart r (.inr rfl)
  refine ⟨?_, ?_, ?_, ?_, ?_, h.distinct⟩
  · rw [map_append]
    refine nodup_append.mpr ⟨h.once, nodup_singleton _, ?_⟩
    rintro x hx x' hx' rfl
    have heq : x = r := by simpa using hx'
    exact hnoted (heq ▸ hx)
  · intro x hx
    rcases noted_snoc.mp hx with hx | rfl
    · exact h.past x hx
    · exact hpast
  · intro x hx
    rcases h.owed x hx with hn | hl | he | rfl
    · exact .inl (hn.append _)
    · exact .inr (.inl hl)
    · exact .inr (.inr he)
    · exact .inl (noted_snoc.mpr (.inr rfl))
  · intro x hx
    obtain ⟨hlt, hn, hl⟩ := h.apart x (.inl hx)
    refine ⟨hlt, fun hnx => ?_, hl⟩
    rcases noted_snoc.mp hnx with hnx | rfl
    · exact hn hnx
    · exact hr hx
  · intro k x hk
    obtain ⟨ht, hn⟩ := h.waiting k x hk
    refine ⟨ht, fun hnx => ?_⟩
    rcases noted_snoc.mp hnx with hnx | rfl
    · exact hn hnx
    · exact hlive k hk

end

theorem Settlement.leave {elsewhere : Nat → Prop}
    (h : Settlement ledger elsewhere inbound up) (hk : inbound.get? k = some c) (o : Outcome) :
    Settlement ledger elsewhere (inbound.erase k) (up ++ [(c.ctx.request, o)]) := by
  have hlive : Live inbound k c.ctx.request := ⟨c, hk, rfl⟩
  have helse : ¬elsewhere c.ctx.request := fun he => (h.apart _ he).2.2 k hlive
  refine Settlement.inform helse (h.view ?_ ?_ ?_ ?_) o
  · intro r
    constructor
    · rintro (⟨k', hk'⟩ | he | rfl)
      · exact .inl ⟨k', (live_erase.mp hk').2⟩
      · exact .inr he
      · exact .inl ⟨k, hlive⟩
    · rintro (⟨k', hk'⟩ | he)
      · by_cases hkk : k' = k
        · subst hkk
          obtain ⟨c', hc', rfl⟩ := hk'
          rw [hk] at hc'
          cases hc'
          exact .inr (.inr rfl)
        · exact .inl ⟨k', live_erase.mpr ⟨hkk, hk'⟩⟩
      · exact .inr (.inl he)
  · rintro r (he | rfl) k' hk'
    · exact (h.apart r he).2.2 k' (live_erase.mp hk').2
    · obtain ⟨hne, hk'⟩ := live_erase.mp hk'
      exact hne (h.distinct _ _ _ hk' hlive)
  · exact fun k' r hk' => (h.waiting k' r (live_erase.mp hk').2).1
  · exact fun k₁ k₂ r h₁ h₂ => h.distinct _ _ _ (live_erase.mp h₁).2 (live_erase.mp h₂).2

theorem Counts.erase (h : Counts inbound toks) (k : Nat) : Counts (inbound.erase k) toks where
  counted := by
    intro k' c' hk'
    rw [Slots.get?_erase] at hk'
    split at hk'
    · cases hk'
    · exact h.counted k' c' hk'
  issued := h.issued

/-- Who loses the input is refused, or did not depend on it. -/
theorem Backed.leave {sources : P → Set Nat} {h : Holding P}
    (hb : Backed sources ledger inbound up h) (hk : inbound.get? k = some c) {o : Outcome}
    (ho : k ∈ h.tokens → ∃ refusal, o = .nack refusal) :
    Backed sources ledger (inbound.erase k) (up ++ [(c.ctx.request, o)]) h := by
  intro r hr
  obtain ⟨tracked, htracked, hback⟩ := hb r hr
  refine ⟨tracked, htracked, fun ht => ?_⟩
  rcases hback ht with ⟨k', hk', hlive⟩ | hnacked
  · by_cases hkk : k' = k
    · subst hkk
      obtain ⟨refusal, rfl⟩ := ho hk'
      obtain ⟨c', hc', rfl⟩ := hlive
      rw [hk] at hc'
      cases hc'
      exact .inr ⟨refusal, mem_append_right _ (mem_singleton_self _)⟩
    · exact .inl ⟨k', hk', live_erase.mpr ⟨hkk, hlive⟩⟩
  · exact .inr (hnacked.append _)

end

section

variable {sources : P → Set Nat} {elsewhere : Nat → Prop}
  {b : SignalBuffer P} {loose : List (Holding P)} {free : List Nat} {g : Ghost P}

variable {b' : SignalBuffer P} {g' : Ghost P} {hd : Holding P}
  {loose' : List (Holding P)} {k : Nat}

theorem Shape.congr (h : Shape b loose g) (hin : b'.inputs = b.inputs)
    (hout : b'.outbound = b.outbound) (hslot : b'.slot = b.slot) (hsent : g'.sent = g.sent) :
    Shape b' loose g' where
  aligned := by rw [hin]; exact h.aligned
  pendingOnce := by rw [hin]; exact h.pendingOnce
  looseOnce := h.looseOnce
  partsOnce := by rw [hout]; exact h.partsOnce
  keyed := by rw [hsent, hslot, hout]; exact h.keyed
  calls := by rw [hsent]; exact h.calls

theorem holdings_congr (hin : b'.inputs = b.inputs) (hout : b'.outbound = b.outbound)
    (hslot : b'.slot = b.slot) (hsent : g'.sent = g.sent) :
    holdings b' loose g' = holdings b loose g := by
  have hfun : sentHolding b' = sentHolding b := by
    funext m
    simp [sentHolding, hout, hslot]
  rw [holdings, holdings, hin, hsent, hfun]

/-! ## Steps at which nobody leaves -/

theorem Settlement.congr (h : Settlement ledger elsewhere inbound up)
    (hlive : ∀ k r, Live inbound' k r ↔ Live inbound k r) :
    Settlement ledger elsewhere inbound' up where
  once := h.once
  past := h.past
  owed := by simpa only [hlive] using h.owed
  apart := by simpa only [hlive] using h.apart
  waiting := by simpa only [hlive] using h.waiting
  distinct := by simpa only [hlive] using h.distinct

theorem Backed.congr (h : Backed sources ledger inbound up hd)
    (hlive : ∀ k r, Live inbound' k r ↔ Live inbound k r) :
    Backed sources ledger inbound' up hd := by
  simpa only [Backed, hlive] using h

/-- Data with fewer sources, held with the tokens of the inputs that wait still. -/
theorem Backed.mono {hd' : Holding P} (h : Backed sources ledger inbound up hd)
    (hsources : sources hd'.payload ⊆ sources hd.payload)
    (htokens : ∀ k ∈ hd.tokens, (inbound.get? k).isSome → k ∈ hd'.tokens) :
    Backed sources ledger inbound up hd' := by
  intro r hr
  obtain ⟨tracked, htracked, hback⟩ := h r (hsources hr)
  refine ⟨tracked, htracked, fun ht => (hback ht).imp_left ?_⟩
  rintro ⟨k, hk, c, hc, rfl⟩
  exact ⟨k, htokens k hk (by rw [hc]; rfl), c, hc, rfl⟩

theorem Books.rearrange {free' : List Nat} (h : Books sources ledger elsewhere b loose free g)
    (hlive : ∀ k r, Live b'.inbound k r ↔ Live b.inbound k r) (hup : g'.up = g.up)
    (hcounts : Counts b'.inbound (tokens (holdings b' loose' g') free'))
    (hbacked : ∀ hd ∈ holdings b' loose' g', Backed sources ledger b.inbound g.up hd)
    (hstray : ∀ m ∈ g'.sent, m.delivery = .unsubscribed →
      Backed sources ledger b.inbound g.up ⟨m.payload, []⟩) (hshape : Shape b' loose' g') :
    Books sources ledger elsewhere b' loose' free' g' where
  settlement := by rw [hup]; exact h.settlement.congr hlive
  counts := hcounts
  backed := fun hd hmem => by rw [hup]; exact (hbacked hd hmem).congr hlive
  stray := fun m hm hd => by rw [hup]; exact (hstray m hm hd).congr hlive
  shape := hshape

theorem Counts.perm {toks' : List Nat} (h : Counts inbound toks) (hp : toks'.Perm toks) :
    Counts inbound toks' where
  counted := fun k c hk => by rw [hp.count_eq]; exact h.counted k c hk
  issued := fun k hk => h.issued k (hp.mem_iff.mp hk)

theorem tokens_perm {hs hs' : List (Holding P)} (hp : hs'.Perm hs) (free : List Nat) :
    (tokens hs' free).Perm (tokens hs free) :=
  (hp.flatMap_right _).append_right _

theorem tokens_free_cons (hs : List (Holding P)) (k : Nat) (free : List Nat) :
    (tokens hs (k :: free)).Perm (k :: tokens hs free) := perm_middle

theorem tokens_cons (hd : Holding P) (hs : List (Holding P)) (free : List Nat) :
    (tokens (hd :: hs) free).Perm (tokens hs (hd.tokens ++ free)) := by
  rw [tokens, tokens, flatMap_cons]
  exact (perm_append_comm.append_right free).trans (by rw [append_assoc])

theorem holdings_cons (hd : Holding P) :
    (holdings b (hd :: loose) g).Perm (hd :: holdings b loose g) := by
  rw [holdings, holdings, append_assoc, append_assoc]
  exact perm_middle

theorem holdings_loose_perm (hp : loose'.Perm loose) :
    (holdings b loose' g).Perm (holdings b loose g) :=
  (hp.append_left _).append_right _

theorem Books.perm (h : Books sources ledger elsewhere b loose free g) (hp : loose'.Perm loose) :
    Books sources ledger elsewhere b loose' free g :=
  h.rearrange (fun _ _ => Iff.rfl) rfl (h.counts.perm (tokens_perm (holdings_loose_perm hp) _))
    (fun hd hmem => h.backed hd ((holdings_loose_perm hp).mem_iff.mp hmem)) h.stray
    { h.shape with looseOnce := fun hd hmem => h.shape.looseOnce hd (hp.mem_iff.mp hmem) }

/-- The clock and the wakeup are not in the books. -/
theorem Books.congr (h : Books sources ledger elsewhere b loose free g) (hin : b'.inputs = b.inputs)
    (hinbound : b'.inbound = b.inbound) (hout : b'.outbound = b.outbound)
    (hslot : b'.slot = b.slot) :
    Books sources ledger elsewhere b' loose free g := by
  have hold : holdings b' loose g = holdings b loose g := holdings_congr hin hout hslot rfl
  refine h.rearrange (by simp [hinbound]) rfl ?_ ?_ h.stray (h.shape.congr hin hout hslot rfl)
  · rw [hold, hinbound]
    exact h.counts
  · rw [hold]
    exact h.backed

/-! ## Tokens -/

section

variable (h : Counts inbound (k :: toks))

include h

theorem Counts.dead (hk : inbound.get? k = none) : Counts inbound toks where
  counted := by
    intro k' c hk'
    have hne : k ≠ k' := by
      rintro rfl
      rw [hk] at hk'
      cases hk'
    rw [← count_cons_of_ne hne]
    exact h.counted k' c hk'
  issued := fun k' hk' => h.issued k' (mem_cons_of_mem _ hk')

theorem Counts.spend (hk : inbound.get? k = some c) (hmore : 1 < c.outbound) :
    Counts (inbound.modify k fun _ => { c with outbound := c.outbound - 1 }) toks where
  counted := by
    intro k' c' hk'
    rw [Slots.get?_modify] at hk'
    split_ifs at hk' with hkk
    · subst hkk
      rw [hk] at hk'
      cases hk'
      have hcount := (h.counted k' c hk).1
      rw [count_cons_self] at hcount
      show c.outbound - 1 = toks.count k' ∧ 0 < c.outbound - 1
      omega
    · rw [← count_cons_of_ne (Ne.symm hkk)]
      exact h.counted k' c' hk'
  issued := fun k' hk' => h.issued k' (mem_cons_of_mem _ hk')

theorem Counts.last (hk : inbound.get? k = some c) (hlast : ¬1 < c.outbound) : k ∉ toks := by
  have hcount := (h.counted k c hk).1
  rw [count_cons_self] at hcount
  exact count_eq_zero.mp (by omega)

end

theorem Counts.add (h : Counts inbound toks) (hk : k < inbound.next) :
    Counts (inbound.modify k fun c => { c with outbound := c.outbound + 1 }) (k :: toks) where
  counted := by
    intro k' c' hk'
    rw [Slots.get?_modify] at hk'
    split_ifs at hk' with hkk
    · subst hkk
      obtain ⟨c, hc, rfl⟩ := Option.map_eq_some_iff.mp hk'
      rw [count_cons_self, (h.counted k' c hc).1]
      exact ⟨rfl, Nat.succ_pos _⟩
    · rw [count_cons_of_ne (Ne.symm hkk)]
      exact h.counted k' c' hk'
  issued := by
    intro k' hk'
    rcases mem_cons.mp hk' with rfl | hk'
    · exact hk
    · exact h.issued k' hk'

section

variable (h : Books sources ledger elsewhere b loose (k :: free) g)

include h

/-- A token of an input that has left. -/
theorem Books.dropToken
    (hk : b.inbound.get? k = none) : Books sources ledger elsewhere b loose free g :=
  h.rearrange (fun _ _ => Iff.rfl) rfl
    ((h.counts.perm (tokens_free_cons _ _ _).symm).dead hk) h.backed h.stray h.shape

/-- A token is spent, and others of its input are left. -/
theorem Books.spend (hk : b.inbound.get? k = some c) (hmore : 1 < c.outbound) :
    Books sources ledger elsewhere
      { b with inbound := b.inbound.modify k fun _ => { c with outbound := c.outbound - 1 } }
      loose free g := by
  have hlive : ∀ k' r,
      Live (b.inbound.modify k fun _ => { c with outbound := c.outbound - 1 }) k' r ↔
        Live b.inbound k' r := by
    intro k' r
    by_cases hkk : k' = k
    · subst hkk
      simp [Live, hk]
    · simp [Live, hkk]
  exact h.rearrange hlive rfl ((h.counts.perm (tokens_free_cons _ _ _).symm).spend hk hmore)
    h.backed h.stray (h.shape.congr rfl rfl rfl rfl)

/-- The last token is spent: the input is acked. -/
theorem Books.spendLast (hk : b.inbound.get? k = some c) (hlast : ¬1 < c.outbound) :
    Books sources ledger elsewhere { b with inbound := b.inbound.erase k } loose free
      ⟨g.sent, g.up ++ [(c.ctx.request, .ack)]⟩ := by
  have hcounts := h.counts.perm (tokens_free_cons _ _ _).symm
  have hnot := hcounts.last hk hlast
  have hrest : Books sources ledger elsewhere { b with inbound := b.inbound.erase k } loose
      (k :: free) ⟨g.sent, g.up ++ [(c.ctx.request, .ack)]⟩ := by
    refine ⟨h.settlement.leave hk _, h.counts.erase k, ?_, ?_, h.shape.congr rfl rfl rfl rfl⟩
    · intro hd hmem
      refine (h.backed hd hmem).leave hk fun hkt => absurd ?_ hnot
      exact mem_append_left _ (mem_flatMap.mpr ⟨hd, hmem, hkt⟩)
    · exact fun m hm hd => (h.stray m hm hd).leave hk fun hkt => absurd hkt not_mem_nil
  exact hrest.dropToken (by simp)

end

/-- An input is refused. -/
theorem Books.refuse (h : Books sources ledger elsewhere b loose free g)
    (hk : b.inbound.get? k = some c) (refusal : Refusal) :
    Books sources ledger elsewhere { b with inbound := b.inbound.erase k } loose free
      ⟨g.sent, g.up ++ [(c.ctx.request, .nack refusal)]⟩ where
  settlement := h.settlement.leave hk _
  counts := h.counts.erase k
  backed := fun hd hmem => (h.backed hd hmem).leave hk fun _ => ⟨refusal, rfl⟩
  stray := fun m hm hd => (h.stray m hm hd).leave hk fun _ => ⟨refusal, rfl⟩
  shape := h.shape.congr rfl rfl rfl rfl

/-- One more output will refer to an input. -/
theorem Books.addToken (h : Books sources ledger elsewhere b loose free g)
    (hk : k < b.inbound.next) :
    Books sources ledger elsewhere
      { b with inbound := b.inbound.modify k fun c => { c with outbound := c.outbound + 1 } }
      loose (k :: free) g :=
  h.rearrange (fun _ _ => live_modify fun _ => rfl) rfl
    ((h.counts.add hk).perm (tokens_free_cons _ _ _)) h.backed h.stray
    (h.shape.congr rfl rfl rfl rfl)

/-! ## Holdings -/

/-- Data is dropped; its tokens remain. -/
theorem Books.release (h : Books sources ledger elsewhere b (hd :: loose) free g) :
    Books sources ledger elsewhere b loose (hd.tokens ++ free) g :=
  h.rearrange (fun _ _ => Iff.rfl) rfl
    (h.counts.perm ((tokens_cons _ _ _).symm.trans (tokens_perm (holdings_cons hd).symm _)))
    (fun hd' hmem => h.backed hd' ((holdings_cons hd).mem_iff.mpr (mem_cons_of_mem _ hmem)))
    h.stray
    { h.shape with looseOnce := fun hd' hmem => h.shape.looseOnce hd' (mem_cons_of_mem _ hmem) }

theorem Books.releaseAll {hs : List (Holding P)}
    (h : Books sources ledger elsewhere b (hs ++ loose) free g) :
    Books sources ledger elsewhere b loose (hs.flatMap (·.tokens) ++ free) g := by
  induction hs generalizing free with
  | nil => exact h
  | cons hd hs ih =>
    have hrest := ih h.release
    refine hrest.rearrange (fun _ _ => Iff.rfl) rfl (hrest.counts.perm ?_) hrest.backed hrest.stray
      hrest.shape
    refine List.Perm.append_left _ ?_
    rw [flatMap_cons, append_assoc]
    exact perm_append_comm_assoc _ _ _

/-- Tokens become those of data. -/
theorem Books.attach (h : Books sources ledger elsewhere b loose (hd.tokens ++ free) g)
    (hback : Backed sources ledger b.inbound g.up hd) (honce : hd.tokens.Nodup) :
    Books sources ledger elsewhere b (hd :: loose) free g := by
  refine h.rearrange (fun _ _ => Iff.rfl) rfl
    (h.counts.perm ((tokens_perm (holdings_cons hd) _).trans (tokens_cons _ _ _))) ?_ h.stray
    { h.shape with looseOnce := ?_ }
  · intro hd' hmem
    rcases mem_cons.mp ((holdings_cons hd).mem_iff.mp hmem) with rfl | hmem
    · exact hback
    · exact h.backed hd' hmem
  · intro hd' hmem
    rcases mem_cons.mp hmem with rfl | hmem
    · exact honce
    · exact h.shape.looseOnce hd' hmem

theorem Books.dropTokens {ks : List Nat} (h : Books sources ledger elsewhere b loose (ks ++ free) g)
    (hks : ∀ k ∈ ks, b.inbound.get? k = none) : Books sources ledger elsewhere b loose free g := by
  induction ks with
  | nil => exact h
  | cons k ks ih =>
    exact ih (h.dropToken (hks k mem_cons_self)) fun k' hk' =>
      hks k' (mem_cons_of_mem _ hk')

end

end OtapDataflow.Batch
