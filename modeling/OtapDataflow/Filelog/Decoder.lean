import OtapDataflow.Lib.Utf8
import OtapDataflow.Lib.Word

/-! # The streaming source decoder

`StreamDecoder` turns the bytes of a source into units, one per call, whatever the cuts
between the inputs of successive calls.  Bytes of a unit that has not ended are carried over:
in the probe for an initial byte-order mark, as a UTF-8 prefix, or as an odd byte and a high
surrogate of UTF-16.  Bytes that were read too early are replayed or queued.

A function that can fail returns the cursor as it is at the failure, since the bytes it has
consumed by then are reported to the caller. -/

namespace OtapDataflow.Filelog

open Word

/-! ## Types -/

inductive Encoding where
  | utf8
  | ascii
  | utf16Le
  | utf16Be
  | raw
  deriving DecidableEq, Repr

inductive OnDecodeError where
  | preserveRaw
  | replace
  | fail
  deriving DecidableEq, Repr

/-- A half-open range of source offsets. -/
structure SourceRange where
  start : Nat
  stop : Nat
  deriving DecidableEq, Repr

/-- The exact source bytes of a unit. -/
abbrev SourceBytes := Bytes

inductive DecodedValue where
  | scalar (c : Char)
  | rawByte (b : UInt8)
  deriving DecidableEq, Repr

inductive DecodeEvent where
  | unit (range : SourceRange) (source : SourceBytes) (value : DecodedValue) (malformed : Bool)
  | strippedBom (range : SourceRange) (source : SourceBytes)
  deriving DecidableEq, Repr

namespace DecodeEvent

def range : DecodeEvent → SourceRange
  | .unit range _ _ _ => range
  | .strippedBom range _ => range

def source : DecodeEvent → SourceBytes
  | .unit _ source _ _ => source
  | .strippedBom _ source => source

end DecodeEvent

structure DecodeStep where
  consumed : Nat
  event : Option DecodeEvent
  deriving DecidableEq, Repr

inductive DecodeError where
  | offsetDiscontinuity (expected actual : Nat)
  | sourceOffsetOverflow
  | drainRequired
  | fatalMalformed (range : SourceRange) (sourceBytes : SourceBytes)
  deriving DecidableEq, Repr

structure DecodeFailure where
  consumed : Nat
  error : DecodeError
  deriving DecidableEq, Repr

inductive DecodeStart where
  | newStream
  | resumeAt (offset : Nat)
  deriving DecidableEq, Repr

def DecodeStart.offset : DecodeStart → Nat
  | .newStream => 0
  | .resumeAt offset => offset

/-- `malformed_event` -/
def malformedEvent (policy : OnDecodeError) (range : SourceRange) (source : SourceBytes) :
    Except DecodeError DecodeEvent :=
  match policy with
  | .preserveRaw | .replace => .ok (.unit range source (.scalar '�') true)
  | .fail => .error (.fatalMalformed range source)

/-- `checked_add(1)` on an offset. -/
def offsetAfter (offset : Nat) : Except DecodeError Nat :=
  match checkedAdd offset 1 with
  | some next => .ok next
  | none => .error .sourceOffsetOverflow

def oneByteRange (start : Nat) : Except DecodeError SourceRange :=
  (offsetAfter start).map fun stop => ⟨start, stop⟩

/-! ## The byte cursor -/

/-- Bytes of a probe that has diverged, to be read again. -/
structure ReplayBytes where
  bytes : Bytes
  start : Nat
  pos : Nat
  deriving DecidableEq, Repr

namespace ReplayBytes

def empty : ReplayBytes := ⟨[], 0, 0⟩

def load (start : Nat) (bytes : Bytes) : ReplayBytes := ⟨bytes, start, 0⟩

def drained (r : ReplayBytes) : Bool := r.pos == r.bytes.length

def peek (r : ReplayBytes) : Except DecodeError (Option (UInt8 × Nat)) :=
  match r.bytes[r.pos]? with
  | none => .ok none
  | some byte =>
    match checkedAdd r.start r.pos with
    | some offset => .ok (some (byte, offset))
    | none => .error .sourceOffsetOverflow

def consume (r : ReplayBytes) : ReplayBytes := { r with pos := r.pos + 1 }

end ReplayBytes

inductive ByteOrigin where
  | replay
  | input
  deriving DecidableEq, Repr

structure NextByte where
  byte : UInt8
  offset : Nat
  origin : ByteOrigin

structure ByteCursor where
  replay : ReplayBytes
  nextInputOffset : Nat
  input : Bytes
  consumed : Nat

namespace ByteCursor

def peek (cursor : ByteCursor) : Except DecodeError (Option NextByte) :=
  match cursor.replay.peek with
  | .error e => .error e
  | .ok (some (byte, offset)) => .ok (some ⟨byte, offset, .replay⟩)
  | .ok none =>
    .ok (cursor.input[cursor.consumed]?.map fun byte => ⟨byte, cursor.nextInputOffset, .input⟩)

def consume (cursor : ByteCursor) (next : NextByte) : ByteCursor × Except DecodeError Unit :=
  match next.origin with
  | .replay => ({ cursor with replay := cursor.replay.consume }, .ok ())
  | .input =>
    match offsetAfter cursor.nextInputOffset with
    | .error e => (cursor, .error e)
    | .ok offset =>
      ({ cursor with nextInputOffset := offset, consumed := cursor.consumed + 1 }, .ok ())

def take (cursor : ByteCursor) : ByteCursor × Except DecodeError (Option NextByte) :=
  match cursor.peek with
  | .error e => (cursor, .error e)
  | .ok none => (cursor, .ok none)
  | .ok (some next) =>
    match cursor.consume next with
    | (cursor, .error e) => (cursor, .error e)
    | (cursor, .ok ()) => (cursor, .ok (some next))

end ByteCursor

/-! ## The byte-order mark -/

inductive BomKind where
  | utf8
  | utf16Le
  | utf16Be
  deriving DecidableEq, Repr

namespace BomKind

def all : List BomKind := [.utf8, .utf16Le, .utf16Be]

def bytes : BomKind → Bytes
  | .utf8 => [0xef, 0xbb, 0xbf]
  | .utf16Le => [0xff, 0xfe]
  | .utf16Be => [0xfe, 0xff]

def «matches» : BomKind → Encoding → Bool
  | .utf8, .utf8 => true
  | .utf16Le, .utf16Le => true
  | .utf16Be, .utf16Be => true
  | _, _ => false

end BomKind

structure BomProbe where
  bytes : Bytes
  start : Nat
  encoding : Encoding
  deriving DecidableEq, Repr

inductive BomProgress where
  | pending
  | continue
  | event (event : DecodeEvent)

/-- The loop of `process_bom_probe`.  Every round takes a byte, and the third byte ends it. -/
def processBomProbe (policy : OnDecodeError) :
    Nat → BomProbe → ByteCursor → Option BomProbe × ByteCursor × Except DecodeError BomProgress
  | 0, probe, cursor => (some probe, cursor, .ok .pending)
  | fuel + 1, probe, cursor =>
    match cursor.take with
    | (cursor, .error e) => (some probe, cursor, .error e)
    | (cursor, .ok none) => (some probe, cursor, .ok .pending)
    | (cursor, .ok (some next)) =>
      let active := { probe with bytes := probe.bytes ++ [next.byte] }
      match BomKind.all.find? fun kind => decide (kind.bytes = active.bytes) with
      | some kind =>
        let range : SourceRange := ⟨active.start, cursor.nextInputOffset⟩
        if kind.matches active.encoding then
          (none, cursor, .ok (.event (.strippedBom range active.bytes)))
        else (none, cursor, (malformedEvent policy range active.bytes).map .event)
      | none =>
        if BomKind.all.any fun kind => active.bytes.isPrefixOf kind.bytes then
          processBomProbe policy fuel active cursor
        else
          (none, { cursor with replay := .load active.start active.bytes }, .ok .continue)

/-! ## UTF-8 -/

/-- The pending bytes of a sequence and where they start. -/
structure Utf8State where
  bytes : Bytes
  start : Nat
  deriving DecidableEq, Repr

inductive Decision where
  | scalar (c : Char)
  | incomplete
  | malformed (len : Nat)
  deriving DecidableEq, Repr

def utf8Decision (candidate : Bytes) : Decision :=
  match Utf8.fromUtf8 candidate with
  | .ok chars => .scalar (chars.headD default)
  | .error error =>
    match error.errorLen with
    | some len => .malformed len
    | none => .incomplete

/-- The loop of `decode_utf8`.  A round that goes on takes a byte of the cursor. -/
def decodeUtf8 (policy : OnDecodeError) : Nat → Utf8State → ByteCursor →
    Utf8State × ByteCursor × Except DecodeError (Option DecodeEvent)
  | 0, state, cursor => (state, cursor, .ok none)
  | fuel + 1, state, cursor =>
    match cursor.peek with
    | .error e => (state, cursor, .error e)
    | .ok none => (state, cursor, .ok none)
    | .ok (some next) =>
      let candidate := state.bytes ++ [next.byte]
      let start := if state.bytes.length = 0 then next.offset else state.start
      match utf8Decision candidate with
      | .scalar value =>
        match cursor.consume next with
        | (cursor, .error e) => (state, cursor, .error e)
        | (cursor, .ok ()) =>
          ({ state with bytes := [] }, cursor, (offsetAfter next.offset).map fun stop =>
            some (.unit ⟨start, stop⟩ candidate (.scalar value) false))
      | .incomplete =>
        match cursor.consume next with
        | (cursor, .error e) => (state, cursor, .error e)
        | (cursor, .ok ()) => decodeUtf8 policy fuel ⟨candidate, start⟩ cursor
      | .malformed errorLen =>
        if errorLen = candidate.length then
          match cursor.consume next with
          | (cursor, .error e) => (state, cursor, .error e)
          | (cursor, .ok ()) =>
            ({ state with bytes := [] }, cursor, (offsetAfter next.offset).bind fun stop =>
              (malformedEvent policy ⟨start, stop⟩ (candidate.take errorLen)).map some)
        else
          -- the byte is looked at again by the next call
          ({ state with bytes := [] }, cursor,
            match checkedAdd state.start errorLen with
            | none => .error .sourceOffsetOverflow
            | some stop =>
              (malformedEvent policy ⟨state.start, stop⟩ (candidate.take errorLen)).map some)

/-! ## ASCII and raw bytes -/

def decodeAscii (policy : OnDecodeError) (cursor : ByteCursor) :
    ByteCursor × Except DecodeError (Option DecodeEvent) :=
  match cursor.take with
  | (cursor, .error e) => (cursor, .error e)
  | (cursor, .ok none) => (cursor, .ok none)
  | (cursor, .ok (some next)) =>
    (cursor, (oneByteRange next.offset).bind fun range =>
      if next.byte ≤ 0x7f then
        .ok (some (.unit range [next.byte] (.scalar (Char.ofNat next.byte.toNat)) false))
      else (malformedEvent policy range [next.byte]).map some)

def decodeRaw (cursor : ByteCursor) : ByteCursor × Except DecodeError (Option DecodeEvent) :=
  match cursor.take with
  | (cursor, .error e) => (cursor, .error e)
  | (cursor, .ok none) => (cursor, .ok none)
  | (cursor, .ok (some next)) =>
    (cursor, (oneByteRange next.offset).map fun range =>
      some (.unit range [next.byte] (.rawByte next.byte) false))

/-! ## UTF-16 -/

inductive Endian where
  | little
  | big
  deriving DecidableEq, Repr

def Endian.decode : Endian → UInt8 → UInt8 → Nat
  | .little, a, b => a.toNat + 256 * b.toNat
  | .big, a, b => 256 * a.toNat + b.toNat

structure Utf16Unit where
  start : Nat
  stop : Nat
  first : UInt8
  second : UInt8
  value : Nat
  deriving DecidableEq, Repr

def Utf16Unit.bytes (unit : Utf16Unit) : Bytes := [unit.first, unit.second]

structure Utf16State where
  endian : Endian
  odd : Option (Nat × UInt8)
  high : Option Utf16Unit
  queued : Option Utf16Unit
  deriving DecidableEq, Repr

def isHighSurrogate (value : Nat) : Bool := decide (0xd800 ≤ value ∧ value ≤ 0xdbff)

def isLowSurrogate (value : Nat) : Bool := decide (0xdc00 ≤ value ∧ value ≤ 0xdfff)

/-- The scalar of a surrogate pair. -/
def surrogatePair (high low : Nat) : Char :=
  Char.ofNat (0x10000 + (high - 0xd800) * 1024 + (low - 0xdc00))

/-- The second half of `next_utf16_unit`, with the first byte in `odd`. -/
def secondUtf16Byte (state : Utf16State) (cursor : ByteCursor) :
    Utf16State × ByteCursor × Except DecodeError (Option Utf16Unit) :=
  match cursor.take with
  | (cursor, .error e) => (state, cursor, .error e)
  | (cursor, .ok none) => (state, cursor, .ok none)
  | (cursor, .ok (some second)) =>
    match state.odd with
    | none => (state, cursor, .ok none)
    | some (start, first) =>
      ({ state with odd := none }, cursor, (offsetAfter second.offset).map fun stop =>
        some ⟨start, stop, first, second.byte, state.endian.decode first second.byte⟩)

def nextUtf16Unit (state : Utf16State) (cursor : ByteCursor) :
    Utf16State × ByteCursor × Except DecodeError (Option Utf16Unit) :=
  match state.queued with
  | some unit => ({ state with queued := none }, cursor, .ok (some unit))
  | none =>
    match state.odd with
    | some _ => secondUtf16Byte state cursor
    | none =>
      match cursor.take with
      | (cursor, .error e) => (state, cursor, .error e)
      | (cursor, .ok none) => (state, cursor, .ok none)
      | (cursor, .ok (some first)) =>
        secondUtf16Byte { state with odd := some (first.offset, first.byte) } cursor

/-- The loop of `decode_utf16`.  A round that goes on has taken a high surrogate. -/
def decodeUtf16 (policy : OnDecodeError) : Nat → Utf16State → ByteCursor →
    Utf16State × ByteCursor × Except DecodeError (Option DecodeEvent)
  | 0, state, cursor => (state, cursor, .ok none)
  | fuel + 1, state, cursor =>
    match nextUtf16Unit state cursor with
    | (state, cursor, .error e) => (state, cursor, .error e)
    | (state, cursor, .ok none) => (state, cursor, .ok none)
    | (state, cursor, .ok (some unit)) =>
      match state.high with
      | some high =>
        if isLowSurrogate unit.value then
          ({ state with high := none }, cursor,
            .ok (some (.unit ⟨high.start, unit.stop⟩ (high.bytes ++ unit.bytes)
              (.scalar (surrogatePair high.value unit.value)) false)))
        else
          ({ state with high := none, queued := some unit }, cursor,
            (malformedEvent policy ⟨high.start, high.stop⟩ high.bytes).map some)
      | none =>
        if isHighSurrogate unit.value then
          decodeUtf16 policy fuel { state with high := some unit } cursor
        else if isLowSurrogate unit.value then
          (state, cursor, (malformedEvent policy ⟨unit.start, unit.stop⟩ unit.bytes).map some)
        else
          (state, cursor, .ok (some (.unit ⟨unit.start, unit.stop⟩ unit.bytes
            (.scalar (Char.ofNat unit.value)) false)))

/-! ## The decoder -/

inductive DecoderState where
  | utf8 (state : Utf8State)
  | ascii
  | utf16 (state : Utf16State)
  | raw
  deriving DecidableEq, Repr

structure StreamDecoder where
  policy : OnDecodeError
  state : DecoderState
  bomProbe : Option BomProbe
  replay : ReplayBytes
  nextInputOffset : Nat
  deliveredBoundary : Nat
  terminalError : Option DecodeError

def DecoderState.new : Encoding → DecoderState
  | .utf8 => .utf8 ⟨[], 0⟩
  | .ascii => .ascii
  | .utf16Le => .utf16 ⟨.little, none, none, none⟩
  | .utf16Be => .utf16 ⟨.big, none, none, none⟩
  | .raw => .raw

/-- A code unit has been read and not decoded. -/
def DecoderState.queues : DecoderState → Bool
  | .utf16 state => state.queued.isSome
  | _ => false

namespace StreamDecoder

def new (encoding : Encoding) (policy : OnDecodeError) (start : DecodeStart) : StreamDecoder where
  policy
  state := .new encoding
  bomProbe :=
    if start = .newStream ∧ encoding ≠ .raw then some ⟨[], start.offset, encoding⟩ else none
  replay := .empty
  nextInputOffset := start.offset
  deliveredBoundary := start.offset
  terminalError := none

variable (d : StreamDecoder)

def recordFailure (error : DecodeError) (consumed : Nat) : StreamDecoder × DecodeFailure :=
  match error with
  | .fatalMalformed _ _ | .sourceOffsetOverflow =>
    ({ d with terminalError := some error }, ⟨consumed, error⟩)
  | _ => (d, ⟨consumed, error⟩)

def cursor (input : Bytes) : ByteCursor := ⟨d.replay, d.nextInputOffset, input, 0⟩

/-- The decoder after the cursor has moved. -/
def moved (cursor : ByteCursor) : StreamDecoder :=
  { d with replay := cursor.replay, nextInputOffset := cursor.nextInputOffset }

/-- The part of `next_inner` after the probe. -/
def decodeState (cursor : ByteCursor) :
    StreamDecoder × ByteCursor × Except DecodeError (Option DecodeEvent) :=
  -- every round of a loop takes a byte or a queued unit
  let fuel := cursor.replay.bytes.length + cursor.input.length + 2
  match d.state with
  | .utf8 state =>
    let (state, cursor, result) := decodeUtf8 d.policy fuel state cursor
    ({ d.moved cursor with state := .utf8 state }, cursor, result)
  | .ascii =>
    let (cursor, result) := decodeAscii d.policy cursor
    (d.moved cursor, cursor, result)
  | .utf16 state =>
    let (state, cursor, result) := decodeUtf16 d.policy fuel state cursor
    ({ d.moved cursor with state := .utf16 state }, cursor, result)
  | .raw =>
    let (cursor, result) := decodeRaw cursor
    (d.moved cursor, cursor, result)

def nextInner (input : Bytes) :
    StreamDecoder × ByteCursor × Except DecodeError (Option DecodeEvent) :=
  match d.bomProbe with
  | none => d.decodeState (d.cursor input)
  | some probe =>
    match processBomProbe d.policy 3 probe (d.cursor input) with
    | (probe, cursor, .error e) => ({ d.moved cursor with bomProbe := probe }, cursor, .error e)
    | (probe, cursor, .ok .pending) =>
      ({ d.moved cursor with bomProbe := probe }, cursor, .ok none)
    | (probe, cursor, .ok (.event event)) =>
      ({ d.moved cursor with bomProbe := probe }, cursor, .ok (some event))
    | (probe, cursor, .ok .continue) =>
      { d.moved cursor with bomProbe := probe }.decodeState cursor

/-- The value of a complete one-byte unit that needs no cursor. -/
def fastValue (byte : UInt8) : Option DecodedValue :=
  match d.state with
  | .raw => some (.rawByte byte)
  | .ascii => if byte ≤ 0x7f then some (.scalar (Char.ofNat byte.toNat)) else none
  | .utf8 state =>
    if state.bytes.length = 0 ∧ byte ≤ 0x7f then some (.scalar (Char.ofNat byte.toNat)) else none
  | .utf16 _ => none

/-- What the fast path of `next` applies to. -/
def fast (input : Bytes) : Option (UInt8 × DecodedValue) :=
  match input with
  | [] => none
  | byte :: _ =>
    if d.bomProbe.isNone ∧ d.replay.drained then (d.fastValue byte).map (byte, ·) else none

def next (inputOffset : Nat) (input : Bytes) :
    StreamDecoder × Except DecodeFailure DecodeStep :=
  match d.terminalError with
  | some error => (d, .error ⟨0, error⟩)
  | none =>
    if inputOffset ≠ d.nextInputOffset then
      (d, .error ⟨0, .offsetDiscontinuity d.nextInputOffset inputOffset⟩)
    else
      match d.fast input with
      | some (byte, value) =>
        match oneByteRange inputOffset with
        | .error error =>
          let (d, failure) := d.recordFailure error 0
          (d, .error failure)
        | .ok range =>
          ({ d with nextInputOffset := range.stop, deliveredBoundary := range.stop },
            .ok ⟨1, some (.unit range [byte] value false)⟩)
      | none =>
        match d.nextInner input with
        | (d, cursor, .ok event) =>
          ({ d with deliveredBoundary := (event.map (·.range.stop)).getD d.deliveredBoundary },
            .ok ⟨cursor.consumed, event⟩)
        | (d, cursor, .error error) =>
          let (d, failure) := d.recordFailure error cursor.consumed
          (d, .error failure)

/-- The pending range that `finish_incomplete_inner` resolves. -/
def pendingUnit : Option (SourceRange × SourceBytes) :=
  match d.bomProbe with
  | some probe =>
    if probe.bytes.isEmpty then none else some (⟨probe.start, d.nextInputOffset⟩, probe.bytes)
  | none =>
    match d.state with
    | .utf8 state =>
      if state.bytes.length = 0 then none
      else some (⟨state.start, d.nextInputOffset⟩, state.bytes)
    | .utf16 state =>
      match state.high, state.odd with
      | some high, some (_, odd) => some (⟨high.start, d.nextInputOffset⟩, high.bytes ++ [odd])
      | some high, none => some (⟨high.start, high.stop⟩, high.bytes)
      | none, some (start, odd) => some (⟨start, d.nextInputOffset⟩, [odd])
      | none, none => none
    | .ascii => none
    | .raw => none

/-- The decoder state without a pending unit. -/
def clearedState : DecoderState → DecoderState
  | .utf8 state => .utf8 { state with bytes := [] }
  | .utf16 state => .utf16 { state with odd := none, high := none, queued := none }
  | .ascii => .ascii
  | .raw => .raw

/-- Replayed bytes or a queued code unit have not been delivered. -/
def undrained : Bool := !d.replay.drained || d.state.queues

def finishIncompleteUnit : StreamDecoder × Except DecodeFailure (Option DecodeEvent) :=
  match d.terminalError with
  | some error => (d, .error ⟨0, error⟩)
  | none =>
    if d.undrained then (d, .error ⟨0, .drainRequired⟩)
    else
      match d.pendingUnit with
      | none => (d, .ok none)
      | some (range, source) =>
        match malformedEvent d.policy range source with
        | .error error =>
          let (d, failure) := d.recordFailure error 0
          (d, .error failure)
        | .ok event =>
          ({ d with
              bomProbe := none
              state := clearedState d.state
              deliveredBoundary := range.stop }, .ok (some event))

end StreamDecoder

/-! # The physical-line framer

`LineFramer` groups the units of the decoder into lines.  A line longer than the bound is split
into fragments or truncated; a unit that does not fit closes a fragment and is kept for the next
call.  Reservations of buffer space succeed here, so the growth of the buffers is left out. -/

/-! ## Types -/

inductive OversizeBehavior where
  | split
  | truncate
  deriving DecidableEq, Repr

structure LineConfig where
  encoding : Encoding
  onDecodeError : OnDecodeError
  maxLineBytes : Nat
  maxRecordBytes : Nat
  oversize : OversizeBehavior
  deriving DecidableEq, Repr

structure LineContinuation where
  recordStartOffset : Nat
  nextFragmentIndex : Nat
  deriving DecidableEq, Repr

inductive LineStart where
  | newStream
  | resumeAt (offset : Nat)
  | continuation (offset : Nat) (continuation : LineContinuation)
  deriving DecidableEq, Repr

inductive LineEnding where
  | lf
  | split
  | idle
  | permanentEof
  deriving DecidableEq, Repr

inductive PartialCompletion where
  | idle
  | permanentEof
  deriving DecidableEq, Repr

def PartialCompletion.ending : PartialCompletion → LineEnding
  | .idle => .idle
  | .permanentEof => .permanentEof

inductive LineBody where
  | text (text : List Char)
  | bytes (bytes : Bytes)
  deriving DecidableEq, Repr

structure LineFragment where
  recordStartOffset : Nat
  index : Nat
  isLast : Bool
  deriving DecidableEq, Repr

structure LineFrame where
  body : LineBody
  sourceBody : Option Bytes
  bodyRange : SourceRange
  frameRange : SourceRange
  ending : LineEnding
  fragment : Option LineFragment
  continuation : Option LineContinuation
  truncated : Bool
  discardedSourceBytes : Nat
  malformedUnits : Nat
  deriving DecidableEq, Repr

inductive LineError where
  | invalidBounds
  | invalidContinuation
  | decode (error : DecodeError)
  | completionInProgress
  | fragmentIndexOverflow
  deriving DecidableEq, Repr

structure LineFailure where
  consumed : Nat
  error : LineError
  deriving DecidableEq, Repr

structure LineStep where
  consumed : Nat
  frame : Option LineFrame
  advanced : Bool
  deriving DecidableEq, Repr

structure CompletionStep where
  frame : Option LineFrame
  complete : Bool
  deriving DecidableEq, Repr

/-! ## Configuration -/

namespace LineConfig

variable (config : LineConfig)

/-- The bound on the body of a line or fragment. -/
def limit : Nat := min config.maxLineBytes config.maxRecordBytes

/-- The length of the largest unit. -/
def minimum : Nat :=
  match config.encoding, config.onDecodeError with
  | .raw, _ => 1
  | .ascii, .fail => 1
  | .ascii, _ => 3
  | _, _ => 4

def isizeMax : Nat := 2 ^ 63 - 1

def validate : Except LineError Unit :=
  if config.limit < config.minimum ∨ isizeMax < config.maxLineBytes ∨
      isizeMax < config.maxRecordBytes ∨ u64Max < config.limit * 4 then
    .error .invalidBounds
  else .ok ()

def keepsRaw : Bool :=
  decide (config.encoding = .raw ∨ config.onDecodeError = .preserveRaw)

end LineConfig

/-! ## Accumulating a line -/

inductive LineState where
  | line
  | split (continuation : LineContinuation)
  | truncate
  deriving DecidableEq, Repr

/-- The part of the framer that units are added to. -/
structure LineAccumulator where
  config : LineConfig
  limit : Nat
  state : LineState
  text : List Char
  raw : Bytes
  bodyRange : SourceRange
  frameStart : Nat
  processedEnd : Nat
  malformedUnits : Nat
  bodyMalformed : Bool
  pending : Option DecodeEvent

/-- The number of bytes of a text in UTF-8. -/
def textLength (text : List Char) : Nat := (text.map Char.utf8Size).sum

/-- The text of a decoded value. -/
def DecodedValue.text : DecodedValue → List Char
  | .scalar c => [c]
  | .rawByte _ => []

def DecodedValue.isLf : DecodedValue → Bool
  | .scalar c => c == '\n'
  | .rawByte b => b == 0x0a

/-- `checked_add(1)` on a fragment index. -/
def nextIndex (index : Nat) : Option Nat := if index + 1 < 2 ^ 32 then some (index + 1) else none

namespace LineAccumulator

variable (a : LineAccumulator)

/-- The fragment and the continuation of a frame. -/
def coordinates (isLast : Bool) :
    Except LineError (Option LineFragment × Option LineContinuation) :=
  match a.state with
  | .split c =>
    let fragment : LineFragment := ⟨c.recordStartOffset, c.nextFragmentIndex, isLast⟩
    if isLast then .ok (some fragment, none)
    else
      match nextIndex c.nextFragmentIndex with
      | none => .error .fragmentIndexOverflow
      | some next => .ok (some fragment, some ⟨c.recordStartOffset, next⟩)
  | _ => .ok (none, none)

def emit (stop bodyEnd : Nat) (ending : LineEnding) :
    LineAccumulator × Except LineError LineFrame :=
  match a.coordinates (ending != .split) with
  | .error error => (a, .error error)
  | .ok (fragment, continuation) =>
    let bytes := decide (a.config.encoding = .raw ∨
      a.config.onDecodeError = .preserveRaw ∧ (a.bodyMalformed = true ∨ fragment.isSome = true))
    let body := if bytes then .bytes a.raw else .text a.text
    let sourceBody := if !bytes && a.config.keepsRaw then some a.raw else none
    ({ a with
        text := []
        raw := if bytes || a.config.keepsRaw then [] else a.raw
        frameStart := stop
        processedEnd := stop
        bodyRange := ⟨stop, stop⟩
        malformedUnits := 0
        bodyMalformed := false
        state := (continuation.map .split).getD .line },
      .ok {
        body, sourceBody, ending, fragment, continuation
        bodyRange := a.bodyRange
        frameRange := ⟨a.frameStart, stop⟩
        truncated := decide (a.state = .truncate)
        discardedSourceBytes := bodyEnd - a.bodyRange.stop
        malformedUnits := a.malformedUnits })

/-- Whether a unit can be added to the body. -/
def fits (text : List Char) (source : Bytes) : Bool :=
  decide (textLength text ≤ a.limit - textLength a.text) &&
    (!a.config.keepsRaw || decide (source.length ≤ a.limit - a.raw.length))

/-- The state in which an oversized line is split. -/
def splitState : LineState :=
  match a.state with
  | .line => .split ⟨a.frameStart, 0⟩
  | state => state

def process (event : DecodeEvent) : LineAccumulator × Except LineError (Option LineFrame) :=
  match event with
  | .strippedBom range _ =>
    ({ a with bodyRange := ⟨range.stop, range.stop⟩, processedEnd := range.stop }, .ok none)
  | .unit range source value malformed =>
    if value.isLf then
      let (a, result) := a.emit range.stop range.start .lf
      (a, result.map some)
    else if a.state = .truncate then
      ({ a with
          processedEnd := range.stop
          malformedUnits := a.malformedUnits + malformed.toNat }, .ok none)
    else if !a.fits value.text source then
      match a.config.oversize with
      | .split =>
        let (a, result) := { a with state := a.splitState, pending := some event }.emit
          range.start range.start .split
        (a, result.map some)
      | .truncate =>
        ({ a with
            state := .truncate
            processedEnd := range.stop
            malformedUnits := a.malformedUnits + malformed.toNat }, .ok none)
    else
      ({ a with
          text := a.text ++ value.text
          raw := if a.config.keepsRaw then a.raw ++ source else a.raw
          bodyRange := ⟨a.bodyRange.start, range.stop⟩
          processedEnd := range.stop
          malformedUnits := a.malformedUnits + malformed.toNat
          bodyMalformed := a.bodyMalformed || malformed }, .ok none)

end LineAccumulator

/-! ## The framer -/

structure LineFramer extends LineAccumulator where
  decoder : StreamDecoder
  completing : Option PartialCompletion
  terminalError : Option LineError

/-- An empty line that starts at an offset. -/
def LineAccumulator.start (config : LineConfig) (offset : Nat) (state : LineState) :
    LineAccumulator where
  config
  state
  limit := config.limit
  text := []
  raw := []
  bodyRange := ⟨offset, offset⟩
  frameStart := offset
  processedEnd := offset
  malformedUnits := 0
  bodyMalformed := false
  pending := none

namespace LineFramer

def new (config : LineConfig) (start : LineStart) : Except LineError LineFramer :=
  match config.validate with
  | .error error => .error error
  | .ok () =>
    let framer (decodeStart : DecodeStart) (offset : Nat) (state : LineState) : LineFramer :=
      { LineAccumulator.start config offset state with
        decoder := .new config.encoding config.onDecodeError decodeStart
        completing := none
        terminalError := none }
    match start with
    | .newStream => .ok (framer .newStream 0 .line)
    | .resumeAt offset => .ok (framer (.resumeAt offset) offset .line)
    | .continuation offset continuation =>
      if config.oversize ≠ .split ∨ offset ≤ continuation.recordStartOffset ∨
          continuation.nextFragmentIndex = 0 then
        .error .invalidContinuation
      else .ok (framer (.resumeAt offset) offset (.split continuation))

variable (f : LineFramer)

def nextExpectedInputOffset : Nat := f.decoder.nextInputOffset

/-- `failure` -/
def fail (error : LineError) (consumed : Nat) : LineFramer × LineFailure :=
  ({ f with terminalError := some error }, ⟨consumed, error⟩)

/-- `process`, with its error recorded. -/
def handle (event : DecodeEvent) (consumed : Nat) :
    LineFramer × Except LineFailure (Option LineFrame) :=
  match f.toLineAccumulator.process event with
  | (a, .ok frame) => ({ f with toLineAccumulator := a }, .ok frame)
  | (a, .error error) =>
    let (f, failure) := { f with toLineAccumulator := a }.fail error consumed
    (f, .error failure)

/-- The rest of `advance` once an event is there or not. -/
def dispatch (consumed : Nat) (event : Option DecodeEvent) :
    LineFramer × Except LineFailure LineStep :=
  match event with
  | none => (f, .ok ⟨consumed, none, decide (consumed ≠ 0)⟩)
  | some event =>
    match f.handle event consumed with
    | (f, .ok frame) => (f, .ok ⟨consumed, frame, true⟩)
    | (f, .error failure) => (f, .error failure)

def advance (input : Bytes) : LineFramer × Except LineFailure LineStep :=
  match f.pending with
  | some event => { f with pending := none }.dispatch 0 (some event)
  | none =>
    match f.decoder.next f.nextExpectedInputOffset input with
    | (decoder, .error failure) =>
      let (f, failure) := { f with decoder }.fail (.decode failure.error) failure.consumed
      (f, .error failure)
    | (decoder, .ok step) => { f with decoder }.dispatch step.consumed step.event

def next (inputOffset : Nat) (input : Bytes) : LineFramer × Except LineFailure LineStep :=
  match f.terminalError with
  | some error => (f, .error ⟨0, error⟩)
  | none =>
    if f.completing.isSome then (f, .error ⟨0, .completionInProgress⟩)
    else if inputOffset ≠ f.nextExpectedInputOffset then
      (f, .error ⟨0, .decode (.offsetDiscontinuity f.nextExpectedInputOffset inputOffset)⟩)
    else f.advance input

/-- The end of `complete_partial`: the partial line, if there is one. -/
def closePartial (reason : PartialCompletion) :
    LineFramer × Except LineFailure CompletionStep :=
  if f.frameStart < f.processedEnd then
    match f.toLineAccumulator.emit f.processedEnd f.processedEnd reason.ending with
    | (a, .ok frame) =>
      ({ f with toLineAccumulator := a, completing := none }, .ok ⟨some frame, true⟩)
    | (a, .error error) =>
      let (f, failure) := { f with toLineAccumulator := a }.fail error 0
      (f, .error failure)
  else ({ f with completing := none }, .ok ⟨none, true⟩)

/-- The part of `complete_partial` after everything complete is drained. -/
def finish (reason : PartialCompletion) : LineFramer × Except LineFailure CompletionStep :=
  match f.decoder.finishIncompleteUnit with
  | (decoder, .error failure) =>
    let (f, failure) := { f with decoder }.fail (.decode failure.error) 0
    (f, .error failure)
  | (decoder, .ok (some event)) =>
    match { f with decoder }.handle event 0 with
    | (f, .ok frame) => (f, .ok ⟨frame, false⟩)
    | (f, .error failure) => (f, .error failure)
  | (decoder, .ok none) => { f with decoder }.closePartial reason

def completePartial (reason : PartialCompletion) :
    LineFramer × Except LineFailure CompletionStep :=
  match f.terminalError with
  | some error => (f, .error ⟨0, error⟩)
  | none =>
    if f.completing.isSome ∧ f.completing ≠ some reason then
      (f, .error ⟨0, .completionInProgress⟩)
    else
      match { f with completing := some reason }.advance [] with
      | (f, .error failure) => (f, .error failure)
      | (f, .ok step) =>
        if step.advanced then (f, .ok ⟨step.frame, false⟩) else f.finish reason

end LineFramer

end OtapDataflow.Filelog
