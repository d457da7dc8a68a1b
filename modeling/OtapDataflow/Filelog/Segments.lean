import OtapDataflow.Filelog.DecoderRun

/-! # Lines as segments of the source

What the framer is for: cutting the events of the decoder into segments, one per frame.  A
segment is a run of units with what ends it; its frame is read off the units.  `segments` cuts
a list of events, and the framer computes it event by event (`process_add`). -/

namespace OtapDataflow.Filelog

open Bytes List LineAccumulator Nat

/-! ## Units of a body -/

namespace DecodeEvent

/-- The text of a unit. -/
def text : DecodeEvent → List Char
  | .unit _ _ value _ => value.text
  | .strippedBom _ _ => []

def isLf : DecodeEvent → Bool
  | .unit _ _ value _ => value.isLf
  | .strippedBom _ _ => false

end DecodeEvent

/-- The source bytes of a list of units. -/
def bodyBytes (units : List DecodeEvent) : Bytes := units.flatMap DecodeEvent.source

def bodyText (units : List DecodeEvent) : List Char := units.flatMap DecodeEvent.text

def malformedCount (units : List DecodeEvent) : Nat := units.countP DecodeEvent.malformed

/-- The size of a body, which the bound of a configuration limits: its text, its source bytes,
or the larger of the two if both are kept. -/
def bodySize (config : LineConfig) (units : List DecodeEvent) : Nat :=
  if config.keepsRaw then max (textLength (bodyText units)) (bodyBytes units).length
  else textLength (bodyText units)

/-! ## Segments -/

/-- A segment: a stripped byte-order mark of `mark` bytes, the units of the body, the units that
are dropped, and `lf` bytes of a newline. -/
structure Segment where
  start : Nat
  mark : Nat
  coords : Option LineContinuation
  body : List DecodeEvent
  dropped : List DecodeEvent
  ending : LineEnding
  lf : Nat

/-- A segment that has not ended. -/
structure OpenLine where
  start : Nat
  mark : Nat
  coords : Option LineContinuation
  body : List DecodeEvent
  dropped : List DecodeEvent

open OpenLine

/-- Whether a body is emitted as bytes. -/
def asBytes (config : LineConfig) (fragment : Bool) (body : List DecodeEvent) : Bool :=
  decide (config.encoding = .raw ∨
    config.onDecodeError = .preserveRaw ∧ (body.any DecodeEvent.malformed = true ∨ fragment = true))

namespace Segment

variable (config : LineConfig) (segment : Segment)

def bodyStart : Nat := segment.start + segment.mark

def bodyStop : Nat := segment.bodyStart + (bodyBytes segment.body).length

/-- Where the body and what is dropped of it end. -/
def lineStop : Nat := segment.bodyStop + (bodyBytes segment.dropped).length

def stop : Nat := segment.lineStop + segment.lf

def fragment : Option LineFragment :=
  segment.coords.map fun c =>
    ⟨c.recordStartOffset, c.nextFragmentIndex, segment.ending != .split⟩

/-- Where the line goes on. -/
def continuation : Option LineContinuation :=
  if segment.ending = .split then
    segment.coords.map fun c => ⟨c.recordStartOffset, c.nextFragmentIndex + 1⟩
  else none

def frame : LineFrame where
  body :=
    if asBytes config segment.coords.isSome segment.body then .bytes (bodyBytes segment.body)
    else .text (bodyText segment.body)
  sourceBody :=
    if !asBytes config segment.coords.isSome segment.body && config.keepsRaw then
      some (bodyBytes segment.body)
    else none
  bodyRange := ⟨segment.bodyStart, segment.bodyStop⟩
  frameRange := ⟨segment.start, segment.stop⟩
  ending := segment.ending
  fragment := segment.fragment
  continuation := segment.continuation
  truncated := !segment.dropped.isEmpty
  discardedSourceBytes := (bodyBytes segment.dropped).length
  malformedUnits := malformedCount segment.body + malformedCount segment.dropped

end Segment

namespace OpenLine

variable (config : LineConfig) (line : OpenLine)

/-- A line of which nothing has been read. -/
def empty (start : Nat) (coords : Option LineContinuation) : OpenLine := ⟨start, 0, coords, [], []⟩

def close (ending : LineEnding) (lf : Nat) : Segment :=
  ⟨line.start, line.mark, line.coords, line.body, line.dropped, ending, lf⟩

def bodyStop : Nat := line.start + line.mark + (bodyBytes line.body).length

def stop : Nat := line.bodyStop + (bodyBytes line.dropped).length

/-- The coordinates of a fragment, which are those of a first one if the line is not split yet. -/
def fragmentCoords : LineContinuation := line.coords.getD ⟨line.start, 0⟩

/-- Add an event to a line: the segments that it closes, and the line from then on. -/
def add (event : DecodeEvent) : List Segment × Except LineError OpenLine :=
  match event with
  | .strippedBom _ source => ([], .ok { line with mark := line.mark + source.length })
  | .unit _ source value _ =>
    if value.isLf then
      ([line.close .lf source.length], .ok (.empty (line.stop + source.length) none))
    else if line.dropped ≠ [] then
      ([], .ok { line with dropped := line.dropped ++ [event] })
    else if bodySize config (line.body ++ [event]) ≤ config.limit then
      ([], .ok { line with body := line.body ++ [event] })
    else
      match config.oversize with
      | .truncate => ([], .ok { line with dropped := [event] })
      | .split =>
        match nextIndex line.fragmentCoords.nextFragmentIndex with
        | none => ([], .error .fragmentIndexOverflow)
        | some next =>
          ([{ line with coords := some line.fragmentCoords }.close .split 0],
            .ok ⟨line.stop, 0, some ⟨line.fragmentCoords.recordStartOffset, next⟩, [event], []⟩)

/-- The segment of a line that is ended by a completion, if it is not empty. -/
def complete (ending : LineEnding) : List Segment :=
  if line.start < line.stop then [line.close ending 0] else []

end OpenLine

/-- Cut a list of events into segments; the second component is the line that is left open. -/
def segments (config : LineConfig) : OpenLine → List DecodeEvent →
    List Segment × Except LineError OpenLine
  | line, [] => ([], .ok line)
  | line, event :: events =>
    match line.add config event with
    | (closed, .error error) => (closed, .error error)
    | (closed, .ok line) =>
      (closed ++ (segments config line events).1, (segments config line events).2)

/-! ## The framer computes segments -/

namespace OpenLine

variable (config : LineConfig) (line : OpenLine)

def state : LineState :=
  if line.dropped ≠ [] then .truncate else (line.coords.map .split).getD .line

/-- The state of the framer with a line. -/
def accumulator : LineAccumulator where
  config
  limit := config.limit
  state := line.state
  text := bodyText line.body
  raw := if config.keepsRaw then bodyBytes line.body else []
  bodyRange := ⟨line.start + line.mark, line.bodyStop⟩
  frameStart := line.start
  processedEnd := line.stop
  malformedUnits := malformedCount line.body + malformedCount line.dropped
  bodyMalformed := line.body.any DecodeEvent.malformed
  pending := none

/-- A line that the framer can be in the middle of. -/
structure Ok : Prop where
  size_le : bodySize config line.body ≤ config.limit
  dropped : line.dropped ≠ [] → line.coords = none ∧ config.oversize = .truncate
  coords : line.coords ≠ none → config.oversize = .split

end OpenLine

variable {event : DecodeEvent} {config : LineConfig}

section

variable {units : List DecodeEvent}

theorem textLength_append (xs ys : List Char) :
    textLength (xs ++ ys) = textLength xs + textLength ys := by
  simp [textLength]

theorem bodyBytes_append (xs ys : List DecodeEvent) :
    bodyBytes (xs ++ ys) = bodyBytes xs ++ bodyBytes ys := flatMap_append ..

theorem bodyText_append (xs ys : List DecodeEvent) :
    bodyText (xs ++ ys) = bodyText xs ++ bodyText ys := flatMap_append ..

theorem malformedCount_append (xs ys : List DecodeEvent) :
    malformedCount (xs ++ ys) = malformedCount xs + malformedCount ys := countP_append ..

@[simp] theorem bodyBytes_singleton (event : DecodeEvent) : bodyBytes [event] = event.source := by
  simp [bodyBytes]

@[simp] theorem bodyText_singleton (event : DecodeEvent) : bodyText [event] = event.text := by
  simp [bodyText]

theorem malformedCount_singleton (event : DecodeEvent) :
    malformedCount [event] = event.malformed.toNat := by
  cases h : event.malformed <;> simp [malformedCount, h]

/-- **The check of the framer is the check of the size.** -/
theorem bodySize_append_le (hsize : bodySize config units ≤ config.limit) :
    bodySize config (units ++ [event]) ≤ config.limit ↔
      (decide (textLength event.text ≤ config.limit - textLength (bodyText units)) &&
        (!config.keepsRaw || decide (event.source.length ≤ config.limit -
          (if config.keepsRaw then bodyBytes units else []).length))) = true := by
  simp only [bodySize, bodyText_append, textLength_append, bodyBytes_append, length_append,
    bodyText_singleton, bodyBytes_singleton] at hsize ⊢
  by_cases hraw : config.keepsRaw = true
  · simp only [hraw, if_true, Bool.not_true, Bool.false_or, Bool.and_eq_true,
      decide_eq_true_eq] at hsize ⊢
    omega
  · simp only [hraw, if_false, Bool.not_false, Bool.true_or, Bool.and_true, Bool.false_eq_true,
      decide_eq_true_eq] at hsize ⊢
    omega

end

variable {line : OpenLine}

section

variable {ending : LineEnding}

theorem nextIndex_eq {index next : Nat} (h : nextIndex index = some next) : next = index + 1 := by
  unfold nextIndex at h
  split at h
  · exact (Option.some.inj h).symm
  · cases h

/-- The coordinates that the framer gives to a frame. -/
theorem coordinates_accumulator (hok : line.Ok config) (p : Option DecodeEvent) (isLast : Bool) :
    { line.accumulator config with pending := p }.coordinates isLast =
      match line.coords with
      | none => .ok (none, none)
      | some c =>
        if isLast then .ok (some ⟨c.recordStartOffset, c.nextFragmentIndex, isLast⟩, none)
        else
          match nextIndex c.nextFragmentIndex with
          | none => .error .fragmentIndexOverflow
          | some next => .ok (some ⟨c.recordStartOffset, c.nextFragmentIndex, isLast⟩,
              some ⟨c.recordStartOffset, next⟩) := by
  by_cases hdropped : line.dropped = []
  · cases hcoords : line.coords with
    | none => simp [coordinates, accumulator, OpenLine.state, hdropped, hcoords]
    | some c =>
      cases isLast with
      | true =>
        simp [coordinates, accumulator, OpenLine.state, hdropped, hcoords]
      | false =>
        cases hnext : nextIndex c.nextFragmentIndex <;>
          simp [coordinates, accumulator, OpenLine.state, hdropped, hcoords, hnext]
  · have hnone := (hok.dropped hdropped).1
    simp [coordinates, accumulator, OpenLine.state, hdropped, hnone]

theorem state_eq_truncate (line : OpenLine) :
    decide (line.state = .truncate) = !line.dropped.isEmpty := by
  by_cases hdropped : line.dropped = []
  · cases hcoords : line.coords <;> simp [OpenLine.state, hdropped, hcoords]
  · simp [OpenLine.state, hdropped]

theorem keepsRaw_of_asBytes {fragment : Bool} {body : List DecodeEvent}
    (h : asBytes config fragment body = true) : config.keepsRaw = true := by
  simp only [asBytes, decide_eq_true_eq] at h
  simp only [LineConfig.keepsRaw, decide_eq_true_eq]
  exact h.imp_right And.left

/-- **The frame of a segment.**  Given the coordinates, the framer emits the frame of the segment
and starts an empty line. -/
theorem emit_accumulator (p : Option DecodeEvent) (lf : Nat)
    (hcoords : { line.accumulator config with pending := p }.coordinates
        (ending != LineEnding.split) =
      .ok ((line.close ending lf).fragment, (line.close ending lf).continuation)) :
    { line.accumulator config with pending := p }.emit (line.stop + lf) line.stop ending =
      ({ (empty (line.stop + lf) (line.close ending lf).continuation).accumulator config
          with pending := p },
        .ok ((line.close ending lf).frame config)) := by
  have hfragment : (line.close ending lf).fragment.isSome = line.coords.isSome := by
    rw [Segment.fragment, Option.isSome_map]
    rfl
  have hdiscard : line.stop - line.bodyStop = (bodyBytes line.dropped).length := by
    rw [stop, Nat.add_sub_cancel_left]
  have hraw : (if asBytes config line.coords.isSome line.body || config.keepsRaw then []
      else if config.keepsRaw then bodyBytes line.body else []) = [] := by
    by_cases hkeep : config.keepsRaw = true <;> simp [hkeep]
  rw [emit, hcoords]
  dsimp only
  rw [hfragment]
  refine Prod.ext ?_ (congrArg Except.ok ?_)
  · simp only [accumulator, empty, LineAccumulator.mk.injEq, true_and, and_true]
    refine ⟨by simp [OpenLine.state], rfl, ?_, rfl, rfl, rfl, rfl⟩
    exact hraw.trans (by split <;> rfl)
  · simp only [accumulator, Segment.frame, LineFrame.mk.injEq, true_and]
    refine ⟨?_, ?_, rfl, rfl, rfl, state_eq_truncate line, hdiscard, rfl⟩
    · by_cases hbytes : asBytes config line.coords.isSome line.body = true
      · have hkeep := keepsRaw_of_asBytes hbytes
        refine (if_pos hbytes).trans ((?_ : _ = _).trans (if_pos hbytes).symm)
        rw [if_pos hkeep]
        rfl
      · exact (if_neg hbytes).trans (if_neg hbytes).symm
    · by_cases hkeep : config.keepsRaw = true
      · simp only [hkeep, if_true]
        rfl
      · simp [hkeep]

section

variable (hok : line.Ok config)

include hok

/-- A line that is ended by a newline or a completion. -/
theorem emit_final (hlast : ending ≠ .split) (lf : Nat) :
    (line.accumulator config).emit (line.stop + lf) line.stop ending =
      ((empty (line.stop + lf) none).accumulator config,
        .ok ((line.close ending lf).frame config)) := by
  have hcont : (line.close ending lf).continuation = none := if_neg hlast
  have hbne : (ending != LineEnding.split) = true := bne_iff_ne.mpr hlast
  have hemit := @emit_accumulator config line ending none lf
  rw [hcont] at hemit
  refine hemit ?_
  rw [coordinates_accumulator hok, hbne]
  cases hcoords : line.coords with
  | none => simp [Segment.fragment, close, hcoords]
  | some c => simp [Segment.fragment, close, hcoords, hlast]

/-- A fragment that is not the last one. -/
theorem emit_split {next : Nat} {c : LineContinuation}
    (hcoords : line.coords = some c) (hnext : nextIndex c.nextFragmentIndex = some next)
    (p : Option DecodeEvent) :
    { line.accumulator config with pending := p }.emit line.stop line.stop .split =
      ({ (empty line.stop (some ⟨c.recordStartOffset, next⟩)).accumulator config
          with pending := p },
        .ok ((line.close .split 0).frame config)) := by
  have hcont : (line.close .split 0).continuation = some ⟨c.recordStartOffset, next⟩ := by
    simp [Segment.continuation, close, hcoords, nextIndex_eq hnext]
  have hemit := @emit_accumulator config line .split p 0
  rw [hcont] at hemit
  refine hemit ?_
  rw [coordinates_accumulator hok, hcoords]
  simp [Segment.fragment, close, hcoords, hnext]

/-- The index of the next fragment cannot be represented. -/
theorem emit_overflow {c : LineContinuation}
    (hcoords : line.coords = some c) (hnext : nextIndex c.nextFragmentIndex = none)
    (p : Option DecodeEvent) (stop : Nat) :
    { line.accumulator config with pending := p }.emit stop stop .split =
      ({ line.accumulator config with pending := p }, .error .fragmentIndexOverflow) := by
  rw [emit, coordinates_accumulator hok, hcoords]
  simp [hnext]

/-- The check of the framer with a line. -/
theorem fits_accumulator (event : DecodeEvent) :
    (line.accumulator config).fits event.text event.source =
      decide (bodySize config (line.body ++ [event]) ≤ config.limit) := by
  rw [Bool.eq_iff_iff, decide_eq_true_iff, bodySize_append_le hok.size_le]
  rfl

end

end

/-! ## Adding an event -/

variable {source : Bytes}

section

theorem state_ne_truncate (hdropped : line.dropped = []) : line.state ≠ .truncate := by
  cases hcoords : line.coords <;> simp [OpenLine.state, hdropped, hcoords]

variable {range : SourceRange}

/-- A unit that is added to the body. -/
theorem process_append (hok : line.Ok config) (hdropped : line.dropped = []) {value : DecodedValue}
    {malformed : Bool} (hrange : range = ⟨line.stop, line.stop + source.length⟩)
    (hlf : value.isLf = false)
    (hfits : bodySize config (line.body ++ [.unit range source value malformed]) ≤ config.limit) :
    (line.accumulator config).process (.unit range source value malformed) =
      (accumulator config
        { line with body := line.body ++ [.unit range source value malformed] }, .ok none) := by
  have hstate := state_ne_truncate hdropped
  have hcheck : (line.accumulator config).fits value.text source = true :=
    (fits_accumulator hok (.unit range source value malformed)).trans (decide_eq_true hfits)
  have hproc : (line.accumulator config).process (.unit range source value malformed) =
      ({ line.accumulator config with
          text := bodyText line.body ++ value.text
          raw := if config.keepsRaw then (line.accumulator config).raw ++ source
            else (line.accumulator config).raw
          bodyRange := ⟨line.start + line.mark, range.stop⟩
          processedEnd := range.stop
          malformedUnits := (line.accumulator config).malformedUnits + malformed.toNat
          bodyMalformed := (line.accumulator config).bodyMalformed || malformed }, .ok none) := by
    simp only [process, hlf, hcheck, Bool.false_eq_true, if_false, Bool.not_true]
    rw [if_neg (show ¬ (line.accumulator config).state = .truncate from hstate)]
    rfl
  rw [hproc]
  refine Prod.ext ?_ rfl
  have hstop : line.stop = line.bodyStop := by
    rw [stop, hdropped]
    rfl
  have hbody : ∀ e : DecodeEvent,
      bodyStop { line with body := line.body ++ [e] } =
        line.bodyStop + e.source.length := by
    simp only [bodyStop, bodyBytes_append, bodyBytes_singleton, length_append]
    omega
  simp only [accumulator, LineAccumulator.mk.injEq, true_and, and_true]
  refine ⟨rfl, ?_, ?_, ?_, ?_, ?_, ?_⟩
  · rw [bodyText_append, bodyText_singleton]
    rfl
  · by_cases hkeep : config.keepsRaw = true
    · simp only [hkeep, if_true, bodyBytes_append, bodyBytes_singleton]
      rfl
    · simp [hkeep]
  · rw [hbody, hrange, hstop]
    rfl
  · rw [stop, hbody, hrange, hstop, hdropped]
    rfl
  · rw [malformedCount_append, malformedCount_singleton, add_right_comm]
    rfl
  · rw [any_append]
    simp only [any_cons, any_nil, Bool.or_false]
    rfl

/-- A unit that is dropped. -/
theorem process_drop {value : DecodedValue} {malformed : Bool}
    (hrange : range = ⟨line.stop, line.stop + source.length⟩) (hlf : value.isLf = false)
    (hdrop : line.dropped ≠ [] ∨ config.oversize = .truncate ∧ line.coords = none ∧
      (line.accumulator config).fits value.text source = false) :
    (line.accumulator config).process (.unit range source value malformed) =
      (accumulator config
        { line with dropped := line.dropped ++ [.unit range source value malformed] },
        .ok none) := by
  have hproc : (line.accumulator config).process (.unit range source value malformed) =
      ({ line.accumulator config with
          state := .truncate
          processedEnd := range.stop
          malformedUnits := (line.accumulator config).malformedUnits + malformed.toNat },
        .ok none) := by
    simp only [process, hlf, Bool.false_eq_true, if_false]
    by_cases hstate : (line.accumulator config).state = .truncate
    · rw [if_pos hstate, ← hstate]
    · rw [if_neg hstate]
      rcases hdrop with hdropped | ⟨hover, -, hfits⟩
      · exact absurd (if_pos hdropped) hstate
      · simp only [hfits, Bool.not_false, if_true]
        rw [show (line.accumulator config).config.oversize = .truncate from hover]
  rw [hproc]
  refine Prod.ext ?_ rfl
  simp only [accumulator, LineAccumulator.mk.injEq, true_and, and_true]
  refine ⟨?_, rfl, ?_, ?_⟩
  · simp [OpenLine.state]
  · simp only [stop, bodyStop, bodyBytes_append, bodyBytes_singleton, length_append, hrange]
    simp only [DecodeEvent.source]
    omega
  · rw [malformedCount_append, malformedCount_singleton]
    exact add_assoc _ _ _

/-- A stripped byte-order mark at the start of a line. -/
theorem process_mark (hbody : line.body = []) (hdropped : line.dropped = [])
    (hrange : range = ⟨line.stop, line.stop + source.length⟩) :
    (line.accumulator config).process (.strippedBom range source) =
      (accumulator config { line with mark := line.mark + source.length }, .ok none) := by
  have hstop : line.stop = line.start + line.mark := by
    rw [stop, bodyStop, hbody, hdropped]
    rfl
  refine Prod.ext ?_ rfl
  simp only [process, accumulator, LineAccumulator.mk.injEq, true_and, and_true]
  refine ⟨rfl, ?_, ?_⟩
  · rw [hrange, hstop, bodyStop, hbody, ← add_assoc]
    rfl
  · rw [hrange, hstop, stop, bodyStop, hbody, hdropped, ← add_assoc]
    rfl

/-- The state of a line that is about to be split. -/
theorem splitState_accumulator (hok : line.Ok config) (hdropped : line.dropped = [])
    (hover : config.oversize = .split) (event : DecodeEvent) :
    { line.accumulator config with
        state := (line.accumulator config).splitState, pending := some event } =
      { accumulator config { line with coords := some line.fragmentCoords } with
        pending := some event } ∧
    OpenLine.Ok config { line with coords := some line.fragmentCoords } := by
  refine ⟨?_, hok.size_le, fun h => absurd hdropped h, fun _ => hover⟩
  have hstate : (line.accumulator config).splitState =
      OpenLine.state { line with coords := some line.fragmentCoords } := by
    cases hcoords : line.coords with
    | none | some =>
      simp [splitState, accumulator, OpenLine.state, hdropped, hcoords, fragmentCoords]
  rw [hstate]
  rfl

/-- What the framer does with an event that is added to a line.  A unit that does not fit closes
the line and waits, and is then the first of the next one. -/
inductive Processes (config : LineConfig) (line : OpenLine) (event : DecodeEvent) :
    List Segment × Except LineError OpenLine → Prop
  | more {line' : OpenLine} : line'.Ok config →
      (line.accumulator config).process event = (line'.accumulator config, .ok none) →
      Processes config line event ([], .ok line')
  | closed {line' : OpenLine} {segment : Segment} : line'.Ok config →
      (line.accumulator config).process event =
        (line'.accumulator config, .ok (some (segment.frame config))) →
      Processes config line event ([segment], .ok line')
  | split {coords : LineContinuation} {segment : Segment} {stop : Nat} :
      OpenLine.Ok config ⟨stop, 0, some coords, [event], []⟩ →
      (line.accumulator config).process event =
        ({ (empty stop (some coords)).accumulator config with pending := some event },
          .ok (some (segment.frame config))) →
      ((empty stop (some coords)).accumulator config).process event =
        (accumulator config ⟨stop, 0, some coords, [event], []⟩, .ok none) →
      Processes config line event ([segment], .ok ⟨stop, 0, some coords, [event], []⟩)
  | failed {a : LineAccumulator} {error : LineError} :
      (line.accumulator config).process event = (a, .error error) →
      Processes config line event ([], .error error)

theorem OpenLine.Ok.empty (start : Nat) {coords : Option LineContinuation}
    (hcoords : coords ≠ none → config.oversize = .split) : (empty start coords).Ok config := by
  refine ⟨?_, fun h => absurd rfl h, hcoords⟩
  have hzero : bodySize config (OpenLine.empty start coords).body = 0 := by
    unfold bodySize
    split <;> rfl
  rw [hzero]
  exact zero_le _

/-- **The framer adds events to a line.** -/
theorem process_add (hok : line.Ok config)
    (hrange : event.range = ⟨line.stop, line.stop + event.source.length⟩)
    (hmark : ∀ range source, event = .strippedBom range source →
      line.body = [] ∧ line.dropped = []) (hunit : bodySize config [event] ≤ config.limit) :
    Processes config line event (line.add config event) := by
  cases event with
  | strippedBom range source =>
    obtain ⟨hbody, hdropped⟩ := hmark range source rfl
    exact .more { hok with } (process_mark hbody hdropped hrange)
  | unit range source value malformed =>
    have hr : range = ⟨line.stop, line.stop + source.length⟩ := hrange
    simp only [add]
    by_cases hlf : value.isLf = true
    · rw [if_pos hlf]
      refine .closed (.empty _ fun h => absurd rfl h) ?_
      have hemit := emit_final hok (show LineEnding.lf ≠ .split from nofun) source.length
      simp only [process, hlf, if_true, hr, hemit]
      rfl
    · rw [if_neg hlf]
      have hlf' : value.isLf = false := by simpa using hlf
      by_cases hdropped : line.dropped ≠ []
      · rw [if_pos hdropped]
        obtain ⟨hcoords, hover⟩ := hok.dropped hdropped
        exact .more ⟨hok.size_le, fun _ => ⟨hcoords, hover⟩, hok.coords⟩
          (process_drop hr hlf' (.inl hdropped))
      · rw [if_neg hdropped]
        have hnone : line.dropped = [] := not_not.mp hdropped
        by_cases hfits : bodySize config (line.body ++ [.unit range source value malformed]) ≤
            config.limit
        · rw [if_pos hfits]
          exact .more ⟨hfits, hok.dropped, hok.coords⟩ (process_append hok hnone hr hlf' hfits)
        · rw [if_neg hfits]
          have hcheck : (line.accumulator config).fits value.text source = false :=
            (fits_accumulator hok (.unit range source value malformed)).trans
              (decide_eq_false hfits)
          cases hover : config.oversize with
          | truncate =>
            have hcoords : line.coords = none := by
              by_contra hne
              have := hok.coords hne
              rw [hover] at this
              cases this
            refine .more ⟨hok.size_le, fun _ => ⟨hcoords, hover⟩, fun h => absurd hcoords h⟩ ?_
            rw [process_drop hr hlf' (.inr ⟨hover, hcoords, hcheck⟩), hnone, nil_append]
          | split =>
            obtain ⟨hfirst, hok'⟩ := splitState_accumulator hok hnone hover
              (.unit range source value malformed)
            have hproc : (line.accumulator config).process (.unit range source value malformed) =
                (({ accumulator config { line with coords := some line.fragmentCoords } with
                      pending := some (.unit range source value malformed) }.emit
                        line.stop line.stop .split).1,
                  ({ accumulator config { line with coords := some line.fragmentCoords } with
                      pending := some (.unit range source value malformed) }.emit
                        line.stop line.stop .split).2.map some) := by
              simp only [process, hlf', hcheck, Bool.false_eq_true, if_false,
                Bool.not_false, if_true]
              rw [if_neg (show ¬ (line.accumulator config).state = .truncate from
                state_ne_truncate hnone), show (line.accumulator config).config.oversize = .split
                from hover, ← hfirst, hr]
            cases hindex : nextIndex line.fragmentCoords.nextFragmentIndex with
            | none =>
              have hfail := emit_overflow hok' rfl hindex
              rw [hfail] at hproc
              exact .failed hproc
            | some next =>
              have hemit := emit_split hok' rfl hindex (some (.unit range source value malformed))
              rw [show stop { line with coords := some line.fragmentCoords } = line.stop from rfl]
                at hemit
              have hnew : (empty line.stop
                  (some ⟨line.fragmentCoords.recordStartOffset, next⟩)).Ok config :=
                .empty _ fun _ => hover
              refine .split ⟨hunit, fun h => absurd rfl h, fun _ => hover⟩ ?_ ?_
              · rw [hproc, hemit]
                rfl
              · exact process_append hnew rfl hr hlf' hunit

end

/-! ## Units fit an empty line -/

section

variable {encoding : Encoding} {bs unit : Bytes} {value : Option DecodedValue}

/-- The longest source of a unit of the decomposition. -/
def maxUnitLength : Encoding → Nat
  | .ascii | .raw => 1
  | _ => 4

theorem IsUnit.length_le (h : IsUnit encoding bs unit value) :
    unit.length ≤ maxUnitLength encoding := by
  have hutf16 : ∀ {endian}, IsUtf16Unit endian bs unit value → unit.length ≤ 4 := by
    rintro endian (⟨a, b, rest, -, rfl, -⟩ | ⟨a, b, c, d, rest, -, rfl, -⟩ |
      ⟨a, b, rest, -, rfl, -⟩ |
      ⟨rfl, -, hlen | ⟨a, b, rest, rfl, -, hlen⟩⟩)
    · exact le_succ_of_le (le_succ 2)
    · exact le_refl 4
    · exact le_succ_of_le (le_succ 2)
    · omega
    · simp only [length_cons]
      omega
  cases encoding with
  | utf8 =>
    rcases h with ⟨n, c, -, hdecode, -⟩ | ⟨-, -, n, rfl, hle, hone | ⟨more, hmore, hsome⟩, -⟩
    · exact Utf8.length_le_of_decode hdecode
    · rw [hone, length_take]
      exact (min_le_left _ _).trans (by decide)
    · obtain ⟨c, hc⟩ := Option.isSome_iff_exists.mp hsome
      have := Utf8.length_le_of_decode hc
      rw [length_append] at this
      exact (le_add_right _ _).trans this
  | ascii | raw =>
    obtain ⟨b, rest, -, rfl, -⟩ := h
    exact le_refl _
  | utf16Le | utf16Be => exact hutf16 h

/-- The longest text of a unit, well-formed or malformed. -/
def maxTextLength : Encoding → Option DecodedValue → Nat
  | .raw, _ => 0
  | .ascii, some _ => 1
  | .ascii, none => 3
  | _, _ => 4

theorem IsUnit.text_le (h : IsUnit encoding bs unit value) :
    textLength (value.getD (.scalar '�')).text ≤ maxTextLength encoding value := by
  have hany : ∀ v : DecodedValue, textLength v.text ≤ 4 := by
    intro v
    cases v with
    | scalar c => simpa [textLength, DecodedValue.text] using c.utf8Size_le_four
    | rawByte b => exact zero_le _
  cases encoding with
  | utf8 | utf16Le | utf16Be => exact hany _
  | raw =>
    obtain ⟨b, rest, -, -, rfl⟩ := h
    exact le_refl _
  | ascii =>
    obtain ⟨b, rest, -, -, rfl⟩ := h
    by_cases hb : b ≤ 0x7f
    · have hlt : b.toNat ≤ 127 := by simpa using UInt8.le_iff_toNat_le.mp hb
      have hsize : ∀ n ≤ 127, (Char.ofNat n).utf8Size = 1 := by decide
      simp [if_pos hb, DecodedValue.text, textLength, hsize _ hlt, maxTextLength]
    · rw [if_neg hb]
      decide

/-- The units of a decomposition are units. -/
theorem Decomposes.isUnit {units : List (Bytes × Option DecodedValue)} {offset : Nat}
    {e : Nat × (Bytes × Option DecodedValue)} (h : Decomposes encoding bs units)
    (hmem : e ∈ Frames.place (fun u => u.1.length) offset units) :
    ∃ bs', IsUnit encoding bs' e.2.1 e.2.2 := by
  induction units generalizing bs offset with
  | nil => cases hmem
  | cons u units ih =>
    obtain ⟨-, hunit, rest, -, hrest⟩ := h
    rcases mem_cons.mp hmem with rfl | hmem
    · exact ⟨bs, hunit⟩
    · exact ih hrest hmem

theorem minimum_le_limit (h : config.validate = .ok ()) : config.minimum ≤ config.limit := by
  unfold LineConfig.validate at h
  split at h
  · cases h
  · omega

theorem bodySize_singleton_le {n : Nat} (htext : textLength event.text ≤ n)
    (hsource : config.keepsRaw = true → event.source.length ≤ n) : bodySize config [event] ≤ n := by
  rw [bodySize, bodyText_singleton, bodyBytes_singleton]
  split
  · exact max_le htext (hsource ‹_›)
  · exact htext

/-- A malformed unit of a text encoding with at most `n` source bytes. -/
theorem bodySize_malformed_le {offset : Nat} (hraw : config.encoding ≠ .raw)
    (hok : deliver config.onDecodeError (unitEvent (offset, (source, none))) =
      .ok (unitEvent (offset, (source, none)))) (hlen : source.length ≤ 3) :
    bodySize config [unitEvent (offset, (source, none))] ≤ config.minimum := by
  have hpolicy : config.onDecodeError ≠ .fail := by
    intro hfail
    rw [hfail] at hok
    cases hok
  have hmin : 3 ≤ config.minimum := by
    unfold LineConfig.minimum
    cases henc : config.encoding <;> cases hpol : config.onDecodeError <;> simp_all
  have htext : textLength ['�'] ≤ 3 := by decide
  exact bodySize_singleton_le (htext.trans hmin) fun _ => hlen.trans hmin

/-- Only the Unicode encodings have a byte-order mark. -/
theorem three_le_minimum {kind : BomKind} (h : kind.matches config.encoding = true) :
    3 ≤ config.minimum := by
  obtain ⟨encoding, policy, _, _, _⟩ := config
  cases kind <;> cases encoding <;> first | exact le_succ 3 | cases h

/-- The minimum of a configuration admits every unit that its policy lets through. -/
theorem maxLength_le_minimum (h : config.onDecodeError = .fail → value ≠ none) :
    maxTextLength config.encoding value ≤ config.minimum ∧
      maxUnitLength config.encoding ≤ config.minimum := by
  obtain ⟨encoding, policy, _, _, _⟩ := config
  cases value with
  | some v =>
    cases encoding <;> cases policy <;> simp [maxTextLength, maxUnitLength, LineConfig.minimum]
  | none =>
    cases policy with
    | fail => exact absurd rfl (h rfl)
    | preserveRaw | replace =>
      cases encoding <;> simp [maxTextLength, maxUnitLength, LineConfig.minimum]

/-- **Every unit fits an empty line** under a valid configuration. -/
theorem Decoded.fits {start : DecodeStart} {events : List DecodeEvent}
    (hvalid : config.validate = .ok ()) (hdec : Decoded config.encoding start bs events)
    (hmem : event ∈ events) (hok : deliver config.onDecodeError event = .ok event) :
    bodySize config [event] ≤ config.limit := by
  refine le_trans ?_ (minimum_le_limit hvalid)
  have hplain : ∀ {bs' units offset}, Decomposes config.encoding bs' units →
      event ∈ (Frames.place (fun u => u.1.length) offset units).map unitEvent →
      bodySize config [event] ≤ config.minimum := by
    intro bs' units offset hunits hplaced
    obtain ⟨e, he, rfl⟩ := mem_map.mp hplaced
    obtain ⟨bs'', hunit⟩ := hunits.isUnit he
    have hvalue : config.onDecodeError = .fail → e.2.2 ≠ none := by
      intro hfail hnone
      rw [hfail, unitEvent, hnone] at hok
      cases hok
    obtain ⟨htext, hlen⟩ := maxLength_le_minimum hvalue
    exact bodySize_singleton_le (hunit.text_le.trans htext) fun _ => hunit.length_le.trans hlen
  cases hdec with
  | plain _ hunits => exact hplain hunits hmem
  | mark kind hraw hunits =>
    rcases mem_cons.mp hmem with rfl | hmem
    · have hlen : kind.bytes.length ≤ 3 := by cases kind <;> decide
      by_cases hmatch : kind.matches config.encoding = true
      · rw [bomEvent, if_pos hmatch]
        exact bodySize_singleton_le (zero_le _) fun _ =>
          hlen.trans (three_le_minimum hmatch)
      · rw [bomEvent, if_neg hmatch] at hok ⊢
        exact bodySize_malformed_le hraw hok hlen
    · exact hplain hunits hmem
  | cut hraw hprobing hne =>
    obtain rfl := mem_singleton.mp hmem
    exact bodySize_malformed_le hraw hok (le_of_lt hprobing.length_lt)

end

end OtapDataflow.Filelog
