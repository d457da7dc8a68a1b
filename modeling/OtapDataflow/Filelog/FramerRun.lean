import OtapDataflow.Filelog.Segments

/-! # Runs of the framer

A caller feeds a source to the framer in pieces of any size and then completes the partial
line.  Every call adds at most one event to the line in hand; the frames of a run are those of
the segments of the source (`sourceSegments`), however it was cut. -/

namespace OtapDataflow.Filelog

open Bytes Word Machine List LineFramer OpenLine

/-! ## The frames of a source -/

namespace LineStart

def decodeStart : LineStart → DecodeStart
  | .newStream => .newStream
  | .resumeAt offset => .resumeAt offset
  | .continuation offset _ => .resumeAt offset

def offset (start : LineStart) : Nat := start.decodeStart.offset

/-- The line that a framer starts with. -/
def line : LineStart → OpenLine
  | .newStream => .empty 0 none
  | .resumeAt offset => .empty offset none
  | .continuation offset coords => .empty offset (some coords)

end LineStart

variable {config : LineConfig} {start : LineStart} {bytes : Bytes} {f : LineFramer}
  {position : Nat} {event : DecodeEvent} {events : List DecodeEvent} {line line' : OpenLine}
  {closed : List Segment} {error : LineError}

/-- The segments of the events of a source, and the error that ends them. -/
def outcome (config : LineConfig) (line : OpenLine) (ending : LineEnding)
    (events : List DecodeEvent) : List Segment × Option LineError :=
  match segments config line (accepted config.onDecodeError events) with
  | (closed, .error error) => (closed, some error)
  | (closed, .ok line) =>
    match rejection config.onDecodeError events with
    | some error => (closed, some (.decode error))
    | none => (closed ++ line.complete ending, none)

/-- The segments of a source. -/
def sourceSegments (config : LineConfig) (start : LineStart) (ending : LineEnding)
    (bytes : Bytes) : List Segment × Option LineError :=
  outcome config start.line ending (decode config.encoding start.decodeStart bytes)

theorem segments_append {xs ys : List DecodeEvent}
    (h : segments config line xs = (closed, .ok line')) :
    segments config line (xs ++ ys) =
      (closed ++ (segments config line' ys).1, (segments config line' ys).2) := by
  induction xs generalizing line closed with
  | nil =>
    obtain ⟨rfl, hline⟩ := Prod.mk.inj h
    cases hline
    rfl
  | cons x xs ih =>
    rw [segments] at h
    rw [cons_append, segments]
    cases hadd : line.add config x with
    | mk first result =>
      cases result with
      | error error =>
        rw [hadd] at h
        cases (Prod.mk.inj h).2
      | ok next =>
        rw [hadd] at h
        dsimp only at h ⊢
        obtain ⟨rfl, hrest⟩ := Prod.mk.inj h
        rw [ih (Prod.ext rfl hrest), append_assoc]

/-- What an event adds to a body. -/
def DecodeEvent.units (event : DecodeEvent) : List DecodeEvent :=
  match event with
  | .unit .. => [event]
  | .strippedBom .. => []

/-- What an event does to a line, without an error. -/
inductive Added (config : LineConfig) (line : OpenLine) (event : DecodeEvent) :
    List Segment → OpenLine → Prop
  | mark {range : SourceRange} {source : Bytes} : event = .strippedBom range source →
      Added config line event [] { line with mark := line.mark + source.length }
  | lf : event.isLf = true →
      Added config line event [line.close .lf event.source.length]
        (.empty (line.stop + event.source.length) none)
  | drop : event.isLf = false → event.units = [event] → line.dropped ≠ [] →
      Added config line event [] { line with dropped := line.dropped ++ [event] }
  | keep : event.isLf = false → event.units = [event] → line.dropped = [] →
      bodySize config (line.body ++ [event]) ≤ config.limit →
      Added config line event [] { line with body := line.body ++ [event] }
  | truncate : event.isLf = false → event.units = [event] → line.dropped = [] →
      config.limit < bodySize config (line.body ++ [event]) → config.oversize = .truncate →
      Added config line event [] { line with dropped := [event] }
  | split {next : Nat} : event.isLf = false → event.units = [event] → line.dropped = [] →
      config.limit < bodySize config (line.body ++ [event]) → config.oversize = .split →
      nextIndex line.fragmentCoords.nextFragmentIndex = some next →
      Added config line event [{ line with coords := some line.fragmentCoords }.close .split 0]
        ⟨line.stop, 0, some ⟨line.fragmentCoords.recordStartOffset, next⟩, [event], []⟩

/-- An event is added to a line, or nothing happens but an error. -/
theorem add_spec (config : LineConfig) (line : OpenLine) (event : DecodeEvent) :
    (∃ closed line', line.add config event = (closed, .ok line') ∧
      Added config line event closed line') ∨
    ∃ error, line.add config event = ([], .error error) := by
  cases event with
  | strippedBom range source => exact .inl ⟨_, _, rfl, .mark rfl⟩
  | unit range source value malformed =>
    by_cases hlf : value.isLf = true
    · exact .inl ⟨_, _, by simp only [add, if_pos hlf]; rfl, .lf hlf⟩
    have hnot : value.isLf = false := by simpa using hlf
    by_cases hdropped : line.dropped ≠ []
    · exact .inl ⟨_, _, by simp [add, if_neg hlf, if_pos hdropped], .drop hnot rfl hdropped⟩
    have hnil : line.dropped = [] := not_not.mp hdropped
    by_cases hfits : bodySize config (line.body ++ [.unit range source value malformed]) ≤
        config.limit
    · exact .inl ⟨_, _, by simp [add, if_neg hlf, if_neg hdropped, if_pos hfits],
        .keep hnot rfl hnil hfits⟩
    have hover := not_le.mp hfits
    cases hmode : config.oversize with
    | truncate =>
      exact .inl ⟨_, _, by
        simp only [add, if_neg hlf, if_neg hdropped, if_neg hfits, hmode],
        .truncate hnot rfl hnil hover hmode⟩
    | split =>
      cases hnext : nextIndex line.fragmentCoords.nextFragmentIndex with
      | none =>
        exact .inr ⟨.fragmentIndexOverflow, by
          simp only [add, if_neg hlf, if_neg hdropped, if_neg hfits, hmode, hnext]⟩
      | some next =>
        exact .inl ⟨_, _, by
          simp only [add, if_neg hlf, if_neg hdropped, if_neg hfits, hmode, hnext],
          .split hnot rfl hnil hover hmode hnext⟩

theorem added_of_add (h : line.add config event = (closed, .ok line')) :
    Added config line event closed line' := by
  rcases add_spec config line event with ⟨closed', next, hadd, hadded⟩ | ⟨error, hadd⟩
  · obtain ⟨rfl, hline⟩ := Prod.mk.inj (hadd.symm.trans h)
    cases hline
    exact hadded
  · cases (Prod.mk.inj (hadd.symm.trans h)).2

/-- A line grows by the source of an event. -/
theorem Added.stop_eq (h : Added config line event closed line') :
    line'.stop = line.stop + event.source.length := by
  cases h with
  | mark hevent =>
    simp only [stop, bodyStop, hevent, DecodeEvent.source]
    omega
  | lf _ => rfl
  | drop | keep =>
    simp only [stop, bodyStop, bodyBytes_append, bodyBytes_singleton, length_append]
    omega
  | truncate _ _ hdropped _ _ =>
    simp only [stop, hdropped, bodyStop, bodyBytes_singleton]
    rfl
  | split _ _ _ _ _ _ =>
    simp only [stop, bodyStop, bodyBytes_singleton]
    rfl

/-! ## A framer and its line -/

/-- The framer has the given line in hand, or its first unit still waits. -/
def Waits (config : LineConfig) (a : LineAccumulator) (line : OpenLine) : Prop :=
  a = line.accumulator config ∨
  ∃ coords stop event, line = ⟨stop, 0, some coords, [event], []⟩ ∧
    a = { (empty stop (some coords)).accumulator config with pending := some event } ∧
    ((empty stop (some coords)).accumulator config).process event =
      (line.accumulator config, .ok none)

/-- A framer that has not failed: the events it has been given, the line in hand and the
segments closed so far. -/
structure Running (config : LineConfig) (start : LineStart) (bytes : Bytes) (f : LineFramer)
    (position : Nat) (events : List DecodeEvent) (line : OpenLine) (closed : List Segment) :
    Prop where
  fed : Fed config.encoding config.onDecodeError start.decodeStart
    bytes ⟨f.decoder, position⟩ events
  decoder_eq : f.decoder.terminalError = none
  segments_eq : segments config start.line events = (closed, .ok line)
  isOk : line.Ok config
  stop_eq : line.stop = f.decoder.deliveredBoundary
  waits : Waits config f.toLineAccumulator line
  terminal_eq : f.terminalError = none

/-- What the framer does with an event for the line in hand. -/
theorem handle_spec (hline : f.toLineAccumulator = line.accumulator config)
    (h : Processes config line event (line.add config event)) (consumed : Nat) :
    (∃ closed line' f' frame, line.add config event = (closed, .ok line') ∧
      f.handle event consumed = (f', .ok frame) ∧
      frame.toList = closed.map (Segment.frame config) ∧
      Waits config f'.toLineAccumulator line' ∧ line'.Ok config ∧ f'.decoder = f.decoder ∧
      f'.completing = f.completing ∧ f'.terminalError = f.terminalError) ∨
    ∃ error f', line.add config event = ([], .error error) ∧
      f.handle event consumed = (f', .error ⟨consumed, error⟩) ∧
      f'.terminalError = some error := by
  have hhandle : ∀ {a frame}, (line.accumulator config).process event = (a, .ok frame) →
      f.handle event consumed = ({ f with toLineAccumulator := a }, .ok frame) := by
    intro a frame hproc
    simp [handle, hline, hproc]
  generalize line.add config event = r at h
  cases h with
  | more hok hproc =>
    exact .inl ⟨[], _, _, none, rfl, hhandle hproc, rfl, .inl rfl, hok, rfl, rfl, rfl⟩
  | closed hok hproc =>
    exact .inl ⟨_, _, _, some _, rfl, hhandle hproc, rfl, .inl rfl, hok, rfl, rfl, rfl⟩
  | split hok hproc hagain =>
    exact .inl ⟨_, _, _, some _, rfl, hhandle hproc, rfl, .inr ⟨_, _, _, rfl, rfl, hagain⟩, hok,
      rfl, rfl, rfl⟩
  | @failed a error hproc =>
    refine .inr ⟨error, { f with toLineAccumulator := a, terminalError := some error },
      rfl, ?_, rfl⟩
    simp [handle, hline, hproc, fail]

/-! ## Events of a source -/

theorem deliver_of_accepted {policy : OnDecodeError} (h : event ∈ accepted policy events) :
    deliver policy event = .ok event := by
  cases policy with
  | preserveRaw | replace => cases event <;> rfl
  | fail =>
    have hok := mem_takeWhile_imp h
    cases event with
    | strippedBom range source => rfl
    | unit range source value malformed =>
      cases malformed with
      | false => rfl
      | true => cases hok

/-- A byte-order mark is stripped at the start of a source only. -/
theorem Decoded.mark_first {encoding : Encoding} {start : DecodeStart}
    {all before after : List DecodeEvent} {range : SourceRange} {source : Bytes}
    (h : Decoded encoding start bytes all)
    (hall : all = before ++ .strippedBom range source :: after) : before = [] := by
  have hplain : ∀ (units : List (Bytes × Option DecodedValue)) (offset : Nat),
      DecodeEvent.strippedBom range source ∉
        (Frames.place (fun u => u.1.length) offset units).map unitEvent := by
    intro units offset hmem
    obtain ⟨e, -, he⟩ := mem_map.mp hmem
    cases he
  have hmem : DecodeEvent.strippedBom range source ∈ all := by
    rw [hall]
    exact mem_append_right _ mem_cons_self
  cases h with
  | plain _ _ => exact absurd hmem (hplain _ _)
  | cut _ _ _ => cases mem_singleton.mp hmem
  | @mark kind rest units _ _ =>
    cases before with
    | nil => rfl
    | cons first before =>
      obtain ⟨-, hrest⟩ := List.cons.inj hall
      refine absurd ?_ (hplain units kind.bytes.length)
      rw [hrest]
      exact mem_append_right _ mem_cons_self

/-- **The next event of a source can be added to the line in hand.** -/
theorem processes_next (hvalid : config.validate = .ok ()) (hnext : events ++ [event] <+:
      accepted config.onDecodeError (decode config.encoding start.decodeStart bytes))
    (hsegments : segments config start.line events = (closed, .ok line)) (hok : line.Ok config)
    (hrange : event.range = ⟨line.stop, line.stop + event.source.length⟩) :
    Processes config line event (line.add config event) := by
  have hdec := decode_decoded config.encoding start.decodeStart bytes
  have hmem : event ∈ accepted config.onDecodeError
      (decode config.encoding start.decodeStart bytes) :=
    hnext.subset (mem_append_right _ mem_cons_self)
  have hall := (accepted_begins config.onDecodeError _).subset hmem
  refine process_add hok hrange ?_ (hdec.fits hvalid hall (deliver_of_accepted hmem))
  rintro range source rfl
  have hfirst : events = [] := by
    obtain ⟨rest, hrest⟩ := hnext.trans (accepted_begins _ _)
    have hsplit : decode config.encoding start.decodeStart bytes =
        events ++ .strippedBom range source :: rest := by
      rw [← hrest, append_assoc]
      rfl
    exact hdec.mark_first hsplit
  subst hfirst
  obtain ⟨-, hline⟩ := Prod.mk.inj hsegments
  cases hline
  cases start <;> exact ⟨rfl, rfl⟩

/-! ## A step of the framer -/

/-- The error that ends the segments of a source, whatever completion was to follow. -/
def EndsWith (config : LineConfig) (start : LineStart) (bytes : Bytes) (closed : List Segment)
    (error : LineError) : Prop :=
  ∀ ending, sourceSegments config start ending bytes = (closed, some error)

/-- What a step of the framer does: it takes back the unit that waits, reads all input without
an event, adds an event, or fails. -/
inductive Advances (config : LineConfig) (start : LineStart) (bytes : Bytes) (f : LineFramer)
    (position : Nat) (input : Bytes) (events : List DecodeEvent) (line : OpenLine)
    (closed : List Segment) : LineFramer × Except LineFailure LineStep → Prop
  | again {f' : LineFramer} : f.pending ≠ none → f'.pending = none →
      f'.decoder = f.decoder → f'.completing = f.completing →
      Running config start bytes f' position events line closed →
      Advances config start bytes f position input events line closed (f', .ok ⟨0, none, true⟩)
  | quiet {f' : LineFramer} : f.pending = none → f'.toLineAccumulator = f.toLineAccumulator →
      f'.completing = f.completing → f'.decoder.undrained = false →
      Running config start bytes f' (position + input.length) events line closed →
      Advances config start bytes f position input events line closed
        (f', .ok ⟨input.length, none, decide (input.length ≠ 0)⟩)
  | event {f' : LineFramer} {event : DecodeEvent} {n : Nat} {line' : OpenLine}
      {more : List Segment} {frame : Option LineFrame} :
      frame.toList = more.map (Segment.frame config) → f'.completing = f.completing →
      Running config start bytes f' (position + n) (events ++ [event]) line' (closed ++ more) →
      Advances config start bytes f position input events line closed (f', .ok ⟨n, frame, true⟩)
  | failed {f' : LineFramer} {n : Nat} {error : LineError} :
      f'.terminalError = some error → EndsWith config start bytes closed error →
      Advances config start bytes f position input events line closed (f', .error ⟨n, error⟩)

/-- The unit that waits is the first of the line. -/
theorem Waits.again (h : Waits config f.toLineAccumulator line)
    (hp : f.pending = some event) (consumed : Nat) :
    { f with pending := none }.handle event consumed =
      ({ f with toLineAccumulator := line.accumulator config }, .ok none) := by
  rcases h with hline | ⟨coords, stop, event', rfl, hacc, hproc⟩
  · rw [hline] at hp
    cases hp
  · have hevent : event' = event := by
      rw [hacc] at hp
      exact Option.some.inj hp
    subst hevent
    have hfirst : { f with pending := none }.toLineAccumulator =
        (empty stop (some coords)).accumulator config := by
      show { f.toLineAccumulator with pending := none } = _
      rw [hacc]
      rfl
    rw [handle, hfirst, hproc]

theorem Waits.line_eq (h : Waits config f.toLineAccumulator line) (hp : f.pending = none) :
    f.toLineAccumulator = line.accumulator config := by
  rcases h with hline | ⟨coords, stop, event, -, hacc, -⟩
  · exact hline
  · rw [hacc] at hp
    cases hp

/-- The segments of a source end with an error in the line of the next event. -/
theorem endsWith_add (hnext : events ++ [event] <+:
      accepted config.onDecodeError (decode config.encoding start.decodeStart bytes))
    (hsegments : segments config start.line events = (closed, .ok line))
    (hadd : line.add config event = ([], .error error)) :
    EndsWith config start bytes closed error := by
  intro ending
  obtain ⟨rest, hrest⟩ := hnext
  have hall : segments config start.line
      (accepted config.onDecodeError (decode config.encoding start.decodeStart bytes)) =
      (closed, .error error) := by
    rw [← hrest, append_assoc, segments_append hsegments, singleton_append, segments,
      hadd, append_nil]
  rw [sourceSegments, outcome, hall]

/-- The segments of a source end with a malformed unit. -/
theorem endsWith_decode {error : DecodeError} (haccepted : accepted config.onDecodeError
      (decode config.encoding start.decodeStart bytes) = events)
    (hrejection : rejection config.onDecodeError
      (decode config.encoding start.decodeStart bytes) = some error)
    (hsegments : segments config start.line events = (closed, .ok line)) :
    EndsWith config start bytes closed (.decode error) := by
  intro ending
  rw [sourceSegments, outcome, haccepted, hsegments, hrejection]

/-- The framer handles the next event of a source. -/
theorem Running.handle (hvalid : config.validate = .ok ())
    (h : Running config start bytes f position events line closed) (hp : f.pending = none)
    {decoder : StreamDecoder} {position' : Nat} {pending : Bytes}
    (hfed : Fed config.encoding config.onDecodeError start.decodeStart bytes ⟨decoder, position'⟩
      (events ++ [event])) (hrange : event.range =
      ⟨f.decoder.deliveredBoundary, f.decoder.deliveredBoundary + event.source.length⟩)
    (hafter : After config.encoding f.decoder event pending decoder) (consumed : Nat) :
    (∃ f' frame line' more, { f with decoder }.handle event consumed = (f', .ok frame) ∧
      frame.toList = more.map (Segment.frame config) ∧ f'.completing = f.completing ∧
      Running config start bytes f' position' (events ++ [event]) line' (closed ++ more)) ∨
    ∃ f' error, { f with decoder }.handle event consumed = (f', .error ⟨consumed, error⟩) ∧
      f'.terminalError = some error ∧ EndsWith config start bytes closed error := by
  rw [← h.stop_eq] at hrange
  have hproc := processes_next hvalid hfed.accepted_eq h.segments_eq h.isOk hrange
  have hline : { f with decoder }.toLineAccumulator = line.accumulator config := h.waits.line_eq hp
  rcases handle_spec hline hproc consumed with ⟨more, line', f', frame,
    hadd, hhandle, hframe, hwaits,
    hok, hdecoder, hcompleting, hterminal⟩ | ⟨error, f', hadd, hhandle, hterminal⟩
  · refine .inl ⟨f', frame, line', more, hhandle, hframe, hcompleting,
      ⟨by rw [hdecoder]; exact hfed, ?_, ?_, hok, ?_, hwaits, hterminal.trans h.terminal_eq⟩⟩
    · rw [hdecoder]
      exact hafter.isOpen.terminal_eq
    · rw [segments_append h.segments_eq, segments, hadd]
      simp [segments]
    · rw [(added_of_add hadd).stop_eq, hdecoder, h.stop_eq]
      exact hafter.boundary_eq.symm
  · exact .inr ⟨f', error, hhandle, hterminal, endsWith_add hfed.accepted_eq h.segments_eq hadd⟩

variable (hvalid : config.validate = .ok ()) (hfits : start.offset + bytes.length ≤ u64Max)

include hvalid hfits in
/-- **A step of the framer.** -/
theorem Running.advance (h : Running config start bytes f position events line closed) (n : Nat) :
    Advances config start bytes f position ((bytes.drop position).take n) events line closed
      (f.advance ((bytes.drop position).take n)) := by
  cases hp : f.pending with
  | some event =>
    have hadvance : f.advance ((bytes.drop position).take n) =
        ({ f with toLineAccumulator := line.accumulator config }, .ok ⟨0, none, true⟩) := by
      simp [LineFramer.advance, hp, LineFramer.dispatch, h.waits.again hp]
    rw [hadvance]
    exact .again (by rw [hp]; exact nofun) rfl rfl rfl { h with waits := .inl rfl }
  | none =>
    obtain ⟨pending, hopen⟩ := h.fed.isOpen h.decoder_eq
    have hspec := h.fed.call hfits hopen n
    have hstep := h.fed.step hfits n
    have hnext : f.nextExpectedInputOffset = start.decodeStart.offset + position := h.fed.next_eq
    have hcall : Feed.step start.decodeStart.offset bytes ⟨f.decoder, position⟩ n =
        (⟨(f.decoder.next f.nextExpectedInputOffset ((bytes.drop position).take n)).1,
          position + consumedBy
            (f.decoder.next f.nextExpectedInputOffset ((bytes.drop position).take n)).2⟩,
          (f.decoder.next f.nextExpectedInputOffset ((bytes.drop position).take n)).2) := by
      rw [hnext]
      rfl
    rw [hcall] at hspec hstep
    generalize hinput : (bytes.drop position).take n = input at hspec hstep hcall ⊢
    rw [LineFramer.advance, hp]
    dsimp only
    generalize f.decoder.next f.nextExpectedInputOffset input = r at hspec hstep hcall ⊢
    obtain ⟨decoder, result⟩ := r
    simp only [NextSpec] at hspec
    rcases hspec with ⟨rfl, hquiet⟩ |
      ⟨event, m, pending', hdel, ⟨-, rfl, hafter⟩ | ⟨error, -, rfl, hfailed⟩⟩
    · -- no event
      refine .quiet hp rfl rfl hquiet.drained ⟨?_, hquiet.isOpen.terminal_eq, h.segments_eq, h.isOk,
        ?_, h.waits, h.terminal_eq⟩
      · simpa [eventOf, consumedBy] using hstep
      · exact h.stop_eq.trans hquiet.boundary_eq.symm
    · -- an event
      have hfed : Fed config.encoding config.onDecodeError start.decodeStart bytes
          ⟨decoder, position + m⟩ (events ++ [event]) := hstep
      dsimp only
      rw [LineFramer.dispatch]
      rcases h.handle hvalid hp hfed hdel.range_eq hafter m with
        ⟨f', frame, line', more, hhandle, hframe, hcompleting, hrun⟩ | ⟨f', error, hhandle, hfailed⟩
      · rw [hhandle]
        exact .event hframe hcompleting hrun
      · rw [hhandle]
        exact .failed hfailed.1 hfailed.2
    · -- a malformed unit that is fatal
      have hfed : Fed config.encoding config.onDecodeError start.decodeStart bytes
          ⟨decoder, position + m⟩ events := by simpa [eventOf, consumedBy] using hstep
      refine .failed rfl ?_
      rcases hfed.status with ⟨pending'', hopen, -⟩ | ⟨error', hterm, hacc, hrej⟩
      · cases hopen.terminal_eq.symm.trans hfailed.terminal_eq
      · obtain rfl : error = error' := Option.some.inj (hfailed.terminal_eq.symm.trans hterm)
        exact endsWith_decode hacc hrej h.segments_eq

/-- What is left of a source: its events, of which a unit that waits is half of one. -/
def LineFramer.left (f : LineFramer) (all events : List DecodeEvent) : Nat :=
  2 * (all.length - events.length) + if f.pending = none then 0 else 1

theorem LineFramer.left_lt_of_pending {f' : LineFramer} (all events : List DecodeEvent)
    (hp : f.pending ≠ none) (hp' : f'.pending = none) : f'.left all events < f.left all events := by
  rw [left, left, if_neg hp, if_pos hp']
  omega

theorem Running.left_lt
    (h : Running config start bytes f position (events ++ [event]) line closed) (f' : LineFramer) :
    f.left (decode config.encoding start.decodeStart bytes) (events ++ [event]) <
      f'.left (decode config.encoding start.decodeStart bytes) events := by
  have hgrow := h.fed.accepted_eq.length_le.trans (accepted_begins _ _).length_le
  rw [length_append, length_singleton] at hgrow
  rw [left, left, length_append, length_singleton]
  split <;> split <;> omega

/-! ## Feeding a source -/

/-- A caller in the middle of a source: the framer, and how much of the source is consumed. -/
structure LineFeed where
  framer : LineFramer
  position : Nat

open LineFeed

def consumedByLine : Except LineFailure LineStep → Nat
  | .ok step => step.consumed
  | .error failure => failure.consumed

def frameOf : Except LineFailure LineStep → Option LineFrame
  | .ok step => step.frame
  | .error _ => none

/-- A call with the next `n` bytes, or as many as are left. -/
def LineFeed.step (start : Nat) (bytes : Bytes) (s : LineFeed) (n : Nat) :
    LineFeed × Except LineFailure LineStep :=
  let r := s.framer.next (start + s.position) ((bytes.drop s.position).take n)
  (⟨r.1, s.position + consumedByLine r.2⟩, r.2)

/-- The frames of a sequence of calls. -/
def framed (history : List (Nat × Except LineFailure LineStep)) : List LineFrame :=
  history.filterMap fun call => frameOf call.2

/-- What holds of a caller that has received the given frames. -/
def Framed (config : LineConfig) (start : LineStart) (bytes : Bytes) (s : LineFeed)
    (frames : List LineFrame) : Prop :=
  ∃ closed : List Segment, frames = closed.map (Segment.frame config) ∧
    ((∃ events line, Running config start bytes s.framer s.position events line closed ∧
        s.framer.completing = none) ∨
      ∃ error, s.framer.terminalError = some error ∧ EndsWith config start bytes closed error)

variable {s : LineFeed} {frames : List LineFrame}

theorem accumulator_empty (config : LineConfig) (offset : Nat) (coords : Option LineContinuation) :
    (empty offset coords).accumulator config =
      .start config offset ((coords.map .split).getD .line) := by
  have hraw : (if config.keepsRaw then bodyBytes [] else []) = [] := by split <;> rfl
  simp only [accumulator, empty, hraw]
  rfl

/-- What a framer is created with. -/
theorem LineFramer.new_ok (hnew : new config start = .ok f) :
    config.validate = .ok () ∧ ∀ offset coords, start = .continuation offset coords →
      config.oversize = .split ∧ coords.recordStartOffset < offset ∧
        coords.nextFragmentIndex ≠ 0 := by
  have hvalid : config.validate = .ok () := by
    cases hv : config.validate with
    | ok u => rfl
    | error error =>
      rw [new, hv] at hnew
      cases hnew
  refine ⟨hvalid, ?_⟩
  rintro offset coords rfl
  simp only [new, hvalid] at hnew
  split at hnew
  · cases hnew
  · rename_i hcond
    simp only [ne_eq, not_or, not_not, not_le] at hcond
    exact ⟨hcond.1, by omega⟩

theorem Framed.init (hnew : new config start = .ok f) : Framed config start bytes ⟨f, 0⟩ [] := by
  obtain ⟨hvalid, hcont⟩ := new_ok hnew
  refine ⟨[], rfl, .inl ⟨[], start.line, ?_⟩⟩
  have hfed := Fed.init config.encoding config.onDecodeError start.decodeStart bytes
  cases start with
  | newStream | resumeAt =>
    simp only [new, hvalid] at hnew
    cases hnew
    exact ⟨⟨hfed, rfl, rfl, .empty _ (fun h => absurd rfl h), rfl,
      .inl (accumulator_empty config _ none).symm, rfl⟩, rfl⟩
  | continuation offset coords =>
    simp only [new, hvalid] at hnew
    split at hnew
    · cases hnew
    · cases hnew
      exact ⟨⟨hfed, rfl, rfl, .empty _ (fun _ => (hcont _ _ rfl).1), rfl,
        .inl (accumulator_empty config offset (some coords)).symm, rfl⟩, rfl⟩

/-- A framer that has failed stays as it is. -/
theorem LineFramer.next_of_terminal (h : f.terminalError = some error) (offset : Nat)
    (input : Bytes) : f.next offset input = (f, .error ⟨0, error⟩) := by
  simp [next, h]

theorem LineFramer.complete_of_terminal (h : f.terminalError = some error)
    (reason : PartialCompletion) : f.completePartial reason = (f, .error ⟨0, error⟩) := by
  simp [completePartial, h]

/-- A call of a framer that is not completing is a step. -/
theorem Running.step_eq (h : Running config start bytes s.framer s.position events line closed)
    (hcompleting : s.framer.completing = none) (n : Nat) :
    s.step start.offset bytes n =
      (⟨(s.framer.advance ((bytes.drop s.position).take n)).1,
        s.position + consumedByLine (s.framer.advance ((bytes.drop s.position).take n)).2⟩,
        (s.framer.advance ((bytes.drop s.position).take n)).2) := by
  have hnext : start.offset + s.position = s.framer.nextExpectedInputOffset := h.fed.next_eq.symm
  have hadvance : s.framer.next (start.offset + s.position) ((bytes.drop s.position).take n) =
      s.framer.advance ((bytes.drop s.position).take n) := by
    simp [LineFramer.next, h.terminal_eq, hcompleting, hnext]
  rw [step, hadvance]

include hvalid hfits in
/-- **A call keeps `Framed`.** -/
theorem Framed.step (h : Framed config start bytes s frames) (n : Nat) :
    Framed config start bytes (s.step start.offset bytes n).1
      (frames ++ (frameOf (s.step start.offset bytes n).2).toList) := by
  obtain ⟨closed, rfl, ⟨events, line, hrun, hcompleting⟩ | ⟨error, hterm, hends⟩⟩ := h
  · have hcall := hrun.step_eq hcompleting n
    rw [hcall]
    have hadv := hrun.advance hvalid hfits n
    generalize s.framer.advance ((bytes.drop s.position).take n) = r at hadv
    cases hadv with
    | again _ _ _ hc hrun' =>
      refine ⟨closed, append_nil _, .inl ⟨events, line, hrun', hc.trans hcompleting⟩⟩
    | quiet _ _ hc _ hrun' =>
      refine ⟨closed, append_nil _, .inl ⟨events, line, hrun', hc.trans hcompleting⟩⟩
    | event hframe hc hrun' =>
      refine ⟨_, ?_, .inl ⟨_, _, hrun', hc.trans hcompleting⟩⟩
      rw [map_append, ← hframe]
      rfl
    | failed hterm hends =>
      exact ⟨closed, append_nil _, .inr ⟨_, hterm, hends⟩⟩
  · have hstep : s.step start.offset bytes n = (s, .error ⟨0, error⟩) := by
      rw [step, next_of_terminal hterm]
      rfl
    rw [hstep]
    exact ⟨closed, append_nil _, .inr ⟨error, hterm, hends⟩⟩

theorem framed_run (hnew : new config start = .ok f)
    (hfits : start.offset + bytes.length ≤ u64Max) (cuts : List Nat) :
    Framed config start bytes (final (step start.offset bytes) ⟨f, 0⟩ cuts)
      (framed (history (step start.offset bytes) ⟨f, 0⟩ cuts)) := by
  have hvalid := (new_ok hnew).1
  refine history_invariant (fun s past => Framed config start bytes s (framed past))
    (fun s n past h => ?_) (Framed.init hnew) cuts
  rw [framed, filterMap_append]
  exact h.step hvalid hfits n

/-! ## Completing the partial line -/

/-- The caller's loop: the same completion, until it is complete or fails. -/
def completeAll (reason : PartialCompletion) :
    Nat → LineFramer → List LineFrame × Option (Except LineError LineFramer)
  | 0, _ => ([], none)
  | fuel + 1, f =>
    match f.completePartial reason with
    | (_, .error failure) => ([], some (.error failure.error))
    | (f, .ok step) =>
      if step.complete then (step.frame.toList, some (.ok f))
      else (step.frame.toList ++ (completeAll reason fuel f).1, (completeAll reason fuel f).2)

/-- The frames and the result of a completion, after the segments closed before it. -/
def Finished (config : LineConfig) (start : LineStart) (bytes : Bytes) (ending : LineEnding)
    (closed : List Segment) (frames : List LineFrame)
    (result : Except LineError LineFramer) : Prop :=
  closed.map (Segment.frame config) ++ frames =
      (sourceSegments config start ending bytes).1.map (Segment.frame config) ∧
    match result with
    | .ok _ => (sourceSegments config start ending bytes).2 = none
    | .error error => (sourceSegments config start ending bytes).2 = some error

section

variable {reason : PartialCompletion}

theorem completePartial_eq (hterm : f.terminalError = none)
    (hcompleting : f.completing = none ∨ f.completing = some reason) :
    f.completePartial reason =
      match { f with completing := some reason }.advance [] with
      | (f, .error failure) => (f, .error failure)
      | (f, .ok step) =>
        if step.advanced then (f, .ok ⟨step.frame, false⟩) else f.finish reason := by
  have hcond : ¬ (f.completing.isSome ∧ f.completing ≠ some reason) := by
    rcases hcompleting with h | h <;> simp [h]
  unfold completePartial
  split
  · rename_i error herror
    rw [hterm] at herror
    cases herror
  · exact if_neg hcond

/-- The end of a completion. -/
theorem closePartial_spec (hline : f.toLineAccumulator = line.accumulator config)
    (hok : line.Ok config) (reason : PartialCompletion) :
    ∃ f' frame, f.closePartial reason = (f', .ok ⟨frame, true⟩) ∧
      frame.toList = (line.complete reason.ending).map (Segment.frame config) := by
  have hstart : f.frameStart = line.start := congrArg LineAccumulator.frameStart hline
  have hend : f.processedEnd = line.stop := congrArg LineAccumulator.processedEnd hline
  by_cases hlt : line.start < line.stop
  · have hemit := emit_final hok (show reason.ending ≠ .split by cases reason <;> exact nofun) 0
    rw [add_zero] at hemit
    refine ⟨{ f with
        toLineAccumulator := (empty line.stop none).accumulator config
        completing := none }, some ((line.close reason.ending 0).frame config), ?_, ?_⟩
    · rw [closePartial, hstart, hend, if_pos hlt, hline, hemit]
    · rw [complete, if_pos hlt]
      rfl
  · refine ⟨{ f with completing := none }, none, ?_, ?_⟩
    · rw [closePartial, hstart, hend, if_neg hlt]
    · rw [complete, if_neg hlt]
      rfl

/-- A source without an error ends with the partial line. -/
theorem sourceSegments_eq (ending : LineEnding) (hsegments : segments config start.line
      (accepted config.onDecodeError (decode config.encoding start.decodeStart bytes)) =
        (closed, .ok line)) (hrejection : rejection config.onDecodeError
      (decode config.encoding start.decodeStart bytes) = none) :
    sourceSegments config start ending bytes = (closed ++ line.complete ending, none) := by
  rw [sourceSegments, outcome, hsegments, hrejection]

/-- A completion that fails. -/
theorem Finished.failed (h : EndsWith config start bytes closed error)
    (ending : LineEnding) : Finished config start bytes ending closed [] (.error error) := by
  rw [Finished, h ending, append_nil]
  exact ⟨rfl, rfl⟩

/-- **The end of the source.**  With everything drained, the open unit is resolved: there is none
and the partial line is closed, or it is the last event. -/
theorem Running.finish (hvalid : config.validate = .ok ())
    (h : Running config start bytes f bytes.length events line closed) (hp : f.pending = none)
    (hdrained : f.decoder.undrained = false) :
    (∃ f' frame, f.finish reason = (f', .ok ⟨frame, true⟩) ∧
      Finished config start bytes reason.ending closed frame.toList (.ok f')) ∨
    (∃ f' frame event line' more, f.finish reason = (f', .ok ⟨frame, false⟩) ∧
      frame.toList = more.map (Segment.frame config) ∧ f'.completing = f.completing ∧
      Running config start bytes f' bytes.length (events ++ [event]) line' (closed ++ more)) ∨
    ∃ f' error, f.finish reason = (f', .error ⟨0, error⟩) ∧
      EndsWith config start bytes closed error := by
  rcases h.fed.finish_cases h.decoder_eq rfl hdrained with ⟨hcall, haccepted, hrejection⟩ |
    ⟨event, decoder, hcall, hrange, hafter, hfed, -⟩ |
    ⟨error, decoder, hcall, -, haccepted, hrejection⟩
  · -- no unit is open
    have hsegments := h.segments_eq
    rw [haccepted] at hsegments
    obtain ⟨f', frame, hclose, hframe⟩ := closePartial_spec (h.waits.line_eq hp) h.isOk reason
    refine .inl ⟨f', frame, ?_, ?_, ?_⟩
    · simp only [LineFramer.finish, hcall]
      exact hclose
    · rw [sourceSegments_eq _ hsegments hrejection, map_append, hframe]
    · rw [sourceSegments_eq _ hsegments hrejection]
  · -- the open unit is the last event
    rcases h.handle hvalid hp hfed hrange hafter 0 with
      ⟨f', frame, line', more, hhandle, hframe, hcompleting, hrun⟩ | ⟨f', error, hhandle, -, hends⟩
    · refine .inr (.inl ⟨f', frame, event, line', more, ?_, hframe, hcompleting, hrun⟩)
      simp [LineFramer.finish, hcall, hhandle]
    · refine .inr (.inr ⟨f', error, ?_, hends⟩)
      simp [LineFramer.finish, hcall, hhandle]
  · -- the open unit is fatal
    refine .inr (.inr ⟨{ f with decoder, terminalError := some (.decode error) }, .decode error,
      ?_, endsWith_decode haccepted.symm hrejection h.segments_eq⟩)
    simp [LineFramer.finish, hcall, LineFramer.fail]

/-- **A completion ends**, with the frames that the source still has. -/
theorem Running.completes (hvalid : config.validate = .ok ())
    (hfits : start.offset + bytes.length ≤ u64Max)
    (h : Running config start bytes f bytes.length events line closed)
    (hcompleting : f.completing = none ∨ f.completing = some reason) {fuel : Nat}
    (hfuel : f.left (decode config.encoding start.decodeStart bytes) events < fuel) :
    ∃ frames result, completeAll reason fuel f = (frames, some result) ∧
      Finished config start bytes reason.ending closed frames result := by
  induction fuel generalizing f events line closed with
  | zero => omega
  | succ fuel ih =>
    have hrun : Running config start bytes { f with completing := some reason } bytes.length events
        line closed := { h with }
    have hadv := hrun.advance hvalid hfits 0
    rw [take_zero] at hadv
    have hcall := completePartial_eq h.terminal_eq hcompleting
    rcases hstep : { f with completing := some reason }.advance [] with ⟨f', result⟩
    rw [hstep] at hadv hcall
    -- an event was added to the line, in one of two ways
    have hgoes : ∀ {f' event line' more} {frame : Option LineFrame},
        frame.toList = more.map (Segment.frame config) → f'.completing = some reason →
        Running config start bytes f' bytes.length (events ++ [event]) line' (closed ++ more) →
        ∃ frames result, completeAll reason fuel f' = (frames, some result) ∧
          Finished config start bytes reason.ending closed (frame.toList ++ frames) result := by
      intro f' event line' more frame hframe hc hrun'
      have hless := hrun'.left_lt f
      obtain ⟨frames, result, hall, hfin⟩ := ih hrun' (.inr hc) (by omega)
      refine ⟨frames, result, hall, ?_, hfin.2⟩
      rw [← hfin.1, map_append, hframe, append_assoc]
    cases hadv with
    | again hp hp' _ hc hrun' =>
      obtain ⟨frames, result, hall, hfin⟩ := ih hrun' (.inr hc)
        ((left_lt_of_pending _ _ hp hp').trans_le (Nat.le_of_lt_succ hfuel))
      refine ⟨frames, result, ?_, hfin⟩
      simp [completeAll, hcall, hall]
    | quiet hp hacc hc hdrained hrun' =>
      have hp' : f'.pending = none := (congrArg LineAccumulator.pending hacc).trans hp
      have hzero : decide (([] : Bytes).length ≠ 0) = false := rfl
      rw [hzero] at hcall
      simp only [Bool.false_eq_true, if_false] at hcall
      rcases hrun'.finish hvalid hp' hdrained with ⟨f'', frame, hfinish, hfin⟩ |
        ⟨f'', frame, event, line', more, hfinish, hframe, hc', hrun''⟩ |
          ⟨f'', error, hfinish, hends⟩
      · refine ⟨frame.toList, .ok f'', ?_, hfin⟩
        simp [completeAll, hcall, hfinish]
      · obtain ⟨frames, result, hall, hfin⟩ := hgoes hframe (hc'.trans hc) hrun''
        refine ⟨frame.toList ++ frames, result, ?_, hfin⟩
        simp [completeAll, hcall, hfinish, hall]
      · refine ⟨[], .error error, ?_, .failed hends _⟩
        simp [completeAll, hcall, hfinish]
    | @event f' event n line' more frame hframe hc hrun' =>
      have hn : n = 0 := by
        have := hrun'.fed.position_le
        dsimp only at this
        omega
      subst hn
      obtain ⟨frames, result, hall, hfin⟩ := hgoes hframe hc hrun'
      refine ⟨frame.toList ++ frames, result, ?_, hfin⟩
      simp [completeAll, hcall, hall]
    | failed hterm hends =>
      refine ⟨[], .error _, ?_, .failed hends _⟩
      simp [completeAll, hcall]

end

/-! ## What a caller receives -/

/-- The frames and the failure that a caller receives from a framer for a source, however the
source is cut.  In every run the frames are the first of `all`.  A framer that has failed has
returned all of them.  Once the source is consumed, completing the partial line returns the rest,
and every run can be brought to this point or to a failure. -/
structure Yields (start : Nat) (bytes : Bytes) (f : LineFramer) (reason : PartialCompletion)
    (all : List LineFrame) (failure : Option LineError) (cuts : List Nat) : Prop where
  begins : framed (history (step start bytes) ⟨f, 0⟩ cuts) <+: all
  failed : ∀ error, (final (step start bytes) ⟨f, 0⟩ cuts).framer.terminalError =
      some error →
    framed (history (step start bytes) ⟨f, 0⟩ cuts) = all ∧ failure = some error
  completes : (final (step start bytes) ⟨f, 0⟩ cuts).position = bytes.length →
    ∃ enough, ∀ fuel, enough ≤ fuel → ∃ frames result,
      completeAll reason fuel (final (step start bytes) ⟨f, 0⟩ cuts).framer =
        (frames, some result) ∧
      framed (history (step start bytes) ⟨f, 0⟩ cuts) ++ frames = all ∧
      match result with
      | .ok _ => failure = none
      | .error error => failure = some error
  ends : ∃ more, (final (step start bytes) ⟨f, 0⟩ (cuts ++ more)).position = bytes.length ∨
    (final (step start bytes) ⟨f, 0⟩ (cuts ++ more)).framer.terminalError ≠ none

/-- The segments closed so far are the first of the source. -/
theorem Running.closed_prefix (h : Running config start bytes f position events line closed)
    (ending : LineEnding) : closed <+: (sourceSegments config start ending bytes).1 := by
  obtain ⟨rest, hrest⟩ := h.fed.accepted_eq
  have hall : segments config start.line (events ++ rest) = _ := segments_append h.segments_eq
  rw [hrest] at hall
  rw [sourceSegments, outcome, hall]
  rcases segments config line rest with ⟨more, error | line'⟩
  · exact prefix_append _ _
  · cases rejection config.onDecodeError (decode config.encoding start.decodeStart bytes) with
    | some error => exact prefix_append _ _
    | none =>
      dsimp only
      rw [append_assoc]
      exact prefix_append _ _

include hvalid hfits in
/-- **Every run can be completed.**  Each further call takes back the unit that waits, adds an
event, of which there are finitely many, or ends the run. -/
theorem Running.ends (h : Running config start bytes s.framer s.position events line closed)
    (hcompleting : s.framer.completing = none) :
    ∃ more, (final (step start.offset bytes) s more).position = bytes.length ∨
      (final (step start.offset bytes) s more).framer.terminalError ≠ none := by
  generalize hk : s.framer.left (decode config.encoding start.decodeStart bytes) events = k
  induction k using Nat.strong_induction_on generalizing s events line closed with
  | _ k ih =>
    have hstep := h.step_eq hcompleting bytes.length
    have hadv := h.advance hvalid hfits bytes.length
    generalize s.framer.advance ((bytes.drop s.position).take bytes.length) = r at hstep hadv
    cases hadv with
    | again hp hp' _ hc hrun =>
      obtain ⟨more, hmore⟩ := ih _ (hk ▸ left_lt_of_pending _ events hp hp')
        (s := ⟨_, _⟩) hrun (hc.trans hcompleting) rfl
      refine ⟨bytes.length :: more, ?_⟩
      rwa [final_cons, hstep]
    | quiet _ _ _ _ hrun =>
      refine ⟨[bytes.length], .inl ?_⟩
      have hle := h.fed.position_le
      rw [final_cons, final_nil, hstep]
      show s.position + ((bytes.drop s.position).take bytes.length).length = bytes.length
      dsimp only at hle
      rw [length_take, length_drop]
      omega
    | event _ hc hrun =>
      obtain ⟨more, hmore⟩ := ih _ (hk ▸ hrun.left_lt s.framer) (s := ⟨_, _⟩) hrun
        (hc.trans hcompleting) rfl
      refine ⟨bytes.length :: more, ?_⟩
      rwa [final_cons, hstep]
    | failed hterm _ =>
      refine ⟨[bytes.length], .inr ?_⟩
      rw [final_cons, final_nil, hstep, hterm]
      exact nofun

/-- **A framer yields the frames of its source.** -/
theorem framer_yields (hnew : new config start = .ok f)
    (hfits : start.offset + bytes.length ≤ u64Max) (reason : PartialCompletion) (cuts : List Nat) :
    Yields start.offset bytes f reason
      ((sourceSegments config start reason.ending bytes).1.map (Segment.frame config))
      (sourceSegments config start reason.ending bytes).2 cuts := by
  have hvalid := (new_ok hnew).1
  obtain ⟨closed, hframes, ⟨events, line, hrun, hcompleting⟩ | ⟨error, hterm, hends⟩⟩ :=
    framed_run hnew hfits cuts
  · refine ⟨?_, fun error hterm => ?_, fun hposition => ?_, ?_⟩
    · rw [hframes]
      exact (hrun.closed_prefix reason.ending).map _
    · cases hrun.terminal_eq.symm.trans hterm
    · rw [hposition] at hrun
      refine ⟨(final (step start.offset bytes) ⟨f, 0⟩ cuts).framer.left
        (decode config.encoding start.decodeStart bytes) events + 1, fun fuel hfuel => ?_⟩
      obtain ⟨frames, result, hall, hfin⟩ :=
        @Running.completes _ _ _ _ _ _ _ reason hvalid hfits hrun (.inl hcompleting) fuel hfuel
      refine ⟨frames, result, hall, ?_, ?_⟩
      · rw [hframes]
        exact hfin.1
      · cases result <;> exact hfin.2
    · obtain ⟨more, hmore⟩ := hrun.ends hvalid hfits hcompleting
      refine ⟨more, ?_⟩
      rwa [final_append]
  · have hall := hends reason.ending
    rw [hall]
    refine ⟨?_, fun error' hterm' => ?_, fun _ => ⟨1, fun fuel hfuel => ?_⟩, [], .inr ?_⟩
    · rw [hframes]
    · exact ⟨hframes, hterm.symm.trans hterm'⟩
    · obtain ⟨fuel, rfl⟩ := Nat.exists_eq_succ_of_ne_zero (by omega : fuel ≠ 0)
      refine ⟨[], .error error, ?_, by rw [hframes, append_nil], rfl⟩
      rw [completeAll, complete_of_terminal hterm]
    · rw [append_nil, hterm]
      exact nofun

end OtapDataflow.Filelog
