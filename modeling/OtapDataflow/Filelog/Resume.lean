import OtapDataflow.Filelog.Framing

/-! # Framing can be resumed after every frame

A framer that is created where a frame ends, inside the line if the frame is a fragment that is
split off, yields the frames that the framer of the whole source yields after it.  The events
after a frame are those of the source that is left (`decode_drop`), and the line after a fragment
is the empty one to which its first unit is added again (`outcome_resume`). -/

namespace OtapDataflow.Filelog

open Bytes Word Machine List LineFramer OpenLine

/-! ## The events of the rest of a source -/

section

variable {encoding : Encoding} {offset : Nat} {bs : Bytes} {xs ys : List DecodeEvent}

theorem eventsFrom_drop (h : eventsFrom encoding offset bs = xs ++ ys) :
    ys = eventsFrom encoding (offset + (bodyBytes xs).length) (bs.drop (bodyBytes xs).length) := by
  induction xs generalizing offset bs with
  | nil => exact h.symm
  | cons x xs ih =>
    by_cases hnil : bs = []
    · subst hnil
      cases h
    cases hscan : scan encoding [] bs with
    | none =>
      rw [eventsFrom_of_carry hscan hnil] at h
      obtain ⟨rfl, hrest⟩ := cons.inj h
      obtain ⟨rfl, rfl⟩ := append_eq_nil_iff.mp hrest.symm
      have hall : bs.drop (bodyBytes [unitEvent (offset, (bs, none))]).length = [] := by
        rw [bodyBytes_singleton]
        exact drop_length
      rw [hall, eventsFrom_nil]
    | some r =>
      obtain ⟨⟨unit, value⟩, rest⟩ := r
      rw [eventsFrom_of_scan hscan] at h
      obtain ⟨rfl, hrest⟩ := cons.inj h
      obtain ⟨hbytes, -⟩ := scan_bytes hscan
      rw [nil_append] at hbytes
      have hsource : bodyBytes (unitEvent (offset, (unit, value)) :: xs) = unit ++ bodyBytes xs :=
          rfl
      have hdrop : (unit ++ rest).drop (unit.length + (bodyBytes xs).length) =
          rest.drop (bodyBytes xs).length := by
        rw [← drop_drop, drop_left]
      rw [ih hrest, hsource, ← hbytes, length_append, hdrop, add_assoc]

/-- The events after the first ones are those of the bytes after them. -/
theorem decode_drop {start : DecodeStart} (h : decode encoding start bs = xs ++ ys)
    (hne : xs ≠ []) :
    ys = decode encoding (.resumeAt (start.offset + (bodyBytes xs).length))
      (bs.drop (bodyBytes xs).length) := by
  have hresume : ∀ offset bs, decode encoding (.resumeAt offset) bs =
      eventsFrom encoding offset bs :=
    fun _ _ => if_neg (by simp)
  rw [hresume]
  by_cases htext : start = .newStream ∧ encoding ≠ .raw
  · obtain ⟨rfl, hraw⟩ := htext
    cases xs with
    | nil => exact absurd rfl hne
    | cons x xs =>
      rw [decode, if_pos ⟨rfl, hraw⟩] at h
      cases hfind : BomKind.all.find? (fun kind => kind.bytes.isPrefixOf bs) with
      | some kind =>
        rw [hfind] at h
        obtain ⟨rfl, hrest⟩ := cons.inj h
        have hsource : bodyBytes (bomEvent encoding kind :: xs) = kind.bytes ++ bodyBytes xs := by
          rw [bodyBytes, flatMap_cons, bomEvent_source]
          rfl
        rw [eventsFrom_drop hrest, hsource, length_append, drop_drop]
        show _ = eventsFrom encoding (0 + _) _
        rw [zero_add]
      | none =>
        rw [hfind] at h
        by_cases hcut : bs ≠ [] ∧ BomKind.all.any fun kind => bs.isPrefixOf kind.bytes
        · rw [if_pos hcut] at h
          obtain ⟨rfl, hrest⟩ := cons.inj h
          obtain ⟨rfl, rfl⟩ := append_eq_nil_iff.mp hrest.symm
          have hall : bs.drop (bodyBytes [unitEvent (0, (bs, none))]).length = [] := by
            rw [bodyBytes_singleton]
            exact drop_length
          rw [hall, eventsFrom_nil]
        · rw [if_neg hcut] at h
          exact eventsFrom_drop h
  · rw [decode, if_neg htext] at h
    exact eventsFrom_drop h

end

/-! ## Cutting after a segment -/

variable {ending : LineEnding} {config : LineConfig} {failure : Option LineError}

section

variable {line line' : OpenLine}
  {event : DecodeEvent} {events : List DecodeEvent}

theorem outcome_nil (config : LineConfig) (line : OpenLine) (ending : LineEnding) :
    outcome config line ending [] = (line.complete ending, none) := by
  obtain ⟨haccepted, hrejection⟩ := accepted_nil config.onDecodeError
  rw [outcome, haccepted, hrejection]
  rfl

theorem complete_empty (offset : Nat) (coords : Option LineContinuation) (ending : LineEnding) :
    (empty offset coords).complete ending = [] := if_neg (lt_irrefl _)

/-- An event that the policy lets through is added to the line. -/
theorem outcome_cons (line : OpenLine) (ending : LineEnding) (events : List DecodeEvent)
    (hok : deliver config.onDecodeError event = .ok event) :
    outcome config line ending (event :: events) =
      match line.add config event with
      | (closed, .error error) => (closed, some error)
      | (closed, .ok line) =>
        (closed ++ (outcome config line ending events).1,
          (outcome config line ending events).2) := by
  have hall : ∀ e ∈ [event], deliver config.onDecodeError e = .ok e := by simpa using hok
  obtain ⟨haccepted, hrejection⟩ := accepted_append events hall
  rw [singleton_append] at haccepted hrejection
  rw [outcome, haccepted, hrejection, singleton_append, segments]
  rcases line.add config event with ⟨closed, error | line'⟩
  · rfl
  · dsimp only
    rw [outcome]
    rcases segments config line' (accepted config.onDecodeError events) with ⟨more, error | last⟩
    · rfl
    · cases rejection config.onDecodeError events with
      | some error => rfl
      | none => simp only [append_assoc]

theorem outcome_fatal {error : DecodeError} (line : OpenLine) (ending : LineEnding)
    (events : List DecodeEvent) (h : deliver config.onDecodeError event = .error error) :
    outcome config line ending (event :: events) = ([], some (.decode error)) := by
  obtain ⟨haccepted, hrejection⟩ := accepted_of_error events h
  rw [outcome, haccepted, hrejection]
  rfl

/-- Where the line goes on after a segment. -/
def Segment.next (s : Segment) : OpenLine := .empty s.stop s.continuation

/-- A line whose record started before it. -/
def OpenLine.Recorded (line : OpenLine) : Prop :=
  ∀ c, line.coords = some c → c.recordStartOffset < line.start

/-- What a framer can be resumed with after a segment. -/
structure Segment.Resumable (config : LineConfig) (s : Segment) : Prop where
  mode : s.continuation ≠ none → config.oversize = .split
  record : ∀ c, s.continuation = some c → c.recordStartOffset < s.stop ∧ c.nextFragmentIndex ≠ 0

variable {s : Segment}

theorem Segment.continuation_eq (h : s.ending ≠ .split) : s.continuation = none :=
  if_neg h

theorem Segment.resumable (h : s.ending ≠ .split) : s.Resumable config := by
  have hnone := Segment.continuation_eq h
  exact ⟨fun hne => absurd hnone hne, fun c hc => by cases hnone.symm.trans hc⟩

/-- The unit that closed a fragment is the first of the next one. -/
theorem add_empty {offset : Nat} {coords : Option LineContinuation} (hlf : event.isLf = false)
    (hunit : event.units = [event]) (hsize : bodySize config [event] ≤ config.limit) :
    (empty offset coords).add config event =
      ([], .ok ⟨offset, 0, coords, [event], []⟩) := by
  cases event with
  | strippedBom _ _ => cases hunit
  | unit range source value malformed =>
    replace hlf : value.isLf = false := hlf
    simp only [add, hlf, empty, Bool.false_eq_true, if_false, ne_eq, not_true_eq_false, nil_append]
    exact if_pos hsize

/-- **Cutting after a segment.**  The events after a segment, added to the line that it leaves,
give the segments after it. -/
theorem outcome_resume (hending : ending ≠ .split)
    (hfits : ∀ event ∈ events, (event.isLf = true → event.malformed = false) ∧
      (deliver config.onDecodeError event = .ok event → bodySize config [event] ≤ config.limit))
    {bs : Bytes} {stop : Nat} (htiles : Tiles line.stop bs events stop [])
    (hsound : line.Sound config) (hrecorded : line.Recorded) {pre post : List Segment}
    (h : outcome config line ending events = (pre ++ s :: post, failure)) :
    ∃ xs ys, events = xs ++ ys ∧ outcome config s.next ending ys = (post, failure) ∧
      s.stop = line.stop + (bodyBytes xs).length ∧ line.start < s.stop ∧ s.Resumable config := by
  induction events generalizing line pre bs with
  | nil =>
    rw [outcome_nil] at h
    obtain ⟨hsegs, rfl⟩ := Prod.mk.inj h
    by_cases hlt : line.start < line.stop
    · rw [complete, if_pos hlt] at hsegs
      cases pre with
      | cons first pre => cases pre <;> cases hsegs
      | nil =>
        cases hsegs
        refine ⟨[], [], rfl, ?_, rfl, hlt, Segment.resumable hending⟩
        rw [outcome_nil, Segment.next, complete_empty]
    · rw [complete, if_neg hlt] at hsegs
      cases pre <;> cases hsegs
  | cons event events ih =>
    rcases deliver_cases config.onDecodeError event with hdeliver | ⟨range, source, herror⟩
    rotate_left
    · rw [outcome_fatal line ending events herror] at h
      cases pre <;> cases (Prod.mk.inj h).1
    rw [outcome_cons line ending events hdeliver] at h
    rcases add_spec config line event with ⟨closed, line', hadd, hadded⟩ | ⟨error, hadd⟩
    · rw [hadd] at h
      dsimp only at h
      cases htiles with
      | cons hrange hne htail =>
        obtain ⟨hlf, hsize⟩ := hfits event mem_cons_self
        have hplaced : Placed config line event := ⟨hrange, hne, hsize hdeliver, hlf⟩
        have hstop' := hadded.stop_eq
        rw [← hstop'] at htail
        -- a segment that is closed by a later event
        have hlater : ∀ pre', line'.Recorded → line.start ≤ line'.start →
            outcome config line' ending events = (pre' ++ s :: post, failure) →
            ∃ xs ys, event :: events = xs ++ ys ∧
              outcome config s.next ending ys = (post, failure) ∧
              s.stop = line.stop + (bodyBytes xs).length ∧ line.start < s.stop ∧
              s.Resumable config := by
          intro pre' hrec hle hrest
          obtain ⟨xs, ys, rfl, hys, hstop, hlt, hres⟩ :=
            ih (fun e he => hfits e (mem_cons_of_mem _ he)) htail
              (hadded.sound hsound hplaced) hrec hrest
          refine ⟨event :: xs, ys, rfl, hys, ?_, by omega, hres⟩
          have hlen : (bodyBytes (event :: xs)).length =
              event.source.length + (bodyBytes xs).length := length_append
          omega
        rcases hrest : outcome config line' ending events with ⟨more, failure'⟩
        rw [hrest] at h
        obtain ⟨hsegs, rfl⟩ := Prod.mk.inj h
        rw [hrest] at hlater
        cases hadded with
        | mark | drop | keep | truncate =>
          exact hlater pre hrecorded (le_refl _) (Prod.ext hsegs rfl)
        | lf _ =>
          have hle := line.start_le_stop
          cases pre with
          | nil =>
            cases hsegs
            have hpos := length_pos_iff.mpr hne
            have hstop : (line.close .lf event.source.length).stop =
                line.stop + event.source.length := rfl
            refine ⟨[event], events, rfl, hrest, ?_, by omega,
              Segment.resumable (show LineEnding.lf ≠ .split by decide)⟩
            rw [bodyBytes_singleton, hstop]
          | cons first pre =>
            refine hlater pre (fun c hc => by cases hc) ?_ (Prod.ext (cons.inj hsegs).2 rfl)
            exact Nat.le_add_right_of_le hle
        | @split next hnot hunit _ hover hmode hnext =>
          obtain rfl := nextIndex_eq hnext
          have hlt : line.start < line.stop := hsound.start_lt
            (append_ne_nil_of_left_ne_nil (body_ne_of_split hplaced.size_le hover) _)
          have hrecord : line.fragmentCoords.recordStartOffset < line.stop := by
            cases hcoords : line.coords with
            | none =>
              rwa [fragmentCoords, hcoords]
            | some c =>
              have := hrecorded c hcoords
              rw [fragmentCoords, hcoords]
              exact this.trans hlt
          cases pre with
          | nil =>
            cases hsegs
            refine ⟨[], event :: events, rfl, ?_, rfl, hlt, fun _ => hmode, fun c hc => ?_⟩
            · rwa [outcome_cons _ ending events hdeliver, Segment.next,
                add_empty hnot hunit hplaced.size_le]
            · cases hc
              exact ⟨hrecord, Nat.succ_ne_zero _⟩
          | cons first pre =>
            refine hlater pre (fun c hc => ?_) (le_of_lt hlt)
              (Prod.ext (cons.inj hsegs).2 rfl)
            cases hc
            exact hrecord
    · rw [hadd] at h
      cases pre <;> cases (Prod.mk.inj h).1

end

/-! ## Resuming a framer -/

/-- Where a framer is resumed after a frame. -/
def LineFrame.resume (frame : LineFrame) : LineStart :=
  match frame.continuation with
  | none => .resumeAt frame.frameRange.stop
  | some c => .continuation frame.frameRange.stop c

section

variable {start : LineStart} {bytes : Bytes} {f : LineFramer}
  {s : Segment} {pre post : List Segment}

theorem resume_frame (config : LineConfig) (s : Segment) :
    (s.frame config).resume.line = s.next ∧
      (s.frame config).resume.decodeStart = .resumeAt s.stop := by
  have hcont : (s.frame config).continuation = s.continuation := rfl
  rw [LineFrame.resume, hcont, Segment.next]
  cases s.continuation with
  | none | some => exact ⟨rfl, rfl⟩

/-- A framer can be created after every frame. -/
theorem Segment.Resumable.new_ok (h : s.Resumable config) (hvalid : config.validate = .ok ()) :
    ∃ f, new config (s.frame config).resume = .ok f := by
  have hcont : (s.frame config).continuation = s.continuation := rfl
  rw [LineFrame.resume, hcont]
  cases hs : s.continuation with
  | none => exact ⟨_, by simp only [new, hvalid]; rfl⟩
  | some c =>
    have hmode := h.mode (by rw [hs]; exact Option.some_ne_none c)
    obtain ⟨hrecord, hindex⟩ := h.record c hs
    have hcond : ¬ (config.oversize ≠ .split ∨ s.stop ≤ c.recordStartOffset ∨
        c.nextFragmentIndex = 0) := by
      rintro (hne | hle | hzero)
      · exact hne hmode
      · omega
      · exact hindex hzero
    exact ⟨_, by simp only [new, hvalid]; exact if_neg hcond⟩

/-- **The source after a segment** has the segments after it. -/
theorem sourceSegments_resume (hending : ending ≠ .split) (hnew : new config start = .ok f)
    (h : sourceSegments config start ending bytes = (pre ++ s :: post, failure)) :
    sourceSegments config (s.frame config).resume ending (bytes.drop (s.stop - start.offset)) =
        (post, failure) ∧
      s.stop ≤ start.offset + bytes.length ∧ start.offset ≤ s.stop ∧ s.Resumable config := by
  obtain ⟨hvalid, hcont⟩ := new_ok hnew
  obtain ⟨hsound, hstop⟩ := LineStart.line_sound hnew
  have hdec := decode_decoded config.encoding start.decodeStart bytes
  have htiles := decode_tiles config.encoding start.decodeStart bytes
  have hoffset : start.decodeStart.offset = start.line.stop := hstop.symm
  rw [hoffset] at htiles
  have hrecorded : start.line.Recorded := by
    intro c hc
    cases start with
    | newStream | resumeAt => cases hc
    | continuation offset coords =>
      cases hc
      exact (hcont _ _ rfl).2.1
  obtain ⟨xs, ys, hevents, hys, hs, hlt, hres⟩ := outcome_resume hending
    (fun event hmem => ⟨hdec.lf_wellFormed hmem, hdec.fits hvalid hmem⟩) htiles hsound hrecorded h
  have hstart : start.line.start = start.offset := by cases start <;> rfl
  have hne : xs ≠ [] := by
    rintro rfl
    rw [hs, hstart, hstop] at hlt
    exact absurd hlt (lt_irrefl _)
  have hall := htiles.bodyBytes_eq
  rw [hevents, bodyBytes_append] at hall
  have hlen : (bodyBytes xs).length ≤ bytes.length := by
    rw [← hall, length_append]
    exact Nat.le_add_right _ _
  rw [hstop] at hs
  refine ⟨?_, by omega, by omega, hres⟩
  obtain ⟨hline, hdecode⟩ := resume_frame config s
  rw [sourceSegments, hline, hdecode]
  have hrest := decode_drop hevents hne
  have hoff : start.decodeStart.offset = start.offset := rfl
  rw [hoff, ← hs] at hrest
  rwa [show s.stop - start.offset = (bodyBytes xs).length by omega, ← hrest]

/-- **Line framing can be resumed after every frame.**  A framer that is created where a frame of
an uninterrupted run ends, and given the rest of the source, yields the frames after it. -/
theorem framer_resumes (hnew : new config start = .ok f)
    (hfits : start.offset + bytes.length ≤ u64Max) (reason : PartialCompletion) :
    ∃ all failure, (∀ cuts, Yields start.offset bytes f reason all failure cuts) ∧
      ∀ before frame after, all = before ++ frame :: after →
        ∃ f', new config frame.resume = .ok f' ∧
          ∀ cuts, Yields frame.resume.offset
            (bytes.drop (frame.frameRange.stop - start.offset)) f' reason after failure cuts := by
  refine ⟨_, _, framer_yields hnew hfits reason, fun before frame after hall => ?_⟩
  have hending : reason.ending ≠ .split := by cases reason <;> exact nofun
  obtain ⟨pre, rest, hsegs, -, hrest⟩ := map_eq_append_iff.mp hall
  obtain ⟨s, post, rfl, rfl, rfl⟩ := map_eq_cons_iff.mp hrest
  obtain ⟨hsource, hle, hge, hres⟩ := sourceSegments_resume hending hnew
    (Prod.ext hsegs rfl : sourceSegments config start reason.ending bytes = (_, _))
  obtain ⟨f', hnew'⟩ := hres.new_ok (new_ok hnew).1
  refine ⟨f', hnew', fun cuts => ?_⟩
  have hoffset : (s.frame config).resume.offset = s.stop :=
    congrArg DecodeStart.offset (resume_frame config s).2
  have hfits' : (s.frame config).resume.offset +
      (bytes.drop (s.stop - start.offset)).length ≤ u64Max := by
    rw [hoffset, length_drop]
    omega
  have hyields := framer_yields hnew' hfits' reason cuts
  rwa [hsource] at hyields

/-- A line of five bytes and a partial line, with a bound of four bytes. -/
theorem framer_resumes_after_fragment :
    ∃ f, new ⟨.utf8, .replace, 4, 8, .split⟩ .newStream = .ok f ∧
      LineStart.newStream.offset + [0x61, 0x62, 0x63, 0x64, 0x65, 0x0a, (0x66 : UInt8)].length ≤
        u64Max ∧
      ∃ all failure, (∀ cuts, Yields 0 [0x61, 0x62, 0x63, 0x64, 0x65, 0x0a, 0x66] f .idle all
          failure cuts) ∧
        ∀ before frame after, all = before ++ frame :: after →
          ∃ f', new ⟨.utf8, .replace, 4, 8, .split⟩ frame.resume = .ok f' ∧
            ∀ cuts, Yields frame.resume.offset
              ([0x61, 0x62, 0x63, 0x64, 0x65, 0x0a, (0x66 : UInt8)].drop frame.frameRange.stop) f'
              .idle after failure cuts :=
  ⟨_, rfl, by decide, @framer_resumes ⟨.utf8, .replace, 4, 8, .split⟩ .newStream
    [0x61, 0x62, 0x63, 0x64, 0x65, 0x0a, 0x66] _ rfl (by decide) .idle⟩

end

end OtapDataflow.Filelog
