import OtapDataflow.Filelog.FramerRun

/-! # Framing is exact

The segments of a source, as a derivation that adds one event after the other (`Cuts`).  The
properties of framing are inductions over this derivation: the segments tile the source
(`Cuts.contiguous`), end at the newlines (`Cuts.lf_inside`), hold the lines of the source
(`Cuts.lines_eq`) and are as long as the bound allows (`Cuts.fragments`, `Cuts.sound`).  With the
runs of the framer they become properties of the frames that a caller receives
(`framer_exact`). -/

namespace OtapDataflow.Filelog

open Bytes Word Machine List OpenLine LineFramer Option

/-! ## Events of a source -/

variable {bs : Bytes} {stop : Nat}

theorem Decomposes.tiles {encoding : Encoding} {offset : Nat}
    {units : List (Bytes × Option DecodedValue)} (h : Decomposes encoding bs units) :
    Tiles offset bs ((Frames.place (fun u => u.1.length) offset units).map unitEvent)
      (offset + bs.length) [] := by
  induction units generalizing bs offset with
  | nil =>
    obtain rfl : bs = [] := h
    exact .nil _ _
  | cons u units ih =>
    obtain ⟨hne, -, rest, rfl, hrest⟩ := h
    have hrange : (unitEvent (offset, u)).range =
        ⟨offset, offset + (unitEvent (offset, u)).source.length⟩ := rfl
    rw [length_append, ← add_assoc]
    exact .cons hrange hne (ih hrest)

/-- The events of a source cover it. -/
theorem decode_tiles (encoding : Encoding) (start : DecodeStart) (bs : Bytes) :
    Tiles start.offset bs (decode encoding start bs) (start.offset + bs.length) [] := by
  have h := decode_decoded encoding start bs
  generalize decode encoding start bs = events at h
  cases h with
  | plain _ hunits => exact hunits.tiles
  | @mark kind rest units _ hunits =>
    have hsource := bomEvent_source encoding kind
    have hne : (bomEvent encoding kind).source ≠ [] := by
      rw [hsource]
      cases kind <;> exact nofun
    have htail : Tiles (0 + (bomEvent encoding kind).source.length) rest
        ((Frames.place (fun u => u.1.length) kind.bytes.length units).map unitEvent)
        (0 + (kind.bytes ++ rest).length) [] := by
      rw [hsource, zero_add, zero_add, length_append]
      exact hunits.tiles
    have hrange : (bomEvent encoding kind).range =
        ⟨0, 0 + (bomEvent encoding kind).source.length⟩ := by
      rw [bomEvent_range, hsource, zero_add]
    have hall := Tiles.cons hrange hne htail
    rwa [hsource] at hall
  | cut _ _ hne =>
    have hrange : (unitEvent (0, (bs, none))).range =
        ⟨0, 0 + (unitEvent (0, (bs, none))).source.length⟩ := rfl
    have hall := Tiles.cons hrange hne (.nil (0 + (unitEvent (0, (bs, none))).source.length) [])
    rwa [append_nil] at hall

variable {events : List DecodeEvent}

/-- A newline is not malformed. -/
theorem Decoded.lf_wellFormed {encoding : Encoding} {start : DecodeStart} {event : DecodeEvent}
    (h : Decoded encoding start bs events)
    (hmem : event ∈ events) (hlf : event.isLf = true) : event.malformed = false := by
  have hunit : ∀ e : Nat × (Bytes × Option DecodedValue), (unitEvent e).isLf = true →
      (unitEvent e).malformed = false := by
    rintro ⟨offset, source, value⟩ h
    cases value with
    | some v => rfl
    | none => cases h
  have hplain : ∀ {units : List (Bytes × Option DecodedValue)} {offset : Nat},
      event ∈ (Frames.place (fun u => u.1.length) offset units).map unitEvent →
      event.malformed = false := by
    intro units offset hmem
    obtain ⟨e, -, rfl⟩ := mem_map.mp hmem
    exact hunit e hlf
  cases h with
  | plain _ _ => exact hplain hmem
  | cut _ _ _ =>
    obtain rfl := mem_singleton.mp hmem
    exact hunit _ hlf
  | mark kind _ _ =>
    rcases mem_cons.mp hmem with rfl | hmem
    · by_cases hk : kind.matches encoding = true
      · rw [bomEvent, if_pos hk]
        rfl
      · rw [bomEvent, if_neg hk] at hlf ⊢
        exact hunit _ hlf
    · exact hplain hmem

/-! ## What the properties say -/

/-- Ranges that are not empty and lie end to end. -/
def Contiguous : Nat → List SourceRange → Nat → Prop
  | start, [], stop => start = stop
  | start, range :: ranges, stop =>
    range.start = start ∧ start < range.stop ∧ Contiguous range.stop ranges stop

/-- Add units in front of the first line, or as the only line. -/
def joinFirst (units : List DecodeEvent) : List (List DecodeEvent) → List (List DecodeEvent)
  | [] => [units]
  | first :: rest => (units ++ first) :: rest

/-- The lines of a source: its units between newlines. -/
def sourceLines : List DecodeEvent → List (List DecodeEvent)
  | [] => []
  | event :: events =>
    if event.isLf then [] :: sourceLines events else joinFirst event.units (sourceLines events)

def Segment.units (s : Segment) : List DecodeEvent := s.body ++ s.dropped

/-- The lines that segments hold: a segment that is split off belongs to the line of the next
one. -/
def segmentLines : List Segment → List (List DecodeEvent)
  | [] => []
  | s :: rest =>
    if s.ending = .split then joinFirst s.units (segmentLines rest)
    else s.units :: segmentLines rest

/-- A segment is within the bound, and what it drops starts with a unit that did not fit. -/
structure Segment.Sound (config : LineConfig) (s : Segment) : Prop where
  size_le : bodySize config s.body ≤ config.limit
  dropped : ∀ unit rest, s.dropped = unit :: rest →
    config.oversize = .truncate ∧ s.coords = none ∧
      config.limit < bodySize config (s.body ++ [unit])
  split : s.coords ≠ none ∨ s.ending = .split → config.oversize = .split

/-- How a segment starts: where the line does, with its coordinates and units. -/
structure Segment.Begins (line : OpenLine) (s : Segment) : Prop where
  start_eq : s.start = line.start
  coords_eq : s.coords = if s.ending = .split then some line.fragmentCoords else line.coords
  body_eq : line.body <+: s.body

/-- How a segment follows another.  After a fragment that is split off comes the next fragment of
the record, and its first unit did not fit.  After the end of a line comes a new one, whose
fragments are counted from 0. -/
inductive Segment.Follows (config : LineConfig) (s t : Segment) : Prop
  | split : s.ending = .split → (∃ c unit rest, s.coords = some c ∧
      t.coords = some ⟨c.recordStartOffset, c.nextFragmentIndex + 1⟩ ∧
      t.body = unit :: rest ∧ config.limit < bodySize config (s.body ++ [unit])) →
      Follows config s t
  | newLine : s.ending ≠ .split →
      t.coords = (if t.ending = .split then some ⟨t.start, 0⟩ else none) → Follows config s t

/-! ## Adding an event -/

/-- A line in the middle of a derivation. -/
structure OpenLine.Sound (config : LineConfig) (line : OpenLine) : Prop where
  isOk : line.Ok config
  source_ne : ∀ unit ∈ line.body ++ line.dropped, unit.source ≠ []
  overflow : ∀ unit rest, line.dropped = unit :: rest →
    config.limit < bodySize config (line.body ++ [unit])

/-- An event that comes next after a line. -/
structure Placed (config : LineConfig) (line : OpenLine) (event : DecodeEvent) : Prop where
  range_eq : event.range = ⟨line.stop, line.stop + event.source.length⟩
  source_ne : event.source ≠ []
  size_le : bodySize config [event] ≤ config.limit
  lf_wellFormed : event.isLf = true → event.malformed = false

variable {ending : LineEnding} {config : LineConfig} {segs : List Segment} {start : LineStart}
  {s : Segment}

section

variable {line line' : OpenLine}
  {event : DecodeEvent} {closed segs : List Segment}

theorem OpenLine.start_le_stop (line : OpenLine) : line.start ≤ line.stop := by
  simp only [stop, bodyStop]
  omega

theorem bodyBytes_length_pos {units : List DecodeEvent} (hne : units ≠ [])
    (hsource : ∀ unit ∈ units, unit.source ≠ []) : 0 < (bodyBytes units).length := by
  cases units with
  | nil => exact absurd rfl hne
  | cons unit units =>
    have := length_pos_iff.mpr (hsource unit mem_cons_self)
    rw [bodyBytes, flatMap_cons, length_append]
    omega

/-- A line in which something has been read, or which is empty. -/
theorem OpenLine.Sound.start_lt (h : line.Sound config) (hne : line.body ++ line.dropped ≠ []) :
    line.start < line.stop := by
  have hpos := bodyBytes_length_pos hne h.source_ne
  rw [bodyBytes_append, length_append] at hpos
  simp only [stop, bodyStop]
  omega

/-- A unit that does not fit is not the first. -/
theorem body_ne_of_split (hfits : bodySize config [event] ≤ config.limit)
    (hover : config.limit < bodySize config (line.body ++ [event])) : line.body ≠ [] := by
  intro hnil
  rw [hnil, nil_append] at hover
  omega

theorem OpenLine.Sound.empty (start : Nat) {coords : Option LineContinuation}
    (h : coords ≠ none → config.oversize = .split) : (empty start coords).Sound config :=
  ⟨.empty start h, fun _ hmem => (by cases hmem), fun _ _ hcons => (by cases hcons)⟩

/-- **Adding an event keeps a line sound.** -/
theorem Added.sound (h : Added config line event closed line') (hline : line.Sound config)
    (hplaced : Placed config line event) : line'.Sound config := by
  obtain ⟨-, hne, hfits, -⟩ := hplaced
  have hlonger : ∀ unit ∈ line.body ++ [event], unit.source ≠ [] :=
    forall_mem_append.mpr ⟨(forall_mem_append.mp hline.source_ne).1, forall_mem_singleton.mpr hne⟩
  cases h with
  | mark _ => exact ⟨⟨hline.isOk.size_le, hline.isOk.dropped, hline.isOk.coords⟩,
    hline.source_ne, hline.overflow⟩
  | lf _ => exact .empty _ fun h => absurd rfl h
  | drop _ _ hdropped =>
    refine ⟨⟨hline.isOk.size_le, fun _ => hline.isOk.dropped hdropped, hline.isOk.coords⟩, ?_, ?_⟩
    · rw [← append_assoc]
      exact forall_mem_append.mpr ⟨hline.source_ne, forall_mem_singleton.mpr hne⟩
    · intro unit rest heq
      cases hd : line.dropped with
      | nil => exact absurd hd hdropped
      | cons first others =>
        rw [hd] at heq
        obtain ⟨rfl, -⟩ := List.cons.inj heq
        exact hline.overflow first others hd
  | keep _ _ hdropped hsize =>
    refine ⟨⟨hsize, hline.isOk.dropped, hline.isOk.coords⟩, ?_, ?_⟩
    · rwa [hdropped, append_nil]
    · intro unit rest heq
      cases hdropped.symm.trans heq
  | truncate _ _ hdropped hover hmode =>
    have hcoords : line.coords = none := by
      by_contra hsome
      cases hmode.symm.trans (hline.isOk.coords hsome)
    refine ⟨⟨hline.isOk.size_le, fun _ => ⟨hcoords, hmode⟩, hline.isOk.coords⟩, ?_, ?_⟩
    · exact hlonger
    · intro unit rest heq
      cases heq
      exact hover
  | split _ _ _ _ hmode _ =>
    exact ⟨⟨hfits, fun h => absurd rfl h, fun _ => hmode⟩, forall_mem_singleton.mpr hne,
      fun _ _ h => by cases h⟩

/-- A segment that a sound line is closed to. -/
theorem OpenLine.Sound.close (h : line.Sound config)
    (hending : ending ≠ .split) (lf : Nat) : (line.close ending lf).Sound config := by
  refine ⟨h.isOk.size_le, fun unit rest heq => ?_, ?_⟩
  · replace heq : line.dropped = unit :: rest := heq
    obtain ⟨hcoords, hmode⟩ := h.isOk.dropped (by rw [heq]; exact nofun)
    exact ⟨hmode, hcoords, h.overflow unit rest heq⟩
  · rintro (hcoords | hsplit)
    · exact h.isOk.coords hcoords
    · exact absurd hsplit hending

/-! ## Derivations -/

/-- The segments of a list of events that are added to a line without an error; the line left
open is closed with the given ending. -/
inductive Cuts (config : LineConfig) (ending : LineEnding) :
    OpenLine → List DecodeEvent → List Segment → Prop
  | nil {line : OpenLine} : line.Sound config → Cuts config ending line [] (line.complete ending)
  | cons {line line' : OpenLine} {event : DecodeEvent} {events : List DecodeEvent}
      {closed rest : List Segment} : line.Sound config → Placed config line event →
      Added config line event closed line' → Cuts config ending line' events rest →
      Cuts config ending line (event :: events) (closed ++ rest)

theorem cuts_of_segments (hline : line.Sound config) (htiles : Tiles line.stop bs events stop [])
    (hfits : ∀ event ∈ events, bodySize config [event] ≤ config.limit ∧
      (event.isLf = true → event.malformed = false))
    (h : segments config line events = (closed, .ok line')) :
    Cuts config ending line events (closed ++ line'.complete ending) := by
  induction events generalizing line closed bs with
  | nil =>
    obtain ⟨rfl, hok⟩ := Prod.mk.inj h
    cases hok
    exact .nil hline
  | cons event events ih =>
    rw [segments] at h
    obtain ⟨hsize, hlf⟩ := hfits event mem_cons_self
    rcases hadd : line.add config event with ⟨first, error | next⟩
    · rw [hadd] at h
      cases (Prod.mk.inj h).2
    · rw [hadd] at h
      obtain ⟨rfl, hrest⟩ := Prod.mk.inj h
      cases htiles with
      | cons hrange hne htail =>
        have hplaced : Placed config line event := ⟨hrange, hne, hsize, hlf⟩
        have hadded := added_of_add hadd
        rw [← hadded.stop_eq] at htail
        rw [append_assoc]
        exact .cons hline hplaced hadded
          (ih (hadded.sound hline hplaced) htail
            (fun e hmem => hfits e (mem_cons_of_mem _ hmem)) (Prod.ext rfl hrest))

/-- A policy that rejects nothing accepts everything. -/
theorem accepted_of_rejection {policy : OnDecodeError} (h : rejection policy events = none) :
    accepted policy events = events := by
  cases policy with
  | preserveRaw => rfl
  | replace => rfl
  | fail =>
    have hall := find?_eq_none.mp (map_eq_none_iff.mp h)
    refine takeWhile_eq_self_iff.mpr fun event hmem => ?_
    simpa using hall event hmem

/-- The first line of a framer that is accepted. -/
theorem LineStart.line_sound {f : LineFramer} (hnew : new config start = .ok f) :
    start.line.Sound config ∧ start.line.stop = start.offset := by
  obtain ⟨-, hcont⟩ := new_ok hnew
  cases start with
  | newStream => exact ⟨.empty 0 fun h => absurd rfl h, rfl⟩
  | resumeAt offset => exact ⟨.empty offset fun h => absurd rfl h, rfl⟩
  | continuation offset coords => exact ⟨.empty offset fun _ => (hcont _ _ rfl).1, rfl⟩

/-- **A source without an error.**  All its events are added to the first line. -/
theorem cuts_of_sourceSegments {bytes : Bytes} {f : LineFramer} (hnew : new config start = .ok f)
    (h : sourceSegments config start ending bytes = (segs, none)) :
    Cuts config ending start.line (decode config.encoding start.decodeStart bytes) segs := by
  rw [sourceSegments, outcome] at h
  rcases hsegments : segments config start.line (accepted config.onDecodeError
    (decode config.encoding start.decodeStart bytes)) with ⟨closed, error | line⟩
  · rw [hsegments] at h
    cases (Prod.mk.inj h).2
  rw [hsegments] at h
  cases hreject : rejection config.onDecodeError
    (decode config.encoding start.decodeStart bytes) with
  | some error =>
    rw [hreject] at h
    cases (Prod.mk.inj h).2
  | none =>
    rw [hreject] at h
    cases h
    have haccepted := accepted_of_rejection hreject
    rw [haccepted] at hsegments
    obtain ⟨hsound, hstop⟩ := LineStart.line_sound hnew
    have hdec := decode_decoded config.encoding start.decodeStart bytes
    have htiles := decode_tiles config.encoding start.decodeStart bytes
    have hoffset : start.decodeStart.offset = start.line.stop := hstop.symm
    rw [hoffset] at htiles
    refine cuts_of_segments hsound htiles (fun event hmem => ⟨?_, hdec.lf_wellFormed hmem⟩)
      hsegments
    rw [← haccepted] at hmem
    refine hdec.fits (new_ok hnew).1 ?_ (deliver_of_accepted hmem)
    rwa [haccepted] at hmem

/-! ## The segments tile the source -/

theorem Contiguous.start_le {start : Nat} {ranges : List SourceRange} {range : SourceRange}
    (h : Contiguous start ranges stop) (hmem : range ∈ ranges) : start ≤ range.start := by
  induction ranges generalizing start with
  | nil => cases hmem
  | cons first ranges ih =>
    obtain ⟨heq, hlt, hrest⟩ := h
    rcases mem_cons.mp hmem with rfl | hmem
    · omega
    · have := ih hrest hmem
      omega

def OpenLine.units (line : OpenLine) : List DecodeEvent := line.body ++ line.dropped

/-- What an event does to the line in hand: it ends the line, goes on with it, or follows a
fragment that it closes. -/
inductive Next (config : LineConfig) (line : OpenLine) (event : DecodeEvent) :
    List Segment → OpenLine → Prop
  | lf : event.isLf = true → Next config line event [line.close .lf event.source.length]
      (.empty (line.stop + event.source.length) none)
  | more {line' : OpenLine} : event.isLf = false → line'.start = line.start →
      line'.coords = line.coords → line.body <+: line'.body → line'.start < line'.stop →
      line'.units = line.units ++ event.units → Next config line event [] line'
  | split : event.isLf = false → event.units = [event] → line.dropped = [] →
      line.start < line.stop → line.body ≠ [] →
      config.limit < bodySize config (line.body ++ [event]) → config.oversize = .split →
      Next config line event [{ line with coords := some line.fragmentCoords }.close .split 0]
        ⟨line.stop, 0, some ⟨line.fragmentCoords.recordStartOffset,
          line.fragmentCoords.nextFragmentIndex + 1⟩, [event], []⟩

theorem Added.next (h : Added config line event closed line') (hline : line.Sound config)
    (hplaced : Placed config line event) : Next config line event closed line' := by
  have hstop := h.stop_eq
  have hlt : line.start < line.stop + event.source.length :=
    lt_of_le_of_lt line.start_le_stop
      (Nat.lt_add_of_pos_right (length_pos_iff.mpr hplaced.source_ne))
  rw [← hstop] at hlt
  cases h with
  | mark hevent =>
    rw [hevent]
    exact .more rfl rfl rfl (prefix_refl _) hlt (append_nil _).symm
  | lf hlf => exact .lf hlf
  | drop hlf hunit _ =>
    refine .more hlf rfl rfl (prefix_refl _) hlt ?_
    rw [hunit]
    exact (append_assoc ..).symm
  | keep hlf hunit hdropped _ =>
    exact .more hlf rfl rfl (prefix_append _ _) hlt (by simp [OpenLine.units, hdropped, hunit])
  | truncate hlf hunit hdropped _ _ =>
    exact .more hlf rfl rfl (prefix_refl _) hlt (by simp [OpenLine.units, hdropped, hunit])
  | split hlf hunit hdropped hover hmode hnext =>
    have hbody := body_ne_of_split hplaced.size_le hover
    obtain rfl := nextIndex_eq hnext
    exact .split hlf hunit hdropped (hline.start_lt (append_ne_nil_of_left_ne_nil hbody _)) hbody
      hover hmode

theorem OpenLine.mem_complete (h : s ∈ line.complete ending) : s = line.close ending 0 := by
  rw [complete] at h
  split at h
  · exact mem_singleton.mp h
  · cases h

section

variable (h : Cuts config ending line events segs)
include h

/-- **The segments tile the source.** -/
theorem Cuts.contiguous :
    Contiguous line.start (segs.map fun s => ⟨s.start, s.stop⟩)
      (line.stop + (bodyBytes events).length) := by
  induction h with
  | @nil line _ =>
    by_cases hlt : line.start < line.stop
    · rw [complete, if_pos hlt]
      exact ⟨rfl, hlt, rfl⟩
    · rw [complete, if_neg hlt]
      exact le_antisymm line.start_le_stop (not_lt.mp hlt)
  | @cons line line' event events closed rest hline hplaced hadded _ ih =>
    have hstop := hadded.stop_eq
    have hbytes : (bodyBytes (event :: events)).length =
        event.source.length + (bodyBytes events).length := by
      rw [bodyBytes, flatMap_cons, length_append]
      rfl
    rw [hbytes, ← add_assoc, ← hstop]
    cases hadded.next hline hplaced with
    | lf _ =>
      have hpos := length_pos_iff.mpr hplaced.source_ne
      have hle := line.start_le_stop
      refine ⟨rfl, ?_, ih⟩
      show line.start < line.stop + event.source.length
      omega
    | more _ hstart _ _ _ _ =>
      rwa [hstart] at ih
    | split _ _ _ hlt _ _ _ => exact ⟨rfl, hlt, ih⟩

theorem Cuts.start_le (hmem : s ∈ segs) : line.start ≤ s.start :=
  h.contiguous.start_le (mem_map_of_mem hmem)

/-- The events come after the line. -/
theorem Cuts.stop_le (hmem : event ∈ events) : line.stop ≤ event.range.start := by
  induction h with
  | nil _ => cases hmem
  | cons _ hplaced hadded _ ih =>
    have hstop := hadded.stop_eq
    rcases mem_cons.mp hmem with rfl | hmem
    · rw [hplaced.range_eq]
    · have := ih hmem
      omega

end

/-! ## Newlines -/

/-- A segment that a newline ends stops where the newline does. -/
theorem Cuts.lf_end (hending : ending ≠ .lf) (h : Cuts config ending line events segs)
    (hmem : s ∈ segs) (hlf : s.ending = .lf) :
    ∃ event ∈ events, event.isLf = true ∧ event.range.stop = s.stop := by
  induction h with
  | nil _ =>
    obtain rfl := mem_complete hmem
    exact absurd hlf hending
  | @cons line line' event events closed rest hline hplaced hadded _ ih =>
    rcases mem_append.mp hmem with hmem | hmem
    · cases hadded.next hline hplaced with
      | lf hevent =>
        obtain rfl := mem_singleton.mp hmem
        exact ⟨event, mem_cons_self, hevent, by rw [hplaced.range_eq]; rfl⟩
      | more _ _ _ _ _ _ => cases hmem
      | split _ _ _ _ _ _ _ =>
        obtain rfl := mem_singleton.mp hmem
        cases hlf
    · obtain ⟨e, he, hrest⟩ := ih hmem
      exact ⟨e, mem_cons_of_mem _ he, hrest⟩

/-- **No newline lies inside a segment**: the one that it contains ends it. -/
theorem Cuts.lf_inside (h : Cuts config ending line events segs) (hevent : event ∈ events)
    (hlf : event.isLf = true) (hs : s ∈ segs) (hstart : s.start ≤ event.range.start)
    (hstop : event.range.start < s.stop) : s.ending = .lf ∧ event.range.stop = s.stop := by
  induction h with
  | nil _ => cases hevent
  | @cons line line' first events closed rest hline hplaced hadded hrest ih =>
    have hnext := hadded.stop_eq
    have hrange := hplaced.range_eq
    have hpos := length_pos_iff.mpr hplaced.source_ne
    rcases mem_append.mp hs with hs | hlater
    · cases hadded.next hline hplaced with
      | lf _ =>
        obtain rfl := mem_singleton.mp hs
        rcases mem_cons.mp hevent with rfl | hevent
        · exact ⟨rfl, by rw [hrange]; rfl⟩
        · have := hrest.stop_le hevent
          replace hstop : event.range.start < line.stop + first.source.length := hstop
          omega
      | more _ _ _ _ _ _ => cases hs
      | split _ _ _ _ _ _ _ =>
        -- the fragment stops before the event that closes it
        obtain rfl := mem_singleton.mp hs
        replace hstop : event.range.start < line.stop := hstop
        rcases mem_cons.mp hevent with rfl | hevent
        · rw [hrange] at hstop
          exact absurd hstop (lt_irrefl _)
        · have := hrest.stop_le hevent
          omega
    · rcases mem_cons.mp hevent with rfl | hevent
      · cases hadded.next hline hplaced with
        | lf _ =>
          -- what comes later starts after the newline
          have hle := hrest.start_le hlater
          rw [hrange] at hstart
          replace hle : line.stop + event.source.length ≤ s.start := hle
          replace hstart : s.start ≤ line.stop := hstart
          omega
        | more hnot _ _ _ _ _ => cases hlf.symm.trans hnot
        | split hnot _ _ _ _ _ _ => cases hlf.symm.trans hnot
      · exact ih hevent hlater

/-! ## Lines -/

theorem joinFirst_append (xs ys : List DecodeEvent) (lines : List (List DecodeEvent)) :
    joinFirst (xs ++ ys) lines = joinFirst xs (joinFirst ys lines) := by
  cases lines with
  | nil => rfl
  | cons first rest => exact congrArg (· :: rest) (append_assoc ..)

theorem joinFirst_nil (xs : List DecodeEvent) (lines : List (List DecodeEvent)) :
    joinFirst [] (joinFirst xs lines) = joinFirst xs lines :=
  (joinFirst_append [] xs lines).symm

/-- The lines of events that come after a line in hand. -/
def linesAfter (line : OpenLine) (events : List DecodeEvent) : List (List DecodeEvent) :=
  if line.start < line.stop then joinFirst line.units (sourceLines events)
  else sourceLines events

theorem OpenLine.Sound.units_eq (h : line.Sound config) (hempty : ¬ line.start < line.stop) :
    line.units = [] := by
  by_contra hne
  exact hempty (h.start_lt hne)

theorem linesAfter_empty (start : Nat) (coords : Option LineContinuation)
    (events : List DecodeEvent) :
    linesAfter (.empty start coords) events = sourceLines events := if_neg (lt_irrefl _)

/-- An event that is not a newline goes on with the line in hand. -/
theorem linesAfter_cons (hline : line.Sound config) (hlf : event.isLf = false) :
    linesAfter line (event :: events) = joinFirst (line.units ++ event.units)
      (sourceLines events) := by
  have hlines : sourceLines (event :: events) = joinFirst event.units (sourceLines events) :=
    if_neg (by simp [hlf])
  rw [joinFirst_append, linesAfter, hlines]
  by_cases hlt : line.start < line.stop
  · rw [if_pos hlt]
  · rw [if_neg hlt, hline.units_eq hlt, joinFirst_nil]

variable (hending : ending ≠ .split) (h : Cuts config ending line events segs)

include hending h in
/-- **The segments hold the lines of the source.** -/
theorem Cuts.lines_eq : segmentLines segs = linesAfter line events := by
  induction h with
  | @nil line _ =>
    by_cases hlt : line.start < line.stop
    · rw [complete, linesAfter, if_pos hlt, if_pos hlt]
      exact if_neg hending
    · rw [complete, linesAfter, if_neg hlt, if_neg hlt]
      rfl
  | @cons line line' event events closed rest hline hplaced hadded _ ih =>
    have hgrown := hadded.stop_eq
    cases hadded.next hline hplaced with
    | lf hlf =>
      have hlines : sourceLines (event :: events) = [] :: sourceLines events := if_pos hlf
      have hclosed : segmentLines ([line.close .lf event.source.length] ++ rest) =
          line.units :: segmentLines rest := if_neg (show LineEnding.lf ≠ .split by decide)
      rw [hclosed, ih, linesAfter_empty, linesAfter, hlines]
      by_cases hlt : line.start < line.stop
      · rw [if_pos hlt, joinFirst, append_nil]
      · rw [if_neg hlt, hline.units_eq hlt]
    | more hlf _ _ _ hlt hunits =>
      rw [linesAfter_cons hline hlf, nil_append, ih, linesAfter, if_pos hlt, hunits]
    | split hlf hunit _ _ _ _ _ =>
      have hlt := Nat.lt_add_of_pos_right (n := line.stop) (length_pos_iff.mpr hplaced.source_ne)
      rw [← hgrown] at hlt
      have hclosed : segmentLines
          ([{ line with coords := some line.fragmentCoords }.close .split 0] ++
          rest) = joinFirst line.units (segmentLines rest) := if_pos rfl
      rw [linesAfter_cons hline hlf, hclosed, ih, linesAfter, if_pos hlt, hunit, joinFirst_append]
      rfl

/-! ## Fragments -/

include hending h in
theorem Cuts.sound (hmem : s ∈ segs) : s.Sound config := by
  induction h with
  | nil hline =>
    obtain rfl := mem_complete hmem
    exact hline.close hending 0
  | @cons line line' event events closed rest hline hplaced hadded _ ih =>
    rcases mem_append.mp hmem with hmem | hmem
    · cases hadded.next hline hplaced with
      | lf _ =>
        obtain rfl := mem_singleton.mp hmem
        exact hline.close (show LineEnding.lf ≠ .split by decide) _
      | more _ _ _ _ _ _ => cases hmem
      | split _ _ hdropped _ _ _ hmode =>
        obtain rfl := mem_singleton.mp hmem
        refine ⟨hline.isOk.size_le, fun unit rest heq => ?_, fun _ => hmode⟩
        cases hdropped.symm.trans heq
    · exact ih hmem

/-- A line that has grown. -/
theorem Segment.Begins.of_more (h : s.Begins line') (hstart : line'.start = line.start)
    (hcoords : line'.coords = line.coords) (hbody : line.body <+: line'.body) : s.Begins line := by
  have hfragment : line'.fragmentCoords = line.fragmentCoords := by
    rw [fragmentCoords, fragmentCoords, hcoords, hstart]
  refine ⟨h.start_eq.trans hstart, ?_, hbody.trans h.body_eq⟩
  rw [h.coords_eq, hfragment, hcoords]

include hending h in
/-- **Fragments are counted, and are as long as whole units allow.** -/
theorem Cuts.fragments :
    segs.IsChain (Segment.Follows config) ∧ ∀ s ∈ segs.head?, s.Begins line := by
  induction h with
  | @nil line _ =>
    rw [complete]
    split
    · refine ⟨.singleton _, fun s hs => ?_⟩
      cases hs
      exact ⟨rfl, (if_neg hending).symm, prefix_refl _⟩
    · exact ⟨.nil, fun s hs => by cases hs⟩
  | @cons line line' event events closed rest hline hplaced hadded _ ih =>
    obtain ⟨hchain, hhead⟩ := ih
    cases hadded.next hline hplaced with
    | more _ hstart hcoords hbody _ _ =>
      exact ⟨hchain, fun s hs => (hhead s hs).of_more hstart hcoords hbody⟩
    | lf _ =>
      refine ⟨isChain_cons.mpr ⟨fun t ht => ?_, hchain⟩, fun s hs => ?_⟩
      · obtain ⟨hstart, hcoords, -⟩ := hhead t ht
        refine .newLine (show LineEnding.lf ≠ .split by decide) ?_
        rw [hcoords, hstart]
        rfl
      · cases hs
        exact ⟨rfl, rfl, prefix_refl _⟩
    | split _ _ _ _ _ hover _ =>
      refine ⟨isChain_cons.mpr ⟨fun t ht => ?_, hchain⟩, fun s hs => ?_⟩
      · obtain ⟨-, hcoords, hbody⟩ := hhead t ht
        obtain ⟨rest', hrest'⟩ := hbody
        refine .split rfl ⟨line.fragmentCoords, event, rest', rfl, ?_, hrest'.symm, hover⟩
        rw [hcoords]
        exact ite_self _
      · cases hs
        exact ⟨rfl, rfl, prefix_refl _⟩

/-- **A fragment is not empty**, unless the framer was started inside a line that ends at
once. -/
theorem Cuts.body_ne (h : Cuts config ending line events segs) (hmem : s ∈ segs)
    (hcoords : s.coords ≠ none) (hbody : s.body = []) :
    line.body = [] ∧ s.coords = line.coords := by
  induction h with
  | nil _ =>
    obtain rfl := mem_complete hmem
    exact ⟨hbody, rfl⟩
  | cons hline hplaced hadded _ ih =>
    rcases mem_append.mp hmem with hmem | hmem
    · cases hadded.next hline hplaced with
      | lf _ =>
        obtain rfl := mem_singleton.mp hmem
        exact ⟨hbody, rfl⟩
      | more _ _ _ _ _ _ => cases hmem
      | split _ _ _ _ hne _ _ =>
        obtain rfl := mem_singleton.mp hmem
        exact absurd hbody hne
    · obtain ⟨hbody', hcoords'⟩ := ih hmem
      cases hadded.next hline hplaced with
      | lf _ => exact absurd hcoords' hcoords
      | more _ _ hsame hbegins _ _ =>
        rw [hbody'] at hbegins
        exact ⟨prefix_nil.mp hbegins, hcoords'.trans hsame⟩
      | split _ _ _ _ _ _ _ => cases hbody'

include hending h in
/-- The last segment ends its line. -/
theorem Cuts.last_ne : ∀ s ∈ segs.getLast?, s.ending ≠ .split := by
  induction h with
  | @nil line _ =>
    intro s hs
    rw [complete] at hs
    split at hs
    · cases hs
      exact hending
    · cases hs
  | @cons line line' event events closed rest hline hplaced hadded hrest ih =>
    intro s hs
    rw [getLast?_append] at hs
    by_cases hnil : rest = []
    · subst hnil
      have hgrown := hadded.stop_eq
      cases hadded.next hline hplaced with
      | lf _ =>
        cases hs
        exact (show LineEnding.lf ≠ .split by decide)
      | more _ _ _ _ _ _ => cases hs
      | split _ _ _ _ _ _ _ =>
        -- the event that closed a fragment is in a later segment
        have hstop := hrest.contiguous
        have hpos := length_pos_iff.mpr hplaced.source_ne
        rw [hgrown] at hstop
        simp only [map_nil, Contiguous] at hstop
        omega
    · rw [getLast?_eq_some_getLast hnil, some_or] at hs
      exact ih s (by rw [getLast?_eq_some_getLast hnil]; exact hs)

/-- **Every malformed unit is counted in one segment.** -/
theorem Cuts.malformed_eq (h : Cuts config ending line events segs) :
    (segs.map fun s => malformedCount s.units).sum =
      malformedCount line.units + malformedCount events := by
  induction h with
  | @nil line hline =>
    by_cases hlt : line.start < line.stop
    · rw [OpenLine.complete, if_pos hlt]
      rfl
    · rw [OpenLine.complete, if_neg hlt, hline.units_eq hlt]
      rfl
  | @cons line line' event events closed rest hline hplaced hadded _ ih =>
    have hevents : malformedCount (event :: events) =
        malformedCount [event] + malformedCount events := malformedCount_append [event] events
    have hunits : malformedCount event.units = malformedCount [event] := by
      cases event with
      | unit | strippedBom => rfl
    rw [map_append, sum_append, ih, hevents]
    cases hadded.next hline hplaced with
    | lf hlf =>
      have hzero : malformedCount [event] = 0 := by
        rw [malformedCount_singleton, hplaced.lf_wellFormed hlf]
        rfl
      have hclosed : (line.close .lf event.source.length).units = line.units := rfl
      have hempty : (OpenLine.empty (line.stop + event.source.length) none).units = [] := rfl
      simp only [map_cons, map_nil, sum_cons, sum_nil, hclosed, hempty, hzero]
      simp [malformedCount]
    | more _ _ _ _ _ heq =>
      rw [heq, malformedCount_append, hunits, map_nil, sum_nil]
      omega
    | split _ _ _ _ _ _ _ =>
      have hclosed : ({ line with coords := some line.fragmentCoords }.close .split 0).units =
          line.units := rfl
      have hopen : OpenLine.units ⟨line.stop, 0, some ⟨line.fragmentCoords.recordStartOffset,
          line.fragmentCoords.nextFragmentIndex + 1⟩, [event], []⟩ = [event] := rfl
      rw [map_cons, map_nil, sum_cons, sum_nil, hclosed, hopen]
      omega

end

/-! ## Bodies -/

/-- The body of a line. -/
def lineBody (config : LineConfig) (fragmented : Bool) (units : List DecodeEvent) : LineBody :=
  if asBytes config fragmented units then .bytes (bodyBytes units) else .text (bodyText units)

def LineBody.length : LineBody → Nat
  | .text xs => textLength xs
  | .bytes xs => xs.length

/-- Put bodies of one kind together. -/
def LineBody.append : LineBody → LineBody → Option LineBody
  | .text xs, .text ys => some (.text (xs ++ ys))
  | .bytes xs, .bytes ys => some (.bytes (xs ++ ys))
  | _, _ => none

/-- The bodies of the lines of a sequence of frames, where the fragments of a line are put
together. -/
def lineBodies : List LineFrame → List (Option LineBody)
  | [] => []
  | frame :: frames =>
    if frame.ending = .split then
      match lineBodies frames with
      | [] => [some frame.body]
      | first :: rest => first.bind frame.body.append :: rest
    else some frame.body :: lineBodies frames

theorem bodySize_mono {xs ys : List DecodeEvent} (h : xs <+: ys) :
    bodySize config xs ≤ bodySize config ys := by
  obtain ⟨rest, rfl⟩ := h
  rw [bodySize, bodySize, bodyText_append, textLength_append, bodyBytes_append, length_append]
  split <;> omega

theorem lineBody_length_le (fragmented : Bool) (units : List DecodeEvent) :
    (lineBody config fragmented units).length ≤ bodySize config units := by
  by_cases hbytes : asBytes config fragmented units = true
  · rw [lineBody, if_pos hbytes, bodySize, if_pos (keepsRaw_of_asBytes hbytes)]
    exact le_max_right _ _
  · rw [lineBody, if_neg hbytes, bodySize]
    split
    · exact le_max_left _ _
    · exact le_refl _

/-- What a sound segment keeps is the longest beginning of its units within the bound. -/
theorem Segment.Sound.longest (h : s.Sound config) {units : List DecodeEvent}
    (hbegins : units <+: s.units) (hsize : bodySize config units ≤ config.limit) :
    units <+: s.body := by
  by_cases hlen : units.length ≤ s.body.length
  · exact prefix_of_prefix_length_le hbegins (prefix_append _ _) hlen
  · cases hdropped : s.dropped with
    | nil =>
      rwa [Segment.units, hdropped, append_nil] at hbegins
    | cons unit rest =>
      have hmore : s.body ++ [unit] <+: s.units := by
        refine ⟨rest, ?_⟩
        rw [Segment.units, hdropped, append_assoc]
        rfl
      have hle : s.body ++ [unit] <+: units := by
        refine prefix_of_prefix_length_le hmore hbegins ?_
        rw [length_append, length_singleton]
        omega
      have hover := (h.dropped unit rest hdropped).2.2
      have : bodySize config (s.body ++ [unit]) ≤ bodySize config units := bodySize_mono hle
      omega

/-- The bodies of fragments are of one kind. -/
theorem lineBody_append (xs ys : List DecodeEvent) :
    (lineBody config true xs).append (lineBody config true ys) =
      some (lineBody config true (xs ++ ys)) := by
  by_cases hbytes : config.encoding = .raw ∨ config.onDecodeError = .preserveRaw
  · have hall : ∀ units, asBytes config true units = true := by
      simpa [asBytes] using hbytes
    simp [lineBody, hall, LineBody.append, bodyBytes_append]
  · have hall : ∀ units, asBytes config true units = false := by
      simpa [asBytes] using hbytes
    simp [lineBody, hall, LineBody.append, bodyText_append]

/-- **The bodies of the fragments of a line are the body of the line.** -/
theorem lineBodies_spec (hchain : segs.IsChain (Segment.Follows config))
    (hlast : ∀ s ∈ segs.getLast?, s.ending ≠ .split) (hdropped : ∀ s ∈ segs, s.dropped = []) :
    List.Forall₂ (fun body line => ∃ fragmented, body = some (lineBody config fragmented line))
        (lineBodies (segs.map (Segment.frame config))) (segmentLines segs) ∧
      ∀ s rest, segs = s :: rest → s.coords.isSome = true → ∃ line lines,
        segmentLines segs = line :: lines ∧
        (lineBodies (segs.map (Segment.frame config))).head? =
          some (some (lineBody config true line)) := by
  induction segs with
  | nil => exact ⟨.nil, fun s rest h => by cases h⟩
  | cons s rest ih =>
    have hunits : s.units = s.body := by
      rw [Segment.units, hdropped s mem_cons_self, append_nil]
    have hbody : (s.frame config).body = lineBody config s.coords.isSome s.body := rfl
    by_cases hsplit : s.ending = .split
    · cases rest with
      | nil => exact absurd hsplit (hlast s rfl)
      | cons t rest =>
        rw [isChain_cons_cons] at hchain
        obtain ⟨hall, hfirst⟩ := ih hchain.2 (fun u hu => hlast u hu)
          fun u hu => hdropped u (mem_cons_of_mem _ hu)
        rcases hchain.1 with ⟨-, c, unit, others, hcoords, hnext, -⟩ | ⟨hne, -⟩
        · obtain ⟨line, lines, hlines, hhead⟩ := hfirst t rest rfl (by rw [hnext]; rfl)
          rw [hlines] at hall
          cases hbodies : lineBodies ((t :: rest).map (Segment.frame config)) with
          | nil =>
            rw [hbodies] at hhead
            cases hhead
          | cons first bodies =>
            rw [hbodies] at hhead hall
            cases hhead
            have hjoined : lineBodies ((s :: t :: rest).map (Segment.frame config)) =
                some (lineBody config true (s.units ++ line)) :: bodies := by
              have hending : (s.frame config).ending = .split := hsplit
              rw [map_cons, lineBodies, if_pos hending, hbodies, hbody, hcoords, hunits,
                ← lineBody_append]
              rfl
            have hjoin : segmentLines (s :: t :: rest) = (s.units ++ line) :: lines := by
              rw [segmentLines, if_pos hsplit, hlines]
              rfl
            rw [hjoined, hjoin]
            obtain ⟨-, htail⟩ := forall₂_cons.mp hall
            exact ⟨.cons ⟨true, rfl⟩ htail, fun _ _ _ _ => ⟨_, _, rfl, rfl⟩⟩
        · exact absurd hsplit hne
    · have hrest : lineBodies ((s :: rest).map (Segment.frame config)) =
          some (lineBody config s.coords.isSome s.units) ::
            lineBodies (rest.map (Segment.frame config)) := by
        rw [hunits, ← hbody]
        exact if_neg hsplit
      have hlines : segmentLines (s :: rest) = s.units :: segmentLines rest := if_neg hsplit
      rw [hrest, hlines]
      have hlast' : ∀ u ∈ rest.getLast?, u.ending ≠ .split := by
        intro u hu
        cases rest with
        | nil => cases hu
        | cons t rest => exact hlast u hu
      obtain ⟨hall, -⟩ := ih hchain.of_cons hlast' fun u hu => hdropped u (mem_cons_of_mem _ hu)
      refine ⟨.cons ⟨_, rfl⟩ hall, fun s' rest' heq hsome => ⟨_, _, rfl, ?_⟩⟩
      cases heq
      rw [hsome]
      rfl

/-! ## Exactness -/

/-- **The frames of a source are exact.** -/
structure Exact (config : LineConfig) (start : LineStart) (bytes : Bytes) (segs : List Segment) :
    Prop where
  /-- The frames tile the source. -/
  tiles : Contiguous start.offset (segs.map fun s => (s.frame config).frameRange)
    (start.offset + bytes.length)
  /-- A frame that a newline ends stops with that newline. -/
  lf_end : ∀ s ∈ segs, (s.frame config).ending = .lf →
    ∃ event ∈ decode config.encoding start.decodeStart bytes,
      event.isLf = true ∧ event.range.stop = (s.frame config).frameRange.stop
  /-- A newline that a frame contains ends it. -/
  lf_inside : ∀ event ∈ decode config.encoding start.decodeStart bytes, event.isLf = true →
    ∀ s ∈ segs, (s.frame config).frameRange.start ≤ event.range.start →
      event.range.start < (s.frame config).frameRange.stop →
      (s.frame config).ending = .lf ∧ event.range.stop = (s.frame config).frameRange.stop
  /-- The bodies of the fragments of a line are the body of the line. -/
  bodies : config.oversize = .split →
    List.Forall₂ (fun body line => ∃ fragmented, body = some (lineBody config fragmented line))
      (lineBodies (segs.map (Segment.frame config)))
      (sourceLines (decode config.encoding start.decodeStart bytes))
  body_le : ∀ s ∈ segs, (s.frame config).body.length ≤ config.limit
  /-- A fragment is not empty, except a first one for a start inside a line that ends at once. -/
  nonempty : ∀ s ∈ segs, s.coords ≠ none → s.coords ≠ start.line.coords → s.body ≠ []
  /-- Fragments are counted, and are as long as whole units allow. -/
  fragments : segs.IsChain (Segment.Follows config)
  first : ∀ s ∈ segs.head?, s.coords =
    if s.ending = .split then some start.line.fragmentCoords else start.line.coords
  /-- The last frame ends its line. -/
  last : ∀ s ∈ segs.getLast?, s.ending ≠ .split
  /-- A truncated line keeps its longest beginning within the bound and discards the rest. -/
  truncated : config.oversize = .truncate →
    segs.map Segment.units = sourceLines (decode config.encoding start.decodeStart bytes) ∧
    ∀ s ∈ segs, bodySize config s.body ≤ config.limit ∧
      (∀ units, units <+: s.units → bodySize config units ≤ config.limit → units <+: s.body) ∧
      s.units = s.body ++ s.dropped ∧
      (s.frame config).body = lineBody config false s.body ∧
      (s.frame config).discardedSourceBytes = (bodyBytes s.dropped).length
  /-- Every malformed unit is counted once. -/
  malformed : (segs.map fun s => (s.frame config).malformedUnits).sum =
    malformedCount (decode config.encoding start.decodeStart bytes)

section

variable {bytes : Bytes} {f : LineFramer}

theorem Tiles.bodyBytes_eq {offset : Nat}
    (h : Tiles offset bs events stop []) : bodyBytes events = bs := by
  generalize hrest : ([] : Bytes) = rest at h
  induction h with
  | nil _ _ => exact hrest
  | cons _ _ _ ih =>
    rw [← ih hrest]
    rfl

/-- Without fragments every segment is a line. -/
theorem segmentLines_eq (h : ∀ s ∈ segs, s.ending ≠ .split) :
    segmentLines segs = segs.map Segment.units := by
  induction segs with
  | nil => rfl
  | cons s rest ih =>
    have hfirst : segmentLines (s :: rest) = s.units :: segmentLines rest :=
      if_neg (h s mem_cons_self)
    rw [hfirst, ih fun t ht => h t (mem_cons_of_mem _ ht), map_cons]

theorem exact_of_sourceSegments (hending : ending ≠ .split) (hlf : ending ≠ .lf)
    (hnew : new config start = .ok f)
    (h : sourceSegments config start ending bytes = (segs, none)) :
    Exact config start bytes segs := by
  have hcuts := cuts_of_sourceSegments hnew h
  obtain ⟨-, hstop⟩ := LineStart.line_sound hnew
  have hstart : start.line.start = start.offset := by cases start <;> rfl
  have hempty : ∃ coords, start.line = .empty start.offset coords := by
    cases start <;> exact ⟨_, rfl⟩
  obtain ⟨coords, hline⟩ := hempty
  have hlines : segmentLines segs =
      sourceLines (decode config.encoding start.decodeStart bytes) := by
    rw [hcuts.lines_eq hending, hline, linesAfter_empty]
  have hsound : ∀ s ∈ segs, s.Sound config := fun s hs => hcuts.sound hending hs
  obtain ⟨hchain, hfirst⟩ := hcuts.fragments hending
  have hlast := hcuts.last_ne hending
  have hbytes := (decode_tiles config.encoding start.decodeStart bytes).bodyBytes_eq
  refine ⟨?_, fun s => hcuts.lf_end hlf, fun event hevent hlf s => hcuts.lf_inside hevent hlf,
    fun hmode => ?_, fun s hs => ?_, fun s hs hcoords hne hbody => ?_, hchain,
    fun s hs => (hfirst s hs).coords_eq, hlast, fun hmode => ⟨?_, fun s hs => ?_⟩, ?_⟩
  · have := hcuts.contiguous
    rwa [hstart, hstop, hbytes] at this
  · rw [← hlines]
    refine (lineBodies_spec hchain hlast fun s hs => ?_).1
    cases hdropped : s.dropped with
    | nil => rfl
    | cons unit rest => cases hmode.symm.trans ((hsound s hs).dropped unit rest hdropped).1
  · exact (lineBody_length_le _ _).trans (hsound s hs).size_le
  · exact hne (hcuts.body_ne hs hcoords hbody).2
  · rw [← hlines, segmentLines_eq]
    intro s hs hsplit
    cases hmode.symm.trans ((hsound s hs).split (.inr hsplit))
  · have hcoords : s.coords = none := by
      by_contra hne
      cases hmode.symm.trans ((hsound s hs).split (.inl hne))
    refine ⟨(hsound s hs).size_le, fun units => (hsound s hs).longest, rfl, ?_, rfl⟩
    have hbody : (s.frame config).body = lineBody config s.coords.isSome s.body := rfl
    rw [hbody, hcoords]
    rfl
  · have hsum := hcuts.malformed_eq
    rw [hline] at hsum
    simp only [Segment.units, malformedCount_append] at hsum
    have hzero : malformedCount (empty start.offset coords).units = 0 := rfl
    rwa [hzero, zero_add] at hsum

/-- **Line framing is exact.**  The frames and the failure that a caller receives are those of
the source, however it is cut; and without a failure they are exact. -/
theorem framer_exact (hnew : new config start = .ok f)
    (hfits : start.offset + bytes.length ≤ u64Max) (reason : PartialCompletion) :
    ∃ segs failure, sourceSegments config start reason.ending bytes = (segs, failure) ∧
      (∀ cuts, Yields start.offset bytes f reason (segs.map (Segment.frame config)) failure cuts) ∧
      (failure = none → Exact config start bytes segs) := by
  refine ⟨_, _, rfl, framer_yields hnew hfits reason, fun hnone => ?_⟩
  have hsplit : reason.ending ≠ .split := by cases reason <;> exact nofun
  have hlf : reason.ending ≠ .lf := by cases reason <;> exact nofun
  exact exact_of_sourceSegments hsplit hlf hnew (Prod.ext rfl hnone)

/-- A line of five bytes and a partial line, with a bound of four bytes. -/
theorem framer_exact_two_fragments :
    ∃ f, new ⟨.utf8, .replace, 4, 8, .split⟩ .newStream = .ok f ∧
      LineStart.newStream.offset + [0x61, 0x62, 0x63, 0x64, 0x65, 0x0a, (0x66 : UInt8)].length ≤
        u64Max ∧
      ∃ segs, sourceSegments ⟨.utf8, .replace, 4, 8, .split⟩ .newStream .permanentEof
          [0x61, 0x62, 0x63, 0x64, 0x65, 0x0a, 0x66] = (segs, none) ∧
        segs.map (fun s => (s.start, s.stop)) = [(0, 4), (4, 6), (6, 7)] ∧
        Exact ⟨.utf8, .replace, 4, 8, .split⟩ .newStream
          [0x61, 0x62, 0x63, 0x64, 0x65, 0x0a, 0x66] segs := by
  refine ⟨_, rfl, by decide, _, rfl, rfl, ?_⟩
  obtain ⟨segs, failure, hsource, -, hexact⟩ := @framer_exact ⟨.utf8, .replace, 4, 8, .split⟩
    .newStream [0x61, 0x62, 0x63, 0x64, 0x65, 0x0a, 0x66] _ rfl (by decide) .permanentEof
  cases hsource
  exact hexact rfl

end

end OtapDataflow.Filelog
