import OtapDataflow.Filelog.DecoderCalls
import OtapDataflow.Lib.Machine

/-! # Runs of the decoder

A caller feeds a source to the decoder in pieces of any size, each at the offset where the
bytes consumed so far end.  The events of a run and its failure are those of the source
(`decode`), however it was cut. -/

namespace OtapDataflow.Filelog

open Bytes Word Machine List StreamDecoder Nat

/-! ## What a source decodes to -/

/-- The events of a source: the decomposition of its bytes, except for a byte-order mark at the
start of a new text stream, whole or cut off by the end of the stream. -/
inductive Decoded (encoding : Encoding) : DecodeStart → Bytes → List DecodeEvent → Prop
  | plain {start : DecodeStart} {bs : Bytes} {units : List (Bytes × Option DecodedValue)} :
      (start = .newStream → encoding ≠ .raw → bs = [] ∨ Diverged bs) →
      Decomposes encoding bs units →
      Decoded encoding start bs
        ((Frames.place (fun u => u.1.length) start.offset units).map unitEvent)
  | mark (kind : BomKind) {rest : Bytes} {units : List (Bytes × Option DecodedValue)} :
      encoding ≠ .raw → Decomposes encoding rest units →
      Decoded encoding .newStream (kind.bytes ++ rest)
        (bomEvent encoding kind ::
          (Frames.place (fun u => u.1.length) kind.bytes.length units).map unitEvent)
  | cut {bs : Bytes} : encoding ≠ .raw → Probing bs → bs ≠ [] →
      Decoded encoding .newStream bs [unitEvent (0, (bs, none))]

theorem decode_decoded (encoding : Encoding) (start : DecodeStart) (bs : Bytes) :
    Decoded encoding start bs (decode encoding start bs) := by
  by_cases htext : start = .newStream ∧ encoding ≠ .raw
  · obtain ⟨rfl, hraw⟩ := htext
    by_cases hmark : ∃ kind : BomKind, kind.bytes <+: bs
    · obtain ⟨kind, rest, rfl⟩ := hmark
      rw [decode_of_bom hraw]
      exact .mark kind hraw (units_decompose encoding rest)
    · by_cases hcut : bs ≠ [] ∧ Probing bs
      · rw [decode_of_probing hraw hcut.2 hcut.1]
        exact .cut hraw hcut.2 hcut.1
      · have hplain : bs = [] ∨ Diverged bs := by
          by_cases hnil : bs = []
          · exact .inl hnil
          · refine .inr fun kind =>
              ⟨fun hk => hcut ⟨hnil, kind, hk, ?_⟩, fun hk => hmark ⟨kind, hk⟩⟩
            rintro rfl
            exact hmark ⟨kind, prefix_refl _⟩
        have hevents : decode encoding .newStream bs = eventsFrom encoding 0 bs := by
          rcases hplain with rfl | hdiv
          · cases encoding <;> rfl
          · exact decode_of_diverged hdiv (prefix_refl _)
        rw [hevents]
        exact .plain (fun _ _ => hplain) (units_decompose encoding bs)
  · rw [decode, if_neg htext]
    exact .plain (fun h h' => absurd ⟨h, h'⟩ htext) (units_decompose encoding bs)

/-- Events that cover a stream from an offset, without gaps, up to `stop`, where `rest` is what
follows. -/
inductive Tiles : Nat → Bytes → List DecodeEvent → Nat → Bytes → Prop
  | nil (offset : Nat) (bs : Bytes) : Tiles offset bs [] offset bs
  | cons {offset stop : Nat} {bs rest : Bytes} {event : DecodeEvent} {events : List DecodeEvent} :
      event.range = ⟨offset, offset + event.source.length⟩ → event.source ≠ [] →
      Tiles (offset + event.source.length) bs events stop rest →
      Tiles offset (event.source ++ bs) (event :: events) stop rest

variable {event : DecodeEvent} {events : List DecodeEvent}

section

variable {offset stop : Nat} {bs rest : Bytes}

theorem Tiles.snoc (h : Tiles offset bs events stop (event.source ++ rest))
    (hrange : event.range = ⟨stop, stop + event.source.length⟩) (hne : event.source ≠ []) :
    Tiles offset bs (events ++ [event]) (stop + event.source.length) rest := by
  generalize hend : event.source ++ rest = after at h
  induction h with
  | nil offset bs =>
    rw [← hend]
    exact .cons hrange hne (.nil _ _)
  | cons hr hn htail ih => exact .cons hr hn (ih hrange hend)

end

/-! ## What a caller gets -/

def DecodeEvent.malformed : DecodeEvent → Bool
  | .unit _ _ _ malformed => malformed
  | .strippedBom _ _ => false

/-- The events that a policy lets through: under `fail`, those before the first malformed
unit. -/
def accepted (policy : OnDecodeError) (events : List DecodeEvent) : List DecodeEvent :=
  match policy with
  | .fail => events.takeWhile fun event => !event.malformed
  | _ => events

/-- The failure of a policy: under `fail`, the first malformed unit. -/
def rejection (policy : OnDecodeError) (events : List DecodeEvent) : Option DecodeError :=
  match policy with
  | .fail => (events.find? DecodeEvent.malformed).map fun event =>
      .fatalMalformed event.range event.source
  | _ => none

variable {error : DecodeError} {policy : OnDecodeError}

theorem accepted_append (rest : List DecodeEvent)
    (h : ∀ event ∈ events, deliver policy event = .ok event) :
    accepted policy (events ++ rest) = events ++ accepted policy rest ∧
      rejection policy (events ++ rest) = rejection policy rest := by
  cases policy with
  | preserveRaw | replace => exact ⟨rfl, rfl⟩
  | fail =>
    have hok : ∀ event ∈ events, event.malformed = false := by
      intro event hmem
      have hd := h event hmem
      cases event with
      | strippedBom range source => rfl
      | unit range source value malformed =>
        cases malformed with
        | false => rfl
        | true => cases hd
    refine ⟨?_, ?_⟩
    · simp only [accepted]
      rw [takeWhile_append_of_pos fun event hmem => by rw [hok event hmem]; rfl]
    · have hnone : events.find? DecodeEvent.malformed = none := by
        rw [find?_eq_none]
        intro event hmem
        rw [hok event hmem]
        exact Bool.false_ne_true
      simp [rejection, hnone]

theorem accepted_of_error (rest : List DecodeEvent) (h : deliver policy event = .error error) :
    accepted policy (event :: rest) = [] ∧ rejection policy (event :: rest) = some error := by
  cases policy with
  | preserveRaw | replace => cases event <;> cases h
  | fail =>
    cases event with
    | strippedBom range source => cases h
    | unit range source value malformed =>
      cases malformed with
      | false => cases h
      | true =>
        obtain rfl := Except.error.inj h
        exact ⟨rfl, rfl⟩

theorem accepted_nil (policy : OnDecodeError) :
    accepted policy [] = [] ∧ rejection policy [] = none := by
  cases policy <;> exact ⟨rfl, rfl⟩

/-! ## Feeding a source -/

/-- A caller in the middle of a source: the decoder, and how much of the source is consumed. -/
structure Feed where
  decoder : StreamDecoder
  position : Nat

/-- How much of its input a call has consumed. -/
def consumedBy : Except DecodeFailure DecodeStep → Nat
  | .ok step => step.consumed
  | .error failure => failure.consumed

/-- The event of a call. -/
def eventOf : Except DecodeFailure DecodeStep → Option DecodeEvent
  | .ok step => step.event
  | .error _ => none

/-- A call with the next `n` bytes, or as many as are left. -/
def Feed.step (start : Nat) (bytes : Bytes) (s : Feed) (n : Nat) :
    Feed × Except DecodeFailure DecodeStep :=
  let r := s.decoder.next (start + s.position) ((bytes.drop s.position).take n)
  (⟨r.1, s.position + consumedBy r.2⟩, r.2)

def Feed.init (encoding : Encoding) (policy : OnDecodeError) (start : DecodeStart) : Feed :=
  ⟨.new encoding policy start, 0⟩

/-- The events of a sequence of calls. -/
def emitted (history : List (Nat × Except DecodeFailure DecodeStep)) : List DecodeEvent :=
  history.filterMap fun call => eventOf call.2

/-- What holds of a caller that has received the given events. -/
structure Fed (encoding : Encoding) (policy : OnDecodeError) (start : DecodeStart) (bytes : Bytes)
    (s : Feed) (events : List DecodeEvent) : Prop where
  position_le : s.position ≤ bytes.length
  next_eq : s.decoder.nextInputOffset = start.offset + s.position
  start_le : start.offset ≤ s.decoder.deliveredBoundary
  boundary_le : s.decoder.deliveredBoundary ≤ s.decoder.nextInputOffset
  tiles : Tiles start.offset bytes events s.decoder.deliveredBoundary
    (bytes.drop (s.decoder.deliveredBoundary - start.offset))
  status :
    (∃ pending, Open encoding s.decoder pending ∧ s.decoder.policy = policy ∧
      pending ++ bytes.drop s.position =
        bytes.drop (s.decoder.deliveredBoundary - start.offset) ∧
      decode encoding start bytes =
        events ++ remaining encoding s.decoder (pending ++ bytes.drop s.position) ∧
      ∀ event ∈ events, deliver policy event = .ok event) ∨
    ∃ error, s.decoder.terminalError = some error ∧
      accepted policy (decode encoding start bytes) = events ∧
      rejection policy (decode encoding start bytes) = some error

section

variable {encoding : Encoding} {start : DecodeStart} {bytes : Bytes}
  {s : Feed}

theorem Fed.init (encoding : Encoding) (policy : OnDecodeError) (start : DecodeStart)
    (bytes : Bytes) : Fed encoding policy start bytes (.init encoding policy start) [] := by
  have hholds : ∀ offset, Holds encoding (.new encoding) [] [] offset := by
    intro offset
    cases encoding with
    | utf8 => exact ⟨rfl, rfl, fun hne => absurd rfl hne⟩
    | ascii | raw => exact ⟨rfl, rfl⟩
    | utf16Le | utf16Be => exact utf16Holds_nil _ _
  refine ⟨zero_le _, rfl, le_refl _, le_refl _, ?_,
    .inl ⟨[], ⟨rfl, rfl, ?_⟩, rfl, ?_, ?_, forall_mem_nil _⟩⟩
  · show Tiles start.offset bytes [] start.offset (bytes.drop (start.offset - start.offset))
    rw [Nat.sub_self]
    exact .nil _ _
  · by_cases htext : start = .newStream ∧ encoding ≠ .raw
    · have hprobe : (new encoding policy start).bomProbe =
          some ⟨[], 0, encoding⟩ := by
        rw [new, if_pos htext, htext.1]
        rfl
      rw [Feed.init, Held, hprobe]
      refine ⟨rfl, ⟨.utf8, nil_prefix, by decide⟩, htext.2, ?_, rfl, hholds 0⟩
      rw [htext.1]
      rfl
    · have hprobe : (new encoding policy start).bomProbe = none := if_neg htext
      rw [Feed.init, Held, hprobe]
      exact ⟨[], [], hholds _, .nil _, rfl, le_refl _, fun hlt => absurd hlt (lt_irrefl _)⟩
  · show [] ++ bytes.drop 0 = bytes.drop (start.offset - start.offset)
    rw [Nat.sub_self, nil_append]
  · show decode encoding start bytes =
      [] ++ remaining encoding (.new encoding policy start) ([] ++ bytes.drop 0)
    by_cases htext : start = .newStream ∧ encoding ≠ .raw
    · rw [new, if_pos htext, htext.1]
      rfl
    · rw [new, if_neg htext, decode, if_neg htext]
      rfl

variable {d : StreamDecoder}

/-- A decoder that has failed stays as it is. -/
theorem StreamDecoder.next_of_terminal (h : d.terminalError = some error) (offset : Nat)
    (input : Bytes) : d.next offset input = (d, .error ⟨0, error⟩) := by
  simp [next, h]

theorem StreamDecoder.finish_of_terminal (h : d.terminalError = some error) :
    d.finishIncompleteUnit = (d, .error ⟨0, error⟩) := by
  simp [finishIncompleteUnit, h]

/-- The source after a delivery. -/
theorem Delivers.drop_eq {pending input pending' : Bytes} {n : Nat}
    (h : Delivers encoding d pending input event n pending') (rest : Bytes) :
    pending ++ (input ++ rest) = event.source ++ (pending' ++ (input.drop n ++ rest)) := by
  calc pending ++ (input ++ rest)
      = pending ++ input.take n ++ (input.drop n ++ rest) := by
        rw [append_assoc, ← append_assoc (input.take n), take_append_drop]
    _ = event.source ++ (pending' ++ (input.drop n ++ rest)) := by
        rw [h.bytes_eq, append_assoc]

/-- The bytes of a source from a position on, cut after the input of a call. -/
theorem take_append_drop_add (bytes : Bytes) (position n : Nat) :
    (bytes.drop position).take n ++ bytes.drop (position + ((bytes.drop position).take n).length) =
      bytes.drop position := by
  rw [← drop_drop]
  have hlen : (bytes.drop position).drop ((bytes.drop position).take n).length =
      (bytes.drop position).drop n := by
    rw [length_take]
    by_cases hle : n ≤ (bytes.drop position).length
    · rw [min_eq_left hle]
    · rw [min_eq_right (Nat.le_of_not_le hle), drop_length,
        drop_of_length_le (Nat.le_of_not_le hle)]
  rw [hlen, take_append_drop]

section

variable (h : Fed encoding policy start bytes s events)
include h

theorem Fed.isOpen
    (hterm : s.decoder.terminalError = none) : ∃ pending, Open encoding s.decoder pending := by
  rcases h.status with ⟨pending, hopen, -, -, -, -⟩ | ⟨error, hfail, -, -⟩
  · exact ⟨pending, hopen⟩
  · cases hterm.symm.trans hfail

/-- A call that delivers nothing has moved on by the `m` bytes it has read. -/
theorem Fed.advance {m : Nat} (hboundary : d.deliveredBoundary = s.decoder.deliveredBoundary)
    (hnext : d.nextInputOffset = s.decoder.nextInputOffset + m) :
    d.nextInputOffset = start.offset + (s.position + m) ∧ start.offset ≤ d.deliveredBoundary ∧
      d.deliveredBoundary ≤ d.nextInputOffset ∧
      Tiles start.offset bytes (events ++ []) d.deliveredBoundary
        (bytes.drop (d.deliveredBoundary - start.offset)) := by
  rw [hboundary, hnext, h.next_eq, append_nil, add_assoc]
  have hle := h.boundary_le
  rw [h.next_eq] at hle
  exact ⟨rfl, h.start_le, by omega, h.tiles⟩

/-- A delivery keeps `Fed`, where the next `m` bytes were read for it. -/
theorem Fed.deliver {pending pending' : Bytes} {m : Nat} (hopen : Open encoding s.decoder pending)
    (hpolicy : s.decoder.policy = policy) (hok : ∀ event ∈ events, deliver policy event = .ok event)
    (hdeliver : deliver s.decoder.policy event = .ok event)
    (hafter : After encoding s.decoder event pending' d) (hm : s.position + m ≤ bytes.length)
    (hlen : pending.length + m = event.source.length + pending'.length)
    (hsource : event.source ++ (pending' ++ bytes.drop (s.position + m)) =
      bytes.drop (s.decoder.deliveredBoundary - start.offset))
    (hall : decode encoding start bytes = events ++ event ::
      eventsFrom encoding (s.decoder.deliveredBoundary + event.source.length)
        (pending' ++ bytes.drop (s.position + m))) (hrange : event.range =
      ⟨s.decoder.deliveredBoundary, s.decoder.deliveredBoundary + event.source.length⟩)
    (hne : event.source ≠ []) :
    Fed encoding policy start bytes ⟨d, s.position + m⟩ (events ++ [event]) := by
  have hstart := h.start_le
  have hnext := h.next_eq
  have hnext' := hafter.isOpen.next_eq
  have hbefore := hopen.next_eq
  have hafter' := hafter.boundary_eq
  have htiles := h.tiles
  rw [← hsource] at htiles
  have hdone : bytes.drop (d.deliveredBoundary - start.offset) =
      pending' ++ bytes.drop (s.position + m) := by
    have hsub : d.deliveredBoundary - start.offset =
        s.decoder.deliveredBoundary - start.offset + event.source.length := by omega
    rw [hsub, ← drop_drop, ← hsource, drop_left]
  refine ⟨hm, ?_, ?_, ?_, ?_, .inl ⟨pending', hafter.isOpen, ?_, hdone.symm, ?_, ?_⟩⟩
  · show d.nextInputOffset = start.offset + (s.position + m)
    omega
  · show start.offset ≤ d.deliveredBoundary
    omega
  · show d.deliveredBoundary ≤ d.nextInputOffset
    omega
  · rw [hdone, hafter']
    exact htiles.snoc hrange hne
  · exact hafter.policy_eq.trans hpolicy
  · rwa [remaining, hafter.probe_eq, hafter', append_assoc]
  · exact forall_mem_append.mpr ⟨hok, forall_mem_singleton.mpr (hpolicy ▸ hdeliver)⟩

end

section

variable (hfits : start.offset + bytes.length ≤ u64Max)

include hfits

/-- The call of a caller whose decoder has not failed. -/
theorem Fed.call {pending : Bytes} (h : Fed encoding policy start bytes s events)
    (hopen : Open encoding s.decoder pending) (n : Nat) :
    NextSpec encoding s.decoder pending ((bytes.drop s.position).take n)
      ((s.step start.offset bytes n).1.decoder, (s.step start.offset bytes n).2) := by
  have hlen : ((bytes.drop s.position).take n).length ≤ bytes.length - s.position := by
    rw [length_take, length_drop]
    exact min_le_right _ _
  have hposition := h.position_le
  have hnext := h.next_eq
  have hspec : NextSpec encoding s.decoder pending ((bytes.drop s.position).take n) _ :=
    next_spec hopen (by omega)
  rwa [hnext] at hspec

/-- **A call keeps `Fed`.** -/
theorem Fed.step (h : Fed encoding policy start bytes s events) (n : Nat) :
    Fed encoding policy start bytes (s.step start.offset bytes n).1
      (events ++ (eventOf (s.step start.offset bytes n).2).toList) := by
  rcases h.status with ⟨pending, hopen, hpolicy, hsource, hall, hok⟩ | ⟨error, hterm, hacc, hrej⟩
  · -- the decoder has not failed
    have hspec := h.call hfits hopen n
    have hcut := take_append_drop_add bytes s.position n
    have hlen : ((bytes.drop s.position).take n).length ≤ bytes.length - s.position := by
      rw [length_take, length_drop]
      exact min_le_right _ _
    show Fed encoding policy start bytes ⟨(s.step start.offset bytes n).1.decoder,
      s.position + consumedBy (s.step start.offset bytes n).2⟩ _
    generalize (bytes.drop s.position).take n = input at hspec hcut hlen
    generalize (s.step start.offset bytes n).1.decoder = d' at hspec
    generalize (s.step start.offset bytes n).2 = result at hspec
    simp only [NextSpec] at hspec
    have hposition := h.position_le
    rw [← hcut] at hsource hall
    rcases hspec with ⟨rfl, hquiet⟩ | ⟨event, m, pending', hdel, hcase⟩
    · obtain ⟨hnext, hstart, hboundary, htiles⟩ := h.advance (m := input.length)
        hquiet.boundary_eq (by rw [hquiet.isOpen.next_eq, hquiet.boundary_eq, hopen.next_eq,
          length_append, add_assoc])
      refine ⟨?_, hnext, hstart, hboundary, htiles,
        .inl ⟨pending ++ input, hquiet.isOpen, ?_, ?_, ?_, ?_⟩⟩
      · show s.position + input.length ≤ bytes.length
        omega
      · exact hquiet.policy_eq.trans hpolicy
      · rwa [append_assoc, hquiet.boundary_eq]
      · show _ = events ++ [] ++ remaining encoding d' _
        rw [append_nil, append_assoc]
        exact hall.trans (congrArg (events ++ ·) (hquiet.remaining_eq _).symm)
      · simpa [eventOf] using hok
    · have hm := hdel.consumed_le
      have hdrop : input.drop m ++ bytes.drop (s.position + input.length) =
          bytes.drop (s.position + m) := by
        rw [← drop_append_of_le_length hm, hcut, drop_drop]
      have hrest := hdel.drop_eq (bytes.drop (s.position + input.length))
      rw [hdrop] at hrest
      rw [hrest] at hsource
      have hevents := hdel.remaining_eq (bytes.drop (s.position + input.length))
      rw [hevents, hdrop] at hall
      rcases hcase with ⟨hdeliver, rfl, hafter⟩ | ⟨error, hdeliver, rfl, hfailed⟩
      · have hbytes := congrArg List.length hdel.bytes_eq
        rw [length_append, length_append, length_take_of_le hm] at hbytes
        have hle : s.position + m ≤ bytes.length := by omega
        exact h.deliver hopen hpolicy hok hdeliver hafter hle hbytes hsource hall hdel.range_eq
          hdel.source_ne
      · obtain ⟨hnext, hstart, hboundary, htiles⟩ := h.advance hfailed.boundary_eq hfailed.next_eq
        refine ⟨?_, hnext, hstart, hboundary, htiles, .inr ⟨error, hfailed.terminal_eq, ?_, ?_⟩⟩
        · show s.position + m ≤ bytes.length
          omega
        · rw [hall, (accepted_append _ hok).1, (accepted_of_error _ (hpolicy ▸ hdeliver)).1]
          rfl
        · rw [hall, (accepted_append _ hok).2, (accepted_of_error _ (hpolicy ▸ hdeliver)).2]
  · -- a failed decoder stays as it is
    have hcall := next_of_terminal hterm (start.offset + s.position)
    have hstep : s.step start.offset bytes n = (s, .error ⟨0, error⟩) := by
      rw [Feed.step, hcall]
      rfl
    rw [hstep]
    simpa [eventOf] using h

/-- **Every run is `Fed`.** -/
theorem fed_run (cuts : List Nat) :
    Fed encoding policy start bytes
      (final (Feed.step start.offset bytes) (.init encoding policy start) cuts)
      (emitted (history (Feed.step start.offset bytes) (.init encoding policy start) cuts)) := by
  refine history_invariant (fun s past => Fed encoding policy start bytes s (emitted past))
    (fun s n past h => ?_) (Fed.init encoding policy start bytes) cuts
  have hstep := h.step hfits n
  rwa [emitted, filterMap_append]

/-- A call that fails leaves its failure in the decoder. -/
theorem Fed.failure
    (h : Fed encoding policy start bytes s events) (hterm : s.decoder.terminalError = none)
    {n : Nat} {failure : DecodeFailure} (hcall : (s.step start.offset bytes n).2 = .error failure) :
    (s.step start.offset bytes n).1.decoder.terminalError = some failure.error := by
  obtain ⟨pending, hopen⟩ := h.isOpen hterm
  rcases h.call hfits hopen n with ⟨hresult, -⟩ |
    ⟨event, k, pending', -, ⟨-, hresult, -⟩ | ⟨error, -, hresult, hfailed⟩⟩
  · cases hcall.symm.trans hresult
  · cases hcall.symm.trans hresult
  · obtain rfl := Except.error.inj (hcall.symm.trans hresult)
    exact hfailed.terminal_eq

end

/-- What resolving the open unit does, once the whole source is consumed and nothing waits. -/
theorem Fed.finish_cases (h : Fed encoding policy start bytes s events)
    (hterm : s.decoder.terminalError = none) (hposition : s.position = bytes.length)
    (hdrained : s.decoder.undrained = false) :
    (s.decoder.finishIncompleteUnit = (s.decoder, .ok none) ∧
      events = accepted policy (decode encoding start bytes) ∧
      rejection policy (decode encoding start bytes) = none) ∨
    (∃ event d, s.decoder.finishIncompleteUnit = (d, .ok (some event)) ∧
      event.range =
        ⟨s.decoder.deliveredBoundary, s.decoder.deliveredBoundary + event.source.length⟩ ∧
      After encoding s.decoder event [] d ∧
      Fed encoding policy start bytes ⟨d, s.position⟩ (events ++ [event]) ∧
      events ++ [event] = accepted policy (decode encoding start bytes) ∧
      rejection policy (decode encoding start bytes) = none) ∨
    ∃ error d, s.decoder.finishIncompleteUnit = (d, .error ⟨0, error⟩) ∧
      d.terminalError = some error ∧ events = accepted policy (decode encoding start bytes) ∧
      rejection policy (decode encoding start bytes) = some error := by
  rcases h.status with ⟨pending, hopen, hpolicy, hsource, hall, hok⟩ | ⟨error, hfailed, -⟩
  · have hnone : bytes.drop s.position = [] := by rw [hposition, drop_length]
    rw [hnone, append_nil] at hall hsource
    rcases finishIncompleteUnit_spec hopen hdrained with ⟨rfl, hrem, hcall⟩ |
      ⟨hne, hrem, ⟨hdeliver, hresult, hafter⟩ | ⟨error, hdeliver, hresult, hfailed⟩⟩
    · rw [hrem] at hall
      rw [hall, (accepted_append _ hok).1, (accepted_append _ hok).2, (accepted_nil _).1,
        (accepted_nil _).2]
      exact .inl ⟨hcall, (append_nil _).symm, rfl⟩
    · rw [hrem] at hall
      have hfed := h.deliver (m := 0) hopen hpolicy hok hdeliver hafter hposition.le rfl
        (by rw [add_zero, hnone]; exact (append_nil _).trans hsource)
        (by rw [add_zero, hnone]; exact hall) rfl hne
      have hlast := accepted_append [] (forall_mem_append.mpr
        ⟨hok, forall_mem_singleton.mpr (hpolicy ▸ hdeliver)⟩)
      rw [append_nil, ← hall, (accepted_nil _).1, (accepted_nil _).2, append_nil, hall] at hlast
      rw [hall]
      exact .inr (.inl ⟨_, _, Prod.ext rfl hresult, rfl, hafter, hfed, hlast.1.symm, hlast.2⟩)
    · have hend := accepted_of_error [] (hpolicy ▸ hdeliver)
      rw [hall, hrem, (accepted_append _ hok).1, (accepted_append _ hok).2, hend.1, hend.2]
      exact .inr (.inr ⟨error, _, Prod.ext rfl hresult, hfailed.terminal_eq,
        (append_nil _).symm, rfl⟩)
  · cases hterm.symm.trans hfailed

/-- **The end of a run.**  Once the whole source is consumed and nothing waits, resolving the open
unit completes the events of the source. -/
theorem Fed.finish (h : Fed encoding policy start bytes s events)
    (hposition : s.position = bytes.length) (hdrained : s.decoder.undrained = false) :
    match s.decoder.finishIncompleteUnit.2 with
    | .ok event => events ++ event.toList = accepted policy (decode encoding start bytes) ∧
        rejection policy (decode encoding start bytes) = none
    | .error failure => events = accepted policy (decode encoding start bytes) ∧
        rejection policy (decode encoding start bytes) = some failure.error ∧
        s.decoder.finishIncompleteUnit.1.terminalError = some failure.error := by
  cases hterm : s.decoder.terminalError with
  | none =>
    rcases h.finish_cases hterm hposition hdrained with ⟨hcall, hend⟩ |
      ⟨event, d, hcall, -, -, -, hend⟩ | ⟨error, d, hcall, hfailed, hend⟩
    · rw [hcall]
      exact ⟨(append_nil _).trans hend.1, hend.2⟩
    · rwa [hcall]
    · rw [hcall]
      exact ⟨hend.1, hend.2, hfailed⟩
  | some error =>
    rcases h.status with ⟨pending, hopen, -⟩ | ⟨error', hterm', hacc, hrej⟩
    · cases hopen.terminal_eq.symm.trans hterm
    · rw [finish_of_terminal hterm']
      exact ⟨hacc.symm, hrej, hterm'⟩

/-- A failure that a caller has seen is that of the decoder from then on. -/
theorem fed_failures (hfits : start.offset + bytes.length ≤ u64Max) (cuts : List Nat) :
    ∀ call ∈ history (Feed.step start.offset bytes) (.init encoding policy start) cuts,
      ∀ failure, call.2 = .error failure →
        (final (Feed.step start.offset bytes) (.init encoding policy start)
          cuts).decoder.terminalError =
          some failure.error := by
  refine (history_invariant (fun s past => Fed encoding policy start bytes s (emitted past) ∧
    ∀ call ∈ past, ∀ failure, call.2 = .error failure →
      s.decoder.terminalError = some failure.error)
    (fun s n past h => ?_) ⟨Fed.init encoding policy start bytes, nofun⟩ cuts).2
  obtain ⟨hfed, hpast⟩ := h
  refine ⟨?_, ?_⟩
  · rw [emitted, filterMap_append]
    exact hfed.step hfits n
  cases hterm : s.decoder.terminalError with
  | some error =>
    have hstep : s.step start.offset bytes n = (s, .error ⟨0, error⟩) := by
      rw [Feed.step, next_of_terminal hterm]
      rfl
    rw [hstep]
    refine forall_mem_append.mpr ⟨hpast, forall_mem_singleton.mpr fun failure hfail => ?_⟩
    obtain rfl := Except.error.inj hfail
    exact hterm
  | none =>
    refine forall_mem_append.mpr ⟨fun call hmem failure hfail => ?_,
      forall_mem_singleton.mpr fun failure => hfed.failure hfits hterm⟩
    cases hterm.symm.trans (hpast call hmem failure hfail)

theorem accepted_begins (policy : OnDecodeError) (events : List DecodeEvent) :
    accepted policy events <+: events := by
  cases policy with
  | preserveRaw | replace => exact prefix_refl _
  | fail => exact takeWhile_prefix _

theorem Fed.accepted_eq (h : Fed encoding policy start bytes s events) :
    events <+: accepted policy (decode encoding start bytes) := by
  rcases h.status with ⟨pending, -, -, -, hall, hok⟩ | ⟨error, -, hacc, -⟩
  · rw [hall, (accepted_append _ hok).1]
    exact prefix_append _ _
  · rw [hacc]

/-- The run is over: the decoder has failed, or the whole source is consumed and nothing
waits. -/
def Feed.Over (bytes : Bytes) (s : Feed) : Prop :=
  s.decoder.terminalError ≠ none ∨ s.position = bytes.length ∧ s.decoder.undrained = false

/-- **Every run can be completed.**  Each further call delivers an event, of which there are
finitely many, or ends the run. -/
theorem Fed.completes (hfits : start.offset + bytes.length ≤ u64Max)
    (h : Fed encoding policy start bytes s events) :
    ∃ more, Feed.Over bytes (final (Feed.step start.offset bytes) s more) := by
  generalize hk : (decode encoding start bytes).length - events.length = k
  induction k using Nat.strong_induction_on generalizing s events with
  | _ k ih =>
    cases hterm : s.decoder.terminalError with
    | some error => exact ⟨[], .inl (by rw [final_nil, hterm]; exact nofun)⟩
    | none =>
      have hstep := h.step hfits bytes.length
      have hposition := h.position_le
      obtain ⟨pending, hopen⟩ := h.isOpen hterm
      rcases h.call hfits hopen bytes.length with ⟨hresult, hquiet⟩ |
        ⟨event, n, pending', -, ⟨-, hresult, -⟩ | ⟨error, -, hresult, hfailed⟩⟩
      · refine ⟨[bytes.length], .inr ⟨?_, hquiet.drained⟩⟩
        have hcall : (s.step start.offset bytes bytes.length).2 = _ := hresult
        show s.position + consumedBy (s.step start.offset bytes bytes.length).2 = bytes.length
        rw [hcall]
        show s.position + ((bytes.drop s.position).take bytes.length).length = bytes.length
        rw [length_take, length_drop]
        omega
      · have hcall : (s.step start.offset bytes bytes.length).2 = _ := hresult
        rw [hcall] at hstep
        have hgrow := (hstep.accepted_eq.length_le).trans (accepted_begins _ _).length_le
        rw [length_append] at hgrow
        have hone : (eventOf (.ok ⟨n, some event⟩)).toList.length = 1 := rfl
        obtain ⟨more, hover⟩ := ih _ (by rw [length_append]; omega) hstep rfl
        exact ⟨bytes.length :: more, hover⟩
      · refine ⟨[bytes.length], .inl ?_⟩
        rw [final_cons, final_nil, hfailed.terminal_eq]
        exact nofun

/-- **The decoder is independent of how its source is cut.**  The source decodes to the
decomposition of its bytes.  In every run the events tile the source from its start, and are the
beginning of those of the source.  A failure is the first malformed unit, and stays.  Once the
source is consumed and nothing waits, resolving the open unit completes the events, and every
run can be brought to this point or to a failure. -/
theorem decoder_chunk_independent (encoding : Encoding) (policy : OnDecodeError)
    (start : DecodeStart) (bytes : Bytes) (hfits : start.offset + bytes.length ≤ u64Max)
    (cuts : List Nat) : let all := decode encoding start bytes
    let step := Feed.step start.offset bytes
    let calls := history step (.init encoding policy start) cuts
    let s := final step (.init encoding policy start) cuts
    Decoded encoding start bytes all ∧
    (s.decoder.deliveredBoundary ≤ s.decoder.nextInputOffset ∧
      s.decoder.nextInputOffset = start.offset + s.position ∧ s.position ≤ bytes.length ∧
      Tiles start.offset bytes (emitted calls) s.decoder.deliveredBoundary
        (bytes.drop (s.decoder.deliveredBoundary - start.offset))) ∧
    emitted calls <+: accepted policy all ∧
    (∀ call ∈ calls, ∀ failure, call.2 = .error failure →
      s.decoder.terminalError = some failure.error) ∧
    (∀ error, s.decoder.terminalError = some error →
      emitted calls = accepted policy all ∧ rejection policy all = some error ∧
      (∀ offset input, s.decoder.next offset input = (s.decoder, .error ⟨0, error⟩)) ∧
      s.decoder.finishIncompleteUnit = (s.decoder, .error ⟨0, error⟩)) ∧
    (s.position = bytes.length → s.decoder.undrained = false →
      match s.decoder.finishIncompleteUnit.2 with
      | .ok event => emitted calls ++ event.toList = accepted policy all ∧
          rejection policy all = none
      | .error failure => emitted calls = accepted policy all ∧
          rejection policy all = some failure.error ∧
          s.decoder.finishIncompleteUnit.1.terminalError = some failure.error) ∧
    ∃ more, Feed.Over bytes (final step (.init encoding policy start) (cuts ++ more)) := by
  intro all step calls s
  have hfed : Fed encoding policy start bytes s (emitted calls) := fed_run hfits cuts
  refine ⟨decode_decoded encoding start bytes,
    ⟨hfed.boundary_le, hfed.next_eq, hfed.position_le, hfed.tiles⟩, hfed.accepted_eq,
    fed_failures hfits cuts, fun error hterm => ?_, hfed.finish, ?_⟩
  · rcases hfed.status with ⟨pending, hopen, -⟩ | ⟨error', hterm', hacc, hrej⟩
    · rw [hopen.terminal_eq] at hterm
      cases hterm
    · obtain rfl : error = error' := Option.some.inj (hterm.symm.trans hterm')
      exact ⟨hacc.symm, hrej, next_of_terminal hterm, finish_of_terminal hterm⟩
  · obtain ⟨more, hover⟩ := hfed.completes hfits
    exact ⟨more, by rw [final_append]; exact hover⟩

/-- A surrogate pair of UTF-16 and an odd byte, cut inside the pair. -/
theorem decoder_chunk_independent_pair :
    (DecodeStart.resumeAt 7).offset + [0x3d, 0xd8, 0x00, 0xde, (0x41 : UInt8)].length ≤ u64Max ∧
      emitted (history (Feed.step 7 [0x3d, 0xd8, 0x00, 0xde, 0x41])
        (.init .utf16Le .replace (.resumeAt 7)) [1, 0, 2, 5, 5]) <+:
        accepted .replace (decode .utf16Le (.resumeAt 7) [0x3d, 0xd8, 0x00, 0xde, 0x41]) :=
  ⟨by decide, (decoder_chunk_independent .utf16Le .replace (.resumeAt 7)
    [0x3d, 0xd8, 0x00, 0xde, 0x41] (by decide) [1, 0, 2, 5, 5]).2.2.1⟩

end

end OtapDataflow.Filelog
