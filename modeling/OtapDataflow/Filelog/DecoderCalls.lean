import OtapDataflow.Filelog.DecoderLoops

/-! # The calls of the decoder

Between two calls the decoder holds bytes that it has read and not delivered (`Open`).  What it
has still to deliver is determined by these bytes and the rest of the source (`remaining`): a
call delivers the next event, or reads all its input and leaves what remains as it is
(`next_spec`).  At the end of the source the open unit is delivered as a malformed one
(`finishIncompleteUnit_spec`). -/

namespace OtapDataflow.Filelog

open Bytes Word List StreamDecoder Nat

/-! ## The byte-order mark -/

variable {encoding : Encoding}

section

variable {bs read more : Bytes} {kind : BomKind}

theorem BomKind.mem_all (kind : BomKind) : kind ∈ BomKind.all := by
  cases kind <;> decide

theorem BomKind.bytes_ne_nil (kind : BomKind) : kind.bytes ≠ [] := by
  cases kind <;> exact cons_ne_nil _ _

/-- No byte-order mark is the beginning of another. -/
theorem BomKind.eq_of_prefix {kind' : BomKind} (h : kind.bytes <+: kind'.bytes) : kind = kind' := by
  revert h
  cases kind <;> cases kind' <;> decide

/-- The bytes of a probe: the beginning of a byte-order mark and not all of one. -/
def Probing (bs : Bytes) : Prop := ∃ kind : BomKind, bs <+: kind.bytes ∧ bs ≠ kind.bytes

/-- The bytes have left every byte-order mark. -/
def Diverged (bs : Bytes) : Prop :=
  ∀ kind : BomKind, ¬ bs <+: kind.bytes ∧ ¬ kind.bytes <+: bs

theorem Probing.length_lt (h : Probing bs) : bs.length < 3 := by
  obtain ⟨kind, hbegins, hne⟩ := h
  have hlt : bs.length < kind.bytes.length :=
    lt_of_le_of_ne hbegins.length_le fun heq => hne (hbegins.eq_of_length heq)
  have hle : kind.bytes.length ≤ 3 := by cases kind <;> decide
  omega

theorem Probing.ne_bytes (h : Probing bs) (kind : BomKind) : ¬ kind.bytes <+: bs := by
  obtain ⟨kind', hbegins, hne⟩ := h
  intro hk
  obtain rfl := BomKind.eq_of_prefix (hk.trans hbegins)
  exact hne (hbegins.eq_of_length (le_antisymm hbegins.length_le hk.length_le))

/-- What the probe makes of one more byte. -/
theorem Probing.snoc (h : Probing bs) (b : UInt8) :
    (∃ kind : BomKind, kind.bytes = bs ++ [b] ∧
      BomKind.all.find? (fun kind => decide (kind.bytes = bs ++ [b])) = some kind) ∨
    BomKind.all.find? (fun kind => decide (kind.bytes = bs ++ [b])) = none ∧
      ((Probing (bs ++ [b]) ∧
          (BomKind.all.any fun kind => (bs ++ [b]).isPrefixOf kind.bytes) = true) ∨
        (Diverged (bs ++ [b]) ∧
          (BomKind.all.any fun kind => (bs ++ [b]).isPrefixOf kind.bytes) = false)) := by
  cases hfind : BomKind.all.find? (fun kind => decide (kind.bytes = bs ++ [b])) with
  | some kind =>
    have hk := find?_some hfind
    exact .inl ⟨kind, of_decide_eq_true hk, rfl⟩
  | none =>
    have hne : ∀ kind : BomKind, kind.bytes ≠ bs ++ [b] := fun kind hk => by
      have := find?_eq_none.mp hfind kind kind.mem_all
      exact this (decide_eq_true hk)
    refine .inr ⟨rfl, ?_⟩
    cases hany : BomKind.all.any fun kind => (bs ++ [b]).isPrefixOf kind.bytes with
    | true =>
      obtain ⟨kind, -, hk⟩ := any_eq_true.mp hany
      exact .inl ⟨⟨kind, List.isPrefixOf_iff_prefix.mp hk, (hne kind).symm⟩, rfl⟩
    | false =>
      refine .inr ⟨fun kind => ⟨fun hk => ?_, fun hk => ?_⟩, rfl⟩
      · have := any_eq_false.mp hany kind kind.mem_all
        exact this (List.isPrefixOf_iff_prefix.mpr hk)
      · -- a mark inside `bs ++ [b]` is all of it, or lies in the part probed before
        rcases prefix_concat_iff.mp hk with heq | hbefore
        · exact hne kind (by simpa using heq)
        · exact h.ne_bytes kind hbefore

theorem decode_of_bom (hraw : encoding ≠ .raw) (kind : BomKind) (rest : Bytes) :
    decode encoding .newStream (kind.bytes ++ rest) =
      bomEvent encoding kind :: eventsFrom encoding kind.bytes.length rest := by
  have hfind : BomKind.all.find? (fun k => k.bytes.isPrefixOf (kind.bytes ++ rest)) =
      some kind := by
    cases hf : BomKind.all.find? (fun k => k.bytes.isPrefixOf (kind.bytes ++ rest)) with
    | none =>
      have := find?_eq_none.mp hf kind kind.mem_all
      exact absurd (List.isPrefixOf_iff_prefix.mpr (prefix_append _ _)) this
    | some kind' =>
      have hk := find?_some hf
      rcases prefix_or_prefix_of_prefix (List.isPrefixOf_iff_prefix.mp hk)
        (prefix_append kind.bytes rest) with h | h
      · rw [BomKind.eq_of_prefix h]
      · rw [BomKind.eq_of_prefix h]
  rw [decode, if_pos ⟨rfl, hraw⟩, hfind]
  dsimp only
  rw [drop_left]

theorem find_bom_none (h : ∀ kind : BomKind, ¬ kind.bytes <+: bs) :
    BomKind.all.find? (fun k => k.bytes.isPrefixOf bs) = none := by
  rw [find?_eq_none]
  rintro kind - hk
  exact h kind (List.isPrefixOf_iff_prefix.mp hk)

theorem decode_of_diverged (h : Diverged read) (hbegins : read <+: bs) :
    decode encoding .newStream bs = eventsFrom encoding 0 bs := by
  have hfind := @find_bom_none bs fun kind hk => by
    rcases prefix_or_prefix_of_prefix hk hbegins with hk | hk
    · exact (h kind).2 hk
    · exact (h kind).1 hk
  have hany : (BomKind.all.any fun kind => bs.isPrefixOf kind.bytes) = false := by
    rw [any_eq_false]
    rintro kind - hk
    exact (h kind).1 (hbegins.trans (List.isPrefixOf_iff_prefix.mp hk))
  rw [decode]
  split
  · rw [hfind, hany]
    simp
  · rfl

theorem decode_of_probing (hraw : encoding ≠ .raw) (h : Probing bs) (hne : bs ≠ []) :
    decode encoding .newStream bs = [unitEvent (0, (bs, none))] := by
  have hany : (BomKind.all.any fun kind => bs.isPrefixOf kind.bytes) = true := by
    obtain ⟨kind, hbegins, -⟩ := h
    exact any_eq_true.mpr ⟨kind, kind.mem_all, List.isPrefixOf_iff_prefix.mpr hbegins⟩
  rw [decode, if_pos ⟨rfl, hraw⟩, find_bom_none h.ne_bytes]
  rw [if_pos ⟨hne, hany⟩]

end

/-! ## The probe -/

section

variable {base offset : Nat} {input bytes : Bytes} {cursor : ByteCursor}

/-- The bytes of a probe are read again from their start. -/
theorem Reads.load {read : Bytes} (h : Reads base input cursor bytes read.length)
    (hdrained : cursor.replay.pos = cursor.replay.bytes.length) :
    Reads base input { cursor with replay := .load 0 read } (read ++ bytes) 0 := by
  have hfits := h.fits
  obtain ⟨hbytes, hoff⟩ := h.drained hdrained
  refine ⟨h.input_eq, h.consumed_le, h.next_eq, zero_le _, ?_, ?_, fun _ => rfl, ?_⟩
  · rw [hbytes]
    rfl
  · show cursor.nextInputOffset = 0 + (read.length - 0)
    omega
  · rw [length_append]
    omega

/-- **The probe.**  It reads all bytes and stays open, finds a byte-order mark, or gives its
bytes back. -/
theorem processBomProbe_spec (policy : OnDecodeError) (fuel : Nat) (probe : BomProbe)
    (hprobe : Probing probe.bytes) (hstart : probe.start = 0)
    (hdrained : cursor.replay.pos = cursor.replay.bytes.length)
    (hreads : Reads base input cursor bytes probe.bytes.length)
    (hfuel : 3 ≤ fuel + probe.bytes.length) :
    (∃ cursor', processBomProbe policy fuel probe cursor =
        (some { probe with bytes := probe.bytes ++ bytes }, cursor', .ok .pending) ∧
      Probing (probe.bytes ++ bytes) ∧ cursor'.replay.pos = cursor'.replay.bytes.length ∧
      Reads base input cursor' [] (probe.bytes ++ bytes).length) ∨
    (∃ cursor' kind rest, processBomProbe policy fuel probe cursor =
        (none, cursor', (deliver policy (bomEvent probe.encoding kind)).map .event) ∧
      probe.bytes ++ bytes = kind.bytes ++ rest ∧
      cursor'.replay.pos = cursor'.replay.bytes.length ∧
      Reads base input cursor' rest kind.bytes.length) ∨
    ∃ cursor' read, processBomProbe policy fuel probe cursor = (none, cursor', .ok .continue) ∧
      Diverged read ∧ read <+: probe.bytes ++ bytes ∧
      Reads base input cursor' (probe.bytes ++ bytes) 0 := by
  induction fuel generalizing probe cursor bytes with
  | zero =>
    have := hprobe.length_lt
    omega
  | succ fuel ih =>
    cases bytes with
    | nil =>
      refine .inl ⟨cursor, ?_, ?_, hdrained, ?_⟩
      · simp [processBomProbe, hreads.take_nil]
      · rwa [append_nil]
      · rwa [append_nil]
    | cons b bytes =>
      obtain ⟨next, cursor', htake, rfl, hoff, hreads', hreplay⟩ := hreads.take_cons
      have hdrained' : cursor'.replay.pos = cursor'.replay.bytes.length := by
        rw [hreplay hdrained, hdrained]
      have hlen : (probe.bytes ++ [next.byte]).length = probe.bytes.length + 1 := by simp
      have hwhole : probe.bytes ++ next.byte :: bytes = probe.bytes ++ [next.byte] ++ bytes := by
        simp
      rw [← hlen] at hreads'
      rw [hwhole]
      rcases hprobe.snoc next.byte with ⟨kind, hkind, hfind⟩ | ⟨hfind, ⟨hgo, hany⟩ | ⟨hdiv, hany⟩⟩
      · refine .inr (.inl ⟨cursor', kind, bytes, ?_, by rw [hkind], hdrained', by rwa [hkind]⟩)
        have hrange : (⟨probe.start, cursor'.nextInputOffset⟩ : SourceRange) =
            ⟨0, 0 + kind.bytes.length⟩ := by
          rw [hstart, (hreads'.drained hdrained').2, hkind, zero_add]
        simp only [processBomProbe, htake, hfind, hrange]
        rw [← hkind]
        by_cases hm : kind.matches probe.encoding = true
        · have hdeliver : deliver policy (bomEvent probe.encoding kind) =
              .ok (.strippedBom ⟨0, kind.bytes.length⟩ kind.bytes) := by
            rw [bomEvent, if_pos hm]
            cases policy <;> rfl
          rw [if_pos hm, hdeliver, zero_add]
          rfl
        · rw [if_neg hm, deliver_malformed, bomEvent, if_neg hm]
      · have hnext := ih { probe with bytes := probe.bytes ++ [next.byte] } hgo hstart
          hdrained' hreads' (by simp only [hlen]; omega)
        simp only [processBomProbe, htake, hfind, hany, if_true]
        exact hnext
      · refine .inr (.inr ⟨_, probe.bytes ++ [next.byte], ?_, hdiv, prefix_append _ _,
          hreads'.load hdrained'⟩)
        simp only [processBomProbe, htake, hfind, hany, hstart]
        rfl

end

/-! ## Between two calls -/

/-- The bytes that a decoder holds without having delivered them. -/
def Held (encoding : Encoding) (d : StreamDecoder) (pending : Bytes) : Prop :=
  match d.bomProbe with
  | some probe =>
    probe = ⟨pending, 0, encoding⟩ ∧ Probing pending ∧ encoding ≠ .raw ∧
      d.deliveredBoundary = 0 ∧ d.replay.pos = d.replay.bytes.length ∧
      Holds encoding d.state [] [] 0
  | none =>
    ∃ carry queued, Holds encoding d.state carry queued d.deliveredBoundary ∧
      Carry encoding carry ∧ pending = carry ++ queued ++ d.replay.bytes.drop d.replay.pos ∧
      d.replay.pos ≤ d.replay.bytes.length ∧
      (d.replay.pos < d.replay.bytes.length →
        d.replay.start + d.replay.pos = d.deliveredBoundary + carry.length + queued.length)

/-- A decoder that has not failed, between two calls. -/
structure Open (encoding : Encoding) (d : StreamDecoder) (pending : Bytes) : Prop where
  terminal_eq : d.terminalError = none
  next_eq : d.nextInputOffset = d.deliveredBoundary + pending.length
  held : Held encoding d pending

/-- The events still to come, given the bytes from the delivered boundary on. -/
def remaining (encoding : Encoding) (d : StreamDecoder) (bs : Bytes) : List DecodeEvent :=
  if d.bomProbe.isSome then decode encoding .newStream bs
  else eventsFrom encoding d.deliveredBoundary bs

/-- A call that reads its whole input without completing a unit. -/
structure Quiet (encoding : Encoding) (d : StreamDecoder) (pending input : Bytes)
    (d' : StreamDecoder) : Prop where
  isOpen : Open encoding d' (pending ++ input)
  drained : d'.undrained = false
  policy_eq : d'.policy = d.policy
  boundary_eq : d'.deliveredBoundary = d.deliveredBoundary
  remaining_eq : ∀ rest, remaining encoding d' (pending ++ (input ++ rest)) =
    remaining encoding d (pending ++ (input ++ rest))

/-- An event that a call delivers, having read `n` bytes of its input. -/
structure Delivers (encoding : Encoding) (d : StreamDecoder) (pending input : Bytes)
    (event : DecodeEvent) (n : Nat) (pending' : Bytes) : Prop where
  consumed_le : n ≤ input.length
  bytes_eq : pending ++ input.take n = event.source ++ pending'
  source_ne : event.source ≠ []
  range_eq : event.range = ⟨d.deliveredBoundary, d.deliveredBoundary + event.source.length⟩
  remaining_eq : ∀ rest, remaining encoding d (pending ++ (input ++ rest)) =
    event :: eventsFrom encoding (d.deliveredBoundary + event.source.length)
      (pending' ++ (input.drop n ++ rest))

/-- The decoder after an event. -/
structure After (encoding : Encoding) (d : StreamDecoder) (event : DecodeEvent) (pending' : Bytes)
    (d' : StreamDecoder) : Prop where
  isOpen : Open encoding d' pending'
  policy_eq : d'.policy = d.policy
  boundary_eq : d'.deliveredBoundary = d.deliveredBoundary + event.source.length
  probe_eq : d'.bomProbe = none

/-- The decoder after a failure that consumed `n` bytes. -/
structure Failed (d : StreamDecoder) (n : Nat) (error : DecodeError) (d' : StreamDecoder) :
    Prop where
  terminal_eq : d'.terminalError = some error
  boundary_eq : d'.deliveredBoundary = d.deliveredBoundary
  next_eq : d'.nextInputOffset = d.nextInputOffset + n

/-- What a call does to an open decoder. -/
def NextSpec (encoding : Encoding) (d : StreamDecoder) (pending input : Bytes)
    (r : StreamDecoder × Except DecodeFailure DecodeStep) : Prop :=
  (r.2 = .ok ⟨input.length, none⟩ ∧ Quiet encoding d pending input r.1) ∨
  ∃ event n pending', Delivers encoding d pending input event n pending' ∧
    ((deliver d.policy event = .ok event ∧ r.2 = .ok ⟨n, some event⟩ ∧
        After encoding d event pending' r.1) ∨
      ∃ error, deliver d.policy event = .error error ∧ r.2 = .error ⟨n, error⟩ ∧
        Failed d n error r.1)

variable {state : DecoderState} {offset : Nat}

section

variable {d e : StreamDecoder} {pending input carry queued stream : Bytes}
  {state' : DecoderState} {cursor' : ByteCursor}
  {result : Except DecodeError (Option DecodeEvent)}

/-- A delivery keeps the event, or fails with the malformed unit. -/
theorem deliver_cases (policy : OnDecodeError) (event : DecodeEvent) :
    deliver policy event = .ok event ∨
      ∃ range source, deliver policy event = .error (.fatalMalformed range source) := by
  cases policy with
  | preserveRaw | replace => exact .inl (by cases event <;> rfl)
  | fail =>
    cases event with
    | strippedBom range source => exact .inl rfl
    | unit range source value malformed =>
      cases malformed with
      | false => exact .inl rfl
      | true => exact .inr ⟨range, source, rfl⟩

theorem Holds.queued_nil (h : Holds encoding state carry [] offset) : state.queues = false := by
  rcases h.cases with ⟨s, -, rfl, -⟩ | ⟨-, rfl, -⟩ | ⟨-, rfl, -⟩ | ⟨endian, s, -, rfl, hs⟩
  · rfl
  · rfl
  · rfl
  · have hq := hs.queued_eq
    cases hs : s.queued with
    | none => simp [DecoderState.queues, hs]
    | some unit =>
      rw [hs] at hq
      cases hq

/-- A state that holds nothing holds nothing anywhere. -/
theorem Holds.shift (h : Holds encoding state [] [] offset) (offset' : Nat) :
    Holds encoding state [] [] offset' := by
  rcases h.cases with ⟨s, rfl, rfl, hbytes, -⟩ | ⟨rfl, rfl, -⟩ | ⟨rfl, rfl, -⟩ |
    ⟨endian, s, henc, rfl, hs⟩
  · exact ⟨hbytes, rfl, fun hne => absurd rfl hne⟩
  · exact h
  · exact h
  · obtain ⟨hhigh, hodd⟩ := append_eq_nil_iff.mp hs.carry_eq.symm
    rw [henc.holds_iff]
    refine ⟨hs.endian_eq, hs.carry_eq, hs.queued_eq, fun u hu => ?_, fun o ho => ?_, fun u hu => ?_⟩
    · rw [Option.mem_def.mp hu] at hhigh
      cases hhigh
    · rw [Option.mem_def.mp ho] at hodd
      cases hodd
    · have hq := hs.queued_eq
      rw [Option.mem_def.mp hu] at hq
      cases hq

/-- A decoder with nothing open. -/
theorem held_nil (hprobe : d.bomProbe = none)
    (hpos : d.replay.pos = d.replay.bytes.length) (hholds : Holds encoding d.state [] [] offset) :
    Held encoding d [] := by
  rw [Held, hprobe]
  refine ⟨[], [], hholds.shift _, .nil _, ?_, hpos.le, fun hlt => absurd hlt (by omega)⟩
  rw [hpos, drop_length]
  rfl

theorem undrained_eq_false : d.undrained = false ↔
    d.replay.pos = d.replay.bytes.length ∧ d.state.queues = false := by
  simp [undrained, ReplayBytes.drained]

theorem bomEvent_source (encoding : Encoding) (kind : BomKind) :
    (bomEvent encoding kind).source = kind.bytes := by
  unfold bomEvent
  split <;> rfl

theorem bomEvent_range (encoding : Encoding) (kind : BomKind) :
    (bomEvent encoding kind).range = ⟨0, kind.bytes.length⟩ := by
  unfold bomEvent
  split
  · rfl
  · rw [← zero_add kind.bytes.length]
    rfl

/-- The cursor of a call on a decoder without a probe. -/
theorem reads_of_held (hnext : d.nextInputOffset = d.deliveredBoundary + pending.length)
    (hpending : pending = carry ++ queued ++ d.replay.bytes.drop d.replay.pos)
    (hpos : d.replay.pos ≤ d.replay.bytes.length) (hstart : d.replay.pos < d.replay.bytes.length →
      d.replay.start + d.replay.pos = d.deliveredBoundary + carry.length + queued.length)
    (hfits : d.nextInputOffset + input.length ≤ u64Max) :
    Reads d.nextInputOffset input (d.cursor input) (d.replay.bytes.drop d.replay.pos ++ input)
      (d.deliveredBoundary + carry.length + queued.length) := by
  have hlen : pending.length =
      carry.length + queued.length + (d.replay.bytes.length - d.replay.pos) := by
    rw [hpending, length_append, length_append, length_drop]
  refine ⟨rfl, zero_le _, rfl, hpos, rfl, ?_, hstart, ?_⟩
  · show d.nextInputOffset = d.deliveredBoundary + carry.length + queued.length +
      (d.replay.bytes.length - d.replay.pos)
    omega
  · rw [length_append, length_drop]
    omega

/-- The general path of a call. -/
theorem StreamDecoder.next_eq (hterm : d.terminalError = none) (hslow : d.fast input = none) :
    d.next d.nextInputOffset input =
      match d.nextInner input with
      | (d, cursor, .ok event) =>
        ({ d with deliveredBoundary := (event.map (·.range.stop)).getD d.deliveredBoundary },
          .ok ⟨cursor.consumed, event⟩)
      | (d, cursor, .error error) =>
        ((d.recordFailure error cursor.consumed).1,
          .error (d.recordFailure error cursor.consumed).2) := by
  rcases hinner : d.nextInner input with ⟨e, cursor, error | event⟩ <;>
    simp [next, hterm, hslow, hinner]

/-- What is read of the input, given what is left. -/
theorem append_take_eq {whole : Bytes} {n : Nat} (h : pending ++ input = whole ++ input.drop n) :
    pending ++ input.take n = whole := by
  apply append_cancel_right
  rwa [append_assoc, take_append_drop]

/-- **From the loop to the call.**  `carry` is the unit that was open and `stream` what was
there to be read after it. -/
theorem nextSpec_of_outcome (hterm : d.terminalError = none) (hslow : d.fast input = none)
    (hinner : d.nextInner input = ({ e.moved cursor' with state := state' }, cursor', result))
    (hpolicy : e.policy = d.policy) (heterm : e.terminalError = none)
    (hboundary : e.deliveredBoundary = d.deliveredBoundary) (hprobe : e.bomProbe = none)
    (hcarry : Carry encoding carry) (hstream : carry ++ stream = pending ++ input)
    (hrem : ∀ rest, remaining encoding d (pending ++ (input ++ rest)) =
      eventsFrom encoding d.deliveredBoundary (pending ++ (input ++ rest)))
    (hout : Outcome d.policy d.nextInputOffset input encoding carry d.deliveredBoundary stream
      state' cursor' result) :
    NextSpec encoding d pending input (d.next d.nextInputOffset input) := by
  rw [next_eq hterm hslow, hinner]
  rw [Outcome] at hout
  cases hscan : scan encoding carry stream with
  | none =>
    rw [hscan] at hout
    obtain ⟨rfl, hholds, hreads⟩ := hout
    rw [hstream] at hholds hreads
    obtain ⟨hpos, hconsumed⟩ := hreads.all_read
    refine .inl ⟨?_, ⟨⟨heterm, ?_, ?_⟩, ?_, hpolicy, hboundary, fun rest => ?_⟩⟩
    · show Except.ok (DecodeStep.mk cursor'.consumed none) = _
      rw [hconsumed]
    · show cursor'.nextInputOffset = e.deliveredBoundary + (pending ++ input).length
      rw [hboundary]
      exact (hreads.drained hpos).2
    · show Held encoding { e.moved cursor' with state := state' } (pending ++ input)
      rw [Held]
      simp only [moved, hprobe]
      refine ⟨pending ++ input, [], by rwa [hboundary], ?_, ?_, hreads.pos_le, fun hlt => ?_⟩
      · rwa [← hstream, Carry, hcarry.scan]
      · rw [hpos, drop_length, append_nil, append_nil]
      · omega
    · exact undrained_eq_false.mpr ⟨hpos, hholds.queued_nil⟩
    · rw [hrem, remaining]
      simp [moved, hprobe, hboundary]
  | some r =>
    obtain ⟨⟨source, value⟩, after⟩ := r
    rw [hscan] at hout
    obtain ⟨rfl, queued', bytes', rfl, hholds, hreads⟩ := hout
    obtain ⟨hbytes, hne⟩ := scan_bytes hscan
    dsimp only at hholds hreads
    have hfull : scan encoding [] (pending ++ input) = some
        ((source, value), queued' ++ bytes') := by
      rwa [← hstream, hcarry.scan]
    have hsplit : pending ++ input.take cursor'.consumed =
        source ++ (queued' ++ cursor'.replay.bytes.drop cursor'.replay.pos) := by
      refine append_take_eq ?_
      rw [← hstream, ← hbytes, hreads.bytes_eq]
      simp
    have hdelivers : Delivers encoding d pending input
        (unitEvent (d.deliveredBoundary, (source, value))) cursor'.consumed
        (queued' ++ cursor'.replay.bytes.drop cursor'.replay.pos) := by
      refine ⟨hreads.consumed_le, hsplit, hne, rfl, fun rest => ?_⟩
      rw [hrem, ← append_assoc, eventsFrom_of_scan (scan_append_some hfull rest), hreads.bytes_eq]
      simp only [append_assoc]
      rfl
    refine .inr ⟨_, _, _, hdelivers, ?_⟩
    rcases deliver_cases d.policy (unitEvent (d.deliveredBoundary, (source, value))) with
      hok | ⟨range, bad, herror⟩
    · refine .inl ⟨hok, ?_, ?_⟩
      · simp [hok, Except.map]
      · simp only [hok, Except.map]
        refine ⟨⟨heterm, ?_, ?_⟩, hpolicy, rfl, hprobe⟩
        · show cursor'.nextInputOffset = d.deliveredBoundary + source.length +
            (queued' ++ cursor'.replay.bytes.drop cursor'.replay.pos).length
          rw [hreads.offset_eq, length_append, length_drop]
          omega
        · rw [Held]
          simp only [moved, hprobe]
          exact ⟨[], queued', hholds, .nil _, rfl, hreads.pos_le, fun hlt =>
            hreads.replay_start hlt⟩
    · refine .inr ⟨_, herror, ?_, ?_⟩
      · simp [herror, Except.map, recordFailure]
      · simp only [herror, Except.map, recordFailure]
        exact ⟨rfl, hboundary, hreads.next_eq⟩

/-- The first event of the fast path is that of the loops. -/
theorem scan_of_fast {byte : UInt8} {value : DecodedValue}
    (hholds : Holds encoding d.state carry queued d.deliveredBoundary)
    (hfast : d.fastValue byte = some value) (rest : Bytes) :
    carry = [] ∧ queued = [] ∧
      scan encoding [] (byte :: rest) = some (([byte], some value), rest) := by
  rcases hholds.cases with ⟨s, rfl, hstate, rfl, rfl, -⟩ | ⟨rfl, hstate, rfl, rfl⟩ |
    ⟨rfl, hstate, rfl, rfl⟩ | ⟨endian, s, -, hstate, -⟩
  · simp only [fastValue, hstate] at hfast
    split at hfast
    · rename_i hascii
      obtain ⟨hlen, hbyte⟩ := hascii
      have hc : classify .utf8 ([] ++ [byte]) = .unit (.scalar (Char.ofNat byte.toNat)) := by
        simp [classify, Utf8.first_ascii hbyte]
      rw [← Option.some.inj hfast, scan, hc]
      exact ⟨eq_nil_of_length_eq_zero hlen, rfl, rfl⟩
    · cases hfast
  · simp only [fastValue, hstate] at hfast
    split at hfast
    · rename_i hbyte
      have hc : classify .ascii ([] ++ [byte]) = .unit (.scalar (Char.ofNat byte.toNat)) :=
        if_pos hbyte
      rw [← Option.some.inj hfast, scan, hc]
      exact ⟨rfl, rfl, rfl⟩
    · cases hfast
  · simp only [fastValue, hstate, Option.some.injEq] at hfast
    rw [← hfast]
    exact ⟨rfl, rfl, rfl⟩
  · simp only [fastValue, hstate] at hfast
    cases hfast

section

variable (hopen : Open encoding d pending) (hfits : d.nextInputOffset + input.length ≤ u64Max)
include hopen hfits

/-- The fast path delivers what the general path would. -/
theorem nextSpec_of_fast {byte : UInt8} {value : DecodedValue}
    (hfast : d.fast input = some (byte, value)) :
    NextSpec encoding d pending input (d.next d.nextInputOffset input) := by
  cases input with
  | nil => cases hfast
  | cons b rest =>
    have hpath := hfast
    simp only [StreamDecoder.fast] at hfast
    split at hfast
    · rename_i hcond
      obtain ⟨hnone, hdrained⟩ := hcond
      obtain ⟨v, hv, heq⟩ := Option.map_eq_some_iff.mp hfast
      obtain ⟨rfl, rfl⟩ := Prod.mk.inj heq
      have hprobe : d.bomProbe = none := Option.isNone_iff_eq_none.mp hnone
      have hpos : d.replay.pos = d.replay.bytes.length := by
        simpa [ReplayBytes.drained] using hdrained
      have hheld := hopen.held
      rw [Held, hprobe] at hheld
      obtain ⟨carry, queued, hholds, -, hpending, -, -⟩ := hheld
      obtain ⟨rfl, rfl, -⟩ := scan_of_fast hholds hv rest
      have hnil : pending = [] := by
        rw [hpending, hpos, drop_length]
        rfl
      subst hnil
      have hboundary : d.nextInputOffset = d.deliveredBoundary := hopen.next_eq
      rw [length_cons] at hfits
      have hrange := oneByteRange_eq (by omega : d.nextInputOffset + 1 ≤ u64Max)
      have hevent : (.unit ⟨d.nextInputOffset, d.nextInputOffset + 1⟩ [b] v false : DecodeEvent) =
          unitEvent (d.deliveredBoundary, ([b], some v)) := by
        rw [hboundary]
        rfl
      have hcall : d.next d.nextInputOffset (b :: rest) =
          ({ d with
              nextInputOffset := d.nextInputOffset + 1
              deliveredBoundary := d.nextInputOffset + 1 },
            .ok ⟨1, some (unitEvent (d.deliveredBoundary, ([b], some v)))⟩) := by
        rw [← hevent]
        simp [StreamDecoder.next, hopen.terminal_eq, hpath, hrange]
      rw [hcall]
      refine .inr ⟨unitEvent (d.deliveredBoundary, ([b], some v)), 1, [], ?_, .inl ⟨?_, rfl, ?_⟩⟩
      · refine ⟨by simp, rfl, cons_ne_nil _ _, rfl, fun more => ?_⟩
        rw [remaining, hprobe]
        exact eventsFrom_of_scan (scan_of_fast hholds hv _).2.2
      · rw [deliver_value]
        rfl
      · refine ⟨⟨hopen.terminal_eq, rfl, ?_⟩, rfl, congrArg (· + 1) hboundary, hprobe⟩
        exact held_nil hprobe hpos hholds
    · cases hfast

/-- **What a call does to an open decoder.** -/
theorem next_spec : NextSpec encoding d pending input (d.next d.nextInputOffset input) := by
  cases hfast : d.fast input with
  | some r =>
    exact nextSpec_of_fast hopen hfits hfast
  | none =>
    have hheld := hopen.held
    rw [Held] at hheld
    cases hprobe : d.bomProbe with
    | none =>
      rw [hprobe] at hheld
      obtain ⟨carry, queued, hholds, hcarry, hpending, hpos, hstart⟩ := hheld
      have hreads := reads_of_held hopen.next_eq hpending hpos hstart hfits
      obtain ⟨state', cursor', result, hrun, hout⟩ :=
        decodeState_spec hholds hcarry hreads
      have hinner : d.nextInner input =
          ({ d.moved cursor' with state := state' }, cursor', result) := by
        simp only [nextInner, hprobe]
        exact hrun
      refine nextSpec_of_outcome hopen.terminal_eq hfast hinner rfl hopen.terminal_eq rfl hprobe
        hcarry ?_ (fun rest => ?_) hout
      · rw [hpending]
        simp
      · rw [remaining, hprobe]
        rfl
    | some probe =>
      rw [hprobe] at hheld
      obtain ⟨rfl, hprobing, hraw, hboundary, hdrained, hholds⟩ := hheld
      have hnext : d.nextInputOffset = pending.length := by
        rw [hopen.next_eq, hboundary, zero_add]
      have hreads : Reads d.nextInputOffset input (d.cursor input) input pending.length := by
        refine ⟨rfl, zero_le _, rfl, hdrained.le, ?_, ?_, fun hlt => ?_, by omega⟩
        · show input = d.replay.bytes.drop d.replay.pos ++ input
          rw [hdrained, drop_length, nil_append]
        · show d.nextInputOffset = pending.length + (d.replay.bytes.length - d.replay.pos)
          omega
        · have : d.replay.pos < d.replay.bytes.length := hlt
          omega
      rcases processBomProbe_spec d.policy 3 ⟨pending, 0, encoding⟩ hprobing rfl hdrained hreads
        (le_add_right _ _) with ⟨cursor', hrun, hstill, hdrained', hreads'⟩ |
          ⟨cursor', kind, rest, hrun, hbytes, hdrained', hreads'⟩ |
          ⟨cursor', read, hrun, hdiv, hbegins, hreads'⟩
      · -- the probe has read everything
        have hconsumed := hreads'.all_read.2
        have hcall : d.next d.nextInputOffset input =
            ({ d.moved cursor' with bomProbe := some ⟨pending ++ input, 0, encoding⟩ },
              .ok ⟨input.length, none⟩) := by
          rw [next_eq hopen.terminal_eq hfast]
          simp only [nextInner, hprobe, hrun, hconsumed]
          rfl
        rw [hcall]
        refine .inl ⟨rfl, ⟨⟨hopen.terminal_eq, ?_, ?_⟩, ?_, rfl, rfl, fun rest => ?_⟩⟩
        · show cursor'.nextInputOffset = d.deliveredBoundary + (pending ++ input).length
          rw [(hreads'.drained hdrained').2, hboundary, zero_add]
        · exact ⟨rfl, hstill, hraw, hboundary, hdrained', hholds⟩
        · exact undrained_eq_false.mpr ⟨hdrained', hholds.queued_nil⟩
        · rw [remaining, remaining, hprobe]
          rfl
      · -- a byte-order mark
        obtain ⟨hrest, hnext'⟩ := hreads'.drained hdrained'
        have hsource := bomEvent_source encoding kind
        have hdelivers : Delivers encoding d pending input (bomEvent encoding kind)
            cursor'.consumed [] := by
          refine ⟨hreads'.consumed_le, ?_, ?_, ?_, fun more => ?_⟩
          · rw [hsource, append_nil]
            exact append_take_eq (hrest ▸ hbytes)
          · rw [hsource]
            exact kind.bytes_ne_nil
          · rw [bomEvent_range, hsource, hboundary, zero_add]
          · have hwhole : pending ++ (input ++ more) = kind.bytes ++ (rest ++ more) := by
              rw [← append_assoc, ← append_assoc]
              exact congrArg (· ++ more) hbytes
            rw [remaining, hprobe, hsource, hboundary, hwhole, ← hrest, zero_add]
            exact decode_of_bom hraw kind _
        refine .inr ⟨_, _, _, hdelivers, ?_⟩
        rcases deliver_cases d.policy (bomEvent encoding kind) with hok | ⟨range, bad, herror⟩
        · have hcall : d.next d.nextInputOffset input =
              ({ d.moved cursor' with
                  bomProbe := none
                  deliveredBoundary := kind.bytes.length },
                .ok ⟨cursor'.consumed, some (bomEvent encoding kind)⟩) := by
            rw [next_eq hopen.terminal_eq hfast]
            simp [nextInner, hprobe, hrun, hok, Except.map, bomEvent_range]
          rw [hcall]
          refine .inl ⟨hok, rfl, ⟨⟨hopen.terminal_eq, ?_, ?_⟩, rfl, ?_, rfl⟩⟩
          · exact hnext'
          · exact held_nil rfl hdrained' hholds
          · rw [hsource, hboundary, zero_add]
        · refine .inr ⟨_, herror, ?_⟩
          rw [next_eq hopen.terminal_eq hfast]
          simp only [nextInner, hprobe, hrun, herror, Except.map, recordFailure, true_and]
          exact ⟨rfl, rfl, hreads'.next_eq⟩
      · -- the bytes of the probe are read again
        obtain ⟨state', cursor'', result, hdecode, hout⟩ :=
          decodeState_spec (d := { d.moved cursor' with bomProbe := none }) hholds
            (.nil _) hreads'
        have hinner : d.nextInner input =
            ({ { d.moved cursor' with bomProbe := none }.moved cursor'' with state := state' },
              cursor'', result) := by
          simp only [nextInner, hprobe, hrun]
          exact hdecode
        refine nextSpec_of_outcome hopen.terminal_eq hfast hinner rfl hopen.terminal_eq rfl rfl
          (.nil _) rfl (fun more => ?_) ?_
        · rw [remaining, hprobe, hboundary]
          exact decode_of_diverged hdiv
            (hbegins.trans ⟨more, by simp⟩)
        · rwa [hboundary]

end

end

/-! ## The end of a source -/

section

variable {d : StreamDecoder} {pending carry : Bytes}

/-- The open unit of a UTF-16 state. -/
theorem pendingUnit_utf16 {endian : Endian} {state : Utf16State}
    (hstate : d.state = .utf16 state) (hprobe : d.bomProbe = none)
    (hholds : Utf16Holds endian state carry [] offset)
    (hnext : d.nextInputOffset = offset + carry.length) :
    d.pendingUnit =
      if carry = [] then none else some (⟨offset, offset + carry.length⟩, carry) := by
  obtain ⟨endian', odd, high, queued⟩ := state
  obtain ⟨-, rfl, -, hhigh, hodd, -⟩ := hholds
  cases high with
  | none =>
    cases odd with
    | none => simp [pendingUnit, hprobe, hstate, unitBytes, oddBytes]
    | some o =>
      have ho : o.1 = offset := hodd o rfl
      simp [pendingUnit, hprobe, hstate, unitBytes, oddBytes, ho, hnext]
  | some high =>
    obtain ⟨⟨hstart, hstop, -⟩, -⟩ := hhigh high rfl
    cases odd with
    | none =>
      simp [pendingUnit, hprobe, hstate, unitBytes, oddBytes, hstart, hstop, Utf16Unit.bytes]
    | some o =>
      simp [pendingUnit, hprobe, hstate, unitBytes, oddBytes, hstart, hnext, Utf16Unit.bytes]

theorem Holds.cleared {queued : Bytes} (h : Holds encoding state carry queued offset)
    (offset' : Nat) : Holds encoding (clearedState state) [] [] offset' := by
  rcases h.cases with ⟨s, rfl, rfl, -⟩ | ⟨rfl, rfl, -⟩ | ⟨rfl, rfl, -⟩ | ⟨endian, s, henc, rfl, hs⟩
  · exact ⟨rfl, rfl, nofun⟩
  · exact ⟨rfl, rfl⟩
  · exact ⟨rfl, rfl⟩
  · exact (henc.holds_iff _ _ _ _).mpr ⟨hs.endian_eq, rfl, rfl, nofun, nofun, nofun⟩

/-- Without a code unit that waits, a state holds only the open unit. -/
theorem pendingUnit_of_holds {queued : Bytes} (hprobe : d.bomProbe = none)
    (hqueues : d.state.queues = false)
    (hholds : Holds encoding d.state carry queued d.deliveredBoundary) :
    queued = [] ∧ (d.nextInputOffset = d.deliveredBoundary + carry.length →
      d.pendingUnit = if carry = [] then none else
        some (⟨d.deliveredBoundary, d.deliveredBoundary + carry.length⟩, carry)) := by
  rcases hholds.cases with ⟨s, -, hstate, rfl, rfl, hstart⟩ | ⟨-, hstate, rfl, rfl⟩ |
    ⟨-, hstate, rfl, rfl⟩ | ⟨endian, s, -, hstate, hs⟩
  · refine ⟨rfl, fun hnext => ?_⟩
    by_cases hnil : s.bytes = []
    · simp [pendingUnit, hprobe, hstate, hnil]
    · simp [pendingUnit, hprobe, hstate, hnil, hnext, hstart hnil]
  · exact ⟨rfl, fun _ => by simp [pendingUnit, hprobe, hstate]⟩
  · exact ⟨rfl, fun _ => by simp [pendingUnit, hprobe, hstate]⟩
  · rw [hstate] at hqueues
    have hqueued : queued = [] := by
      rw [hs.queued_eq, Option.isSome_eq_false_iff.mp hqueues |> Option.isNone_iff_eq_none.mp]
      rfl
    rw [hqueued] at hs
    exact ⟨hqueued, pendingUnit_utf16 hstate hprobe hs⟩

/-- **The unit that the end of the source leaves open** is all that has not been delivered. -/
theorem pendingUnit_spec (hopen : Open encoding d pending) (hdrained : d.undrained = false) :
    d.pendingUnit = (if pending = [] then none else
        some (⟨d.deliveredBoundary, d.deliveredBoundary + pending.length⟩, pending)) ∧
      remaining encoding d pending =
        (if pending = [] then [] else [unitEvent (d.deliveredBoundary, (pending, none))]) ∧
      ∀ offset, Holds encoding (clearedState d.state) [] [] offset := by
  obtain ⟨hpos, hqueues⟩ := undrained_eq_false.mp hdrained
  have hnext := hopen.next_eq
  have hheld := hopen.held
  rw [Held] at hheld
  cases hprobe : d.bomProbe with
  | some probe =>
    rw [hprobe] at hheld
    obtain ⟨rfl, hprobing, hraw, hboundary, -, hholds⟩ := hheld
    refine ⟨?_, ?_, hholds.cleared⟩
    · by_cases hnil : pending = []
      · simp [pendingUnit, hprobe, hnil]
      · simp [pendingUnit, hprobe, hnil, hnext, hboundary]
    · rw [remaining, hprobe, hboundary]
      by_cases hnil : pending = []
      · rw [hnil, if_pos rfl]
        cases encoding <;> rfl
      · rw [if_neg hnil]
        exact decode_of_probing hraw hprobing hnil
  | none =>
    rw [hprobe] at hheld
    obtain ⟨carry, queued, hholds, hcarry, hpending, -, -⟩ := hheld
    obtain ⟨rfl, hunit⟩ := pendingUnit_of_holds hprobe hqueues hholds
    obtain rfl : pending = carry := by
      rw [hpending, hpos, drop_length, append_nil, append_nil]
    refine ⟨hunit hnext, ?_, hholds.cleared⟩
    rw [remaining, hprobe]
    by_cases hnil : pending = []
    · rw [hnil, if_pos rfl]
      rfl
    · rw [if_neg hnil]
      exact eventsFrom_of_carry hcarry hnil

/-- **Resolving the open unit.** -/
theorem finishIncompleteUnit_spec (hopen : Open encoding d pending)
    (hdrained : d.undrained = false) :
    (pending = [] ∧ remaining encoding d [] = [] ∧ d.finishIncompleteUnit = (d, .ok none)) ∨
    pending ≠ [] ∧ remaining encoding d pending =
        [unitEvent (d.deliveredBoundary, (pending, none))] ∧
      ((deliver d.policy (unitEvent (d.deliveredBoundary, (pending, none))) =
            .ok (unitEvent (d.deliveredBoundary, (pending, none))) ∧
          d.finishIncompleteUnit.2 =
            .ok (some (unitEvent (d.deliveredBoundary, (pending, none)))) ∧
          After encoding d (unitEvent (d.deliveredBoundary, (pending, none))) []
            d.finishIncompleteUnit.1) ∨
        ∃ error, deliver d.policy (unitEvent (d.deliveredBoundary, (pending, none))) =
            .error error ∧
          d.finishIncompleteUnit.2 = .error ⟨0, error⟩ ∧
          Failed d 0 error d.finishIncompleteUnit.1) := by
  obtain ⟨hunit, hrem, hclear⟩ := pendingUnit_spec hopen hdrained
  by_cases hnil : pending = []
  · rw [if_pos hnil] at hunit hrem
    refine .inl ⟨hnil, hnil ▸ hrem, ?_⟩
    simp [finishIncompleteUnit, hopen.terminal_eq, hdrained, hunit]
  · rw [if_neg hnil] at hunit hrem
    refine .inr ⟨hnil, hrem, ?_⟩
    have hmal := deliver_malformed d.policy d.deliveredBoundary pending
    have hpos := (undrained_eq_false.mp hdrained).1
    rcases deliver_cases d.policy (unitEvent (d.deliveredBoundary, (pending, none))) with
      hok | ⟨range, bad, herror⟩
    · rw [hok] at hmal
      have hcall : d.finishIncompleteUnit =
          ({ d with
              bomProbe := none
              state := clearedState d.state
              deliveredBoundary := d.deliveredBoundary + pending.length },
            .ok (some (unitEvent (d.deliveredBoundary, (pending, none))))) := by
        simp [finishIncompleteUnit, hopen.terminal_eq, hdrained, hunit, hmal]
      rw [hcall]
      refine .inl ⟨hok, rfl, ⟨hopen.terminal_eq, hopen.next_eq, ?_⟩, rfl, rfl, rfl⟩
      exact held_nil rfl hpos (hclear 0)
    · rw [herror] at hmal
      refine .inr ⟨_, herror, ?_⟩
      simp only [finishIncompleteUnit, hopen.terminal_eq, hdrained, hunit, hmal,
        Bool.false_eq_true, if_false, recordFailure, true_and]
      exact ⟨rfl, rfl, rfl⟩

end

end OtapDataflow.Filelog
