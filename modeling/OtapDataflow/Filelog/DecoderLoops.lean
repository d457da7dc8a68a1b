import OtapDataflow.Filelog.Decomposition

/-! # The loops of the decoder

Each loop of the decoder reads bytes off its cursor until a scan of the open unit ends: it
then returns the event of the unit and leaves the rest to be read, or it has read everything
and keeps the open unit.  The cursor reads replayed bytes before fresh input, so it is a list
of bytes with an offset (`Reads`). -/

namespace OtapDataflow.Filelog

open Bytes Word List StreamDecoder

variable {base offset : Nat} {input carry queued bytes : Bytes} {b : UInt8} {cursor : ByteCursor}
  {policy : OnDecodeError} {encoding : Encoding}

/-! ## Reading bytes -/

/-- The cursor of a call with the given input, which started with fresh input at `base`: the
bytes it still has to return and the offset of the first of them. -/
structure Reads (base : Nat) (input : Bytes) (cursor : ByteCursor) (bytes : Bytes) (offset : Nat) :
    Prop where
  input_eq : cursor.input = input
  consumed_le : cursor.consumed ≤ input.length
  next_eq : cursor.nextInputOffset = base + cursor.consumed
  pos_le : cursor.replay.pos ≤ cursor.replay.bytes.length
  bytes_eq : bytes = cursor.replay.bytes.drop cursor.replay.pos ++ input.drop cursor.consumed
  offset_eq : cursor.nextInputOffset =
    offset + (cursor.replay.bytes.length - cursor.replay.pos)
  replay_start : cursor.replay.pos < cursor.replay.bytes.length →
    cursor.replay.start + cursor.replay.pos = offset
  fits : offset + bytes.length ≤ u64Max

theorem offsetAfter_eq (h : offset + 1 ≤ u64Max) : offsetAfter offset = .ok (offset + 1) := by
  rw [offsetAfter, checkedAdd_eq h]

/-- A cursor with nothing to return has read everything. -/
theorem Reads.all_read (h : Reads base input cursor [] offset) :
    cursor.replay.pos = cursor.replay.bytes.length ∧ cursor.consumed = input.length := by
  obtain ⟨hreplay, hinput⟩ := append_eq_nil_iff.mp h.bytes_eq.symm
  exact ⟨le_antisymm h.pos_le (drop_eq_nil_iff.mp hreplay),
    le_antisymm h.consumed_le (drop_eq_nil_iff.mp hinput)⟩

/-- Once the replayed bytes are read, the rest of the input remains. -/
theorem Reads.drained (h : Reads base input cursor bytes offset)
    (hdrained : cursor.replay.pos = cursor.replay.bytes.length) :
    bytes = input.drop cursor.consumed ∧ cursor.nextInputOffset = offset := by
  have hbytes := h.bytes_eq
  have hoff := h.offset_eq
  rw [hdrained, drop_length, nil_append] at hbytes
  rw [hdrained, Nat.sub_self, add_zero] at hoff
  exact ⟨hbytes, hoff⟩

theorem Reads.peek_nil (h : Reads base input cursor [] offset) : cursor.peek = .ok none := by
  obtain ⟨hpos, hin⟩ := h.all_read
  simp [ByteCursor.peek, ReplayBytes.peek, hpos, hin, h.input_eq]

/-- The next byte, and the cursor after it. -/
theorem Reads.peek_cons (h : Reads base input cursor (b :: bytes) offset) :
    ∃ next cursor', cursor.peek = .ok (some next) ∧ next.byte = b ∧ next.offset = offset ∧
      cursor.consume next = (cursor', .ok ()) ∧ Reads base input cursor' bytes (offset + 1) ∧
      (cursor.replay.pos = cursor.replay.bytes.length → cursor'.replay = cursor.replay) := by
  have hfits := h.fits
  rw [length_cons] at hfits
  by_cases hpos : cursor.replay.pos < cursor.replay.bytes.length
  · -- a byte to be read again
    have hbytes := h.bytes_eq
    have hstart := h.replay_start hpos
    rw [drop_eq_getElem_cons hpos, cons_append] at hbytes
    obtain ⟨rfl, hrest⟩ := List.cons.inj hbytes
    have hoff := h.offset_eq
    refine ⟨⟨cursor.replay.bytes[cursor.replay.pos], offset, .replay⟩,
      { cursor with replay := cursor.replay.consume }, ?_, rfl, rfl, rfl, ?_, fun hend => ?_⟩
    · have hadd : checkedAdd cursor.replay.start cursor.replay.pos = some offset := by
        rw [checkedAdd_eq (by omega), hstart]
      simp [ByteCursor.peek, ReplayBytes.peek, getElem?_eq_getElem hpos, hadd]
    · refine ⟨h.input_eq, h.consumed_le, h.next_eq, hpos, hrest, ?_, fun _ => ?_, by omega⟩
      · show cursor.nextInputOffset = offset + 1 +
          (cursor.replay.bytes.length - (cursor.replay.pos + 1))
        omega
      · show cursor.replay.start + (cursor.replay.pos + 1) = offset + 1
        omega
    · omega
  · -- a byte of the input
    have hend : cursor.replay.pos = cursor.replay.bytes.length := by
      have := h.pos_le
      omega
    obtain ⟨hbytes, hoff⟩ := h.drained hend
    have hlt : cursor.consumed < input.length := by
      by_contra hge
      rw [drop_of_length_le (not_lt.mp hge)] at hbytes
      cases hbytes
    rw [drop_eq_getElem_cons hlt] at hbytes
    obtain ⟨rfl, hrest⟩ := List.cons.inj hbytes
    refine ⟨⟨input[cursor.consumed], offset, .input⟩,
      { cursor with nextInputOffset := offset + 1, consumed := cursor.consumed + 1 }, ?_, rfl, rfl,
      ?_, ?_, fun _ => rfl⟩
    · have hnone : cursor.replay.bytes[cursor.replay.pos]? = none := by
        rw [getElem?_eq_none_iff, hend]
      simp [ByteCursor.peek, ReplayBytes.peek, hnone, h.input_eq, getElem?_eq_getElem hlt, hoff]
    · simp [ByteCursor.consume, hoff, offsetAfter_eq (by omega : offset + 1 ≤ u64Max)]
    · have hnext := h.next_eq
      refine ⟨h.input_eq, hlt, ?_, h.pos_le, ?_, ?_, fun hlt' => ?_, by omega⟩
      · show offset + 1 = base + (cursor.consumed + 1)
        omega
      · rw [hend, drop_length, nil_append, hrest]
      · show offset + 1 = offset + 1 + (cursor.replay.bytes.length - cursor.replay.pos)
        omega
      · exact absurd hlt' hpos

theorem Reads.take_nil (h : Reads base input cursor [] offset) :
    cursor.take = (cursor, .ok none) := by
  simp [ByteCursor.take, h.peek_nil]

theorem Reads.take_cons (h : Reads base input cursor (b :: bytes) offset) :
    ∃ next cursor', cursor.take = (cursor', .ok (some next)) ∧ next.byte = b ∧
      next.offset = offset ∧ Reads base input cursor' bytes (offset + 1) ∧
      (cursor.replay.pos = cursor.replay.bytes.length → cursor'.replay = cursor.replay) := by
  obtain ⟨next, cursor', hpeek, hb, hoff, hconsume, hreads⟩ := h.peek_cons
  exact ⟨next, cursor', by simp [ByteCursor.take, hpeek, hconsume], hb, hoff, hreads⟩

/-! ## Delivery -/

/-- An event under a policy: a malformed unit is fatal under `fail`. -/
def deliver : OnDecodeError → DecodeEvent → Except DecodeError DecodeEvent
  | .fail, .unit range source _ true => .error (.fatalMalformed range source)
  | _, event => .ok event

theorem deliver_malformed (policy : OnDecodeError) (offset : Nat) (source : Bytes) :
    malformedEvent policy ⟨offset, offset + source.length⟩ source =
      deliver policy (unitEvent (offset, (source, none))) := by
  cases policy <;> rfl

theorem deliver_value (policy : OnDecodeError) (offset : Nat) (source : Bytes)
    (value : DecodedValue) :
    deliver policy (unitEvent (offset, (source, some value))) =
      .ok (.unit ⟨offset, offset + source.length⟩ source value false) := by
  cases policy <;> rfl

/-! ## What a loop computes -/

/-- A code unit of UTF-16 as the decoder keeps it. -/
structure UnitAt (endian : Endian) (offset : Nat) (unit : Utf16Unit) : Prop where
  start_eq : unit.start = offset
  stop_eq : unit.stop = offset + 2
  value_eq : unit.value = endian.decode unit.first unit.second

/-- The bytes of an optional code unit. -/
def unitBytes (unit : Option Utf16Unit) : Bytes := (unit.map Utf16Unit.bytes).getD []

/-- The odd byte, if there is one. -/
def oddBytes (odd : Option (Nat × UInt8)) : Bytes := (odd.map fun o => [o.2]).getD []

/-- A UTF-16 state with the bytes of the open unit, which starts at `offset`, and of the code
unit that waits. -/
structure Utf16Holds (endian : Endian) (state : Utf16State) (carry queued : Bytes) (offset : Nat) :
    Prop where
  endian_eq : state.endian = endian
  carry_eq : carry = unitBytes state.high ++ oddBytes state.odd
  queued_eq : queued = unitBytes state.queued
  high_at : ∀ unit ∈ state.high, UnitAt endian offset unit ∧ isHighSurrogate unit.value = true
  odd_at : ∀ odd ∈ state.odd, odd.1 = offset + (unitBytes state.high).length
  queued_at : ∀ unit ∈ state.queued, UnitAt endian offset unit ∧ carry = []

/-- The bytes that a decoder state holds: those of the open unit, which starts at `offset`, and
those of a code unit that has been read and not decoded. -/
def Holds : Encoding → DecoderState → Bytes → Bytes → Nat → Prop
  | .utf8, .utf8 state, carry, queued, offset =>
    state.bytes = carry ∧ queued = [] ∧ (carry ≠ [] → state.start = offset)
  | .ascii, .ascii, carry, queued, _ => carry = [] ∧ queued = []
  | .raw, .raw, carry, queued, _ => carry = [] ∧ queued = []
  | .utf16Le, .utf16 state, carry, queued, offset => Utf16Holds .little state carry queued offset
  | .utf16Be, .utf16 state, carry, queued, offset => Utf16Holds .big state carry queued offset
  | _, _, _, _, _ => False

/-- What a loop leaves behind that had `bytes` to read after the open unit `carry` at `offset`:
either the unit is still open and everything has been read, or the unit is returned. -/
def Outcome (policy : OnDecodeError) (base : Nat) (input : Bytes) (encoding : Encoding)
    (carry : Bytes) (offset : Nat) (bytes : Bytes) (state' : DecoderState) (cursor' : ByteCursor)
    (result : Except DecodeError (Option DecodeEvent)) : Prop :=
  match scan encoding carry bytes with
  | none => result = .ok none ∧ Holds encoding state' (carry ++ bytes) [] offset ∧
      Reads base input cursor' [] (offset + (carry ++ bytes).length)
  | some (unit, rest) =>
    result = (deliver policy (unitEvent (offset, unit))).map some ∧
      ∃ queued' bytes', rest = queued' ++ bytes' ∧
        Holds encoding state' [] queued' (offset + unit.1.length) ∧
        Reads base input cursor' bytes' (offset + unit.1.length + queued'.length)

section

variable {state' : DecoderState} {cursor' : ByteCursor}
  {result : Except DecodeError (Option DecodeEvent)}

theorem Outcome.nil (hresult : result = .ok none) (hholds : Holds encoding state' carry [] offset)
    (hreads : Reads base input cursor' [] (offset + carry.length)) :
    Outcome policy base input encoding carry offset [] state' cursor' result := by
  rw [Outcome, scan, append_nil]
  exact ⟨hresult, hholds, hreads⟩

/-- Bytes that leave the unit open. -/
theorem Outcome.append_iff (read : Bytes) (h : scan encoding carry read = none) :
    Outcome policy base input encoding carry offset (read ++ bytes) state' cursor' result ↔
      Outcome policy base input encoding (carry ++ read) offset bytes state' cursor' result := by
  rw [Outcome, Outcome, scan_append h, append_assoc]

theorem Outcome.cons (hc : classify encoding (carry ++ [b]) = .incomplete)
    (h : Outcome policy base input encoding (carry ++ [b]) offset bytes state' cursor' result) :
    Outcome policy base input encoding carry offset (b :: bytes) state' cursor' result := by
  refine (Outcome.append_iff [b] ?_).mpr h
  rw [scan, hc]
  rfl

/-- A byte that completes a unit. -/
theorem Outcome.unit {value : DecodedValue} (hc : classify encoding (carry ++ [b]) = .unit value)
    (hresult : result =
      .ok (some (.unit ⟨offset, offset + carry.length + 1⟩ (carry ++ [b]) value false)))
    (hholds : Holds encoding state' [] [] (offset + carry.length + 1))
    (hreads : Reads base input cursor' bytes (offset + carry.length + 1)) :
    Outcome policy base input encoding carry offset (b :: bytes) state' cursor' result := by
  have hlen : offset + (carry ++ [b]).length = offset + carry.length + 1 := by
    rw [length_append, length_singleton, add_assoc]
  rw [Outcome, scan, hc]
  refine ⟨?_, [], bytes, rfl, ?_, ?_⟩
  · rw [deliver_value, hlen, hresult]
    rfl
  · rwa [hlen]
  · rwa [hlen]

/-- A byte that shows a unit to be malformed: what it does not cover is read again, or waits. -/
theorem Outcome.malformed {n : Nat} (source queued' bytes' : Bytes)
    (hc : classify encoding (carry ++ [b]) = .malformed n)
    (hsource : (carry ++ [b]).take n = source)
    (hrest : (carry ++ [b]).drop n ++ bytes = queued' ++ bytes')
    (hresult : result = (malformedEvent policy ⟨offset, offset + source.length⟩ source).map some)
    (hholds : Holds encoding state' [] queued' (offset + source.length))
    (hreads : Reads base input cursor' bytes' (offset + source.length + queued'.length)) :
    Outcome policy base input encoding carry offset (b :: bytes) state' cursor' result := by
  rw [Outcome, scan, hc]
  refine ⟨?_, queued', bytes', hrest, ?_, ?_⟩
  · rw [hresult, deliver_malformed, hsource]
  · simp only [hsource]
    exact hholds
  · simp only [hsource]
    exact hreads

end

/-! ## UTF-8 -/

/-- **The decision of the decoder on a byte is that of a scan**: a sequence ends with the byte,
and a malformed one ends with it or just before it. -/
theorem utf8Decision_cases (h : Carry .utf8 carry) (b : UInt8) :
    (∃ c, utf8Decision (carry ++ [b]) = .scalar c ∧
      classify .utf8 (carry ++ [b]) = .unit (.scalar c)) ∨
    (utf8Decision (carry ++ [b]) = .incomplete ∧
      classify .utf8 (carry ++ [b]) = .incomplete) ∨
    ∃ n, utf8Decision (carry ++ [b]) = .malformed n ∧
      classify .utf8 (carry ++ [b]) = .malformed n ∧
      (n = carry.length + 1 ∨ n = carry.length ∧ carry ≠ []) := by
  have hlen : (carry ++ [b]).length = carry.length + 1 := by simp
  rcases Utf8.first_snoc h.first_utf8 b with ⟨c, hf⟩ | hf | ⟨hnil, hf⟩ | ⟨hne, hf⟩
  · have hok : Utf8.fromUtf8 (carry ++ [b]) = .ok [c] :=
      Utf8.fromUtf8_scalar (by rw [hf, hlen])
    exact .inl ⟨c, by simp [utf8Decision, hok], by simp [classify, hf]⟩
  · have herr := Utf8.fromUtf8_incomplete hf (by simp)
    exact .inr (.inl ⟨by simp [utf8Decision, herr], by simp [classify, hf]⟩)
  · have herr := Utf8.fromUtf8_malformed hf
    exact .inr (.inr ⟨1, by simp [utf8Decision, herr], by simp [classify, hf],
      .inl (by rw [hnil]; rfl)⟩)
  · have herr := Utf8.fromUtf8_malformed hf
    exact .inr (.inr ⟨carry.length, by simp [utf8Decision, herr],
      by simp [classify, hf], .inr ⟨rfl, hne⟩⟩)

/-- **The UTF-8 loop.** -/
theorem decodeUtf8_spec {fuel offset : Nat} {state : Utf8State} {cursor : ByteCursor}
    {bytes : Bytes} (hreads : Reads base input cursor bytes (offset + state.bytes.length))
    (hcarry : Carry .utf8 state.bytes) (hstart : state.bytes ≠ [] → state.start = offset)
    (hfuel : bytes.length < fuel) :
    Outcome policy base input .utf8 state.bytes offset bytes
      (.utf8 (decodeUtf8 policy fuel state cursor).1) (decodeUtf8 policy fuel state cursor).2.1
      (decodeUtf8 policy fuel state cursor).2.2 := by
  induction fuel generalizing state cursor bytes with
  | zero => cases hfuel
  | succ fuel ih =>
    cases bytes with
    | nil =>
      simp only [decodeUtf8, hreads.peek_nil]
      exact .nil rfl ⟨rfl, rfl, hstart⟩ hreads
    | cons b bytes =>
      obtain ⟨next, cursor', hpeek, rfl, hoff, hconsume, hreads', -⟩ := hreads.peek_cons
      have hfits := hreads'.fits
      have hbegin : (if state.bytes.length = 0 then next.offset else state.start) = offset := by
        split
        · omega
        · rename_i hne
          exact hstart fun hnil => hne (by rw [hnil]; rfl)
      have hlen : (state.bytes ++ [next.byte]).length = state.bytes.length + 1 := by simp
      have hafter : offsetAfter next.offset = .ok (offset + state.bytes.length + 1) := by
        rw [hoff]
        exact offsetAfter_eq (by omega)
      rcases utf8Decision_cases hcarry next.byte with ⟨c, hdec, hc⟩ | ⟨hdec, hc⟩ |
        ⟨n, hdec, hc, hn⟩
      · simp only [decodeUtf8, hpeek, hdec, hconsume, hbegin, hafter]
        exact .unit hc rfl ⟨rfl, rfl, nofun⟩ hreads'
      · have hnext : Reads base input cursor' bytes
            (offset + (state.bytes ++ [next.byte]).length) := by
          rwa [hlen, ← add_assoc]
        simp only [decodeUtf8, hpeek, hdec, hconsume, hbegin]
        exact .cons hc (@ih ⟨state.bytes ++ [next.byte], offset⟩ _ _ hnext (hcarry.snoc hc)
          (fun _ => rfl) (by simpa using hfuel))
      · rcases hn with hn | ⟨hn, hne⟩
        · have hall : n = (state.bytes ++ [next.byte]).length := by rw [hlen, hn]
          simp only [decodeUtf8, hpeek, hdec, hconsume, hbegin, hafter, if_pos hall]
          refine .malformed (state.bytes ++ [next.byte]) [] bytes
            hc ?_ ?_ ?_ ⟨rfl, rfl, nofun⟩ ?_
          · rw [hall, take_length]
          · rw [hall, drop_length]
          · rw [hall, take_length, hlen]
            rfl
          · rwa [hlen]
        · have hshort : ¬ n = (state.bytes ++ [next.byte]).length := by rw [hlen]; omega
          have hadd : checkedAdd state.start n = some (offset + state.bytes.length) := by
            rw [hstart hne, hn, checkedAdd_eq (by omega)]
          simp only [decodeUtf8, hpeek, hdec, if_neg hshort, hadd]
          refine .malformed state.bytes [] (next.byte :: bytes) hc ?_ ?_ ?_ ⟨rfl, rfl, nofun⟩ hreads
          · rw [hn, take_left]
          · rw [hn, drop_left]
            rfl
          · rw [hn, take_left, hstart hne]

/-! ## ASCII and raw bytes -/

theorem oneByteRange_eq (h : offset + 1 ≤ u64Max) :
    oneByteRange offset = .ok ⟨offset, offset + 1⟩ := by
  rw [oneByteRange, offsetAfter_eq h]
  rfl

theorem decodeAscii_spec (hreads : Reads base input cursor bytes offset) :
    Outcome policy base input .ascii [] offset bytes .ascii (decodeAscii policy cursor).1
      (decodeAscii policy cursor).2 := by
  cases bytes with
  | nil =>
    simp only [decodeAscii, hreads.take_nil]
    exact .nil rfl ⟨rfl, rfl⟩ hreads
  | cons b bytes =>
    obtain ⟨next, cursor', htake, rfl, rfl, hreads', -⟩ := hreads.take_cons
    have hfits := hreads'.fits
    simp only [decodeAscii, htake, oneByteRange_eq (by omega : next.offset + 1 ≤ u64Max)]
    by_cases hb : next.byte ≤ 0x7f
    · have hc : classify .ascii ([] ++ [next.byte]) =
          .unit (.scalar (Char.ofNat next.byte.toNat)) := if_pos hb
      refine .unit hc ?_ ⟨rfl, rfl⟩ hreads'
      exact if_pos hb
    · have hc : classify .ascii ([] ++ [next.byte]) = .malformed 1 := if_neg hb
      refine .malformed [next.byte] [] bytes hc rfl rfl ?_
        ⟨rfl, rfl⟩ hreads'
      exact if_neg hb

theorem decodeRaw_spec (hreads : Reads base input cursor bytes offset) :
    Outcome policy base input .raw [] offset bytes .raw (decodeRaw cursor).1
      (decodeRaw cursor).2 := by
  cases bytes with
  | nil =>
    simp only [decodeRaw, hreads.take_nil]
    exact .nil rfl ⟨rfl, rfl⟩ hreads
  | cons b bytes =>
    obtain ⟨next, cursor', htake, rfl, rfl, hreads', -⟩ := hreads.take_cons
    have hfits := hreads'.fits
    simp only [decodeRaw, htake, oneByteRange_eq (by omega : next.offset + 1 ≤ u64Max)]
    exact .unit rfl rfl ⟨rfl, rfl⟩ hreads'

/-! ## UTF-16 -/

section

variable {endian : Endian} {state : Utf16State}

/-- What `next_utf16_unit` returns when the bytes before the next code unit end at `offset`:
a code unit, or the odd byte that is left. -/
def NextUnit (base : Nat) (input : Bytes) (endian : Endian) (high : Option Utf16Unit)
    (offset : Nat) (bytes : Bytes)
    (r : Utf16State × ByteCursor × Except DecodeError (Option Utf16Unit)) : Prop :=
  match bytes with
  | a :: b :: rest =>
    r.1 = ⟨endian, none, high, none⟩ ∧
      ∃ unit, r.2.2 = .ok (some unit) ∧ UnitAt endian offset unit ∧ unit.first = a ∧
        unit.second = b ∧ Reads base input r.2.1 rest (offset + 2)
  | short =>
    (∃ odd, r.1 = ⟨endian, odd, high, none⟩ ∧ oddBytes odd = short ∧ ∀ o ∈ odd, o.1 = offset) ∧
      r.2.2 = .ok none ∧ Reads base input r.2.1 [] (offset + short.length)

theorem secondUtf16Byte_spec {a : UInt8} {high : Option Utf16Unit}
    (hreads : Reads base input cursor bytes (offset + 1)) :
    NextUnit base input endian high offset (a :: bytes)
      (secondUtf16Byte ⟨endian, some (offset, a), high, none⟩ cursor) := by
  cases bytes with
  | nil =>
    simp only [secondUtf16Byte, hreads.take_nil]
    refine ⟨⟨some (offset, a), rfl, rfl, fun o ho => ?_⟩, rfl, hreads⟩
    cases ho
    rfl
  | cons b bytes =>
    obtain ⟨next, cursor', htake, rfl, hoff, hreads', -⟩ := hreads.take_cons
    have hfits := hreads'.fits
    have hafter : offsetAfter next.offset = .ok (offset + 2) := by
      rw [hoff]
      exact offsetAfter_eq (by omega)
    simp only [secondUtf16Byte, htake, hafter]
    exact ⟨rfl, _, rfl, ⟨rfl, rfl, rfl⟩, rfl, rfl, hreads'⟩

theorem nextUtf16Unit_spec (hholds : Utf16Holds endian state carry queued offset)
    (hreads : Reads base input cursor bytes (offset + carry.length + queued.length)) :
    NextUnit base input endian state.high (offset + (unitBytes state.high).length)
      (oddBytes state.odd ++ queued ++ bytes) (nextUtf16Unit state cursor) := by
  obtain ⟨endian', odd, high, waiting⟩ := state
  obtain ⟨rfl, rfl, rfl, -, hodd, hwaiting⟩ := hholds
  cases waiting with
  | some unit =>
    -- the unit that waits comes first: nothing is open then
    obtain ⟨hat, hnil⟩ := hwaiting unit rfl
    obtain ⟨hhigh, hodd'⟩ := append_eq_nil_iff.mp hnil
    have hnone : odd = none := by
      cases odd with
      | none => rfl
      | some o => cases hodd'
    subst hnone
    simp only [hhigh, oddBytes, Option.map_none, Option.getD_none, append_nil] at hreads ⊢
    exact ⟨rfl, unit, rfl, hat, rfl, rfl, hreads⟩
  | none =>
    cases odd with
    | some o =>
      obtain ⟨start, a⟩ := o
      have hat : start = offset + (unitBytes high).length := hodd _ rfl
      rw [hat]
      refine secondUtf16Byte_spec ?_
      rwa [length_append, ← add_assoc] at hreads
    | none =>
      simp only [oddBytes, Option.map_none, Option.getD_none, append_nil] at hreads ⊢
      cases bytes with
      | nil =>
        simp only [nextUtf16Unit, Reads.take_nil hreads]
        exact ⟨⟨none, rfl, rfl, nofun⟩, rfl, hreads⟩
      | cons b bytes =>
        obtain ⟨next, cursor', htake, rfl, hoff, hreads', -⟩ := Reads.take_cons hreads
        simp only [nextUtf16Unit, htake, hoff]
        exact secondUtf16Byte_spec hreads'

/-- The two encodings of UTF-16. -/
structure IsUtf16 (encoding : Encoding) (endian : Endian) : Prop where
  classify_eq : ∀ bs, classify encoding bs = utf16Verdict endian bs
  holds_iff : ∀ state carry queued offset,
    Holds encoding (.utf16 state) carry queued offset ↔ Utf16Holds endian state carry queued offset

theorem isUtf16_le : IsUtf16 .utf16Le .little := ⟨fun _ => rfl, fun _ _ _ _ => Iff.rfl⟩

theorem isUtf16_be : IsUtf16 .utf16Be .big := ⟨fun _ => rfl, fun _ _ _ _ => Iff.rfl⟩

/-- A state with nothing open. -/
theorem utf16Holds_nil (endian : Endian) (offset : Nat) :
    Utf16Holds endian ⟨endian, none, none, none⟩ [] [] offset :=
  ⟨rfl, rfl, rfl, nofun, nofun, nofun⟩

section

variable (henc : IsUtf16 encoding endian)

include henc

theorem IsUtf16.holds_nil (offset : Nat) :
    Holds encoding (.utf16 ⟨endian, none, none, none⟩) [] [] offset :=
  (henc.holds_iff _ _ _ _).mpr (utf16Holds_nil _ _)

/-- One more byte is not a code unit. -/
theorem IsUtf16.scan_byte (high : Option Utf16Unit) (a : UInt8) :
    scan encoding (unitBytes high) [a] = none := by
  have hc : classify encoding (unitBytes high ++ [a]) = .incomplete := by
    rw [henc.classify_eq]
    cases high with
    | none | some => rfl
  rw [scan, hc]
  rfl

/-- **A round** reads a code unit, or there are too few bytes for one. -/
theorem Outcome.round {high : Option Utf16Unit}
    {r : Utf16State × ByteCursor × Except DecodeError (Option Utf16Unit)}
    (hhigh : ∀ unit ∈ high, UnitAt endian offset unit ∧ isHighSurrogate unit.value = true)
    (h : NextUnit base input endian high (offset + (unitBytes high).length) bytes r) :
    (∃ state' cursor', r = (state', cursor', .ok none) ∧
      Outcome policy base input encoding (unitBytes high) offset bytes (.utf16 state') cursor'
        (.ok none)) ∨
    ∃ cursor' unit rest, r = (⟨endian, none, high, none⟩, cursor', .ok (some unit)) ∧
      bytes = [unit.first] ++ unit.second :: rest ∧
      UnitAt endian (offset + (unitBytes high).length) unit ∧
      Reads base input cursor' rest (offset + (unitBytes high).length + 2) := by
  obtain ⟨state', cursor', result⟩ := r
  have hshort : ∀ short, scan encoding (unitBytes high) short = none →
      (∃ odd, state' = ⟨endian, odd, high, none⟩ ∧ oddBytes odd = short ∧
        ∀ o ∈ odd, o.1 = offset + (unitBytes high).length) →
      Reads base input cursor' [] (offset + (unitBytes high).length + short.length) →
      Outcome policy base input encoding (unitBytes high) offset short (.utf16 state') cursor'
        (.ok none) := by
    rintro short hscan ⟨odd, rfl, rfl, hat⟩ hreads
    rw [Outcome, hscan, henc.holds_iff, length_append, ← add_assoc]
    exact ⟨rfl, ⟨rfl, rfl, rfl, hhigh, hat, nofun⟩, hreads⟩
  rcases bytes with - | ⟨a, - | ⟨b, rest⟩⟩
  · obtain ⟨hodd, rfl, hreads⟩ := h
    exact .inl ⟨_, _, rfl, hshort _ rfl hodd hreads⟩
  · obtain ⟨hodd, rfl, hreads⟩ := h
    exact .inl ⟨_, _, rfl, hshort _ (henc.scan_byte high a) hodd hreads⟩
  · obtain ⟨rfl, unit, rfl, hat, rfl, rfl, hrest⟩ := h
    exact .inr ⟨_, unit, rest, rfl, rfl, hat, hrest⟩

/-- A round with a high surrogate in hand: the next code unit completes the pair, or waits. -/
theorem decodeUtf16_pair {fuel : Nat} {high : Utf16Unit} {endian' : Endian}
    {odd : Option (Nat × UInt8)} {waiting : Option Utf16Unit}
    (hholds : Utf16Holds endian ⟨endian', odd, some high, waiting⟩ carry queued offset)
    (hreads : Reads base input cursor bytes (offset + carry.length + queued.length)) :
    Outcome policy base input encoding high.bytes offset (oddBytes odd ++ queued ++ bytes)
      (.utf16 (decodeUtf16 policy (fuel + 1) ⟨endian', odd, some high, waiting⟩ cursor).1)
      (decodeUtf16 policy (fuel + 1) ⟨endian', odd, some high, waiting⟩ cursor).2.1
      (decodeUtf16 policy (fuel + 1) ⟨endian', odd, some high, waiting⟩ cursor).2.2 := by
  have hhigh := hholds.high_at
  rw [decodeUtf16]
  rcases Outcome.round henc hhigh (nextUtf16Unit_spec hholds hreads) with
    ⟨state', cursor', hr, hout⟩ | ⟨cursor', unit, rest, hr, hbytes, hat, hrest⟩
  · rwa [hr]
  · obtain ⟨⟨hstart, hstop, hvalue⟩, -⟩ := hhigh high rfl
    have hverdict : classify encoding (high.bytes ++ [unit.first] ++ [unit.second]) =
        if isLowSurrogate unit.value then .unit (.scalar (surrogatePair high.value unit.value))
        else .malformed 2 := by
      rw [henc.classify_eq, hvalue, hat.value_eq]
      rfl
    rw [hr, hbytes]
    refine (Outcome.append_iff _ (henc.scan_byte (some high) _)).mpr ?_
    by_cases hlow : isLowSurrogate unit.value = true
    · rw [if_pos hlow] at hverdict
      simp only [hlow, if_true]
      refine .unit hverdict ?_ (henc.holds_nil _) hrest
      rw [hstart, hat.stop_eq]
      rfl
    · rw [if_neg hlow] at hverdict
      simp only [hlow]
      refine .malformed high.bytes unit.bytes rest hverdict rfl rfl ?_ ?_ hrest
      · rw [hstart, hstop]
        rfl
      · rw [henc.holds_iff]
        refine ⟨rfl, rfl, rfl, nofun, nofun, fun u hu => ?_⟩
        cases hu
        exact ⟨hat, rfl⟩

end

/-- **The UTF-16 loop.** -/
theorem decodeUtf16_spec (fuel : Nat) (henc : IsUtf16 encoding endian)
    (hholds : Utf16Holds endian state carry queued offset)
    (hreads : Reads base input cursor bytes (offset + carry.length + queued.length)) :
    Outcome policy base input encoding carry offset (queued ++ bytes)
      (.utf16 (decodeUtf16 policy (fuel + 2) state cursor).1)
      (decodeUtf16 policy (fuel + 2) state cursor).2.1
      (decodeUtf16 policy (fuel + 2) state cursor).2.2 := by
  obtain ⟨endian', odd, high, waiting⟩ := state
  -- the odd byte is read before the rest
  have hodd : scan encoding (unitBytes high) (oddBytes odd) = none := by
    cases odd with
    | none => rfl
    | some o => exact henc.scan_byte high o.2
  rw [hholds.carry_eq]
  refine (Outcome.append_iff _ hodd).mp ?_
  rw [← append_assoc]
  cases high with
  | some high => exact decodeUtf16_pair henc hholds hreads
  | none =>
    rw [decodeUtf16]
    rcases Outcome.round henc hholds.high_at (nextUtf16Unit_spec hholds hreads) with
      ⟨state', cursor', hr, hout⟩ | ⟨cursor', unit, rest, hr, hbytes, hat, hrest⟩
    · rwa [hr]
    · have hverdict : classify encoding ([unit.first] ++ [unit.second]) =
          if isHighSurrogate unit.value then .incomplete
          else if isLowSurrogate unit.value then .malformed 2
          else .unit (.scalar (Char.ofNat unit.value)) := by
        rw [henc.classify_eq, hat.value_eq]
        rfl
      rw [hr, hbytes]
      refine (Outcome.append_iff _ (henc.scan_byte none _)).mpr ?_
      by_cases hhi : isHighSurrogate unit.value = true
      · rw [if_pos hhi] at hverdict
        simp only [hhi, if_true]
        have hopened : Utf16Holds endian ⟨endian, none, some unit, none⟩ unit.bytes [] offset := by
          refine ⟨rfl, rfl, rfl, fun u hu => ?_, nofun, nofun⟩
          cases hu
          exact ⟨hat, hhi⟩
        exact .cons hverdict (decodeUtf16_pair henc hopened hrest)
      · rw [if_neg hhi] at hverdict
        simp only [hhi]
        by_cases hlow : isLowSurrogate unit.value = true
        · rw [if_pos hlow] at hverdict
          simp only [hlow, if_true]
          refine .malformed unit.bytes [] rest hverdict rfl rfl ?_ (henc.holds_nil _) hrest
          rw [hat.start_eq, hat.stop_eq]
          rfl
        · rw [if_neg hlow] at hverdict
          simp only [hlow]
          refine .unit hverdict ?_ (henc.holds_nil _) hrest
          rw [hat.start_eq, hat.stop_eq]
          rfl

end

/-! ## The loop of an encoding -/

theorem Reads.length_lt (hreads : Reads base input cursor bytes offset) :
    bytes.length < cursor.replay.bytes.length + cursor.input.length + 2 := by
  rw [hreads.bytes_eq, hreads.input_eq, length_append, length_drop, length_drop]
  omega

/-- What a state can hold. -/
theorem Holds.cases {state : DecoderState} (h : Holds encoding state carry queued offset) :
    (∃ s, encoding = .utf8 ∧ state = .utf8 s ∧ s.bytes = carry ∧ queued = [] ∧
      (carry ≠ [] → s.start = offset)) ∨
    (encoding = .ascii ∧ state = .ascii ∧ carry = [] ∧ queued = []) ∨
    (encoding = .raw ∧ state = .raw ∧ carry = [] ∧ queued = []) ∨
    ∃ endian s, IsUtf16 encoding endian ∧ state = .utf16 s ∧
      Utf16Holds endian s carry queued offset := by
  cases encoding <;> cases state <;> try exact h.elim
  · exact .inl ⟨_, rfl, rfl, h⟩
  · exact .inr (.inl ⟨rfl, rfl, h⟩)
  · exact .inr (.inr (.inr ⟨_, _, isUtf16_le, rfl, h⟩))
  · exact .inr (.inr (.inr ⟨_, _, isUtf16_be, rfl, h⟩))
  · exact .inr (.inr (.inl ⟨rfl, rfl, h⟩))

/-- **What the decoder does after the probe.** -/
theorem StreamDecoder.decodeState_spec {d : StreamDecoder}
    (hholds : Holds encoding d.state carry queued offset) (hcarry : Carry encoding carry)
    (hreads : Reads base input cursor bytes (offset + carry.length + queued.length)) :
    ∃ state' cursor' result, d.decodeState cursor =
        ({ d.moved cursor' with state := state' }, cursor', result) ∧
      Outcome d.policy base input encoding carry offset
        (queued ++ bytes) state' cursor' result := by
  have hfuel := hreads.length_lt
  rcases hholds.cases with ⟨s, rfl, hstate, rfl, rfl, hstart⟩ | ⟨rfl, hstate, rfl, rfl⟩ |
    ⟨rfl, hstate, rfl, rfl⟩ | ⟨endian, s, henc, hstate, hs⟩
  · refine ⟨_, _, _, ?_, decodeUtf8_spec hreads hcarry hstart hfuel⟩
    simp [decodeState, hstate]
  · refine ⟨_, _, _, ?_, decodeAscii_spec hreads⟩
    simp [decodeState, moved, hstate]
  · refine ⟨_, _, _, ?_, decodeRaw_spec hreads⟩
    simp [decodeState, moved, hstate]
  · refine ⟨_, _, _, ?_, decodeUtf16_spec
      (cursor.replay.bytes.length + cursor.input.length) henc hs hreads⟩
    simp [decodeState, hstate]

end OtapDataflow.Filelog
