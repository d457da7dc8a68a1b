import OtapDataflow.Lib.Bitmap
import OtapDataflow.Lib.Bytes
import OtapDataflow.Lib.Word

/-! # The on-disk format of the write-ahead log

The file header, the framed entry and the cursor sidecar, as the writer produces them and as
the reader parses them, byte by byte.  An entry is

    u32 len | u8 type, i64 timestamp, u64 sequence, u64 slot bitmap | slots | u32 crc

with one block per populated slot: u16 id, 32 bytes of schema fingerprint, u32 rows,
u32 payload length, payload.

Arrow IPC and CRC-32 are parameters (`Codec`). -/

namespace OtapDataflow.Wal

open Bytes

/-! ## Errors -/

inductive IoError where
  | notFound
  | unexpectedEof
  | other
  deriving Repr, DecidableEq

inductive WalError where
  | io (kind : IoError)
  | invalidHeader (reason : String)
  | slotOutOfRange (slot : Nat)
  | rowCountOverflow (rows : Nat)
  | payloadTooLarge (len : Nat)
  | entryTooLarge (len : Nat)
  | invalidTimestamp
  | unexpectedEof (context : String)
  | crcMismatch (stored computed : Nat)
  | unsupportedEntry (entryType : UInt8)
  | invalidEntry (context : String)
  | segmentConfigMismatch (expected found : Bytes)
  | invalidCursorSidecar (reason : String)
  | invalidConsumerCursor (reason : String)
  | arrow
  | walAtCapacity (reason : String)
  | invalidConfig (reason : String)
  deriving Repr, DecidableEq

/-! ## Bundles -/

/-- What the log uses of third-party code: the number of rows of a batch, its Arrow IPC
stream (which may fail), and the checksum. -/
structure Codec (β : Type) where
  numRows : β → Nat
  ipc : β → Option Bytes
  crc32 : Bytes → UInt32

abbrev SlotId := Nat

/-- A schema fingerprint of `SCHEMA_FINGERPRINT_LEN` bytes. -/
abbrev SchemaFingerprint := { bytes : Bytes // bytes.length = 32 }

structure PayloadRef (β : Type) where
  schemaFingerprint : SchemaFingerprint
  batch : β

/-- A bundle as an adapter hands it over: the slots of its descriptor in order, its
ingestion time in nanoseconds relative to the epoch, and the payloads it has. -/
structure RecordBundle (β : Type) where
  slots : List SlotId
  ingestionTime : Int
  payload : SlotId → Option (PayloadRef β)

/-! ## Sizes -/

def entryTypeRecordBundle : UInt8 := 0

/-- `ENTRY_HEADER_LEN`: type, timestamp, sequence and bitmap. -/
def entryHeaderLen : Nat := 25

/-- `SLOT_HEADER_LEN`: id, fingerprint, row count and payload length. -/
def slotHeaderLen : Nat := 42

/-- `MAX_ROTATION_TARGET_BYTES`, 256 MiB. -/
def maxRotationTargetBytes : Nat := 256 * 1024 * 1024

/-- `MAX_ENTRY_SIZE` of the reader. -/
def maxEntrySize : Nat := maxRotationTargetBytes

def u32Max : Nat := 2 ^ 32 - 1

def i64Max : Nat := 2 ^ 63 - 1

/-! ## Encoding an entry -/

def systemTimeToNanos (time : Int) : Except WalError Nat :=
  if time < 0 then .error .invalidTimestamp
  else if time.toNat ≤ i64Max then .ok time.toNat
  else .error .invalidTimestamp

section

variable {β : Type} (codec : Codec β)

/-- The bytes that `encode_slot_into_buffer` appends for one slot. -/
def encodeSlot (slot : SlotId) (payload : PayloadRef β) : Except WalError Bytes :=
  if u32Max < codec.numRows payload.batch then
    .error (.rowCountOverflow (codec.numRows payload.batch))
  else
    match codec.ipc payload.batch with
    | none => .error .arrow
    | some bytes =>
      if u32Max < bytes.length then .error (.payloadTooLarge bytes.length)
      else
        .ok (leBytes 2 slot ++ payload.schemaFingerprint.1 ++
          leBytes 4 (codec.numRows payload.batch) ++ leBytes 4 bytes.length ++ bytes)

/-- The single pass over the descriptor: check each slot id, set its bit and append its
block when it is populated. -/
def encodeSlots (bundle : RecordBundle β) :
    List SlotId → Bitmap.Word → Bytes → Except WalError (Bitmap.Word × Bytes)
  | [], bitmap, buffer => .ok (bitmap, buffer)
  | slot :: slots, bitmap, buffer =>
    if 64 ≤ slot then .error (.slotOutOfRange slot)
    else
      match bundle.payload slot with
      | none => encodeSlots bundle slots bitmap buffer
      | some payload =>
        match encodeSlot codec slot payload with
        | .error e => .error e
        | .ok block => encodeSlots bundle slots (bitmap ||| Bitmap.mask slot) (buffer ++ block)

/-- The fixed header of an entry. -/
def entryHeader (timestamp : Nat) (sequence : UInt64) (bitmap : Bitmap.Word) : Bytes :=
  entryTypeRecordBundle ::
    (leBytes 8 timestamp ++ leBytes 8 sequence.toNat ++ leBytes 8 bitmap.toNat)

/-- The body of an entry, which is what its length counts and its checksum covers. -/
def encodeBody (bundle : RecordBundle β) (sequence : UInt64) : Except WalError Bytes :=
  match systemTimeToNanos bundle.ingestionTime with
  | .error e => .error e
  | .ok timestamp =>
    match encodeSlots codec bundle bundle.slots 0#64 [] with
    | .error e => .error e
    | .ok (bitmap, payload) =>
      if u32Max < entryHeaderLen + payload.length then
        .error (.entryTooLarge (entryHeaderLen + payload.length))
      else .ok (entryHeader timestamp sequence bitmap ++ payload)

/-- The frame written for a body. -/
def frame (body : Bytes) : Bytes :=
  leBytes 4 body.length ++ body ++ leBytes 4 (codec.crc32 body).toNat

end

/-! ## Decoding an entry

The parser's cursor is kept as the bytes that are still to be read. -/

/-- `slice_bytes` -/
def sliceBytes (len : Nat) (context : String) (rest : Bytes) :
    Except WalError ({ field : Bytes // field.length = len } × Bytes) :=
  match split len rest with
  | none => .error (.invalidEntry context)
  | some r => .ok r

/-- The common part of `read_u16`, `read_u32` and `read_u64`. -/
def readLe (width : Nat) (context : String) (rest : Bytes) : Except WalError (Nat × Bytes) :=
  (sliceBytes width context rest).map fun (field, rest) => (ofLe field.1, rest)

def readU16 : String → Bytes → Except WalError (Nat × Bytes) := readLe 2

def readU32 : String → Bytes → Except WalError (Nat × Bytes) := readLe 4

def readU64 : String → Bytes → Except WalError (Nat × Bytes) := readLe 8

/-- The value of a two's complement `i64`. -/
def toI64 (n : Nat) : Int := if n ≤ i64Max then n else n - 2 ^ 64

def readI64 (context : String) (rest : Bytes) : Except WalError (Int × Bytes) :=
  (readLe 8 context rest).map fun (n, rest) => (toI64 n, rest)

structure DecodedWalSlot where
  slotId : SlotId
  schemaFingerprint : SchemaFingerprint
  rowCount : Nat
  payloadLen : Nat
  payload : Bytes
  deriving DecidableEq

/-- Opaque marker returned after an append. -/
structure WalOffset where
  position : Nat
  nextOffset : Nat
  sequence : UInt64
  deriving Repr, DecidableEq

structure WalRecordBundle where
  offset : WalOffset
  nextOffset : Nat
  ingestionTsNanos : Int
  sequence : UInt64
  slotBitmap : Bitmap.Word
  slots : List DecodedWalSlot
  deriving DecidableEq

/-- One round of the slot loop of `decode_entry`. -/
def decodeSlot (rest : Bytes) : Except WalError (DecodedWalSlot × Bytes) :=
  if rest.length < slotHeaderLen then .error (.invalidEntry "slot header truncated")
  else do
    let (slotId, rest) ← readU16 "slot id" rest
    let (schemaFingerprint, rest) ← sliceBytes 32 "schema fingerprint" rest
    let (rowCount, rest) ← readU32 "row count" rest
    let (payloadLen, rest) ← readU32 "payload length" rest
    let (payload, rest) ← sliceBytes payloadLen "slot payload" rest
    return ({ slotId, schemaFingerprint, rowCount, payloadLen, payload := payload.1 }, rest)

/-- The slot loop of `decode_entry`, which runs once per bit of the bitmap. -/
def decodeSlots : Nat → Bytes → Except WalError (List DecodedWalSlot × Bytes)
  | 0, rest => .ok ([], rest)
  | n + 1, rest => do
    let (slot, rest) ← decodeSlot rest
    let (slots, rest) ← decodeSlots n rest
    return (slot :: slots, rest)

/-- `decode_entry`; the position is where the entry starts in the log, the next offset where
it ends. -/
def decodeEntry (position nextOffset : Nat) (body : Bytes) : Except WalError WalRecordBundle :=
  if body.length < entryHeaderLen then .error (.invalidEntry "body shorter than header")
  else
    match body with
    | [] => .error (.invalidEntry "body shorter than header")
    | entryType :: rest =>
      if entryType ≠ entryTypeRecordBundle then .error (.unsupportedEntry entryType)
      else do
        let (ingestionTsNanos, rest) ← readI64 "ingestion timestamp" rest
        let (sequence, rest) ← readU64 "sequence" rest
        let (bitmap, rest) ← readU64 "slot bitmap" rest
        let slotBitmap := BitVec.ofNat 64 bitmap
        let (slots, rest) ← decodeSlots (Bitmap.popcount slotBitmap) rest
        if rest.length ≠ 0 then .error (.invalidEntry "unexpected trailing bytes")
        else
          return {
            offset := { position, nextOffset, sequence := UInt64.ofNat sequence }
            nextOffset
            ingestionTsNanos
            sequence := UInt64.ofNat sequence
            slotBitmap
            slots }

/-! ## The file header -/

def walMagic : Bytes := [81, 85, 73, 86, 69, 82, 0, 87, 65, 76]

def walVersion : Nat := 1

def walHeaderMinLen : Nat := 14

def headerV1Len : Nat := 38

structure WalHeader where
  segmentCfgHash : { hash : Bytes // hash.length = 16 }
  walPositionStart : Nat
  headerSize : Nat
  deriving DecidableEq

namespace WalHeader

/-- `WalHeader::with_base_offset`; `WalHeader::new` is the case of position `0`. -/
def withBaseOffset (hash : { hash : Bytes // hash.length = 16 }) (walPositionStart : Nat) :
    WalHeader :=
  { segmentCfgHash := hash, walPositionStart, headerSize := headerV1Len }

def encode (h : WalHeader) : Bytes :=
  walMagic ++ leBytes 2 walVersion ++ leBytes 2 headerV1Len ++ h.segmentCfgHash.1 ++
    leBytes 8 h.walPositionStart

/-- Read a header off the front of a file: `read_from`, `read_from_sync` and the `decode` they
end in, whose first checks repeat the ones made here. -/
def readFrom (file : Bytes) : Except WalError WalHeader :=
  match split 10 file with
  | none => .error (.io .unexpectedEof)
  | some (magic, rest) =>
    match split 2 rest with
    | none => .error (.io .unexpectedEof)
    | some (version, rest) =>
      match split 2 rest with
      | none => .error (.io .unexpectedEof)
      | some (size, rest) =>
        if magic.1 ≠ walMagic then .error (.invalidHeader "magic mismatch")
        else if ofLe version.1 ≠ walVersion then .error (.invalidHeader "unsupported version")
        else if ofLe size.1 < walHeaderMinLen then .error (.invalidHeader "header size too small")
        else if file.length < ofLe size.1 then .error (.io .unexpectedEof)
        else if ofLe size.1 < headerV1Len then
          .error (.invalidHeader "header too small for required fields")
        else
          match split 16 rest with
          | none => .error (.io .unexpectedEof)
          | some (hash, rest) =>
            match split 8 rest with
            | none => .error (.io .unexpectedEof)
            | some (start, _) =>
              .ok { segmentCfgHash := hash, walPositionStart := ofLe start.1,
                    headerSize := ofLe size.1 }

/-- `read_header_size` -/
def readHeaderSize (file : Bytes) : Except WalError Nat :=
  match split 10 file with
  | none => .error (.io .unexpectedEof)
  | some (magic, rest) =>
    match split 2 rest with
    | none => .error (.io .unexpectedEof)
    | some (version, rest) =>
      match split 2 rest with
      | none => .error (.io .unexpectedEof)
      | some (size, _) =>
        if magic.1 ≠ walMagic then .error (.invalidHeader "magic mismatch")
        else if ofLe version.1 ≠ walVersion then .error (.invalidHeader "unsupported version")
        else if ofLe size.1 < walHeaderMinLen then .error (.invalidHeader "header size too small")
        else .ok (ofLe size.1)

end WalHeader

/-! ## The cursor sidecar -/

def cursorSidecarMagic : Bytes := [81, 85, 73, 86, 69, 82, 0, 84]

def cursorSidecarVersion : Nat := 1

def sidecarMinLen : Nat := 12

def sidecarV1Len : Nat := 24

/-- The sidecar up to its checksum. -/
def sidecarFields (walPosition : Nat) : Bytes :=
  cursorSidecarMagic ++ leBytes 2 cursorSidecarVersion ++ leBytes 2 sidecarV1Len ++
    leBytes 8 walPosition

/-- `CursorSidecar::encode` -/
def encodeSidecar {β : Type} (codec : Codec β) (walPosition : Nat) : Bytes :=
  sidecarFields walPosition ++ leBytes 4 (codec.crc32 (sidecarFields walPosition)).toNat

/-- `CursorSidecar::read_from`: `read_size`, the full read and `decode`. -/
def readSidecar {β : Type} (codec : Codec β) (file : Bytes) : Except WalError Nat :=
  if file.length < sidecarMinLen then .error (.io .unexpectedEof)
  else if file.take 8 ≠ cursorSidecarMagic then .error (.invalidCursorSidecar "magic mismatch")
  else
    let version := ofLe ((file.drop 8).take 2)
    let size := ofLe ((file.drop 10).take 2)
    if size < sidecarMinLen then .error (.invalidCursorSidecar "size too small")
    else if file.length < size then .error (.io .unexpectedEof)
    else if version = cursorSidecarVersion ∧ size ≠ sidecarV1Len then
      .error (.invalidCursorSidecar "invalid v1 size")
    else if cursorSidecarVersion < version ∧ size < sidecarV1Len then
      .error (.invalidCursorSidecar "future version too small for v1 fields")
    else if version < cursorSidecarVersion then
      .error (.invalidCursorSidecar "unsupported version")
    else
      let covered := file.take (size - 4)
      if ofLe ((file.drop (size - 4)).take 4) ≠ (codec.crc32 covered).toNat then
        .error (.invalidCursorSidecar "crc mismatch")
      else .ok (ofLe ((file.drop 12).take 8))

/-- `load_cursor_state`: a missing or invalid sidecar is the start of the log. -/
def loadCursorState {β : Type} (codec : Codec β) (sidecar : Option Bytes) :
    Except WalError Nat :=
  match sidecar with
  | none => .ok 0
  | some file =>
    match readSidecar codec file with
    | .ok position => .ok position
    | .error (.invalidCursorSidecar _) => .ok 0
    | .error (.io .notFound) => .ok 0
    | .error (.io .unexpectedEof) => .ok 0
    | .error e => .error e

/-! # Reading back what was written

An accepted bundle is written as the encoding of its slots (`encodeBody_ok`), and the parser
gives those slots back exactly when no populated slot id occurs twice: the bitmap counts ids,
the body holds one block per descriptor slot (`decodeEntry_ok`, `decodeEntry_duplicate`). -/

open List DecodedWalSlot Bitmap

/-- The hash of a segment configuration. -/
abbrev CfgHash := { hash : Bytes // hash.length = 16 }

/-! ## Fields -/

variable {n : Nat} {ids : List SlotId} {position : Nat}

theorem readLe_append {width : Nat} {context : String} {rest : Bytes} (h : n < 256 ^ width) :
    readLe width context (leBytes width n ++ rest) = .ok (n, rest) := by
  unfold readLe sliceBytes
  rw [split_append (length_leBytes width n)]
  simp [Except.map, ofLe_leBytes h]

theorem sliceBytes_append {len : Nat} {context : String} {field rest : Bytes}
    (h : field.length = len) : sliceBytes len context (field ++ rest) = .ok (⟨field, h⟩, rest) := by
  unfold sliceBytes
  rw [split_append h]

/-! ## Slots -/

namespace DecodedWalSlot

/-- The block of a slot. -/
def encode (s : DecodedWalSlot) : Bytes :=
  leBytes 2 s.slotId ++ s.schemaFingerprint.1 ++ leBytes 4 s.rowCount ++ leBytes 4 s.payloadLen ++
    s.payload

/-- The values fit their fields. -/
structure Fits (s : DecodedWalSlot) : Prop where
  slotId : s.slotId < 64
  rowCount : s.rowCount ≤ u32Max
  payloadLen : s.payloadLen = s.payload.length
  payload_le : s.payload.length ≤ u32Max

theorem length_encode (s : DecodedWalSlot) :
    s.encode.length = slotHeaderLen + s.payload.length := by
  simp [encode, s.schemaFingerprint.2, slotHeaderLen]
  omega

end DecodedWalSlot

theorem decodeSlot_encode {s : DecodedWalSlot} (h : s.Fits) (rest : Bytes) :
    decodeSlot (s.encode ++ rest) = .ok (s, rest) := by
  have hlen : ¬ (s.encode ++ rest).length < slotHeaderLen := by
    rw [length_append, s.length_encode]
    omega
  have hid : s.slotId < 256 ^ 2 := lt_trans h.slotId (by decide)
  have hrows : s.rowCount < 256 ^ 4 := lt_of_le_of_lt h.rowCount (by decide)
  have hpay : s.payloadLen < 256 ^ 4 := by
    rw [h.payloadLen]
    exact lt_of_le_of_lt h.payload_le (by decide)
  unfold decodeSlot
  rw [if_neg hlen]
  simp only [encode, append_assoc, readU16, readU32]
  rw [readLe_append hid]
  simp only [bind, Except.bind]
  rw [sliceBytes_append s.schemaFingerprint.2]
  simp only
  rw [readLe_append hrows]
  simp only
  rw [readLe_append hpay]
  simp only
  rw [sliceBytes_append h.payloadLen.symm]
  rfl

variable {slots : List DecodedWalSlot}

/-- The slot loop reads off the first `n` blocks. -/
theorem decodeSlots_encode (h : ∀ s ∈ slots, s.Fits) (hn : n ≤ slots.length) :
    decodeSlots n (slots.flatMap encode) =
      .ok (slots.take n, (slots.drop n).flatMap encode) := by
  induction n generalizing slots with
  | zero => rfl
  | succ n ih =>
    cases slots with
    | nil => simp at hn
    | cons s slots =>
      have hs := h s mem_cons_self
      have hrest := ih (fun s' hs' => h s' (mem_cons_of_mem _ hs')) (by simpa using hn)
      rw [flatMap_cons, decodeSlots, decodeSlot_encode hs]
      simp only [bind, Except.bind]
      rw [hrest]
      rfl

/-! ## The bitmap -/

/-- The bitmap of a list of slot ids. -/
def bitmapOf (ids : List SlotId) : Bitmap.Word := ids.foldl (fun acc id => acc ||| mask id) 0#64

theorem getLsbD_foldl_mask (ids : List SlotId) (acc : Bitmap.Word) {j : Nat} (hj : j < 64) :
    (ids.foldl (fun acc id => acc ||| mask id) acc).getLsbD j =
      (acc.getLsbD j || decide (j ∈ ids)) := by
  induction ids generalizing acc with
  | nil => simp
  | cons id ids ih =>
    rw [foldl_cons, ih, BitVec.getLsbD_or, mask_getLsbD hj, Bool.or_assoc]
    by_cases hid : j = id
    · simp [hid]
    · simp [hid, Ne.symm hid]

/-- The bitmap has one bit per distinct id. -/
theorem popcount_bitmapOf (h : ∀ id ∈ ids, id < 64) :
    popcount (bitmapOf ids) = ids.toFinset.card := by
  have hbits : (List.range 64).filter (fun j => decide (j ∈ ids)) =
      (List.range 64).filter (bitmapOf ids).getLsbD := by
    apply filter_congr
    intro j hj
    rw [bitmapOf, getLsbD_foldl_mask ids _ (mem_range.mp hj)]
    simp
  have hset : ((List.range 64).filter (fun j => decide (j ∈ ids))).toFinset = ids.toFinset := by
    ext j
    simpa using h j
  rw [popcount, countP_eq_length_filter, ← hbits, ← hset,
    toFinset_card_of_nodup (nodup_range.filter _)]

theorem popcount_bitmapOf_of_nodup (h : ∀ id ∈ ids, id < 64) (hnd : ids.Nodup) :
    popcount (bitmapOf ids) = ids.length := by
  rw [popcount_bitmapOf h, toFinset_card_of_nodup hnd]

theorem popcount_bitmapOf_lt (h : ∀ id ∈ ids, id < 64) (hdup : ¬ ids.Nodup) :
    popcount (bitmapOf ids) < ids.length := by
  rw [popcount_bitmapOf h, card_toFinset]
  apply lt_of_le_of_ne (dedup_sublist ids).length_le
  intro heq
  exact hdup (dedup_eq_self.mp ((dedup_sublist ids).eq_of_length heq))

/-! ## Bodies -/

variable {β : Type}

section

variable (codec : Codec β)

/-- A populated slot as a reader should see it. -/
def slotOf (slot : SlotId) (payload : PayloadRef β) : DecodedWalSlot :=
  { slotId := slot
    schemaFingerprint := payload.schemaFingerprint
    rowCount := codec.numRows payload.batch
    payloadLen := ((codec.ipc payload.batch).getD []).length
    payload := (codec.ipc payload.batch).getD [] }

/-- The populated slots of a descriptor, in its order. -/
def populated (bundle : RecordBundle β) (slots : List SlotId) : List DecodedWalSlot :=
  slots.filterMap fun slot => (bundle.payload slot).map (slotOf codec slot)

/-- The record a reader should return for a bundle that was appended at an offset. -/
def recordOf (bundle : RecordBundle β) (offset : WalOffset) : WalRecordBundle :=
  { offset
    nextOffset := offset.nextOffset
    ingestionTsNanos := bundle.ingestionTime
    sequence := offset.sequence
    slotBitmap := bitmapOf ((populated codec bundle bundle.slots).map slotId)
    slots := populated codec bundle bundle.slots }

variable {codec}

theorem encodeSlot_ok {slot : SlotId} {payload : PayloadRef β} {block : Bytes} (hid : slot < 64)
    (h : encodeSlot codec slot payload = .ok block) :
    (slotOf codec slot payload).Fits ∧ block = (slotOf codec slot payload).encode := by
  unfold encodeSlot at h
  split at h
  · cases h
  · rename_i hrows
    cases hipc : codec.ipc payload.batch with
    | none =>
      rw [hipc] at h
      cases h
    | some bytes =>
      rw [hipc] at h
      dsimp only at h
      split at h
      · cases h
      · rename_i hlen
        have hslot : slotOf codec slot payload =
            ⟨slot, payload.schemaFingerprint, codec.numRows payload.batch,
              bytes.length, bytes⟩ := by
          simp [slotOf, hipc]
        rw [hslot]
        exact ⟨⟨hid, not_lt.mp hrows, rfl, not_lt.mp hlen⟩, (Except.ok.inj h).symm⟩

variable {bundle : RecordBundle β} {sequence : UInt64} {body : Bytes}

/-- The single pass writes the populated slots one after the other and sets their bits. -/
theorem encodeSlots_ok {slots : List SlotId} {bitmap bitmap' : Bitmap.Word} {buffer buffer' : Bytes}
    (h : encodeSlots codec bundle slots bitmap buffer = .ok (bitmap', buffer')) :
    (∀ s ∈ populated codec bundle slots, s.Fits) ∧
      bitmap' = ((populated codec bundle slots).map slotId).foldl
        (fun acc id => acc ||| mask id) bitmap ∧
      buffer' = buffer ++ (populated codec bundle slots).flatMap encode := by
  induction slots generalizing bitmap buffer with
  | nil =>
    cases h
    simp [populated]
  | cons slot slots ih =>
    rw [encodeSlots] at h
    split at h
    · cases h
    · rename_i hid
      cases hp : bundle.payload slot with
      | none =>
        rw [hp] at h
        have hpop : populated codec bundle (slot :: slots) = populated codec bundle slots := by
          simp [populated, hp]
        rw [hpop]
        exact ih h
      | some payload =>
        rw [hp] at h
        dsimp only at h
        cases hblock : encodeSlot codec slot payload with
        | error e =>
          rw [hblock] at h
          cases h
        | ok block =>
          rw [hblock] at h
          obtain ⟨hfits, rfl⟩ := encodeSlot_ok (not_le.mp hid) hblock
          obtain ⟨hall, hbits, hbytes⟩ := ih h
          have hpop : populated codec bundle (slot :: slots) =
              slotOf codec slot payload :: populated codec bundle slots := by
            simp [populated, hp]
          rw [hpop]
          refine ⟨forall_mem_cons.mpr ⟨hfits, hall⟩, hbits, ?_⟩
          rw [hbytes, flatMap_cons, append_assoc]

theorem systemTimeToNanos_ok {time : Int} {nanos : Nat} (h : systemTimeToNanos time = .ok nanos) :
    time = nanos ∧ nanos ≤ i64Max := by
  unfold systemTimeToNanos at h
  split at h
  · cases h
  · split at h
    · rename_i hneg hle
      cases h
      exact ⟨(Int.toNat_of_nonneg (Int.not_lt.mp hneg)).symm, hle⟩
    · cases h

/-- What an accepted bundle is written as. -/
theorem encodeBody_ok (h : encodeBody codec bundle sequence = .ok body) :
    (∀ s ∈ populated codec bundle bundle.slots, s.Fits) ∧
      (∃ nanos : Nat, bundle.ingestionTime = nanos ∧ nanos ≤ i64Max ∧
        body = entryHeader nanos sequence
            (bitmapOf ((populated codec bundle bundle.slots).map slotId)) ++
          (populated codec bundle bundle.slots).flatMap encode) ∧
      entryHeaderLen ≤ body.length ∧ body.length ≤ u32Max := by
  unfold encodeBody at h
  cases htime : systemTimeToNanos bundle.ingestionTime with
  | error e =>
    rw [htime] at h
    cases h
  | ok nanos =>
    rw [htime] at h
    cases hslots : encodeSlots codec bundle bundle.slots 0#64 [] with
    | error e =>
      rw [hslots] at h
      cases h
    | ok r =>
      obtain ⟨bitmap, payload⟩ := r
      rw [hslots] at h
      dsimp only at h
      split at h
      · cases h
      · rename_i hlen
        cases h
        obtain ⟨hfits, hbits, hbytes⟩ := encodeSlots_ok hslots
        obtain ⟨htime', hle⟩ := systemTimeToNanos_ok htime
        have hheader : (entryHeader nanos sequence bitmap).length = entryHeaderLen := by
          simp [entryHeader, entryHeaderLen]
        refine ⟨hfits, ⟨nanos, htime', hle, ?_⟩, ?_, ?_⟩
        · rw [hbytes, hbits, nil_append]
          rfl
        · rw [length_append, hheader]
          omega
        · rw [length_append, hheader]
          exact not_lt.mp hlen

/-! ## Entries -/

theorem toI64_of_le (h : n ≤ i64Max) : toI64 n = n := if_pos h

theorem length_flatMap_encode_pos (h : slots ≠ []) : (slots.flatMap encode).length ≠ 0 := by
  obtain ⟨s, slots, rfl⟩ := exists_cons_of_ne_nil h
  rw [flatMap_cons, length_append, s.length_encode]
  simp [slotHeaderLen]

/-- The parser up to the slot loop. -/
theorem decodeEntry_eq {nextOffset nanos : Nat} {bitmap : Bitmap.Word} {payload : Bytes}
    (hn : nanos ≤ i64Max) :
    decodeEntry position nextOffset (entryHeader nanos sequence bitmap ++ payload) =
      match decodeSlots (popcount bitmap) payload with
      | .error e => .error e
      | .ok (slots, rest) =>
        if rest.length ≠ 0 then .error (.invalidEntry "unexpected trailing bytes")
        else .ok ⟨⟨position, nextOffset, sequence⟩, nextOffset, nanos,
          sequence, bitmap, slots⟩ := by
  have hlen : ¬ (entryHeader nanos sequence bitmap ++ payload).length < entryHeaderLen := by
    simp [entryHeader, entryHeaderLen]
    omega
  have hnanos : nanos < 256 ^ 8 := lt_of_le_of_lt hn (by decide)
  unfold decodeEntry
  simp only [entryHeader, cons_append, append_assoc, ne_eq, not_true_eq_false,
    if_false, readI64, readU64]
  rw [readLe_append hnanos]
  simp only [Except.map, bind, Except.bind, toI64_of_le hn]
  rw [readLe_append sequence.toNat_lt]
  simp only
  rw [readLe_append bitmap.isLt]
  simp only [BitVec.ofNat_toNat, BitVec.setWidth_eq, UInt64.ofNat_toNat]
  cases decodeSlots (popcount bitmap) payload with
  | error | ok => rfl

theorem slotIds_lt (hfits : ∀ s ∈ slots, s.Fits) : ∀ id ∈ slots.map slotId, id < 64 :=
  forall_mem_map.mpr fun s hs => (hfits s hs).slotId

/-- An accepted bundle without duplicate populated slots reads back as itself. -/
theorem decodeEntry_ok (offset : WalOffset) (h : encodeBody codec bundle offset.sequence = .ok body)
    (hnd : ((populated codec bundle bundle.slots).map slotId).Nodup) :
    decodeEntry offset.position offset.nextOffset body = .ok (recordOf codec bundle offset) := by
  obtain ⟨hfits, ⟨nanos, htime, hn, rfl⟩, -⟩ := encodeBody_ok h
  rw [decodeEntry_eq hn, popcount_bitmapOf_of_nodup (slotIds_lt hfits) hnd, length_map,
    decodeSlots_encode hfits (le_refl _)]
  simp [recordOf, htime]

/-- With a duplicate the bitmap has fewer bits than there are blocks, and the parser rejects
the entry. -/
theorem decodeEntry_duplicate {nextOffset : Nat} (h : encodeBody codec bundle sequence = .ok body)
    (hdup : ¬ ((populated codec bundle bundle.slots).map slotId).Nodup) :
    decodeEntry position nextOffset body = .error (.invalidEntry "unexpected trailing bytes") := by
  obtain ⟨hfits, ⟨nanos, -, hn, rfl⟩, -⟩ := encodeBody_ok h
  have hlt := popcount_bitmapOf_lt (slotIds_lt hfits) hdup
  rw [length_map] at hlt
  have hrest : (populated codec bundle bundle.slots).drop
      (popcount (bitmapOf ((populated codec bundle bundle.slots).map
        slotId))) ≠ [] := by
    rw [Ne, drop_eq_nil_iff]
    omega
  rw [decodeEntry_eq hn, decodeSlots_encode hfits hlt.le]
  exact if_pos (length_flatMap_encode_pos hrest)

end

/-! ## Headers and sidecars -/

theorem WalHeader.length_encode (h : WalHeader) : h.encode.length = headerV1Len := by
  simp [WalHeader.encode, walMagic, h.segmentCfgHash.2, headerV1Len]

theorem WalHeader.readFrom_encode {hash : CfgHash} {start : Nat}
    (hstart : start < 2 ^ 64) (rest : Bytes) :
    WalHeader.readFrom ((WalHeader.withBaseOffset hash start).encode ++ rest) =
      .ok (WalHeader.withBaseOffset hash start) := by
  have hlen : headerV1Len ≤ ((WalHeader.withBaseOffset hash start).encode ++ rest).length := by
    rw [length_append, WalHeader.length_encode]
    omega
  have hsize : ofLe (leBytes 2 headerV1Len) = headerV1Len := ofLe_leBytes (by decide)
  have hversion : ofLe (leBytes 2 walVersion) = walVersion := ofLe_leBytes (by decide)
  have hpos : ofLe (leBytes 8 start) = start := ofLe_leBytes hstart
  have hfile : (WalHeader.withBaseOffset hash start).encode ++ rest =
      walMagic ++ (leBytes 2 walVersion ++ (leBytes 2 headerV1Len ++
        (hash.1 ++ (leBytes 8 start ++ rest)))) := by
    simp [WalHeader.encode, WalHeader.withBaseOffset]
  rw [hfile] at hlen ⊢
  unfold WalHeader.readFrom
  rw [split_append (show walMagic.length = 10 from rfl)]
  simp only
  rw [split_append (length_leBytes 2 walVersion)]
  simp only
  rw [split_append (length_leBytes 2 headerV1Len)]
  simp only [hversion, hsize]
  rw [split_append hash.2]
  simp only
  rw [split_append (length_leBytes 8 start)]
  simp only [ne_eq, not_true_eq_false, if_false, hpos]
  rw [if_neg (by decide), if_neg (not_lt.mpr hlen), if_neg (by decide)]
  rfl

theorem WalHeader.readHeaderSize_encode (h : WalHeader) (rest : Bytes) :
    WalHeader.readHeaderSize (h.encode ++ rest) = .ok headerV1Len := by
  unfold WalHeader.readHeaderSize
  simp only [WalHeader.encode, append_assoc]
  rw [split_append (show walMagic.length = 10 from rfl)]
  simp only
  rw [split_append (length_leBytes 2 walVersion)]
  simp only
  rw [split_append (length_leBytes 2 headerV1Len)]
  exact if_neg (by decide)

/-- A written sidecar reads back as the position it was written with. -/
theorem readSidecar_encode {codec : Codec β} (h : position < 2 ^ 64) :
    readSidecar codec (encodeSidecar codec position) = .ok position := by
  have hpos : ofLe (leBytes 8 position) = position := ofLe_leBytes h
  have hcrc : ofLe (leBytes 4 (codec.crc32 (sidecarFields position)).toNat) =
      (codec.crc32 (sidecarFields position)).toNat := ofLe_leBytes (UInt32.toNat_lt _)
  have hlen : (sidecarFields position).length = 20 := by
    simp [sidecarFields, cursorSidecarMagic]
  have htail : (encodeSidecar codec position).drop 20 =
      leBytes 4 (codec.crc32 (sidecarFields position)).toNat := drop_left' hlen
  have hfields : (encodeSidecar codec position).take 20 = sidecarFields position :=
    take_left' hlen
  have hmid : ((encodeSidecar codec position).drop 12).take 8 = leBytes 8 position := by
    simp [encodeSidecar, sidecarFields, cursorSidecarMagic, leBytes]
  have hver : ((encodeSidecar codec position).drop 8).take 2 = [1, 0] := by
    simp [encodeSidecar, sidecarFields, cursorSidecarMagic, leBytes, cursorSidecarVersion]
  have hsize : ((encodeSidecar codec position).drop 10).take 2 = [24, 0] := by
    simp [encodeSidecar, sidecarFields, cursorSidecarMagic, leBytes, sidecarV1Len]
  have hmagic : (encodeSidecar codec position).take 8 = cursorSidecarMagic := by
    simp [encodeSidecar, sidecarFields, cursorSidecarMagic]
  have htotal : (encodeSidecar codec position).length = 24 := by
    rw [encodeSidecar, length_append, hlen, length_leBytes]
  have h24 : ofLe [24, 0] = 24 := rfl
  have h1 : ofLe [1, 0] = 1 := rfl
  unfold readSidecar
  simp only [hver, hsize, hmagic, htotal, hmid, h24, h1, hpos, hfields, htail]
  simp [sidecarMinLen, cursorSidecarVersion, sidecarV1Len, hcrc, take_of_length_le]

theorem loadCursorState_encode {codec : Codec β} (h : position < 2 ^ 64) :
    loadCursorState codec (some (encodeSidecar codec position)) = .ok position := by
  simp [loadCursorState, readSidecar_encode h]

end OtapDataflow.Wal
