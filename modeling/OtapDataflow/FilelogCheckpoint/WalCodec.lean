import OtapDataflow.FilelogCheckpoint.OperationCodec

/-! # Transactions of the checkpoint log

A transaction frame is a header of 36 bytes, the frames of its operations and a checksum.
`scanNextTransaction` reads at most one frame off a suffix of the log and tells a frame that is
not all there (`incomplete`) from one that is wrong. -/

namespace OtapDataflow.FilelogCheckpoint

open Bytes Codec DecodeError

variable [Digests]

def txHeaderBytes : Nat := 36

def txFrameCrcBytes : Nat := 4

def walMaxOpsPerTx : UInt16 := 4096

def walMaxNonProgressOpsPerTx : UInt16 := 256

def walMaxTxBodyBytes : Nat := 16 * 1024 * 1024

def txMinBodyBytes : Nat := 34

def maxOperationPayloadBytes : Nat := 131095

/-! ## Operation frames -/

/-- A payload between its length and a checksum of both. -/
def sealed (payload : Bytes) : Bytes :=
  let head := be32 (.ofNat payload.length) ++ payload
  head ++ be32 (crc32c head)

def encodeOperation (operation : Operation) : Except EncodeError Bytes := do
  let payload ← operation.encodePayload
  pure (sealed payload)

/-- What a frame holds and the number of its bytes.  The length is `field`, of at most `max`, and
the frame is called `context`. -/
def decodeSealed {α : Type} (field : String) (max : Nat) (context payloadContext : String)
    (decode : Bytes → Except DecodeError α) (bytes : Bytes) : Except DecodeError (α × Nat) := do
  let (declared, rest) ← u32 bytes
  ensure (declared.toNat ≤ max) (lengthExceedsMaximum field declared.toNat max)
  let (payload, rest) ← array declared.toNat rest
  let (stored, rest) ← u32 rest
  let consumed := bytes.length - rest.length
  let computed := crc32c (bytes.take (consumed - 4))
  ensure (stored = computed) (checksumMismatch context stored computed)
  let value ← (decode payload.1).mapError (inCompleteContainer payloadContext)
  pure (value, consumed)

def decodeOperation : Bytes → Except DecodeError (Operation × Nat) :=
  decodeSealed "wal_operation.op_len" maxOperationPayloadBytes "WAL operation"
    "WAL operation payload" Operation.decodePayload

/-! ## Transactions -/

inductive TransactionClass where
  | progressOnly
  | nonProgress
  deriving DecidableEq, Repr

def TransactionClass.maxOperations : TransactionClass → UInt16
  | .progressOnly => walMaxOpsPerTx
  | .nonProgress => walMaxNonProgressOpsPerTx

structure Transaction where
  sequence : UInt64
  operations : List Operation
  deriving DecidableEq

def classifyOperations (operations : List Operation) : Option TransactionClass :=
  let progress := operations.countP Operation.isUpdateProgress
  if progress = operations.length ∧ progress ≠ 0 then some .progressOnly
  else if progress = 0 ∧ operations ≠ [] then some .nonProgress
  else none

/-- The first operation whose file an earlier one has named; `seen` are the files before. -/
def duplicateFileId (seen : List FileId) : List Operation → Option FileId
  | [] => none
  | operation :: operations =>
    if operation.fileId ∈ seen then some operation.fileId
    else duplicateFileId (operation.fileId :: seen) operations

/-- A transaction of progress names each file once. -/
def duplicateProgress (txClass : TransactionClass) (operations : List Operation) : Option FileId :=
  if txClass = .progressOnly then duplicateFileId [] operations else none

def validateEncodeTransaction (transaction : Transaction) :
    Except EncodeError TransactionClass := do
  ensure (transaction.sequence ≠ 0)
    (EncodeError.invalidFieldValue "transaction.sequence" "must be nonzero")
  ensure (transaction.operations ≠ []) (EncodeError.emptyTransaction transaction.sequence)
  match classifyOperations transaction.operations with
  | none => .error (.mixedTransactionClass transaction.sequence)
  | some txClass => do
    ensure (transaction.operations.length ≤ txClass.maxOperations.toNat)
      (EncodeError.tooManyOperations transaction.sequence transaction.operations.length
        txClass.maxOperations)
    match duplicateProgress txClass transaction.operations with
    | some fileId => .error (.duplicateProgressFileId transaction.sequence fileId)
    | none => pure txClass

/-- The loop over the operations; `body` is what it has written. -/
def encodeBody (sequence : UInt64) (body : Bytes) : List Operation → Except EncodeError Bytes
  | [] => .ok body
  | operation :: operations => do
    let frame ← encodeOperation operation
    let nextLen := body.length + frame.length
    ensure (nextLen ≤ walMaxTxBodyBytes)
      (EncodeError.transactionBodyTooLarge sequence nextLen walMaxTxBodyBytes)
    encodeBody sequence (body ++ frame) operations

/-- The first 32 bytes of the header, which its checksum covers. -/
def headerFields (sequence : UInt64) (bodyLen : UInt32) (opCount : UInt16) : Bytes :=
  txMagic ++ be16 txEnvelopeVersion ++ be16 0 ++ be64 sequence ++ be32 bodyLen ++
    be32 (~~~ bodyLen) ++ be16 opCount ++ be16 0

def headerBytes (sequence : UInt64) (bodyLen : UInt32) (opCount : UInt16) : Bytes :=
  headerFields sequence bodyLen opCount ++ be32 (crc32c (headerFields sequence bodyLen opCount))

/-- A body behind its header, with a checksum of both. -/
def framed (sequence : UInt64) (opCount : Nat) (body : Bytes) : Bytes :=
  let out := headerBytes sequence (.ofNat body.length) (.ofNat opCount) ++ body
  out ++ be32 (crc32c out)

def encodeTransaction (transaction : Transaction) : Except EncodeError Bytes := do
  let _ ← validateEncodeTransaction transaction
  let body ← encodeBody transaction.sequence [] transaction.operations
  ensure (body.length ≤ walMaxTxBodyBytes)
    (EncodeError.transactionBodyTooLarge transaction.sequence body.length walMaxTxBodyBytes)
  pure (framed transaction.sequence transaction.operations.length body)

/-! ## Decoding -/

/-- The loop of `decode_transaction_body` over the number of operations that are left; `rest` are
the bytes after the cursor. -/
def decodeOperations : Nat → Bytes → Except DecodeError (List Operation × Bytes)
  | 0, rest => .ok ([], rest)
  | count + 1, rest => do
    let (operation, consumed) ← decodeOperation rest
    let (operations, rest) ← decodeOperations count (rest.drop consumed)
    pure (operation :: operations, rest)

def decodeTransactionBody (sequence : UInt64) (opCount : UInt16) (body : Bytes) :
    Except DecodeError Transaction := do
  let (operations, rest) ← decodeOperations opCount.toNat body
  ensure (rest.length = 0)
    (unconsumedBytes "WAL transaction body" body.length (body.length - rest.length))
  match classifyOperations operations with
  | none =>
    if operations = [] then .error (.emptyTransaction sequence)
    else .error (.mixedTransactionClass sequence)
  | some txClass => do
    ensure (opCount ≤ txClass.maxOperations)
      (tooManyOperations sequence opCount txClass.maxOperations)
    match duplicateProgress txClass operations with
    | some fileId => .error (.duplicateProgressFileId sequence fileId)
    | none => pure ⟨sequence, operations⟩

inductive TransactionScan where
  | complete (transaction : Transaction) (consumed : Nat)
  | incomplete (bytes : Nat) (totalLen : Option Nat)
  deriving DecidableEq

/-- The fields of a transaction header. -/
structure TxHeader where
  magic : ByteVec 8
  version : UInt16
  flags : UInt16
  sequence : UInt64
  bodyLen : UInt32
  complement : UInt32
  opCount : UInt16
  reserved : UInt16
  crc : UInt32

def TxHeader.read : Reader DecodeError TxHeader := do
  let magic ← array 8
  let version ← u16
  let flags ← u16
  let sequence ← u64
  let bodyLen ← u32
  let complement ← u32
  let opCount ← u16
  let reserved ← u16
  let crc ← u32
  pure ⟨magic, version, flags, sequence, bodyLen, complement, opCount, reserved, crc⟩

/-- The checks on a header, in their order; `bytes` is what the header was read from. -/
def TxHeader.validate (header : TxHeader) (bytes : Bytes) (expectedSequence : UInt64) :
    Except DecodeError Unit := do
  ensure (header.magic.1 = txMagic) (badMagic "WAL transaction header")
  ensure (header.version = txEnvelopeVersion)
    (unsupportedVersion "WAL transaction envelope" header.version)
  ensure (header.flags = 0)
    (reservedFieldNonZero "wal_transaction.tx_flags" header.flags.toNat)
  ensure (header.reserved = 0)
    (reservedFieldNonZero "wal_transaction.reserved" header.reserved.toNat)
  ensure (header.complement = ~~~ header.bodyLen)
    (lengthComplementMismatch header.sequence)
  let computed := crc32c (bytes.take 32)
  ensure (header.crc = computed)
    (checksumMismatch "WAL transaction header" header.crc computed)
  ensure (txMinBodyBytes ≤ header.bodyLen.toNat ∧ header.bodyLen.toNat ≤ walMaxTxBodyBytes)
    (transactionBodyOutOfBounds header.sequence header.bodyLen.toNat txMinBodyBytes
      walMaxTxBodyBytes)
  ensure (header.opCount ≠ 0) (emptyTransaction header.sequence)
  ensure (header.opCount ≤ walMaxOpsPerTx)
    (tooManyOperations header.sequence header.opCount walMaxOpsPerTx)
  ensure (header.sequence = expectedSequence)
    (sequenceOutOfOrder expectedSequence header.sequence)

/-- The length of the whole frame. -/
def TxHeader.needed (header : TxHeader) : Nat :=
  txHeaderBytes + header.bodyLen.toNat + txFrameCrcBytes

def TxHeader.frameCrcOffset (header : TxHeader) : Nat := header.needed - txFrameCrcBytes

/-- The scan of a frame that is all there. -/
def TxHeader.decodeFrame (header : TxHeader) (bytes : Bytes) : Except DecodeError Transaction := do
  let (stored, _) ← u32 ((bytes.take header.needed).drop header.frameCrcOffset)
  ensure (stored = crc32c (bytes.take header.frameCrcOffset))
    (checksumMismatch "WAL transaction frame" stored
      (crc32c (bytes.take header.frameCrcOffset)))
  (decodeTransactionBody header.sequence header.opCount
    ((bytes.take header.frameCrcOffset).drop txHeaderBytes)).mapError
    (inCompleteContainer "WAL transaction body")

/-- The scan after the header has been checked. -/
def TxHeader.scanFrame (header : TxHeader) (bytes : Bytes) :
    Except DecodeError (Option TransactionScan) :=
  if bytes.length < header.needed then
    .ok (some (.incomplete bytes.length (some header.needed)))
  else do
    let transaction ← header.decodeFrame bytes
    pure (some (.complete transaction header.needed))

def scanNextTransaction (bytes : Bytes) (expectedSequence : UInt64) :
    Except DecodeError (Option TransactionScan) := do
  ensure (expectedSequence ≠ 0) expectedSequenceZero
  if bytes = [] then pure none
  else if bytes.length < txHeaderBytes then pure (some (.incomplete bytes.length none))
  else do
    let (header, _) ← TxHeader.read (bytes.take txHeaderBytes)
    header.validate (bytes.take txHeaderBytes) expectedSequence
    header.scanFrame bytes

/-! # The codec of the checkpoint log

A transaction has one layout (`Transaction.wire`).  The scanner accepts the layouts of `Formed`
transactions, whatever follows them, and nothing else (`scan_eq_complete`); before the frame is all
there it reports an incomplete one, with the length of the frame once the header is there
(`scan_take`); and the encoder writes the layout of a transaction whose operations pass the
producer checks (`encodeTransaction_eq_ok`). -/

open List

variable {bytes bs rest out : Bytes} {op : Operation} {sequence : UInt64}

/-! ## Operation frames -/

theorem sealed_eq (payload : Bytes) :
    sealed payload = (be32 (.ofNat payload.length) ++ payload) ++
      be32 (crc32c (be32 (.ofNat payload.length) ++ payload)) :=
  rfl

theorem length_sealed (payload : Bytes) : (sealed payload).length = payload.length + 8 := by
  simp only [sealed, length_append, length_be32]
  omega

theorem Operation.length_wire_lt (hfits : op.Fits) : op.wire.length < 2 ^ 32 :=
  (op.length_wire_le hfits).trans_lt (by decide)

theorem encodeOperation_eq_ok :
    encodeOperation op = .ok out ↔
      op.validateForEncode = .ok () ∧ op.Fits ∧ out = sealed op.wire := by
  simp only [encodeOperation, except_bind_eq_ok, Operation.encodePayload_eq_ok]
  constructor
  · rintro ⟨_, ⟨hvalid, hfits, rfl⟩, h⟩
    exact ⟨hvalid, hfits, (Except.ok.inj h).symm⟩
  · rintro ⟨hvalid, hfits, rfl⟩
    exact ⟨_, ⟨hvalid, hfits, rfl⟩, rfl⟩

omit [Digests] in
theorem mapError_eq_ok {ε ε' α : Type} {f : ε → ε'} {x : Except ε α} {a : α} :
    x.mapError f = .ok a ↔ x = .ok a := by
  cases x with
  | error e => exact ⟨nofun, nofun⟩
  | ok b => exact ⟨fun h => congrArg _ (Except.ok.inj h), fun h => congrArg _ (Except.ok.inj h)⟩

theorem decodeSealed_eq_ok {α : Type} {field context payloadContext : String} {max consumed : Nat}
    {decode : Bytes → Except DecodeError α} {a : α} :
    decodeSealed field max context payloadContext decode bs = .ok (a, consumed) ↔
      ∃ payload rest, (payload.length ≤ max ∧ payload.length < 2 ^ 32) ∧ decode payload = .ok a ∧
        consumed = (sealed payload).length ∧ bs = sealed payload ++ rest := by
  simp only [decodeSealed, except_bind_eq_ok, Prod.exists, u32_eq_ok, except_ensure_eq_ok,
    array_eq_ok, mapError_eq_ok]
  constructor
  · rintro ⟨declared, _, rfl, _, hle, payload, _, rfl, stored, rest, rfl, _, hcrc, a', ha, h⟩
    cases h
    have hdeclared : be32 declared ++ payload.1 =
        be32 (.ofNat payload.1.length) ++ payload.1 := by
      rw [payload.2, UInt32.ofNat_toNat]
    have hhead : be32 declared ++ (payload.1 ++ (be32 stored ++ rest)) =
        (be32 declared ++ payload.1) ++ (be32 stored ++ rest) := (append_assoc _ _ _).symm
    have hconsumed : (be32 declared ++ (payload.1 ++ (be32 stored ++ rest))).length -
        rest.length = (be32 declared ++ payload.1).length + 4 := by
      simp only [length_append, length_be32]
      omega
    rw [hconsumed, Nat.add_sub_cancel, hhead, take_left] at hcrc
    refine ⟨payload.1, rest, ⟨payload.2.trans_le hle, payload.2.trans_lt declared.toNat_lt⟩, ha,
      ?_, ?_⟩
    · rw [hconsumed, hdeclared, length_sealed, length_append, length_be32]
      omega
    · rw [hhead, hcrc, hdeclared, sealed_eq]
      exact (append_assoc _ _ _).symm
  · rintro ⟨payload, rest, ⟨hle, hlt⟩, ha, rfl, rfl⟩
    have hlen : (UInt32.ofNat payload.length).toNat = payload.length :=
      UInt32.toNat_ofNat_of_lt' hlt
    have htake : (sealed payload ++ rest).length - rest.length - 4 =
        (be32 (.ofNat payload.length) ++ payload).length := by
      rw [length_append, Nat.add_sub_cancel, sealed, length_append, length_be32, Nat.add_sub_cancel]
    refine ⟨.ofNat payload.length, payload ++
      (be32 (crc32c (be32 (.ofNat payload.length) ++ payload)) ++ rest), ?_, (), ?_,
      ⟨payload, hlen.symm⟩, _, rfl, _, _, rfl, (), ?_, a, ha, ?_⟩
    · simp [sealed]
    · exact hlen.le.trans hle
    · rw [htake, sealed, append_assoc, take_left]
    · rw [length_append, Nat.add_sub_cancel]
      rfl

variable {consumed : Nat}

theorem decodeOperation_eq_ok :
    decodeOperation bs = .ok (op, consumed) ↔
      op.Formed ∧ consumed = (sealed op.wire).length ∧ ∃ rest, bs = sealed op.wire ++ rest := by
  simp only [decodeOperation, decodeSealed_eq_ok, Operation.decodePayload_eq_ok]
  constructor
  · rintro ⟨_, rest, -, ⟨hformed, rfl⟩, hconsumed, hbs⟩
    exact ⟨hformed, hconsumed, rest, hbs⟩
  · rintro ⟨hformed, hconsumed, rest, hbs⟩
    exact ⟨op.wire, rest, ⟨op.length_wire_le hformed.fits, op.length_wire_lt hformed.fits⟩,
      ⟨hformed, rfl⟩, hconsumed, hbs⟩

/-! ## Bodies -/

/-- The frames of the operations. -/
def Transaction.body (operations : List Operation) : Bytes :=
  operations.flatMap fun op => sealed op.wire

variable {operations : List Operation}

theorem decodeOperations_eq_ok {count : Nat} :
    decodeOperations count bs = .ok (operations, rest) ↔
      operations.length = count ∧ (∀ op ∈ operations, op.Formed) ∧
        bs = Transaction.body operations ++ rest := by
  induction count generalizing bs operations rest with
  | zero =>
    constructor
    · intro h
      cases h
      exact ⟨rfl, forall_mem_nil _, rfl⟩
    · rintro ⟨hlen, -, rfl⟩
      obtain rfl := length_eq_zero_iff.mp hlen
      rfl
  | succ count ih =>
    simp only [decodeOperations, except_bind_eq_ok, Prod.exists, decodeOperation_eq_ok, ih]
    constructor
    · rintro ⟨op, _, ⟨hformed, rfl, mid, rfl⟩, operations', _, ⟨rfl, hall, hmid⟩, h⟩
      cases h
      rw [drop_left] at hmid
      subst hmid
      exact ⟨rfl, forall_mem_cons.mpr ⟨hformed, hall⟩, (append_assoc _ _ _).symm⟩
    · rintro ⟨hlen, hall, rfl⟩
      cases operations with
      | nil => cases hlen
      | cons op operations =>
        obtain ⟨hformed, hall⟩ := forall_mem_cons.mp hall
        have hbody : Transaction.body (op :: operations) ++ rest =
            sealed op.wire ++ (Transaction.body operations ++ rest) := append_assoc _ _ _
        rw [hbody]
        exact ⟨op, _, ⟨hformed, rfl, _, rfl⟩, operations, rest,
          ⟨Nat.succ.inj hlen, hall, drop_left⟩, rfl⟩

/-- The operations make up a transaction of one class, within its limits. -/
def Admitted (operations : List Operation) : Prop :=
  ∃ txClass, classifyOperations operations = some txClass ∧
    operations.length ≤ txClass.maxOperations.toNat ∧
    duplicateProgress txClass operations = none

variable {tx : Transaction} {opCount : UInt16}

theorem decodeTransactionBody_eq_ok {body : Bytes} :
    decodeTransactionBody sequence opCount body = .ok tx ↔
      tx.sequence = sequence ∧ tx.operations.length = opCount.toNat ∧
        (∀ op ∈ tx.operations, op.Formed) ∧ Admitted tx.operations ∧
        body = Transaction.body tx.operations := by
  simp only [decodeTransactionBody, except_bind_eq_ok, Prod.exists, decodeOperations_eq_ok,
    except_ensure_eq_ok]
  constructor
  · rintro ⟨operations, rest, ⟨hlen, hall, rfl⟩, _, hrest, h⟩
    obtain rfl := length_eq_zero_iff.mp hrest
    split at h
    · split_ifs at h
    · next txClass hclass =>
      simp only [except_bind_eq_ok, except_ensure_eq_ok] at h
      obtain ⟨_, hmax, h⟩ := h
      cases hdup : duplicateProgress txClass operations with
      | some fileId =>
        rw [hdup] at h
        cases h
      | none =>
        rw [hdup] at h
        cases h
        exact ⟨rfl, hlen, hall, ⟨txClass, hclass,
          hlen.trans_le (UInt16.le_iff_toNat_le.mp hmax), hdup⟩,
          append_nil _⟩
  · rintro ⟨rfl, hlen, hall, ⟨txClass, hclass, hmax, hdup⟩, rfl⟩
    refine ⟨tx.operations, [], ⟨hlen, hall, (append_nil _).symm⟩, (), rfl, ?_⟩
    simp only [hclass, hdup, except_bind_eq_ok, except_ensure_eq_ok]
    exact ⟨(), UInt16.le_iff_toNat_le.mpr (hlen ▸ hmax), rfl⟩

theorem Admitted.nonempty (h : Admitted operations) : operations ≠ [] := by
  rintro rfl
  obtain ⟨txClass, hclass, -⟩ := h
  cases hclass

theorem validateEncodeTransaction_eq_ok :
    (∃ txClass, validateEncodeTransaction tx = .ok txClass) ↔
      tx.sequence ≠ 0 ∧ Admitted tx.operations := by
  simp only [validateEncodeTransaction, except_bind_eq_ok, except_ensure_eq_ok]
  constructor
  · rintro ⟨txClass, _, hsequence, _, hne, h⟩
    split at h
    · cases h
    · next txClass' hclass =>
      simp only [except_bind_eq_ok, except_ensure_eq_ok] at h
      obtain ⟨_, hmax, h⟩ := h
      cases hdup : duplicateProgress txClass' tx.operations with
      | some fileId =>
        rw [hdup] at h
        cases h
      | none => exact ⟨hsequence, txClass', hclass, hmax, hdup⟩
  · rintro ⟨hsequence, txClass, hclass, hmax, hdup⟩
    refine ⟨txClass, (), hsequence, (), Admitted.nonempty ⟨txClass, hclass, hmax, hdup⟩, ?_⟩
    simp only [hclass, hdup, except_bind_eq_ok, except_ensure_eq_ok]
    exact ⟨(), hmax, rfl⟩

theorem encodeBody_eq_ok {written : Bytes} (hwritten : written.length ≤ walMaxTxBodyBytes) :
    encodeBody sequence written operations = .ok out ↔
      (∀ op ∈ operations, op.validateForEncode = .ok () ∧ op.Fits) ∧
        out = written ++ Transaction.body operations ∧ out.length ≤ walMaxTxBodyBytes := by
  induction operations generalizing written with
  | nil =>
    constructor
    · intro h
      cases h
      exact ⟨forall_mem_nil _, (append_nil _).symm, hwritten⟩
    · rintro ⟨-, rfl, -⟩
      exact congrArg Except.ok (append_nil _).symm
  | cons op operations ih =>
    have hbody : written ++ Transaction.body (op :: operations) =
        written ++ sealed op.wire ++ Transaction.body operations := by
      rw [append_assoc]
      rfl
    simp only [encodeBody, except_bind_eq_ok, encodeOperation_eq_ok, except_ensure_eq_ok,
      forall_mem_cons, hbody]
    constructor
    · rintro ⟨_, ⟨hvalid, hfits, rfl⟩, _, hle, h⟩
      rw [← length_append] at hle
      obtain ⟨hall, rfl, hmax⟩ := (ih hle).mp h
      exact ⟨⟨⟨hvalid, hfits⟩, hall⟩, rfl, hmax⟩
    · rintro ⟨⟨⟨hvalid, hfits⟩, hall⟩, rfl, hmax⟩
      have hle : (written ++ sealed op.wire).length ≤ walMaxTxBodyBytes :=
        (prefix_append _ _).length_le.trans hmax
      exact ⟨_, ⟨hvalid, hfits, rfl⟩, (), length_append ▸ hle, (ih hle).mpr ⟨hall, rfl, hmax⟩⟩

/-- The smallest body that a producer writes. -/
theorem Transaction.le_length_body (hne : operations ≠ [])
    (hall : ∀ op ∈ operations, op.validateForEncode = .ok ()) :
    txMinBodyBytes ≤ (Transaction.body operations).length := by
  cases operations with
  | nil => exact absurd rfl hne
  | cons op operations =>
    have hop := op.le_length_wire (hall op mem_cons_self)
    have hmin : txMinBodyBytes = 34 := rfl
    rw [Transaction.body, flatMap_cons, length_append, length_sealed]
    omega

/-! ## Headers -/

theorem length_headerBytes {bodyLen : UInt32} :
    (headerBytes sequence bodyLen opCount).length = txHeaderBytes := by
  rfl

/-- The bounds on the lengths in a header. -/
structure InBounds (bodyLen : UInt32) (opCount : UInt16) : Prop where
  min_le : txMinBodyBytes ≤ bodyLen.toNat
  le_max : bodyLen.toNat ≤ walMaxTxBodyBytes
  nonempty : opCount ≠ 0
  count_le : opCount ≤ walMaxOpsPerTx

namespace TxHeader

/-- The layout of a header before its checksum. -/
def fields (header : TxHeader) : Bytes :=
  header.magic.1 ++ be16 header.version ++ be16 header.flags ++ be64 header.sequence ++
    be32 header.bodyLen ++ be32 header.complement ++ be16 header.opCount ++ be16 header.reserved

omit [Digests] in
theorem length_fields (header : TxHeader) : header.fields.length = 32 := by
  simp [fields, header.magic.2]

omit [Digests] in
theorem read_eq_ok {header : TxHeader} :
    TxHeader.read bs = .ok (header, rest) ↔ bs = header.fields ++ (be32 header.crc ++ rest) := by
  simp only [TxHeader.read, bind_eq_ok, array_eq_ok, u16_eq_ok, u32_eq_ok, u64_eq_ok, pure_eq_ok]
  constructor
  · rintro ⟨_, _, rfl, _, _, rfl, _, _, rfl, _, _, rfl, _, _, rfl, _, _, rfl, _, _, rfl, _, _, rfl,
      _, _, rfl, rfl, rfl⟩
    simp [fields]
  · rintro rfl
    simp only [fields, append_assoc]
    exact ⟨_, _, rfl, _, _, rfl, _, _, rfl, _, _, rfl, _, _, rfl, _, _, rfl, _, _, rfl, _, _, rfl,
      _, _, rfl, rfl, rfl⟩

/-- The header of these values that passes every check. -/
def wellFormed (sequence : UInt64) (bodyLen : UInt32) (opCount : UInt16) : TxHeader where
  magic := ⟨txMagic, by decide⟩
  version := txEnvelopeVersion
  flags := 0
  sequence := sequence
  bodyLen := bodyLen
  complement := ~~~ bodyLen
  opCount := opCount
  reserved := 0
  crc := crc32c (headerFields sequence bodyLen opCount)

theorem validate_eq_ok {header : TxHeader} :
    header.validate (header.fields ++ rest) sequence = .ok () ↔
      ∃ bodyLen opCount, InBounds bodyLen opCount ∧
        header = wellFormed sequence bodyLen opCount := by
  have htake : (header.fields ++ rest).take 32 = header.fields :=
    take_left' header.length_fields
  simp only [TxHeader.validate, except_bind_eq_ok, except_ensure_eq_ok, htake]
  constructor
  · obtain ⟨magic, version, flags, seq, bodyLen, complement, opCount, reserved, crc⟩ := header
    rintro ⟨_, hmagic, _, rfl, _, rfl, _, rfl, _, hcomplement, _, hcrc, _, ⟨hmin, hmax⟩, _, hne, _,
      hcount, rfl⟩
    obtain rfl : complement = ~~~ bodyLen := hcomplement
    obtain rfl : magic = ⟨txMagic, by decide⟩ := Subtype.ext hmagic
    obtain rfl : crc = crc32c (headerFields seq bodyLen opCount) := hcrc
    exact ⟨bodyLen, opCount, ⟨hmin, hmax, hne, hcount⟩, rfl⟩
  · rintro ⟨bodyLen, opCount, ⟨hmin, hmax, hne, hcount⟩, rfl⟩
    exact ⟨(), rfl, (), rfl, (), rfl, (), rfl, (), rfl, (), rfl, (), ⟨hmin, hmax⟩, (), hne, (),
      hcount, rfl⟩

end TxHeader

/-! ## Frames -/

section

variable {bodyLen : UInt32}

theorem headerBytes_eq (sequence : UInt64) (bodyLen : UInt32) (opCount : UInt16) :
    headerBytes sequence bodyLen opCount =
      (TxHeader.wellFormed sequence bodyLen opCount).fields ++
        be32 (TxHeader.wellFormed sequence bodyLen opCount).crc :=
  rfl

/-- Behind a good header the scan goes on. -/
theorem scan_headerBytes (hsequence : sequence ≠ 0) (hbounds : InBounds bodyLen opCount)
    (rest : Bytes) :
    scanNextTransaction (headerBytes sequence bodyLen opCount ++ rest) sequence =
      (TxHeader.wellFormed sequence bodyLen opCount).scanFrame
        (headerBytes sequence bodyLen opCount ++ rest) := by
  have hlen : (headerBytes sequence bodyLen opCount).length = txHeaderBytes := length_headerBytes
  have htake : (headerBytes sequence bodyLen opCount ++ rest).take txHeaderBytes =
      headerBytes sequence bodyLen opCount := take_left' hlen
  have hlong : ¬ (headerBytes sequence bodyLen opCount ++ rest).length < txHeaderBytes := by
    rw [length_append, hlen]
    omega
  have hne : headerBytes sequence bodyLen opCount ++ rest ≠ [] := by
    intro hnil
    rw [hnil] at hlong
    exact hlong (by decide)
  have hread : TxHeader.read (headerBytes sequence bodyLen opCount) =
      .ok (.wellFormed sequence bodyLen opCount, []) :=
    TxHeader.read_eq_ok.mpr (by rw [append_nil]; rfl)
  have hvalid : (TxHeader.wellFormed sequence bodyLen opCount).validate
      (headerBytes sequence bodyLen opCount) sequence = .ok () :=
    TxHeader.validate_eq_ok.mpr ⟨bodyLen, opCount, hbounds, rfl⟩
  rw [scanNextTransaction, except_ensure_bind hsequence, if_neg hne, if_neg hlong, htake, hread]
  exact congrArg (· >>= fun _ => _) hvalid

/-- A complete frame has a good header. -/
theorem headerBytes_of_scan
    (h : scanNextTransaction bytes sequence = .ok (some (.complete tx consumed))) :
    ∃ bodyLen opCount rest, sequence ≠ 0 ∧ InBounds bodyLen opCount ∧
      bytes = headerBytes sequence bodyLen opCount ++ rest ∧
      (TxHeader.wellFormed sequence bodyLen opCount).scanFrame bytes =
        .ok (some (.complete tx consumed)) := by
  simp only [scanNextTransaction, except_bind_eq_ok, except_ensure_eq_ok] at h
  obtain ⟨_, hsequence, h⟩ := h
  split_ifs at h with hnil hshort
  · cases h
  · cases h
  · simp only [except_bind_eq_ok, Prod.exists, TxHeader.read_eq_ok] at h
    obtain ⟨header, rest, hheader, _, hvalid, hframe⟩ := h
    have hrest : rest = [] := by
      have hlen := congrArg List.length hheader
      rw [length_take, length_append, length_append, TxHeader.length_fields,
        length_be32, min_eq_left (not_lt.mp hshort)] at hlen
      have : txHeaderBytes = 36 := rfl
      exact length_eq_zero_iff.mp (by omega)
    rw [hheader, TxHeader.validate_eq_ok] at hvalid
    obtain ⟨bodyLen, opCount, hbounds, rfl⟩ := hvalid
    refine ⟨bodyLen, opCount, bytes.drop txHeaderBytes, hsequence, hbounds, ?_, hframe⟩
    rw [hrest, append_nil, ← headerBytes_eq] at hheader
    rw [← hheader, take_append_drop]

theorem decodeFrame_eq_ok {header : TxHeader} {head : Bytes} (hhead : head.length = txHeaderBytes)
    (hlen : header.needed ≤ (head ++ rest).length) :
    header.decodeFrame (head ++ rest) = .ok tx ↔
      ∃ body tail, rest = body ++ (be32 (crc32c (head ++ body)) ++ tail) ∧
        body.length = header.bodyLen.toNat ∧
        decodeTransactionBody header.sequence header.opCount body = .ok tx := by
  have hcut : ∀ k, (head ++ rest).take (txHeaderBytes + k) = head ++ rest.take k := by
    intro k
    rw [← hhead, take_length_add_append]
  have hbody : ∀ k, ((head ++ rest).take (txHeaderBytes + k)).drop txHeaderBytes =
      rest.take k := by
    intro k
    rw [hcut, drop_left' hhead]
  have hoffset : header.frameCrcOffset = txHeaderBytes + header.bodyLen.toNat :=
      Nat.add_sub_cancel _ _
  have hcrc : ((head ++ rest).take header.needed).drop header.frameCrcOffset =
      (rest.drop header.bodyLen.toNat).take txFrameCrcBytes := by
    rw [hoffset, TxHeader.needed, add_assoc, hcut, ← drop_drop, drop_left' hhead,
      drop_take, Nat.add_sub_cancel_left]
  rw [TxHeader.decodeFrame, hcrc, hoffset, hbody, hcut]
  simp only [except_bind_eq_ok, Prod.exists, u32_eq_ok, except_ensure_eq_ok, mapError_eq_ok]
  constructor
  · rintro ⟨_, extra, hstored, _, rfl, htx⟩
    have hneeded : header.needed = txHeaderBytes + header.bodyLen.toNat + 4 := rfl
    rw [hneeded, length_append, hhead] at hlen
    have hextra : extra = [] := by
      have hfour := congrArg List.length hstored
      rw [length_take, length_drop, length_append, length_be32,
        show txFrameCrcBytes = 4 from rfl] at hfour
      exact length_eq_zero_iff.mp (by omega)
    rw [hextra, append_nil] at hstored
    refine ⟨rest.take header.bodyLen.toNat, (rest.drop header.bodyLen.toNat).drop txFrameCrcBytes,
      ?_, length_take_of_le (by omega), htx⟩
    rw [← hstored, take_append_drop, take_append_drop]
  · rintro ⟨body, tail, rfl, hbodyLen, htx⟩
    have htake : (body ++ (be32 (crc32c (head ++ body)) ++ tail)).take
        header.bodyLen.toNat = body :=
      take_left' hbodyLen
    rw [htake, drop_left' hbodyLen]
    exact ⟨_, [], (take_left' (length_be32 _)).trans (append_nil _).symm, (), rfl, htx⟩

theorem scanFrame_eq_complete {header : TxHeader} :
    header.scanFrame bytes = .ok (some (.complete tx consumed)) ↔
      header.needed ≤ bytes.length ∧ header.decodeFrame bytes = .ok tx ∧
        consumed = header.needed := by
  rw [TxHeader.scanFrame]
  by_cases hshort : bytes.length < header.needed
  · rw [if_pos hshort]
    exact ⟨nofun, fun h => absurd h.1 (Nat.not_le_of_lt hshort)⟩
  · rw [if_neg hshort, except_bind_eq_ok]
    constructor
    · rintro ⟨tx', hframe, h⟩
      cases h
      exact ⟨not_lt.mp hshort, hframe, rfl⟩
    · rintro ⟨-, hframe, rfl⟩
      exact ⟨tx, hframe, rfl⟩

end

namespace Transaction

/-- **The layout of a transaction.** -/
def wire (tx : Transaction) : Bytes :=
  framed tx.sequence tx.operations.length (body tx.operations)

/-- The transactions that the scanner returns. -/
structure Formed (tx : Transaction) : Prop where
  sequence_ne : tx.sequence ≠ 0
  operations : ∀ op ∈ tx.operations, op.Formed
  admitted : Admitted tx.operations
  min_le : txMinBodyBytes ≤ (body tx.operations).length
  le_max : (body tx.operations).length ≤ walMaxTxBodyBytes

/-- The header of the layout. -/
def header (tx : Transaction) : Bytes :=
  headerBytes tx.sequence (.ofNat (body tx.operations).length) (.ofNat tx.operations.length)

theorem wire_eq (tx : Transaction) :
    tx.wire = tx.header ++ (body tx.operations ++
      be32 (crc32c (tx.header ++ body tx.operations))) :=
  append_assoc _ _ _

theorem length_header (tx : Transaction) : tx.header.length = txHeaderBytes :=
  length_headerBytes

theorem length_wire (tx : Transaction) :
    tx.wire.length = txHeaderBytes + (body tx.operations).length + txFrameCrcBytes := by
  rw [wire_eq, length_append, length_append, length_header, length_be32, add_assoc]
  rfl

theorem Formed.count_le (h : tx.Formed) : tx.operations.length ≤ walMaxOpsPerTx.toNat := by
  obtain ⟨txClass, -, hmax, -⟩ := h.admitted
  cases txClass with
  | progressOnly => exact hmax
  | nonProgress => exact hmax.trans (by decide)

theorem Formed.toNat_count (h : tx.Formed) :
    (UInt16.ofNat tx.operations.length).toNat = tx.operations.length :=
  UInt16.toNat_ofNat_of_lt' (h.count_le.trans_lt (by decide))

theorem Formed.toNat_bodyLen (h : tx.Formed) :
    (UInt32.ofNat (body tx.operations).length).toNat = (body tx.operations).length :=
  UInt32.toNat_ofNat_of_lt' (h.le_max.trans_lt (by decide))

theorem Formed.inBounds (h : tx.Formed) :
    InBounds (.ofNat (body tx.operations).length) (.ofNat tx.operations.length) where
  min_le := h.toNat_bodyLen.symm ▸ h.min_le
  le_max := h.toNat_bodyLen.symm ▸ h.le_max
  nonempty := by
    intro hzero
    have hlen : tx.operations.length = 0 := by rw [← h.toNat_count, hzero]; rfl
    have hbody := h.min_le
    rw [length_eq_zero_iff.mp hlen] at hbody
    exact absurd hbody (Nat.not_succ_le_zero _)
  count_le := UInt16.le_iff_toNat_le.mpr (h.toNat_count.le.trans h.count_le)

/-- The fields of the header of the layout. -/
def txHeader (tx : Transaction) : TxHeader :=
  .wellFormed tx.sequence (.ofNat (body tx.operations).length) (.ofNat tx.operations.length)

theorem Formed.needed_eq (h : tx.Formed) : tx.txHeader.needed = tx.wire.length := by
  rw [length_wire, ← h.toNat_bodyLen]
  rfl

theorem Formed.scan_header (h : tx.Formed) (rest : Bytes) :
    scanNextTransaction (tx.header ++ rest) tx.sequence =
      tx.txHeader.scanFrame (tx.header ++ rest) :=
  scan_headerBytes h.sequence_ne h.inBounds rest

end Transaction

theorem scan_eq_complete :
    scanNextTransaction bytes sequence = .ok (some (.complete tx consumed)) ↔
      tx.Formed ∧ tx.sequence = sequence ∧ consumed = tx.wire.length ∧
        ∃ rest, bytes = tx.wire ++ rest := by
  constructor
  · intro h
    obtain ⟨bodyLen, opCount, rest, hsequence, hbounds, rfl, hscan⟩ := headerBytes_of_scan h
    obtain ⟨hle, hframe, rfl⟩ := scanFrame_eq_complete.mp hscan
    obtain ⟨body, tail, rfl, hlen, hbody⟩ := (decodeFrame_eq_ok length_headerBytes hle).mp hframe
    obtain ⟨hseq, hcount, hall, hadmitted, rfl⟩ := decodeTransactionBody_eq_ok.mp hbody
    have hheader : headerBytes sequence bodyLen opCount = tx.header := by
      rw [Transaction.header, hlen, hcount, UInt32.ofNat_toNat, UInt16.ofNat_toNat]
      exact congrArg (headerBytes · bodyLen opCount) hseq.symm
    have hformed : tx.Formed :=
      ⟨hseq ▸ hsequence, hall, hadmitted, hlen ▸ hbounds.min_le, hlen ▸ hbounds.le_max⟩
    refine ⟨hformed, hseq, ?_, tail, ?_⟩
    · rw [Transaction.length_wire, hlen]
      rfl
    · rw [hheader, Transaction.wire_eq, append_assoc, append_assoc]
  · rintro ⟨hformed, rfl, rfl, rest, rfl⟩
    have hlen : tx.txHeader.needed ≤ (tx.wire ++ rest).length := by
      rw [hformed.needed_eq, length_append]
      omega
    have hbody : decodeTransactionBody tx.txHeader.sequence tx.txHeader.opCount
        (Transaction.body tx.operations) = .ok tx :=
      decodeTransactionBody_eq_ok.mpr
        ⟨rfl, hformed.toNat_count.symm, hformed.operations, hformed.admitted, rfl⟩
    rw [← hformed.needed_eq, Transaction.wire_eq, append_assoc, hformed.scan_header,
      scanFrame_eq_complete]
    exact ⟨hlen, (decodeFrame_eq_ok tx.length_header hlen).mpr ⟨Transaction.body tx.operations,
      rest, append_assoc _ _ _, hformed.toNat_bodyLen.symm, hbody⟩, rfl⟩

theorem scan_take {n : Nat} (hformed : tx.Formed) (hpos : 0 < n) (hlt : n < tx.wire.length) :
    scanNextTransaction (tx.wire.take n) tx.sequence =
      .ok (some (.incomplete n (if n < txHeaderBytes then none else some tx.wire.length))) := by
  have hlen : (tx.wire.take n).length = n := length_take_of_le hlt.le
  by_cases hshort : n < txHeaderBytes
  · have hne : tx.wire.take n ≠ [] := by
      intro hnil
      rw [hnil] at hlen
      exact hpos.ne hlen
    rw [scanNextTransaction, except_ensure_bind hformed.sequence_ne, if_neg hne, hlen,
      if_pos hshort, if_pos hshort]
    rfl
  · have htake : tx.wire.take n = tx.header ++ (tx.wire.take n).drop txHeaderBytes := by
      have hhead : (tx.wire.take n).take txHeaderBytes = tx.header := by
        rw [take_take, min_eq_left (not_lt.mp hshort), Transaction.wire_eq,
          take_left' tx.length_header]
      rw [← hhead, take_append_drop]
    rw [htake, hformed.scan_header, ← htake, TxHeader.scanFrame, hlen, hformed.needed_eq,
      if_pos hlt, if_neg hshort]

theorem encodeTransaction_eq_ok :
    encodeTransaction tx = .ok out ↔
      tx.Formed ∧ (∀ op ∈ tx.operations, op.validateForEncode = .ok ()) ∧ out = tx.wire := by
  have hempty : ([] : Bytes).length ≤ walMaxTxBodyBytes := Nat.zero_le _
  simp only [encodeTransaction, except_bind_eq_ok, except_ensure_eq_ok, encodeBody_eq_ok hempty,
    nil_append]
  constructor
  · rintro ⟨txClass, hclass, body, ⟨hall, rfl, hmax⟩, _, -, h⟩
    obtain ⟨hsequence, hadmitted⟩ := validateEncodeTransaction_eq_ok.mp ⟨txClass, hclass⟩
    refine ⟨⟨hsequence, fun op hop => op.formed_of_validate (hall op hop).1 (hall op hop).2,
      hadmitted, ?_, hmax⟩, fun op hop => (hall op hop).1, (Except.ok.inj h).symm⟩
    exact Transaction.le_length_body hadmitted.nonempty fun op hop => (hall op hop).1
  · rintro ⟨hformed, hall, rfl⟩
    obtain ⟨txClass, hclass⟩ :=
      validateEncodeTransaction_eq_ok.mpr ⟨hformed.sequence_ne, hformed.admitted⟩
    exact ⟨txClass, hclass, _, ⟨fun op hop => ⟨hall op hop, (hformed.operations op hop).fits⟩, rfl,
      hformed.le_max⟩, (), hformed.le_max, rfl⟩

/-- **The codec of the log is exact.**  A frame that the encoder writes is scanned back, whatever
follows it, and reported as incomplete when it is cut short, with its length as soon as its header
is there; and what is scanned is written the same, if its operations pass the producer checks. -/
theorem wal_codec_exact :
    (∀ tx frame, encodeTransaction tx = .ok frame →
      (∀ suffix, scanNextTransaction (frame ++ suffix) tx.sequence =
        .ok (some (.complete tx frame.length))) ∧
      ∀ cut, cut <+: frame → cut ≠ [] → cut ≠ frame →
        scanNextTransaction cut tx.sequence = .ok (some (.incomplete cut.length
          (if cut.length < txHeaderBytes then none else some frame.length)))) ∧
    ∀ bytes sequence tx consumed,
      scanNextTransaction bytes sequence = .ok (some (.complete tx consumed)) →
        (∀ op ∈ tx.operations, op.validateForEncode = .ok ()) →
        encodeTransaction tx = .ok (bytes.take consumed) := by
  refine ⟨?_, ?_⟩
  · intro tx frame hencode
    obtain ⟨hformed, -, rfl⟩ := encodeTransaction_eq_ok.mp hencode
    constructor
    · intro suffix
      rw [scan_eq_complete]
      exact ⟨hformed, rfl, rfl, suffix, rfl⟩
    intro cut hcut hne hproper
    have htake : cut = tx.wire.take cut.length := prefix_iff_eq_take.mp hcut
    have hlt : cut.length < tx.wire.length :=
      lt_of_le_of_ne hcut.length_le fun hlen => hproper (hcut.eq_of_length hlen)
    have hscan := scan_take hformed (length_pos_iff.mpr hne) hlt
    rwa [← htake] at hscan
  · intro bytes sequence tx consumed hscan hall
    obtain ⟨hformed, -, rfl, rest, rfl⟩ := scan_eq_complete.mp hscan
    rw [take_left]
    exact encodeTransaction_eq_ok.mpr ⟨hformed, hall, rfl⟩

/-- The sum of the bytes, and the first 32 of them. -/
@[reducible] def sumDigests : Digests where
  crc32c bytes := bytes.foldl (fun sum b => sum + b.toUInt32) 0
  sha256 bytes := ⟨(bytes ++ List.replicate 32 0).take 32, by simp⟩

/-- Two files are put into quarantine by the first transaction of a log. -/
def quarantineTx : @Transaction sumDigests :=
  letI := sumDigests
  ⟨1, [.quarantineFile ⟨⟨List.replicate 16 7, rfl⟩, 1, 1, .posixDevIno 1 2, 0, 1, 9⟩,
    .quarantineFile ⟨⟨List.replicate 16 8, rfl⟩, 3, 2, .posixDevIno 1 5, 0, 3, 9⟩]⟩

omit [Digests] in
theorem wal_codec_exact_quarantine : letI := sumDigests
    ∃ frame, encodeTransaction quarantineTx = .ok frame ∧
      scanNextTransaction (frame ++ [1, 2, 3]) 1 =
        .ok (some (.complete quarantineTx frame.length)) ∧
      scanNextTransaction (frame.take 40) 1 = .ok (some (.incomplete 40 (some frame.length))) ∧
      encodeTransaction quarantineTx = .ok ((frame ++ [1, 2, 3]).take frame.length) := by
  let _ := sumDigests
  have hencode : ∃ frame, encodeTransaction quarantineTx = .ok frame ∧ frame.length = 176 :=
    ⟨_, rfl, rfl⟩
  obtain ⟨frame, hencode, hlen⟩ := hencode
  have hcut : (frame.take 40).length = 40 := by rw [length_take, hlen]; rfl
  have hscan := (wal_codec_exact.1 _ _ hencode).1 [1, 2, 3]
  have hshort := (wal_codec_exact.1 _ _ hencode).2 (frame.take 40) (List.take_prefix 40 frame)
    (fun h => by rw [h] at hcut; cases hcut) (fun h => by rw [h, hlen] at hcut; cases hcut)
  rw [hcut] at hshort
  refine ⟨frame, hencode, hscan, hshort, wal_codec_exact.2 _ _ _ _ hscan ?_⟩
  exact forall_mem_cons.mpr ⟨rfl, forall_mem_singleton.mpr rfl⟩

end OtapDataflow.FilelogCheckpoint
