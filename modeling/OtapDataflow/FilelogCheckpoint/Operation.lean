import OtapDataflow.Lib.Codec

/-! # Durable values of the checkpoint format

The values that checkpoint records and operations are made of, with their readers and writers.
CRC-32C and SHA-256 are functions of bytes that nothing else is known about (`Digests`).  Sizes
are unbounded here, so the overflow errors of size arithmetic do not occur. -/

namespace OtapDataflow.FilelogCheckpoint

open Bytes Codec List

/-- The checksum and the digest that the format uses. -/
class Digests where
  crc32c : Bytes → UInt32
  sha256 : Bytes → ByteVec 32

export Digests (crc32c sha256)

/-- An opaque 128-bit file identity. -/
abbrev FileId := ByteVec 16

abbrev Digest := ByteVec 32

/-! ## Errors -/

inductive DecodeError where
  | truncated (needed available : Nat)
  | malformedPayload (context : String) (needed available : Nat)
  | lengthExceedsMaximum (field : String) (declared max : Nat)
  | badMagic (context : String)
  | unsupportedVersion (context : String) (found : UInt16)
  | reservedFieldNonZero (field : String) (value : Nat)
  | unknownDiscriminant (field : String) (value : Nat)
  | checksumMismatch (context : String) (stored computed : UInt32)
  | invalidUtf8 (field : String)
  | unconsumedBytes (context : String) (declared consumed : Nat)
  | sequenceOutOfOrder (expected found : UInt64)
  | expectedSequenceZero
  | emptyTransaction (sequence : UInt64)
  | tooManyOperations (sequence : UInt64) (opCount max : UInt16)
  | mixedTransactionClass (sequence : UInt64)
  | duplicateProgressFileId (sequence : UInt64) (fileId : FileId)
  | transactionBodyOutOfBounds (sequence : UInt64) (len min max : Nat)
  | lengthComplementMismatch (sequence : UInt64)
  | invalidSnapshotState (fileId : FileId) (reason : String)
  | emptyRequiredField (field : String)
  | unexpectedPresentField (field : String)
  | duplicateFileId (fileId : FileId)
  | duplicateLiveLocator (first second : FileId)
  | invalidAdvisoryPath (field reason : String)
  | invalidCommittedFrontierGuard (field : String) (offset : UInt64)
  deriving DecidableEq

/-- Bytes that are missing inside a complete container are a malformed payload. -/
def DecodeError.inCompleteContainer (context : String) : DecodeError → DecodeError
  | .truncated needed available => .malformedPayload context needed available
  | other => other

inductive EncodeError where
  | fieldTooLong (field : String) (len max : Nat)
  | requiredFieldEmpty (field : String)
  | invalidFieldValue (field reason : String)
  | reservedReasonCode (field : String) (reasonCode : UInt16)
  | emptyTransaction (sequence : UInt64)
  | tooManyOperations (sequence : UInt64) (opCount : Nat) (max : UInt16)
  | mixedTransactionClass (sequence : UInt64)
  | duplicateProgressFileId (sequence : UInt64) (fileId : FileId)
  | transactionBodyTooLarge (sequence : UInt64) (len max : Nat)
  | duplicateFileId (fileId : FileId)
  | duplicateLiveLocator (first second : FileId)
  | invalidSnapshotState (fileId : FileId) (reason : String)
  | invalidAdvisoryPath (reason : String)
  deriving DecidableEq

/-! ## Constants -/

def framingProfileVersion : UInt16 := 1

def txEnvelopeVersion : UInt16 := 1

/-- The bytes of a text. -/
def utf8 (s : String) : Bytes := s.toByteArray.data.toList

def txMagic : Bytes := utf8 "FLOGTXN" ++ [0]

def advisoryPathDomain : Bytes := utf8 "otel-arrow-filelog-advisory-path-v1" ++ [0]

/-- The digest of the frontier guard at offset zero. -/
def emptyFrontierGuardDigest : Digest :=
  ⟨[0xbe, 0x47, 0xd0, 0x23, 0xa0, 0x6e, 0x82, 0xfd, 0x6d, 0xa2, 0xda, 0xa0, 0x63, 0x15, 0x47, 0xd6,
    0xec, 0xa2, 0x97, 0xb7, 0xac, 0x53, 0x2c, 0xba, 0x64, 0x71, 0xab, 0x90, 0x82, 0x9e, 0xc5,
    0xb9], rfl⟩

def fingerprintMaxBytes : Nat := 65535

def advisoryPathStoredMaxBytes : Nat := 4096

def auditReasonMaxBytes : Nat := 1024

def namespaceIdMaxBytes : Nat := 255

def committedFrontierGuardWindowBytes : Nat := 64

def quarantineReasonReserved (value : UInt16) : Bool := value == 0 || value == 4

/-! ## Readers and writers -/

section

variable {ε α : Type}

def u8 : Reader DecodeError UInt8 := Codec.u8 .truncated

def u16 : Reader DecodeError UInt16 := Codec.u16 .truncated

def u32 : Reader DecodeError UInt32 := Codec.u32 .truncated

def u64 : Reader DecodeError UInt64 := Codec.u64 .truncated

def array (n : Nat) : Reader DecodeError (ByteVec n) := take .truncated n

/-- Bytes with a length of two bytes before them. -/
def prefixed (bytes : Bytes) : Bytes := be16 (.ofNat bytes.length) ++ bytes

/-- `Reader::var_bytes`. -/
def readVarBytes (field : String) (max : Nat) : Reader DecodeError Bytes := do
  let len ← u16
  ensure (len.toNat ≤ max) (DecodeError.lengthExceedsMaximum field len.toNat max)
  let bytes ← array len.toNat
  pure bytes.1

/-- `Reader::var_string`. -/
def readVarString (field : String) (max : Nat) : Reader DecodeError String := do
  let bytes ← readVarBytes field max
  match String.fromUTF8? ⟨bytes.toArray⟩ with
  | some s => pure s
  | none => throw (.invalidUtf8 field)

/-- `Writer::var_bytes`. -/
def writeVarBytes (field : String) (bytes : Bytes) (max : Nat) : Except EncodeError Bytes := do
  ensure (bytes.length ≤ max) (EncodeError.fieldTooLong field bytes.length max)
  ensure (bytes.length ≤ 65535) (EncodeError.fieldTooLong field bytes.length 65535)
  pure (prefixed bytes)

def readBool (field : String) : Reader DecodeError Bool := do
  let value ← u8
  if value = 0 then pure false
  else if value = 1 then pure true
  else throw (.unknownDiscriminant field value.toNat)

def writeBool (value : Bool) : UInt8 := if value then 1 else 0

end

/-! ## Lifecycle and location -/

inductive LifecycleState where
  | active
  | rotatedFinalized
  | quarantined
  deriving DecidableEq, Repr

namespace LifecycleState

def toWire : LifecycleState → UInt8
  | .active => 1
  | .rotatedFinalized => 2
  | .quarantined => 3

def fromWire (value : UInt8) (field : String) : Except DecodeError LifecycleState :=
  if value = 1 then .ok .active
  else if value = 2 then .ok .rotatedFinalized
  else if value = 3 then .ok .quarantined
  else .error (.unknownDiscriminant field value.toNat)

end LifecycleState

inductive Locator where
  | unspecified
  | posixDevIno (dev ino : UInt64)
  | windowsVolumeFileId (volumeSerial : UInt64) (fileId : ByteVec 16)
  deriving DecidableEq

open Locator

namespace Locator

def write : Locator → Bytes
  | .unspecified => [0]
  | .posixDevIno dev ino => 1 :: (be64 dev ++ be64 ino)
  | .windowsVolumeFileId volumeSerial fileId => 2 :: (be64 volumeSerial ++ fileId.1)

def read : Reader DecodeError Locator := do
  let kind ← u8
  if kind = 0 then pure .unspecified
  else if kind = 1 then do
    let dev ← u64
    let ino ← u64
    pure (.posixDevIno dev ino)
  else if kind = 2 then do
    let volumeSerial ← u64
    let fileId ← array 16
    pure (.windowsVolumeFileId volumeSerial fileId)
  else throw (.unknownDiscriminant "locator.kind" kind.toNat)

end Locator

/-! ## Framing resume -/

inductive FramingResume where
  | clean
  | continuation (recordStartOffset recordEndOffset : UInt64) (nextFragmentIndex : UInt32)
  deriving DecidableEq, Repr

open FramingResume

namespace FramingResume

def write : FramingResume → Bytes
  | .clean => [0]
  | .continuation start stop index => 1 :: (be64 start ++ be64 stop ++ be32 index)

def read : Reader DecodeError FramingResume := do
  let kind ← u8
  if kind = 0 then pure .clean
  else if kind = 1 then do
    let start ← u64
    let stop ← u64
    let index ← u32
    pure (.continuation start stop index)
  else throw (.unknownDiscriminant "framing_resume.kind" kind.toNat)

def validForOffset (resume : FramingResume) (offset : UInt64) : Bool :=
  match resume with
  | .clean => true
  | .continuation start stop index =>
    decide (1 ≤ index) && decide (start < offset) && (stop == 0 || decide (offset < stop))

end FramingResume

/-! ## Advisory paths -/

inductive AdvisoryPathKind where
  | unavailable
  | unixBytes
  | windowsUtf16Le
  deriving DecidableEq, Repr

namespace AdvisoryPathKind

def toWire : AdvisoryPathKind → UInt8
  | .unavailable => 0
  | .unixBytes => 1
  | .windowsUtf16Le => 2

def fromWire (value : UInt8) : Except DecodeError AdvisoryPathKind :=
  if value = 0 then .ok .unavailable
  else if value = 1 then .ok .unixBytes
  else if value = 2 then .ok .windowsUtf16Le
  else .error (.unknownDiscriminant "advisory_path.path_kind" value.toNat)

end AdvisoryPathKind

section

variable [Digests]

def advisoryPathDigest (kind : AdvisoryPathKind) (len : UInt64) (bytes : Bytes) : Digest :=
  sha256 (advisoryPathDomain ++ [kind.toWire] ++ be64 len ++ bytes)

/-- The first check of a path that fails. -/
def advisoryPathError (kind : AdvisoryPathKind) (truncated : Bool) (fullPathLen : UInt64)
    (stored : Bytes) (digest : Digest) : Option DecodeError :=
  match kind with
  | .unavailable =>
    if truncated ∨ fullPathLen ≠ 0 ∨ stored.length ≠ 0 then
      some (.invalidAdvisoryPath "advisory_path" "Unavailable requires zero flags and lengths")
    else if digest ≠ advisoryPathDigest kind 0 [] then
      some (.invalidAdvisoryPath "advisory_path.full_path_digest"
        "Unavailable digest does not match")
    else none
  | _ =>
    if fullPathLen = 0 then
      some (.invalidAdvisoryPath "advisory_path.full_path_len" "a present path must be non-empty")
    else if kind = .windowsUtf16Le ∧ (fullPathLen.toNat % 2 ≠ 0 ∨ stored.length % 2 ≠ 0) then
      some (.invalidAdvisoryPath "advisory_path" "Windows path lengths must be even")
    else if fullPathLen.toNat ≤ advisoryPathStoredMaxBytes then
      if truncated ∨ fullPathLen.toNat ≠ stored.length then
        some (.invalidAdvisoryPath "advisory_path"
          "complete path flags and lengths are inconsistent")
      else if digest ≠ advisoryPathDigest kind fullPathLen stored then
        some (.invalidAdvisoryPath "advisory_path.full_path_digest"
          "complete path digest does not match")
      else none
    else if ¬ truncated ∨ stored.length ≠ advisoryPathStoredMaxBytes then
      some (.invalidAdvisoryPath "advisory_path" "truncated path flags and lengths are inconsistent")
    else none

/-- Bounded evidence of a path.  Its fields are private to the source, whose constructors and
reader only build consistent ones. -/
structure AdvisoryPath where
  kind : AdvisoryPathKind
  truncated : Bool
  fullPathLen : UInt64
  storedPathBytes : Bytes
  fullPathDigest : Digest
  stored_le : storedPathBytes.length ≤ advisoryPathStoredMaxBytes
  consistent : advisoryPathError kind truncated fullPathLen storedPathBytes fullPathDigest = none
  deriving DecidableEq

open AdvisoryPath

namespace AdvisoryPath

def write (path : AdvisoryPath) : Bytes :=
  path.kind.toWire :: writeBool path.truncated :: (be64 path.fullPathLen ++
    be16 (.ofNat path.storedPathBytes.length) ++ path.storedPathBytes ++ path.fullPathDigest.1)

/-- The path of these fields, if they agree. -/
def validated (kind : AdvisoryPathKind) (truncated : Bool) (fullPathLen : UInt64) (stored : Bytes)
    (digest : Digest) (hle : stored.length ≤ advisoryPathStoredMaxBytes) :
    Except DecodeError AdvisoryPath :=
  match h : advisoryPathError kind truncated fullPathLen stored digest with
  | some error => .error error
  | none => .ok ⟨kind, truncated, fullPathLen, stored, digest, hle, h⟩

theorem validated_eq_ok {kind : AdvisoryPathKind} {truncated : Bool} {fullPathLen : UInt64}
    {stored : Bytes} {digest : Digest} {hle : stored.length ≤ advisoryPathStoredMaxBytes}
    {path : AdvisoryPath} :
    validated kind truncated fullPathLen stored digest hle = .ok path ↔
      path.kind = kind ∧ path.truncated = truncated ∧ path.fullPathLen = fullPathLen ∧
        path.storedPathBytes = stored ∧ path.fullPathDigest = digest := by
  rw [validated]
  constructor
  · intro h
    split at h
    · cases h
    · cases h
      exact ⟨rfl, rfl, rfl, rfl, rfl⟩
  · rintro ⟨rfl, rfl, rfl, rfl, rfl⟩
    split
    · next error h => rw [path.consistent] at h; cases h
    · rfl

def read : Reader DecodeError AdvisoryPath := do
  let kindByte ← u8
  let kind ← lift (AdvisoryPathKind.fromWire kindByte)
  let flags ← u8
  ensure (flags &&& ~~~ 1 = 0)
    (DecodeError.reservedFieldNonZero "advisory_path.path_flags" flags.toNat)
  let truncated := flags &&& 1 != 0
  let fullPathLen ← u64
  let storedLen ← u16
  if hlen : storedLen.toNat ≤ advisoryPathStoredMaxBytes then do
    let stored ← array storedLen.toNat
    let digest ← array 32
    lift (validated kind truncated fullPathLen stored.1 digest (stored.2.trans_le hlen))
  else
    throw (.lengthExceedsMaximum "advisory_path.stored_path_bytes" storedLen.toNat
      advisoryPathStoredMaxBytes)

end AdvisoryPath

end

/-! ## Frontier guards -/

structure CommittedFrontierGuard where
  windowLen : UInt16
  digest : Digest
  deriving DecidableEq

open CommittedFrontierGuard

namespace CommittedFrontierGuard

def write (guard : CommittedFrontierGuard) : Bytes := be16 guard.windowLen ++ guard.digest.1

def read : Reader DecodeError CommittedFrontierGuard := do
  let windowLen ← u16
  let digest ← array 32
  pure ⟨windowLen, digest⟩

def validForOffset (guard : CommittedFrontierGuard) (offset : UInt64) : Bool :=
  decide (guard.windowLen.toNat = min offset.toNat committedFrontierGuardWindowBytes) &&
    (offset != 0 || decide (guard.digest = emptyFrontierGuardDigest))

end CommittedFrontierGuard

/-! ## What the readers accept -/

section

variable {field : String} {max n : Nat} {bs rest : Bytes}

theorem u8_eq_ok {v : UInt8} : u8 bs = .ok (v, rest) ↔ bs = v :: rest := Codec.u8_eq_ok _

theorem u16_eq_ok {v : UInt16} : u16 bs = .ok (v, rest) ↔ bs = be16 v ++ rest := Codec.u16_eq_ok _

theorem u32_eq_ok {v : UInt32} : u32 bs = .ok (v, rest) ↔ bs = be32 v ++ rest := Codec.u32_eq_ok _

theorem u64_eq_ok {v : UInt64} : u64 bs = .ok (v, rest) ↔ bs = be64 v ++ rest := Codec.u64_eq_ok _

theorem array_eq_ok {v : ByteVec n} : array n bs = .ok (v, rest) ↔ bs = v.1 ++ rest :=
  take_eq_ok _

/-- The bytes fit a field of at most `max` bytes and its length of two bytes. -/
def FieldFits (max : Nat) (bytes : Bytes) : Prop := bytes.length ≤ max ∧ bytes.length < 2 ^ 16

variable {bytes : Bytes}

theorem readVarBytes_eq_ok :
    readVarBytes field max bs = .ok (bytes, rest) ↔
      FieldFits max bytes ∧ bs = prefixed bytes ++ rest := by
  simp only [readVarBytes, bind_eq_ok, u16_eq_ok, ensure_eq_ok, array_eq_ok, pure_eq_ok]
  constructor
  · rintro ⟨len, _, rfl, _, _, ⟨hmax, rfl⟩, v, _, rfl, rfl, rfl⟩
    rw [FieldFits, prefixed, v.2, UInt16.ofNat_toNat, append_assoc]
    exact ⟨⟨hmax, len.toNat_lt⟩, rfl⟩
  · rintro ⟨⟨hmax, hlt⟩, rfl⟩
    have hlen : (UInt16.ofNat bytes.length).toNat = bytes.length := UInt16.toNat_ofNat_of_lt' hlt
    exact ⟨_, _, rfl, (), _, ⟨hlen.le.trans hmax, rfl⟩, ⟨bytes, hlen.symm⟩, _, rfl, rfl, rfl⟩

theorem fromUTF8?_eq_some {s : String} :
    String.fromUTF8? ⟨bytes.toArray⟩ = some s ↔ bytes = utf8 s := by
  constructor
  · intro h
    rw [String.fromUTF8?] at h
    split_ifs at h
    cases h
    rfl
  · rintro rfl
    exact dif_pos s.isValidUTF8

theorem readVarString_eq_ok {s : String} :
    readVarString field max bs = .ok (s, rest) ↔
      FieldFits max (utf8 s) ∧ bs = prefixed (utf8 s) ++ rest := by
  simp only [readVarString, bind_eq_ok, readVarBytes_eq_ok]
  constructor
  · rintro ⟨bytes, mid, ⟨hlen, rfl⟩, h⟩
    cases hs : String.fromUTF8? ⟨bytes.toArray⟩ with
    | none =>
      rw [hs] at h
      exact (throw_eq_ok.mp h).elim
    | some s' =>
      rw [hs] at h
      obtain ⟨rfl, rfl⟩ := pure_eq_ok.mp h
      obtain rfl := fromUTF8?_eq_some.mp hs
      exact ⟨hlen, rfl⟩
  · rintro ⟨hlen, rfl⟩
    refine ⟨utf8 s, rest, ⟨hlen, rfl⟩, ?_⟩
    rw [fromUTF8?_eq_some.mpr rfl]
    rfl

theorem writeVarBytes_bind_eq_ok {f : Bytes → Except EncodeError Bytes} {out : Bytes} :
    (writeVarBytes field bytes max >>= f) = .ok out ↔
      FieldFits max bytes ∧ f (prefixed bytes) = .ok out := by
  simp only [writeVarBytes, except_bind_eq_ok, except_ensure_eq_ok]
  constructor
  · rintro ⟨_, ⟨_, hmax, _, hlt, h⟩, hf⟩
    rw [← Except.ok.inj h] at hf
    exact ⟨⟨hmax, Nat.lt_succ_of_le hlt⟩, hf⟩
  · rintro ⟨⟨hmax, hlt⟩, hf⟩
    exact ⟨_, ⟨(), hmax, (), Nat.le_of_lt_succ hlt, rfl⟩, hf⟩

theorem readBool_eq_ok {value : Bool} :
    readBool field bs = .ok (value, rest) ↔ bs = writeBool value :: rest := by
  simp only [readBool, bind_eq_ok, u8_eq_ok]
  constructor
  · rintro ⟨v, mid, rfl, h⟩
    split_ifs at h with h0 h1
    · obtain ⟨rfl, rfl⟩ := pure_eq_ok.mp h
      rw [h0]
      rfl
    · obtain ⟨rfl, rfl⟩ := pure_eq_ok.mp h
      rw [h1]
      rfl
    · exact (throw_eq_ok.mp h).elim
  · rintro rfl
    cases value with
    | false => exact ⟨0, rest, rfl, rfl⟩
    | true => exact ⟨1, rest, rfl, rfl⟩

theorem LifecycleState.fromWire_eq_ok {value : UInt8} {state : LifecycleState} :
    LifecycleState.fromWire value field = .ok state ↔ value = state.toWire := by
  constructor
  · intro h
    rw [LifecycleState.fromWire] at h
    split_ifs at h <;> cases h <;> assumption
  · rintro rfl
    cases state <;> rfl

theorem AdvisoryPathKind.fromWire_eq_ok {value : UInt8} {kind : AdvisoryPathKind} :
    AdvisoryPathKind.fromWire value = .ok kind ↔ value = kind.toWire := by
  constructor
  · intro h
    rw [AdvisoryPathKind.fromWire] at h
    split_ifs at h <;> cases h <;> assumption
  · rintro rfl
    cases kind <;> rfl

theorem Locator.read_eq_ok {locator : Locator} :
    read bs = .ok (locator, rest) ↔ bs = locator.write ++ rest := by
  simp only [read, bind_eq_ok, u8_eq_ok]
  constructor
  · rintro ⟨kind, mid, rfl, h⟩
    split_ifs at h with h0 h1 h2
    · obtain ⟨rfl, rfl⟩ := pure_eq_ok.mp h
      rw [h0]
      rfl
    · simp only [bind_eq_ok, u64_eq_ok, pure_eq_ok] at h
      obtain ⟨dev, _, rfl, ino, _, rfl, rfl, rfl⟩ := h
      simp [h1, write]
    · simp only [bind_eq_ok, u64_eq_ok, array_eq_ok, pure_eq_ok] at h
      obtain ⟨serial, _, rfl, fileId, _, rfl, rfl, rfl⟩ := h
      simp [h2, write]
    · exact (throw_eq_ok.mp h).elim
  · rintro rfl
    cases locator with
    | unspecified => exact ⟨0, rest, rfl, rfl⟩
    | posixDevIno dev ino =>
      refine ⟨1, be64 dev ++ (be64 ino ++ rest), by simp [write], ?_⟩
      rw [if_neg (by decide), if_pos rfl]
      simp only [bind_eq_ok, u64_eq_ok, pure_eq_ok]
      exact ⟨dev, _, rfl, ino, _, rfl, rfl, rfl⟩
    | windowsVolumeFileId serial fileId =>
      refine ⟨2, be64 serial ++ (fileId.1 ++ rest), by simp [write], ?_⟩
      rw [if_neg (by decide), if_neg (by decide), if_pos rfl]
      simp only [bind_eq_ok, u64_eq_ok, array_eq_ok, pure_eq_ok]
      exact ⟨serial, _, rfl, fileId, _, rfl, rfl, rfl⟩

theorem FramingResume.read_eq_ok {resume : FramingResume} :
    read bs = .ok (resume, rest) ↔ bs = resume.write ++ rest := by
  simp only [read, bind_eq_ok, u8_eq_ok]
  constructor
  · rintro ⟨kind, mid, rfl, h⟩
    split_ifs at h with h0 h1
    · obtain ⟨rfl, rfl⟩ := pure_eq_ok.mp h
      rw [h0]
      rfl
    · simp only [bind_eq_ok, u64_eq_ok, u32_eq_ok, pure_eq_ok] at h
      obtain ⟨start, _, rfl, stop, _, rfl, index, _, rfl, rfl, rfl⟩ := h
      simp [h1, write]
    · exact (throw_eq_ok.mp h).elim
  · rintro rfl
    cases resume with
    | clean => exact ⟨0, rest, rfl, rfl⟩
    | continuation start stop index =>
      refine ⟨1, be64 start ++ (be64 stop ++ (be32 index ++ rest)), by simp [write], ?_⟩
      rw [if_neg (by decide), if_pos rfl]
      simp only [bind_eq_ok, u64_eq_ok, u32_eq_ok, pure_eq_ok]
      exact ⟨start, _, rfl, stop, _, rfl, index, _, rfl, rfl, rfl⟩

theorem CommittedFrontierGuard.read_eq_ok {guard : CommittedFrontierGuard} :
    read bs = .ok (guard, rest) ↔ bs = guard.write ++ rest := by
  simp only [read, bind_eq_ok, u16_eq_ok, array_eq_ok, pure_eq_ok]
  constructor
  · rintro ⟨windowLen, _, rfl, digest, _, rfl, rfl, rfl⟩
    rw [write, append_assoc]
  · rintro rfl
    exact ⟨_, _, rfl, _, _, rfl, rfl, rfl⟩

theorem path_flags_eq {flags : UInt8} (h : flags &&& ~~~ 1 = 0) :
    flags = writeBool (flags &&& 1 != 0) := by
  have hall : ∀ i : Fin 256, UInt8.ofFin i &&& ~~~ 1 = 0 →
      UInt8.ofFin i = writeBool (UInt8.ofFin i &&& 1 != 0) := by decide +kernel
  exact hall flags.toFin h

theorem AdvisoryPath.read_eq_ok [Digests] {path : AdvisoryPath} :
    read bs = .ok (path, rest) ↔ bs = path.write ++ rest := by
  simp only [read, bind_eq_ok, u8_eq_ok, u16_eq_ok, u64_eq_ok, lift_eq_ok,
    ensure_eq_ok, AdvisoryPathKind.fromWire_eq_ok]
  constructor
  · rintro ⟨_, _, rfl, kind, _, ⟨rfl, rfl⟩, flags, _, rfl, _, _, ⟨hflags, rfl⟩, fullPathLen, _,
      rfl, storedLen, _, rfl, h⟩
    split_ifs at h with hle
    · simp only [bind_eq_ok, array_eq_ok] at h
      obtain ⟨stored, _, rfl, digest, _, rfl, h⟩ := h
      obtain ⟨hpath, rfl⟩ := lift_eq_ok.mp h
      obtain ⟨rfl, htruncated, rfl, hstored, rfl⟩ := validated_eq_ok.mp hpath
      simp [write, htruncated, hstored, stored.2, ← path_flags_eq hflags]
    · exact (throw_eq_ok.mp h).elim
  · rintro rfl
    have hlen : (UInt16.ofNat path.storedPathBytes.length).toNat = path.storedPathBytes.length :=
      UInt16.toNat_ofNat_of_lt' (path.stored_le.trans_lt (by decide))
    have hflags : writeBool path.truncated &&& ~~~ 1 = 0 ∧
        path.truncated = (writeBool path.truncated &&& 1 != 0) := by
      cases path.truncated <;> decide
    simp only [write, append_assoc, cons_append]
    refine ⟨_, _, rfl, path.kind, _, ⟨rfl, rfl⟩, _, _, rfl, (), _, ⟨hflags.1, rfl⟩, _, _, rfl, _, _,
      rfl, ?_⟩
    rw [dif_pos (hlen.le.trans path.stored_le)]
    simp only [bind_eq_ok, array_eq_ok]
    exact ⟨⟨path.storedPathBytes, hlen.symm⟩, _, rfl, path.fullPathDigest, _, rfl,
      lift_eq_ok.mpr ⟨validated_eq_ok.mpr ⟨rfl, hflags.2, rfl, rfl, rfl⟩, rfl⟩⟩

end

/-! # Operations of the checkpoint log

The eight operations of the write-ahead log with their codec.  `encodePayload` refuses what a
producer must not write; `decodePayload` accepts a little more, since what depends on the state is
left to replay.  Both sides meet at one layout (`Operation.wire`): the decoder accepts exactly the
layouts of `Operation.Formed` operations, and the encoder writes exactly the layouts of the
operations that pass its checks. -/

open EncodeError DecodeError

variable [Digests]

structure RegisterFile where
  fileId : FileId
  fileEpoch : UInt32
  committedOffset : UInt64
  committedFrontierGuard : CommittedFrontierGuard
  fingerprint : Bytes
  ignoredHeaderBytes : UInt32
  locator : Locator
  framingProfileVersion : UInt16
  framingProfileDigest : Digest
  framingResume : FramingResume
  lastSeenTimeUnixNano : UInt64
  advisoryPath : AdvisoryPath
  deriving DecidableEq

structure UpdateProgress where
  fileId : FileId
  expectedCommittedOffset : UInt64
  expectedFileEpoch : UInt32
  newCommittedOffset : UInt64
  newCommittedFrontierGuard : CommittedFrontierGuard
  newFramingResume : FramingResume
  newLastSeenTimeUnixNano : UInt64
  finalize : Bool
  deriving DecidableEq

structure ResetAfterTruncate where
  fileId : FileId
  expectedActiveEpoch : UInt32
  observedTruncatedSize : UInt64
  resultingEpoch : UInt32
  newCommittedOffset : UInt64
  newFramingResume : FramingResume
  newFingerprint : Bytes
  resetTimeUnixNano : UInt64
  reasonCode : UInt16
  deriving DecidableEq

structure UpdateFingerprint where
  fileId : FileId
  expectedFileEpoch : UInt32
  expectedFingerprint : Bytes
  newFingerprint : Bytes
  deriving DecidableEq

structure UpdateMetadata where
  fileId : FileId
  expectedPriorState : LifecycleState
  expectedFileEpoch : UInt32
  lastSeenTimeUnixNano : UInt64
  advisoryPath : Option AdvisoryPath
  deriving DecidableEq

structure QuarantineFile where
  fileId : FileId
  expectedFileEpoch : UInt32
  reasonCode : UInt16
  locator : Locator
  observedSize : UInt64
  quarantineEpoch : UInt32
  quarantineTimeUnixNano : UInt64
  deriving DecidableEq

inductive ResetQuarantineAction where
  | resetToBeginning
  | resetToEnd
  | keepFailed
  deriving DecidableEq, Repr

namespace ResetQuarantineAction

def toWire : ResetQuarantineAction → UInt8
  | .resetToBeginning => 1
  | .resetToEnd => 2
  | .keepFailed => 3

def fromWire (value : UInt8) : Except DecodeError ResetQuarantineAction :=
  if value = 1 then .ok .resetToBeginning
  else if value = 2 then .ok .resetToEnd
  else if value = 3 then .ok .keepFailed
  else .error (.unknownDiscriminant "reset_quarantined_file.action" value.toNat)

end ResetQuarantineAction

structure ResetQuarantinedFile where
  fileId : FileId
  expectedQuarantineEpoch : UInt32
  action : ResetQuarantineAction
  resultingEpoch : UInt32
  resultingOffset : UInt64
  newCommittedFrontierGuard : CommittedFrontierGuard
  newFramingResume : FramingResume
  newFingerprint : Bytes
  actionTimeUnixNano : UInt64
  namespaceId : String
  auditReason : String
  deriving DecidableEq

structure RemoveFile where
  fileId : FileId
  expectedFileEpoch : UInt32
  expectedPriorState : LifecycleState
  removalReason : UInt16
  removalTimeUnixNano : UInt64
  administrative : Bool
  namespaceId : Option String
  auditReason : Option String
  deriving DecidableEq

inductive Operation where
  | registerFile (op : RegisterFile)
  | updateProgress (op : UpdateProgress)
  | resetAfterTruncate (op : ResetAfterTruncate)
  | updateFingerprint (op : UpdateFingerprint)
  | updateMetadata (op : UpdateMetadata)
  | quarantineFile (op : QuarantineFile)
  | resetQuarantinedFile (op : ResetQuarantinedFile)
  | removeFile (op : RemoveFile)
  deriving DecidableEq

namespace Operation

def isUpdateProgress : Operation → Bool
  | .updateProgress _ => true
  | _ => false

def fileId : Operation → FileId
  | .registerFile op => op.fileId
  | .updateProgress op => op.fileId
  | .resetAfterTruncate op => op.fileId
  | .updateFingerprint op => op.fileId
  | .updateMetadata op => op.fileId
  | .quarantineFile op => op.fileId
  | .resetQuarantinedFile op => op.fileId
  | .removeFile op => op.fileId

/-- The code of each operation. -/
def opCode : Operation → UInt8
  | .registerFile _ => 1
  | .updateProgress _ => 2
  | .resetAfterTruncate _ => 3
  | .updateFingerprint _ => 4
  | .updateMetadata _ => 5
  | .quarantineFile _ => 6
  | .resetQuarantinedFile _ => 7
  | .removeFile _ => 8

/-! ## Checks -/

/-- The part of the format that is checked when an operation is decoded. -/
def validateDecodedStructure : Operation → Except DecodeError Unit
  | .registerFile op =>
    ensure (op.committedFrontierGuard.validForOffset op.committedOffset)
      (invalidCommittedFrontierGuard "register_file.committed_frontier_guard"
        op.committedOffset)
  | .updateProgress op =>
    ensure (op.newCommittedFrontierGuard.validForOffset op.newCommittedOffset)
      (invalidCommittedFrontierGuard "update_progress.new_committed_frontier_guard"
        op.newCommittedOffset)
  | .resetQuarantinedFile op =>
    ensure (op.newCommittedFrontierGuard.validForOffset op.resultingOffset)
      (invalidCommittedFrontierGuard "reset_quarantined_file.new_committed_frontier_guard"
        op.resultingOffset)
  | _ => .ok ()

end Operation

def requireNonzeroEpoch (field : String) (epoch : UInt32) : Except EncodeError Unit :=
  ensure (epoch ≠ 0) (invalidFieldValue field "must be nonzero")

/-- `u32::checked_add`. -/
def checkedSucc (epoch : UInt32) : Option UInt32 :=
  if epoch.toNat + 1 < 2 ^ 32 then some (epoch + 1) else none

def requireNextEpoch (field : String) (expectedEpoch resultingEpoch : UInt32) :
    Except EncodeError Unit :=
  match checkedSucc expectedEpoch with
  | none => .error (.invalidFieldValue field "expected epoch cannot be incremented")
  | some next =>
    ensure (resultingEpoch = next)
      (invalidFieldValue field "must be exactly one greater than expected epoch")

def requireGuardForOffset (field : String) (guard : CommittedFrontierGuard) (offset : UInt64) :
    Except EncodeError Unit :=
  ensure (guard.validForOffset offset)
    (invalidFieldValue field "must have the required window and canonical empty digest")

def RegisterFile.validateForEncode (op : RegisterFile) : Except EncodeError Unit := do
  requireNonzeroEpoch "register_file.file_epoch" op.fileEpoch
  ensure (op.fileEpoch = 1)
    (invalidFieldValue "register_file.file_epoch" "must be one for a new record")
  requireGuardForOffset "register_file.committed_frontier_guard" op.committedFrontierGuard
    op.committedOffset
  ensure (op.locator ≠ .unspecified)
    (invalidFieldValue "register_file.locator" "must not be Unspecified")
  ensure (op.framingProfileVersion = FilelogCheckpoint.framingProfileVersion)
    (invalidFieldValue "register_file.framing_profile_version"
      "version 1 producers must write version one")
  ensure (op.framingResume = .clean)
    (invalidFieldValue "register_file.framing_resume"
      "new records require a clean framing resume")

def UpdateProgress.validateForEncode (op : UpdateProgress) : Except EncodeError Unit := do
  requireNonzeroEpoch "update_progress.expected_file_epoch" op.expectedFileEpoch
  ensure (op.expectedCommittedOffset ≤ op.newCommittedOffset)
    (invalidFieldValue "update_progress.new_committed_offset" "must not move backward")
  requireGuardForOffset "update_progress.new_committed_frontier_guard" op.newCommittedFrontierGuard
    op.newCommittedOffset
  ensure (op.newFramingResume.validForOffset op.newCommittedOffset)
    (invalidFieldValue "update_progress.new_framing_resume"
      "is inconsistent with new_committed_offset")
  ensure (op.finalize = true → op.newFramingResume = .clean)
    (invalidFieldValue "update_progress.new_framing_resume"
      "finalization requires a clean framing resume")

def ResetAfterTruncate.validateForEncode (op : ResetAfterTruncate) : Except EncodeError Unit := do
  requireNonzeroEpoch "reset_after_truncate.expected_active_epoch" op.expectedActiveEpoch
  requireNextEpoch "reset_after_truncate.resulting_epoch" op.expectedActiveEpoch op.resultingEpoch
  ensure (op.newCommittedOffset = 0)
    (invalidFieldValue "reset_after_truncate.new_committed_offset" "must be zero")
  ensure (op.newFramingResume = .clean)
    (invalidFieldValue "reset_after_truncate.new_framing_resume" "must be clean")
  ensure (op.reasonCode = 1)
    (invalidFieldValue "reset_after_truncate.reason_code"
      "version 1 producers must write reason one")

def UpdateFingerprint.validateForEncode (op : UpdateFingerprint) : Except EncodeError Unit := do
  requireNonzeroEpoch "update_fingerprint.expected_file_epoch" op.expectedFileEpoch
  ensure (op.expectedFingerprint.length < op.newFingerprint.length ∧
      op.expectedFingerprint <+: op.newFingerprint)
    (invalidFieldValue "update_fingerprint.new_fingerprint"
      "must strictly extend expected_fingerprint")

def UpdateMetadata.validateForEncode (op : UpdateMetadata) : Except EncodeError Unit := do
  requireNonzeroEpoch "update_metadata.expected_file_epoch" op.expectedFileEpoch
  ensure (op.expectedPriorState ≠ .rotatedFinalized)
    (invalidFieldValue "update_metadata.expected_prior_state"
      "must be Active or Quarantined")

def QuarantineFile.validateForEncode (op : QuarantineFile) : Except EncodeError Unit := do
  requireNonzeroEpoch "quarantine_file.expected_file_epoch" op.expectedFileEpoch
  ensure (¬ quarantineReasonReserved op.reasonCode)
    (reservedReasonCode "quarantine_file.reason_code" op.reasonCode)
  ensure (op.locator ≠ .unspecified)
    (invalidFieldValue "quarantine_file.locator" "must not be Unspecified")
  ensure (op.quarantineEpoch = op.expectedFileEpoch)
    (invalidFieldValue "quarantine_file.quarantine_epoch"
      "must equal expected_file_epoch")

def ResetQuarantinedFile.validateForEncode (op : ResetQuarantinedFile) :
    Except EncodeError Unit := do
  requireNonzeroEpoch "reset_quarantined_file.expected_quarantine_epoch" op.expectedQuarantineEpoch
  ensure (op.namespaceId ≠ "")
    (requiredFieldEmpty "reset_quarantined_file.namespace_id")
  ensure (op.auditReason ≠ "")
    (requiredFieldEmpty "reset_quarantined_file.audit_reason")
  match op.action with
  | .resetToBeginning => do
    requireNextEpoch "reset_quarantined_file.resulting_epoch" op.expectedQuarantineEpoch
      op.resultingEpoch
    ensure (op.resultingOffset = 0)
      (invalidFieldValue "reset_quarantined_file.resulting_offset"
        "reset_to_beginning requires zero")
    requireGuardForOffset "reset_quarantined_file.new_committed_frontier_guard"
      op.newCommittedFrontierGuard 0
    ensure (op.newFramingResume = .clean)
      (invalidFieldValue "reset_quarantined_file.new_framing_resume"
        "reset_to_beginning requires clean")
  | .resetToEnd => do
    requireNextEpoch "reset_quarantined_file.resulting_epoch" op.expectedQuarantineEpoch
      op.resultingEpoch
    requireGuardForOffset "reset_quarantined_file.new_committed_frontier_guard"
      op.newCommittedFrontierGuard op.resultingOffset
    ensure (op.newFramingResume = .clean)
      (invalidFieldValue "reset_quarantined_file.new_framing_resume"
        "reset_to_end requires clean")
  | .keepFailed => do
    ensure (op.resultingEpoch = op.expectedQuarantineEpoch)
      (invalidFieldValue "reset_quarantined_file.resulting_epoch"
        "must equal expected_quarantine_epoch for keep_failed")
    requireGuardForOffset "reset_quarantined_file.new_committed_frontier_guard"
      op.newCommittedFrontierGuard op.resultingOffset

def RemoveFile.validateForEncode (op : RemoveFile) : Except EncodeError Unit := do
  requireNonzeroEpoch "remove_file.expected_file_epoch" op.expectedFileEpoch
  ensure (op.removalReason ≠ 0)
    (reservedReasonCode "remove_file.removal_reason" op.removalReason)
  ensure (op.administrative = true ∨ op.expectedPriorState = .active)
    (invalidFieldValue "remove_file.expected_prior_state"
      "non-administrative removal requires Active")
  match op.administrative, op.namespaceId, op.auditReason with
  | true, some namespaceId, some reason => do
    ensure (namespaceId ≠ "") (requiredFieldEmpty "remove_file.namespace_id")
    ensure (reason ≠ "") (requiredFieldEmpty "remove_file.audit_reason")
  | false, none, none => pure ()
  | _, _, _ =>
    .error (.invalidFieldValue "remove_file.administrative"
      "flag and administrative fields must agree")

def Operation.validateForEncode : Operation → Except EncodeError Unit
  | .registerFile op => op.validateForEncode
  | .updateProgress op => op.validateForEncode
  | .resetAfterTruncate op => op.validateForEncode
  | .updateFingerprint op => op.validateForEncode
  | .updateMetadata op => op.validateForEncode
  | .quarantineFile op => op.validateForEncode
  | .resetQuarantinedFile op => op.validateForEncode
  | .removeFile op => op.validateForEncode

/-! ## Encoding -/

def RegisterFile.encodeFields (op : RegisterFile) : Except EncodeError Bytes := do
  let fingerprint ← writeVarBytes "register_file.fingerprint" op.fingerprint fingerprintMaxBytes
  pure (be32 op.fileEpoch ++ be64 op.committedOffset ++ op.committedFrontierGuard.write ++
    fingerprint ++ be32 op.ignoredHeaderBytes ++ op.locator.write ++
    be16 op.framingProfileVersion ++ op.framingProfileDigest.1 ++ op.framingResume.write ++
    be64 op.lastSeenTimeUnixNano ++ op.advisoryPath.write)

def UpdateProgress.encodeFields (op : UpdateProgress) : Except EncodeError Bytes :=
  pure (be64 op.expectedCommittedOffset ++ be32 op.expectedFileEpoch ++
    be64 op.newCommittedOffset ++ op.newCommittedFrontierGuard.write ++ op.newFramingResume.write ++
    be64 op.newLastSeenTimeUnixNano ++ [writeBool op.finalize])

def ResetAfterTruncate.encodeFields (op : ResetAfterTruncate) : Except EncodeError Bytes := do
  let fingerprint ← writeVarBytes "reset_after_truncate.new_fingerprint" op.newFingerprint
    fingerprintMaxBytes
  pure (be32 op.expectedActiveEpoch ++ be64 op.observedTruncatedSize ++ be32 op.resultingEpoch ++
    be64 op.newCommittedOffset ++ op.newFramingResume.write ++ fingerprint ++
    be64 op.resetTimeUnixNano ++ be16 op.reasonCode)

def UpdateFingerprint.encodeFields (op : UpdateFingerprint) : Except EncodeError Bytes := do
  let expected ← writeVarBytes "update_fingerprint.expected_fingerprint" op.expectedFingerprint
    fingerprintMaxBytes
  let new ← writeVarBytes "update_fingerprint.new_fingerprint" op.newFingerprint
    fingerprintMaxBytes
  pure (be32 op.expectedFileEpoch ++ expected ++ new)

def UpdateMetadata.encodeFields (op : UpdateMetadata) : Except EncodeError Bytes :=
  pure ([op.expectedPriorState.toWire] ++ be32 op.expectedFileEpoch ++
    [if op.advisoryPath.isSome then 1 else 0] ++ be64 op.lastSeenTimeUnixNano ++
    (match op.advisoryPath with
      | some path => path.write
      | none => []))

def QuarantineFile.encodeFields (op : QuarantineFile) : Except EncodeError Bytes :=
  pure (be32 op.expectedFileEpoch ++ be16 op.reasonCode ++ op.locator.write ++
    be64 op.observedSize ++ be32 op.quarantineEpoch ++ be64 op.quarantineTimeUnixNano)

def ResetQuarantinedFile.encodeFields (op : ResetQuarantinedFile) : Except EncodeError Bytes := do
  let fingerprint ← writeVarBytes "reset_quarantined_file.new_fingerprint" op.newFingerprint
    fingerprintMaxBytes
  let namespaceId ← writeVarBytes "reset_quarantined_file.namespace_id" (utf8 op.namespaceId)
    namespaceIdMaxBytes
  let auditReason ← writeVarBytes "reset_quarantined_file.audit_reason" (utf8 op.auditReason)
    auditReasonMaxBytes
  pure (be32 op.expectedQuarantineEpoch ++ [op.action.toWire] ++ be32 op.resultingEpoch ++
    be64 op.resultingOffset ++ op.newCommittedFrontierGuard.write ++ op.newFramingResume.write ++
    fingerprint ++ be64 op.actionTimeUnixNano ++ namespaceId ++ auditReason)

def RemoveFile.encodeAdministration (op : RemoveFile) : Except EncodeError Bytes :=
  match op.administrative, op.namespaceId, op.auditReason with
  | true, some namespaceId, some reason => do
    let namespaceId ← writeVarBytes "remove_file.namespace_id" (utf8 namespaceId)
      namespaceIdMaxBytes
    let auditReason ← writeVarBytes "remove_file.audit_reason" (utf8 reason) auditReasonMaxBytes
    pure (namespaceId ++ auditReason)
  | false, none, none => pure (be16 0 ++ be16 0)
  -- `unreachable!`: `validateForEncode` refuses these shapes before.
  | _, _, _ => pure []

def RemoveFile.encodeFields (op : RemoveFile) : Except EncodeError Bytes := do
  let administration ← op.encodeAdministration
  pure (be32 op.expectedFileEpoch ++ [op.expectedPriorState.toWire] ++ be16 op.removalReason ++
    be64 op.removalTimeUnixNano ++ [writeBool op.administrative] ++ administration)

def Operation.encodeFields : Operation → Except EncodeError Bytes
  | .registerFile op => op.encodeFields
  | .updateProgress op => op.encodeFields
  | .resetAfterTruncate op => op.encodeFields
  | .updateFingerprint op => op.encodeFields
  | .updateMetadata op => op.encodeFields
  | .quarantineFile op => op.encodeFields
  | .resetQuarantinedFile op => op.encodeFields
  | .removeFile op => op.encodeFields

def Operation.encodePayload (op : Operation) : Except EncodeError Bytes := do
  op.validateForEncode
  let fields ← op.encodeFields
  pure (op.opCode :: (op.fileId.1 ++ fields))

/-! ## Decoding -/

variable (fileId : FileId)

def RegisterFile.read : Reader DecodeError RegisterFile := do
  let fileEpoch ← u32
  let committedOffset ← u64
  let committedFrontierGuard ← CommittedFrontierGuard.read
  let fingerprint ← readVarBytes "register_file.fingerprint" fingerprintMaxBytes
  let ignoredHeaderBytes ← u32
  let locator ← Locator.read
  let framingProfileVersion ← u16
  let framingProfileDigest ← array 32
  let framingResume ← FramingResume.read
  let lastSeenTimeUnixNano ← u64
  let advisoryPath ← AdvisoryPath.read
  pure ⟨fileId, fileEpoch, committedOffset, committedFrontierGuard, fingerprint,
    ignoredHeaderBytes, locator, framingProfileVersion, framingProfileDigest, framingResume,
    lastSeenTimeUnixNano, advisoryPath⟩

def UpdateProgress.read : Reader DecodeError UpdateProgress := do
  let expectedCommittedOffset ← u64
  let expectedFileEpoch ← u32
  let newCommittedOffset ← u64
  let newCommittedFrontierGuard ← CommittedFrontierGuard.read
  let newFramingResume ← FramingResume.read
  let newLastSeenTimeUnixNano ← u64
  let finalize ← readBool "update_progress.finalize"
  pure ⟨fileId, expectedCommittedOffset, expectedFileEpoch, newCommittedOffset,
    newCommittedFrontierGuard, newFramingResume, newLastSeenTimeUnixNano, finalize⟩

def ResetAfterTruncate.read : Reader DecodeError ResetAfterTruncate := do
  let expectedActiveEpoch ← u32
  let observedTruncatedSize ← u64
  let resultingEpoch ← u32
  let newCommittedOffset ← u64
  let newFramingResume ← FramingResume.read
  let newFingerprint ← readVarBytes "reset_after_truncate.new_fingerprint" fingerprintMaxBytes
  let resetTimeUnixNano ← u64
  let reasonCode ← u16
  pure ⟨fileId, expectedActiveEpoch, observedTruncatedSize, resultingEpoch, newCommittedOffset,
    newFramingResume, newFingerprint, resetTimeUnixNano, reasonCode⟩

def UpdateFingerprint.read : Reader DecodeError UpdateFingerprint := do
  let expectedFileEpoch ← u32
  let expectedFingerprint ← readVarBytes "update_fingerprint.expected_fingerprint"
    fingerprintMaxBytes
  let newFingerprint ← readVarBytes "update_fingerprint.new_fingerprint" fingerprintMaxBytes
  pure ⟨fileId, expectedFileEpoch, expectedFingerprint, newFingerprint⟩

/-- A metadata update does not name the finalized state. -/
def readPriorState : Reader DecodeError LifecycleState := do
  let value ← u8
  if value = 1 then pure .active
  else if value = 3 then pure .quarantined
  else throw (.unknownDiscriminant "update_metadata.expected_prior_state" value.toNat)

def readOptionalPath (present : Bool) : Reader DecodeError (Option AdvisoryPath) :=
  if present then do
    let path ← AdvisoryPath.read
    pure (some path)
  else pure none

def UpdateMetadata.read : Reader DecodeError UpdateMetadata := do
  let expectedPriorState ← readPriorState
  let expectedFileEpoch ← u32
  let presence ← u8
  ensure (presence &&& ~~~ 1 = 0)
    (reservedFieldNonZero "update_metadata.presence_flags" presence.toNat)
  let lastSeenTimeUnixNano ← u64
  let advisoryPath ← readOptionalPath (presence &&& 1 != 0)
  pure ⟨fileId, expectedPriorState, expectedFileEpoch, lastSeenTimeUnixNano, advisoryPath⟩

def QuarantineFile.read : Reader DecodeError QuarantineFile := do
  let expectedFileEpoch ← u32
  let reasonCode ← u16
  let locator ← Locator.read
  let observedSize ← u64
  let quarantineEpoch ← u32
  let quarantineTimeUnixNano ← u64
  pure ⟨fileId, expectedFileEpoch, reasonCode, locator, observedSize, quarantineEpoch,
    quarantineTimeUnixNano⟩

def ResetQuarantinedFile.read : Reader DecodeError ResetQuarantinedFile := do
  let expectedQuarantineEpoch ← u32
  let actionByte ← u8
  let action ← lift (ResetQuarantineAction.fromWire actionByte)
  let resultingEpoch ← u32
  let resultingOffset ← u64
  let newCommittedFrontierGuard ← CommittedFrontierGuard.read
  let newFramingResume ← FramingResume.read
  let newFingerprint ← readVarBytes "reset_quarantined_file.new_fingerprint" fingerprintMaxBytes
  let actionTimeUnixNano ← u64
  let namespaceId ← readVarString "reset_quarantined_file.namespace_id" namespaceIdMaxBytes
  ensure (namespaceId ≠ "")
    (emptyRequiredField "reset_quarantined_file.namespace_id")
  let auditReason ← readVarString "reset_quarantined_file.audit_reason" auditReasonMaxBytes
  ensure (auditReason ≠ "")
    (emptyRequiredField "reset_quarantined_file.audit_reason")
  pure ⟨fileId, expectedQuarantineEpoch, action, resultingEpoch, resultingOffset,
    newCommittedFrontierGuard, newFramingResume, newFingerprint, actionTimeUnixNano, namespaceId,
    auditReason⟩

/-- The administrative fields are there exactly if the flag is set. -/
def administrativeFields (administrative : Bool) (namespaceId reason : String) :
    Except DecodeError (Option String × Option String) :=
  if administrative then do
    ensure (namespaceId ≠ "") (emptyRequiredField "remove_file.namespace_id")
    ensure (reason ≠ "") (emptyRequiredField "remove_file.audit_reason")
    pure (some namespaceId, some reason)
  else do
    ensure (namespaceId = "") (unexpectedPresentField "remove_file.namespace_id")
    ensure (reason = "") (unexpectedPresentField "remove_file.audit_reason")
    pure (none, none)

def RemoveFile.read : Reader DecodeError RemoveFile := do
  let expectedFileEpoch ← u32
  let stateByte ← u8
  let expectedPriorState ←
    lift (LifecycleState.fromWire stateByte "remove_file.expected_prior_state")
  let removalReason ← u16
  let removalTimeUnixNano ← u64
  let administrative ← readBool "remove_file.administrative"
  let namespaceId ← readVarString "remove_file.namespace_id" namespaceIdMaxBytes
  let reason ← readVarString "remove_file.audit_reason" auditReasonMaxBytes
  let fields ← lift (administrativeFields administrative namespaceId reason)
  pure ⟨fileId, expectedFileEpoch, expectedPriorState, removalReason, removalTimeUnixNano,
    administrative, fields.1, fields.2⟩

def Operation.read : Reader DecodeError Operation := do
  let opCode ← u8
  let fileId ← array 16
  if opCode = 1 then do
    let op ← RegisterFile.read fileId
    pure (.registerFile op)
  else if opCode = 2 then do
    let op ← UpdateProgress.read fileId
    pure (.updateProgress op)
  else if opCode = 3 then do
    let op ← ResetAfterTruncate.read fileId
    pure (.resetAfterTruncate op)
  else if opCode = 4 then do
    let op ← UpdateFingerprint.read fileId
    pure (.updateFingerprint op)
  else if opCode = 5 then do
    let op ← UpdateMetadata.read fileId
    pure (.updateMetadata op)
  else if opCode = 6 then do
    let op ← QuarantineFile.read fileId
    pure (.quarantineFile op)
  else if opCode = 7 then do
    let op ← ResetQuarantinedFile.read fileId
    pure (.resetQuarantinedFile op)
  else if opCode = 8 then do
    let op ← RemoveFile.read fileId
    pure (.removeFile op)
  else throw (.unknownDiscriminant "operation.op_code" opCode.toNat)

def Operation.decodePayload (bytes : Bytes) : Except DecodeError Operation := do
  let (operation, rest) ← Operation.read bytes
  ensure (rest.length = 0)
    (unconsumedBytes "WAL operation" bytes.length (bytes.length - rest.length))
  operation.validateDecodedStructure
  pure operation

end OtapDataflow.FilelogCheckpoint
