import OtapDataflow.FilelogCheckpoint.Operation

/-! # The layout of operations

Each operation has one layout, `Operation.wire`.  The decoder accepts the layouts of `Formed`
operations and no other byte strings (`decodePayload_eq_ok`); the encoder writes the layout of an
operation that passes the producer checks and whose fields fit (`encodePayload_eq_ok`); and such an
operation is formed (`formed_of_validate`). -/

namespace OtapDataflow.FilelogCheckpoint

open Bytes Codec List

variable {bs rest out : Bytes} {fileId : FileId}

/-! ## Layouts -/

def RegisterFile.fields [Digests] (op : RegisterFile) : Bytes :=
  be32 op.fileEpoch ++ be64 op.committedOffset ++ op.committedFrontierGuard.write ++
    prefixed op.fingerprint ++ be32 op.ignoredHeaderBytes ++ op.locator.write ++
    be16 op.framingProfileVersion ++ op.framingProfileDigest.1 ++ op.framingResume.write ++
    be64 op.lastSeenTimeUnixNano ++ op.advisoryPath.write

def UpdateProgress.fields (op : UpdateProgress) : Bytes :=
  be64 op.expectedCommittedOffset ++ be32 op.expectedFileEpoch ++ be64 op.newCommittedOffset ++
    op.newCommittedFrontierGuard.write ++ op.newFramingResume.write ++
    be64 op.newLastSeenTimeUnixNano ++ [writeBool op.finalize]

def ResetAfterTruncate.fields (op : ResetAfterTruncate) : Bytes :=
  be32 op.expectedActiveEpoch ++ be64 op.observedTruncatedSize ++ be32 op.resultingEpoch ++
    be64 op.newCommittedOffset ++ op.newFramingResume.write ++ prefixed op.newFingerprint ++
    be64 op.resetTimeUnixNano ++ be16 op.reasonCode

def UpdateFingerprint.fields (op : UpdateFingerprint) : Bytes :=
  be32 op.expectedFileEpoch ++ prefixed op.expectedFingerprint ++ prefixed op.newFingerprint

def UpdateMetadata.fields [Digests] (op : UpdateMetadata) : Bytes :=
  [op.expectedPriorState.toWire] ++ be32 op.expectedFileEpoch ++
    [writeBool op.advisoryPath.isSome] ++ be64 op.lastSeenTimeUnixNano ++
    (op.advisoryPath.map AdvisoryPath.write).getD []

def QuarantineFile.fields (op : QuarantineFile) : Bytes :=
  be32 op.expectedFileEpoch ++ be16 op.reasonCode ++ op.locator.write ++ be64 op.observedSize ++
    be32 op.quarantineEpoch ++ be64 op.quarantineTimeUnixNano

def ResetQuarantinedFile.fields (op : ResetQuarantinedFile) : Bytes :=
  be32 op.expectedQuarantineEpoch ++ [op.action.toWire] ++ be32 op.resultingEpoch ++
    be64 op.resultingOffset ++ op.newCommittedFrontierGuard.write ++ op.newFramingResume.write ++
    prefixed op.newFingerprint ++ be64 op.actionTimeUnixNano ++ prefixed (utf8 op.namespaceId) ++
    prefixed (utf8 op.auditReason)

def RemoveFile.fields (op : RemoveFile) : Bytes :=
  be32 op.expectedFileEpoch ++ [op.expectedPriorState.toWire] ++ be16 op.removalReason ++
    be64 op.removalTimeUnixNano ++ [writeBool op.administrative] ++
    prefixed (utf8 (op.namespaceId.getD "")) ++ prefixed (utf8 (op.auditReason.getD ""))

namespace Operation

variable [Digests]

def fields : Operation → Bytes
  | .registerFile op => op.fields
  | .updateProgress op => op.fields
  | .resetAfterTruncate op => op.fields
  | .updateFingerprint op => op.fields
  | .updateMetadata op => op.fields
  | .quarantineFile op => op.fields
  | .resetQuarantinedFile op => op.fields
  | .removeFile op => op.fields

/-- **The layout of an operation.** -/
def wire (op : Operation) : Bytes := op.opCode :: (op.fileId.1 ++ op.fields)

/-- Every field with a length of its own fits it. -/
def Fits : Operation → Prop
  | .registerFile op => FieldFits fingerprintMaxBytes op.fingerprint
  | .resetAfterTruncate op => FieldFits fingerprintMaxBytes op.newFingerprint
  | .updateFingerprint op =>
    FieldFits fingerprintMaxBytes op.expectedFingerprint ∧
      FieldFits fingerprintMaxBytes op.newFingerprint
  | .resetQuarantinedFile op =>
    FieldFits fingerprintMaxBytes op.newFingerprint ∧
      FieldFits namespaceIdMaxBytes (utf8 op.namespaceId) ∧
      FieldFits auditReasonMaxBytes (utf8 op.auditReason)
  | .removeFile op =>
    FieldFits namespaceIdMaxBytes (utf8 (op.namespaceId.getD "")) ∧
      FieldFits auditReasonMaxBytes (utf8 (op.auditReason.getD ""))
  | _ => True

end Operation

/-- The administrative fields are there, and not empty, exactly if the flag is set. -/
def RemoveFile.Shaped (op : RemoveFile) : Prop :=
  (op.administrative = true ∧ ∃ namespaceId reason, namespaceId ≠ "" ∧ reason ≠ "" ∧
      op.namespaceId = some namespaceId ∧ op.auditReason = some reason) ∨
    (op.administrative = false ∧ op.namespaceId = none ∧ op.auditReason = none)

/-- What the layout itself asks of an operation. -/
def Operation.Shaped [Digests] : Operation → Prop
  | .updateMetadata op => op.expectedPriorState ≠ .rotatedFinalized
  | .resetQuarantinedFile op => op.namespaceId ≠ "" ∧ op.auditReason ≠ ""
  | .removeFile op => op.Shaped
  | _ => True

/-- The operations that can be decoded. -/
structure Operation.Formed [Digests] (op : Operation) : Prop where
  fits : op.Fits
  shaped : op.Shaped
  structured : op.validateDecodedStructure = .ok ()

/-! ## Lengths -/

theorem length_prefixed (bytes : Bytes) : (prefixed bytes).length = 2 + bytes.length := by
  rw [prefixed, length_append, length_be16]

theorem Locator.length_write_le (locator : Locator) : locator.write.length ≤ 25 := by
  cases locator with
  | unspecified => decide
  | posixDevIno dev ino => simp [Locator.write]
  | windowsVolumeFileId serial fileId => simp [Locator.write, fileId.2]

theorem FramingResume.length_write_le (resume : FramingResume) : resume.write.length ≤ 21 := by
  cases resume with
  | clean => decide
  | continuation start stop index => simp [FramingResume.write]

theorem CommittedFrontierGuard.length_write (guard : CommittedFrontierGuard) :
    guard.write.length = 34 := by
  rw [CommittedFrontierGuard.write, length_append, length_be16, guard.digest.2]

theorem AdvisoryPath.length_write_le [Digests] (path : AdvisoryPath) :
    path.write.length ≤ 4140 := by
  have hstored : path.storedPathBytes.length ≤ 4096 := path.stored_le
  simp only [AdvisoryPath.write, length_cons, length_append, length_be64, length_be16,
    path.fullPathDigest.2]
  omega

/-! ## Readers -/

theorem RegisterFile.read_eq_ok [Digests] {op : RegisterFile} :
    RegisterFile.read fileId bs = .ok (op, rest) ↔
      op.fileId = fileId ∧ FieldFits fingerprintMaxBytes op.fingerprint ∧
        bs = op.fields ++ rest := by
  simp only [RegisterFile.read, bind_eq_ok, u16_eq_ok, u32_eq_ok, u64_eq_ok, array_eq_ok,
    CommittedFrontierGuard.read_eq_ok, readVarBytes_eq_ok, Locator.read_eq_ok,
    FramingResume.read_eq_ok, AdvisoryPath.read_eq_ok, pure_eq_ok]
  constructor
  · rintro ⟨_, _, rfl, _, _, rfl, _, _, rfl, _, _, ⟨hfits, rfl⟩, _, _, rfl, _, _, rfl, _, _, rfl,
      _, _, rfl, _, _, rfl, _, _, rfl, _, _, rfl, rfl, rfl⟩
    refine ⟨rfl, hfits, ?_⟩
    simp [RegisterFile.fields]
  · rintro ⟨rfl, hfits, rfl⟩
    simp only [RegisterFile.fields, append_assoc]
    exact ⟨_, _, rfl, _, _, rfl, _, _, rfl, _, _, ⟨hfits, rfl⟩, _, _, rfl, _, _, rfl, _, _, rfl,
      _, _, rfl, _, _, rfl, _, _, rfl, _, _, rfl, rfl, rfl⟩

theorem UpdateProgress.read_eq_ok {op : UpdateProgress} :
    UpdateProgress.read fileId bs = .ok (op, rest) ↔
      op.fileId = fileId ∧ bs = op.fields ++ rest := by
  simp only [UpdateProgress.read, bind_eq_ok, u32_eq_ok, u64_eq_ok,
    CommittedFrontierGuard.read_eq_ok, FramingResume.read_eq_ok, readBool_eq_ok, pure_eq_ok]
  constructor
  · rintro ⟨_, _, rfl, _, _, rfl, _, _, rfl, _, _, rfl, _, _, rfl, _, _, rfl, _, _, rfl, rfl, rfl⟩
    refine ⟨rfl, ?_⟩
    simp [UpdateProgress.fields]
  · rintro ⟨rfl, rfl⟩
    simp only [UpdateProgress.fields, append_assoc, cons_append, nil_append]
    exact ⟨_, _, rfl, _, _, rfl, _, _, rfl, _, _, rfl, _, _, rfl, _, _, rfl, _, _, rfl, rfl, rfl⟩

theorem ResetAfterTruncate.read_eq_ok {op : ResetAfterTruncate} :
    ResetAfterTruncate.read fileId bs = .ok (op, rest) ↔
      op.fileId = fileId ∧ FieldFits fingerprintMaxBytes op.newFingerprint ∧
        bs = op.fields ++ rest := by
  simp only [ResetAfterTruncate.read, bind_eq_ok, u16_eq_ok, u32_eq_ok, u64_eq_ok,
    readVarBytes_eq_ok, FramingResume.read_eq_ok, pure_eq_ok]
  constructor
  · rintro ⟨_, _, rfl, _, _, rfl, _, _, rfl, _, _, rfl, _, _, rfl, _, _, ⟨hfits, rfl⟩, _, _, rfl,
      _, _, rfl, rfl, rfl⟩
    refine ⟨rfl, hfits, ?_⟩
    simp [ResetAfterTruncate.fields]
  · rintro ⟨rfl, hfits, rfl⟩
    simp only [ResetAfterTruncate.fields, append_assoc]
    exact ⟨_, _, rfl, _, _, rfl, _, _, rfl, _, _, rfl, _, _, rfl, _, _, ⟨hfits, rfl⟩, _, _, rfl,
      _, _, rfl, rfl, rfl⟩

theorem UpdateFingerprint.read_eq_ok {op : UpdateFingerprint} :
    UpdateFingerprint.read fileId bs = .ok (op, rest) ↔
      op.fileId = fileId ∧ (FieldFits fingerprintMaxBytes op.expectedFingerprint ∧
        FieldFits fingerprintMaxBytes op.newFingerprint) ∧ bs = op.fields ++ rest := by
  simp only [UpdateFingerprint.read, bind_eq_ok, u32_eq_ok, readVarBytes_eq_ok, pure_eq_ok]
  constructor
  · rintro ⟨_, _, rfl, _, _, ⟨hexpected, rfl⟩, _, _, ⟨hnew, rfl⟩, rfl, rfl⟩
    refine ⟨rfl, ⟨hexpected, hnew⟩, ?_⟩
    simp [UpdateFingerprint.fields]
  · rintro ⟨rfl, ⟨hexpected, hnew⟩, rfl⟩
    simp only [UpdateFingerprint.fields, append_assoc]
    exact ⟨_, _, rfl, _, _, ⟨hexpected, rfl⟩, _, _, ⟨hnew, rfl⟩, rfl, rfl⟩

theorem readPriorState_eq_ok {state : LifecycleState} :
    readPriorState bs = .ok (state, rest) ↔
      state ≠ .rotatedFinalized ∧ bs = state.toWire :: rest := by
  simp only [readPriorState, bind_eq_ok, u8_eq_ok]
  constructor
  · rintro ⟨value, mid, rfl, h⟩
    split_ifs at h with h1 h3
    · obtain ⟨rfl, rfl⟩ := pure_eq_ok.mp h
      exact ⟨nofun, by rw [h1]; rfl⟩
    · obtain ⟨rfl, rfl⟩ := pure_eq_ok.mp h
      exact ⟨nofun, by rw [h3]; rfl⟩
    · exact (throw_eq_ok.mp h).elim
  · rintro ⟨hne, rfl⟩
    cases state with
    | active => exact ⟨1, rest, rfl, rfl⟩
    | rotatedFinalized => exact absurd rfl hne
    | quarantined => exact ⟨3, rest, rfl, rfl⟩

theorem readOptionalPath_eq_ok [Digests] {present : Bool} {path : Option AdvisoryPath} :
    readOptionalPath present bs = .ok (path, rest) ↔
      path.isSome = present ∧ bs = (path.map AdvisoryPath.write).getD [] ++ rest := by
  cases present with
  | false =>
    rw [readOptionalPath, if_neg Bool.false_ne_true, pure_eq_ok]
    cases path with
    | none => exact ⟨fun h => ⟨rfl, h.2⟩, fun h => ⟨rfl, h.2⟩⟩
    | some path => exact ⟨fun h => (nomatch h.1), fun h => (nomatch h.1)⟩
  | true =>
    simp only [readOptionalPath, if_pos, bind_eq_ok, AdvisoryPath.read_eq_ok, pure_eq_ok]
    cases path with
    | none => exact ⟨fun ⟨_, _, _, h, _⟩ => (nomatch h), fun h => (nomatch h.1)⟩
    | some path =>
      constructor
      · rintro ⟨_, _, rfl, h, rfl⟩
        cases h
        exact ⟨rfl, rfl⟩
      · rintro ⟨-, rfl⟩
        exact ⟨path, rest, rfl, rfl, rfl⟩

theorem UpdateMetadata.read_eq_ok [Digests] {op : UpdateMetadata} :
    UpdateMetadata.read fileId bs = .ok (op, rest) ↔
      op.fileId = fileId ∧ op.expectedPriorState ≠ .rotatedFinalized ∧
        bs = op.fields ++ rest := by
  simp only [UpdateMetadata.read, bind_eq_ok, u8_eq_ok, u32_eq_ok, u64_eq_ok, ensure_eq_ok,
    readPriorState_eq_ok, readOptionalPath_eq_ok, pure_eq_ok]
  constructor
  · rintro ⟨_, _, ⟨hstate, rfl⟩, _, _, rfl, presence, _, rfl, _, _, ⟨hflags, rfl⟩, _, _, rfl, path,
      _, ⟨hpath, rfl⟩, rfl, rfl⟩
    refine ⟨rfl, hstate, ?_⟩
    simp [UpdateMetadata.fields, hpath, ← path_flags_eq hflags]
  · rintro ⟨rfl, hstate, rfl⟩
    have hflags : writeBool op.advisoryPath.isSome &&& ~~~ 1 = 0 ∧
        op.advisoryPath.isSome = (writeBool op.advisoryPath.isSome &&& 1 != 0) := by
      cases op.advisoryPath.isSome <;> decide
    exact ⟨_, _, ⟨hstate, rfl⟩, _, _, rfl, _, _, rfl, (), _, ⟨hflags.1, rfl⟩, _, _, rfl, _, _,
      ⟨hflags.2, rfl⟩, rfl, rfl⟩

theorem QuarantineFile.read_eq_ok {op : QuarantineFile} :
    QuarantineFile.read fileId bs = .ok (op, rest) ↔
      op.fileId = fileId ∧ bs = op.fields ++ rest := by
  simp only [QuarantineFile.read, bind_eq_ok, u16_eq_ok, u32_eq_ok, u64_eq_ok, Locator.read_eq_ok,
    pure_eq_ok]
  constructor
  · rintro ⟨_, _, rfl, _, _, rfl, _, _, rfl, _, _, rfl, _, _, rfl, _, _, rfl, rfl, rfl⟩
    refine ⟨rfl, ?_⟩
    simp [QuarantineFile.fields]
  · rintro ⟨rfl, rfl⟩
    simp only [QuarantineFile.fields, append_assoc]
    exact ⟨_, _, rfl, _, _, rfl, _, _, rfl, _, _, rfl, _, _, rfl, _, _, rfl, rfl, rfl⟩

theorem ResetQuarantineAction.fromWire_eq_ok {value : UInt8} {action : ResetQuarantineAction} :
    ResetQuarantineAction.fromWire value = .ok action ↔ value = action.toWire := by
  constructor
  · intro h
    rw [ResetQuarantineAction.fromWire] at h
    split_ifs at h <;> cases h <;> assumption
  · rintro rfl
    cases action <;> rfl

theorem ResetQuarantinedFile.read_eq_ok {op : ResetQuarantinedFile} :
    ResetQuarantinedFile.read fileId bs = .ok (op, rest) ↔
      op.fileId = fileId ∧ (FieldFits fingerprintMaxBytes op.newFingerprint ∧
        FieldFits namespaceIdMaxBytes (utf8 op.namespaceId) ∧
        FieldFits auditReasonMaxBytes (utf8 op.auditReason)) ∧
        (op.namespaceId ≠ "" ∧ op.auditReason ≠ "") ∧ bs = op.fields ++ rest := by
  simp only [ResetQuarantinedFile.read, bind_eq_ok, u8_eq_ok, u32_eq_ok, u64_eq_ok, lift_eq_ok,
    ensure_eq_ok, ResetQuarantineAction.fromWire_eq_ok, CommittedFrontierGuard.read_eq_ok,
    FramingResume.read_eq_ok, readVarBytes_eq_ok, readVarString_eq_ok, pure_eq_ok]
  constructor
  · rintro ⟨_, _, rfl, _, _, rfl, _, _, ⟨rfl, rfl⟩, _, _, rfl, _, _, rfl, _, _, rfl, _, _, rfl, _,
      _, ⟨hfits, rfl⟩, _, _, rfl, _, _, ⟨hns, rfl⟩, _, _, ⟨hns', rfl⟩, _, _, ⟨hreason, rfl⟩, _, _,
      ⟨hreason', rfl⟩, rfl, rfl⟩
    refine ⟨rfl, ⟨hfits, hns, hreason⟩, ⟨hns', hreason'⟩, ?_⟩
    simp [ResetQuarantinedFile.fields]
  · rintro ⟨rfl, ⟨hfits, hns, hreason⟩, ⟨hns', hreason'⟩, rfl⟩
    simp only [ResetQuarantinedFile.fields, append_assoc, cons_append, nil_append]
    exact ⟨_, _, rfl, _, _, rfl, _, _, ⟨rfl, rfl⟩, _, _, rfl, _, _, rfl, _, _, rfl, _, _, rfl, _,
      _, ⟨hfits, rfl⟩, _, _, rfl, _, _, ⟨hns, rfl⟩, (), _, ⟨hns', rfl⟩, _, _, ⟨hreason, rfl⟩, (),
      _, ⟨hreason', rfl⟩, rfl, rfl⟩

theorem administrativeFields_eq_ok {administrative : Bool} {namespaceId reason : String}
    {fields : Option String × Option String} :
    administrativeFields administrative namespaceId reason = .ok fields ↔
      (administrative = true ∧ namespaceId ≠ "" ∧ reason ≠ "" ∧
          fields = (some namespaceId, some reason)) ∨
        (administrative = false ∧ namespaceId = "" ∧ reason = "" ∧ fields = (none, none)) := by
  cases administrative with
  | true =>
    simp only [administrativeFields, if_pos, except_bind_eq_ok, except_ensure_eq_ok]
    constructor
    · rintro ⟨_, hns, _, hreason, h⟩
      exact .inl ⟨trivial, hns, hreason, (Except.ok.inj h).symm⟩
    · rintro (⟨-, hns, hreason, rfl⟩ | ⟨h, -⟩)
      · exact ⟨(), hns, (), hreason, rfl⟩
      · cases h
  | false =>
    simp only [administrativeFields, Bool.false_eq_true, if_false, except_bind_eq_ok,
      except_ensure_eq_ok]
    constructor
    · rintro ⟨_, hns, _, hreason, h⟩
      exact .inr ⟨trivial, hns, hreason, (Except.ok.inj h).symm⟩
    · rintro (⟨h, -⟩ | ⟨-, hns, hreason, rfl⟩)
      · cases h
      · exact ⟨(), hns, (), hreason, rfl⟩

theorem RemoveFile.read_eq_ok {op : RemoveFile} :
    RemoveFile.read fileId bs = .ok (op, rest) ↔
      op.fileId = fileId ∧ (FieldFits namespaceIdMaxBytes (utf8 (op.namespaceId.getD "")) ∧
        FieldFits auditReasonMaxBytes (utf8 (op.auditReason.getD ""))) ∧ op.Shaped ∧
        bs = op.fields ++ rest := by
  simp only [RemoveFile.read, bind_eq_ok, u8_eq_ok, u16_eq_ok, u32_eq_ok, u64_eq_ok, lift_eq_ok,
    LifecycleState.fromWire_eq_ok, readBool_eq_ok, readVarString_eq_ok, pure_eq_ok]
  constructor
  · rintro ⟨_, _, rfl, _, _, rfl, _, _, ⟨rfl, rfl⟩, _, _, rfl, _, _, rfl, administrative, _, rfl,
      ns, _, ⟨hns, rfl⟩, reason, _, ⟨hreason, rfl⟩, fields, _, ⟨hfields, rfl⟩, rfl, rfl⟩
    rw [administrativeFields_eq_ok] at hfields
    rcases hfields with ⟨rfl, hns', hreason', rfl⟩ | ⟨rfl, rfl, rfl, rfl⟩
    · refine ⟨rfl, ⟨hns, hreason⟩, .inl ⟨rfl, ns, reason, hns', hreason', rfl, rfl⟩, ?_⟩
      simp [RemoveFile.fields]
    · refine ⟨rfl, ⟨hns, hreason⟩, .inr ⟨rfl, rfl, rfl⟩, ?_⟩
      simp [RemoveFile.fields]
  · rintro ⟨rfl, ⟨hns, hreason⟩, hshaped, rfl⟩
    simp only [RemoveFile.fields, append_assoc, cons_append, nil_append]
    refine ⟨_, _, rfl, _, _, rfl, _, _, ⟨rfl, rfl⟩, _, _, rfl, _, _, rfl, _, _, rfl, _, _,
      ⟨hns, rfl⟩, _, _, ⟨hreason, rfl⟩, (op.namespaceId, op.auditReason), _,
      ⟨administrativeFields_eq_ok.mpr ?_, rfl⟩, rfl, rfl⟩
    rcases hshaped with ⟨hadmin, ns, reason, hns', hreason', hnsEq, hreasonEq⟩ |
      ⟨hadmin, hnsEq, hreasonEq⟩
    · rw [hnsEq, hreasonEq]
      exact .inl ⟨hadmin, hns', hreason', rfl⟩
    · rw [hnsEq, hreasonEq]
      exact .inr ⟨hadmin, rfl, rfl, rfl⟩

theorem RemoveFile.shaped_of_validate {op : RemoveFile} (h : op.validateForEncode = .ok ()) :
    op.Shaped := by
  simp only [RemoveFile.validateForEncode, except_bind_eq_ok] at h
  obtain ⟨_, -, _, -, _, -, h⟩ := h
  split at h
  · next ns reason hadmin hns hreason =>
    simp only [except_bind_eq_ok, except_ensure_eq_ok] at h
    obtain ⟨_, hns', hreason'⟩ := h
    exact .inl ⟨hadmin, ns, reason, hns', hreason', hns, hreason⟩
  · next hadmin hns hreason => exact .inr ⟨hadmin, hns, hreason⟩
  · cases h

theorem RemoveFile.encodeAdministration_eq_ok {op : RemoveFile} (h : op.Shaped) :
    op.encodeAdministration = .ok out ↔
      (FieldFits namespaceIdMaxBytes (utf8 (op.namespaceId.getD "")) ∧
        FieldFits auditReasonMaxBytes (utf8 (op.auditReason.getD ""))) ∧
        out = prefixed (utf8 (op.namespaceId.getD "")) ++
          prefixed (utf8 (op.auditReason.getD "")) := by
  rcases h with ⟨hadmin, ns, reason, -, -, hns, hreason⟩ | ⟨hadmin, hns, hreason⟩
  · simp only [RemoveFile.encodeAdministration, hadmin, hns, hreason, writeVarBytes_bind_eq_ok,
      Option.getD_some, except_pure_eq_ok, and_assoc]
  · simp only [RemoveFile.encodeAdministration, hadmin, hns, hreason, Option.getD_none]
    have hempty : ∀ max, FieldFits max (utf8 "") := fun max => ⟨Nat.zero_le max, by decide⟩
    exact ⟨fun h => ⟨⟨hempty _, hempty _⟩, (Except.ok.inj h).symm⟩, fun h => h.2 ▸ rfl⟩

theorem ResetQuarantinedFile.guard_of_validate {op : ResetQuarantinedFile}
    (h : op.validateForEncode = .ok ()) :
    op.newCommittedFrontierGuard.validForOffset op.resultingOffset := by
  simp only [ResetQuarantinedFile.validateForEncode, except_bind_eq_ok] at h
  obtain ⟨_, -, _, -, _, -, h⟩ := h
  cases haction : op.action
  all_goals simp only [haction, except_bind_eq_ok, requireGuardForOffset, except_ensure_eq_ok] at h
  case resetToBeginning =>
    obtain ⟨_, -, _, hzero, _, hguard, -⟩ := h
    rw [hzero]
    exact hguard
  case resetToEnd =>
    obtain ⟨_, -, _, hguard, -⟩ := h
    exact hguard
  case keepFailed =>
    obtain ⟨_, -, hguard⟩ := h
    exact hguard

namespace Operation

variable [Digests] {op : Operation}

theorem read_eq_ok :
    Operation.read bs = .ok (op, rest) ↔ op.Fits ∧ op.Shaped ∧ bs = op.wire ++ rest := by
  simp only [Operation.read, bind_eq_ok, u8_eq_ok, array_eq_ok]
  constructor
  · rintro ⟨code, _, rfl, id, mid, rfl, h⟩
    split_ifs at h with h1 h2 h3 h4 h5 h6 h7 h8
    all_goals simp only [bind_eq_ok, pure_eq_ok, throw_eq_ok, RegisterFile.read_eq_ok,
      UpdateProgress.read_eq_ok, ResetAfterTruncate.read_eq_ok, UpdateFingerprint.read_eq_ok,
      UpdateMetadata.read_eq_ok, QuarantineFile.read_eq_ok, ResetQuarantinedFile.read_eq_ok,
      RemoveFile.read_eq_ok] at h
    · obtain ⟨op, _, ⟨rfl, hfits, rfl⟩, rfl, rfl⟩ := h
      exact ⟨hfits, trivial, by simp [wire, opCode, fileId, fields, h1]⟩
    · obtain ⟨op, _, ⟨rfl, rfl⟩, rfl, rfl⟩ := h
      exact ⟨trivial, trivial, by simp [wire, opCode, fileId, fields, h2]⟩
    · obtain ⟨op, _, ⟨rfl, hfits, rfl⟩, rfl, rfl⟩ := h
      exact ⟨hfits, trivial, by simp [wire, opCode, fileId, fields, h3]⟩
    · obtain ⟨op, _, ⟨rfl, hfits, rfl⟩, rfl, rfl⟩ := h
      exact ⟨hfits, trivial, by simp [wire, opCode, fileId, fields, h4]⟩
    · obtain ⟨op, _, ⟨rfl, hshaped, rfl⟩, rfl, rfl⟩ := h
      exact ⟨trivial, hshaped, by simp [wire, opCode, fileId, fields, h5]⟩
    · obtain ⟨op, _, ⟨rfl, rfl⟩, rfl, rfl⟩ := h
      exact ⟨trivial, trivial, by simp [wire, opCode, fileId, fields, h6]⟩
    · obtain ⟨op, _, ⟨rfl, hfits, hshaped, rfl⟩, rfl, rfl⟩ := h
      exact ⟨hfits, hshaped, by simp [wire, opCode, fileId, fields, h7]⟩
    · obtain ⟨op, _, ⟨rfl, hfits, hshaped, rfl⟩, rfl, rfl⟩ := h
      exact ⟨hfits, hshaped, by simp [wire, opCode, fileId, fields, h8]⟩
  · rintro ⟨hfits, hshaped, rfl⟩
    refine ⟨op.opCode, _, by rw [wire, cons_append], op.fileId, _, by rw [append_assoc], ?_⟩
    cases op with
    | registerFile op =>
      exact bind_eq_ok.mpr ⟨op, rest, RegisterFile.read_eq_ok.mpr ⟨rfl, hfits, rfl⟩, rfl⟩
    | updateProgress op =>
      exact bind_eq_ok.mpr ⟨op, rest, UpdateProgress.read_eq_ok.mpr ⟨rfl, rfl⟩, rfl⟩
    | resetAfterTruncate op =>
      exact bind_eq_ok.mpr ⟨op, rest, ResetAfterTruncate.read_eq_ok.mpr ⟨rfl, hfits, rfl⟩, rfl⟩
    | updateFingerprint op =>
      exact bind_eq_ok.mpr ⟨op, rest, UpdateFingerprint.read_eq_ok.mpr ⟨rfl, hfits, rfl⟩, rfl⟩
    | updateMetadata op =>
      exact bind_eq_ok.mpr ⟨op, rest, UpdateMetadata.read_eq_ok.mpr ⟨rfl, hshaped, rfl⟩, rfl⟩
    | quarantineFile op =>
      exact bind_eq_ok.mpr ⟨op, rest, QuarantineFile.read_eq_ok.mpr ⟨rfl, rfl⟩, rfl⟩
    | resetQuarantinedFile op =>
      exact bind_eq_ok.mpr
        ⟨op, rest, ResetQuarantinedFile.read_eq_ok.mpr ⟨rfl, hfits, hshaped, rfl⟩, rfl⟩
    | removeFile op =>
      exact bind_eq_ok.mpr ⟨op, rest, RemoveFile.read_eq_ok.mpr ⟨rfl, hfits, hshaped, rfl⟩, rfl⟩

/-- **What the decoder accepts.** -/
theorem decodePayload_eq_ok : decodePayload bs = .ok op ↔ op.Formed ∧ bs = op.wire := by
  simp only [decodePayload, except_bind_eq_ok, except_ensure_eq_ok, Prod.exists, read_eq_ok]
  constructor
  · rintro ⟨op', rest, ⟨hfits, hshaped, rfl⟩, _, hrest, _, hstructured, h⟩
    cases h
    obtain rfl := length_eq_zero_iff.mp hrest
    exact ⟨⟨hfits, hshaped, hstructured⟩, append_nil _⟩
  · rintro ⟨⟨hfits, hshaped, hstructured⟩, rfl⟩
    exact ⟨op, [], ⟨hfits, hshaped, (append_nil _).symm⟩, (), rfl, (), hstructured, rfl⟩

/-! ## The encoder -/

theorem encodeFields_eq_ok (hvalid : op.validateForEncode = .ok ()) :
    op.encodeFields = .ok out ↔ op.Fits ∧ out = op.fields := by
  cases op with
  | registerFile op | resetAfterTruncate op =>
    simp only [encodeFields, RegisterFile.encodeFields, ResetAfterTruncate.encodeFields,
      writeVarBytes_bind_eq_ok, except_pure_eq_ok]
    rfl
  | updateProgress | quarantineFile => exact except_pure_eq_ok.trans (iff_of_eq (true_and _)).symm
  | updateFingerprint op =>
    simp only [encodeFields, UpdateFingerprint.encodeFields, writeVarBytes_bind_eq_ok,
      except_pure_eq_ok, ← and_assoc]
    rfl
  | updateMetadata op =>
    have hfields : op.encodeFields = .ok op.fields := by
      rw [UpdateMetadata.encodeFields, UpdateMetadata.fields]
      cases op.advisoryPath <;> rfl
    exact ⟨fun h => ⟨trivial, Except.ok.inj (h.symm.trans hfields)⟩, fun h => h.2 ▸ hfields⟩
  | resetQuarantinedFile op =>
    simp only [encodeFields, ResetQuarantinedFile.encodeFields, writeVarBytes_bind_eq_ok,
      except_pure_eq_ok, Fits, and_assoc]
    rfl
  | removeFile op =>
    have hshaped := RemoveFile.shaped_of_validate hvalid
    simp only [encodeFields, RemoveFile.encodeFields, except_bind_eq_ok,
      RemoveFile.encodeAdministration_eq_ok hshaped, except_pure_eq_ok, and_assoc, exists_and_left,
      exists_eq_left, ← append_assoc]
    exact and_assoc.symm

theorem encodePayload_eq_ok :
    op.encodePayload = .ok out ↔ op.validateForEncode = .ok () ∧ op.Fits ∧ out = op.wire := by
  simp only [encodePayload, except_bind_eq_ok]
  constructor
  · rintro ⟨_, hvalid, fields, hfields, h⟩
    obtain ⟨hfits, rfl⟩ := (encodeFields_eq_ok hvalid).mp hfields
    exact ⟨hvalid, hfits, (Except.ok.inj h).symm⟩
  · rintro ⟨hvalid, hfits, rfl⟩
    exact ⟨(), hvalid, op.fields, (encodeFields_eq_ok hvalid).mpr ⟨hfits, rfl⟩, rfl⟩

theorem formed_of_validate (hvalid : op.validateForEncode = .ok ()) (hfits : op.Fits) :
    op.Formed := by
  refine ⟨hfits, ?_, ?_⟩
  · cases op with
    | updateMetadata op =>
      simp only [validateForEncode, UpdateMetadata.validateForEncode, except_bind_eq_ok,
        except_ensure_eq_ok] at hvalid
      obtain ⟨_, -, hstate⟩ := hvalid
      exact hstate
    | resetQuarantinedFile op =>
      simp only [validateForEncode, ResetQuarantinedFile.validateForEncode, except_bind_eq_ok,
        except_ensure_eq_ok] at hvalid
      obtain ⟨_, -, _, hns, _, hreason, -⟩ := hvalid
      exact ⟨hns, hreason⟩
    | removeFile op => exact RemoveFile.shaped_of_validate hvalid
    | _ => trivial
  · cases op with
    | registerFile op | updateProgress op =>
      simp only [validateForEncode, RegisterFile.validateForEncode,
        UpdateProgress.validateForEncode,
        except_bind_eq_ok, requireGuardForOffset, except_ensure_eq_ok] at hvalid
      obtain ⟨_, -, _, -, _, hguard, -⟩ := hvalid
      exact except_ensure_eq_ok.mpr hguard
    | resetQuarantinedFile op =>
      exact except_ensure_eq_ok.mpr (ResetQuarantinedFile.guard_of_validate hvalid)
    | _ => rfl

/-! ## Sizes -/

/-- The largest payload that the layouts allow. -/
theorem length_wire_le (hfits : op.Fits) : op.wire.length ≤ 131095 := by
  rw [wire, length_cons, length_append, op.fileId.2]
  cases op
  all_goals simp only [fields, RegisterFile.fields, UpdateProgress.fields,
    ResetAfterTruncate.fields, UpdateFingerprint.fields, UpdateMetadata.fields,
    QuarantineFile.fields, ResetQuarantinedFile.fields, RemoveFile.fields, length_append,
    length_be16, length_be32, length_be64, length_prefixed, CommittedFrontierGuard.length_write,
    length_singleton]
  case registerFile op =>
    have hlocator := op.locator.length_write_le
    have hresume := op.framingResume.length_write_le
    have hpath := op.advisoryPath.length_write_le
    have hfingerprint : op.fingerprint.length ≤ 65535 := hfits.1
    have hdigest := op.framingProfileDigest.2
    omega
  case updateProgress op =>
    have hresume := op.newFramingResume.length_write_le
    omega
  case resetAfterTruncate op =>
    have hresume := op.newFramingResume.length_write_le
    have hfingerprint : op.newFingerprint.length ≤ 65535 := hfits.1
    omega
  case updateFingerprint op =>
    have hexpected : op.expectedFingerprint.length ≤ 65535 := hfits.1.1
    have hnew : op.newFingerprint.length ≤ 65535 := hfits.2.1
    omega
  case updateMetadata op =>
    have hpath : ((op.advisoryPath.map AdvisoryPath.write).getD []).length ≤ 4140 := by
      cases op.advisoryPath with
      | none => exact Nat.zero_le _
      | some path => exact path.length_write_le
    omega
  case quarantineFile op =>
    have hlocator := op.locator.length_write_le
    omega
  case resetQuarantinedFile op =>
    have hresume := op.newFramingResume.length_write_le
    have hfingerprint : op.newFingerprint.length ≤ 65535 := hfits.1.1
    have hns : (utf8 op.namespaceId).length ≤ 255 := hfits.2.1.1
    have hreason : (utf8 op.auditReason).length ≤ 1024 := hfits.2.2.1
    omega
  case removeFile op =>
    have hns : (utf8 (op.namespaceId.getD "")).length ≤ 255 := hfits.1.1
    have hreason : (utf8 (op.auditReason.getD "")).length ≤ 1024 := hfits.2.1
    omega

/-- The smallest payload that a producer writes, of a fingerprint of one byte. -/
theorem le_length_wire (hvalid : op.validateForEncode = .ok ()) : 26 ≤ op.wire.length := by
  rw [wire, length_cons, length_append, op.fileId.2]
  cases op with
  | updateFingerprint op =>
    simp only [validateForEncode, UpdateFingerprint.validateForEncode, except_bind_eq_ok,
      except_ensure_eq_ok] at hvalid
    simp only [fields, UpdateFingerprint.fields, length_append, length_be32, length_prefixed]
    omega
  -- Every other layout has words of 26 bytes or more.
  | _ op =>
    simp only [fields, RegisterFile.fields, UpdateProgress.fields, ResetAfterTruncate.fields,
      UpdateMetadata.fields, QuarantineFile.fields, ResetQuarantinedFile.fields, RemoveFile.fields,
      length_append, length_be32, length_be64]
    omega

end Operation

end OtapDataflow.FilelogCheckpoint
