import OtapDataflow.Lib.Frames
import OtapDataflow.Lib.Iterator
import OtapDataflow.Wal.Writer

/-! # The log behind the files

A file of the log is a header and a run of frames, one per accepted bundle.  This module says
what the two readers make of such files: every entry that can be read is returned with its
position, and the first one that cannot stops them.

Positions of the run are those of an unbounded log; the code's are cut off at the largest
`u64`. -/

namespace OtapDataflow.Wal

open Bytes Word Frames List WalReader WalHeader

variable {β : Type}

/-- A bundle with the sequence number it got and the body it was written as. -/
structure Entry (codec : Codec β) where
  bundle : RecordBundle β
  sequence : UInt64
  body : Bytes
  encoded : encodeBody codec bundle sequence = .ok body

open Entry

variable {codec : Codec β}

/-- Bytes of the frame: length, body and checksum. -/
def Entry.size (e : Entry codec) : Nat := 4 + e.body.length + 4

/-- The length of the body a bundle is written as. -/
def bodyLen (codec : Codec β) (bundle : RecordBundle β) : Nat :=
  entryHeaderLen +
    ((populated codec bundle bundle.slots).map fun s => slotHeaderLen + s.payload.length).sum

/-- The bundles whose entry the reader accepts: the body is within the reader's limit and no
populated slot id occurs twice in the descriptor. -/
def Readable (codec : Codec β) (bundle : RecordBundle β) : Prop :=
  bodyLen codec bundle ≤ maxEntrySize ∧
    ((populated codec bundle bundle.slots).map DecodedWalSlot.slotId).Nodup

namespace Entry

variable (e : Entry codec)

theorem length_body : e.body.length = bodyLen codec e.bundle := by
  obtain ⟨-, ⟨nanos, -, -, hbody⟩, -⟩ := encodeBody_ok e.encoded
  rw [hbody, length_append, bodyLen, length_flatMap]
  simp [entryHeader, entryHeaderLen, DecodedWalSlot.length_encode]

theorem length_body_le : e.body.length ≤ u32Max := (encodeBody_ok e.encoded).2.2.2

theorem size_pos : 0 < e.size := by
  unfold size
  omega

theorem size_le : e.size ≤ u32Max + 8 := by
  have := e.length_body_le
  unfold size
  omega

/-- The entry as a reader should return it from a position of the log. -/
def recordAt (p : Nat) : WalRecordBundle :=
  recordOf codec e.bundle ⟨min p u64Max, min (p + e.size) u64Max, e.sequence⟩

end Entry

/-! ## Files -/

/-- A file of the log. -/
abbrev LogFile (codec : Codec β) := Run (Entry codec)

namespace LogFile

/-- Data bytes of a file. -/
abbrev dataLen (f : LogFile codec) : Nat := total size f.frames

/-- The bytes of the frames. -/
def data (entries : List (Entry codec)) : Bytes := entries.flatMap fun e => frame codec e.body

def bytes (hash : { hash : Bytes // hash.length = 16 }) (f : LogFile codec) : Bytes :=
  (withBaseOffset hash (min f.start u64Max)).encode ++ data f.frames

@[simp] theorem length_data (entries : List (Entry codec)) :
    (data entries).length = total size entries := by
  induction entries with
  | nil => rfl
  | cons e es ih =>
    rw [data, flatMap_cons, length_append, total_cons, ← ih]
    simp [frame, size, data]
    omega

@[simp] theorem length_bytes (hash : CfgHash) (f : LogFile codec) :
    (bytes hash f).length = headerV1Len + f.dataLen := by
  rw [bytes, length_append, length_encode, length_data]

/-- The file with one more entry. -/
def push (f : LogFile codec) (e : Entry codec) : LogFile codec := ⟨f.start, f.frames ++ [e]⟩

theorem dataLen_push (f : LogFile codec) (e : Entry codec) :
    (push f e).dataLen = f.dataLen + e.size := by
  simp [push, dataLen]

theorem stop_push (f : LogFile codec) (e : Entry codec) :
    (push f e).stop size = f.stop size + e.size := by
  simp [push, Run.stop, add_assoc]

theorem bytes_push (hash : CfgHash) (f : LogFile codec)
    (e : Entry codec) : bytes hash (push f e) = bytes hash f ++ frame codec e.body := by
  simp [bytes, push, data]

/-- The files that a writer leaves are far smaller than the range of a file offset. -/
def Small (f : LogFile codec) : Prop := headerV1Len + f.dataLen < 2 ^ 64

end LogFile

section

variable {hash : CfgHash} {f : LogFile codec}

/-- The reader of a file, positioned after the frames `pre`. -/
def readerAt (hash : { hash : Bytes // hash.length = 16 }) (f : LogFile codec)
    (pre : List (Entry codec)) : WalReader :=
  { file := LogFile.bytes hash f
    segmentCfgHash := hash.1
    headerSize := headerV1Len
    walPositionStart := min f.start u64Max
    nextFileOffset := headerV1Len + total size pre
    fileLen := headerV1Len + f.dataLen
    finished := false }

/-- The reader of the file with further bytes at its end. -/
def WalReader.extend (r : WalReader) (tail : Bytes) : WalReader :=
  { r with file := r.file ++ tail, fileLen := r.fileLen + tail.length }

@[simp] theorem WalReader.extend_nil (r : WalReader) : r.extend [] = r := by
  simp [extend]

theorem readFrom_bytes (tail : Bytes) : readFrom (LogFile.bytes hash f ++ tail) =
    .ok (withBaseOffset hash (min f.start u64Max)) := by
  have hstart : min f.start u64Max < 2 ^ 64 := by
    have := min_le_right f.start u64Max
    unfold u64Max at this ⊢
    omega
  rw [LogFile.bytes, append_assoc, readFrom_encode hstart]

theorem open_extend (tail : Bytes) :
    WalReader.open (LogFile.bytes hash f ++ tail) = .ok ((readerAt hash f []).extend tail) := by
  unfold WalReader.open
  rw [readFrom_bytes]
  simp [Except.map, readerAt, extend, withBaseOffset]

theorem open_bytes : WalReader.open (LogFile.bytes hash f) = .ok (readerAt hash f []) := by
  simpa using open_extend []

theorem drop_bytes {pre post : List (Entry codec)} (hf : f.frames = pre ++ post) :
    (LogFile.bytes hash f).drop (headerV1Len + total size pre) = LogFile.data post := by
  have hdata : LogFile.bytes hash f =
      ((withBaseOffset hash (min f.start u64Max)).encode ++ LogFile.data pre) ++
        LogFile.data post := by
    rw [LogFile.bytes, hf, LogFile.data, flatMap_append, append_assoc]
    rfl
  rw [hdata]
  apply drop_left'
  rw [length_append, length_encode, LogFile.length_data]

/-- At the end of a file there is nothing more to read. -/
theorem readEntry_end {fileLen headerSize start : Nat} :
    readEntry codec (LogFile.bytes hash f) fileLen headerSize start
      (headerV1Len + f.dataLen) = none := by
  have hdrop : (LogFile.bytes hash f).drop (headerV1Len + f.dataLen) = LogFile.data [] :=
    drop_bytes (append_nil f.frames).symm
  unfold readEntry
  rw [hdrop, split_eq_none (by simp [LogFile.data])]
  simp

/-- What the common part of both readers does at the start of an entry. -/
theorem readEntry_at (hsmall : LogFile.Small f) {pre post : List (Entry codec)} {e : Entry codec}
    (hf : f.frames = pre ++ e :: post) :
    readEntry codec (LogFile.bytes hash f) (headerV1Len + f.dataLen) headerV1Len
        (min f.start u64Max) (headerV1Len + total size pre) =
      if e.body.length ≤ maxEntrySize then
        some ((decodeEntry (min (f.start + total size pre) u64Max)
          (min (f.start + total size pre + e.size) u64Max) e.body).map
            fun record => (record, headerV1Len + total size (pre ++ [e])))
      else some (.error (.invalidEntry "entry length exceeds maximum allowed size")) := by
  have hdrop : (LogFile.bytes hash f).drop (headerV1Len + total size pre) =
      leBytes 4 e.body.length ++ (e.body ++ (leBytes 4 (codec.crc32 e.body).toNat ++
        LogFile.data post)) := by
    rw [drop_bytes hf, LogFile.data, flatMap_cons]
    simp [frame, LogFile.data]
  have hlen : ofLe (leBytes 4 e.body.length) = e.body.length :=
    ofLe_leBytes (lt_of_le_of_lt e.length_body_le (by decide))
  have hcrc : ofLe (leBytes 4 (codec.crc32 e.body).toNat) = (codec.crc32 e.body).toNat :=
    ofLe_leBytes (UInt32.toNat_lt _)
  have htotal : f.dataLen = total size pre + (e.size + total size post) := by
    rw [LogFile.dataLen, hf, total_append, total_cons]
  have hsize : e.size = 4 + e.body.length + 4 := rfl
  have hsnoc : total size (pre ++ [e]) = total size pre + e.size := by
    rw [total_append, total_cons, total_nil, add_zero]
  unfold readEntry
  rw [hdrop, split_append (length_leBytes 4 e.body.length)]
  simp only [hlen]
  by_cases hmax : e.body.length ≤ maxEntrySize
  · have hroom : ¬ headerV1Len + f.dataLen - (headerV1Len + total size pre + 4) <
        e.body.length := by omega
    have hbound : headerV1Len + total size pre + e.size < 2 ^ 64 := by
      unfold LogFile.Small at hsmall
      omega
    have hnext : saturatingAdd (saturatingAdd (saturatingAdd
        (headerV1Len + total size pre) 4) e.body.length) 4 =
          headerV1Len + total size (pre ++ [e]) := by
      have h4 : saturatingAdd (headerV1Len + total size pre) 4 =
          headerV1Len + total size pre + 4 := saturatingAdd_eq (by omega)
      have hbody : saturatingAdd (headerV1Len + total size pre + 4) e.body.length =
          headerV1Len + total size pre + 4 + e.body.length := saturatingAdd_eq (by omega)
      rw [h4, hbody, saturatingAdd_eq (by omega), hsnoc]
      omega
    rw [if_neg (not_lt.mpr hmax), if_neg hroom, if_pos hmax, split_append hlen.symm]
    simp only
    rw [split_append (length_leBytes 4 _)]
    simp only [hcrc, ne_eq, not_true_eq_false, if_false, hnext, saturatingAdd_min]
    have hpos : headerV1Len + total size pre - headerV1Len = total size pre := by omega
    have hpos' : headerV1Len + total size (pre ++ [e]) - headerV1Len =
        total size pre + e.size := by omega
    rw [hpos, hpos', ← add_assoc]
  · rw [if_pos (not_le.mp hmax), if_neg hmax]

variable {pre post : List (Entry codec)} {e : Entry codec}

/-- A readable entry is returned, and the reader moves past it. -/
theorem readNextEntry_readable (hsmall : LogFile.Small f) (hf : f.frames = pre ++ e :: post)
    (he : Readable codec e.bundle) :
    (readerAt hash f pre).readNextEntry codec =
      (some (.ok (e.recordAt (f.start + total size pre))), readerAt hash f (pre ++ [e])) := by
  have hlen : e.body.length ≤ maxEntrySize := by
    rw [e.length_body]
    exact he.1
  have hread : readEntry codec (LogFile.bytes hash f) (headerV1Len + f.dataLen) headerV1Len
      (min f.start u64Max) (headerV1Len + total size pre) =
        some (.ok (e.recordAt (f.start + total size pre),
          headerV1Len + total size (pre ++ [e]))) := by
    rw [readEntry_at hsmall hf, if_pos hlen, decodeEntry_ok ⟨_, _, _⟩ e.encoded he.2]
    rfl
  unfold readNextEntry readerAt
  simp [hread]

/-- An entry that is not readable stops the reader with an error. -/
theorem readNextEntry_unreadable (hsmall : LogFile.Small f) (hf : f.frames = pre ++ e :: post)
    (he : ¬ Readable codec e.bundle) :
    ∃ context, (readerAt hash f pre).readNextEntry codec =
      (some (.error (.invalidEntry context)), { readerAt hash f pre with finished := true }) := by
  have hread : ∃ context, readEntry codec (LogFile.bytes hash f) (headerV1Len + f.dataLen)
      headerV1Len (min f.start u64Max) (headerV1Len + total size pre) =
        some (.error (.invalidEntry context)) := by
    rw [readEntry_at hsmall hf]
    by_cases hlen : e.body.length ≤ maxEntrySize
    · have hdup : ¬ ((populated codec e.bundle e.bundle.slots).map
          DecodedWalSlot.slotId).Nodup := by
        intro hnd
        rw [e.length_body] at hlen
        exact he ⟨hlen, hnd⟩
      rw [if_pos hlen, decodeEntry_duplicate e.encoded hdup]
      exact ⟨_, rfl⟩
    · rw [if_neg hlen]
      exact ⟨_, rfl⟩
  obtain ⟨context, hread⟩ := hread
  refine ⟨context, ?_⟩
  unfold readNextEntry readerAt
  simp [hread]

theorem readNextEntry_end :
    (readerAt hash f f.frames).readNextEntry codec =
      (none, { readerAt hash f f.frames with finished := true }) := by
  have hread : readEntry codec (LogFile.bytes hash f) (headerV1Len + f.dataLen) headerV1Len
      (min f.start u64Max) (headerV1Len + total size f.frames) = none := readEntry_end
  unfold readNextEntry readerAt
  simp [hread]

end

/-! ## Bytes after the entries -/

/-- An entry that can be read from a file can be read from every longer one. -/
theorem readEntry_extend {file : Bytes} {fileLen headerSize start offset : Nat}
    {r : WalRecordBundle × Nat}
    (h : readEntry codec file fileLen headerSize start offset = some (.ok r)) (tail : Bytes) :
    readEntry codec (file ++ tail) (fileLen + tail.length) headerSize start offset =
      some (.ok r) := by
  unfold readEntry at h ⊢
  cases hlen : split 4 (file.drop offset) with
  | none =>
    simp only [hlen] at h
    split at h <;> cases h
  | some x =>
    obtain ⟨lenBuf, rest⟩ := x
    have hle : offset ≤ file.length := by
      by_contra hgt
      rw [drop_eq_nil_of_le (Nat.le_of_not_le hgt)] at hlen
      cases hlen
    rw [drop_append_of_le_length hle, split_extend hlen]
    simp only [hlen] at h ⊢
    split at h
    · cases h
    rename_i hmax
    split at h
    · cases h
    rw [if_neg hmax, if_neg (by omega)]
    cases hbody : split (ofLe lenBuf.1) rest with
    | none =>
      simp only [hbody] at h
      cases h
    | some y =>
      obtain ⟨body, rest'⟩ := y
      rw [split_extend hbody]
      simp only [hbody] at h ⊢
      cases hcrc : split 4 rest' with
      | none =>
        simp only [hcrc] at h
        cases h
      | some z =>
        rw [split_extend hcrc]
        simpa only [hcrc] using h

theorem readNextEntry_extend {r r' : WalReader} {record : WalRecordBundle}
    (h : r.readNextEntry codec = (some (.ok record), r')) (tail : Bytes) :
    (r.extend tail).readNextEntry codec = (some (.ok record), r'.extend tail) := by
  unfold readNextEntry at h
  split at h
  · cases h
  rename_i hfinished
  cases hread : readEntry codec r.file r.fileLen r.headerSize r.walPositionStart
      r.nextFileOffset with
  | none =>
    simp only [hread] at h
    cases h
  | some result =>
    cases result with
    | error e =>
      simp only [hread] at h
      cases h
    | ok x =>
      simp only [hread] at h
      obtain ⟨hrecord, rfl⟩ := Prod.mk.inj h
      cases hrecord
      have hlonger := readEntry_extend hread tail
      unfold readNextEntry
      rw [if_neg (by exact hfinished)]
      simp [extend, hlonger]

/-- What is left of a frame that was not written to its end. -/
def Torn (codec : Codec β) (tail : Bytes) : Prop :=
  tail = [] ∨ ∃ (e : Entry codec) (k : Nat), k < e.size ∧ tail = (frame codec e.body).take k

/-- The damage at which a scan stops without an error. -/
def WalError.Damage : WalError → Prop
  | .unexpectedEof _ | .invalidEntry _ | .crcMismatch _ _ => True
  | _ => False

/-- A torn frame is never read as an entry: its length is cut off, or exceeds what is left of
the file, or leaves no room for the checksum. -/
theorem readEntry_torn (hash : CfgHash) (f : LogFile codec)
    {tail : Bytes} (htail : Torn codec tail) (headerSize start : Nat) :
    let result := readEntry codec (LogFile.bytes hash f ++ tail)
      (headerV1Len + f.dataLen + tail.length) headerSize start (headerV1Len + f.dataLen)
    result = none ∨ ∃ e, result = some (.error e) ∧ e.Damage := by
  have hlen := LogFile.length_bytes hash f
  have hdrop : (LogFile.bytes hash f ++ tail).drop (headerV1Len + f.dataLen) = tail :=
    drop_left' hlen
  intro result
  have hresult : result = readEntry codec (LogFile.bytes hash f ++ tail)
    (headerV1Len + f.dataLen + tail.length) headerSize start (headerV1Len + f.dataLen) := rfl
  unfold readEntry at hresult
  rw [hdrop] at hresult
  by_cases hshort : tail.length < 4
  · rw [split_eq_none hshort] at hresult
    simp only at hresult
    split at hresult
    · exact .inl hresult
    · exact .inr ⟨_, hresult, trivial⟩
  rcases htail with rfl | ⟨e, k, hk, rfl⟩
  · exact absurd (Nat.zero_lt_succ 3) hshort
  have hsize : e.size = 4 + e.body.length + 4 := rfl
  have hframe : (frame codec e.body).length = e.size := by
    simp [frame, hsize]
    omega
  have hk' : ((frame codec e.body).take k).length = k := by
    rw [length_take, hframe]
    omega
  rw [hk'] at hshort hresult
  have hcut : (frame codec e.body).take k = leBytes 4 e.body.length ++
      (e.body ++ leBytes 4 (codec.crc32 e.body).toNat).take (k - 4) := by
    rw [frame, append_assoc, take_append, length_leBytes,
      take_of_length_le (by rw [length_leBytes]; omega)]
  have hof : ofLe (leBytes 4 e.body.length) = e.body.length :=
    ofLe_leBytes (lt_of_le_of_lt e.length_body_le (by decide))
  rw [hcut, split_append (length_leBytes 4 e.body.length)] at hresult
  simp only [hof] at hresult
  split at hresult
  · exact .inr ⟨_, hresult, trivial⟩
  split at hresult
  · exact .inr ⟨_, hresult, trivial⟩
  rename_i hroom
  have hbody : (e.body ++ leBytes 4 (codec.crc32 e.body).toNat).take (k - 4) =
      e.body ++ (leBytes 4 (codec.crc32 e.body).toNat).take (k - 4 - e.body.length) := by
    rw [take_append, take_of_length_le (by omega)]
  have hcrc : ((leBytes 4 (codec.crc32 e.body).toNat).take (k - 4 - e.body.length)).length < 4 := by
    rw [length_take]
    omega
  rw [hbody, split_append hof.symm] at hresult
  simp only at hresult
  rw [split_eq_none hcrc] at hresult
  exact .inr ⟨_, hresult, trivial⟩

/-- So the reader stops at a torn frame, if it has not reached the end of the file. -/
theorem readNextEntry_torn (hash : CfgHash) (f : LogFile codec)
    {tail : Bytes} (htail : Torn codec tail) :
    let result := ((readerAt hash f f.frames).extend tail).readNextEntry codec
    result.1 = none ∨ ∃ e, result.1 = some (.error e) ∧ e.Damage := by
  intro result
  have hresult : result = ((readerAt hash f f.frames).extend tail).readNextEntry codec := rfl
  unfold readNextEntry at hresult
  rw [if_neg (by exact Bool.false_ne_true)] at hresult
  rcases readEntry_torn hash f htail headerV1Len (min f.start u64Max)
    with hread | ⟨e, hread, hdamage⟩
  · refine .inl ?_
    rw [hresult]
    simp [extend, readerAt, hread]
  · refine .inr ⟨e, ?_, hdamage⟩
    rw [hresult]
    simp [extend, readerAt, hread]

/-! # Iterating over the files of a log

From a boundary of a chain of files the iterator returns every later entry, file by file
(`iter_boundary`), unless one of them is not readable, where it returns an error
(`iter_unreadable`). -/

open Iterator MultiFileWalIter MultiFileWalReader LogFile WalFileInfo

/-- A file of the log with its place on disk: a rotation id, or none for the active file. -/
abbrev Located (codec : Codec β) := Option Nat × LogFile codec

/-- What discovery finds out about a file. -/
def infoOf (x : Located codec) : WalFileInfo :=
  ⟨x.1, min x.2.start u64Max, min (x.2.stop size) u64Max⟩

/-- What a reader should return for entries placed from a position on. -/
def recordsFrom (p : Nat) (entries : List (Entry codec)) : List (Except WalError WalRecordBundle) :=
  (place size p entries).map fun e => .ok (e.2.recordAt e.1)

/-- The entries of several files. -/
abbrev entriesOf (xs : List (Located codec)) : List (Entry codec) :=
  xs.flatMap fun x => x.2.frames

/-- The files are on disk, and small. -/
def OnDisk (hash : { hash : Bytes // hash.length = 16 }) (disk : Disk)
    (xs : List (Located codec)) : Prop :=
  ∀ x ∈ xs, disk.file? x.1 = some (bytes hash x.2) ∧ LogFile.Small x.2

theorem recordsFrom_cons (p : Nat) (e : Entry codec) (es : List (Entry codec)) :
    recordsFrom p (e :: es) = .ok (e.recordAt p) :: recordsFrom (p + e.size) es := rfl

theorem recordsFrom_append (p : Nat) (es es' : List (Entry codec)) :
    recordsFrom p (es ++ es') =
      recordsFrom p es ++ recordsFrom (p + total size es) es' := by
  simp [recordsFrom, place_append]

variable {f : LogFile codec} {pre post : List (Entry codec)} {s : Nat} {hash : CfgHash}
  {disk : Disk} {x : Located codec}

theorem openFile_eq (h : disk.file? x.1 = some (bytes hash x.2)) (startPosition : Nat) :
    openFile disk (infoOf x) startPosition =
      some ((readerAt hash x.2 []).seekToPosition (max startPosition (min x.2.start u64Max))) := by
  have hfile : disk.file? (infoOf x).rotationId = some (bytes hash x.2) := h
  unfold openFile
  rw [hfile, Option.bind_some, open_bytes]
  rfl

/-- Seeking to a boundary inside the file. -/
theorem seekToPosition_eq (hsmall : LogFile.Small f) (hf : f.frames = pre ++ post)
    (hp : f.start + total size pre ≤ u64Max) :
    (readerAt hash f []).seekToPosition
        (max (f.start + total size pre) (min f.start u64Max)) = readerAt hash f pre := by
  have hmax : max (f.start + total size pre) (min f.start u64Max) =
      f.start + total size pre := by omega
  have hmin : min f.start u64Max = f.start := by omega
  have hsum : saturatingAdd (total size pre) headerV1Len =
      total size pre + headerV1Len := by
    apply saturatingAdd_eq
    unfold LogFile.Small dataLen at hsmall
    rw [hf, total_append] at hsmall
    omega
  have hoff : (readerAt hash f []).offsetOf (f.start + total size pre) =
      headerV1Len + total size pre := by
    show max (saturatingAdd (f.start + total size pre - min f.start u64Max) headerV1Len)
      headerV1Len = _
    rw [hmin, Nat.add_sub_cancel_left, hsum]
    omega
  rw [hmax, WalReader.seekToPosition, hoff]
  rfl

/-- A file that starts at or after the position is read from its first entry. -/
theorem seekToPosition_start {startPosition : Nat} (h : startPosition ≤ min f.start u64Max) :
    (readerAt hash f []).seekToPosition (max startPosition (min f.start u64Max)) =
      readerAt hash f [] := by
  have hoff : (readerAt hash f []).offsetOf (max startPosition (min f.start u64Max)) =
      headerV1Len := by
    show max (saturatingAdd (max startPosition (min f.start u64Max) - min f.start u64Max)
      headerV1Len) headerV1Len = _
    rw [max_eq_right h, Nat.sub_self]
    decide
  rw [WalReader.seekToPosition, hoff]
  rfl

section

variable {P : MultiFileWalIter → List (Except WalError WalRecordBundle) → Prop}
  {more : List WalFileInfo} {later : List (Except WalError WalRecordBundle)}

variable {start : Nat} {xs : List (Located codec)} {e : Entry codec}

section

variable (hP : Backward (next codec disk) P)

include hP

/-- From inside a file the iterator returns the rest of its entries and goes on with whatever
comes after them. -/
theorem reads_entries {info : WalFileInfo}
    (tail : Bytes) (hsmall : LogFile.Small f) (hend : ∀ start ≤ min (f.stop size) u64Max,
      P ⟨info :: more, some ((readerAt hash f f.frames).extend tail), start⟩ later)
    (hf : f.frames = pre ++ post) (hread : ∀ e ∈ post, Readable codec e.bundle)
    (hstart : start ≤ min (f.stop size) u64Max) :
    P ⟨info :: more, some ((readerAt hash f pre).extend tail), start⟩
      (recordsFrom (f.start + total size pre) post ++ later) := by
  induction post generalizing pre start with
  | nil =>
    obtain rfl : f.frames = pre := by rw [hf, append_nil]
    exact hend start hstart
  | cons e post ih =>
    have he := hread e mem_cons_self
    have hnext : (e.recordAt (f.start + total size pre)).nextOffset ≤
        min (f.stop size) u64Max := by
      show min (f.start + total size pre + e.size) u64Max ≤ _
      unfold Run.stop
      rw [hf, total_append, total_cons]
      omega
    have hf' : f.frames = (pre ++ [e]) ++ post := by rw [hf, append_assoc]; rfl
    have hrest := ih hf' (fun e' he' => hread e' (mem_cons_of_mem _ he')) hnext
    rw [total_append, total_cons, total_nil, add_zero, ← add_assoc] at hrest
    refine hP.step ?_ hrest
    simp [MultiFileWalIter.next, MultiFileWalIter.nextFrom,
      readNextEntry_extend (readNextEntry_readable hsmall hf he) tail]

/-- From inside a file the iterator returns the rest of the file and goes on with the files
after it. -/
theorem reads_reader (hsmall : LogFile.Small x.2)
    (hlater : ∀ start ≤ min (x.2.stop size) u64Max, P ⟨more, none, start⟩ later)
    (hf : x.2.frames = pre ++ post) (hread : ∀ e ∈ post, Readable codec e.bundle)
    (hstart : start ≤ min (x.2.stop size) u64Max) :
    P ⟨infoOf x :: more, some (readerAt hash x.2 pre), start⟩
      (recordsFrom (x.2.start + total size pre) post ++ later) := by
  have hend : ∀ start ≤ min (x.2.stop size) u64Max,
      P ⟨infoOf x :: more, some ((readerAt hash x.2 x.2.frames).extend []), start⟩ later := by
    intro start hle
    refine hP.congr ?_ (hlater start hle)
    simp [MultiFileWalIter.next, MultiFileWalIter.nextFrom, WalReader.extend_nil, readNextEntry_end]
  simpa using reads_entries hP [] hsmall hend hf hread hstart

/-- A chain of readable files is returned entry by entry. -/
theorem reads_files (hch : Chained size s (xs.map Prod.snd)) (hdisk : OnDisk hash disk xs)
    (hread : ∀ e ∈ entriesOf xs, Readable codec e.bundle)
    (hmore : ∀ start ≤ min (s + total size (entriesOf xs)) u64Max,
      P ⟨more, none, start⟩ later) (hstart : start ≤ min s u64Max) :
    P ⟨xs.map infoOf ++ more, none, start⟩ (recordsFrom s (entriesOf xs) ++ later) := by
  induction xs generalizing s start with
  | nil => exact hmore start hstart
  | cons x xs ih =>
    obtain ⟨hs, hrest⟩ := hch
    obtain ⟨hfile, hsmall⟩ := hdisk x mem_cons_self
    have hcons : entriesOf (x :: xs) = x.2.frames ++ entriesOf xs := rfl
    have hstop : x.2.stop size = s + total size x.2.frames := by rw [Run.stop, hs]
    have hlater : ∀ start ≤ min (x.2.stop size) u64Max,
        P ⟨xs.map infoOf ++ more, none, start⟩
          (recordsFrom (x.2.stop size) (entriesOf xs) ++ later) := fun start hstart =>
      ih hrest (fun y hy => hdisk y (mem_cons_of_mem _ hy))
        (fun e he => hread e (mem_append_right _ he))
        (fun start hle => hmore start (by
          rwa [hcons, total_append, ← add_assoc, ← hstop])) hstart
    rw [hcons, recordsFrom_append, append_assoc]
    have hhere : start ≤ min x.2.start u64Max := by rwa [hs]
    have hbelow : start ≤ min (x.2.stop size) u64Max := by omega
    have hinside : P ⟨infoOf x :: (xs.map infoOf ++ more), some (readerAt hash x.2 []), start⟩
        (recordsFrom (x.2.start + total size ([] : List (Entry codec))) x.2.frames ++
          (recordsFrom (x.2.stop size) (entriesOf xs) ++ later)) :=
      reads_reader hP hsmall hlater (nil_append _).symm
        (fun e he => hread e (mem_append_left _ he)) hbelow
    rw [total_nil, add_zero, hs, hstop] at hinside
    refine hP.congr ?_ hinside
    simp [MultiFileWalIter.next, MultiFileWalIter.nextFrom, openFile_eq hfile,
      seekToPosition_start hhere]

end

section

variable (hch : Chained size s (xs.map Prod.snd))

include hch

theorem yields_files (hdisk : OnDisk hash disk xs)
    (hread : ∀ e ∈ entriesOf xs, Readable codec e.bundle) (hstart : start ≤ min s u64Max) :
    Yields (next codec disk) ⟨xs.map infoOf, none, start⟩
      (recordsFrom s (entriesOf xs)) := by
  have hend : ∀ start ≤ min (s + total size (entriesOf xs)) u64Max,
      Yields (next codec disk) ⟨[], none, start⟩ [] := fun _ _ => .done rfl
  simpa using reads_files Yields.backward hch hdisk hread hend hstart

/-- The entry at a boundary is found in exactly one file, the first that ends after it. -/
theorem locate (hsplit : entriesOf xs = pre ++ e :: post) (hp : s + total size pre < u64Max) :
    ∃ x rest fpre fpost, x ∈ xs ∧ (∀ y ∈ rest, y ∈ xs) ∧ x.2.frames = fpre ++ e :: fpost ∧
      post = fpost ++ entriesOf rest ∧ s + total size pre = x.2.start + total size fpre ∧
      Chained size (x.2.stop size) (rest.map Prod.snd) ∧
      (xs.map infoOf).dropWhile
          (fun i => decide (i.walPositionEnd ≤ s + total size pre)) =
        infoOf x :: rest.map infoOf := by
  induction xs generalizing s pre with
  | nil => simp [entriesOf] at hsplit
  | cons x xs ih =>
    obtain ⟨hs, hrest⟩ := hch
    have hcut : x.2.frames ++ entriesOf xs = pre ++ e :: post := hsplit
    rcases append_cut hcut with ⟨c, hpre, htail⟩ | ⟨c, hf, hpost⟩
    · -- a cut at or after the end of this file is a cut of the later files
      have hpos : s + total size pre = x.2.stop size + total size c := by
        rw [hpre, total_append, Run.stop, hs, add_assoc]
      obtain ⟨y, rest, fpre, fpost, hy, hsub, hf, hpost, hstart, hch', hdrop⟩ :=
        ih hrest htail (by rwa [← hpos])
      rw [← hpos] at hstart hdrop
      refine ⟨y, rest, fpre, fpost, mem_cons_of_mem _ hy,
        fun z hz => mem_cons_of_mem _ (hsub z hz), hf, hpost, hstart, hch', ?_⟩
      have hend : min (x.2.stop size) u64Max ≤ s + total size pre := by omega
      rw [map_cons, dropWhile_cons_of_pos (by simpa [infoOf] using hend), hdrop]
    · refine ⟨x, xs, pre, c, mem_cons_self, fun z hz => mem_cons_of_mem _ hz, hf,
        hpost, by rw [hs], hrest, ?_⟩
      have hend : ¬ min (x.2.stop size) u64Max ≤ s + total size pre := by
        have hsize := e.size_pos
        have hstop : x.2.stop size =
            s + (total size pre + (e.size + total size c)) := by
          rw [Run.stop, hs, hf, total_append, total_cons]
        omega
      rw [map_cons, dropWhile_cons_of_neg (by simpa [infoOf] using hend)]

/-- Where the iterator stands when it starts at an entry. -/
theorem next_iterFrom (hdisk : OnDisk hash disk xs)
    (hsplit : entriesOf xs = pre ++ e :: post) (hp : s + total size pre < u64Max) :
    ∃ x rest fpre fpost, LogFile.Small x.2 ∧ OnDisk hash disk rest ∧
      x.2.frames = fpre ++ e :: fpost ∧ post = fpost ++ entriesOf rest ∧
      s + total size pre = x.2.start + total size fpre ∧
      Chained size (x.2.stop size) (rest.map Prod.snd) ∧
      MultiFileWalIter.next codec disk
          (iterFrom ⟨xs.map infoOf⟩ (s + total size pre)) =
        MultiFileWalIter.next codec disk
          ⟨infoOf x :: rest.map infoOf, some (readerAt hash x.2 fpre), s + total size pre⟩ := by
  obtain ⟨x, rest, fpre, fpost, hx, hsub, hf, hpost, hstart, hch', hdrop⟩ := locate hch hsplit hp
  obtain ⟨hfile, hsmall⟩ := hdisk x hx
  refine ⟨x, rest, fpre, fpost, hsmall, fun y hy => hdisk y (hsub y hy), hf, hpost, hstart, hch',
    ?_⟩
  have hseek : (readerAt hash x.2 []).seekToPosition
      (max (s + total size pre) (min x.2.start u64Max)) = readerAt hash x.2 fpre := by
    rw [hstart] at hp ⊢
    exact seekToPosition_eq hsmall hf hp.le
  simp [MultiFileWalIter.next, MultiFileWalReader.iterFrom, hdrop, MultiFileWalIter.nextFrom,
    openFile_eq hfile, hseek]

/-- **From a boundary on.**  The iterator returns the later entries, once each and in order. -/
theorem iter_boundary (hdisk : OnDisk hash disk xs)
    (hsplit : entriesOf xs = pre ++ post) (hread : ∀ e ∈ post, Readable codec e.bundle)
    (hp : post = [] ∨ s + total size pre < u64Max) :
    Yields (next codec disk) (iterFrom ⟨xs.map infoOf⟩ (min (s + total size pre) u64Max))
      (recordsFrom (s + total size pre) post) := by
  cases post with
  | nil =>
    -- every file ends at or before the position
    have hdrop : (xs.map infoOf).dropWhile (fun i =>
        decide (i.walPositionEnd ≤ min (s + total size pre) u64Max)) = [] := by
      rw [dropWhile_eq_nil_iff]
      intro i hi
      obtain ⟨x, hx, rfl⟩ := mem_map.mp hi
      have hstop := hch.stop_le size (mem_map_of_mem hx)
      have hend : endOf size s (xs.map Prod.snd) = s + total size pre := by
        rw [endOf, flatMap_map, show xs.flatMap (fun x => x.2.frames) = pre by
          simpa using hsplit]
      have : min (x.2.stop size) u64Max ≤ min (s + total size pre) u64Max := by omega
      simpa [infoOf] using this
    refine .done ?_
    rw [MultiFileWalIter.next, MultiFileWalReader.iterFrom, hdrop]
    rfl
  | cons e post =>
    have hp' : s + total size pre < u64Max := hp.resolve_left (cons_ne_nil _ _)
    obtain ⟨x, rest, fpre, fpost, hsmall, hrest, hf, rfl, hstart, hch', hnext⟩ :=
      next_iterFrom hch hdisk hsplit hp'
    rw [min_eq_left hp'.le]
    refine Yields.congr hnext ?_
    have hlater : ∀ start ≤ min (x.2.stop size) u64Max,
        Yields (next codec disk) ⟨rest.map infoOf, none, start⟩
          (recordsFrom (x.2.stop size) (entriesOf rest)) := fun _ hle =>
      yields_files hch' hrest
        (fun e' he' => hread e' (mem_cons_of_mem _ (mem_append_right _ he'))) hle
    have hstop : x.2.stop size =
        s + total size pre + total size (e :: fpost) := by
      rw [hstart, Run.stop, hf, total_append, add_assoc]
    have hbelow : s + total size pre ≤ min (x.2.stop size) u64Max := by omega
    have hrecords : recordsFrom (s + total size pre) (e :: (fpost ++ entriesOf rest)) =
        recordsFrom (x.2.start + total size fpre) (e :: fpost) ++
          recordsFrom (x.2.stop size) (entriesOf rest) := by
      rw [← cons_append, recordsFrom_append, hstop, hstart]
    rw [hrecords]
    exact reads_reader Yields.backward hsmall hlater hf
      (fun e' he' => hread e' (mem_append_left _ he')) hbelow

/-- An entry that is not readable stops the iteration that reaches it. -/
theorem iter_unreadable (hdisk : OnDisk hash disk xs)
    (hsplit : entriesOf xs = pre ++ e :: post) (he : ¬ Readable codec e.bundle)
    (hp : s + total size pre < u64Max) :
    ∃ context it, MultiFileWalIter.next codec disk
        (iterFrom ⟨xs.map infoOf⟩ (s + total size pre)) =
      some (.error (.invalidEntry context), it) := by
  obtain ⟨x, rest, fpre, fpost, hsmall, -, hf, -, -, -, hnext⟩ :=
    next_iterFrom hch hdisk hsplit hp
  obtain ⟨context, hread⟩ : ∃ context, (readerAt hash x.2 fpre).readNextEntry codec =
      (some (.error (.invalidEntry context)), { readerAt hash x.2 fpre with finished := true }) :=
    readNextEntry_unreadable hsmall hf he
  refine ⟨context, ⟨infoOf x :: rest.map infoOf,
    some { readerAt hash x.2 fpre with finished := true }, s + total size pre⟩, hnext.trans ?_⟩
  simp [MultiFileWalIter.next, MultiFileWalIter.nextFrom, hread]

end

/-- At the top of the range of positions nothing is found any more. -/
theorem iter_top (r : MultiFileWalReader) (h : ∀ i ∈ r.files, i.walPositionEnd ≤ u64Max) :
    Yields (next codec disk) (r.iterFrom u64Max) [] := by
  have hdrop : r.files.dropWhile (fun i => decide (i.walPositionEnd ≤ u64Max)) = [] := by
    rw [dropWhile_eq_nil_iff]
    intro i hi
    simpa using h i hi
  refine .done ?_
  rw [MultiFileWalIter.next, MultiFileWalReader.iterFrom, hdrop]
  rfl

end

/-! ## Discovery -/

variable {rot : List (Nat × LogFile codec)}

/-- What discovery finds out about a file with further bytes after its entries. -/
def infoWith (tail : Bytes) (x : Located codec) : WalFileInfo :=
  ⟨x.1, min x.2.start u64Max, min (x.2.stop size + tail.length) u64Max⟩

theorem infoWith_eq (rotationId : Option Nat) (f : LogFile codec) (tail : Bytes) :
    of rotationId (bytes hash f ++ tail) =
      .ok (infoWith tail (rotationId, f)) := by
  rw [of, open_extend]
  simp only [Except.map, readerAt, WalReader.extend, WalReader.walPositionEnd, saturatingAdd_min]
  have hdata : f.start + (headerV1Len + f.dataLen + tail.length - headerV1Len) =
      f.stop size + tail.length := by
    show _ = f.start + f.dataLen + tail.length
    omega
  rw [hdata]
  rfl

theorem infoOf_eq (rotationId : Option Nat) (f : LogFile codec) :
    of rotationId (bytes hash f) = .ok (infoOf (rotationId, f)) := by
  rw [← append_nil (bytes hash f), infoWith_eq]
  rfl

/-- The rotated files by id and the active file, as they lie on disk. -/
def located (rot : List (Nat × LogFile codec)) (act : LogFile codec) : List (Located codec) :=
  rot.map (fun x => (some x.1, x.2)) ++ [(none, act)]

theorem map_snd_located (rot : List (Nat × LogFile codec)) (act : LogFile codec) :
    (located rot act).map Prod.snd = rot.map Prod.snd ++ [act] := by
  simp [located, Function.comp_def]

/-- Opening the files of a chain finds them in the order of the chain. -/
theorem open_torn {act : LogFile codec} {tail : Bytes}
    (hrot : disk.rotated.entries = rot.map fun x => (x.1, bytes hash x.2))
    (hact : disk.active = some (bytes hash act ++ tail))
    (hch : Chained size s (rot.map Prod.snd ++ [act])) :
    MultiFileWalReader.open disk =
      .ok ⟨(rot.map fun x => infoOf (some x.1, x.2)) ++ [infoWith tail (none, act)]⟩ := by
  have hinfos : rotatedInfos disk.rotated.entries = rot.map fun x => infoOf (some x.1, x.2) := by
    rw [hrot, rotatedInfos, filterMap_map, ← filterMap_eq_map]
    apply filterMap_congr
    simp [infoOf_eq, Except.toOption]
  have hsorted : ((rot.map fun x => infoOf (some x.1, x.2)) ++
      [infoWith tail (none, act)]).Pairwise
        (fun f g : WalFileInfo => f.walPositionStart ≤ g.walPositionStart) := by
    have hpair := (hch.start_le size).2
    have hle : ∀ x y : LogFile codec, x.stop size ≤ y.start →
        min x.start u64Max ≤ min y.start u64Max := by
      intro x y hle
      unfold Run.stop at hle
      omega
    rw [pairwise_append] at hpair ⊢
    obtain ⟨hrots, -, hlast⟩ := hpair
    refine ⟨?_, pairwise_singleton _ _, ?_⟩
    · rw [pairwise_map] at hrots ⊢
      exact hrots.imp fun {x y} hxy => hle x.2 y.2 hxy
    · intro i hi _ hy
      obtain ⟨x, hx, rfl⟩ := mem_map.mp hi
      rw [mem_singleton.mp hy]
      exact hle x.2 act (hlast x.2 (mem_map_of_mem hx) act mem_cons_self)
  simp only [MultiFileWalReader.open, MultiFileWalReader.discover, hact, hinfos, infoWith_eq,
    Except.map]
  rw [mergeSort_of_pairwise]
  simpa using hsorted

theorem open_located {act : LogFile codec}
    (hrot : disk.rotated.entries = rot.map fun x => (x.1, bytes hash x.2))
    (hact : disk.active = some (bytes hash act))
    (hch : Chained size s (rot.map Prod.snd ++ [act])) :
    MultiFileWalReader.open disk = .ok ⟨(located rot act).map infoOf⟩ := by
  rw [open_torn hrot (hact.trans (by rw [append_nil])) hch]
  simp [located, Function.comp_def, infoWith, infoOf]

/-- No file is found to end beyond the range of positions. -/
theorem walPositionEnd_le {r : MultiFileWalReader} (h : MultiFileWalReader.open disk = .ok r) :
    ∀ i ∈ r.files, i.walPositionEnd ≤ u64Max := by
  have hof : ∀ id file i, of id file = .ok i → i.walPositionEnd ≤ u64Max := by
    intro id file i hi
    unfold of at hi
    cases ho : WalReader.open file with
    | error e =>
      rw [ho] at hi
      cases hi
    | ok reader =>
      rw [ho] at hi
      cases hi
      exact saturatingAdd_le _ _
  have hrot : ∀ i ∈ rotatedInfos disk.rotated.entries, i.walPositionEnd ≤ u64Max := by
    intro i hi
    obtain ⟨⟨id, file⟩, -, hopt⟩ := mem_filterMap.mp hi
    cases ho : of (some id) file with
    | error e => simp [ho, Except.toOption] at hopt
    | ok i' =>
      simp only [ho, Except.toOption, Option.some.injEq] at hopt
      rw [← hopt]
      exact hof _ _ _ ho
  have hfound : ∀ files, discover disk = .ok files →
      ∀ i ∈ files, i.walPositionEnd ≤ u64Max := by
    intro files hfiles i hi
    unfold discover at hfiles
    cases hactive : disk.active with
    | none =>
      simp only [hactive] at hfiles
      split at hfiles
      · cases hfiles
      · cases hfiles
        exact hrot i hi
    | some file =>
      simp only [hactive] at hfiles
      cases ho : of none file with
      | ok info =>
        simp only [ho, Except.ok.injEq] at hfiles
        rw [← hfiles] at hi
        rcases mem_append.mp hi with hi | hi
        · exact hrot i hi
        · rw [mem_singleton.mp hi]
          exact hof _ _ _ ho
      | error e =>
        simp only [ho] at hfiles
        split at hfiles
        · cases hfiles
        · cases hfiles
          exact hrot i hi
  intro i hi
  unfold MultiFileWalReader.open at h
  cases hd : discover disk with
  | error e =>
    rw [hd] at h
    cases h
  | ok files =>
    rw [hd] at h
    cases h
    exact hfound files hd i (mem_mergeSort.mp hi)

end OtapDataflow.Wal
