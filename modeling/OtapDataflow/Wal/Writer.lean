import OtapDataflow.Lib.OrdMap
import OtapDataflow.Wal.Format

/-! # Reading the write-ahead log

`WalReader` reads one file; `MultiFileWalReader` discovers the rotated files and the active
file and iterates over them in the order of their positions. -/

namespace OtapDataflow.Wal

open Bytes Word

/-- The files of one log: the active file, the rotated files by rotation id, the sidecar. -/
structure Disk where
  active : Option Bytes
  rotated : OrdMap Nat Bytes
  sidecar : Option Bytes

def Disk.empty : Disk := ⟨none, OrdMap.empty, none⟩

/-- The file with the given rotation id, the active file for `none`. -/
def Disk.file? (disk : Disk) : Option Nat → Option Bytes
  | none => disk.active
  | some id => disk.rotated.get? id

section

variable {β : Type} (codec : Codec β)

/-- The part that `WalReader::read_next_entry` and `WalEntryIter::next` share: read the entry
at a file offset.  `none` is the end of the file. -/
def readEntry (file : Bytes) (fileLen headerSize walPositionStart entryStart : Nat) :
    Option (Except WalError (WalRecordBundle × Nat)) :=
  match split 4 (file.drop entryStart) with
  | none =>
    if file.length ≤ entryStart then none else some (.error (.unexpectedEof "entry length"))
  | some (lenBuf, rest) =>
    let entryLen := ofLe lenBuf.1
    if maxEntrySize < entryLen then
      some (.error (.invalidEntry "entry length exceeds maximum allowed size"))
    else if fileLen - (entryStart + 4) < entryLen then
      some (.error (.invalidEntry "entry length exceeds remaining file size"))
    else
      match split entryLen rest with
      | none => some (.error (.unexpectedEof "entry body"))
      | some (body, rest) =>
        match split 4 rest with
        | none => some (.error (.unexpectedEof "entry crc"))
        | some (crcBuf, _) =>
          let storedCrc := ofLe crcBuf.1
          let computedCrc := (codec.crc32 body.1).toNat
          if storedCrc ≠ computedCrc then some (.error (.crcMismatch storedCrc computedCrc))
          else
            let nextFileOffset :=
              saturatingAdd (saturatingAdd (saturatingAdd entryStart 4) entryLen) 4
            let position := saturatingAdd walPositionStart (entryStart - headerSize)
            let nextOffset := saturatingAdd walPositionStart (nextFileOffset - headerSize)
            some ((decodeEntry position nextOffset body.1).map fun entry =>
              (entry, nextFileOffset))

end

/-! ## One file -/

structure WalReader where
  file : Bytes
  segmentCfgHash : Bytes
  headerSize : Nat
  walPositionStart : Nat
  nextFileOffset : Nat
  fileLen : Nat
  finished : Bool

namespace WalReader

def «open» (file : Bytes) : Except WalError WalReader :=
  (WalHeader.readFrom file).map fun header =>
    { file
      segmentCfgHash := header.segmentCfgHash.1
      headerSize := header.headerSize
      walPositionStart := header.walPositionStart
      nextFileOffset := header.headerSize
      fileLen := file.length
      finished := false }

/-- `wal_position_end` -/
def walPositionEnd (r : WalReader) : Nat :=
  saturatingAdd r.walPositionStart (r.fileLen - r.headerSize)

/-- The file offset of a position, never inside the header. -/
def offsetOf (r : WalReader) (walPosition : Nat) : Nat :=
  max (saturatingAdd (walPosition - r.walPositionStart) r.headerSize) r.headerSize

def seekToPosition (r : WalReader) (walPosition : Nat) : WalReader :=
  { r with nextFileOffset := r.offsetOf walPosition, finished := false }

variable {β : Type} (codec : Codec β)

/-- One call of the reader: what it returns and the reader after it. -/
def readNextEntry (r : WalReader) : Option (Except WalError WalRecordBundle) × WalReader :=
  if r.finished then (none, r)
  else
    match readEntry codec r.file r.fileLen r.headerSize r.walPositionStart r.nextFileOffset with
    | none => (none, { r with finished := true })
    | some (.error e) => (some (.error e), { r with finished := true })
    | some (.ok (entry, next)) => (some (.ok entry), { r with nextFileOffset := next })

/-- `WalEntryIter::next`, which reads like the reader itself. -/
def iterNext (r : WalReader) : Option (Except WalError WalRecordBundle × WalReader) :=
  match r.readNextEntry codec with
  | (none, _) => none
  | (some item, r') => some (item, r')

/-- `iter_from` -/
def iterFrom (r : WalReader) (walPosition : Nat) : WalReader :=
  { r with fileLen := r.file.length, nextFileOffset := r.offsetOf walPosition, finished := false }

end WalReader

/-! ## All files of a log -/

structure WalFileInfo where
  rotationId : Option Nat
  walPositionStart : Nat
  walPositionEnd : Nat
  deriving Repr, DecidableEq

/-- The information about one file, when its header can be read. -/
def WalFileInfo.of (rotationId : Option Nat) (file : Bytes) : Except WalError WalFileInfo :=
  (WalReader.open file).map fun r =>
    { rotationId, walPositionStart := r.walPositionStart, walPositionEnd := r.walPositionEnd }

/-- Rotated files whose header cannot be read are left out. -/
def rotatedInfos (rotated : List (Nat × Bytes)) : List WalFileInfo :=
  rotated.filterMap fun (id, file) => (WalFileInfo.of (some id) file).toOption

structure MultiFileWalReader where
  files : List WalFileInfo

namespace MultiFileWalReader

/-- The files in the order in which they were found: rotated by id, then the active one. -/
def discover (disk : Disk) : Except WalError (List WalFileInfo) :=
  let files := rotatedInfos disk.rotated.entries
  match disk.active with
  | none => if files.isEmpty then .error (.io .notFound) else .ok files
  | some file =>
    match WalFileInfo.of none file with
    | .ok info => .ok (files ++ [info])
    | .error e => if files.isEmpty then .error e else .ok files

def «open» (disk : Disk) : Except WalError MultiFileWalReader :=
  (discover disk).map fun files =>
    ⟨files.mergeSort fun f g => decide (f.walPositionStart ≤ g.walPositionStart)⟩

end MultiFileWalReader

/-- The iterator over all files; the files before `current_idx` are dropped. -/
structure MultiFileWalIter where
  files : List WalFileInfo
  currentReader : Option WalReader
  startPosition : Nat

/-- `MultiFileWalReader::iter_from` starts in the first file that ends after the position. -/
def MultiFileWalReader.iterFrom (r : MultiFileWalReader) (walPosition : Nat) : MultiFileWalIter :=
  { files := r.files.dropWhile fun f => decide (f.walPositionEnd ≤ walPosition)
    currentReader := none
    startPosition := walPosition }

namespace MultiFileWalIter

variable {β : Type} (codec : Codec β) (disk : Disk)

/-- Open and seek a file; a file that cannot be opened is skipped. -/
def openFile (info : WalFileInfo) (startPosition : Nat) : Option WalReader :=
  (disk.file? info.rotationId).bind fun file =>
    (WalReader.open file).toOption.map fun r =>
      r.seekToPosition (max startPosition info.walPositionStart)

/-- The loop of `next` over the remaining files. -/
def nextFrom (startPosition : Nat) :
    List WalFileInfo → Option WalReader →
      Option (Except WalError WalRecordBundle × MultiFileWalIter)
  | [], _ => none
  | info :: rest, current =>
    match current.or (openFile disk info startPosition) with
    | none => nextFrom startPosition rest none
    | some reader =>
      match reader.readNextEntry codec with
      | (some (.ok entry), reader') =>
        some (.ok entry, ⟨info :: rest, some reader', entry.nextOffset⟩)
      | (some (.error e), reader') => some (.error e, ⟨info :: rest, some reader', startPosition⟩)
      | (none, _) => nextFrom startPosition rest none

def next (it : MultiFileWalIter) : Option (Except WalError WalRecordBundle × MultiFileWalIter) :=
  nextFrom codec disk it.startPosition it.files it.currentReader

end MultiFileWalIter

/-! # Writing the write-ahead log

Opening a log, appending bundles, rotating the active file, persisting the consumer cursor and
purging the rotated files it has passed.  A position in the log counts the data bytes of all
files ever written; a file offset counts the bytes of one file, its header included.

File operations are taken to succeed; flushing, buffer sizing and the shared disk budget do
not change the files and are left out. -/

open WalHeader

/-- The tunables of the writer that matter for the files.  `with_rotation_target` clamps the
rotation target, so every options value satisfies the two bounds. -/
structure WalWriterOptions where
  segmentCfgHash : { hash : Bytes // hash.length = 16 }
  maxWalSize : Nat
  maxRotatedFiles : Nat
  rotationTargetBytes : Nat
  bufferDecayRate : Nat × Nat
  rotationTarget_pos : 1 ≤ rotationTargetBytes
  rotationTarget_le : rotationTargetBytes ≤ maxRotationTargetBytes

namespace WalWriterOptions

/-- `WalWriterOptions::new` -/
def new (hash : { hash : Bytes // hash.length = 16 }) : WalWriterOptions where
  segmentCfgHash := hash
  maxWalSize := u64Max
  maxRotatedFiles := 8
  rotationTargetBytes := 64 * 1024 * 1024
  bufferDecayRate := (15, 16)
  rotationTarget_pos := by decide
  rotationTarget_le := by decide

def withRotationTarget (o : WalWriterOptions) (target : Nat) : WalWriterOptions :=
  { o with
    rotationTargetBytes := max 1 (min target maxRotationTargetBytes)
    rotationTarget_pos := le_max_left ..
    rotationTarget_le := Nat.max_le.mpr ⟨by decide, min_le_right ..⟩ }

def validate (o : WalWriterOptions) : Except WalError Unit :=
  if o.bufferDecayRate.2 = 0 then
    .error (.invalidConfig "buffer_decay_rate denominator must be positive")
  else if o.bufferDecayRate.2 ≤ o.bufferDecayRate.1 then
    .error (.invalidConfig "buffer_decay_rate numerator must be less than denominator for decay")
  else .ok ()

end WalWriterOptions

structure RotatedWalFile where
  rotationId : Nat
  fileBytes : Nat
  walPositionEnd : Nat
  deriving Repr, DecidableEq

structure WalConsumerCursor where
  safeOffset : Nat
  safeSequence : UInt64
  deriving Repr, DecidableEq

structure WalCoordinator where
  options : WalWriterOptions
  /-- `cursor_state.wal_position` -/
  cursorPosition : Nat
  aggregateBytes : Nat
  cumulativeBytesWritten : Nat
  /-- Oldest first. -/
  rotatedFiles : List RotatedWalFile
  walPositionStart : Nat
  nextRotationId : Nat
  activeHeaderSize : Nat
  activeFileValidatedEntryBoundary : Nat
  entryBoundaries : List Nat
  lastCursorSequence : Option UInt64
  rotationCount : Nat
  purgeCount : Nat

namespace WalCoordinator

variable (c : WalCoordinator)

/-- Where the active file starts in the log. -/
def activeWalPositionStart : Nat :=
  match c.rotatedFiles.getLast? with
  | none => c.walPositionStart
  | some f => f.walPositionEnd

def toWalPosition (fileOffset : Nat) : Nat :=
  saturatingAdd c.activeWalPositionStart (fileOffset - c.activeHeaderSize)

def toFileOffset (walPosition activeLen : Nat) : Nat :=
  let activeDataLen := activeLen - c.activeHeaderSize
  if walPosition ≤ c.activeWalPositionStart then c.activeHeaderSize
  else saturatingAdd c.activeHeaderSize (min (walPosition - c.activeWalPositionStart) activeDataLen)

def restoreCursorOffsets (activeLen : Nat) : WalCoordinator :=
  let activeData := activeLen - c.activeHeaderSize
  let rotatedEnd := (c.rotatedFiles.getLast?.map RotatedWalFile.walPositionEnd).getD 0
  let totalOnDisk := saturatingAdd rotatedEnd activeData
  -- a cursor beyond what is on disk is taken to be stale
  let c := { c with cursorPosition := min c.cursorPosition totalOnDisk }
  { c with activeFileValidatedEntryBoundary := c.toFileOffset c.cursorPosition activeLen }

def recordAppend (entryEndOffset entryTotalBytes : Nat) : WalCoordinator :=
  { c with
    aggregateBytes := saturatingAdd c.aggregateBytes entryTotalBytes
    cumulativeBytesWritten := saturatingAdd c.cumulativeBytesWritten entryTotalBytes
    entryBoundaries := c.entryBoundaries ++ [entryEndOffset] }

def preflightAppend (activeLen entryTotalBytes : Nat) : Except WalError Unit :=
  let willRotate := c.options.rotationTargetBytes <
    saturatingAdd activeLen entryTotalBytes - c.activeHeaderSize
  let projected := saturatingAdd c.aggregateBytes entryTotalBytes
  let projected := if willRotate then saturatingAdd projected headerV1Len else projected
  if willRotate ∧ c.options.maxRotatedFiles ≤ c.rotatedFiles.length then
    .error (.walAtCapacity "rotated wal file cap reached; advance cursor before rotating")
  else if c.options.maxWalSize < projected then
    .error (.walAtCapacity "wal size cap exceeded; advance cursor to reclaim space")
  else .ok ()

/-- The boundaries are increasing, so the binary search of the source finds exactly the
members of the list. -/
def ensureEntryBoundary (target : Nat) : Except WalError Unit :=
  if target = c.activeFileValidatedEntryBoundary then .ok ()
  else if target < c.activeFileValidatedEntryBoundary then
    .error (.invalidConsumerCursor "safe offset regressed (file offset)")
  else if target = c.activeHeaderSize then .ok ()
  else if target ∈ c.entryBoundaries then .ok ()
  else .error (.invalidConsumerCursor "safe offset splits entry boundary")

def recalculateAggregateBytes (activeLen : Nat) : WalCoordinator :=
  let rotatedTotal := c.rotatedFiles.foldl (fun acc f => wrappingAdd acc f.fileBytes) 0
  { c with aggregateBytes := saturatingAdd rotatedTotal activeLen }

def validateCursor (activeLen : Nat) (cursor : WalConsumerCursor) : Except WalError Unit :=
  if c.lastCursorSequence.any (fun last => decide (cursor.safeSequence < last)) then
    .error (.invalidConsumerCursor "safe sequence regressed")
  else if cursor.safeOffset < c.cursorPosition then
    .error (.invalidConsumerCursor "safe offset regressed")
  else if cursor.safeOffset ≤ c.activeWalPositionStart then .ok ()
  else
    let fileOffset :=
      saturatingAdd c.activeHeaderSize (cursor.safeOffset - c.activeWalPositionStart)
    if activeLen < fileOffset then .error (.invalidConsumerCursor "safe offset beyond wal tail")
    else c.ensureEntryBoundary fileOffset

/-- `record_wal_position`, which writes the sidecar unless it is there already. -/
def recordWalPosition {β : Type} (codec : Codec β) (walPos : Nat) (disk : Disk) :
    WalCoordinator × Disk :=
  if c.cursorPosition = walPos ∧ disk.sidecar.isSome then (c, disk)
  else ({ c with cursorPosition := walPos },
    { disk with sidecar := some (encodeSidecar codec walPos) })

/-- What `write_cursor_sidecar` does to the boundary index of the active file. -/
def advanceBoundaries (walPos : Nat) : WalCoordinator :=
  if c.activeWalPositionStart < walPos then
    let fileOffset := saturatingAdd c.activeHeaderSize (walPos - c.activeWalPositionStart)
    { c with
      activeFileValidatedEntryBoundary := fileOffset
      entryBoundaries := c.entryBoundaries.dropWhile (fun offset => decide (offset < fileOffset)) }
  else if walPos = c.activeWalPositionStart then
    { c with activeFileValidatedEntryBoundary := c.activeHeaderSize }
  else c

/-- The loop of `purge_rotated_files` over the rotated files, oldest first. -/
def purgeFiles (c : WalCoordinator) (disk : Disk) : List RotatedWalFile → WalCoordinator × Disk
  | [] => ({ c with rotatedFiles := [] }, disk)
  | front :: rest =>
    if front.walPositionEnd ≤ c.cursorPosition then
      purgeFiles
        { c with
          aggregateBytes := c.aggregateBytes - front.fileBytes
          purgeCount := saturatingAdd c.purgeCount 1 }
        { disk with rotated := disk.rotated.erase front.rotationId } rest
    else ({ c with rotatedFiles := front :: rest }, disk)

def purgeRotatedFiles (disk : Disk) : WalCoordinator × Disk := c.purgeFiles disk c.rotatedFiles

def writeCursorSidecar {β : Type} (codec : Codec β) (cursor : WalConsumerCursor) (disk : Disk) :
    WalCoordinator × Disk :=
  let (c, disk) := c.recordWalPosition codec cursor.safeOffset disk
  let c := c.advanceBoundaries cursor.safeOffset
  { c with lastCursorSequence := some cursor.safeSequence }.purgeRotatedFiles disk

end WalCoordinator

/-- The writer, with the length of its active file. -/
structure WalWriter where
  coordinator : WalCoordinator
  currentLen : Nat
  nextSequence : UInt64

/-! ## Appending -/

section

variable {β : Type} (codec : Codec β)

/-- `rotate_active_file` after the check of the file cap. -/
def WalWriter.rotate (w : WalWriter) (disk : Disk) : WalWriter × Disk :=
  let c := w.coordinator
  let oldLen := w.currentLen
  let walPositionEnd :=
    saturatingAdd c.activeWalPositionStart (oldLen - c.activeHeaderSize)
  let aggregate := saturatingAdd (c.aggregateBytes - oldLen) oldLen
  ({ w with
      currentLen := headerV1Len
      coordinator :=
        { c with
          aggregateBytes := saturatingAdd aggregate headerV1Len
          rotatedFiles := c.rotatedFiles ++
            [{ rotationId := c.nextRotationId, fileBytes := oldLen, walPositionEnd }]
          walPositionStart := walPositionEnd
          nextRotationId := saturatingAdd c.nextRotationId 1
          activeHeaderSize := headerV1Len
          activeFileValidatedEntryBoundary := headerV1Len
          entryBoundaries := []
          rotationCount := saturatingAdd c.rotationCount 1 } },
    { active := some (withBaseOffset c.options.segmentCfgHash walPositionEnd).encode
      rotated := disk.rotated.insert c.nextRotationId (disk.active.getD [])
      sidecar := some (encodeSidecar codec c.cursorPosition) })

/-- `rotate_active_file` -/
def WalWriter.rotateActiveFile (w : WalWriter) (disk : Disk) :
    (WalWriter × Disk) × Except WalError Unit :=
  if w.coordinator.options.maxRotatedFiles ≤ w.coordinator.rotatedFiles.length then
    ((w, disk),
      .error (.walAtCapacity "rotated wal file cap reached; advance cursor before rotating"))
  else if w.currentLen ≤ w.coordinator.activeHeaderSize then ((w, disk), .ok ())
  else (w.rotate codec disk, .ok ())

/-- `maybe_rotate_after_append` -/
def WalWriter.maybeRotateAfterAppend (w : WalWriter) (disk : Disk) :
    (WalWriter × Disk) × Except WalError Unit :=
  if w.currentLen - w.coordinator.activeHeaderSize ≤ w.coordinator.options.rotationTargetBytes then
    ((w, disk), .ok ())
  else w.rotateActiveFile codec disk

/-- The writer and the disk once the frame of a body has been written. -/
def WalWriter.written (w : WalWriter) (disk : Disk) (body : Bytes) : WalWriter × Disk :=
  let total := 4 + body.length + 4
  ({ coordinator := w.coordinator.recordAppend (saturatingAdd w.currentLen total) total
     currentLen := saturatingAdd w.currentLen total
     nextSequence := w.nextSequence + 1 },
    { disk with active := some (disk.active.getD [] ++ frame codec body) })

def WalWriter.appendBundle (w : WalWriter) (disk : Disk) (bundle : RecordBundle β) :
    (WalWriter × Disk) × Except WalError WalOffset :=
  match encodeBody codec bundle w.nextSequence with
  | .error e => ((w, disk), .error e)
  | .ok body =>
    let total := 4 + body.length + 4
    match w.coordinator.preflightAppend w.currentLen total with
    | .error e => ((w, disk), .error e)
    | .ok () =>
      let (w', disk') := w.written codec disk body
      -- positions are computed before a rotation moves the start of the active file
      let offset : WalOffset :=
        { position := w'.coordinator.toWalPosition w.currentLen
          nextOffset := w'.coordinator.toWalPosition (saturatingAdd w.currentLen total)
          sequence := w.nextSequence }
      match w'.maybeRotateAfterAppend codec disk' with
      | (s, .error e) => (s, .error e)
      | (s, .ok ()) => (s, .ok offset)

def WalWriter.persistCursor (w : WalWriter) (disk : Disk) (cursor : WalConsumerCursor) :
    (WalWriter × Disk) × Except WalError Unit :=
  match w.coordinator.validateCursor w.currentLen cursor with
  | .error e => ((w, disk), .error e)
  | .ok () =>
    let (coordinator, disk) := w.coordinator.writeCursorSidecar codec cursor disk
    (({ w with coordinator }, disk), .ok ())

end

/-! ## Opening -/

section

variable {β : Type} (codec : Codec β)

structure ScanResult where
  lastSequence : Option UInt64
  lastValidOffset : Nat
  entryBoundaries : List Nat

/-- The loop of `scan_file_for_entries`: it stops at the first damaged entry.  Every round
that goes on consumes bytes of the file, so the file's length is enough fuel. -/
def scanEntries : Nat → WalReader → ScanResult → Except WalError ScanResult
  | 0, _, acc => .ok acc
  | fuel + 1, r, acc =>
    match r.iterNext codec with
    | none => .ok acc
    | some (.ok bundle, r') =>
      let offset := bundle.nextOffset - r.walPositionStart + r.headerSize
      scanEntries fuel r'
        { lastSequence := some bundle.sequence
          lastValidOffset := offset
          entryBoundaries := acc.entryBoundaries ++ [offset] }
    | some (.error (.unexpectedEof _), _) => .ok acc
    | some (.error (.invalidEntry _), _) => .ok acc
    | some (.error (.crcMismatch _ _), _) => .ok acc
    | some (.error e, _) => .error e

def scanFileForEntries (file : Option Bytes) : Except WalError ScanResult :=
  match file with
  | none => .ok ⟨none, 0, []⟩
  | some file =>
    match WalReader.open file with
    | .error e => .error e
    | .ok r => scanEntries codec (file.length + 1) (r.iterFrom 0) ⟨none, r.headerSize, []⟩

/-- The part of `WalWriter::open` that reads or creates the header of the active file: the
file, its start in the log and the size of its header. -/
def openActive (options : WalWriterOptions) (active : Option Bytes) :
    Except WalError (Bytes × Nat × Nat) :=
  let file := active.getD []
  if file.length = 0 then
    .ok ((withBaseOffset options.segmentCfgHash 0).encode, 0, headerV1Len)
  else if file.length < walHeaderMinLen then
    .error (.invalidHeader "file smaller than minimum header")
  else
    match readFrom file with
    | .error e => .error e
    | .ok header =>
      if header.segmentCfgHash ≠ options.segmentCfgHash then
        .error (.segmentConfigMismatch options.segmentCfgHash.1 header.segmentCfgHash.1)
      else .ok (file, header.walPositionStart, header.headerSize)

/-- The loop of `reload_rotated_files`, which adds up the data bytes of the rotated files. -/
def reloadFiles : Nat → List (Nat × Bytes) → Except WalError (List RotatedWalFile)
  | _, [] => .ok []
  | walPosition, (rotationId, file) :: rest =>
    match readHeaderSize file with
    | .error e => .error e
    | .ok headerSize =>
      let walPosition := saturatingAdd walPosition (file.length - headerSize)
      match reloadFiles walPosition rest with
      | .error e => .error e
      | .ok files =>
        .ok ({ rotationId, fileBytes := file.length, walPositionEnd := walPosition } :: files)

/-- The id after the largest one in use. -/
def reloadNextRotationId (rotated : List (Nat × Bytes)) : Nat :=
  match rotated with
  | [] => 1
  | _ => saturatingAdd (rotated.foldl (fun acc f => max acc f.1) 0) 1

/-- `detect_next_sequence`: the sequence after the last entry of the active file, or of the
newest rotated file when the active file has none. -/
def detectNextSequence (active : Bytes) (disk : Disk) (rotated : List RotatedWalFile) :
    Except WalError (UInt64 × ScanResult) :=
  match scanFileForEntries codec (some active) with
  | .error e => .error e
  | .ok scan =>
    match scan.lastSequence with
    | some sequence => .ok (sequence + 1, scan)
    | none =>
      match rotated.getLast? with
      | none => .ok (0, scan)
      | some newest =>
        match scanFileForEntries codec (disk.rotated.get? newest.rotationId) with
        | .error e => .error e
        | .ok rotatedScan =>
          match rotatedScan.lastSequence with
          | some sequence => .ok (sequence + 1, scan)
          | none => .ok (0, scan)

/-- The coordinator of `WalCoordinator::new` with the rotated files and the boundaries found on
disk, for an active file that is valid up to `validOffset`. -/
def openCoordinator (options : WalWriterOptions) (cursor start headerSize : Nat)
    (rotated : List RotatedWalFile) (nextRotationId : Nat) (boundaries : List Nat)
    (validOffset : Nat) : WalCoordinator :=
  ({ options
     cursorPosition := cursor
     aggregateBytes := headerSize
     cumulativeBytesWritten := 0
     rotatedFiles := rotated
     walPositionStart := start
     nextRotationId
     activeHeaderSize := headerSize
     activeFileValidatedEntryBoundary := headerSize
     entryBoundaries := boundaries
     lastCursorSequence := none
     rotationCount := 0
     purgeCount := 0 } : WalCoordinator).restoreCursorOffsets validOffset
    |>.recalculateAggregateBytes validOffset

/-- `WalWriter::open`; the trailing bytes after the last valid entry are cut off. -/
def WalWriter.open (options : WalWriterOptions) (disk : Disk) :
    Except WalError (WalWriter × Disk) :=
  match openActive options disk.active with
  | .error e => .error e
  | .ok (active, start, headerSize) =>
    match options.validate with
    | .error e => .error e
    | .ok () =>
      match loadCursorState codec disk.sidecar with
      | .error e => .error e
      | .ok cursor =>
        match reloadFiles 0 disk.rotated.entries with
        | .error e => .error e
        | .ok rotated =>
          match detectNextSequence codec active disk rotated with
          | .error e => .error e
          | .ok (nextSequence, scan) =>
            let valid := scan.lastValidOffset
            .ok ({ coordinator := openCoordinator options cursor start headerSize rotated
                      (reloadNextRotationId disk.rotated.entries) scan.entryBoundaries valid
                   currentLen := valid
                   nextSequence },
              { disk with active := some (active.take valid) })

end

end OtapDataflow.Wal
