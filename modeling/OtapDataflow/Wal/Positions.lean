import OtapDataflow.Wal.RoundTrip

/-! # Sessions of a log

The life of one log directory: appends, cursors that are persisted, and reopenings.  A step is
a call together with everything it is given; a failed open leaves no writer. -/

namespace OtapDataflow.Wal

open Bytes Word Frames Iterator List WalReader LogFile

variable {β : Type}

structure Session where
  writer : Option WalWriter
  disk : Disk

/-- A directory without files, before the first open. -/
def Session.fresh : Session := ⟨none, Disk.empty⟩

inductive Op (β : Type) where
  | append (bundle : RecordBundle β)
  | persist (cursor : WalConsumerCursor)
  | reopen

inductive Ret where
  | appended (result : Except WalError WalOffset)
  | persisted (result : Except WalError Unit)
  | opened (result : Except WalError Unit)
  | closed

/-- One call on the log. -/
def Session.step (codec : Codec β) (options : WalWriterOptions) (s : Session) :
    Op β → Session × Ret
  | .append bundle =>
    match s.writer with
    | none => (s, .closed)
    | some w =>
      let r := w.appendBundle codec s.disk bundle
      (⟨some r.1.1, r.1.2⟩, .appended r.2)
  | .persist cursor =>
    match s.writer with
    | none => (s, .closed)
    | some w =>
      let r := w.persistCursor codec s.disk cursor
      (⟨some r.1.1, r.1.2⟩, .persisted r.2)
  | .reopen =>
    match WalWriter.open codec options s.disk with
    | .error e => (⟨none, s.disk⟩, .opened (.error e))
    | .ok (w, disk) => (⟨some w, disk⟩, .opened (.ok ()))

/-- The persisted cursor: the sidecar's, zero when there is none. -/
def persistedCursor (codec : Codec β) (disk : Disk) : Nat :=
  ((loadCursorState codec disk.sidecar).toOption).getD 0

/-- The position at which a file starts, by its header. -/
def headerStart (file : Bytes) : Option Nat :=
  (WalHeader.readFrom file).toOption.map WalHeader.walPositionStart

/-- The position at which a file ends: the start in its header and its data bytes. -/
def headerEnd (file : Bytes) : Option Nat :=
  (WalHeader.readFrom file).toOption.map fun h => h.walPositionStart + (file.length - h.headerSize)

/-- Every entry of a file can be read back. -/
def Intact (codec : Codec β) (file : Bytes) : Prop :=
  ∃ (reader : WalReader) (records : List WalRecordBundle), WalReader.open file = .ok reader ∧
    Yields (iterNext codec) (reader.iterFrom 0) (records.map .ok)

/-! ## Files of a log -/

section

variable {codec : Codec β} {hash : CfgHash} {f : LogFile codec}

theorem headerStart_bytes : headerStart (bytes hash f) = some (min f.start u64Max) := by
  rw [headerStart, ← append_nil (bytes hash f), readFrom_bytes]
  rfl

theorem headerEnd_bytes : headerEnd (bytes hash f) = some (min f.start u64Max + f.dataLen) := by
  rw [headerEnd, ← append_nil (bytes hash f), readFrom_bytes]
  simp [Except.toOption, WalHeader.withBaseOffset]

/-- An iteration without errors from inside a file has only readable entries before it. -/
theorem readable_of_yields (hsmall : LogFile.Small f) {pre post : List (Entry codec)}
    (hf : f.frames = pre ++ post) {records : List WalRecordBundle}
    (h : Yields (iterNext codec) (readerAt hash f pre) (records.map .ok)) :
    ∀ e ∈ post, Readable codec e.bundle := by
  induction post generalizing pre records with
  | nil => simp
  | cons e post ih =>
    by_cases he : Readable codec e.bundle
    · have hnext : (readerAt hash f pre).iterNext codec =
          some (.ok (e.recordAt (f.start + total Entry.size pre)),
            readerAt hash f (pre ++ [e])) := by
        rw [iterNext, readNextEntry_readable hsmall hf he]
      have hf' : f.frames = (pre ++ [e]) ++ post := by rw [hf, append_assoc]; rfl
      obtain ⟨rest, heq, hrest⟩ := h.of_next hnext
      obtain ⟨_, records, rfl, -, rfl⟩ := map_eq_cons_iff.mp heq
      intro e' he'
      rcases mem_cons.mp he' with rfl | he'
      · exact he
      · exact ih hf' hrest e' he'
    · obtain ⟨context, hread⟩ : ∃ context, (readerAt hash f pre).readNextEntry codec =
          (some (.error (.invalidEntry context)), { readerAt hash f pre with finished := true }) :=
        readNextEntry_unreadable hsmall hf he
      have hnext : (readerAt hash f pre).iterNext codec =
          some (.error (.invalidEntry context), { readerAt hash f pre with finished := true }) := by
        rw [iterNext, hread]
      obtain ⟨rest, heq, -⟩ := h.of_next hnext
      obtain ⟨_, _, -, herr, -⟩ := map_eq_cons_iff.mp heq
      cases herr

theorem readable_of_intact (hsmall : LogFile.Small f) (h : Intact codec (bytes hash f)) :
    ∀ e ∈ f.frames, Readable codec e.bundle := by
  obtain ⟨reader, records, hopen, hyields⟩ := h
  rw [open_bytes] at hopen
  cases hopen
  rw [iterFrom_zero] at hyields
  exact readable_of_yields hsmall (nil_append _).symm hyields

end

/-! # Persisting a cursor

An accepted cursor lies between the last one and the end of the log.  It is written to the
sidecar, and the rotated files it has passed are removed, oldest first; what is left is still
a log (`Represents.persist`). -/

open WalCoordinator Entry

variable {codec : Codec β}

/-- The files that matter for positions are the same. -/
structure WalCoordinator.SameFiles (c c' : WalCoordinator) : Prop where
  options : c'.options = c.options
  rotatedFiles : c'.rotatedFiles = c.rotatedFiles
  walPositionStart : c'.walPositionStart = c.walPositionStart
  nextRotationId : c'.nextRotationId = c.nextRotationId
  activeHeaderSize : c'.activeHeaderSize = c.activeHeaderSize

theorem WalCoordinator.advanceBoundaries_same (c : WalCoordinator) (walPos : Nat) :
    c.SameFiles (c.advanceBoundaries walPos) ∧
      (c.advanceBoundaries walPos).cursorPosition = c.cursorPosition := by
  unfold advanceBoundaries
  split
  · exact ⟨⟨rfl, rfl, rfl, rfl, rfl⟩, rfl⟩
  · split <;> exact ⟨⟨rfl, rfl, rfl, rfl, rfl⟩, rfl⟩

/-- The sidecar holds the new position, unless it held it already. -/
theorem WalCoordinator.recordWalPosition_spec (codec : Codec β) (c : WalCoordinator)
    (walPos : Nat) (disk : Disk) :
    c.SameFiles (c.recordWalPosition codec walPos disk).1 ∧
      (c.recordWalPosition codec walPos disk).1.cursorPosition = walPos ∧
      (c.recordWalPosition codec walPos disk).2.active = disk.active ∧
      (c.recordWalPosition codec walPos disk).2.rotated = disk.rotated ∧
      ((c.recordWalPosition codec walPos disk).2.sidecar = some (encodeSidecar codec walPos) ∨
        (c.recordWalPosition codec walPos disk).2.sidecar = disk.sidecar ∧
          c.cursorPosition = walPos) := by
  unfold recordWalPosition
  split_ifs with hsame
  · exact ⟨⟨rfl, rfl, rfl, rfl, rfl⟩, hsame.1, rfl, rfl, .inr ⟨rfl, hsame.1⟩⟩
  · exact ⟨⟨rfl, rfl, rfl, rfl, rfl⟩, rfl, rfl, rfl, .inl rfl⟩

/-! ## Purging -/

/-- Drop the rotated files that end at or before a position. -/
def Log.purge (cursor : Nat) (l : Log codec) : Log codec :=
  { l with
    rotated := l.rotated.dropWhile fun x => decide (min (x.2.stop size) u64Max ≤ cursor) }

/-- Only files behind the position are dropped. -/
theorem Log.mem_purge {l : Log codec} {x : Nat × LogFile codec} (hx : x ∈ l.rotated)
    (cursor : Nat) : x ∈ (l.purge cursor).rotated ∨ min (x.2.stop size) u64Max ≤ cursor := by
  have hsplit : l.rotated.takeWhile (fun x => decide (min (x.2.stop size) u64Max ≤ cursor)) ++
      (l.purge cursor).rotated = l.rotated := takeWhile_append_dropWhile
  rw [← hsplit] at hx
  rcases mem_append.mp hx with hx | hx
  · exact .inr (by simpa using mem_takeWhile_imp hx)
  · exact .inl hx

section

variable {hash : CfgHash}

/-- The loop of the purge removes a prefix of the files, from the index and from the disk. -/
theorem purgeFiles_spec {rot : List (Nat × LogFile codec)} (c : WalCoordinator) (disk : Disk)
    (hdisk : disk.rotated.entries = rot.map fun x => (x.1, bytes hash x.2)) :
    ∃ agg count disk', c.purgeFiles disk (rot.map fun x =>
        ⟨x.1, headerV1Len + x.2.dataLen, min (x.2.stop size) u64Max⟩) =
      ({ c with
          rotatedFiles := (rot.dropWhile fun x =>
            decide (min (x.2.stop size) u64Max ≤ c.cursorPosition)).map fun x =>
              ⟨x.1, headerV1Len + x.2.dataLen, min (x.2.stop size) u64Max⟩
          aggregateBytes := agg
          purgeCount := count }, disk') ∧
      disk'.active = disk.active ∧ disk'.sidecar = disk.sidecar ∧
      disk'.rotated.entries = (rot.dropWhile fun x =>
        decide (min (x.2.stop size) u64Max ≤ c.cursorPosition)).map fun x =>
          (x.1, bytes hash x.2) := by
  induction rot generalizing c disk with
  | nil => exact ⟨c.aggregateBytes, c.purgeCount, disk, rfl, rfl, rfl, hdisk⟩
  | cons x rot ih =>
    by_cases hend : min (x.2.stop size) u64Max ≤ c.cursorPosition
    · have herase : (disk.rotated.erase x.1).entries =
          rot.map fun x => (x.1, bytes hash x.2) := OrdMap.erase_entries hdisk
      obtain ⟨agg, count, disk', hpurge, hactive, hsidecar, hentries⟩ :=
        ih { c with
            aggregateBytes := c.aggregateBytes - (headerV1Len + x.2.dataLen)
            purgeCount := saturatingAdd c.purgeCount 1 }
          { disk with rotated := disk.rotated.erase x.1 } herase
      refine ⟨agg, count, disk', ?_, hactive, hsidecar, ?_⟩
      · rw [map_cons, purgeFiles, if_pos hend, hpurge, dropWhile_cons_of_pos (by simpa using hend)]
      · rwa [dropWhile_cons_of_pos (by simpa using hend)]
    · refine ⟨c.aggregateBytes, c.purgeCount, disk, ?_, rfl, rfl, ?_⟩
      · rw [map_cons, purgeFiles, if_neg hend, dropWhile_cons_of_neg (by simpa using hend)]
        rfl
      · rwa [dropWhile_cons_of_neg (by simpa using hend)]

/-- Dropping files from the front of a chain leaves a chain. -/
theorem Log.chained_purge {l : Log codec} {s : Nat} (h : Chained size s l.files)
    (cursor : Nat) : ∃ s', Chained size s' (l.purge cursor).files := by
  obtain ⟨rot, act⟩ := l
  unfold Log.purge
  induction rot generalizing s with
  | nil => exact ⟨s, h⟩
  | cons x rot ih =>
    by_cases hend : min (x.2.stop size) u64Max ≤ cursor
    · rw [dropWhile_cons_of_pos (by simpa using hend)]
      exact ih h.2
    · rw [dropWhile_cons_of_neg (by simpa using hend)]
      exact ⟨s, h⟩

end

/-! ## The log after a cursor -/

section

variable {w : WalWriter} {disk : Disk} {l : Log codec} {cursor : WalConsumerCursor}

/-- A coordinator whose last files are those of another one has the same active file. -/
theorem WalCoordinator.activeWalPositionStart_suffix {c c' : WalCoordinator} {start : Nat}
    (hstart : c.activeWalPositionStart = start) (hempty : c'.walPositionStart = start)
    (hsuffix : c'.rotatedFiles <:+ c.rotatedFiles) : c'.activeWalPositionStart = start := by
  obtain ⟨pre, hpre⟩ := hsuffix
  unfold activeWalPositionStart at hstart ⊢
  cases hlast : c'.rotatedFiles.getLast? with
  | none => exact hempty
  | some f =>
    rwa [← hpre, getLast?_append, hlast] at hstart

/-- A cursor that passes the check lies between the last cursor and the end of the log. -/
theorem Counts.cursor_bounds (h : Counts w l.active)
    (hvalid : w.coordinator.validateCursor w.currentLen cursor = .ok ()) :
    w.coordinator.cursorPosition ≤ cursor.safeOffset ∧
      cursor.safeOffset ≤ l.active.stop size := by
  have hlen : l.active.stop size = l.active.start + l.active.dataLen := rfl
  unfold validateCursor at hvalid
  split at hvalid
  · cases hvalid
  split at hvalid
  · cases hvalid
  rename_i hregress
  split_ifs at hvalid with hpast
  · rw [h.start] at hpast
    omega
  · simp only [h.start, h.header, h.len] at hvalid
    split at hvalid
    · cases hvalid
    rename_i htail
    -- the sum is at most the length of the active file, so it has not saturated
    have htarget := h.target
    have hmax := w.coordinator.options.rotationTarget_le
    unfold saturatingAdd at htail
    unfold maxRotationTargetBytes at hmax
    unfold headerV1Len u64Max at *
    omega

/-- **Persisting a cursor refines the log**: it drops rotated files that end at or before the
cursor, from the front, and the sidecar holds the cursor. -/
theorem Represents.persist (h : Represents w disk l) :
    ∃ c disk', w.coordinator.writeCursorSidecar codec cursor disk = (c, disk') ∧
      Represents { w with coordinator := c } disk' (l.purge cursor.safeOffset) ∧
      c.options = w.coordinator.options ∧ c.nextRotationId = w.coordinator.nextRotationId ∧
      c.cursorPosition = cursor.safeOffset ∧
      (disk'.sidecar = some (encodeSidecar codec cursor.safeOffset) ∨
        disk'.sidecar = disk.sidecar ∧ w.coordinator.cursorPosition = cursor.safeOffset) := by
  obtain ⟨hrec, hpos, hactive, hrotated, hsidecar⟩ :=
    w.coordinator.recordWalPosition_spec codec cursor.safeOffset disk
  generalize hr : w.coordinator.recordWalPosition codec cursor.safeOffset disk = r at *
  obtain ⟨hadv, hpos'⟩ := r.1.advanceBoundaries_same cursor.safeOffset
  -- the coordinator whose files the purge runs over
  obtain ⟨c, hc⟩ : ∃ c, c = { r.1.advanceBoundaries cursor.safeOffset with
    lastCursorSequence := some cursor.safeSequence } := ⟨_, rfl⟩
  have hcur : c.cursorPosition = cursor.safeOffset := by
    rw [hc]; exact hpos'.trans hpos
  have hopts : c.options = w.coordinator.options := by
    rw [hc]; exact hadv.options.trans hrec.options
  have hfiles : c.rotatedFiles = l.rotated.map fun x =>
      ⟨x.1, headerV1Len + x.2.dataLen, min (x.2.stop size) u64Max⟩ := by
    rw [hc, ← h.rotatedFiles]; exact hadv.rotatedFiles.trans hrec.rotatedFiles
  have hwal : c.walPositionStart = min l.active.start u64Max := by
    rw [hc, ← h.walPositionStart]; exact hadv.walPositionStart.trans hrec.walPositionStart
  have hnext : c.nextRotationId = w.coordinator.nextRotationId := by
    rw [hc]; exact hadv.nextRotationId.trans hrec.nextRotationId
  have hheader : c.activeHeaderSize = headerV1Len := by
    rw [hc, ← h.header]; exact hadv.activeHeaderSize.trans hrec.activeHeaderSize
  obtain ⟨agg, count, disk', hpurge, hactive', hsidecar', hentries⟩ :=
    purgeFiles_spec c r.2 (hrotated ▸ h.rotatedDisk)
  rw [← hfiles] at hpurge
  have hsub : ∀ x ∈ (l.purge cursor.safeOffset).rotated, x ∈ l.rotated := fun x hx =>
    (dropWhile_suffix _).subset hx
  have hwrite : w.coordinator.writeCursorSidecar codec cursor disk =
      c.purgeFiles r.2 c.rotatedFiles := by
    rw [hc, ← hr]
    rfl
  refine ⟨_, disk', hwrite.trans hpurge, ⟨⟨?_, hheader, h.len, ?_⟩, ?_, ?_, ?_, hwal, ?_, ?_⟩,
    hopts, hnext, hcur, ?_⟩
  · refine activeWalPositionStart_suffix h.start hwal ?_
    rw [h.rotatedFiles]
    exact (dropWhile_suffix _).map _
  · show _ ≤ c.options.rotationTargetBytes
    rw [hopts]
    exact h.target
  · show _ = (l.purge cursor.safeOffset).rotated.map fun x =>
      (x.1, bytes c.options.segmentCfgHash x.2)
    rw [hentries, hcur, hopts]
    rfl
  · show disk'.active = some (bytes c.options.segmentCfgHash l.active)
    rw [hactive', hactive, h.activeDisk, hopts]
  · rw [hcur]
    rfl
  · intro x hx
    show x.1 < c.nextRotationId
    rw [hnext]
    exact h.ids x (hsub x hx)
  · exact fun x hx => h.small x (hsub x hx)
  · rwa [hsidecar']

end

/-! # Positions across restarts

A position is stable when the writer's account of it agrees with the headers of the files,
whatever has been appended, purged and reopened.  While the log is open the account is kept
incrementally and always agrees.  A reopening recomputes it from the lengths of the rotated
files that are left, which is right only if the oldest of them starts at zero; and it cuts the
cursor off at those lengths (`Allowed`). -/

open Session Machine

variable {options : WalWriterOptions}

/-! ## A consistent log -/

/-- A writer, its disk and the log they hold, with the cursor of the sidecar inside it. -/
structure Consistent (codec : Codec β) (options : WalWriterOptions) (w : WalWriter) (disk : Disk)
    (l : Log codec) : Prop extends Represents w disk l where
  options_eq : w.coordinator.options = options
  valid : options.validate = .ok ()
  chained : ∃ base, Chained size base l.files
  inRange : l.active.stop size ≤ u64Max
  rotationIds : 2 * w.coordinator.nextRotationId ≤ l.active.start + 2
  sidecar : loadCursorState codec disk.sidecar = .ok w.coordinator.cursorPosition
  cursor : w.coordinator.cursorPosition ≤ l.active.stop size

theorem Log.stop_append (l : Log codec) (target id : Nat) (e : Entry codec) :
    (l.append target id e).active.stop size = l.active.stop size + e.size := by
  unfold Log.append
  split <;> exact stop_push l.active e

/-- A sidecar that was written holds its cursor. -/
theorem loadCursorState_of_le {position : Nat} (h : position ≤ u64Max) :
    loadCursorState codec (some (encodeSidecar codec position)) = .ok position :=
  loadCursorState_encode (lt_of_le_of_lt h (by decide))

section

variable {w : WalWriter} {disk : Disk} {l : Log codec}

theorem Consistent.append (h : Consistent codec options w disk l) {bundle : RecordBundle β}
    {body : Bytes} (hbody : encodeBody codec bundle w.nextSequence = .ok body)
    (hroom : l.active.stop size + (entryOf hbody).size ≤ u64Max) :
    Consistent codec options (appended codec w disk body).1 (appended codec w disk body).2
      (l.append w.coordinator.options.rotationTargetBytes w.coordinator.nextRotationId
        (entryOf hbody)) ∧
      (appended codec w disk body).1.coordinator.cursorPosition =
        w.coordinator.cursorPosition := by
  obtain ⟨base, hch⟩ := h.chained
  have hfree := rotationId_lt h.rotationIds h.inRange
  have hcursor := h.cursor
  have hstop := l.stop_append w.coordinator.options.rotationTargetBytes
    w.coordinator.nextRotationId (entryOf hbody)
  have hkeep : (appended codec w disk body).1.coordinator.options = w.coordinator.options ∧
      (appended codec w disk body).1.coordinator.cursorPosition = w.coordinator.cursorPosition ∧
      loadCursorState codec (appended codec w disk body).2.sidecar =
        .ok w.coordinator.cursorPosition := by
    unfold appended
    split
    · exact ⟨rfl, rfl, h.sidecar⟩
    · exact ⟨rfl, rfl, loadCursorState_of_le (h.cursor.trans h.inRange)⟩
  obtain ⟨hopt, hpos, hside⟩ := hkeep
  refine ⟨⟨h.toRepresents.append hbody hfree, hopt.trans h.options_eq, h.valid,
    ⟨base, Log.chained_append hch⟩, hstop ▸ hroom,
    nextRotationId_append h.toCounts hbody h.rotationIds _, by rw [hpos]; exact hside, ?_⟩, hpos⟩
  omega

/-- A cursor that passes the check is persisted. -/
theorem Consistent.persist (h : Consistent codec options w disk l) {cursor : WalConsumerCursor}
    (hvalid : w.coordinator.validateCursor w.currentLen cursor = .ok ()) :
    ∃ c disk', w.persistCursor codec disk cursor = (({ w with coordinator := c }, disk'), .ok ()) ∧
      Consistent codec options { w with coordinator := c } disk' (l.purge cursor.safeOffset) ∧
      c.cursorPosition = cursor.safeOffset ∧
      w.coordinator.cursorPosition ≤ cursor.safeOffset := by
  obtain ⟨hlow, hhigh⟩ := h.toCounts.cursor_bounds hvalid
  obtain ⟨base, hch⟩ := h.chained
  obtain ⟨base', hch'⟩ := Log.chained_purge hch cursor.safeOffset
  obtain ⟨c, disk', hwrite, hrep, hopt, hnext, hpos, hside⟩ := h.toRepresents.persist
  refine ⟨c, disk', ?_, ⟨hrep, hopt.trans h.options_eq, h.valid, ⟨base', hch'⟩, h.inRange, ?_, ?_,
    ?_⟩, hpos, hlow⟩
  · simp [WalWriter.persistCursor, hvalid, hwrite]
  · show 2 * c.nextRotationId ≤ l.active.start + 2
    rw [hnext]
    exact h.rotationIds
  · show loadCursorState codec disk'.sidecar = .ok c.cursorPosition
    rw [hpos]
    rcases hside with hside | ⟨hside, hsame⟩
    · rw [hside]
      exact loadCursorState_of_le (hhigh.trans h.inRange)
    · rw [hside, ← hsame]
      exact h.sidecar
  · show c.cursorPosition ≤ l.active.stop size
    rwa [hpos]

/-- A reopening finds an id that no rotated file has, and none larger than it need be. -/
theorem reloadNextRotationId_le {rotated : List (Nat × Bytes)} {n : Nat}
    (h : ∀ x ∈ rotated, x.1 < n) : reloadNextRotationId rotated ≤ max 1 n := by
  have hfold : ∀ (xs : List (Nat × Bytes)) (acc : Nat), (∀ x ∈ xs, x.1 < n) → acc < n →
      xs.foldl (fun acc f => max acc f.1) acc < n := by
    intro xs
    induction xs with
    | nil => exact fun acc _ hacc => hacc
    | cons x xs ih =>
      intro acc hxs hacc
      have hx := hxs x mem_cons_self
      exact ih _ (fun y hy => hxs y (mem_cons_of_mem _ hy)) (Nat.max_lt.mpr ⟨hacc, hx⟩)
  cases rotated with
  | nil => exact le_max_left ..
  | cons x rotated =>
    have hx := h x mem_cons_self
    have hlt := hfold (x :: rotated) 0 h (by omega)
    have hsat := saturatingAdd_le_add ((x :: rotated).foldl (fun acc f => max acc f.1) 0) 1
    show saturatingAdd _ 1 ≤ _
    omega

section

variable (h : Consistent codec options w disk l)
include h

theorem Consistent.ids_lt : ∀ x ∈ l.rotated, x.1 < u64Max := by
  intro x hx
  exact (h.ids x hx).trans (rotationId_lt h.rotationIds h.inRange)

theorem Consistent.reloadIds_le :
    2 * reloadNextRotationId disk.rotated.entries ≤ l.active.start + 2 := by
  have hle : reloadNextRotationId disk.rotated.entries ≤ max 1 w.coordinator.nextRotationId := by
    refine reloadNextRotationId_le fun x hx => ?_
    rw [h.rotatedDisk] at hx
    obtain ⟨y, hy, rfl⟩ := mem_map.mp hx
    exact h.ids y hy
  have hrotIds := h.rotationIds
  omega

/-- What a reopening takes to be on disk reaches the cursor. -/
theorem Consistent.cursor_le_onDisk
    (hcursor : l.rotated = [] → w.coordinator.cursorPosition ≤ l.active.dataLen) :
    w.coordinator.cursorPosition ≤ onDisk l := by
  obtain ⟨base, hch⟩ := h.chained
  have hpos := h.cursor
  have hrange := h.inRange
  have hstop : l.active.stop size = l.active.start + l.active.dataLen := rfl
  unfold onDisk
  rcases eq_nil_or_concat l.rotated with hnil | ⟨init, x, hlast⟩
  · have hdata := hcursor hnil
    rw [hnil]
    show _ ≤ min (0 + l.active.dataLen) u64Max
    omega
  · have hstart : l.active.start = x.2.stop size := by
      refine Chained.last_start size hch ?_
      rw [hlast, concat_eq_append, map_append]
      exact getLast?_concat
    rw [hlast, concat_eq_append, getLast?_concat]
    show _ ≤ saturatingAdd (min (x.2.stop size) u64Max) l.active.dataLen
    rw [saturatingAdd_min]
    omega

end

/-- The log with a shorter active file. -/
def Log.cut (l : Log codec) (pre : List (Entry codec)) : Log codec :=
  { l with active := ⟨l.active.start, pre⟩ }

theorem Log.chained_cut {base : Nat} (h : Chained size base l.files)
    (pre : List (Entry codec)) : Chained size base (l.cut pre).files := by
  obtain ⟨hrot, hstart, -⟩ := (Frames.chained_append size).mp h
  exact (Frames.chained_append size).mpr ⟨hrot, hstart, trivial⟩

/-- Opening what is left of a consistent log when its active file is cut off after the entries
`pre`, within the next one. -/
theorem Consistent.open_cut {base : Nat} {pre post : List (Entry codec)} {tail : Bytes}
    (h : Consistent codec options w disk l) (hch : Chained size base l.files)
    (hf : l.active.frames = pre ++ post) (htail : Torn codec tail)
    (hbase : ∀ x ∈ l.rotated.head?, x.2.start = 0) (hread : ∀ e ∈ pre, Readable codec e.bundle) :
    ∃ w' disk', WalWriter.open codec options { disk with
        active := some (bytes options.segmentCfgHash (l.cut pre).active ++ tail) } =
          .ok (w', disk') ∧
      Represents w' disk' (l.cut pre) ∧ w'.coordinator.options = options ∧
      disk'.rotated = disk.rotated ∧ disk'.sidecar = disk.sidecar ∧
      w'.coordinator.cursorPosition =
        min w.coordinator.cursorPosition (onDisk (l.cut pre)) ∧
      w'.coordinator.nextRotationId = reloadNextRotationId disk.rotated.entries ∧
      ((l.cut pre).Whole → w'.nextSequence = (l.cut pre).nextSequence) := by
  have hdata : (l.cut pre).active.dataLen ≤ l.active.dataLen := by
    show total size pre ≤ total size l.active.frames
    rw [hf, total_append]
    omega
  have hrange : (l.cut pre).active.stop size ≤ u64Max := by
    have hle : (l.cut pre).active.stop size ≤ l.active.stop size :=
      Nat.add_le_add_left hdata _
    exact hle.trans h.inRange
  have hstored : Stored options
      { disk with active := some (bytes options.segmentCfgHash (l.cut pre).active) }
      (l.cut pre) :=
    { rotatedDisk := h.options_eq ▸ h.rotatedDisk
      activeDisk := by simpa using openActive_bytes (l.cut pre).active []
      target := hdata.trans (h.options_eq ▸ h.target)
      small := h.small
      ids := h.ids_lt }
  have hzero : (l.cut pre).rotated = [] ∨ base = 0 := by
    obtain ⟨rot, act⟩ := l
    cases rot with
    | nil => exact .inl rfl
    | cons x rot => exact .inr (hch.1.symm.trans (hbase x rfl))
  exact open_represents htail hstored (openActive_bytes _ tail) h.valid h.sidecar
    (Log.chained_cut hch pre) hzero hrange hread

/-- **A reopening keeps a consistent log**, under the conditions of `open_represents` and if
the cursor is not beyond what the reopening takes to be on disk. -/
theorem Consistent.reopen (h : Consistent codec options w disk l)
    (hbase : ∀ x ∈ l.rotated.head?, x.2.start = 0)
    (hcursor : l.rotated = [] → w.coordinator.cursorPosition ≤ l.active.dataLen)
    (hread : ∀ e ∈ l.active.frames, Readable codec e.bundle) :
    ∃ w' disk', WalWriter.open codec options disk = .ok (w', disk') ∧
      Consistent codec options w' disk' l ∧ disk'.rotated = disk.rotated ∧
      disk'.sidecar = disk.sidecar ∧
      w'.coordinator.cursorPosition = w.coordinator.cursorPosition := by
  obtain ⟨base, hch⟩ := h.chained
  obtain ⟨w', disk', hopen, hrep, hopt, hrot, hside, hpos, hnext, -⟩ :=
    h.open_cut hch (append_nil _).symm (.inl rfl) hbase hread
  have hdisk : { disk with
      active := some (bytes options.segmentCfgHash l.active ++ []) } = disk := by
    rw [append_nil, ← h.options_eq, ← h.activeDisk]
  have hkeep : w'.coordinator.cursorPosition = w.coordinator.cursorPosition := by
    rw [hpos, min_eq_left]
    exact h.cursor_le_onDisk hcursor
  refine ⟨w', disk', hdisk ▸ hopen, ⟨hrep, hopt, h.valid, ⟨base, hch⟩, h.inRange, ?_, ?_, ?_⟩, hrot,
    hside, hkeep⟩
  · rw [hnext]
    exact h.reloadIds_le
  · rw [hside, hkeep]
    exact h.sidecar
  · rw [hkeep]
    exact h.cursor

end

/-! ## What is stable -/

/-- The writer's positions are those in the headers of the files. -/
def HeadersAgree (s : Session) : Prop :=
  ∀ w ∈ s.writer,
    (∃ file, s.disk.active = some file ∧
      headerStart file = some w.coordinator.activeWalPositionStart) ∧
    ∀ f ∈ w.coordinator.rotatedFiles, ∃ file, s.disk.rotated.get? f.rotationId = some file ∧
      headerEnd file = some f.walPositionEnd

/-- The offsets reported by the appends of a history that were accepted. -/
def offsets (past : List (Op β × Ret)) : List WalOffset :=
  past.filterMap fun x =>
    match x.2 with
    | .appended (.ok offset) => some offset
    | _ => none

/-- Each offset starts where the one before it ends. -/
def Contiguous (offsets : List WalOffset) : Prop :=
  offsets.IsChain fun a b => b.position = a.nextOffset

/-- The persisted cursor does not move back, and a rotated file goes away only if the cursor
has passed its end. -/
def Advances (codec : Codec β) (disk disk' : Disk) : Prop :=
  persistedCursor codec disk ≤ persistedCursor codec disk' ∧
    ∀ id file, disk.rotated.get? id = some file → disk'.rotated.get? id = some file ∨
      ∃ stop, headerEnd file = some stop ∧ stop ≤ persistedCursor codec disk'

/-- The calls that keep positions stable.  An append stays in the range of positions.  At a
reopening the oldest rotated file starts at zero; without rotated files the cursor lies within
the length of the active file; and the active file has no entry that the reader rejects. -/
def Allowed (codec : Codec β) (s : Session) : Op β → Prop
  | .append bundle => ∀ w ∈ s.writer,
      w.coordinator.toWalPosition w.currentLen + frameLen codec bundle ≤ u64Max
  | .persist _ => True
  | .reopen =>
    (∀ x ∈ s.disk.rotated.entries.head?, headerStart x.2 = some 0) ∧
    (s.disk.rotated.entries = [] → ∀ file ∈ s.disk.active,
      headerV1Len + persistedCursor codec s.disk ≤ file.length) ∧
    ∀ file ∈ s.disk.active, Intact codec file

section

variable {w w' : WalWriter} {disk disk' : Disk} {l l' : Log codec}

section

variable (h : Consistent codec options w disk l)

include h

theorem Consistent.persistedCursor_eq :
    persistedCursor codec disk = w.coordinator.cursorPosition := by
  rw [persistedCursor, h.sidecar]
  rfl

/-- Rotated files end before the active one starts. -/
theorem Consistent.rotated_stop_le {x : Nat × LogFile codec} (hx : x ∈ l.rotated) :
    x.2.stop size ≤ l.active.start := by
  obtain ⟨base, hch⟩ := h.chained
  have hpair := (hch.start_le size).2
  exact (pairwise_append.mp hpair).2.2 x.2 (mem_map_of_mem hx) l.active
    (mem_singleton_self _)

theorem Consistent.headerEnd_rotated {x : Nat × LogFile codec} (hx : x ∈ l.rotated)
    (hash : CfgHash) : headerEnd (bytes hash x.2) = some (min (x.2.stop size) u64Max) := by
  have hstop := h.rotated_stop_le hx
  have hrange := h.inRange
  have hactive : l.active.start ≤ l.active.stop size := Nat.le_add_right ..
  have hsum : x.2.stop size = x.2.start + x.2.dataLen := rfl
  rw [headerEnd_bytes]
  congr 1
  omega

theorem Consistent.headersAgree : HeadersAgree ⟨some w, disk⟩ := by
  rintro _ ⟨⟩
  refine ⟨⟨_, h.activeDisk, ?_⟩, ?_⟩
  · rw [headerStart_bytes, h.start]
  · intro f hf
    rw [h.rotatedFiles] at hf
    obtain ⟨x, hx, rfl⟩ := mem_map.mp hf
    refine ⟨bytes w.coordinator.options.segmentCfgHash x.2, ?_, h.headerEnd_rotated hx _⟩
    rw [OrdMap.get?_eq_some, h.rotatedDisk]
    exact mem_map_of_mem hx

theorem Consistent.oldest_start
    (holdest : ∀ x ∈ disk.rotated.entries.head?, headerStart x.2 = some 0) :
    ∀ x ∈ l.rotated.head?, x.2.start = 0 := by
  intro x hx
  have hhead := holdest (x.1, bytes w.coordinator.options.segmentCfgHash x.2) (by
    rw [h.rotatedDisk, head?_map]
    exact Option.mem_map_of_mem _ hx)
  rw [headerStart_bytes] at hhead
  have hzero := Option.some.inj hhead
  have hpos : 0 < u64Max := by decide
  omega

/-- From one consistent log to another, when only files behind the cursor go. -/
theorem Consistent.advances (h' : Consistent codec options w' disk' l')
    (hcursor : w.coordinator.cursorPosition ≤ w'.coordinator.cursorPosition)
    (hkeep : ∀ x ∈ l.rotated, x ∈ l'.rotated ∨
      min (x.2.stop size) u64Max ≤ w'.coordinator.cursorPosition) : Advances codec disk disk' := by
  refine ⟨by rw [h.persistedCursor_eq, h'.persistedCursor_eq]; exact hcursor, ?_⟩
  intro id file hget
  rw [OrdMap.get?_eq_some, h.rotatedDisk] at hget
  obtain ⟨x, hx, heq⟩ := mem_map.mp hget
  cases heq
  rcases hkeep x hx with hmem | hbehind
  · refine .inl ?_
    rw [OrdMap.get?_eq_some, h'.rotatedDisk, h'.options_eq, h.options_eq]
    exact mem_map_of_mem hmem
  · refine .inr ⟨_, h.headerEnd_rotated hx _, ?_⟩
    rwa [h'.persistedCursor_eq]

end

end

theorem Advances.refl (disk : Disk) : Advances codec disk disk :=
  ⟨le_refl _, fun _ _ hget => .inl hget⟩

/-! ## Sessions -/

/-- The log has not been opened, or it is consistent and ends where the last append ended. -/
def Tracked (codec : Codec β) (options : WalWriterOptions) (s : Session)
    (past : List (Op β × Ret)) : Prop :=
  (s = fresh ∧ offsets past = []) ∨
    ∃ (w : WalWriter) (l : Log codec), s.writer = some w ∧
      Consistent codec options w s.disk l ∧ Contiguous (offsets past) ∧
      ∀ offset ∈ (offsets past).getLast?, offset.nextOffset = l.active.stop size

theorem offsets_append (past : List (Op β × Ret)) (op : Op β) (ret : Ret)
    (h : ∀ offset, ret ≠ .appended (.ok offset)) : offsets (past ++ [(op, ret)]) =
    offsets past := by
  cases ret with
  | appended result =>
    cases result with
    | error e => simp [offsets]
    | ok offset => exact absurd rfl (h offset)
  | persisted | opened | closed => simp [offsets]

theorem offsets_append_ok (past : List (Op β × Ret)) (op : Op β) (offset : WalOffset) :
    offsets (past ++ [(op, .appended (.ok offset))]) = offsets past ++ [offset] := by
  simp [offsets]

/-- A fresh log is consistent. -/
theorem consistent_empty {w : WalWriter} {disk : Disk}
    (h : WalWriter.open codec options Disk.empty = .ok (w, disk)) :
    Consistent codec options w disk (Log.empty : Log codec) := by
  obtain ⟨hrep, hopt, hside, hpos, hnext, -⟩ := open_empty h
  have hstored : Stored options Disk.empty (Log.empty : Log codec) := stored_empty options
  refine ⟨hrep, hopt, validate_of_open hstored h, ⟨0, rfl, trivial⟩, Nat.zero_le _, ?_, ?_, ?_⟩
  · rw [hnext]
    exact Nat.le_add_left ..
  · rw [hside, hpos]
    rfl
  · rw [hpos]
    exact Nat.zero_le _

section

variable {w : WalWriter} {l : Log codec} {s : Session} {past : List (Op β × Ret)}

/-- A call keeps the log tracked and moves the cursor and the files forward. -/
def Keeps (codec : Codec β) (options : WalWriterOptions) (s : Session) (past : List (Op β × Ret))
    (op : Op β) : Prop :=
  Tracked codec options (step codec options s op).1
      (past ++ [(op, (step codec options s op).2)]) ∧
    Advances codec s.disk (step codec options s op).1.disk

theorem tracked_fresh {op : Op β} (hpast : offsets past = []) :
    Keeps codec options fresh past op := by
  unfold Keeps
  cases op with
  | append | persist =>
    exact ⟨.inl ⟨rfl, by rw [offsets_append _ _ _ (by rintro _ ⟨⟩)]; exact hpast⟩, .refl _⟩
  | reopen =>
    cases hopen : WalWriter.open codec options Disk.empty with
    | error e =>
      have hstep : step codec options fresh .reopen =
          (⟨none, Disk.empty⟩, .opened (.error e)) := by
        simp [step, fresh, hopen]
      rw [hstep]
      exact ⟨.inl ⟨rfl, by rw [offsets_append _ _ _ (by rintro _ ⟨⟩)]; exact hpast⟩, .refl _⟩
    | ok r =>
      obtain ⟨w, disk⟩ := r
      have hstep : step codec options fresh .reopen =
          (⟨some w, disk⟩, .opened (.ok ())) := by
        simp [step, fresh, hopen]
      rw [hstep]
      refine ⟨.inr ⟨w, Log.empty, rfl, consistent_empty hopen, ?_⟩, ?_⟩
      · rw [offsets_append _ _ _ (by rintro _ ⟨⟩), hpast]
        exact ⟨.nil, by simp⟩
      · exact ⟨Nat.zero_le _, fun id file hget => by cases hget⟩

/-- The next append starts at the end of the log, which is where the last one ended. -/
theorem Contiguous.append {previous : List WalOffset} {offset : WalOffset} {stop : Nat}
    (h : Contiguous previous) (hlast : ∀ o ∈ previous.getLast?, o.nextOffset = stop)
    (hoffset : offset.position = stop) : Contiguous (previous ++ [offset]) := by
  refine isChain_append.mpr ⟨h, .singleton _, ?_⟩
  rintro o ho _ ⟨⟩
  rw [hlast o ho, hoffset]

section

variable (h : Consistent codec options w s.disk l) (hcontiguous : Contiguous (offsets past))
  (hlast : ∀ offset ∈ (offsets past).getLast?, offset.nextOffset = l.active.stop size)

include h hcontiguous hlast

theorem tracked_append {bundle : RecordBundle β} (hw : s.writer = some w)
    (hallowed : Allowed codec s (.append bundle)) :
    Keeps codec options s past (.append bundle) := by
  unfold Keeps
  have hstep : step codec options s (.append bundle) =
      (⟨some (w.appendBundle codec s.disk bundle).1.1, (w.appendBundle codec s.disk bundle).1.2⟩,
        .appended (w.appendBundle codec s.disk bundle).2) := by
    simp [step, hw]
  rw [hstep]
  rcases appendBundle_cases codec w s.disk bundle with ⟨e, happ⟩ | ⟨body, hbody, happ⟩
  · rw [happ]
    refine ⟨.inr ⟨w, l, rfl, h, ?_⟩, .refl _⟩
    rw [offsets_append _ _ _ (by rintro _ ⟨⟩)]
    exact ⟨hcontiguous, hlast⟩
  · rw [happ]
    have hoffset := h.toCounts.offsetAt_eq hbody
    have hsize : (entryOf hbody).size = frameLen codec bundle := by
      rw [size, (entryOf hbody).length_body]
      rfl
    have hroom : l.active.stop size + (entryOf hbody).size ≤ u64Max := by
      have hpos : w.coordinator.toWalPosition w.currentLen =
          min (l.active.stop size) u64Max := congrArg WalOffset.position hoffset
      have hallow := hallowed w hw
      rw [hpos, min_eq_left h.inRange] at hallow
      rwa [hsize]
    rw [min_eq_left h.inRange, min_eq_left hroom] at hoffset
    obtain ⟨hnew, hcursor⟩ := h.append hbody hroom
    refine ⟨.inr ⟨_, _, rfl, hnew, ?_⟩, h.advances hnew hcursor.ge fun x hx => .inl ?_⟩
    · rw [offsets_append_ok, hoffset]
      refine ⟨hcontiguous.append hlast rfl, ?_⟩
      rw [getLast?_concat]
      rintro _ ⟨⟩
      exact (l.stop_append _ _ _).symm
    · unfold Log.append
      split
      · exact hx
      · exact mem_append_left _ hx

theorem tracked_persist {cursor : WalConsumerCursor} (hw : s.writer = some w) :
    Keeps codec options s past (.persist cursor) := by
  have hstep : step codec options s (.persist cursor) =
      (⟨some (w.persistCursor codec s.disk cursor).1.1, (w.persistCursor codec s.disk cursor).1.2⟩,
        .persisted (w.persistCursor codec s.disk cursor).2) := by
    simp [step, hw]
  rw [Keeps, hstep, Tracked, offsets_append _ _ _ (by rintro _ ⟨⟩)]
  cases hvalid : w.coordinator.validateCursor w.currentLen cursor with
  | error e =>
    simp only [WalWriter.persistCursor, hvalid]
    exact ⟨.inr ⟨w, l, rfl, h, hcontiguous, hlast⟩, .refl _⟩
  | ok u =>
    obtain ⟨c, disk', hpersist, hnew, hpos, hle⟩ := h.persist hvalid
    rw [hpersist]
    refine ⟨.inr ⟨_, _, rfl, hnew, hcontiguous, hlast⟩, h.advances hnew ?_ fun x hx => ?_⟩
    · rwa [hpos]
    · rw [hpos]
      exact Log.mem_purge hx cursor.safeOffset

theorem tracked_reopen (hallowed : Allowed codec s .reopen) :
    Keeps codec options s past .reopen := by
  obtain ⟨holdest, hcut, hintact⟩ := hallowed
  have hbase := h.oldest_start holdest
  have hcursor : l.rotated = [] → w.coordinator.cursorPosition ≤ l.active.dataLen := by
    intro hnil
    have hle := hcut (by rw [h.rotatedDisk, hnil]; rfl) _ h.activeDisk
    rw [length_bytes, h.persistedCursor_eq] at hle
    omega
  have hsmall : LogFile.Small l.active :=
    (onDisk_of_represents (s := (w, s.disk)) h.toRepresents (none, l.active) (by simp [located])).2
  have hread : ∀ e ∈ l.active.frames, Readable codec e.bundle :=
    readable_of_intact hsmall (hintact _ h.activeDisk)
  obtain ⟨w', disk', hopen, hnew, hrot, hside, hpos⟩ := h.reopen hbase hcursor hread
  have hstep : step codec options s .reopen = (⟨some w', disk'⟩, .opened (.ok ())) := by
    simp [step, hopen]
  rw [Keeps, hstep]
  refine ⟨.inr ⟨w', l, rfl, hnew, ?_⟩, h.advances hnew hpos.ge fun x hx => .inl hx⟩
  rw [offsets_append _ _ _ (by rintro _ ⟨⟩)]
  exact ⟨hcontiguous, hlast⟩

end

theorem tracked_step {op : Op β} (h : Tracked codec options s past)
    (hallowed : Allowed codec s op) : Keeps codec options s past op := by
  rcases h with ⟨rfl, hpast⟩ | ⟨w, l, hw, h, hcontiguous, hlast⟩
  · exact tracked_fresh hpast
  · cases op with
    | append bundle => exact tracked_append h hcontiguous hlast hw hallowed
    | persist cursor => exact tracked_persist h hcontiguous hlast hw
    | reopen => exact tracked_reopen h hcontiguous hlast hallowed

end

/-- **Positions are stable across restarts.**  After every run of allowed calls on a fresh log
the writer's positions are those in the file headers and the accepted appends are contiguous;
and an allowed call moves the persisted cursor forward and removes only files behind it. -/
theorem wal_positions_stable {ops : List (Op β)}
    (h : Machine.Meets (step codec options) (Allowed codec) fresh ops) :
    let s := final (step codec options) fresh ops
    HeadersAgree s ∧
      Contiguous (offsets (history (step codec options) fresh ops)) ∧
      ∀ op, Allowed codec s op →
        Advances codec s.disk (step codec options s op).1.disk := by
  intro s
  have hrun : Tracked codec options s
      ([] ++ history (step codec options) fresh ops) :=
    history_invariant_of_meets (Tracked codec options)
      (fun s op past hs hok => (tracked_step hs hok).1) (.inl ⟨rfl, rfl⟩) h
  rw [nil_append] at hrun
  refine ⟨?_, ?_, fun op hop => (tracked_step hrun hop).2⟩
  · rcases hrun with ⟨hs, -⟩ | ⟨w, l, hw, hl, -⟩
    · rw [hs]
      rintro w ⟨⟩
    · have hs : s = ⟨some w, s.disk⟩ := by rw [← hw]
      rw [hs]
      exact hl.headersAgree
  · rcases hrun with ⟨-, hnil⟩ | ⟨w, l, -, -, hcontiguous, -⟩
    · rw [hnil]
      exact .nil
    · exact hcontiguous

/-! ## A restart after a purge -/

/-- Every entry fills a file of its own. -/
def tinyOptions : WalWriterOptions := defaultOptions.withRotationTarget 1

/-- Two entries of 75 bytes, each rotated at once. -/
def rotatedOps : List (Op Nat) := [.reopen, .append (sizedBundle 0), .append (sizedBundle 0)]

/-- A file with only its header is intact. -/
theorem intact_header : Intact sizeCodec
    (WalHeader.withBaseOffset tinyOptions.segmentCfgHash 150).encode :=
  ⟨_, [], rfl, .done rfl⟩

/-- A restart before the purge is allowed. -/
theorem wal_positions_stable_restarted : let ops := rotatedOps ++ [.reopen, .persist ⟨75, 0⟩]
    Machine.Meets (step sizeCodec tinyOptions) (Allowed sizeCodec) fresh ops ∧
      HeadersAgree (final (step sizeCodec tinyOptions) fresh ops) := by
  intro ops
  have hmeets : Machine.Meets (step sizeCodec tinyOptions) (Allowed sizeCodec)
      fresh ops := by
    refine ⟨⟨?_, ?_, ?_⟩, ?_, ?_, ⟨?_, ?_, ?_⟩, trivial, trivial⟩
    · rintro _ ⟨⟩
    · rintro _ _ ⟨⟩
    · rintro _ ⟨⟩
    · show ∀ w ∈ _, _
      decide +kernel
    · show ∀ w ∈ _, _
      decide +kernel
    · decide +kernel
    · decide +kernel
    · have hactive : (final (step sizeCodec tinyOptions) fresh
          rotatedOps).disk.active =
            some (WalHeader.withBaseOffset tinyOptions.segmentCfgHash 150).encode := by
        decide +kernel
      intro file hfile
      obtain rfl := Option.some.inj (hactive.symm.trans hfile)
      exact intact_header
  exact ⟨hmeets, (wal_positions_stable hmeets).1⟩

/-- **A restart after a purge moves the positions.**  The rotated file that is left starts at
75, but the reopening counts it from zero: the writer takes the active file to start at 75,
where its header says 150. -/
theorem restart_after_purge_disagrees :
    ¬ HeadersAgree (final (step sizeCodec tinyOptions) fresh
      (rotatedOps ++ [.persist ⟨75, 0⟩, .reopen])) := by
  intro h
  have hwriter : (final (step sizeCodec tinyOptions) fresh
      (rotatedOps ++ [.persist ⟨75, 0⟩, .reopen])).writer.map
        (fun w => w.coordinator.activeWalPositionStart) = some 75 := by decide +kernel
  have hheader : (final (step sizeCodec tinyOptions) fresh
      (rotatedOps ++ [.persist ⟨75, 0⟩, .reopen])).disk.active.bind headerStart = some 150 := by
    decide +kernel
  obtain ⟨w, hw, hstart⟩ := Option.map_eq_some_iff.mp hwriter
  obtain ⟨⟨file, hfile, hfileStart⟩, -⟩ := h w hw
  rw [hfile, Option.bind_some, hfileStart, hstart] at hheader
  cases hheader

end OtapDataflow.Wal
