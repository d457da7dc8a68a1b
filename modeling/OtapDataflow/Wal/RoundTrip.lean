import OtapDataflow.Wal.Iteration
import OtapDataflow.Lib.Machine

/-! # The writer refines an unbounded log

`Log` is what the writer is for: entries laid end to end, cut into files.  `Represents` says
that a writer and its disk hold such a log, and appending a bundle appends an entry to it
(`Represents.append`).  Only the part about positions (`Counts`) survives a log that outgrows
the range of positions. -/

namespace OtapDataflow.Wal

open Bytes Word Frames List LogFile WalWriter Entry

variable {β : Type} {codec : Codec β}

/-- The files of a log: rotated ones with their ids, oldest first, and the active one. -/
structure Log (codec : Codec β) where
  rotated : List (Nat × LogFile codec)
  active : LogFile codec

namespace Log

def files (l : Log codec) : List (LogFile codec) := l.rotated.map Prod.snd ++ [l.active]

/-- All entries of the log, oldest first. -/
def entries (l : Log codec) : List (Entry codec) := l.files.flatMap Run.frames

/-- An entry goes to the active file, which is rotated away when it exceeds the target. -/
def append (target id : Nat) (l : Log codec) (e : Entry codec) : Log codec :=
  if (push l.active e).dataLen ≤ target then { l with active := push l.active e }
  else
    ⟨l.rotated ++ [(id, push l.active e)], ⟨(push l.active e).stop size, []⟩⟩

variable {l : Log codec} {e : Entry codec} {target id : Nat}

theorem entries_append : (l.append target id e).entries = l.entries ++ [e] := by
  unfold append
  split <;> simp [entries, files, push]

/-- The chain of files is kept. -/
theorem chained_append {s : Nat} (h : Chained size s l.files) :
    Chained size s (l.append target id e).files := by
  obtain ⟨hrot, hstart, -⟩ := (Frames.chained_append size).mp h
  unfold append
  split
  · exact (Frames.chained_append size).mpr ⟨hrot, hstart, trivial⟩
  · simp only [files, map_append, map_cons, map_nil, append_assoc, cons_append, nil_append]
    exact (Frames.chained_append size).mpr ⟨hrot, hstart, rfl, trivial⟩

/-- The active file ends where the whole log ends. -/
theorem active_stop {s : Nat} (h : Chained size s l.files) :
    l.active.stop size = s + total size l.entries := by
  obtain ⟨-, hact⟩ := (Frames.chained_append size).mp h
  simp only [Run.stop, hact.1, endOf, entries, files, flatMap_append, flatMap_cons,
    flatMap_nil, append_nil, total_append]
  omega

end Log

/-! ## The writer's counters -/

/-- The writer knows where its active file starts and how long it is. -/
structure Counts (w : WalWriter) (active : LogFile codec) : Prop where
  start : w.coordinator.activeWalPositionStart = min active.start u64Max
  header : w.coordinator.activeHeaderSize = headerV1Len
  len : w.currentLen = headerV1Len + active.dataLen
  target : active.dataLen ≤ w.coordinator.options.rotationTargetBytes

/-- The writer and its disk hold the log. -/
structure Represents (w : WalWriter) (disk : Disk) (l : Log codec) : Prop
    extends Counts w l.active where
  rotatedDisk : disk.rotated.entries =
    l.rotated.map fun x => (x.1, bytes w.coordinator.options.segmentCfgHash x.2)
  activeDisk : disk.active =
    some (bytes w.coordinator.options.segmentCfgHash l.active)
  rotatedFiles : w.coordinator.rotatedFiles =
    l.rotated.map fun x => ⟨x.1, headerV1Len + x.2.dataLen, min (x.2.stop size) u64Max⟩
  walPositionStart : w.coordinator.walPositionStart = min l.active.start u64Max
  ids : ∀ x ∈ l.rotated, x.1 < w.coordinator.nextRotationId
  small : ∀ x ∈ l.rotated, LogFile.Small x.2

/-- An active file with one more entry is still far below the range of a file offset. -/
theorem Counts.room {w : WalWriter} {active : LogFile codec} (h : Counts w active)
    (e : Entry codec) : headerV1Len + active.dataLen + e.size < 2 ^ 64 := by
  have htarget := h.target
  have hmax := w.coordinator.options.rotationTarget_le
  have hsize := e.size_le
  unfold maxRotationTargetBytes at hmax
  unfold u32Max at hsize
  unfold headerV1Len
  omega

section

variable {w : WalWriter} {disk : Disk} {bundle : RecordBundle β}

/-- After a rotation the active file starts where the rotated one ends. -/
theorem rotate_start : (w.rotate codec disk).1.coordinator.activeWalPositionStart =
    saturatingAdd w.coordinator.activeWalPositionStart
      (w.currentLen - w.coordinator.activeHeaderSize) := by
  simp [WalWriter.rotate, WalCoordinator.activeWalPositionStart]

/-- The offset reported for a body appended to a writer. -/
def offsetAt (w : WalWriter) (body : Bytes) : WalOffset :=
  ⟨w.coordinator.toWalPosition w.currentLen,
    w.coordinator.toWalPosition (saturatingAdd w.currentLen (4 + body.length + 4)), w.nextSequence⟩

/-- The writer and the disk after the frame of a body has been written and the active file, if
it has become too long, rotated. -/
def appended (codec : Codec β) (w : WalWriter) (disk : Disk) (body : Bytes) : WalWriter × Disk :=
  if (w.written codec disk body).1.currentLen - w.coordinator.activeHeaderSize ≤
      w.coordinator.options.rotationTargetBytes then w.written codec disk body
  else (w.written codec disk body).1.rotate codec (w.written codec disk body).2

/-- A body that passes the preflight check is written; a rotation that is due never fails,
because the preflight has counted the files. -/
theorem appendBundle_of_ok {body : Bytes}
    (hbody : encodeBody codec bundle w.nextSequence = .ok body)
    (hpre : w.coordinator.preflightAppend w.currentLen (4 + body.length + 4) = .ok ()) :
    w.appendBundle codec disk bundle = (appended codec w disk body, .ok (offsetAt w body)) := by
  have hcap : ¬ (w.coordinator.options.rotationTargetBytes <
      saturatingAdd w.currentLen (4 + body.length + 4) - w.coordinator.activeHeaderSize ∧
      w.coordinator.options.maxRotatedFiles ≤ w.coordinator.rotatedFiles.length) := by
    intro hboth
    simp only [WalCoordinator.preflightAppend, if_pos hboth] at hpre
    cases hpre
  simp only [appendBundle, hbody, hpre]
  unfold maybeRotateAfterAppend appended
  by_cases hfit : (w.written codec disk body).1.currentLen -
      w.coordinator.activeHeaderSize ≤ w.coordinator.options.rotationTargetBytes
  · have hlen : (w.written codec disk body).1.currentLen -
        (w.written codec disk body).1.coordinator.activeHeaderSize ≤
          (w.written codec disk body).1.coordinator.options.rotationTargetBytes := hfit
    rw [if_pos hlen, if_pos hfit]
    rfl
  · have hlen : ¬ (w.written codec disk body).1.currentLen -
        (w.written codec disk body).1.coordinator.activeHeaderSize ≤
          (w.written codec disk body).1.coordinator.options.rotationTargetBytes := hfit
    have hfiles : ¬ (w.written codec disk body).1.coordinator.options.maxRotatedFiles ≤
        (w.written codec disk body).1.coordinator.rotatedFiles.length := fun hfull =>
      hcap ⟨not_le.mp hfit, hfull⟩
    have hsome : ¬ (w.written codec disk body).1.currentLen ≤
        (w.written codec disk body).1.coordinator.activeHeaderSize := by
      omega
    rw [if_neg hlen, if_neg hfit, rotateActiveFile, if_neg hfiles, if_neg hsome]
    rfl

/-- **What an append can do.**  It fails and changes nothing, or it writes the frame and
rotates when it has to. -/
theorem appendBundle_cases (codec : Codec β) (w : WalWriter) (disk : Disk)
    (bundle : RecordBundle β) :
    (∃ e, w.appendBundle codec disk bundle = ((w, disk), .error e)) ∨
      ∃ body, encodeBody codec bundle w.nextSequence = .ok body ∧
        w.appendBundle codec disk bundle =
          (appended codec w disk body, .ok (offsetAt w body)) := by
  cases hbody : encodeBody codec bundle w.nextSequence with
  | error e =>
    refine .inl ⟨e, ?_⟩
    simp [appendBundle, hbody]
  | ok body =>
    cases hpre : w.coordinator.preflightAppend w.currentLen (4 + body.length + 4) with
    | error e =>
      refine .inl ⟨e, ?_⟩
      simp [appendBundle, hbody, hpre]
    | ok u => exact .inr ⟨body, rfl, appendBundle_of_ok hbody hpre⟩

/-- The entry that an append adds. -/
def entryOf {w : WalWriter} {body : Bytes}
    (h : encodeBody codec bundle w.nextSequence = .ok body) : Entry codec :=
  ⟨bundle, w.nextSequence, body, h⟩

variable {body : Bytes} {l : Log codec}

section

variable (h : Counts w l.active)

include h

section

variable (hbody : encodeBody codec bundle w.nextSequence = .ok body)

include hbody

theorem Counts.written_len :
    saturatingAdd w.currentLen (4 + body.length + 4) =
      headerV1Len + (push l.active (entryOf hbody)).dataLen := by
  have hroom := h.room (entryOf hbody)
  have hsize : (entryOf hbody).size = 4 + body.length + 4 := rfl
  rw [dataLen_push, h.len, saturatingAdd_eq (by omega)]
  omega

/-- The reported positions are those of the log. -/
theorem Counts.offsetAt_eq :
    offsetAt w body =
      ⟨min (l.active.stop size) u64Max,
        min (l.active.stop size + (entryOf hbody).size) u64Max, w.nextSequence⟩ := by
  have hstop := stop_push l.active (entryOf hbody)
  unfold offsetAt WalCoordinator.toWalPosition
  rw [h.start, h.header, h.written_len hbody, h.len, saturatingAdd_min, saturatingAdd_min,
    Nat.add_sub_cancel_left, Nat.add_sub_cancel_left, ← hstop]
  rfl

/-- An append rotates exactly when the log does. -/
theorem Counts.appended_eq :
    appended codec w disk body =
      if (push l.active (entryOf hbody)).dataLen ≤
          w.coordinator.options.rotationTargetBytes then w.written codec disk body
      else (w.written codec disk body).1.rotate codec (w.written codec disk body).2 := by
  have hlen : (w.written codec disk body).1.currentLen =
      headerV1Len + (push l.active (entryOf hbody)).dataLen := h.written_len hbody
  unfold appended
  rw [hlen, h.header, Nat.add_sub_cancel_left]

/-- Where a rotated file ends. -/
theorem Counts.rotate_end (disk : Disk) :
    saturatingAdd (w.written codec disk body).1.coordinator.activeWalPositionStart
        ((w.written codec disk body).1.currentLen -
          (w.written codec disk body).1.coordinator.activeHeaderSize) =
      min ((push l.active (entryOf hbody)).stop size) u64Max := by
  show saturatingAdd w.coordinator.activeWalPositionStart
    (saturatingAdd w.currentLen (4 + body.length + 4) - w.coordinator.activeHeaderSize) = _
  rw [h.written_len hbody, h.start, h.header, saturatingAdd_min, Nat.add_sub_cancel_left]
  rfl

/-- The counters follow an append. -/
theorem Counts.append (disk : Disk) (id : Nat) :
    Counts (appended codec w disk body).1
      (l.append w.coordinator.options.rotationTargetBytes id (entryOf hbody)).active := by
  rw [h.appended_eq hbody]
  unfold Log.append
  split_ifs with hfit
  · exact ⟨h.start, h.header, h.written_len hbody, hfit⟩
  · refine ⟨?_, rfl, rfl, Nat.zero_le _⟩
    rw [rotate_start]
    exact h.rotate_end hbody disk

end

end

/-- **An append refines the log.**  A writer that represents a log represents, after an
append, the log with one more entry, as long as rotation ids do not run out. -/
theorem Represents.append (h : Represents w disk l)
    (hbody : encodeBody codec bundle w.nextSequence = .ok body)
    (hids : w.coordinator.nextRotationId < u64Max) :
    Represents (appended codec w disk body).1 (appended codec w disk body).2
      (l.append w.coordinator.options.rotationTargetBytes w.coordinator.nextRotationId
        (entryOf hbody)) := by
  have hcounts := h.toCounts.append hbody disk w.coordinator.nextRotationId
  have hactive : (w.written codec disk body).2.active =
      some (bytes w.coordinator.options.segmentCfgHash
        (push l.active (entryOf hbody))) := by
    show some (disk.active.getD [] ++ frame codec body) = _
    rw [h.activeDisk, bytes_push]
    rfl
  rw [h.toCounts.appended_eq hbody] at hcounts ⊢
  unfold Log.append at hcounts ⊢
  split
  · rename_i hfit
    rw [if_pos hfit, if_pos hfit] at hcounts
    exact { h with toCounts := hcounts, activeDisk := hactive }
  · rename_i hfull
    rw [if_neg hfull, if_neg hfull] at hcounts
    have hend := h.toCounts.rotate_end hbody disk
    have hroom := h.toCounts.room (entryOf hbody)
    refine ⟨hcounts, ?_, ?_, ?_, ?_, ?_, ?_⟩
    · have habove : ∀ e ∈ disk.rotated.entries, e.1 < w.coordinator.nextRotationId := by
        intro e he
        rw [h.rotatedDisk] at he
        obtain ⟨x, hx, rfl⟩ := mem_map.mp he
        exact h.ids x hx
      show (disk.rotated.insert w.coordinator.nextRotationId
        ((w.written codec disk body).2.active.getD [])).entries = _
      rw [hactive, OrdMap.insert_entries _ habove, h.rotatedDisk, map_append]
      rfl
    · show some (WalHeader.withBaseOffset _ (saturatingAdd _ _)).encode = _
      rw [hend]
      simp [bytes, data]
      rfl
    · show w.coordinator.rotatedFiles ++ [⟨_, _, saturatingAdd _ _⟩] = _
      rw [hend, h.rotatedFiles, map_append]
      have hlen : (w.written codec disk body).1.currentLen =
          headerV1Len + (push l.active (entryOf hbody)).dataLen :=
        h.toCounts.written_len hbody
      rw [hlen]
      rfl
    · exact hend
    · have hnext : saturatingAdd w.coordinator.nextRotationId 1 =
          w.coordinator.nextRotationId + 1 := saturatingAdd_eq (by unfold u64Max at hids; omega)
      intro x hx
      show x.1 < saturatingAdd w.coordinator.nextRotationId 1
      rw [hnext]
      rcases mem_append.mp hx with hx | hx
      · exact Nat.lt_succ_of_lt (h.ids x hx)
      · rw [mem_singleton.mp hx]
        exact Nat.lt_succ_self _
    · intro x hx
      rcases mem_append.mp hx with hx | hx
      · exact h.small x hx
      · rw [mem_singleton.mp hx]
        unfold LogFile.Small
        rw [dataLen_push]
        omega

end

/-! # Opening a log

The writer rebuilds its state from the files: positions of the rotated files from their
lengths, counting from zero, the end of the active file from a scan of its entries.  When the
oldest rotated file does start at zero, or there is none, the reopened writer represents the
log that is on disk (`open_represents`). -/

open WalReader WalHeader

/-! ## Scanning -/

variable {tail : Bytes} {s : Nat}

section

variable {hash : CfgHash} {f : LogFile codec}

/-- Where the entries of a file end, as file offsets. -/
def boundariesFrom (offset : Nat) (entries : List (Entry codec)) : List Nat :=
  (place size offset entries).map fun e => e.1 + e.2.size

/-- A scan that has reached a torn frame is done. -/
theorem scanEntries_torn (htail : Torn codec tail) {fuel : Nat} {acc : ScanResult} :
    scanEntries codec (fuel + 1) ((readerAt hash f f.frames).extend tail) acc = .ok acc := by
  have hnext := readNextEntry_torn hash f htail
  generalize hr : ((readerAt hash f f.frames).extend tail).readNextEntry codec = r at hnext
  obtain ⟨item, r'⟩ := r
  rcases hnext with rfl | ⟨e, rfl, hdamage⟩
  · simp [scanEntries, iterNext, hr]
  · cases e with
    | unexpectedEof | invalidEntry | crcMismatch => simp only [scanEntries, iterNext, hr]
    | _ => cases hdamage

/-- The scan of a readable file finds every entry and where the last one ends, also if a torn
frame follows it. -/
theorem scanEntries_readable (htail : Torn codec tail) (hsmall : LogFile.Small f)
    (hstop : f.stop size ≤ u64Max) {pre post : List (Entry codec)}
    (hf : f.frames = pre ++ post) (hread : ∀ e ∈ post, Readable codec e.bundle) {fuel : Nat}
    (hfuel : post.length < fuel) {acc : ScanResult}
    (hacc : acc.lastValidOffset = headerV1Len + total size pre) :
    scanEntries codec fuel ((readerAt hash f pre).extend tail) acc =
      .ok ⟨post.foldl (fun _ e => some e.sequence) acc.lastSequence, headerV1Len + f.dataLen,
        acc.entryBoundaries ++ boundariesFrom (headerV1Len + total size pre) post⟩ := by
  induction post generalizing pre fuel acc with
  | nil =>
    obtain ⟨fuel, rfl⟩ := Nat.exists_eq_succ_of_ne_zero (Nat.ne_of_gt hfuel)
    obtain rfl : f.frames = pre := by rw [hf, append_nil]
    rw [scanEntries_torn htail]
    simp only [boundariesFrom, place_nil, map_nil, append_nil, foldl_nil]
    rw [dataLen, ← hacc]
  | cons e post ih =>
    obtain ⟨fuel, rfl⟩ := Nat.exists_eq_succ_of_ne_zero (Nat.ne_of_gt (Nat.zero_lt_of_lt hfuel))
    have hf' : f.frames = (pre ++ [e]) ++ post := by rw [hf, append_assoc]; rfl
    have hsnoc : total size (pre ++ [e]) = total size pre + e.size := by
      rw [total_append, total_cons, total_nil, add_zero]
    have htotal : f.stop size =
        f.start + (total size pre + (e.size + total size post)) := by
      rw [Run.stop, hf, total_append, total_cons]
    -- within the range of positions the next offset converts back to a file offset
    have hoffset : (e.recordAt (f.start + total size pre)).nextOffset -
        ((readerAt hash f pre).extend tail).walPositionStart +
          ((readerAt hash f pre).extend tail).headerSize =
          headerV1Len + total size (pre ++ [e]) := by
      have hnext : (e.recordAt (f.start + total size pre)).nextOffset =
          min (f.start + total size (pre ++ [e])) u64Max := by
        rw [hsnoc, ← add_assoc]
        rfl
      have hrange : f.start + total size (pre ++ [e]) ≤ u64Max := by
        omega
      rw [hnext, add_comm]
      exact congrArg (headerV1Len + ·) (min_sub_min hrange)
    rw [scanEntries, iterNext,
      readNextEntry_extend (readNextEntry_readable hsmall hf (hread e mem_cons_self)) tail]
    simp only [hoffset]
    rw [ih hf' (fun e' he' => hread e' (mem_cons_of_mem _ he')) (by simpa using hfuel) rfl]
    simp only [boundariesFrom, place_cons, map_cons, foldl_cons, append_assoc,
      cons_append, nil_append, hsnoc, add_assoc]
    rfl

/-- Entries that are not readable end the scan without an error. -/
theorem scanEntries_total (hsmall : LogFile.Small f) {pre post : List (Entry codec)}
    (hf : f.frames = pre ++ post) (fuel : Nat) (acc : ScanResult) :
    ∃ r, scanEntries codec fuel (readerAt hash f pre) acc = .ok r := by
  induction fuel generalizing pre post acc with
  | zero => exact ⟨acc, rfl⟩
  | succ fuel ih =>
    cases post with
    | nil =>
      obtain rfl : f.frames = pre := by rw [hf, append_nil]
      refine ⟨acc, ?_⟩
      simp [scanEntries, iterNext, readNextEntry_end]
    | cons e post =>
      by_cases he : Readable codec e.bundle
      · have hf' : f.frames = (pre ++ [e]) ++ post := by rw [hf, append_assoc]; rfl
        rw [scanEntries, iterNext, readNextEntry_readable hsmall hf he]
        exact ih hf' _
      · obtain ⟨context, hread⟩ : ∃ context, (readerAt hash f pre).readNextEntry codec =
            (some (.error (.invalidEntry context)),
              { readerAt hash f pre with finished := true }) :=
          readNextEntry_unreadable hsmall hf he
        refine ⟨acc, ?_⟩
        rw [scanEntries, iterNext, hread]

theorem iterFrom_zero_extend (tail : Bytes) :
    ((readerAt hash f []).extend tail).iterFrom 0 = (readerAt hash f []).extend tail := by
  have hoff : ((readerAt hash f []).extend tail).offsetOf 0 = headerV1Len := by
    show max (saturatingAdd (0 - _) headerV1Len) headerV1Len = _
    rw [Nat.zero_sub]
    decide
  have hlen : ((readerAt hash f []).extend tail).file.length =
      headerV1Len + f.dataLen + tail.length := by
    simp [extend, readerAt]
  rw [iterFrom, hoff, hlen]
  rfl

theorem iterFrom_zero : (readerAt hash f []).iterFrom 0 = readerAt hash f [] := by
  have hextend : ((readerAt hash f []).extend []).iterFrom 0 = (readerAt hash f []).extend [] :=
    iterFrom_zero_extend []
  rwa [extend_nil] at hextend

theorem scanFile_readable (htail : Torn codec tail) (hsmall : LogFile.Small f)
    (hstop : f.stop size ≤ u64Max) (hread : ∀ e ∈ f.frames, Readable codec e.bundle) :
    scanFileForEntries codec (some (bytes hash f ++ tail)) =
      .ok ⟨f.frames.foldl (fun _ e => some e.sequence) none, headerV1Len + f.dataLen,
        boundariesFrom headerV1Len f.frames⟩ := by
  have hfuel : f.frames.length < (bytes hash f ++ tail).length + 1 := by
    have := length_le_total size size_pos f.frames
    rw [length_append, length_bytes, dataLen]
    omega
  simp only [scanFileForEntries, open_extend, iterFrom_zero_extend]
  exact scanEntries_readable htail hsmall hstop (nil_append _).symm hread hfuel rfl

theorem scanFile_total (hsmall : LogFile.Small f) :
    ∃ r, scanFileForEntries codec (some (bytes hash f)) = .ok r := by
  simp only [scanFileForEntries, open_bytes, iterFrom_zero]
  exact scanEntries_total hsmall (nil_append _).symm _ _

end

/-! ## Rotated files -/

section

variable {hash : CfgHash}

/-- What a reopening notes of a rotated file. -/
def reloaded (x : Nat × LogFile codec) : RotatedWalFile :=
  ⟨x.1, headerV1Len + x.2.dataLen, min (x.2.stop size) u64Max⟩

/-- Adding up the lengths gives the positions of a chain that starts where the sum starts. -/
theorem reloadFiles_eq {rot : List (Nat × LogFile codec)}
    (hch : Chained size s (rot.map Prod.snd)) :
    reloadFiles (min s u64Max) (rot.map fun x => (x.1, bytes hash x.2)) =
      .ok (rot.map reloaded) := by
  induction rot generalizing s with
  | nil => rfl
  | cons x rot ih =>
    obtain ⟨hs, hrest⟩ := hch
    have hsize : readHeaderSize (bytes hash x.2) = .ok headerV1Len :=
      readHeaderSize_encode _ _
    have hend : saturatingAdd (min s u64Max) ((bytes hash x.2).length - headerV1Len) =
        min (x.2.stop size) u64Max := by
      rw [saturatingAdd_min, length_bytes, Nat.add_sub_cancel_left, Run.stop, hs]
    rw [map_cons, reloadFiles, hsize]
    simp only [hend]
    rw [ih hrest]
    simp [length_bytes, reloaded]

theorem lt_reloadNextRotationId {rotated : List (Nat × Bytes)} {x : Nat × Bytes}
    (hx : x ∈ rotated) (hmax : ∀ y ∈ rotated, y.1 < u64Max) :
    x.1 < reloadNextRotationId rotated := by
  have hfold : ∀ (l : List (Nat × Bytes)) (acc : Nat),
      acc ≤ l.foldl (fun acc f => max acc f.1) acc ∧
        (∀ y ∈ l, y.1 ≤ l.foldl (fun acc f => max acc f.1) acc) ∧
        ((∀ y ∈ l, y.1 < u64Max) → acc < u64Max →
          l.foldl (fun acc f => max acc f.1) acc < u64Max) := by
    intro l
    induction l with
    | nil => simp
    | cons y l ih =>
      intro acc
      obtain ⟨h1, h2, h3⟩ := ih (max acc y.1)
      refine ⟨by simp only [foldl_cons]; omega, ?_, ?_⟩
      · intro z hz
        rcases mem_cons.mp hz with rfl | hz
        · simp only [foldl_cons]
          omega
        · exact h2 z hz
      · intro hall hacc
        have hy := hall y mem_cons_self
        exact h3 (fun z hz => hall z (mem_cons_of_mem _ hz)) (by omega)
  obtain ⟨-, hle, hlt⟩ := hfold rotated 0
  have hbound := hlt hmax (by decide)
  cases rotated with
  | nil => cases hx
  | cons y l =>
    have hxle := hle x hx
    show x.1 < saturatingAdd ((y :: l).foldl (fun acc f => max acc f.1) 0) 1
    rw [saturatingAdd_eq (by unfold u64Max at hbound; omega)]
    omega

end

/-! ## The reopened writer -/

section

variable {options : WalWriterOptions} {disk : Disk} {l : Log codec}

/-- A log on disk, without a writer. -/
structure Stored (options : WalWriterOptions) (disk : Disk) (l : Log codec) : Prop where
  rotatedDisk : disk.rotated.entries =
    l.rotated.map fun x => (x.1, bytes options.segmentCfgHash x.2)
  activeDisk : openActive options disk.active =
    .ok (bytes options.segmentCfgHash l.active, min l.active.start u64Max, headerV1Len)
  target : l.active.dataLen ≤ options.rotationTargetBytes
  small : ∀ x ∈ l.rotated, LogFile.Small x.2
  ids : ∀ x ∈ l.rotated, x.1 < u64Max

theorem Stored.active_small (h : Stored options disk l) : LogFile.Small l.active := by
  have htarget := h.target
  have hmax := options.rotationTarget_le
  unfold maxRotationTargetBytes at hmax
  unfold LogFile.Small headerV1Len
  omega

theorem openActive_bytes (f : LogFile codec) (tail : Bytes) :
    openActive options (some (bytes options.segmentCfgHash f ++ tail)) =
      .ok (bytes options.segmentCfgHash f ++ tail, min f.start u64Max, headerV1Len) := by
  have hlen := length_bytes options.segmentCfgHash f
  have hread : readFrom (bytes options.segmentCfgHash f ++ tail) =
      .ok (withBaseOffset options.segmentCfgHash (min f.start u64Max)) :=
    readFrom_bytes tail
  unfold openActive
  simp only [Option.getD_some, hread]
  rw [if_neg (by rw [length_append, hlen]; unfold headerV1Len; omega),
    if_neg (by rw [length_append, hlen]; unfold headerV1Len walHeaderMinLen; omega)]
  exact if_neg (fun hne => hne rfl)

/-- The number after the last entry of a log, zero without entries. -/
def Log.nextSequence (l : Log codec) : UInt64 :=
  (l.entries.getLast?.map fun e => e.sequence + 1).getD 0

theorem foldl_sequence (entries : List (Entry codec)) (acc : Option UInt64) :
    entries.foldl (fun _ e => some e.sequence) acc =
      (entries.getLast?.map sequence).or acc := by
  rcases eq_nil_or_concat entries with rfl | ⟨init, e, rfl⟩
  · rfl
  · simp

/-- The rotated files have entries, and all entries of the log can be read. -/
def Log.Whole (l : Log codec) : Prop :=
  (∀ x ∈ l.rotated, x.2.frames ≠ []) ∧ ∀ e ∈ l.entries, Readable codec e.bundle

/-- The sequence number is found without an error; if all entries can be read it is the one
after the last of them. -/
theorem detectNextSequence_eq (htail : Torn codec tail) (h : Stored options disk l)
    (hch : Chained size s l.files) (hstop : l.active.stop size ≤ u64Max)
    (hread : ∀ e ∈ l.active.frames, Readable codec e.bundle) (active : Option Bytes) :
    ∃ sequence, detectNextSequence codec
        (bytes options.segmentCfgHash l.active ++ tail) { disk with active }
        (l.rotated.map reloaded) =
      .ok (sequence, ⟨l.active.frames.foldl (fun _ e => some e.sequence) none,
        headerV1Len + l.active.dataLen, boundariesFrom headerV1Len l.active.frames⟩) ∧
      (l.Whole → sequence = l.nextSequence) := by
  have hentries : l.entries = (l.rotated.map Prod.snd).flatMap Run.frames ++ l.active.frames := by
    simp [Log.entries, Log.files]
  unfold detectNextSequence Log.nextSequence
  rw [scanFile_readable htail h.active_small hstop hread, hentries, getLast?_append]
  rw [foldl_sequence]
  cases hlast : l.active.frames.getLast? with
  | some e => exact ⟨_, rfl, fun _ => rfl⟩
  | none =>
    rcases eq_nil_or_concat l.rotated with hnil | ⟨init, x, hinit⟩
    · rw [hnil]
      exact ⟨0, rfl, fun _ => rfl⟩
    rw [concat_eq_append] at hinit
    have hx : x ∈ l.rotated := by rw [hinit]; exact mem_append_right _ mem_cons_self
    have hfile : disk.rotated.get? x.1 = some (bytes options.segmentCfgHash x.2) := by
      rw [OrdMap.get?_eq_some, h.rotatedDisk]
      exact mem_map_of_mem hx
    obtain ⟨r, hr⟩ : ∃ r, scanFileForEntries codec
        (some (bytes options.segmentCfgHash x.2)) = .ok r := scanFile_total (h.small x hx)
    have hnewest : (l.rotated.map reloaded).getLast? = some (reloaded x) := by
      rw [hinit, map_append]
      exact getLast?_concat
    rw [hnewest]
    simp only [Option.map_none, Option.none_or, reloaded, hfile, hr]
    refine ⟨(r.lastSequence.map (· + 1)).getD 0, ?_, fun hwhole => ?_⟩
    · cases r.lastSequence with
      | none | some => rfl
    -- the newest rotated file ends within the range of positions, so its scan is complete
    have hend : x.2.stop size ≤ u64Max := by
      have hstart : l.active.start = x.2.stop size := by
        refine Chained.last_start size hch ?_
        rw [hinit, map_append]
        exact getLast?_concat
      have hle : l.active.start ≤ l.active.stop size := Nat.le_add_right ..
      omega
    have hmem : ∀ e ∈ x.2.frames, Readable codec e.bundle := by
      intro e he
      refine hwhole.2 e ?_
      rw [hentries]
      exact mem_append_left _
        (mem_flatMap.mpr ⟨x.2, mem_map_of_mem hx, he⟩)
    have hscan : scanFileForEntries codec
        (some (bytes options.segmentCfgHash x.2 ++ [])) = .ok _ :=
      scanFile_readable (.inl rfl) (h.small x hx) hend hmem
    rw [append_nil, hr] at hscan
    have hseq : r.lastSequence = x.2.frames.getLast?.map sequence := by
      rw [Except.ok.inj hscan, foldl_sequence, Option.or_none]
    have hrot : ((l.rotated.map Prod.snd).flatMap Run.frames).getLast? = x.2.frames.getLast? := by
      rw [hinit, map_append, flatMap_append, getLast?_append]
      obtain ⟨e, he⟩ := Option.ne_none_iff_exists'.mp
        (mt getLast?_eq_none_iff.mp (hwhole.1 x hx))
      simp [he]
    rw [hseq, hrot]
    simp [Option.map_map, Function.comp_def]

/-- The position where the reopened writer thinks the data on disk ends. -/
def onDisk (l : Log codec) : Nat :=
  saturatingAdd ((l.rotated.getLast?.map fun x => min (x.2.stop size) u64Max).getD 0)
    l.active.dataLen

/-- **Reopening refines the log.**  If the oldest rotated file starts at zero, or no rotated
file is left, and every entry of the active file is readable, the reopened writer represents
the log on disk, without the torn frame that may follow it; its cursor is the persisted one, cut
off at what it takes to be on disk. -/
theorem open_represents (htail : Torn codec tail) (h : Stored options disk l)
    {active : Option Bytes} (hactive : openActive options active =
      .ok (bytes options.segmentCfgHash l.active ++ tail, min l.active.start u64Max,
        headerV1Len)) (hvalid : options.validate = .ok ()) {cursor : Nat}
    (hcursor : loadCursorState codec disk.sidecar = .ok cursor) (hch : Chained size s l.files)
    (hbase : l.rotated = [] ∨ s = 0) (hstop : l.active.stop size ≤ u64Max)
    (hread : ∀ e ∈ l.active.frames, Readable codec e.bundle) :
    ∃ w disk', WalWriter.open codec options { disk with active } = .ok (w, disk') ∧
      Represents w disk' l ∧ w.coordinator.options = options ∧ disk'.rotated = disk.rotated ∧
      disk'.sidecar = disk.sidecar ∧
      w.coordinator.cursorPosition = min cursor (onDisk l) ∧
      w.coordinator.nextRotationId = reloadNextRotationId disk.rotated.entries ∧
      (l.Whole → w.nextSequence = l.nextSequence) := by
  have hrot : Chained size s (l.rotated.map Prod.snd) :=
    ((Frames.chained_append size).mp hch).1
  have hreload : reloadFiles 0 disk.rotated.entries = .ok (l.rotated.map reloaded) := by
    rw [h.rotatedDisk]
    rcases hbase with hnil | rfl
    · rw [hnil]
      rfl
    · exact reloadFiles_eq hrot
  obtain ⟨sequence, hdetect, hsequence⟩ := 
    detectNextSequence_eq htail h hch hstop hread active
  have htake : (bytes options.segmentCfgHash l.active ++ tail).take
      (headerV1Len + l.active.dataLen) = bytes options.segmentCfgHash l.active := by
    rw [← length_bytes options.segmentCfgHash, take_left]
  have hstart : ∀ c : WalCoordinator, c.walPositionStart = min l.active.start u64Max →
      c.rotatedFiles = l.rotated.map reloaded → c.activeWalPositionStart =
        min l.active.start u64Max := by
    intro c hc hfiles
    unfold WalCoordinator.activeWalPositionStart
    rw [hfiles, hc, getLast?_map]
    cases hlast : l.rotated.getLast? with
    | none => rfl
    | some x =>
      have hx : (l.rotated.map Prod.snd).getLast? = some x.2 := by rw [getLast?_map, hlast]; rfl
      rw [hch.last_start size hx]
      rfl
  have hopen : WalWriter.open codec options { disk with active } =
      .ok (⟨openCoordinator options cursor (min l.active.start u64Max) headerV1Len
          (l.rotated.map reloaded) (reloadNextRotationId disk.rotated.entries)
          (boundariesFrom headerV1Len l.active.frames) (headerV1Len + l.active.dataLen),
          headerV1Len + l.active.dataLen, sequence⟩,
        { disk with active := some (bytes options.segmentCfgHash l.active) }) := by
    simp [WalWriter.open, hactive, hvalid, hcursor, hreload, hdetect, htake]
  refine ⟨_, _, hopen,
    ⟨⟨hstart _ rfl rfl, rfl, rfl, h.target⟩, h.rotatedDisk, rfl, rfl, rfl, ?_, h.small⟩,
    rfl, rfl, rfl, ?_, rfl, hsequence⟩
  · intro x hx
    have hmem : (x.1, bytes options.segmentCfgHash x.2) ∈ disk.rotated.entries := by
      rw [h.rotatedDisk]
      exact mem_map_of_mem hx
    refine lt_reloadNextRotationId hmem fun y hy => ?_
    rw [h.rotatedDisk] at hy
    obtain ⟨z, hz, rfl⟩ := mem_map.mp hy
    exact h.ids z hz
  · show min cursor (saturatingAdd _ (headerV1Len + l.active.dataLen - headerV1Len)) = _
    rw [Nat.add_sub_cancel_left, getLast?_map, Option.map_map]
    rfl

end

/-! # What is appended is what is read

A run of appends on a fresh log, with whatever rotations they cause, against the iteration of
`MultiFileWalReader`.  The writer bounds a body by `u32::MAX` and the reader by 256 MiB, and
the writer counts descriptor slots where the reader counts bits of the bitmap, so the round
trip holds exactly for the bundles that are `Readable` (`wal_round_trip`). -/

open Iterator Machine Log

/-- One append, as a step of a machine on the writer and its disk. -/
def appendStep (codec : Codec β) (s : WalWriter × Disk) (bundle : RecordBundle β) :
    (WalWriter × Disk) × Except WalError WalOffset :=
  s.1.appendBundle codec s.2 bundle

/-- The bundles accepted in a history, with the offsets that were reported for them. -/
def accepted (history : List (RecordBundle β × Except WalError WalOffset)) :
    List (RecordBundle β × WalOffset) :=
  history.filterMap fun x => x.2.toOption.map fun offset => (x.1, offset)

/-- From every reported offset the iteration ends without an error after exactly the accepted
bundles at or after it. -/
def RoundTrips (codec : Codec β) (disk : Disk) (log : List (RecordBundle β × WalOffset)) : Prop :=
  ∃ reader, MultiFileWalReader.open disk = .ok reader ∧
    ∀ p, (∃ x ∈ log, p = x.2.position ∨ p = x.2.nextOffset) →
      Yields (MultiFileWalIter.next codec disk) (reader.iterFrom p)
        ((log.filter fun x => decide (p ≤ x.2.position)).map fun x =>
          .ok (recordOf codec x.1 x.2))

/-- Bytes that a bundle takes in the log. -/
def frameLen (codec : Codec β) (bundle : RecordBundle β) : Nat := 4 + bodyLen codec bundle + 4

/-- What the writer reports for an entry at a position. -/
def reported (x : Nat × Entry codec) : RecordBundle β × WalOffset :=
  (x.2.bundle, ⟨min x.1 u64Max, min (x.1 + x.2.size) u64Max, x.2.sequence⟩)

/-- Every entry starts within the range of positions. -/
def InRange (entries : List (Entry codec)) : Prop :=
  ∀ x ∈ place size 0 entries, x.1 < u64Max

theorem inRange_iff (entries : List (Entry codec)) :
    InRange entries ↔ total size entries.dropLast < u64Max := by
  rcases eq_nil_or_concat entries with rfl | ⟨init, e, rfl⟩
  · simp [InRange, u64Max]
  · unfold InRange
    rw [concat_eq_append, dropLast_concat, place_append, zero_add]
    constructor
    · intro h
      exact h (total size init, e) (by simp)
    · rintro h ⟨p, e'⟩ hmem
      rcases mem_append.mp hmem with hmem | hmem
      · have hb := (place_bounds size hmem).2
        omega
      · obtain ⟨rfl, rfl⟩ := Prod.mk.inj (mem_singleton.mp hmem)
        exact h

theorem inRange_append {entries : List (Entry codec)} {e : Entry codec} :
    InRange (entries ++ [e]) ↔ InRange entries ∧ total size entries < u64Max := by
  unfold InRange
  rw [place_append, zero_add, forall_mem_append]
  simp

/-! ## The run -/

/-- What a run of appends maintains: a log whose entries are the accepted bundles, which the
disk holds as long as positions stay in range. -/
structure AppendRun (s : WalWriter × Disk)
    (past : List (RecordBundle β × Except WalError WalOffset)) (l : Log codec) : Prop where
  counts : Counts s.1 l.active
  chained : Chained size 0 l.files
  accepted : accepted past = (place size 0 l.entries).map reported
  represents : InRange l.entries → Represents s.1 s.2 l ∧
    2 * s.1.coordinator.nextRotationId ≤ l.active.start + 2

section

variable (past : List (RecordBundle β × Except WalError WalOffset)) (bundle : RecordBundle β)

theorem accepted_append (offset : WalOffset) :
    accepted (past ++ [(bundle, .ok offset)]) = accepted past ++ [(bundle, offset)] := by
  simp [accepted, Except.toOption]

theorem accepted_append_error (e : WalError) :
    accepted (past ++ [(bundle, .error e)]) = accepted past := by
  simp [accepted, Except.toOption]

end

variable {w : WalWriter} {disk : Disk} {options : WalWriterOptions} {n : Nat}

theorem LogFile.rotationId_lt {f : LogFile codec} {id : Nat} (hids : 2 * id ≤ f.start + 2)
    (hrange : f.stop size ≤ u64Max) : id < u64Max := by
  have hle : f.start ≤ f.stop size := Nat.le_add_right ..
  have hbig : 2 < u64Max := by decide
  omega

variable {l : Log codec}

/-- The ids of rotated files stay far below the positions. -/
theorem nextRotationId_append {bundle : RecordBundle β} {body : Bytes}
    (hc : Counts w l.active) (hbody : encodeBody codec bundle w.nextSequence = .ok body)
    (h : 2 * w.coordinator.nextRotationId ≤ l.active.start + 2) (id : Nat) :
    2 * (appended codec w disk body).1.coordinator.nextRotationId ≤
      (l.append w.coordinator.options.rotationTargetBytes id (entryOf hbody)).active.start + 2 := by
  rw [hc.appended_eq hbody]
  unfold append
  split
  · exact h
  · have hpos := w.coordinator.options.rotationTarget_pos
    have hstop : (push l.active (entryOf hbody)).stop size =
      l.active.start + (push l.active (entryOf hbody)).dataLen := rfl
    have hnext : saturatingAdd w.coordinator.nextRotationId 1 ≤
      w.coordinator.nextRotationId + 1 := min_le_left ..
    show 2 * saturatingAdd w.coordinator.nextRotationId 1 ≤
      (push l.active (entryOf hbody)).stop size + 2
    omega

variable {past : List (RecordBundle β × Except WalError WalOffset)}

theorem appendRun_step {s : WalWriter × Disk} (h : AppendRun s past l) (bundle : RecordBundle β) :
    ∃ l' : Log codec, AppendRun (appendStep codec s bundle).1
      (past ++ [(bundle, (appendStep codec s bundle).2)]) l' := by
  obtain ⟨w, disk⟩ := s
  rcases appendBundle_cases codec w disk bundle with ⟨e, happ⟩ | ⟨body, hbody, happ⟩
  · refine ⟨l, ?_⟩
    rw [appendStep, happ]
    exact ⟨h.counts, h.chained, by rw [accepted_append_error]; exact h.accepted, h.represents⟩
  · refine ⟨l.append w.coordinator.options.rotationTargetBytes w.coordinator.nextRotationId
      (entryOf hbody), ?_⟩
    rw [appendStep, happ]
    have hstop : l.active.stop size = total size l.entries := by
      rw [active_stop h.chained, zero_add]
    refine ⟨h.counts.append hbody disk _, chained_append h.chained, ?_, ?_⟩
    · rw [accepted_append, h.accepted, entries_append, place_append, map_append,
        h.counts.offsetAt_eq hbody, hstop, zero_add]
      rfl
    · intro hin
      rw [entries_append, inRange_append] at hin
      obtain ⟨hrep, hids⟩ := h.represents hin.1
      have hfree : w.coordinator.nextRotationId < u64Max := by
        have hle : l.active.start ≤ l.active.stop size := Nat.le_add_right ..
        have hbig : 2 < u64Max := by decide
        dsimp only at hids
        omega
      exact ⟨hrep.append hbody hfree, nextRotationId_append h.counts hbody hids _⟩

/-- The log of a fresh directory. -/
def Log.empty : Log codec := ⟨[], ⟨0, []⟩⟩

theorem stored_empty (options : WalWriterOptions) :
    Stored options Disk.empty (empty : Log codec) where
  rotatedDisk := rfl
  activeDisk := by simp [openActive, Disk.empty, bytes, data, empty]
  target := Nat.zero_le _
  small := by simp [empty]
  ids := by simp [empty]

/-- A log that opens has options that pass their check. -/
theorem validate_of_open {disk' : Disk} (h : Stored options disk l)
    (hopen : WalWriter.open codec options disk = .ok (w, disk')) : options.validate = .ok () := by
  cases hv : options.validate with
  | ok u => rfl
  | error e =>
    simp only [WalWriter.open, h.activeDisk, hv] at hopen
    cases hopen

/-- A fresh log is represented, without a sidecar, and its first rotation id is one. -/
theorem open_empty (h : WalWriter.open codec options Disk.empty = .ok (w, disk)) :
    Represents w disk (empty : Log codec) ∧ w.coordinator.options = options ∧
      disk.sidecar = none ∧ w.coordinator.cursorPosition = 0 ∧
      w.coordinator.nextRotationId = 1 ∧ w.nextSequence = 0 := by
  have hstored : Stored options Disk.empty (empty : Log codec) := stored_empty options
  have hcursor : loadCursorState codec Disk.empty.sidecar = .ok 0 := rfl
  have hch : Chained size 0 (empty : Log codec).files := ⟨rfl, trivial⟩
  obtain ⟨w', disk', hopen, hrep, hopt, -, hside, hpos, hnext, hseq⟩ :=
    open_represents (.inl rfl) hstored (by simpa using hstored.activeDisk)
      (validate_of_open hstored h) hcursor hch (.inl rfl) (Nat.zero_le _) (by simp [empty])
  rw [h] at hopen
  cases hopen
  exact ⟨hrep, hopt, hside, hpos.trans (Nat.zero_min _), hnext, hseq (by simp [Log.Whole, empty,
    entries, files])⟩

theorem appendRun (h : WalWriter.open codec options Disk.empty = .ok (w, disk))
    (bundles : List (RecordBundle β)) :
    ∃ l : Log codec, AppendRun (final (appendStep codec) (w, disk) bundles)
      (history (appendStep codec) (w, disk) bundles) l := by
  obtain ⟨hrep, -, -, -, hnext, -⟩ := open_empty h
  have hstart : AppendRun (w, disk) ([] : List (RecordBundle β × Except WalError WalOffset))
      (empty : Log codec) :=
    ⟨hrep.toCounts, ⟨rfl, trivial⟩, rfl, fun _ => ⟨hrep, by dsimp only; rw [hnext]; rfl⟩⟩
  exact history_invariant (fun s past => ∃ l : Log codec, AppendRun s past l)
    (fun _ bundle _ ⟨_, hl⟩ => appendRun_step hl bundle) ⟨empty, hstart⟩ bundles

/-! ## The round trip -/

/-- The accepted bundles at or after a boundary are the entries after it. -/
theorem filter_reported {pre post : List (Entry codec)} (hin : InRange (pre ++ post)) :
    (((place size 0 (pre ++ post)).map reported).filter fun x =>
        decide (min (total size pre) u64Max ≤ x.2.position)).map
          (fun x => Except.ok (recordOf codec x.1 x.2)) =
      recordsFrom (total size pre) post := by
  have hcongr : (place size 0 (pre ++ post)).filter
      ((fun x : RecordBundle β × WalOffset =>
        decide (min (total size pre) u64Max ≤ x.2.position)) ∘ reported) =
      (place size 0 (pre ++ post)).filter
        (fun x => decide (0 + total size pre ≤ x.1)) := by
    apply filter_congr
    intro x hx
    have hlt := hin x hx
    have hiff : min (total size pre) u64Max ≤ min x.1 u64Max ↔
        0 + total size pre ≤ x.1 := by omega
    exact decide_eq_decide.mpr hiff
  rw [filter_map, hcongr, filter_place size size_pos, map_map, zero_add]
  rfl

section

variable {s : WalWriter × Disk}

theorem onDisk_of_represents (h : Represents s.1 s.2 l) :
    OnDisk s.1.coordinator.options.segmentCfgHash s.2 (located l.rotated l.active) := by
  intro x hx
  rcases mem_append.mp hx with hx | hx
  · obtain ⟨y, hy, rfl⟩ := mem_map.mp hx
    refine ⟨?_, h.small y hy⟩
    show s.2.rotated.get? y.1 = _
    rw [OrdMap.get?_eq_some, h.rotatedDisk]
    exact mem_map_of_mem hy
  · rw [mem_singleton.mp hx]
    refine ⟨h.activeDisk, ?_⟩
    have htarget := h.target
    have hmax := s.1.coordinator.options.rotationTarget_le
    show headerV1Len + l.active.dataLen < 2 ^ 64
    unfold maxRotationTargetBytes at hmax
    unfold headerV1Len
    omega

theorem entriesOf_located (l : Log codec) : entriesOf (located l.rotated l.active) = l.entries := by
  simp [entriesOf, located, entries, files, flatMap_map]

/-- The reader of the files of a represented log. -/
theorem open_of_represents (h : Represents s.1 s.2 l) (hch : Chained size 0 l.files) :
    MultiFileWalReader.open s.2 = .ok ⟨(located l.rotated l.active).map infoOf⟩ :=
  open_located h.rotatedDisk h.activeDisk hch

theorem chained_located (hch : Chained size 0 l.files) :
    Chained size 0 ((located l.rotated l.active).map Prod.snd) := by
  rw [map_snd_located]
  exact hch

/-- A reported offset is a boundary of the log. -/
theorem boundary_of_reported {p : Nat} (hp : ∃ x ∈ (place size 0 l.entries).map reported,
      p = x.2.position ∨ p = x.2.nextOffset) :
    ∃ pre post, l.entries = pre ++ post ∧ p = min (total size pre) u64Max := by
  obtain ⟨y, hy, hcase⟩ := hp
  obtain ⟨⟨q, e⟩, hx, rfl⟩ := mem_map.mp hy
  obtain ⟨pre, post, hsplit, hq⟩ := place_split size hx
  rw [zero_add] at hq
  rcases hcase with rfl | rfl
  · exact ⟨pre, e :: post, hsplit, by rw [← hq]; rfl⟩
  · refine ⟨pre ++ [e], post, by rw [hsplit, append_assoc]; rfl, ?_⟩
    rw [total_append, total_cons, total_nil, add_zero, ← hq]
    rfl

/-- Readable bundles whose positions are in range come back. -/
theorem roundTrips_of_readable (h : AppendRun s past l) (hin : InRange l.entries)
    (hread : ∀ e ∈ l.entries, Readable codec e.bundle) : RoundTrips codec s.2 (accepted past) := by
  obtain ⟨hrep, -⟩ := h.represents hin
  refine ⟨_, open_of_represents hrep h.chained, fun p hp => ?_⟩
  rw [h.accepted] at hp ⊢
  obtain ⟨pre, post, hsplit, rfl⟩ := boundary_of_reported hp
  rw [hsplit] at hin hread ⊢
  rw [filter_reported hin]
  have hcut : entriesOf (located l.rotated l.active) = pre ++ post := by
    rw [entriesOf_located, hsplit]
  have hbound : post = [] ∨ 0 + total size pre < u64Max := by
    cases post with
    | nil => exact .inl rfl
    | cons e post =>
      refine .inr (hin (0 + total size pre, e) ?_)
      rw [place_append]
      exact mem_append_right _ mem_cons_self
  have hyields := iter_boundary (chained_located h.chained) (onDisk_of_represents hrep) hcut
    (fun e he => hread e (mem_append_right _ he)) hbound
  rwa [zero_add] at hyields

/-- A round trip needs positions in range: at the top of the range nothing is found. -/
theorem inRange_of_roundTrips (h : AppendRun s past l)
    (hrt : RoundTrips codec s.2 (accepted past)) : InRange l.entries := by
  intro x hx
  by_contra hge
  obtain ⟨reader, hopen, hyields⟩ := hrt
  have hmem : reported x ∈ accepted past := by
    rw [h.accepted]
    exact mem_map_of_mem hx
  have hpos : (reported x).2.position = u64Max := min_eq_right (not_lt.mp hge)
  have hnone : Yields (MultiFileWalIter.next codec s.2) (reader.iterFrom u64Max) [] :=
    iter_top reader (walPositionEnd_le hopen)
  have heq := hnone.unique (hyields u64Max ⟨_, hmem, .inl hpos.symm⟩)
  have hin : reported x ∈ (accepted past).filter fun y => decide (u64Max ≤ y.2.position) :=
    mem_filter.mpr ⟨hmem, by simp [hpos]⟩
  rw [map_eq_nil_iff.mp heq.symm] at hin
  cases hin

/-- A round trip needs readable bundles: an entry that is not readable is an error. -/
theorem readable_of_roundTrips (h : AppendRun s past l) (hin : InRange l.entries)
    (hrt : RoundTrips codec s.2 (accepted past)) : ∀ e ∈ l.entries, Readable codec e.bundle := by
  intro e he
  by_contra hunread
  obtain ⟨hrep, -⟩ := h.represents hin
  obtain ⟨reader, hopen, hyields⟩ := hrt
  rw [open_of_represents hrep h.chained] at hopen
  cases hopen
  obtain ⟨pre, post, hsplit⟩ := append_of_mem he
  have hcut : entriesOf (located l.rotated l.active) = pre ++ e :: post := by
    rw [entriesOf_located, hsplit]
  have hplace : (total size pre, e) ∈ place size 0 l.entries := by
    rw [hsplit, place_append, zero_add]
    exact mem_append_right _ mem_cons_self
  have hlt : 0 + total size pre < u64Max := by
    rw [zero_add]
    exact hin _ hplace
  obtain ⟨context, it, hnext⟩ :=
    iter_unreadable (chained_located h.chained) (onDisk_of_represents hrep) hcut hunread hlt
  rw [zero_add] at hnext hlt
  have hpos : (reported (total size pre, e)).2.position = total size pre :=
    min_eq_left hlt.le
  have hat := hyields (total size pre)
    ⟨reported (total size pre, e), by rw [h.accepted]; exact mem_map_of_mem hplace, .inl hpos.symm⟩
  rw [h.accepted, hsplit, ← min_eq_left hlt.le, filter_reported (by rwa [← hsplit]),
    recordsFrom_cons, min_eq_left hlt.le] at hat
  obtain ⟨rest, heq, -⟩ := hat.of_next hnext
  cases heq

end

/-- The bytes of all accepted bundles but the last, from the entries of the log. -/
theorem sum_frameLen (entries : List (Entry codec)) :
    ((((place size 0 entries).map reported).dropLast).map
      fun x => frameLen codec x.1).sum = total size entries.dropLast := by
  have hsize : ∀ x : Nat × Entry codec, frameLen codec (reported x).1 = x.2.size := by
    intro x
    rw [size, x.2.length_body]
    rfl
  have hmap : (((place size 0 entries).map reported).dropLast).map
      (fun x => frameLen codec x.1) = entries.dropLast.map size := by
    rw [← map_snd_place size 0 entries, map_dropLast, map_dropLast, map_map, map_map, map_snd_place]
    exact congrArg List.dropLast (map_congr_left fun x _ => hsize x)
  rw [hmap]
  rfl

/-- **Round trip of the log.**  After any run of appends on a fresh log, iterating from every
reported offset returns exactly the accepted bundles at or after it, if and only if every
accepted bundle is readable and the last one starts within the range of positions. -/
theorem wal_round_trip {options : WalWriterOptions} {w : WalWriter} {disk : Disk}
    (hopen : WalWriter.open codec options Disk.empty = .ok (w, disk))
    (bundles : List (RecordBundle β)) :
    let log := accepted (history (appendStep codec) (w, disk) bundles)
    RoundTrips codec (final (appendStep codec) (w, disk) bundles).2 log ↔
      (∀ x ∈ log, Readable codec x.1) ∧
        (log.dropLast.map fun x => frameLen codec x.1).sum < u64Max := by
  obtain ⟨l, h⟩ := appendRun hopen bundles
  have hreadable : (∀ x ∈ (place size 0 l.entries).map reported, Readable codec x.1) ↔
      ∀ e ∈ l.entries, Readable codec e.bundle := by
    rw [forall_mem_map]
    constructor
    · intro hall e he
      rw [← map_snd_place size 0 l.entries] at he
      obtain ⟨x, hx, rfl⟩ := mem_map.mp he
      exact hall x hx
    · intro hall x hx
      refine hall x.2 ?_
      rw [← map_snd_place size 0 l.entries]
      exact mem_map_of_mem hx
  dsimp only
  rw [h.accepted, hreadable, sum_frameLen, ← inRange_iff, ← h.accepted]
  constructor
  · intro hrt
    have hin := inRange_of_roundTrips h hrt
    exact ⟨readable_of_roundTrips h hin hrt, hin⟩
  · rintro ⟨hread, hin⟩
    exact roundTrips_of_readable h hin hread

/-! ## An oversized entry -/

/-- A codec whose batches are their own size. -/
def sizeCodec : Codec Nat where
  numRows := fun _ => 0
  ipc := fun n => some (List.replicate n 0)
  crc32 := fun _ => 0

def zeroFingerprint : SchemaFingerprint := ⟨List.replicate 32 0, length_replicate⟩

/-- A bundle with one payload of `n` bytes. -/
def sizedBundle (n : Nat) : RecordBundle Nat where
  slots := [0]
  ingestionTime := 0
  payload := fun _ => some ⟨zeroFingerprint, n⟩

def defaultOptions : WalWriterOptions := WalWriterOptions.new ⟨List.replicate 16 0, rfl⟩

/-- Options with which a file is rotated once its entries take more than 100 bytes. -/
def rotatingOptions : WalWriterOptions := defaultOptions.withRotationTarget 100

/-- What opening a fresh log gives. -/
def freshLog (options : WalWriterOptions) : WalWriter × Disk :=
  (⟨openCoordinator options 0 0 headerV1Len [] 1 [] headerV1Len, headerV1Len, 0⟩,
    { Disk.empty with active := some (WalHeader.withBaseOffset options.segmentCfgHash 0).encode })

theorem bodyLen_sizedBundle (n : Nat) : bodyLen sizeCodec (sizedBundle n) = 67 + n := by
  simp [bodyLen, populated, sizedBundle, slotOf, sizeCodec, entryHeaderLen, slotHeaderLen]
  omega

theorem readable_sizedBundle : Readable sizeCodec (sizedBundle n) ↔ 67 + n ≤ maxEntrySize := by
  rw [Readable, bodyLen_sizedBundle]
  exact and_iff_left (nodup_singleton 0)

/-- The writer accepts every payload that fits the 32-bit length field. -/
theorem encodeBody_sizedBundle (h : 67 + n ≤ u32Max) (sequence : UInt64) :
    ∃ body, encodeBody sizeCodec (sizedBundle n) sequence = .ok body := by
  have hlen : ¬ u32Max < (List.replicate n (0 : UInt8)).length := by
    rw [length_replicate]
    omega
  obtain ⟨block, hblock, hsize⟩ : ∃ block, encodeSlot sizeCodec 0
      ⟨zeroFingerprint, n⟩ = .ok block ∧ block.length = 42 + n := by
    refine ⟨_, (if_neg (Nat.not_lt_zero _)).trans (if_neg hlen), ?_⟩
    simp [zeroFingerprint]
    omega
  have hslots : encodeSlots sizeCodec (sizedBundle n) [0] 0#64 [] =
      .ok (0#64 ||| Bitmap.mask 0, [] ++ block) := by
    simp only [encodeSlots, sizedBundle, hblock]
    rfl
  have htotal : ¬ u32Max < entryHeaderLen + ([] ++ block).length := by
    rw [nil_append, hsize]
    unfold entryHeaderLen
    omega
  refine ⟨entryHeader 0 sequence (0#64 ||| Bitmap.mask 0) ++ ([] ++ block), ?_⟩
  have htime : systemTimeToNanos (sizedBundle n).ingestionTime = .ok 0 := rfl
  have hdesc : (sizedBundle n).slots = [0] := rfl
  simp only [encodeBody, htime, hdesc, hslots, if_neg htotal]

/-- With default options a fresh log accepts such a bundle. -/
theorem append_sizedBundle (h : 67 + n ≤ u32Max)
    (hopen : WalWriter.open sizeCodec defaultOptions Disk.empty = .ok (w, disk)) :
    ∃ offset, accepted (history (appendStep sizeCodec) (w, disk) [sizedBundle n]) =
      [(sizedBundle n, offset)] := by
  obtain ⟨hrep, hopt, -⟩ := open_empty hopen
  obtain ⟨body, hbody⟩ := encodeBody_sizedBundle h w.nextSequence
  have hfiles : w.coordinator.rotatedFiles = [] := hrep.rotatedFiles
  have hpre : w.coordinator.preflightAppend w.currentLen (4 + body.length + 4) = .ok () := by
    have hroom : ¬ w.coordinator.options.maxRotatedFiles ≤ w.coordinator.rotatedFiles.length := by
      rw [hfiles, hopt]
      decide
    have hmax : w.coordinator.options.maxWalSize = u64Max := by rw [hopt]; rfl
    unfold WalCoordinator.preflightAppend
    simp only [hmax]
    rw [if_neg (fun hboth => hroom hboth.2), if_neg]
    apply not_lt.mpr
    split <;> exact saturatingAdd_le _ _
  simp [appendStep, appendBundle_of_ok hbody hpre, accepted, Except.toOption]

theorem open_default :
    ∃ w disk, WalWriter.open sizeCodec defaultOptions Disk.empty = .ok (w, disk) :=
  ⟨_, _, rfl⟩

theorem open_rotating :
    WalWriter.open sizeCodec rotatingOptions Disk.empty = .ok (freshLog rotatingOptions) := rfl

/-- Three bundles, of which the first two fill a file. -/
theorem wal_round_trip_small :
    let bundles := [sizedBundle 3, sizedBundle 40, sizedBundle 0]
    let log := accepted (history (appendStep sizeCodec) (freshLog rotatingOptions) bundles)
    let disk := (final (appendStep sizeCodec) (freshLog rotatingOptions) bundles).2
    log.map (fun x => x.2.nextOffset) = [78, 193, 268] ∧ disk.rotated.entries.length = 1 ∧
      RoundTrips sizeCodec disk log := by
  intro bundles log disk
  refine ⟨by decide +kernel, by decide +kernel,
    (wal_round_trip open_rotating bundles).mpr ⟨?_, by decide +kernel⟩⟩
  unfold Readable
  decide +kernel

/-- **The writer accepts what the reader rejects.**  A payload of 256 MiB is accepted, and the
iteration does not return it. -/
theorem oversized_entry_unreadable : ∃ w disk,
    WalWriter.open sizeCodec defaultOptions Disk.empty = .ok (w, disk) ∧
      (∃ offset, accepted (history (appendStep sizeCodec) (w, disk)
        [sizedBundle maxRotationTargetBytes]) =
          [(sizedBundle maxRotationTargetBytes, offset)]) ∧
      ¬ RoundTrips sizeCodec
        (final (appendStep sizeCodec) (w, disk) [sizedBundle maxRotationTargetBytes]).2
        (accepted (history (appendStep sizeCodec) (w, disk)
          [sizedBundle maxRotationTargetBytes])) := by
  obtain ⟨w, disk, hopen⟩ := open_default
  obtain ⟨offset, hacc⟩ :=
    append_sizedBundle (by decide : 67 + maxRotationTargetBytes ≤ u32Max) hopen
  refine ⟨w, disk, hopen, ⟨offset, hacc⟩, fun hrt => ?_⟩
  obtain ⟨l, hrun⟩ := appendRun hopen [sizedBundle maxRotationTargetBytes]
  have hread := readable_of_roundTrips hrun (inRange_of_roundTrips hrun hrt) hrt
  have hlog := hrun.accepted
  rw [hacc] at hlog
  obtain ⟨x, hx, heq⟩ := mem_map.mp
    (show (sizedBundle maxRotationTargetBytes, offset) ∈
      (place size 0 l.entries).map reported from hlog ▸ mem_singleton_self _)
  have hmem : x.2 ∈ l.entries := by
    rw [← map_snd_place size 0 l.entries]
    exact mem_map_of_mem hx
  have hbig := hread x.2 hmem
  rw [show x.2.bundle = sizedBundle maxRotationTargetBytes from congrArg Prod.fst heq,
    readable_sizedBundle] at hbig
  exact absurd hbig (by decide)

end OtapDataflow.Wal
