import OtapDataflow.Wal.Positions

/-! # What a log has accepted

Across appends and purges the accepted bundles are those of the files that are gone, followed
by the entries that are still there, and both positions and sequence numbers increase
(`Recorded`).  From this it follows what an iteration over the files returns (`Reads`). -/

namespace OtapDataflow.Wal

open Bytes Word Frames Iterator List MultiFileWalIter Log Entry LogFile

variable {β : Type} {codec : Codec β} {options : WalWriterOptions}

/-- An accepted bundle comes before another one. -/
def Precedes (a b : RecordBundle β × WalOffset) : Prop :=
  a.2.nextOffset < b.2.nextOffset ∧ a.2.sequence < b.2.sequence

/-- The accepted bundles `acc` of a log whose oldest file starts at `base`, the `purged` ones
no longer on disk. -/
structure Recorded (purged acc : List (RecordBundle β × WalOffset)) (base : Nat) (w : WalWriter)
    (l : Log codec) : Prop where
  chained : Chained size base l.files
  inRange : l.active.stop size ≤ u64Max
  accepted : acc = purged ++ (place size base l.entries).map reported
  increasing : acc.Pairwise Precedes
  below : ∀ x ∈ acc, x.2.nextOffset ≤ l.active.stop size ∧ x.2.sequence < w.nextSequence
  counted : ∀ x ∈ acc, x.2.sequence.toNat < x.2.nextOffset
  next : w.nextSequence.toNat ≤ l.active.stop size
  whole : l.Whole

section

variable {purged acc : List (RecordBundle β × WalOffset)} {base : Nat} {w : WalWriter}
  {disk : Disk} {l : Log codec} {bundle : RecordBundle β} {body : Bytes}

theorem appended_nextSequence : (appended codec w disk body).1.nextSequence =
    w.nextSequence + 1 := by
  unfold appended
  split
  · rfl
  · rfl

theorem Log.whole_append {target id : Nat} {e : Entry codec} (h : l.Whole)
    (he : Readable codec e.bundle) : (l.append target id e).Whole := by
  refine ⟨?_, ?_⟩
  · unfold append
    split
    · exact h.1
    · refine forall_mem_append.mpr ⟨h.1, forall_mem_singleton.mpr ?_⟩
      exact append_ne_nil_of_right_ne_nil _ (cons_ne_nil _ _)
  · rw [entries_append]
    exact forall_mem_append.mpr ⟨h.2, forall_mem_singleton.mpr he⟩

/-- An append is recorded. -/
theorem Recorded.append (h : Recorded purged acc base w l)
    (hbody : encodeBody codec bundle w.nextSequence = .ok body) (disk : Disk) (id : Nat)
    (hread : Readable codec bundle) (hroom : l.active.stop size + (entryOf hbody).size ≤ u64Max) :
    Recorded purged (acc ++ [(bundle, ⟨l.active.stop size,
        l.active.stop size + (entryOf hbody).size, w.nextSequence⟩)]) base
      (appended codec w disk body).1
      (l.append w.coordinator.options.rotationTargetBytes id (entryOf hbody)) := by
  have hpos := (entryOf hbody).size_pos
  have hstop := l.stop_append w.coordinator.options.rotationTargetBytes id (entryOf hbody)
  have hcount := h.next
  have hnext : (w.nextSequence + 1).toNat = w.nextSequence.toNat + 1 := by
    have hone : (1 : UInt64).toNat = 1 := rfl
    rw [UInt64.toNat_add, hone]
    unfold u64Max at hroom
    exact Nat.mod_eq_of_lt (by omega)
  refine ⟨chained_append h.chained, hstop ▸ hroom, ?_, ?_, ?_, ?_, ?_, whole_append h.whole hread⟩
  · have hend : base + total size l.entries = l.active.stop size :=
      (active_stop h.chained).symm
    rw [h.accepted, entries_append, place_append, map_append, append_assoc, hend]
    simp only [place_cons, place_nil, map_cons, map_nil, reported,
      min_eq_left h.inRange, min_eq_left hroom]
    rfl
  · refine pairwise_append.mpr ⟨h.increasing, pairwise_singleton _ _, ?_⟩
    intro a ha b hb
    obtain ⟨hle, hlt⟩ := h.below a ha
    rw [mem_singleton.mp hb]
    exact ⟨lt_of_le_of_lt hle (Nat.lt_add_of_pos_right hpos), hlt⟩
  · rw [appended_nextSequence, hstop]
    refine forall_mem_append.mpr ⟨fun x hx => ?_, forall_mem_singleton.mpr ?_⟩
    · obtain ⟨hle, hlt⟩ := h.below x hx
      rw [UInt64.lt_iff_toNat_lt] at hlt ⊢
      omega
    · refine ⟨le_refl _, UInt64.lt_iff_toNat_lt.mpr ?_⟩
      show w.nextSequence.toNat < (w.nextSequence + 1).toNat
      omega
  · refine forall_mem_append.mpr ⟨h.counted, forall_mem_singleton.mpr ?_⟩
    show w.nextSequence.toNat < l.active.stop size + (entryOf hbody).size
    omega
  · rw [appended_nextSequence, hstop, hnext]
    omega

/-- A purge moves the entries of the files it drops to those that are gone. -/
theorem Recorded.purge (h : Recorded purged acc base w l) (cursor : Nat)
    {w' : WalWriter} (hw : w'.nextSequence = w.nextSequence) :
    ∃ gone base', Recorded (purged ++ gone) acc base' w' (l.purge cursor) ∧
      ∀ x ∈ gone, x.2.nextOffset ≤ cursor := by
  have hsplit : l.rotated.takeWhile (fun x => decide (min (x.2.stop size) u64Max ≤ cursor)) ++
      (l.purge cursor).rotated = l.rotated := takeWhile_append_dropWhile
  generalize hdrop : l.rotated.takeWhile
    (fun x => decide (min (x.2.stop size) u64Max ≤ cursor)) = dropped at hsplit
  have hbehind : ∀ x ∈ dropped, min (x.2.stop size) u64Max ≤ cursor := by
    intro x hx
    rw [← hdrop] at hx
    simpa using mem_takeWhile_imp hx
  have hfiles : l.files = dropped.map Prod.snd ++ (l.purge cursor).files := by
    rw [Log.files, Log.files, ← append_assoc, ← map_append, hsplit]
    rfl
  have hentries : l.entries = (dropped.map Prod.snd).flatMap Run.frames ++
      (l.purge cursor).entries := by
    rw [entries, entries, hfiles, flatMap_append]
  have hch := h.chained
  rw [hfiles] at hch
  obtain ⟨hgone, hkept⟩ := (Frames.chained_append size).mp hch
  refine ⟨(place size base ((dropped.map Prod.snd).flatMap Run.frames)).map reported,
    _, ⟨hkept, h.inRange, ?_, h.increasing, ?_, h.counted, hw ▸ h.next, ?_, ?_⟩, ?_⟩
  · rw [h.accepted, hentries, place_append, map_append, append_assoc]
    rfl
  · rw [hw]
    exact h.below
  · exact fun x hx => h.whole.1 x ((dropWhile_suffix _).subset hx)
  · intro e he
    refine h.whole.2 e ?_
    rw [hentries]
    exact mem_append_right _ he
  · intro x hx
    obtain ⟨⟨p, e⟩, hpe, rfl⟩ := mem_map.mp hx
    have hb := (place_bounds size hpe).2
    show min (p + e.size) u64Max ≤ cursor
    -- the last dropped file ends where the dropped entries end
    rcases eq_nil_or_concat dropped with rfl | ⟨init, y, rfl⟩
    · cases hpe
    have hy := hbehind y (by simp)
    have hend : y.2.stop size = base + total size
        (((init.concat y).map Prod.snd).flatMap Run.frames) := by
      have hlast := hgone
      rw [concat_eq_append, map_append] at hlast
      have hchain := ((Frames.chained_append size).mp hlast).2.1
      rw [Run.stop, hchain, concat_eq_append, map_append, flatMap_append, endOf]
      simp [add_assoc]
    omega

/-- A log on disk with its accepted bundles. -/
structure Held (purged acc : List (RecordBundle β × WalOffset)) (base : Nat) (w : WalWriter)
    (disk : Disk) (l : Log codec) : Prop
    extends Represents w disk l, Recorded purged acc base w l where
  rotationIds : 2 * w.coordinator.nextRotationId ≤ l.active.start + 2

/-- The room for a frame, from the position that the writer reports. -/
theorem Recorded.room (h : Recorded purged acc base w l) (hc : Counts w l.active)
    (hbody : encodeBody codec bundle w.nextSequence = .ok body)
    (hroom : w.coordinator.toWalPosition w.currentLen + frameLen codec bundle ≤ u64Max) :
    l.active.stop size + (entryOf hbody).size ≤ u64Max ∧
      offsetAt w body = ⟨l.active.stop size,
        l.active.stop size + (entryOf hbody).size, w.nextSequence⟩ := by
  have hoffset := hc.offsetAt_eq hbody
  have hsize : (entryOf hbody).size = frameLen codec bundle := by
    rw [size, (entryOf hbody).length_body]
    rfl
  have hpos : w.coordinator.toWalPosition w.currentLen = min (l.active.stop size) u64Max :=
    congrArg WalOffset.position hoffset
  rw [hpos, min_eq_left h.inRange, ← hsize] at hroom
  rw [min_eq_left h.inRange, min_eq_left hroom] at hoffset
  exact ⟨hroom, hoffset⟩

/-- The bundle is one that the reader accepts, and its entry ends within the range of
positions. -/
def Appendable (codec : Codec β) (s : WalWriter × Disk) (bundle : RecordBundle β) : Prop :=
  Readable codec bundle ∧
    s.1.coordinator.toWalPosition s.1.currentLen + frameLen codec bundle ≤ u64Max

/-- **One append on a held log**: it changes nothing, or the bundle is accepted and held. -/
theorem Held.appendBundle (h : Held purged acc base w disk l)
    (hfits : Appendable codec (w, disk) bundle) : let r := w.appendBundle codec disk bundle
    ∃ l' : Log codec,
      Held purged (acc ++ accepted [(bundle, r.2)]) base r.1.1 r.1.2 l' := by
  rcases appendBundle_cases codec w disk bundle with ⟨e, happ⟩ | ⟨body, hbody, happ⟩
  · rw [happ]
    refine ⟨l, ?_⟩
    simpa [accepted, Except.toOption] using h
  · rw [happ]
    obtain ⟨hfit, hoffset⟩ := h.toRecorded.room h.toCounts hbody hfits.2
    have hfree := rotationId_lt h.rotationIds h.inRange
    refine ⟨_, ⟨h.toRepresents.append hbody hfree, ?_,
      nextRotationId_append h.toCounts hbody h.rotationIds _⟩⟩
    have hacc : accepted [(bundle, (.ok (offsetAt w body) : Except WalError WalOffset))] =
        [(bundle, offsetAt w body)] := rfl
    rw [hacc, hoffset]
    exact h.toRecorded.append hbody disk _ hfits.1 hfit

theorem held_empty (h : WalWriter.open codec options Disk.empty = .ok (w, disk)) :
    Held [] [] 0 w disk (empty : Log codec) := by
  have hc := consistent_empty h
  obtain ⟨-, -, -, -, -, hsequence⟩ := open_empty h
  refine ⟨hc.toRepresents, ⟨⟨rfl, trivial⟩, hc.inRange, rfl, .nil, forall_mem_nil _,
    forall_mem_nil _, ?_, forall_mem_nil _, forall_mem_nil _⟩, hc.rotationIds⟩
  rw [hsequence]
  exact le_refl 0

end

/-! ## Reading a recorded log -/

/-- An iteration over all files returns the records and ends without an error. -/
def Reads (codec : Codec β) (disk : Disk) (records : List WalRecordBundle) : Prop :=
  ∃ reader, MultiFileWalReader.open disk = .ok reader ∧
    Yields (next codec disk) (reader.iterFrom 0) (records.map .ok)

section

variable {purged acc : List (RecordBundle β × WalOffset)} {base : Nat} {w : WalWriter}
  {disk : Disk} {l : Log codec}

/-- The records of the entries of a log. -/
def Log.records (base : Nat) (l : Log codec) : List WalRecordBundle :=
  (place size base l.entries).map fun e => e.2.recordAt e.1

theorem Log.records_eq (base : Nat) (l : Log codec) :
    l.records base = ((place size base l.entries).map reported).map
      fun x => recordOf codec x.1 x.2 := by
  rw [records, map_map]
  rfl

variable {hash : CfgHash} {tail : Bytes}
  {P : MultiFileWalIter → List (Except WalError WalRecordBundle) → Prop}
  {later : List (Except WalError WalRecordBundle)}

/-- An iteration from the start of a log returns all its entries, the active file's last, and
goes on with whatever comes after them. -/
theorem reads_log (hP : Backward (next codec disk) P)
    (hrot : OnDisk hash disk (l.rotated.map fun x => (some x.1, x.2)))
    (hact : disk.active = some (bytes hash l.active ++ tail))
    (hsmall : LogFile.Small l.active) (hch : Chained size base l.files) (hwhole : l.Whole)
    (hend : ∀ start, P ⟨[infoWith tail (none, l.active)],
      some ((readerAt hash l.active l.active.frames).extend tail), start⟩ later)
    (hnone : P ⟨[], none, 0⟩ later) :
    P (MultiFileWalReader.iterFrom ⟨(l.rotated.map fun x => infoOf (some x.1, x.2)) ++
        [infoWith tail (none, l.active)]⟩ 0) (recordsFrom base l.entries ++ later) := by
  obtain ⟨hchr, hstart, -⟩ := (Frames.chained_append size).mp hch
  have hentries : l.entries =
      entriesOf (l.rotated.map fun x => ((some x.1, x.2) : Located codec)) ++
        l.active.frames := by
    simp [Log.entries, Log.files, entriesOf, flatMap_map]
  have hread : ∀ e ∈ l.active.frames, Readable codec e.bundle := fun e he =>
    hwhole.2 e (by rw [hentries]; exact mem_append_right _ he)
  have hmax : 0 < u64Max := by decide
  -- the active file, from wherever the rotated files have left off
  have hactive : ∀ start ≤ min l.active.start u64Max,
      P ⟨[infoWith tail (none, l.active)], none, start⟩
        (recordsFrom l.active.start l.active.frames ++ later) := by
    intro start hle
    have hbelow : start ≤ min (l.active.stop size) u64Max := by
      unfold Run.stop
      omega
    have hframes : l.active.frames = [] ++ l.active.frames := (nil_append _).symm
    have hinside := reads_entries hP tail hsmall (fun start _ => hend start) hframes hread hbelow
    refine hP.congr ?_ hinside
    have hopen : openFile disk (infoWith tail (none, l.active)) start =
        some ((readerAt hash l.active []).extend tail) := by
      have hfile : disk.file? (infoWith tail (none, l.active)).rotationId =
        some (bytes hash l.active ++ tail) := hact
      unfold openFile
      rw [hfile, Option.bind_some, open_extend]
      show some (((readerAt hash l.active []).seekToPosition
        (max start (min l.active.start u64Max))).extend tail) = _
      rw [seekToPosition_start hle]
    simp [MultiFileWalIter.next, MultiFileWalIter.nextFrom, hopen]
  unfold MultiFileWalReader.iterFrom
  rcases hcases : l.rotated with _ | ⟨x, rot⟩
  · rw [hcases] at hentries hstart
    have hbase : l.active.start = base := hstart
    rw [hentries]
    by_cases hempty : min (l.active.stop size + tail.length) u64Max ≤ 0
    · have hframes : l.active.frames = [] := by
        have hlen := length_le_total size size_pos l.active.frames
        unfold Run.stop at hempty
        exact length_eq_zero_iff.mp (by omega)
      have hdrop : [infoWith tail (none, l.active)].dropWhile
          (fun f => decide (f.walPositionEnd ≤ 0)) = [] :=
        dropWhile_cons_of_pos (decide_eq_true hempty)
      rwa [hframes, map_nil, nil_append, hdrop]
    · have hdrop : [infoWith tail (none, l.active)].dropWhile
          (fun f => decide (f.walPositionEnd ≤ 0)) = [infoWith tail (none, l.active)] :=
        dropWhile_cons_of_neg (mt of_decide_eq_true hempty)
      rw [map_nil, nil_append, hdrop, ← hbase]
      exact hactive 0 (Nat.zero_le _)
  · have hpos : ¬ min (x.2.stop size) u64Max ≤ 0 := by
      have hlen := length_le_total size size_pos x.2.frames
      have hne := length_pos_iff.mpr (hwhole.1 x (by rw [hcases]; exact mem_cons_self))
      unfold Run.stop
      omega
    have hdrop : ((l.rotated.map fun x => infoOf (some x.1, x.2)) ++
        [infoWith tail (none, l.active)]).dropWhile (fun f => decide (f.walPositionEnd ≤ 0)) =
          (l.rotated.map fun x => infoOf (some x.1, x.2)) ++ [infoWith tail (none, l.active)] := by
      rw [hcases]
      exact dropWhile_cons_of_neg (mt of_decide_eq_true hpos)
    have hmore : ∀ start ≤ min (base + total size (entriesOf
        (l.rotated.map fun x => ((some x.1, x.2) : Located codec)))) u64Max,
        P ⟨[infoWith tail (none, l.active)], none, start⟩
          (recordsFrom l.active.start l.active.frames ++ later) := by
      intro start hle
      refine hactive start ?_
      rw [hstart, endOf]
      simpa [entriesOf, flatMap_map] using hle
    have hfiles := reads_files hP (by simpa [Function.comp_def] using hchr) hrot
      (fun e he => hwhole.2 e (by rw [hentries]; exact mem_append_left _ he)) hmore
      (Nat.zero_le (min base u64Max))
    rw [← hcases, hdrop, hentries, recordsFrom_append, append_assoc]
    rw [map_map] at hfiles
    have hbase : base + total size (entriesOf
        (l.rotated.map fun x => ((some x.1, x.2) : Located codec))) = l.active.start := by
      rw [hstart, endOf]
      simp [entriesOf, flatMap_map]
    rwa [hbase]

/-- **A recorded log reads back**: an iteration returns exactly the entries on disk. -/
theorem Recorded.reads (h : Recorded purged acc base w l) (hrep : Represents w disk l) :
    Reads codec disk (l.records base) := by
  have hdisk := onDisk_of_represents (s := (w, disk)) hrep
  have hact : disk.active =
      some (bytes w.coordinator.options.segmentCfgHash l.active ++ []) := by
    rw [append_nil]
    exact hrep.activeDisk
  refine ⟨_, open_torn hrep.rotatedDisk hact h.chained, ?_⟩
  have hend : ∀ start, Yields (MultiFileWalIter.next codec disk)
      ⟨[infoWith [] (none, l.active)], some ((readerAt w.coordinator.options.segmentCfgHash
        l.active l.active.frames).extend []), start⟩ [] := by
    intro start
    refine .done ?_
    simp [MultiFileWalIter.next, MultiFileWalIter.nextFrom, WalReader.extend_nil, readNextEntry_end]
  have hall := reads_log Yields.backward (fun x hx => hdisk x (mem_append_left _ hx)) hact
    (hdisk (none, l.active) (mem_append_right _ mem_cons_self)).2 h.chained h.whole
    hend (.done rfl)
  rw [append_nil] at hall
  rwa [records, map_map]

/-- With whatever bytes after its last entry, a log returns its entries first. -/
theorem Recorded.starts (h : Recorded purged acc base w l) (hrep : Represents w disk l)
    (tail : Bytes) : let torn : Disk := { disk with active := disk.active.map (· ++ tail) }
    ∃ reader, MultiFileWalReader.open torn = .ok reader ∧
      Starts (MultiFileWalIter.next codec torn) (reader.iterFrom 0)
        ((l.records base).map .ok) := by
  intro torn
  have hdisk := onDisk_of_represents (s := (w, disk)) hrep
  have hact : torn.active =
      some (bytes w.coordinator.options.segmentCfgHash l.active ++ tail) := by
    show disk.active.map (· ++ tail) = _
    rw [hrep.activeDisk]
    rfl
  refine ⟨_, open_torn hrep.rotatedDisk hact h.chained, ?_⟩
  have hrot : OnDisk w.coordinator.options.segmentCfgHash torn
      (l.rotated.map fun x => (some x.1, x.2)) := by
    intro x hx
    obtain ⟨y, -, rfl⟩ := mem_map.mp hx
    exact hdisk _ (mem_append_left _ hx)
  have hnil : ∀ it, Starts (MultiFileWalIter.next codec torn) it [] := .nil
  have hall := reads_log Starts.backward hrot hact
    (hdisk (none, l.active) (mem_append_right _ mem_cons_self)).2 h.chained h.whole
    (fun _ => hnil _) (hnil _)
  rw [append_nil] at hall
  rwa [records, map_map]

end

theorem open_freshLog :
    WalWriter.open sizeCodec defaultOptions Disk.empty = .ok (freshLog defaultOptions) := rfl

/-! # Appends whose write fails

`write_entry` hands the frame to `write_all` of a `tokio::fs::File`.  The file takes at most two
mebibytes at a time, lets another thread write them and returns: the next call on the file reports
that the write has failed.  For a frame of one piece that is the flush at the end of
`append_bundle`, when the sequence number, the length and the boundaries have advanced already, or,
if no flush is due, the write of the next append.  The bytes that were written stay in the file;
nothing truncates it or seeks back.  Entries accepted before a torn write are still returned by a
scan; an append after it is not safe any more (`append_after_torn_write_lost`). -/

open Machine

inductive FlushPolicy
  | immediate
  | everyNBytes (threshold : Nat)
  | everyDuration (interval : Nat)
  | bytesOrDuration (bytes duration : Nat)

/-- Whether `maybe_flush` flushes. -/
def FlushPolicy.due (unflushed elapsed : Nat) : FlushPolicy → Bool
  | .immediate => true
  | .everyNBytes threshold => threshold ≤ unflushed
  | .everyDuration interval => interval ≤ elapsed
  | .bytesOrDuration bytes duration => bytes ≤ unflushed || duration ≤ elapsed

/-- What the file takes at a time. -/
def maxBufSize : Nat := 2 * 1024 * 1024

/-- A failing write: how many bytes it has written and the error. -/
structure WriteFault where
  written : Nat
  error : IoError

/-- A call of `append_bundle`, with the fault of its write if there is one, and the clock. -/
structure Attempt (β : Type) where
  bundle : RecordBundle β
  fault : Option WriteFault
  now : Nat

/-- The fault, if it comes before the end of the frame. -/
def Attempt.tear (attempt : Attempt β) (frame : Bytes) : Option WriteFault :=
  attempt.fault.filter fun fault => fault.written < frame.length

/-- The fault is in a piece that is not the last one, so that `write_all` itself reports it. -/
def WriteFault.early (fault : WriteFault) (frame : Bytes) : Bool :=
  fault.written / maxBufSize < (frame.length - 1) / maxBufSize

/-- The writer and the files, with the state of the active file. -/
structure ActiveLog where
  writer : WalWriter
  disk : Disk
  /-- The error of a write that no call has reported yet. -/
  pending : Option IoError
  unflushedBytes : Nat
  lastFlush : Nat
  /-- A write has failed, and the file is not what the writer takes it to be. -/
  torn : Bool

/-- The body that `append_bundle` gets to write. -/
def WalWriter.toWrite (codec : Codec β) (w : WalWriter) (bundle : RecordBundle β) :
    Except WalError Bytes :=
  match encodeBody codec bundle w.nextSequence with
  | .error e => .error e
  | .ok body =>
    match w.coordinator.preflightAppend w.currentLen (4 + body.length + 4) with
    | .error e => .error e
    | .ok () => .ok body

/-- The call flushes the file, at its end or before a rotation. -/
def ActiveLog.flushes (codec : Codec β) (policy : FlushPolicy) (s : ActiveLog) (now : Nat)
    (body : Bytes) : Bool :=
  let w := (s.writer.written codec s.disk body).1
  policy.due (saturatingAdd s.unflushedBytes (4 + body.length + 4)) (now - s.lastFlush) ||
    w.coordinator.options.rotationTargetBytes < w.currentLen - w.coordinator.activeHeaderSize

/-- `append_bundle` when the write of the frame may fail. -/
def ActiveLog.append (codec : Codec β) (policy : FlushPolicy) (s : ActiveLog)
    (attempt : Attempt β) : ActiveLog × Except WalError WalOffset :=
  match s.writer.toWrite codec attempt.bundle with
  | .error e => (s, .error e)
  | .ok body =>
    match s.pending with
    | some e => ({ s with pending := none }, .error (.io e))
    | none =>
      let flushed := s.flushes codec policy attempt.now body
      let unflushed := saturatingAdd s.unflushedBytes (4 + body.length + 4)
      match attempt.tear (frame codec body) with
      | none =>
        let result := s.writer.appendBundle codec s.disk attempt.bundle
        ({ s with
            writer := result.1.1
            disk := result.1.2
            unflushedBytes := if flushed then 0 else unflushed
            lastFlush := if flushed then attempt.now else s.lastFlush },
          result.2)
      | some fault =>
        let early := fault.early (frame codec body)
        let disk := { s.disk with
          active := some (s.disk.active.getD [] ++ (frame codec body).take fault.written) }
        let torn := s.torn || !early || 0 < fault.written
        if early then ({ s with disk, torn }, .error (.io fault.error))
        else
          let s := { s with
            writer := (s.writer.written codec s.disk body).1, disk, torn,
            unflushedBytes := unflushed }
          if flushed then (s, .error (.io fault.error))
          else ({ s with pending := some fault.error }, .ok (offsetAt s.writer body))

/-- The bundles for which an attempt returned `Ok`, with the offsets reported for them. -/
def acceptedAttempts (history : List (Attempt β × Except WalError WalOffset)) :
    List (RecordBundle β × WalOffset) :=
  accepted (history.map fun x => (x.1.bundle, x.2))

/-- A scan of all files returns the accepted bundles, at the offsets reported for them, before
anything else. -/
def ReturnsAccepted (codec : Codec β) (disk : Disk) (log : List (RecordBundle β × WalOffset)) :
    Prop :=
  ∃ reader, MultiFileWalReader.open disk = .ok reader ∧
    Starts (MultiFileWalIter.next codec disk) (reader.iterFrom 0)
      (log.map fun x => .ok (recordOf codec x.1 x.2))

/-- The appends that are safe.  A write that fails is reported by the same call; a write that
succeeds is not behind one that has failed, and its bundle is one that the reader accepts, within
the range of positions. -/
def SafeAppend (codec : Codec β) (policy : FlushPolicy) (s : ActiveLog) (attempt : Attempt β) :
    Prop :=
  ∀ body, s.writer.toWrite codec attempt.bundle = .ok body →
    match attempt.tear (frame codec body) with
    | some fault =>
      fault.early (frame codec body) = true ∨ s.flushes codec policy attempt.now body = true
    | none => s.torn = false ∧ Appendable codec (s.writer, s.disk) attempt.bundle

/-- The log is on disk with the bytes of failed writes after its last entry, if there are any; if
none has failed the writer is the one of the log. -/
def HeldTorn (s : ActiveLog) (log : List (RecordBundle β × WalOffset)) (l : Log codec) : Prop :=
  ∃ (w : WalWriter) (disk : Disk) (tail : Bytes),
    s.disk = { disk with active := disk.active.map (· ++ tail) } ∧ Held [] log 0 w disk l ∧
      (s.torn = false → s.writer = w ∧ tail = [])

section

variable {s : ActiveLog} {log : List (RecordBundle β × WalOffset)} {l : Log codec}
  {attempt : Attempt β} {policy : FlushPolicy}

/-- Without a failed write, the log is held as it is. -/
theorem HeldTorn.held (h : HeldTorn s log l) (htorn : s.torn = false) :
    Held [] log 0 s.writer s.disk l := by
  obtain ⟨w, disk, tail, hdisk, hheld, hsame⟩ := h
  obtain ⟨rfl, rfl⟩ := hsame htorn
  have hdisk : s.disk = disk := by
    rw [hdisk]
    simp
  rwa [hdisk]

theorem Held.torn (h : Held [] log 0 s.writer s.disk l) : HeldTorn s log l :=
  ⟨s.writer, s.disk, [], by simp, h, fun _ => ⟨rfl, rfl⟩⟩

/-- More bytes after the last entry. -/
theorem HeldTorn.tear (h : HeldTorn s log l) (bytes : Bytes) {s' : ActiveLog}
    (hdisk : s'.disk = { s.disk with active := some (s.disk.active.getD [] ++ bytes) })
    (hsame : s'.torn = false → s.torn = false ∧ s'.writer = s.writer ∧ bytes = []) :
    HeldTorn s' log l := by
  obtain ⟨w, disk, tail, hs, hheld, hw⟩ := h
  refine ⟨w, disk, tail ++ bytes, ?_, hheld, fun htorn => ?_⟩
  · rw [hdisk, hs, hheld.activeDisk]
    simp
  · obtain ⟨hs', hwriter, rfl⟩ := hsame htorn
    obtain ⟨rfl, rfl⟩ := hw hs'
    exact ⟨hwriter, rfl⟩

theorem acceptedAttempts_append (past : List (Attempt β × Except WalError WalOffset))
    (result : Except WalError WalOffset) :
    acceptedAttempts (past ++ [(attempt, result)]) =
      acceptedAttempts past ++ accepted [(attempt.bundle, result)] := by
  simp [acceptedAttempts, accepted]

theorem heldTorn_step {past : List (Attempt β × Except WalError WalOffset)}
    (h : HeldTorn s (acceptedAttempts past) l) (hsafe : SafeAppend codec policy s attempt) :
    ∃ l' : Log codec, HeldTorn (s.append codec policy attempt).1
      (acceptedAttempts (past ++ [(attempt, (s.append codec policy attempt).2)])) l' := by
  have hrefused : ∀ {s' : ActiveLog} {e : WalError}, HeldTorn s' (acceptedAttempts past) l →
      ∃ l' : Log codec, HeldTorn s'
        (acceptedAttempts past ++ accepted [(attempt.bundle, .error e)]) l' := by
    intro s' e hs'
    exact ⟨l, by simpa [accepted, Except.toOption] using hs'⟩
  rw [acceptedAttempts_append, ActiveLog.append]
  cases hwrite : s.writer.toWrite codec attempt.bundle with
  | error e => exact hrefused h
  | ok body =>
    have hsafe := hsafe body hwrite
    dsimp only
    cases hpending : s.pending with
    | some e => exact hrefused h
    | none =>
      dsimp only
      cases htear : attempt.tear (frame codec body) with
      | none =>
        rw [htear] at hsafe
        obtain ⟨l', hl'⟩ := (h.held hsafe.1).appendBundle hsafe.2
        exact ⟨l', Held.torn hl'⟩
      | some fault =>
        rw [htear] at hsafe
        dsimp only
        split
        · rename_i hearly
          refine hrefused (h.tear _ rfl fun htorn => ?_)
          have hnone : s.torn = false ∧ fault.written = 0 := by simpa [hearly] using htorn
          exact ⟨hnone.1, rfl, by rw [hnone.2, take_zero]⟩
        · rename_i hlate
          have hflushed := hsafe.resolve_left hlate
          rw [if_pos hflushed]
          exact hrefused (h.tear _ rfl fun htorn => by simp [hlate] at htorn)

end

/-- The log as opening gives it. -/
def ActiveLog.of (s : WalWriter × Disk) : ActiveLog := ⟨s.1, s.2, none, 0, 0, false⟩

/-- **Failed appends and scans.**  In every run of safe appends on a fresh log, whichever of
their writes fail and whatever prefixes they leave, a scan returns every bundle whose append
returned `Ok` at the offset that was reported. -/
theorem failed_append_harmless {w : WalWriter} {disk : Disk}
    (hopen : WalWriter.open codec options Disk.empty = .ok (w, disk)) (policy : FlushPolicy)
    {attempts : List (Attempt β)}
    (hsafe : Machine.Meets (ActiveLog.append codec policy) (SafeAppend codec policy)
      (.of (w, disk)) attempts) :
    ReturnsAccepted codec (final (ActiveLog.append codec policy) (.of (w, disk)) attempts).disk
      (acceptedAttempts (history (ActiveLog.append codec policy) (.of (w, disk)) attempts)) := by
  have hstart : HeldTorn (.of (w, disk)) (acceptedAttempts ([] : List (Attempt β ×
      Except WalError WalOffset))) (Log.empty : Log codec) :=
    Held.torn (held_empty hopen)
  obtain ⟨l, w', disk', tail, hdisk, hheld, -⟩ := history_invariant_of_meets
    (fun s past => ∃ l : Log codec, HeldTorn s (acceptedAttempts past) l)
    (by rintro s attempt past ⟨l, hl⟩ hok; exact heldTorn_step hl hok) ⟨Log.empty, hstart⟩ hsafe
  have hstarts := hheld.toRecorded.starts hheld.toRepresents tail
  rwa [← hdisk, Log.records_eq, ← nil_append ((place _ _ _).map _), ← hheld.accepted,
    map_map] at hstarts

/-- A write without a fault, on a log without failed writes. -/
theorem SafeAppend.whole {policy : FlushPolicy} {s : ActiveLog} {bundle : RecordBundle β}
    {now : Nat} (htorn : s.torn = false)
    (hfits : Appendable codec (s.writer, s.disk) bundle) :
    SafeAppend codec policy s ⟨bundle, none, now⟩ :=
  fun _ _ => ⟨htorn, hfits⟩

/-- A fault within the length field, when every write is flushed. -/
theorem SafeAppend.cut {s : ActiveLog} {bundle : RecordBundle β} {fault : WriteFault} {now : Nat}
    (hshort : fault.written < 4) : SafeAppend codec .immediate s ⟨bundle, some fault, now⟩ := by
  intro body _
  have htear : (⟨bundle, some fault, now⟩ : Attempt β).tear (frame codec body) = some fault := by
    have hlen : fault.written < (frame codec body).length := by
      rw [frame, length_append, length_append, length_leBytes, length_leBytes]
      omega
    simp [Attempt.tear, Option.filter, hlen]
  rw [htear]
  exact .inr rfl

/-- Two appends, then two that run out of space. -/
theorem failed_append_harmless_last :
    let attempts : List (Attempt Nat) := [⟨sizedBundle 3, none, 0⟩, ⟨sizedBundle 2, none, 1⟩,
      ⟨sizedBundle 3, some ⟨3, .other⟩, 2⟩, ⟨sizedBundle 3, some ⟨0, .other⟩, 3⟩]
    ReturnsAccepted sizeCodec
      (final (ActiveLog.append sizeCodec .immediate) (.of (freshLog defaultOptions)) attempts).disk
      (acceptedAttempts (history (ActiveLog.append sizeCodec .immediate)
        (.of (freshLog defaultOptions)) attempts)) := by
  have hread : ∀ n < 4, Readable sizeCodec (sizedBundle n) := by
    intro n hn
    rw [readable_sizedBundle]
    exact (Nat.add_lt_add_left hn 67).le.trans (by decide)
  refine failed_append_harmless open_freshLog _ ⟨.whole rfl ⟨hread 3 (by decide), ?_⟩,
    .whole ?_ ⟨hread 2 (by decide), ?_⟩, .cut (by decide), .cut (by decide), trivial⟩ <;>
    decide +kernel

/-- **An append after a torn write is lost.**  The first append fails after one byte, when the
writer has advanced by the whole frame.  The second one returns `Ok` with position 78, but the file
has one byte in front of its frame: a scan takes the leftover byte for the start of a length and
stops with an error. -/
theorem append_after_torn_write_lost :
    let attempts : List (Attempt Nat) :=
      [⟨sizedBundle 3, some ⟨1, .other⟩, 0⟩, ⟨sizedBundle 3, none, 0⟩]
    acceptedAttempts (history (ActiveLog.append sizeCodec .immediate)
        (.of (freshLog defaultOptions)) attempts) = [(sizedBundle 3, ⟨78, 156, 1⟩)] ∧
      ¬ ReturnsAccepted sizeCodec
        (final (ActiveLog.append sizeCodec .immediate) (.of (freshLog defaultOptions))
          attempts).disk
        (acceptedAttempts (history (ActiveLog.append sizeCodec .immediate)
          (.of (freshLog defaultOptions)) attempts)) := by
  intro attempts
  have haccepted : acceptedAttempts (history (ActiveLog.append sizeCodec .immediate)
      (.of (freshLog defaultOptions)) attempts) = [(sizedBundle 3, ⟨78, 156, 1⟩)] := rfl
  refine ⟨haccepted, ?_⟩
  rw [haccepted]
  rintro ⟨reader, hreader, hstarts⟩
  have hfiles : MultiFileWalReader.discover (final (ActiveLog.append sizeCodec .immediate)
      (.of (freshLog defaultOptions)) attempts).disk = .ok [⟨none, 0, 79⟩] := by
    decide +kernel
  have hnext : (MultiFileWalIter.next sizeCodec
      (final (ActiveLog.append sizeCodec .immediate) (.of (freshLog defaultOptions)) attempts).disk
      ⟨[⟨none, 0, 79⟩], none, 0⟩).all (fun x => !x.1.isOk) = true := by
    decide +kernel
  rw [MultiFileWalReader.open, hfiles] at hreader
  cases hreader
  rw [Option.all_eq_true] at hnext
  cases hstarts with
  | cons hfirst _ =>
    have hok := hnext _ (by simpa [MultiFileWalReader.iterFrom] using hfirst)
    cases hok

/-! # Recovery after a crash

A crash can leave the active file cut off at any byte after its header.  Reopening then keeps
the entries that were written completely and cuts off the rest.  The next sequence number is
inferred from the last entry that is left, so it is above all earlier ones only if some entry is
left and the cursor has not passed what the crash has cut off (`reopen_reuses_sequence`). -/

open Session

/-- The disk after a crash: the active file is cut off after `cut` bytes. -/
def Disk.truncateActive (disk : Disk) (cut : Nat) : Disk :=
  { disk with active := disk.active.map (List.take cut) }

/-! ## Cutting off a file -/

/-- A cut leaves some complete frames and a torn one. -/
theorem take_data (entries : List (Entry codec)) (n : Nat) :
    ∃ pre post tail, entries = pre ++ post ∧ (data entries).take n =
      data pre ++ tail ∧ Torn codec tail ∧ total size pre ≤ n ∧
      ∀ e ∈ post.head?, n < total size pre + e.size := by
  induction entries generalizing n with
  | nil => exact ⟨[], [], [], rfl, by simp [data], .inl rfl, Nat.zero_le _, by simp⟩
  | cons e es ih =>
    have hframe : (frame codec e.body).length = e.size := by
      simp [frame, size]
      omega
    have hdata : data (e :: es) = frame codec e.body ++ data es := rfl
    rw [hdata, take_append, hframe]
    by_cases hn : n < e.size
    · refine ⟨[], e :: es, (frame codec e.body).take n, rfl, ?_, .inr ⟨e, n, hn, rfl⟩,
        Nat.zero_le _, ?_⟩
      · rw [Nat.sub_eq_zero_of_le hn.le, take_zero, append_nil]
        rfl
      · simpa using hn
    · obtain ⟨pre, post, tail, rfl, htake, htorn, hle, hnext⟩ := ih (n - e.size)
      refine ⟨e :: pre, post, tail, rfl, ?_, htorn, ?_, ?_⟩
      · rw [htake, take_of_length_le (by omega), ← append_assoc]
        rfl
      · rw [total_cons]
        omega
      · intro e' he'
        have := hnext e' he'
        rw [total_cons]
        omega

/-- The file that is left of a file after a cut. -/
theorem take_bytes (hash : CfgHash) (f : LogFile codec) {cut : Nat} (hcut : headerV1Len ≤ cut) :
    ∃ pre post tail, f.frames = pre ++ post ∧ (bytes hash f).take cut =
      bytes hash ⟨f.start, pre⟩ ++ tail ∧ Torn codec tail ∧
      headerV1Len + total size pre ≤ cut ∧
      ∀ e ∈ post.head?, cut < headerV1Len + total size pre + e.size := by
  obtain ⟨pre, post, tail, hf, htake, htorn, hle, hnext⟩ := take_data f.frames (cut - headerV1Len)
  refine ⟨pre, post, tail, hf, ?_, htorn, by omega, ?_⟩
  · rw [bytes, bytes, take_append, WalHeader.length_encode, htake,
      take_of_length_le (by rw [WalHeader.length_encode]; exact hcut), append_assoc]
  · intro e he
    have := hnext e he
    omega

/-! ## The run before the crash -/

/-- The bundles accepted in a history of calls, with the offsets that were reported for them. -/
def acceptedOps (past : List (Op β × Ret)) : List (RecordBundle β × WalOffset) :=
  past.filterMap fun x =>
    match x.1, x.2 with
    | .append bundle, .appended (.ok offset) => some (bundle, offset)
    | _, _ => none

/-- The calls between an open and the crash. -/
def Running (codec : Codec β) (s : Session) : Op β → Prop
  | .append bundle => ∀ w ∈ s.writer, Appendable codec (w, s.disk) bundle
  | .persist _ => True
  | .reopen => False

/-- What such calls maintain: the log is consistent, its accepted bundles are recorded, and
those that are gone lie behind the cursor. -/
def Tracks (codec : Codec β) (options : WalWriterOptions) (s : Session)
    (past : List (Op β × Ret)) : Prop :=
  ∃ (w : WalWriter) (l : Log codec) (purged : List (RecordBundle β × WalOffset)) (base : Nat),
    s.writer = some w ∧ Consistent codec options w s.disk l ∧
    Recorded purged (acceptedOps past) base w l ∧
    ∀ x ∈ purged, x.2.nextOffset ≤ w.coordinator.cursorPosition

theorem tracks_step {s : Session} {past : List (Op β × Ret)} {op : Op β}
    (h : Tracks codec options s past) (hrun : Running codec s op) :
    Tracks codec options (step codec options s op).1
      (past ++ [(op, (step codec options s op).2)]) := by
  obtain ⟨w, l, purged, base, hw, hc, hrec, hgone⟩ := h
  cases op with
  | append bundle =>
    simp only [step, hw]
    rcases appendBundle_cases codec w s.disk bundle with ⟨e, happ⟩ | ⟨body, hbody, happ⟩
    · rw [happ]
      have hsame : acceptedOps (past ++ [(.append bundle, .appended (.error e))]) =
        acceptedOps past := by simp [acceptedOps]
      exact ⟨w, l, purged, base, rfl, hc, by rw [hsame]; exact hrec, hgone⟩
    · rw [happ]
      obtain ⟨hread, hroom⟩ := hrun w hw
      obtain ⟨hfit, hoffset⟩ := hrec.room hc.toCounts hbody hroom
      obtain ⟨hnew, hcursor⟩ := hc.append hbody hfit
      have hacc : acceptedOps (past ++ [(.append bundle, .appended (.ok (offsetAt w body)))]) =
        acceptedOps past ++ [(bundle, offsetAt w body)] := by simp [acceptedOps]
      refine ⟨_, _, purged, base, rfl, hnew, ?_, ?_⟩
      · rw [hacc, hoffset]
        exact hrec.append hbody s.disk _ hread hfit
      · rwa [hcursor]
  | persist cursor =>
    simp only [step, hw]
    have hsame : ∀ ret, acceptedOps (past ++ [(.persist cursor, ret)]) = acceptedOps past := by
      simp [acceptedOps]
    cases hvalid : w.coordinator.validateCursor w.currentLen cursor with
    | error e =>
      simp only [WalWriter.persistCursor, hvalid]
      exact ⟨w, l, purged, base, rfl, hc, by rw [hsame]; exact hrec, hgone⟩
    | ok u =>
      obtain ⟨c, disk', hpersist, hnew, hpos, hle⟩ := hc.persist hvalid
      rw [hpersist]
      obtain ⟨gone, base', hrec', hbehind⟩ := hrec.purge cursor.safeOffset
        (show ({ w with coordinator := c } : WalWriter).nextSequence = w.nextSequence from rfl)
      refine ⟨_, _, purged ++ gone, base', rfl, hnew, by rw [hsame]; exact hrec', ?_⟩
      intro x hx
      rw [hpos]
      rcases mem_append.mp hx with hx | hx
      · exact (hgone x hx).trans hle
      · exact hbehind x hx
  | reopen => exact absurd hrun id

/-! ## The crash -/

/-- The position in the log at which the active file was cut off. -/
def cutPosition (disk : Disk) (cut : Nat) : Nat :=
  (disk.active.bind headerStart).getD 0 + (cut - headerV1Len)

/-- The crashes after which no sequence number is used again.  The oldest rotated file starts
at zero, so that a reopening finds its positions; the cursor does not cover what is cut off;
and some entry is left, or the cursor covers none. -/
def CrashSafe (codec : Codec β) (disk : Disk) (cut : Nat) : Prop :=
  (∀ x ∈ disk.rotated.entries.head?, headerStart x.2 = some 0) ∧
    persistedCursor codec disk ≤ cutPosition disk cut ∧
    (persistedCursor codec disk = 0 ∨ ∃ records, Reads codec disk records ∧
      ∃ r ∈ records, r.nextOffset ≤ cutPosition disk cut)

/-- What a reopening makes of the files.  It keeps exactly the entries that end at or before
the cut, and bundles that are appended later are read back after them, with higher sequence
numbers than those kept and those covered by the cursor. -/
def Recovers (codec : Codec β) (options : WalWriterOptions) (disk : Disk)
    (past : List (Op β × Ret)) (cut : Nat) : Prop :=
  ∃ w disk' kept lost, WalWriter.open codec options (disk.truncateActive cut) = .ok (w, disk') ∧
    Reads codec disk (kept ++ lost) ∧
    (∀ r ∈ kept, r.nextOffset ≤ cutPosition disk cut) ∧
    (∀ r ∈ lost, cutPosition disk cut < r.nextOffset) ∧
    Reads codec disk' kept ∧ w.currentLen ≤ cut ∧
    disk'.active = disk.active.map (List.take w.currentLen) ∧
    ∀ bundles, Machine.Meets (appendStep codec) (Appendable codec) (w, disk') bundles →
      let later := accepted (history (appendStep codec) (w, disk') bundles)
      Reads codec (final (appendStep codec) (w, disk') bundles).2
          (kept ++ later.map fun x => recordOf codec x.1 x.2) ∧
        ∀ x ∈ later, (∀ r ∈ kept, r.sequence < x.2.sequence) ∧
          ∀ y ∈ acceptedOps past, y.2.nextOffset ≤ persistedCursor codec disk →
            y.2.sequence < x.2.sequence

section

variable {purged acc : List (RecordBundle β × WalOffset)} {base : Nat} {w : WalWriter}
  {disk : Disk} {l : Log codec} {pre post : List (Entry codec)}

theorem Log.entries_cut (hf : l.active.frames = pre ++ post) :
    l.entries = (l.cut pre).entries ++ post := by
  simp [entries, files, cut, hf]

/-- **What is left is recorded again**, if some entry is left or nothing was purged. -/
theorem Recorded.cut (h : Recorded purged acc base w l) (hf : l.active.frames = pre ++ post)
    (hleft : (l.cut pre).entries = [] → purged = []) {w' : WalWriter}
    (hw : w'.nextSequence = (l.cut pre).nextSequence) :
    Recorded purged (purged ++ (place size base (l.cut pre).entries).map reported) base w'
      (l.cut pre) := by
  have hentries := entries_cut hf
  have hch := chained_cut h.chained pre
  have hstop : (l.cut pre).active.stop size ≤ l.active.stop size := by
    show l.active.start + total size pre ≤ l.active.start + total size l.active.frames
    rw [hf, total_append]
    omega
  have hsub : (purged ++ (place size base (l.cut pre).entries).map reported).Sublist acc := by
    rw [h.accepted, hentries, place_append, map_append, ← append_assoc]
    exact sublist_append_left _ _
  have hrange := hstop.trans h.inRange
  have hwhole : (l.cut pre).Whole :=
    ⟨h.whole.1, fun e he => h.whole.2 e (by rw [hentries]; exact mem_append_left _ he)⟩
  have hincreasing := h.increasing.sublist hsub
  have hcounted := fun x hx => h.counted x (hsub.subset hx)
  rcases eq_nil_or_concat (l.cut pre).entries with hnil | ⟨init, e, hlast⟩
  · obtain rfl := hleft hnil
    have hzero : w'.nextSequence = 0 := by
      rw [hw, nextSequence, hnil]
      rfl
    refine ⟨hch, hrange, rfl, hincreasing, ?_, hcounted, ?_, hwhole⟩
    · rw [hnil]
      exact forall_mem_nil _
    · rw [hzero]
      exact Nat.zero_le _
  · rw [concat_eq_append] at hlast
    have hend : base + total size init + e.size = (l.cut pre).active.stop size := by
      rw [active_stop hch, hlast, total_append, total_cons, total_nil]
      omega
    -- the last entry that is left comes after all others and ends where the log ends
    obtain ⟨y, hy⟩ : ∃ y, y = reported (base + total size init, e) := ⟨_, rfl⟩
    have hnext : y.2.nextOffset = (l.cut pre).active.stop size := by
      rw [hy, ← hend]
      exact min_eq_left (by rw [hend]; exact hrange)
    have hplaced : purged ++ (place size base (l.cut pre).entries).map reported =
        (purged ++ (place size base init).map reported) ++ [y] := by
      rw [hlast, place_append, map_append, ← append_assoc, hy]
      rfl
    have hcount : e.sequence.toNat < (l.cut pre).active.stop size := by
      rw [← hnext]
      have := hcounted y (by rw [hplaced]; exact mem_append_right _ mem_cons_self)
      rwa [hy] at this ⊢
    have hsequence : w'.nextSequence.toNat = e.sequence.toNat + 1 := by
      have hone : (1 : UInt64).toNat = 1 := rfl
      rw [hw, nextSequence, hlast, getLast?_concat]
      show (e.sequence + 1).toNat = _
      rw [UInt64.toNat_add, hone]
      unfold u64Max at hrange
      exact Nat.mod_eq_of_lt (by omega)
    refine ⟨hch, hrange, rfl, hincreasing, ?_, hcounted, by omega, hwhole⟩
    intro x hx
    rw [hplaced] at hx hincreasing
    have hle : x.2.nextOffset ≤ y.2.nextOffset ∧ x.2.sequence.toNat ≤ y.2.sequence.toNat := by
      rcases mem_append.mp hx with hfront | hx
      · obtain ⟨hoff, hseq⟩ := (pairwise_append.mp hincreasing).2.2 x hfront y
          mem_cons_self
        exact ⟨hoff.le, (UInt64.lt_iff_toNat_lt.mp hseq).le⟩
      · rw [mem_singleton.mp hx]
        exact ⟨le_refl _, le_refl _⟩
    have hyseq : y.2.sequence = e.sequence := by rw [hy]; rfl
    rw [hnext, hyseq] at hle
    exact ⟨hle.1, UInt64.lt_iff_toNat_lt.mpr (by omega)⟩

/-- **Reopening after a crash holds what is left.** -/
theorem Consistent.reopen_cut {tail : Bytes} (h : Consistent codec options w disk l)
    (hrec : Recorded purged acc base w l) (hf : l.active.frames = pre ++ post)
    (htail : Torn codec tail) (hleft : (l.cut pre).entries = [] → purged = [])
    (hbase : ∀ x ∈ l.rotated.head?, x.2.start = 0) :
    ∃ w' disk', WalWriter.open codec options { disk with
        active := some (bytes options.segmentCfgHash (l.cut pre).active ++ tail) } =
          .ok (w', disk') ∧
      Held purged (purged ++ (place size base (l.cut pre).entries).map reported) base
        w' disk' (l.cut pre) ∧ w'.coordinator.options = options := by
  have hwhole : (l.cut pre).Whole := ⟨hrec.whole.1, fun e he => hrec.whole.2 e (by
    rw [entries_cut hf]
    exact mem_append_left _ he)⟩
  have hread : ∀ e ∈ pre, Readable codec e.bundle := fun e he =>
    hwhole.2 e (by simpa [entries, Log.files, cut] using .inr he)
  obtain ⟨w', disk', hopen, hrep, hopt, -, -, -, hnext, hsequence⟩ :=
    h.open_cut hrec.chained hf htail hbase hread
  refine ⟨w', disk', hopen, ⟨hrep, hrec.cut hf hleft (hsequence hwhole), ?_⟩, hopt⟩
  · show 2 * w'.coordinator.nextRotationId ≤ l.active.start + 2
    rw [hnext]
    exact h.reloadIds_le

/-- A run of appends on a held log. -/
theorem Held.run {s : WalWriter × Disk} (h : Held purged acc base s.1 s.2 l)
    {bundles : List (RecordBundle β)}
    (hfits : Machine.Meets (appendStep codec) (Appendable codec) s bundles) :
    ∃ l' : Log codec, Held purged
      (acc ++ accepted (history (appendStep codec) s bundles)) base
      (final (appendStep codec) s bundles).1
      (final (appendStep codec) s bundles).2 l' := by
  have hstart : ∃ l' : Log codec, Held purged (acc ++ accepted []) base s.1 s.2 l' :=
    ⟨l, by simpa [accepted] using h⟩
  have hrun := history_invariant_of_meets
    (fun s past => ∃ l' : Log codec, Held purged (acc ++ accepted past) base s.1 s.2 l')
    ?_ hstart hfits
  · rwa [nil_append] at hrun
  · rintro s bundle past ⟨l, hl⟩ hok
    obtain ⟨l', hl'⟩ := hl.appendBundle hok
    refine ⟨l', ?_⟩
    have hsplit : accepted (past ++ [(bundle, (appendStep codec s bundle).2)]) =
        accepted past ++ accepted [(bundle, (appendStep codec s bundle).2)] := by
      simp [accepted]
    rwa [hsplit, ← append_assoc]

end

/-- What is read from a disk is determined by it. -/
theorem Reads.unique {disk : Disk} {records records' : List WalRecordBundle}
    (h : Reads codec disk records) (h' : Reads codec disk records') : records = records' := by
  obtain ⟨reader, hopen, hyields⟩ := h
  obtain ⟨reader', hopen', hyields'⟩ := h'
  rw [hopen] at hopen'
  cases hopen'
  exact map_injective_iff.mpr (fun _ _ => Except.ok.inj) (hyields.unique hyields')

/-- Entries after a cut end after it. -/
theorem cut_lt_of_place {start cut : Nat} {post : List (Entry codec)}
    (hnext : ∀ e ∈ post.head?, cut < start + e.size) {p : Nat} {e : Entry codec}
    (h : (p, e) ∈ place size start post) : cut < p + e.size := by
  cases post with
  | nil => cases h
  | cons first rest =>
    have hfirst := hnext first rfl
    rcases mem_cons.mp h with heq | hrest
    · cases heq
      exact hfirst
    · have hb := (place_bounds size hrest).1
      omega

theorem Tracks.recovers {s : Session} {past : List (Op β × Ret)} {cut : Nat}
    (h : Tracks codec options s past) (hcut : headerV1Len ≤ cut)
    (hsafe : CrashSafe codec s.disk cut) : Recovers codec options s.disk past cut := by
  obtain ⟨w, l, purged, base, hw, hc, hrec, hgone⟩ := h
  obtain ⟨hzero, hcursor, hkeeps⟩ := hsafe
  obtain ⟨pre, post, tail, hf, htake, htorn, hle, hpost⟩ :=
    take_bytes options.segmentCfgHash l.active hcut
  have hactive : s.disk.active = some (bytes options.segmentCfgHash l.active) :=
    hc.options_eq ▸ hc.activeDisk
  have hstop : l.active.stop size = l.active.start + (total size pre +
      total size post) := by
    rw [Run.stop, hf, total_append]
  have hrange := hc.inRange
  have hposition : cutPosition s.disk cut = l.active.start + (cut - headerV1Len) := by
    rw [cutPosition, hactive, Option.bind_some, headerStart_bytes]
    show min l.active.start u64Max + _ = _
    omega
  have hend : base + total size (l.cut pre).entries =
      l.active.start + total size pre :=
    (Log.active_stop (Log.chained_cut hrec.chained pre)).symm
  have hentries := Log.entries_cut hf
  -- entries that are kept end at or before the cut, the others after it
  have hkept : ∀ x ∈ place size base (l.cut pre).entries,
      x.1 + x.2.size ≤ cutPosition s.disk cut := by
    rintro ⟨p, e⟩ hx
    have hb := (place_bounds size hx).2
    show p + e.size ≤ _
    omega
  have hlost : ∀ x ∈ place size (base + total size (l.cut pre).entries) post,
      cutPosition s.disk cut < x.1 + x.2.size ∧ x.1 + x.2.size ≤ u64Max := by
    rintro ⟨p, e⟩ hx
    have hb := (place_bounds size hx).2
    have hmax : p + e.size ≤ u64Max := by omega
    refine ⟨cut_lt_of_place (fun e he => ?_) hx, hmax⟩
    have := hpost e he
    omega
  have hrecords : l.records base = (l.cut pre).records base ++
      (place size (base + total size (l.cut pre).entries) post).map
        fun e => e.2.recordAt e.1 := by
    rw [Log.records, Log.records, hentries, place_append, map_append]
  have hbefore := hrec.reads hc.toRepresents
  rw [hrecords] at hbefore
  have hlost' : ∀ r ∈ (place size (base + total size (l.cut pre).entries) post).map
      (fun e => e.2.recordAt e.1), cutPosition s.disk cut < r.nextOffset := by
    intro r hr
    obtain ⟨x, hx, rfl⟩ := mem_map.mp hr
    obtain ⟨hlt, hmax⟩ := hlost x hx
    exact Nat.lt_min.mpr ⟨hlt, by omega⟩
  have hleft : (l.cut pre).entries = [] → purged = [] := by
    intro hnil
    rcases hkeeps with hnone | ⟨records, hreads, r, hr, hrle⟩
    · rw [eq_nil_iff_forall_not_mem]
      intro x hx
      have hpos := hrec.counted x (by rw [hrec.accepted]; exact mem_append_left _ hx)
      have hbehind := hgone x hx
      rw [← hc.persistedCursor_eq, hnone] at hbehind
      omega
    · rw [hreads.unique hbefore, Log.records, hnil] at hr
      exact absurd hrle (not_le.mpr (hlost' r (by rwa [hnil] )))
  obtain ⟨w', disk', hopen, hheld, hopt⟩ :=
    hc.reopen_cut hrec hf htorn hleft (hc.oldest_start hzero)
  have htrunc : s.disk.truncateActive cut = { s.disk with
      active := some (bytes options.segmentCfgHash (l.cut pre).active ++ tail) } := by
    rw [Disk.truncateActive, hactive, Option.map_some, htake]
    rfl
  refine ⟨w', disk', (l.cut pre).records base, _, by rw [htrunc]; exact hopen, hbefore, ?_, hlost',
    hheld.toRecorded.reads hheld.toRepresents, ?_, ?_, ?_⟩
  · intro r hr
    obtain ⟨x, hx, rfl⟩ := mem_map.mp hr
    exact (min_le_left _ _).trans (hkept x hx)
  · rwa [hheld.len]
  · rw [hheld.activeDisk, hheld.len, hactive, hopt, Option.map_some]
    have hbytes : bytes options.segmentCfgHash l.active =
        bytes options.segmentCfgHash (l.cut pre).active ++ data post := by
      rw [bytes, bytes, hf, append_assoc]
      simp [data, Log.cut]
    rw [hbytes, ← length_bytes options.segmentCfgHash (l.cut pre).active, take_left]
  · intro bundles hfits later
    obtain ⟨l', hl'⟩ := hheld.run hfits
    have hnew : (place size base l'.entries).map reported =
        (place size base (l.cut pre).entries).map reported ++ later := by
      have hacc := hl'.accepted
      rw [append_assoc] at hacc
      exact (append_cancel_left hacc).symm
    refine ⟨?_, ?_⟩
    · have hreads := hl'.toRecorded.reads hl'.toRepresents
      rwa [Log.records_eq, hnew, map_append, ← Log.records_eq] at hreads
    · intro x hx
      have hbefore : ∀ y ∈ purged ++ (place size base (l.cut pre).entries).map reported,
          y.2.sequence < x.2.sequence := fun y hy =>
        ((pairwise_append.mp hl'.increasing).2.2 y hy x hx).2
      refine ⟨?_, ?_⟩
      · intro r hr
        obtain ⟨e, he, rfl⟩ := mem_map.mp hr
        exact hbefore (reported e) (mem_append_right _ (mem_map_of_mem he))
      · intro y hy hcovered
        refine hbefore y ?_
        rw [hrec.accepted, hentries, place_append, map_append, ← append_assoc] at hy
        rcases mem_append.mp hy with hy | hy
        · exact hy
        · obtain ⟨z, hz, rfl⟩ := mem_map.mp hy
          obtain ⟨hlt, hmax⟩ := hlost z hz
          have hoff : (reported z).2.nextOffset = z.1 + z.2.size := min_eq_left hmax
          omega

/-- What has been accepted and lies beyond the cursor is read back. -/
theorem Tracks.reads_beyond {s : Session} {past : List (Op β × Ret)}
    (h : Tracks codec options s past) {x : RecordBundle β × WalOffset} (hx : x ∈ acceptedOps past)
    (hbeyond : persistedCursor codec s.disk < x.2.nextOffset) :
    ∃ records, Reads codec s.disk records ∧ recordOf codec x.1 x.2 ∈ records := by
  obtain ⟨w, l, purged, base, -, hc, hrec, hgone⟩ := h
  refine ⟨_, hrec.reads hc.toRepresents, ?_⟩
  rw [hrec.accepted] at hx
  rw [Log.records_eq]
  rcases mem_append.mp hx with hx | hx
  · have hle := hgone x hx
    rw [hc.persistedCursor_eq] at hbeyond
    omega
  · exact mem_map_of_mem hx

theorem tracks_of_meets {w : WalWriter} {disk : Disk}
    (hopen : WalWriter.open codec options Disk.empty = .ok (w, disk)) {ops : List (Op β)}
    (hops : Machine.Meets (step codec options) (Running codec) ⟨some w, disk⟩ ops) :
    Tracks codec options (final (step codec options) ⟨some w, disk⟩ ops)
      (history (step codec options) ⟨some w, disk⟩ ops) := by
  have hstart : Tracks codec options ⟨some w, disk⟩ ([] : List (Op β × Ret)) :=
    ⟨w, empty, [], 0, rfl, consistent_empty hopen, (held_empty hopen).toRecorded, forall_mem_nil _⟩
  exact history_invariant_of_meets (Tracks codec options)
    (fun s op past hs hok => tracks_step hs hok) hstart hops

/-- **Crash recovery.**  After any run of appends and persisted cursors on a fresh log, and any
cut of the active file after its header that is safe, a reopening keeps exactly the entries that
end at or before the cut, and later appends are read back after them with higher sequence
numbers. -/
theorem wal_recovery {w : WalWriter} {disk : Disk}
    (hopen : WalWriter.open codec options Disk.empty = .ok (w, disk)) {ops : List (Op β)}
    (hops : Machine.Meets (step codec options) (Running codec) ⟨some w, disk⟩ ops)
    {cut : Nat} (hcut : headerV1Len ≤ cut) (hsafe : CrashSafe codec
      (final (step codec options) ⟨some w, disk⟩ ops).disk cut) :
    Recovers codec options (final (step codec options) ⟨some w, disk⟩ ops).disk
      (history (step codec options) ⟨some w, disk⟩ ops) cut :=
  (tracks_of_meets hopen hops).recovers hcut hsafe

/-- Three entries of 75 bytes.  The file of the first two is rotated, the cursor covers the first,
and the third is cut off after five bytes. -/
theorem wal_recovery_torn :
    let start : Session := ⟨some (freshLog rotatingOptions).1, (freshLog rotatingOptions).2⟩
    let ops := [.append (sizedBundle 0), .append (sizedBundle 0), .persist ⟨75, 0⟩,
      .append (sizedBundle 0)]
    let disk := (final (step sizeCodec rotatingOptions) start ops).disk
    disk.rotated.entries.length = 1 ∧ persistedCursor sizeCodec disk = 75 ∧
      Recovers sizeCodec rotatingOptions disk
        (history (step sizeCodec rotatingOptions) start ops) (headerV1Len + 5) := by
  intro start ops disk
  have hopen : WalWriter.open sizeCodec rotatingOptions Disk.empty =
      .ok ((freshLog rotatingOptions).1, (freshLog rotatingOptions).2) := open_rotating
  have hread : Readable sizeCodec (sizedBundle 0) := by
    rw [readable_sizedBundle]
    decide
  have hops : Machine.Meets (step sizeCodec rotatingOptions) (Running sizeCodec) start
      ops := by
    refine ⟨fun w hw => ⟨hread, ?_⟩, fun w hw => ⟨hread, ?_⟩, trivial,
      fun w hw => ⟨hread, ?_⟩, trivial⟩
    · revert w
      decide +kernel
    · revert w
      decide +kernel
    · revert w
      decide +kernel
  -- the second entry ends before the cut
  have hsecond : (sizedBundle 0, ⟨75, 150, 1⟩) ∈
      acceptedOps (history (step sizeCodec rotatingOptions) start ops) := .tail _ (.head _)
  obtain ⟨records, hreads, hmem⟩ :=
    (tracks_of_meets hopen hops).reads_beyond hsecond (by decide +kernel)
  have hends : (recordOf sizeCodec (sizedBundle 0) ⟨75, 150, 1⟩).nextOffset ≤
      cutPosition disk (headerV1Len + 5) := by decide +kernel
  have hsafe : CrashSafe sizeCodec disk (headerV1Len + 5) :=
    ⟨by decide +kernel, by decide +kernel, .inr ⟨records, hreads, _, hmem, hends⟩⟩
  exact ⟨by decide +kernel, by decide +kernel, wal_recovery hopen hops (by decide) hsafe⟩

/-- **A reopening can use a sequence number again.**  The only entry, number 0, is rotated away
and purged once the cursor has passed it.  No entry is left to infer the next number from, so
the append after the reopening gets number 0 again. -/
theorem reopen_reuses_sequence :
    let start : Session := ⟨some (freshLog tinyOptions).1, (freshLog tinyOptions).2⟩
    let ops := [.append (sizedBundle 0), .persist ⟨75, 0⟩]
    WalWriter.open sizeCodec tinyOptions Disk.empty = .ok (freshLog tinyOptions) ∧
      ¬ Recovers sizeCodec tinyOptions
        (final (step sizeCodec tinyOptions) start ops).disk
        (history (step sizeCodec tinyOptions) start ops) headerV1Len := by
  intro start ops
  refine ⟨rfl, ?_⟩
  rintro ⟨w, disk, kept, lost, hopen, -, -, -, -, -, -, hlater⟩
  have hread : Readable sizeCodec (sizedBundle 0) := by
    rw [readable_sizedBundle]
    decide
  -- what an append after the reopening returns
  have hrun : (WalWriter.open sizeCodec tinyOptions
      ((final (step sizeCodec tinyOptions) start ops).disk.truncateActive
        headerV1Len)).toOption.map (fun r =>
          (decide (r.1.coordinator.toWalPosition r.1.currentLen +
            frameLen sizeCodec (sizedBundle 0) ≤ u64Max),
          (appendStep sizeCodec r (sizedBundle 0)).2.toOption)) =
        some (true, some ⟨75, 150, 0⟩) := by
    decide +kernel
  rw [hopen] at hrun
  obtain ⟨hroom, hoffset⟩ := Prod.mk.inj (Option.some.inj hrun)
  obtain ⟨-, hsequence⟩ := hlater [sizedBundle 0] ⟨⟨hread, of_decide_eq_true hroom⟩, trivial⟩
  have hmem : ((sizedBundle 0, ⟨75, 150, 0⟩) : RecordBundle Nat × WalOffset) ∈
      accepted (history (appendStep sizeCodec) (w, disk) [sizedBundle 0]) := by
    simp [accepted, hoffset]
  obtain ⟨-, hcovered⟩ := hsequence _ hmem
  have hpast : ((sizedBundle 0, ⟨0, 75, 0⟩) : RecordBundle Nat × WalOffset) ∈
      acceptedOps (history (step sizeCodec tinyOptions) start ops) := by
    exact mem_cons_self
  have hlt := hcovered _ hpast (by decide +kernel)
  exact absurd hlt (by decide)

end OtapDataflow.Wal
