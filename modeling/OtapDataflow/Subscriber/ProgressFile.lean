import OtapDataflow.Lib.Codec
import OtapDataflow.Subscriber.State

/-! # The progress file

A subscriber's progress is written as a header, an entry for every tracked segment and a checksum,
and read back when the subscriber is restored.  An entry states the length of its bitmap in sixteen
bits, and the reader takes no more than `maxBitmapWords` words, enough for 65536 bundles; the
writer of segments admits up to `maxBundlesPerSegment`. -/

namespace OtapDataflow.Subscriber

open Bytes Bitmap Codec List SegmentProgressEntry SubscriberState

/-- The errors of a read: of the file system, and the reasons of `progress_corrupted` with the
numbers in their texts. -/
inductive ProgressError where
  | io
  | fileTooShort (len : Nat)
  | crcMismatch (stored computed : Nat)
  | headerTooShort (len : Nat)
  | invalidMagic
  | unsupportedVersion (version : Nat)
  | invalidHeaderSize (size : Nat)
  | entryCountTooLarge (count : Nat)
  | headerSizeExceedsBody (size body : Nat)
  | bitmapWordsTooLarge (words : Nat)
  | bitmapWordsMismatch (got expected bundleCount : Nat)
  deriving DecidableEq, Repr

open ProgressError

def progressMagic : Bytes := [0x51, 0x55, 0x49, 0x56, 0x53, 0x55, 0x42, 0x00]

def progressVersion : Nat := 1

def headerV1Size : Nat := 32

def footerSize : Nat := 4

def maxEntryCount : Nat := 1000000

def maxBitmapWords : Nat := 1024

/-- The limit that `OpenSegment::append` checks. -/
def maxBundlesPerSegment : Nat := 10000000

/-- `read_exact` of a little-endian number. -/
def readLe (k : Nat) : Reader ProgressError Nat := do
  let field ← take (fun _ _ => .io) k
  pure (ofLe field.1)

/-- Read the same thing several times. -/
def readMany {α : Type} (read : Reader ProgressError α) : Nat → Reader ProgressError (List α)
  | 0 => pure []
  | n + 1 => do
    let first ← read
    let others ← readMany read n
    pure (first :: others)

/-! ## Entries -/

namespace SegmentProgressEntry

def wordsNeeded (bundleCount : Nat) : Nat := (bundleCount + 63) / 64

def isAcked (e : SegmentProgressEntry) (index : BundleIndex) : Bool :=
  if index ≥ e.bundleCount then false else test e.ackedBitmap index

def serialize (e : SegmentProgressEntry) : Bytes :=
  leBytes 8 e.segSeq ++ (leBytes 4 e.bundleCount ++
    -- only the low sixteen bits of the length
    (leBytes 2 e.ackedBitmap.length ++ e.ackedBitmap.flatMap fun word => leBytes 8 word.toNat))

def deserialize : Reader ProgressError SegmentProgressEntry := do
  let segSeq ← readLe 8
  let bundleCount ← readLe 4
  let bitmapWords ← readLe 2
  ensure (bitmapWords ≤ maxBitmapWords) (bitmapWordsTooLarge bitmapWords)
  let expectedWords := wordsNeeded bundleCount % 2 ^ 16
  ensure (bitmapWords = expectedWords)
    (bitmapWordsMismatch bitmapWords expectedWords bundleCount)
  let ackedBitmap ← readMany (do let word ← readLe 8; pure (BitVec.ofNat 64 word)) bitmapWords
  pure ⟨segSeq, bundleCount, ackedBitmap⟩

end SegmentProgressEntry

/-! ## The file -/

structure ProgressHeader where
  version : Nat
  headerSize : Nat
  flags : Nat
  oldestIncompleteSeg : SegmentSeq
  entryCount : Nat

namespace ProgressHeader

def new (oldestIncompleteSeg : SegmentSeq) (entryCount : Nat) : ProgressHeader :=
  ⟨progressVersion, headerV1Size, 0, oldestIncompleteSeg, entryCount⟩

def serialize (h : ProgressHeader) : Bytes :=
  progressMagic ++ (leBytes 2 h.version ++ (leBytes 2 h.headerSize ++ (leBytes 2 h.flags ++
    (leBytes 8 h.oldestIncompleteSeg ++ (leBytes 4 h.entryCount ++ List.replicate 6 0)))))

def deserialize : Reader ProgressError ProgressHeader := do
  let data ← get
  ensure (headerV1Size ≤ data.length) (headerTooShort data.length)
  let magic ← take (fun _ _ => .io) 8
  ensure (magic.1 = progressMagic) invalidMagic
  let version ← readLe 2
  ensure (version = progressVersion) (unsupportedVersion version)
  let headerSize ← readLe 2
  ensure (headerV1Size ≤ headerSize) (invalidHeaderSize headerSize)
  let flags ← readLe 2
  let oldestIncompleteSeg ← readLe 8
  let entryCount ← readLe 4
  ensure (entryCount ≤ maxEntryCount) (entryCountTooLarge entryCount)
  pure ⟨version, headerSize, flags, oldestIncompleteSeg, entryCount⟩

end ProgressHeader

variable {Id : Type} (crc32 : Bytes → UInt32)

/-- The content of the file that `write_progress_file` puts in place. -/
def writeProgressFile (oldestIncompleteSeg : SegmentSeq) (entries : List SegmentProgressEntry) :
    Bytes :=
  let content := (ProgressHeader.new oldestIncompleteSeg entries.length).serialize ++
    entries.flatMap serialize
  content ++ leBytes 4 (crc32 content).toNat

def readProgressFile (data : Bytes) :
    Except ProgressError (SegmentSeq × List SegmentProgressEntry) := do
  ensure (headerV1Size + footerSize ≤ data.length) (fileTooShort data.length)
  let crcOffset := data.length - footerSize
  let stored := ofLe (data.drop crcOffset)
  let computed := (crc32 (data.take crcOffset)).toNat
  ensure (stored = computed) (crcMismatch stored computed)
  let (header, _) ← ProgressHeader.deserialize (data.take headerV1Size)
  ensure (header.headerSize ≤ crcOffset)
    (headerSizeExceedsBody header.headerSize crcOffset)
  let (entries, _) ← readMany deserialize header.entryCount
    ((data.take crcOffset).drop header.headerSize)
  pure (header.oldestIncompleteSeg, entries)

namespace SubscriberState

def restoreBundle (st : SubscriberState Id) (e : SegmentProgressEntry) (index : BundleIndex) :
    SubscriberState Id :=
  if e.isAcked index then (st.recordOutcome ⟨e.segSeq, index⟩ .acked).1 else st

def restoreEntry (st : SubscriberState Id) (e : SegmentProgressEntry) : SubscriberState Id :=
  (List.range e.bundleCount).foldl (restoreBundle · e) (st.addSegment e.segSeq e.bundleCount)

/-- How the registry restores a subscriber from the entries of its progress file. -/
def restore (id : Id) (entries : List SegmentProgressEntry) : SubscriberState Id :=
  entries.foldl restoreEntry (.new id)

end SubscriberState

/-! ## Reading back -/

variable {e : SegmentProgressEntry} {entries : List SegmentProgressEntry}

section

variable {rest : Bytes}

theorem read_bind {α β : Type} {x : Reader ProgressError α} {f : α → Reader ProgressError β}
    {bs : Bytes} {a : α} (h : x bs = .ok (a, rest)) : (x >>= f) bs = f a rest := by
  show (x bs >>= fun r => f r.1 r.2) = _
  rw [h]
  rfl

theorem read_bind_error {α β : Type} {x : Reader ProgressError α}
    {f : α → Reader ProgressError β} {error : ProgressError} (h : x rest = .error error) :
    (x >>= f) rest = .error error := by
  show (x rest >>= fun r => f r.1 r.2) = _
  rw [h]
  rfl

theorem readLe_leBytes {k n : Nat} (h : n < 256 ^ k) :
    readLe k (leBytes k n ++ rest) = .ok (n, rest) := by
  have htake : take (fun _ _ => io) k (leBytes k n ++ rest) =
      .ok (⟨leBytes k n, length_leBytes k n⟩, rest) := (take_eq_ok _).mpr rfl
  rw [readLe, read_bind htake, ofLe_leBytes h]
  rfl

theorem readMany_flatMap {α : Type} {read : Reader ProgressError α} {write : α → Bytes}
    {values : List α} (h : ∀ a ∈ values, ∀ rest, read (write a ++ rest) = .ok (a, rest)) :
    readMany read values.length (values.flatMap write ++ rest) = .ok (values, rest) := by
  induction values with
  | nil => rfl
  | cons a values ih =>
    rw [flatMap_cons, append_assoc, length_cons, readMany, read_bind (h a mem_cons_self _),
      read_bind (ih fun b hb => h b (mem_cons_of_mem _ hb))]
    rfl

theorem read_ensure {α : Type} {p : Prop} [Decidable p] {error : ProgressError}
    {f : Unit → Reader ProgressError α} (h : p) : (ensure p error >>= f) rest = f () rest :=
  read_bind (ensure_eq_ok.mpr ⟨h, rfl⟩)

/-- An entry that the reader admits. -/
structure SegmentProgressEntry.Admitted (e : SegmentProgressEntry) : Prop where
  segSeq : e.segSeq < 2 ^ 64
  words : e.ackedBitmap.length = wordsNeeded e.bundleCount
  count : e.bundleCount ≤ 64 * maxBitmapWords

theorem SegmentProgressEntry.Admitted.deserialize (h : e.Admitted) :
    deserialize (e.serialize ++ rest) = .ok (e, rest) := by
  have hmax : e.ackedBitmap.length ≤ maxBitmapWords := by
    rw [h.words, wordsNeeded]
    have := h.count
    omega
  have hlen : e.ackedBitmap.length < 256 ^ 2 := lt_of_le_of_lt hmax (by decide)
  have hbitmap : ∀ w ∈ e.ackedBitmap, ∀ rest,
      (do let word ← readLe 8; pure (BitVec.ofNat 64 word) : Reader ProgressError Word)
        (leBytes 8 w.toNat ++ rest) = .ok (w, rest) := by
    intro w _ rest
    rw [read_bind (readLe_leBytes w.isLt), BitVec.ofNat_toNat, BitVec.setWidth_eq]
    rfl
  simp only [serialize, append_assoc]
  rw [SegmentProgressEntry.deserialize, read_bind (readLe_leBytes h.segSeq),
    read_bind (readLe_leBytes (lt_of_le_of_lt h.count (by decide))),
    read_bind (readLe_leBytes hlen), read_ensure hmax,
    read_ensure (by rw [← h.words]; omega), read_bind (readMany_flatMap hbitmap)]
  rfl

theorem ProgressHeader.deserialize_serialize {oldest : SegmentSeq} {count : Nat}
    (holdest : oldest < 2 ^ 64) (hcount : count ≤ maxEntryCount) :
    ProgressHeader.deserialize (ProgressHeader.new oldest count).serialize =
      .ok (.new oldest count, List.replicate 6 0) := by
  have hget : ∀ bs, (get : Reader ProgressError Bytes) bs = .ok (bs, bs) := fun _ => rfl
  have hmagic : ∀ rest, take (fun _ _ => io) 8 (progressMagic ++ rest) =
      .ok (⟨progressMagic, rfl⟩, rest) := fun _ => (take_eq_ok _).mpr rfl
  rw [ProgressHeader.deserialize, read_bind (hget _), read_ensure (by
    simp [ProgressHeader.serialize, progressMagic, headerV1Size])]
  simp only [serialize, new]
  rw [read_bind (hmagic _), read_ensure rfl, read_bind (readLe_leBytes (by decide)),
    read_ensure rfl, read_bind (readLe_leBytes (by decide)), read_ensure le_rfl,
    read_bind (readLe_leBytes (by decide)), read_bind (readLe_leBytes holdest),
    read_bind (readLe_leBytes (lt_of_le_of_lt hcount (by decide))), read_ensure hcount]
  rfl

/-- A read of what was written gives what the entries are read as. -/
theorem readProgressFile_write {oldest : SegmentSeq}
    (holdest : oldest < 2 ^ 64) (hcount : entries.length ≤ maxEntryCount) :
    readProgressFile crc32 (writeProgressFile crc32 oldest entries) =
      (readMany deserialize entries.length
        (entries.flatMap serialize)).map fun read => (oldest, read.1) := by
  have hheader := ProgressHeader.deserialize_serialize holdest hcount
  have hlen : (ProgressHeader.new oldest entries.length).serialize.length = headerV1Size := by
    simp [ProgressHeader.serialize, progressMagic, headerV1Size]
  rw [writeProgressFile]
  generalize (ProgressHeader.new oldest entries.length).serialize = header at hheader hlen ⊢
  generalize entries.flatMap serialize = body
  have hsize : (header ++ body ++ leBytes 4 (crc32 (header ++ body)).toNat).length - footerSize =
      (header ++ body).length := by
    rw [length_append, length_leBytes]
    rfl
  unfold readProgressFile
  dsimp only
  rw [except_ensure_bind (by simp [hlen, footerSize]), hsize, take_left, drop_left,
    except_ensure_bind (ofLe_leBytes (crc32 _).toNat_lt), append_assoc, take_left' hlen, hheader]
  change (do
    ensure (headerV1Size ≤ (header ++ body).length) _
    let read ← readMany _ entries.length ((header ++ body).drop headerV1Size)
    pure (oldest, read.1)) = _
  rw [except_ensure_bind (by rw [length_append, hlen]; exact Nat.le_add_right _ _), drop_left' hlen]
  cases readMany deserialize entries.length body <;> rfl

/-- What is read several times is read that often, and each value has what a single read gives. -/
theorem readMany_ok {α : Type} {read : Reader ProgressError α} {P : α → Prop}
    (h : ∀ bs a rest, read bs = .ok (a, rest) → P a) {n : Nat} {bs : Bytes} {values : List α}
    (hread : readMany read n bs = .ok (values, rest)) :
    values.length = n ∧ ∀ a ∈ values, P a := by
  induction n generalizing bs values rest with
  | zero =>
    obtain ⟨rfl, -⟩ := pure_eq_ok.mp hread
    exact ⟨rfl, forall_mem_nil _⟩
  | succ n ih =>
    obtain ⟨first, mid, hfirst, hmore⟩ := bind_eq_ok.mp hread
    obtain ⟨others, mid', hothers, hpure⟩ := bind_eq_ok.mp hmore
    obtain ⟨rfl, -⟩ := pure_eq_ok.mp hpure
    obtain ⟨hlen, hall⟩ := ih hothers
    exact ⟨by rw [length_cons, hlen], forall_mem_cons.mpr ⟨h _ _ _ hfirst, hall⟩⟩

/-- The bitmap of an entry that was read is within the limit. -/
theorem SegmentProgressEntry.deserialize_ok {bs : Bytes} (h : deserialize bs = .ok (e, rest)) :
    e.ackedBitmap.length ≤ maxBitmapWords := by
  obtain ⟨segSeq, _, -, h⟩ := bind_eq_ok.mp h
  obtain ⟨bundleCount, _, -, h⟩ := bind_eq_ok.mp h
  obtain ⟨bitmapWords, _, -, h⟩ := bind_eq_ok.mp h
  obtain ⟨_, _, hmax, h⟩ := bind_eq_ok.mp h
  obtain ⟨_, _, -, h⟩ := bind_eq_ok.mp h
  obtain ⟨ackedBitmap, _, hbitmap, h⟩ := bind_eq_ok.mp h
  obtain ⟨rfl, -⟩ := pure_eq_ok.mp h
  have hlen := (readMany_ok (P := fun _ => True) (fun _ _ _ _ => trivial) hbitmap).1
  exact hlen.trans_le (ensure_eq_ok.mp hmax).1

theorem ProgressHeader.deserialize_ok {bs : Bytes} {header : ProgressHeader}
    (h : ProgressHeader.deserialize bs = .ok (header, rest)) :
    header.entryCount ≤ maxEntryCount := by
  obtain ⟨_, _, -, h⟩ := bind_eq_ok.mp h
  obtain ⟨_, _, -, h⟩ := bind_eq_ok.mp h
  obtain ⟨_, _, -, h⟩ := bind_eq_ok.mp h
  obtain ⟨_, _, -, h⟩ := bind_eq_ok.mp h
  obtain ⟨_, _, -, h⟩ := bind_eq_ok.mp h
  obtain ⟨_, _, -, h⟩ := bind_eq_ok.mp h
  obtain ⟨_, _, -, h⟩ := bind_eq_ok.mp h
  obtain ⟨_, _, -, h⟩ := bind_eq_ok.mp h
  obtain ⟨_, _, -, h⟩ := bind_eq_ok.mp h
  obtain ⟨_, _, -, h⟩ := bind_eq_ok.mp h
  obtain ⟨_, _, -, h⟩ := bind_eq_ok.mp h
  obtain ⟨_, _, hcount, h⟩ := bind_eq_ok.mp h
  obtain ⟨rfl, -⟩ := pure_eq_ok.mp h
  exact (ensure_eq_ok.mp hcount).1

/-- A file that is read has no more entries and no longer bitmaps than the limits. -/
theorem readProgressFile_ok {data : Bytes} {oldest : SegmentSeq}
    (h : readProgressFile crc32 data = .ok (oldest, entries)) :
    entries.length ≤ maxEntryCount ∧ ∀ e ∈ entries, e.ackedBitmap.length ≤ maxBitmapWords := by
  obtain ⟨_, -, h⟩ := except_bind_eq_ok.mp h
  obtain ⟨_, -, h⟩ := except_bind_eq_ok.mp h
  obtain ⟨⟨header, _⟩, hheader, h⟩ := except_bind_eq_ok.mp h
  obtain ⟨_, -, h⟩ := except_bind_eq_ok.mp h
  obtain ⟨⟨read, _⟩, hread, h⟩ := except_bind_eq_ok.mp h
  obtain ⟨-, rfl⟩ := Prod.mk.inj (Except.ok.inj h)
  obtain ⟨hlen, hwords⟩ := readMany_ok (fun _ _ _ => deserialize_ok) hread
  exact ⟨hlen.trans_le (ProgressHeader.deserialize_ok hheader), hwords⟩

/-- An entry with too long a bitmap is refused. -/
theorem SegmentProgressEntry.deserialize_error
    (hseq : e.segSeq < 2 ^ 64) (hcount : e.bundleCount < 2 ^ 32)
    (hlen : e.ackedBitmap.length < 256 ^ 2) (hmax : maxBitmapWords < e.ackedBitmap.length) :
    deserialize (e.serialize ++ rest) =
      .error (bitmapWordsTooLarge e.ackedBitmap.length) := by
  simp only [serialize, append_assoc]
  rw [deserialize, read_bind (readLe_leBytes hseq),
    read_bind (readLe_leBytes hcount), read_bind (readLe_leBytes hlen), ensure,
    if_neg (not_le.mpr hmax)]
  rfl

end

/-! ## Restoring -/

namespace SubscriberState

variable {st : SubscriberState Id} {b : BundleRef}

theorem trackedCount_restoreBundles (idxs : List BundleIndex) (seq : SegmentSeq) :
    (idxs.foldl (restoreBundle · e) st).trackedCount seq = st.trackedCount seq := by
  induction idxs generalizing st with
  | nil => rfl
  | cons i idxs ih =>
    rw [foldl_cons, ih, restoreBundle]
    split <;> simp

theorem isResolved_restoreBundles (idxs : List BundleIndex)
    (h : st.trackedCount e.segSeq = some e.bundleCount) :
    (idxs.foldl (restoreBundle · e) st).isResolved b = (st.isResolved b ||
      (decide (e.segSeq = b.segmentSeq ∧ b.bundleIndex ∈ idxs) && e.isAcked b.bundleIndex)) := by
  induction idxs generalizing st with
  | nil => simp
  | cons i idxs ih =>
    have hcount : (st.restoreBundle e i).trackedCount e.segSeq = some e.bundleCount :=
      (trackedCount_restoreBundles [i] _).trans h
    rw [foldl_cons, ih hcount, restoreBundle]
    obtain ⟨seq, j⟩ := b
    -- only a bundle of the segment is acknowledged
    have hlt : e.isAcked i = true → i < e.bundleCount := by
      unfold isAcked
      split <;> grind
    split
    · rw [recordOutcome_isResolved, h]
      by_cases hseq : e.segSeq = seq <;> by_cases hij : i = j <;> grind
    · by_cases hij : i = j <;> grind

/-- An entry resolves the bundles that it acknowledges. -/
theorem restoreEntry_isResolved (hnew : st.trackedCount e.segSeq = none) :
    (st.restoreEntry e).isResolved b =
      (st.isResolved b || (decide (e.segSeq = b.segmentSeq) && e.isAcked b.bundleIndex)) := by
  rw [restoreEntry, isResolved_restoreBundles, addSegment_isResolved]
  · unfold isAcked
    grind
  · rw [addSegment_trackedCount, if_pos rfl, hnew]
    rfl

theorem isResolved_restoreEntries (hnodup : (entries.map (·.segSeq)).Nodup)
    (hnew : ∀ e ∈ entries, st.trackedCount e.segSeq = none) :
    (entries.foldl restoreEntry st).isResolved b = true ↔ st.isResolved b = true ∨
      ∃ e ∈ entries, e.segSeq = b.segmentSeq ∧ e.isAcked b.bundleIndex = true := by
  induction entries generalizing st with
  | nil => simp
  | cons e entries ih =>
    obtain ⟨hfresh, hnodup⟩ := nodup_cons.mp hnodup
    rw [foldl_cons, ih hnodup, restoreEntry_isResolved (hnew e mem_cons_self)]
    · simp [or_assoc]
    · intro e' he'
      have hne : e'.segSeq ≠ e.segSeq := by
        intro heq
        exact hfresh (mem_map.mpr ⟨e', he', heq⟩)
      rw [restoreEntry, trackedCount_restoreBundles, addSegment_trackedCount, if_neg hne]
      exact hnew e' (mem_cons_of_mem _ he')

/-- Restoring the entries of a state gives the same resolved bundles. -/
theorem isResolved_restore (st : SubscriberState Id) (b : BundleRef) :
    (restore st.id st.toProgressEntries).isResolved b = st.isResolved b := by
  have hnodup : (st.toProgressEntries.map (·.segSeq)).Nodup := by
    rw [toProgressEntries, map_map]
    exact (pairwise_map.mpr st.segments.sorted).imp ne_of_lt
  rw [Bool.eq_iff_iff, restore, isResolved_restoreEntries hnodup (fun _ _ => rfl)]
  constructor
  · rintro (h | ⟨e, he, hseq, h⟩)
    · exact absurd h Bool.false_ne_true
    · obtain ⟨⟨seq, p⟩, hmem, rfl⟩ := mem_map.mp he
      obtain rfl : seq = b.segmentSeq := hseq
      exact isResolved_iff.mpr ⟨p, OrdMap.get?_eq_some.mpr hmem, h⟩
  · intro h
    obtain ⟨p, hget, hp⟩ := isResolved_iff.mp h
    exact .inr ⟨_, mem_map_of_mem (OrdMap.get?_eq_some.mp hget), rfl, hp⟩

end SubscriberState

/-- **A subscriber's progress survives its file** exactly if neither its segments nor one of their
bitmaps is beyond the limits of the reader. -/
theorem progress_round_trip (st : SubscriberState Id) {oldest : SegmentSeq}
    (holdest : oldest < 2 ^ 64) (hsegments : ∀ e ∈ st.segments.entries, e.1 < 2 ^ 64) :
    (readProgressFile crc32 (writeProgressFile crc32 oldest st.toProgressEntries) =
        .ok (oldest, st.toProgressEntries) ∧
      ∀ b, (restore st.id st.toProgressEntries).isResolved b = st.isResolved b) ↔
    st.segments.entries.length ≤ maxEntryCount ∧
      ∀ e ∈ st.segments.entries, e.2.bundleCount ≤ 64 * maxBitmapWords := by
  constructor
  · rintro ⟨hread, -⟩
    obtain ⟨hcount, hwords⟩ := readProgressFile_ok crc32 hread
    refine ⟨by simpa [toProgressEntries] using hcount, fun e he => ?_⟩
    have hlen : e.2.resolved.length ≤ maxBitmapWords := hwords _ (mem_map_of_mem he)
    rw [e.2.words] at hlen
    omega
  · rintro ⟨hcount, hbundles⟩
    refine ⟨?_, st.isResolved_restore⟩
    have hentries : ∀ e ∈ st.toProgressEntries, ∀ rest,
        deserialize (e.serialize ++ rest) = .ok (e, rest) := by
      intro e he rest
      obtain ⟨⟨seq, p⟩, hmem, rfl⟩ := mem_map.mp he
      exact SegmentProgressEntry.Admitted.deserialize
        ⟨hsegments _ hmem, p.words, hbundles _ hmem⟩
    have hread : readMany _ _ (st.toProgressEntries.flatMap serialize ++ []) =
        .ok (st.toProgressEntries, []) := readMany_flatMap hentries
    rw [append_nil] at hread
    rw [readProgressFile_write crc32 holdest (by simpa [toProgressEntries]), hread]
    rfl

theorem progress_round_trip_two :
    readProgressFile (fun _ => 0) (writeProgressFile (fun _ => 0) 3
      (((new ()).addSegment 3 70).recordOutcome ⟨3, 65⟩ .acked).1.toProgressEntries)
      = .ok (3, [⟨3, 70, [0, 2]⟩]) :=
  ((progress_round_trip _ _ (by decide) (by decide)).mpr (by decide)).1

/-- A tracked segment with one bundle more makes the file unreadable. -/
theorem large_segment_unreadable : 65537 ≤ maxBundlesPerSegment ∧
    readProgressFile (fun _ => 0) (writeProgressFile (fun _ => 0) 0
      ((new ()).addSegment 0 65537).toProgressEntries) =
        .error (bitmapWordsTooLarge 1025) := by
  have hentries : ∀ n, ((new ()).addSegment 0 n).toProgressEntries =
      [⟨0, n, zeros (wordsNeeded n)⟩] := fun _ => rfl
  have hlen : (zeros (wordsNeeded 65537)).length = 1025 := length_zeros _
  refine ⟨by decide, ?_⟩
  rw [hentries, readProgressFile_write _ (by decide) (by decide), length_singleton, readMany,
    flatMap_cons, read_bind_error (deserialize_error (by decide)
      (by decide) (hlen.trans_lt (by decide)) (by rw [hlen]; decide)), hlen]
  rfl

end OtapDataflow.Subscriber
