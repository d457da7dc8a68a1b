import OtapDataflow.OtlpBytes.Splitting

/-! # Packing requests into outputs

The writer holds finished outputs and a pending one.  What was read from the inputs so far is what
the outputs and the pending bytes say, cut into one part for each of them, and every item of a part
comes from an input in the range that the writer keeps for it.

Bytes can be put behind the pending ones as long as these can be read to their end
(`readRequest_append`). -/

namespace OtapDataflow.OtlpBytes

open Protobuf BatchWriter Nat
open List hiding concat concat_append concat_cons

/-- Bytes behind a message that can be read to its end are read on their own. -/
theorem readRequest_append {a : Bytes} (ha : fullyParseable a = true) (b : Bytes) :
    readRequest (a ++ b) = readRequest a ++ readRequest b := by
  obtain ⟨-, hwa, -⟩ := fields_spec a
  obtain ⟨hb, hwb, htail⟩ := fields_spec b
  have hfields : fields (a ++ b) = ((fields a).1 ++ (fields b).1, (fields b).2) := by
    conv_lhs => rw [← concat_fields ha, hb, ← append_assoc, ← concat_append]
    exact fields_concat_append (forall_mem_append.mpr ⟨hwa, hwb⟩) htail
  have hnil : (fields a).2 = [] := isEmpty_iff.mp ha
  simp [readRequest, hfields, hnil]

theorem fullyParseable_append {a b : Bytes} (ha : fullyParseable a = true)
    (hb : fullyParseable b = true) : fullyParseable (a ++ b) = true := by
  obtain ⟨-, hwa, -⟩ := fields_spec a
  obtain ⟨-, hwb, -⟩ := fields_spec b
  rw [← concat_fields ha, ← concat_fields hb, ← concat_append]
  exact fullyParseable_concat (forall_mem_append.mpr ⟨hwa, hwb⟩)

/-- An item with the index of the input that it was read from. -/
abbrev Tagged := Nat × Item

def tag (input : Nat) (items : List Item) : List Tagged := items.map fun item => (input, item)

@[simp] theorem map_snd_tag (input : Nat) (items : List Item) :
    (tag input items).map Prod.snd = items := by
  simp [tag, Function.comp_def]

theorem tag_append (input : Nat) (items items' : List Item) :
    tag input (items ++ items') = tag input items ++ tag input items' :=
  map_append

theorem fst_of_mem_tag {input : Nat} {items : List Item} {p : Tagged} (h : p ∈ tag input items) :
    p.1 = input := by
  obtain ⟨item, -, rfl⟩ := mem_map.mp h
  rfl

/-- An output says what its part of the inputs says, and its range covers that part. -/
structure Matches (b : OwnedBatch) (part : List Tagged) : Prop where
  read : readRequest b.batch.bytes = part.map Prod.snd
  range : ∀ p ∈ part, b.first ≤ p.1 ∧ p.1 ≤ b.last

/-- An output over the limit that could have been cut. -/
def uncut (maxSize : Nat) (b : OwnedBatch) : Bool :=
  maxSize < b.batch.bytes.length && (readRequest b.batch.bytes).length ≠ 1

structure Pack (maxSize : Nat) (Left : Nat → OwnedBatch → Prop) (w : BatchWriter) (fallbacks : Nat)
    (parts : List (List Tagged)) (pend : List Tagged) : Prop where
  outputs : List.Forall₂ Matches w.batches parts
  read : readRequest w.pending = pend.map Prod.snd
  pendRange : ∀ p ∈ pend, w.first ≤ p.1 ∧ p.1 ≤ w.last
  pendSize : w.pending.length ≤ maxSize
  pendBounds : w.pending ≠ [] → w.first ≤ w.last ∧ w.last ≤ w.input
  sorted : w.batches.Pairwise fun b b' => b.last ≤ b'.first
  bounds : ∀ b ∈ w.batches, b.first ≤ b.last ∧ b.last ≤ w.input ∧
    (w.pending ≠ [] → b.last ≤ w.first)
  /-- What could have been cut was left whole, and counted. -/
  budgeted : w.batches.countP (uncut maxSize) ≤ fallbacks
  whole : ∀ i b, w.batches[i]? = some b → uncut maxSize b = true → Left i b
  fell : fallbacks ≠ 0 → ∃ i b, w.batches[i]? = some b ∧ Left i b

variable {maxSize fallbacks : Nat} {Left : Nat → OwnedBatch → Prop} {w w' : BatchWriter}
  {parts : List (List Tagged)} {pend : List Tagged}

theorem readRequest_nil : readRequest [] = [] := rfl

section

variable (h : Pack maxSize Left w fallbacks parts pend)

include h

theorem Pack.pend_nil (hempty : w.pending = []) : pend = [] := by
  have hread := h.read
  rw [hempty, readRequest_nil] at hread
  exact map_eq_nil_iff.mp hread.symm

/-- The next input. -/
theorem Pack.setInput {index : Nat} (hindex : w.input ≤ index) :
    Pack maxSize Left { w with input := index } fallbacks parts pend where
  outputs := h.outputs
  read := h.read
  pendRange := h.pendRange
  pendSize := h.pendSize
  pendBounds hne := ⟨(h.pendBounds hne).1, le_trans (h.pendBounds hne).2 hindex⟩
  sorted := h.sorted
  bounds b hb := ⟨(h.bounds b hb).1, le_trans (h.bounds b hb).2.1 hindex, (h.bounds b hb).2.2⟩
  budgeted := h.budgeted
  whole := h.whole
  fell := h.fell

/-- Bytes of the current input behind pending ones that can be read to their end. -/
theorem Pack.append (hopen : fullyParseable w.pending = true) {bytes : Bytes}
    (hsize : w.pending.length + bytes.length ≤ maxSize) :
    Pack maxSize Left (w.append bytes) fallbacks parts
      (pend ++ tag w.input (readRequest bytes)) where
  outputs := h.outputs
  read := by
    show readRequest (w.pending ++ bytes) = _
    rw [readRequest_append hopen, h.read, map_append, map_snd_tag]
  pendRange := by
    intro p hp
    show (if w.pending.isEmpty then w.input else w.first) ≤ p.1 ∧ p.1 ≤ w.input
    by_cases hempty : w.pending = []
    · rw [h.pend_nil hempty, nil_append] at hp
      rw [hempty, fst_of_mem_tag hp]
      exact ⟨le_refl _, le_refl _⟩
    · rw [if_neg (by simpa using hempty)]
      obtain ⟨hfirst, hlast⟩ := h.pendBounds hempty
      rcases mem_append.mp hp with hp | hp
      · exact ⟨(h.pendRange p hp).1, le_trans (h.pendRange p hp).2 hlast⟩
      · rw [fst_of_mem_tag hp]
        exact ⟨le_trans hfirst hlast, le_refl _⟩
  pendSize := by
    show (w.pending ++ bytes).length ≤ maxSize
    rwa [length_append]
  pendBounds _ := by
    show (if w.pending.isEmpty then w.input else w.first) ≤ w.input ∧ w.input ≤ w.input
    by_cases hempty : w.pending = []
    · rw [hempty]
      exact ⟨le_refl _, le_refl _⟩
    · rw [if_neg (by simpa using hempty)]
      obtain ⟨hfirst, hlast⟩ := h.pendBounds hempty
      exact ⟨le_trans hfirst hlast, le_refl _⟩
  sorted := h.sorted
  bounds := by
    intro b hb
    obtain ⟨hrange, hinput, hfirst⟩ := h.bounds b hb
    refine ⟨hrange, hinput, fun _ => ?_⟩
    show b.last ≤ if w.pending.isEmpty then w.input else w.first
    by_cases hempty : w.pending = []
    · rwa [hempty]
    · rw [if_neg (by simpa using hempty)]
      exact hfirst hempty
  budgeted := h.budgeted
  whole := h.whole
  fell := h.fell

end

/-- Outputs of the current input alone, when nothing is pending. -/
theorem Pack.emit (h : Pack maxSize Left w fallbacks parts [])
    {out : List OwnedBatch} {fallbacks' : Nat}
    (hbatches : w'.batches = w.batches ++ out) (hinput : w'.input = w.input)
    (hpending : w'.pending = []) (hrange : ∀ b ∈ out, b.first = w.input ∧ b.last = w.input)
    (hbudgeted : fallbacks + out.countP (uncut maxSize) ≤ fallbacks')
    (hwhole : ∀ i b, out[i]? = some b → uncut maxSize b = true → Left (w.batches.length + i) b)
    (hfell : fallbacks' ≠ fallbacks → ∃ i b, out[i]? = some b ∧ Left (w.batches.length + i) b) :
    Pack maxSize Left w' fallbacks'
      (parts ++ out.map fun b => tag w.input (readRequest b.batch.bytes)) [] where
  outputs := by
    rw [hbatches]
    refine rel_append h.outputs ?_
    rw [forall₂_map_right_iff, forall₂_same]
    intro b hb
    refine ⟨(map_snd_tag _ _).symm, fun p hp => ?_⟩
    rw [fst_of_mem_tag hp, (hrange b hb).1, (hrange b hb).2]
    exact ⟨le_refl _, le_refl _⟩
  read := by
    rw [hpending]
    rfl
  pendRange := forall_mem_nil _
  pendSize := by
    rw [hpending]
    exact zero_le _
  pendBounds hne := absurd hpending hne
  sorted := by
    rw [hbatches, pairwise_append]
    refine ⟨h.sorted, ?_, fun b hb b' hb' => ?_⟩
    · refine List.Pairwise.imp_of_mem (fun hb hb' _ => ?_)
        (pairwise_of_forall fun _ _ => trivial)
      rw [(hrange _ hb).2, (hrange _ hb').1]
    · rw [(hrange b' hb').1]
      exact (h.bounds b hb).2.1
  bounds := by
    intro b hb
    rw [hbatches] at hb
    rw [hinput]
    rcases mem_append.mp hb with hb | hb
    · exact ⟨(h.bounds b hb).1, (h.bounds b hb).2.1, fun hne => absurd hpending hne⟩
    · rw [(hrange b hb).1, (hrange b hb).2]
      exact ⟨le_refl _, le_refl _, fun hne => absurd hpending hne⟩
  budgeted := by
    rw [hbatches, countP_append]
    exact le_trans (Nat.add_le_add_right h.budgeted _) hbudgeted
  whole := by
    intro i b hb huncut
    rw [hbatches, getElem?_append] at hb
    split at hb
    · exact h.whole i b hb huncut
    · obtain ⟨j, rfl⟩ := Nat.exists_eq_add_of_le (not_lt.mp ‹_›)
      rw [Nat.add_sub_cancel_left] at hb
      exact hwhole j b hb huncut
  fell := by
    intro hne
    rw [hbatches]
    by_cases hsame : fallbacks' = fallbacks
    · obtain ⟨i, b, hb, hleft⟩ := h.fell (hsame ▸ hne)
      exact ⟨i, b, (getElem?_append_left (List.getElem?_eq_some_iff.mp hb).1).trans hb, hleft⟩
    · obtain ⟨i, b, hb, hleft⟩ := hfell hsame
      exact ⟨_, b, by rw [getElem?_append_right (Nat.le_add_right _ _),
        Nat.add_sub_cancel_left, hb],
        hleft⟩

theorem flush_pending (w : BatchWriter) : w.flush.pending = [] := by
  unfold flush
  split_ifs with hempty
  · exact isEmpty_iff.mp hempty
  · rfl

theorem flush_input (w : BatchWriter) : w.flush.input = w.input := by
  unfold flush
  split <;> rfl

theorem flush_of_ne_nil (h : w.pending ≠ []) : w.flush = { w with
    pending := [], batches := w.batches ++ [⟨⟨w.signal, w.pending⟩, w.first, w.last⟩] } := by
  unfold flush
  rw [if_neg (by simpa using h)]

/-- A unit that is flushed as soon as it is pending. -/
theorem flush_append_batches (hpending : w.pending = []) {full : Bytes} (hne : full ≠ []) :
    (w.append full).flush.batches = w.batches ++ [⟨⟨w.signal, full⟩, w.input, w.input⟩] := by
  have hfull : (w.append full).pending = full := by
    show w.pending ++ full = full
    rw [hpending, nil_append]
  rw [flush_of_ne_nil (by rw [hfull]; exact hne), hfull]
  simp [append, hpending]

theorem Pack.flush (h : Pack maxSize Left w fallbacks parts pend) :
    ∃ parts', Pack maxSize Left w.flush fallbacks parts' [] ∧
      parts'.flatten = parts.flatten ++ pend := by
  by_cases hempty : w.pending = []
  · have hpend := h.pend_nil hempty
    subst hpend
    have hflush : w.flush = w := by
      unfold flush
      rw [hempty]
      rfl
    exact ⟨parts, hflush.symm ▸ h, (append_nil _).symm⟩
  · have hcut : uncut maxSize ⟨⟨w.signal, w.pending⟩, w.first, w.last⟩ = false := by
      simp [uncut, not_lt.mpr h.pendSize]
    obtain ⟨hfirst, hlast⟩ := h.pendBounds hempty
    refine ⟨parts ++ [pend], ?_, by simp⟩
    rw [flush_of_ne_nil hempty]
    refine ⟨?_, rfl, forall_mem_nil _, zero_le _, absurd rfl, ?_, ?_, ?_, ?_, fun hne => ?_⟩
    · exact rel_append h.outputs (.cons ⟨h.read, h.pendRange⟩ .nil)
    · refine pairwise_append.mpr ⟨h.sorted, pairwise_singleton _ _, fun b hb b' hb' => ?_⟩
      rw [mem_singleton.mp hb']
      exact (h.bounds b hb).2.2 hempty
    · intro b hb
      rcases mem_append.mp hb with hb | hb
      · exact ⟨(h.bounds b hb).1, (h.bounds b hb).2.1, absurd rfl⟩
      · rw [mem_singleton.mp hb]
        exact ⟨hfirst, hlast, absurd rfl⟩
    · rw [countP_append, countP_singleton, hcut]
      exact h.budgeted
    · intro i b hb huncut
      rw [getElem?_append] at hb
      split at hb
      · exact h.whole i b hb huncut
      · rw [mem_singleton.mp (mem_of_getElem? hb), hcut] at huncut
        cases huncut
    · obtain ⟨i, b, hb, hleft⟩ := h.fell hne
      exact ⟨i, b, (getElem?_append_left (List.getElem?_eq_some_iff.mp hb).1).trans hb, hleft⟩

/-! ## Placing units -/

/-- The writer holds what was read so far. -/
def Holds (maxSize : Nat) (Left : Nat → OwnedBatch → Prop) (s : BatchWriter × Nat)
    (done : List Tagged) :
    Prop :=
  ∃ parts pend, Pack maxSize Left s.1 s.2 parts pend ∧ parts.flatten ++ pend = done

/-- The length of the pending bytes after a unit of `len` bytes: it is put behind them, or into a
new output, of its own if it is over the limit. -/
def fill (limit : Option Nat) (pending len : Nat) : Nat :=
  match limit with
  | none => pending + len
  | some max => if pending + len ≤ max then pending + len else if len ≤ max then len else 0

/-- The writer has placed more of its current input, and what is pending can be read to its end if
`readable` holds. -/
structure Placed (maxSize : Nat) (Left : Nat → OwnedBatch → Prop) (s s' : BatchWriter × Nat)
    (done : List Tagged) (lens : List Nat) (readable : Prop) : Prop where
  holds : Holds maxSize Left s' done
  input : s'.1.input = s.1.input
  size : s'.1.pending.length = lens.foldl (fill (some maxSize)) s.1.pending.length
  readable : readable → fullyParseable s'.1.pending = true

variable {s : BatchWriter × Nat} {done : List Tagged}

section

variable (h : Holds maxSize Left s done)

include h

theorem Holds.flush :
    ∃ parts, Pack maxSize Left s.1.flush s.2 parts [] ∧ parts.flatten = done := by
  obtain ⟨parts, pend, hpack, rfl⟩ := h
  exact hpack.flush

theorem Holds.append (hopen : fullyParseable s.1.pending = true)
    (bytes : Bytes) (hsize : s.1.pending.length + bytes.length ≤ maxSize) :
    Placed maxSize Left s (s.1.append bytes, s.2) (done ++ tag s.1.input (readRequest bytes))
      [bytes.length] (fullyParseable bytes = true) := by
  obtain ⟨parts, pend, hpack, rfl⟩ := h
  refine ⟨⟨parts, _, hpack.append hopen hsize, (append_assoc _ _ _).symm⟩, rfl, ?_,
    fullyParseable_append hopen⟩
  simp [BatchWriter.append, fill, hsize]

/-- Putting bytes into a new output. -/
theorem Holds.flush_append {bytes : Bytes} (hsize : bytes.length ≤ maxSize)
    (hfull : ¬ s.1.pending.length + bytes.length ≤ maxSize) :
    Placed maxSize Left s (s.1.flush.append bytes, s.2) (done ++ tag s.1.input (readRequest bytes))
      [bytes.length] (fullyParseable bytes = true) := by
  obtain ⟨parts, hpack, rfl⟩ := h.flush
  have hflushed : Holds maxSize Left (s.1.flush, s.2) parts.flatten :=
    ⟨parts, [], hpack, append_nil _⟩
  have hplaced := hflushed.append (by rw [flush_pending]; rfl) bytes
    (by rw [flush_pending]; simpa using hsize)
  rw [show (s.1.flush, s.2).1.input = s.1.input from flush_input s.1] at hplaced
  refine ⟨hplaced.holds, hplaced.input.trans (flush_input s.1), ?_, hplaced.readable⟩
  simp [BatchWriter.append, flush_pending, fill, hsize, hfull]

/-- Outputs of the current input alone, after what was pending. -/
theorem Holds.flush_emit (out : List OwnedBatch) (s' : BatchWriter × Nat)
    (hbatches : s'.1.batches = s.1.flush.batches ++ out) (hinput : s'.1.input = s.1.input)
    (hpending : s'.1.pending = []) (hrange : ∀ b ∈ out, b.first = s.1.input ∧ b.last = s.1.input)
    (hbudgeted : s.2 + out.countP (uncut maxSize) ≤ s'.2)
    (hwhole : ∀ i b, out[i]? = some b → uncut maxSize b = true →
      Left (s.1.flush.batches.length + i) b)
    (hfell : s'.2 ≠ s.2 → ∃ i b, out[i]? = some b ∧ Left (s.1.flush.batches.length + i) b)
    {len : Nat} (hlong : maxSize < len) (readable : Prop) :
    Placed maxSize Left s s' (done ++ tag s.1.input (readAll out)) [len] readable := by
  obtain ⟨parts, hpack, rfl⟩ := h.flush
  have hemit := hpack.emit hbatches (hinput.trans (flush_input s.1).symm) hpending
    (by rwa [flush_input]) hbudgeted hwhole hfell
  refine ⟨⟨_, _, hemit, ?_⟩, hinput, ?_, fun _ => by rw [hpending]; rfl⟩
  · rw [append_nil, flatten_append, flush_input, readAll, tag, map_flatMap]
    rfl
  · have hover : ¬ s.1.pending.length + len ≤ maxSize := by omega
    simp [hpending, fill, hover, not_le.mpr hlong]

/-- A unit that is not divided. -/
theorem pushOpaque_spec {full : Bytes} (hone : (readRequest full).length = 1)
    (hopen : s.1.pending.length + full.length ≤ maxSize → fullyParseable s.1.pending = true) :
    Placed maxSize Left s (pushOpaque s.1 full maxSize, s.2)
      (done ++ tag s.1.input (readRequest full)) [full.length] (fullyParseable full = true) := by
  unfold pushOpaque
  split_ifs with hfits
  · exact h.append (hopen hfits) full hfits
  · dsimp only
    have hpending : (s.1.flush.append full).pending = full := by
      show s.1.flush.pending ++ full = full
      rw [flush_pending, nil_append]
    have hne : full ≠ [] := by
      rintro rfl
      cases hone
    rw [hpending]
    split
    · -- The unit alone is over the limit.
      have hbatches := flush_append_batches (flush_pending s.1) hne
      rw [flush_input] at hbatches
      have hcut : uncut maxSize ⟨⟨s.1.flush.signal, full⟩, s.1.input, s.1.input⟩ = false := by
        simp [uncut, hone]
      have hplaced := h.flush_emit _ ((s.1.flush.append full).flush, s.2) hbatches
        ((flush_input _).trans (flush_input s.1)) (flush_pending _)
        (forall_mem_singleton.mpr ⟨rfl, rfl⟩)
        (by rw [countP_singleton, hcut]; exact le_refl _)
        (fun i b hb h => by
          rw [mem_singleton.mp (mem_of_getElem? hb), hcut] at h
          cases h) (absurd rfl) ‹_› (fullyParseable full = true)
      rwa [readAll_singleton] at hplaced
    · exact h.flush_append (not_lt.mp ‹_›) hfits

end

variable {f : Field}

/-- What one whole field says. -/
theorem readRequest_field (h : f.Whole) : readRequest f.full = readField f := by
  have hconcat : concat [f] = f.full := append_nil _
  rw [← hconcat, readRequest_concat (forall_mem_singleton.mpr h)]
  exact append_nil _

theorem fullyParseable_field (h : f.Whole) : fullyParseable f.full = true := by
  have hconcat : concat [f] = f.full := append_nil _
  rw [← hconcat]
  exact fullyParseable_concat (forall_mem_singleton.mpr h)

theorem uncut_of_fragment {input : Nat} {b : OwnedBatch} (h : Fragment input maxSize b) :
    uncut maxSize b = false := by
  by_cases hlong : maxSize < b.batch.bytes.length
  · simp [uncut, h.single hlong]
  · simp [uncut, hlong]

/-- Fragments after what was pending. -/
theorem Holds.flush_emits (h : Holds maxSize Left s done) {out : List OwnedBatch}
    (hemits : Emits maxSize s.1.flush w' out) {len : Nat} (hlong : maxSize < len) :
    Placed maxSize Left s (w', s.2) (done ++ tag s.1.input (readAll out)) [len] True := by
  have hcut : ∀ b ∈ out, uncut maxSize b = false := fun b hb => uncut_of_fragment (hemits.each b hb)
  have hcount : out.countP (uncut maxSize) = 0 :=
    countP_eq_zero.mpr fun b hb => by simp [hcut b hb]
  refine h.flush_emit out (w', s.2) ?_ ?_ ?_ ?_ ?_ ?_ (absurd rfl) hlong True
  · rw [hemits.eq]
  · rw [hemits.eq]
    exact flush_input s.1
  · rw [hemits.eq]
    exact flush_pending s.1
  · intro b hb
    rw [(hemits.each b hb).first, (hemits.each b hb).last, flush_input]
    exact ⟨rfl, rfl⟩
  · rw [hcount]
    exact le_refl _
  · intro i b hb huncut
    rw [hcut b (mem_of_getElem? hb)] at huncut
    cases huncut

theorem getElem?_singleton_eq_some {b b' : OwnedBatch} {i : Nat} (h : [b][i]? = some b') :
    i = 0 ∧ b' = b := by
  cases i with
  | zero => exact ⟨rfl, (Option.some.inj h).symm⟩
  | succ i => cases h

/-- An entry left whole, after what was pending. -/
theorem Holds.flush_whole (h : Holds maxSize Left s done) {payload : Bytes}
    (hlen : payload.length < isizeLimit)
    (hleft : Left s.1.flush.batches.length (topBatch s.1.flush payload)) {len : Nat}
    (hlong : maxSize < len) :
    Placed maxSize Left s (s.1.flush.emitTop payload, s.2 + 1)
      (done ++ tag s.1.input (readEntry payload)) [len] True := by
  have hfits : payload.length < 2 ^ 64 := by
    unfold isizeLimit at hlen
    omega
  have hplaced := h.flush_emit [topBatch s.1.flush payload]
    (s.1.flush.emitTop payload, s.2 + 1) rfl (flush_input s.1) (flush_pending s.1)
    (forall_mem_singleton.mpr ⟨flush_input s.1, flush_input s.1⟩)
    (Nat.add_le_add_left countP_le_length _)
    (fun i b hb _ => by
      obtain ⟨hi, rfl⟩ := getElem?_singleton_eq_some hb
      rwa [hi]) (fun _ => ⟨0, _, rfl, hleft⟩) hlong True
  rwa [readAll_topBatch hfits] at hplaced

/-- An output that is an entry over some budget counts as left whole. -/
def LeftBy (maxSize : Nat) (budgets : Budgets) (Left : Nat → OwnedBatch → Prop) (payload : Bytes) :
    Prop :=
  ∀ i b, b.batch.bytes = writeLenDelimited RESOURCE_ENTRY_FIELD payload →
    budgets.flushFragment ≤ i ∨ OverBudget maxSize budgets payload → Left i b

section

variable (h : Holds maxSize Left s done) (budgets : Budgets)
include h

/-- **A resource entry is placed whole, cut, or left whole by a budget.** -/
theorem pushResourceEntry_spec (hf : f.Whole) (hentry : isResourceEntry f = true)
    (hlen : f.full.length < isizeLimit) (hleft : LeftBy maxSize budgets Left f.value)
    (hopen : s.1.pending.length + f.full.length ≤ maxSize → fullyParseable s.1.pending = true) :
    Placed maxSize Left s (pushResourceEntry s.1 f maxSize budgets s.2)
      (done ++ tag s.1.input (readField f)) [f.full.length] True := by
  have hfull := readRequest_field hf
  have hvalue : readField f = readEntry f.value := by
    rw [readField, if_pos hentry]
  have hsmall : f.value.length < isizeLimit := lt_of_le_of_lt hf.length_value_le hlen
  have hparse := fullyParseable_field hf
  unfold pushResourceEntry
  split_ifs with hfits halone
  · rw [← hfull]
    have hplaced := h.append (hopen hfits) f.full hfits
    exact ⟨hplaced.holds, hplaced.input, hplaced.size, fun _ => hplaced.readable hparse⟩
  · rw [← hfull]
    have hplaced := h.flush_append halone hfits
    exact ⟨hplaced.holds, hplaced.input, hplaced.size, fun _ => hplaced.readable hparse⟩
  · dsimp only
    have hlong := not_le.mp halone
    rw [hvalue]
    split
    · exact h.flush_whole hsmall (hleft _ _ rfl (.inl ‹_›)) hlong
    · rcases splitResourceEntry_spec maxSize hsmall s.1.flush budgets s.2 with
        ⟨out, hemits, hread, hsame⟩ | ⟨hwhole, hover⟩
      · have hsplit : splitResourceEntry s.1.flush f.value maxSize budgets s.2 =
            ((splitResourceEntry s.1.flush f.value maxSize budgets s.2).1, s.2) :=
          Prod.ext rfl hsame
        rw [hsplit, ← hread]
        exact h.flush_emits hemits hlong
      · rw [hwhole]
        exact h.flush_whole hsmall (hleft _ _ rfl (.inr hover)) hlong

theorem pushField_spec (hf : f.Whole) (hlen : f.full.length < isizeLimit)
    (hleft : isResourceEntry f = true → LeftBy maxSize budgets Left f.value)
    (hopen : s.1.pending.length + f.full.length ≤ maxSize → fullyParseable s.1.pending = true) :
    Placed maxSize Left s (pushField maxSize budgets s f)
      (done ++ tag s.1.input (readField f)) [f.full.length] True := by
  unfold pushField
  split
  · rename_i hentry
    exact pushResourceEntry_spec h budgets hf hentry hlen (hleft hentry) hopen
  · rename_i hother
    have hread : readRequest f.full = [.other f.full] := by
      rw [readRequest_field hf, readField, if_neg hother]
    have hplaced := pushOpaque_spec h (by rw [hread]; rfl) hopen
    rw [readRequest_field hf] at hplaced
    exact ⟨hplaced.holds, hplaced.input, hplaced.size,
      fun _ => hplaced.readable (fullyParseable_field hf)⟩

/-- The fields of an input.  Only the first of them meets what was pending before. -/
theorem foldl_pushField_spec {fs : List Field} (hfs : ∀ f ∈ fs, f.Whole)
    (hlen : ∀ f ∈ fs, f.full.length < isizeLimit)
    (hleft : ∀ f ∈ fs, isResourceEntry f = true → LeftBy maxSize budgets Left f.value)
    (hopen : ∀ f ∈ fs.head?, s.1.pending.length + f.full.length ≤ maxSize →
      fullyParseable s.1.pending = true) :
    Placed maxSize Left s (fs.foldl (pushField maxSize budgets) s)
      (done ++ tag s.1.input (fs.flatMap readField)) (fs.map (·.full.length))
      (fs ≠ [] ∨ fullyParseable s.1.pending = true) := by
  induction fs generalizing s done with
  | nil => exact ⟨by simpa [tag] using h, rfl, rfl, fun hor => hor.resolve_left (absurd rfl)⟩
  | cons f fs ih =>
    obtain ⟨hf, hfs⟩ := forall_mem_cons.mp hfs
    obtain ⟨hflen, hlen⟩ := forall_mem_cons.mp hlen
    obtain ⟨hfleft, hleft⟩ := forall_mem_cons.mp hleft
    have hstep := pushField_spec h budgets hf hflen hfleft (hopen f rfl)
    have hparse := hstep.readable trivial
    have hrest := ih hstep.holds hfs hlen hleft fun _ _ _ => hparse
    rw [hstep.input, append_assoc, ← tag_append] at hrest
    exact ⟨hrest.holds, hrest.input.trans hstep.input, hrest.size.trans (by rw [hstep.size]; rfl),
      fun _ => hrest.readable (.inr hparse)⟩

end

/-- The bytes of a field are a part of the message. -/
theorem length_full_le {fs : List Field} (h : f ∈ fs) : f.full.length ≤ (concat fs).length := by
  obtain ⟨fs₁, fs₂, rfl⟩ := append_of_mem h
  simp only [concat_append, concat_cons, length_append]
  omega

/-! ## One input -/

/-- The lengths of the units in which an input is placed. -/
def unitLengths (buf : Bytes) : List Nat :=
  (fields buf).1.map (·.full.length) ++
    if (fields buf).2.isEmpty then [] else [(fields buf).2.length]

/-- The pending bytes can be read to their end, or end with a tail that cannot. -/
structure PendingEnds (torn : Bool) (pending : Bytes) : Prop where
  whole : torn = false → fullyParseable pending = true
  tail : torn = true → ∃ a t, fullyParseable a = true ∧ t ≠ [] ∧ nextField t = none ∧
    pending = a ++ t

/-- Whether the pending bytes end with an unreadable tail after an input. -/
def tornAfter (limit : Option Nat) (pending : Nat) (torn : Bool) (buf : Bytes) : Bool :=
  if (unitLengths buf).isEmpty then torn
  else !fullyParseable buf && (unitLengths buf).foldl (fill limit) pending ≠ 0

theorem pushOpaque_pending {full : Bytes}
    (hopen : w.pending.length + full.length ≤ maxSize → fullyParseable w.pending = true) :
    (pushOpaque w full maxSize).pending = [] ∨
      ∃ a, fullyParseable a = true ∧ (pushOpaque w full maxSize).pending = a ++ full := by
  unfold pushOpaque
  split_ifs with hfits
  · exact .inr ⟨w.pending, hopen hfits, rfl⟩
  · dsimp only
    split
    · exact .inl (flush_pending _)
    · exact .inr ⟨[], rfl, by simp [BatchWriter.append, flush_pending]⟩

/-- One input, the first unit of which is not put behind an unreadable tail. -/
theorem pushInput_spec (h : Holds maxSize Left s done) {torn : Bool}
    (hends : PendingEnds torn s.1.pending) {index : Nat} (hindex : s.1.input ≤ index) {buf : Bytes}
    (hlen : buf.length < isizeLimit) (budgets : Budgets)
    (hleft : ∀ f ∈ (fields buf).1, isResourceEntry f = true → LeftBy maxSize budgets Left f.value)
    (hapart : torn = true → ∀ len ∈ (unitLengths buf).head?, maxSize < s.1.pending.length + len) :
    Holds maxSize Left (pushInput maxSize budgets s index buf)
        (done ++ tag index (readRequest buf)) ∧
      (pushInput maxSize budgets s index buf).1.input = index ∧
      (pushInput maxSize budgets s index buf).1.pending.length =
        (unitLengths buf).foldl (fill (some maxSize)) s.1.pending.length ∧
      PendingEnds (tornAfter (some maxSize) s.1.pending.length torn buf)
        (pushInput maxSize budgets s index buf).1.pending := by
  obtain ⟨hbuf, hwhole, htail⟩ := fields_spec buf
  have hsizes : ∀ f ∈ (fields buf).1, f.full.length < isizeLimit := by
    intro f hf
    have hle := length_full_le hf
    rw [hbuf, length_append] at hlen
    omega
  have hset : Holds maxSize Left ({ s.1 with input := index }, s.2) done := by
    obtain ⟨parts, pend, hpack, hdone⟩ := h
    exact ⟨parts, pend, hpack.setInput hindex, hdone⟩
  have hopen : ∀ len ∈ (unitLengths buf).head?, s.1.pending.length + len ≤ maxSize →
      fullyParseable s.1.pending = true := by
    intro len hhead hfits
    cases htorn : torn with
    | false => exact hends.whole htorn
    | true => exact absurd hfits (not_le.mpr (hapart htorn len hhead))
  have hfold := foldl_pushField_spec hset budgets hwhole hsizes hleft fun f hf =>
    hopen _ (by simp [unitLengths, Option.mem_def.mp hf])
  unfold pushInput
  split_ifs with hend
  · have hunits : unitLengths buf = (fields buf).1.map (·.full.length) := by
      simp [unitLengths, hend]
    refine ⟨?_, hfold.input, hunits ▸ hfold.size, ?_⟩
    · rw [readRequest, if_pos hend, append_nil]
      exact hfold.holds
    · rw [tornAfter, hunits]
      by_cases hnil : (fields buf).1 = []
      · simpa [hnil] using hends
      · have hparse : fullyParseable buf = true := hend
        simp only [isEmpty_map, List.isEmpty_iff, hnil, if_false, hparse]
        exact ⟨fun _ => hfold.readable (.inl hnil), by simp⟩
  · have hne : (fields buf).2 ≠ [] := by simpa using hend
    have hunits : unitLengths buf = (fields buf).1.map (·.full.length) ++
        [(fields buf).2.length] := by
      simp [unitLengths, hend]
    have hread : readRequest (fields buf).2 = [.unread (fields buf).2] :=
      readRequest_unread (forall_mem_nil _) hne htail
    have hready : ((fields buf).1.foldl (pushField maxSize budgets)
        ({ s.1 with input := index }, s.2)).1.pending.length + (fields buf).2.length ≤ maxSize →
        fullyParseable ((fields buf).1.foldl (pushField maxSize budgets)
          ({ s.1 with input := index }, s.2)).1.pending = true := by
      by_cases hnil : (fields buf).1 = []
      · rw [hnil]
        exact hopen _ (by simp [hunits, hnil])
      · exact fun _ => hfold.readable (.inl hnil)
    have hplaced := pushOpaque_spec hfold.holds (by rw [hread]; rfl) hready
    have hpending := pushOpaque_pending hready
    have hsize := hplaced.size.trans (by rw [hfold.size, ← foldl_append, ← hunits])
    rw [hread, hfold.input, append_assoc, ← tag_append] at hplaced
    refine ⟨?_, hplaced.input.trans hfold.input, hsize, ?_⟩
    · rw [readRequest, if_neg hend]
      exact hplaced.holds
    · have htorn : tornAfter (some maxSize) s.1.pending.length torn buf =
          decide ((unitLengths buf).foldl (fill (some maxSize)) s.1.pending.length ≠ 0) := by
        have hparse : fullyParseable buf = false := by simpa [fullyParseable] using hend
        simp [tornAfter, hparse, hunits]
      rw [htorn, ← hsize]
      rcases hpending with hempty | ⟨a, ha, heq⟩
      · rw [hempty]
        exact ⟨fun _ => rfl, by simp⟩
      · rw [heq]
        exact ⟨fun hno => absurd hno (by simp [hne]), fun _ => ⟨a, _, ha, hne, htail, rfl⟩⟩

/-! # Rebatching preserves what the requests say

**Read one after the other, the outputs say what the inputs say** (`rebatching_preserves`), for
requests that can be read at the levels at which they are cut.

Unreadable bytes inside a resource entry stay in their entry.  Unreadable bytes at the top level of
an input are put in front of the next input, and a length prefix among them reaches into it
(`truncated_request_swallows_record`), unless the limit sets them apart or nothing follows them
(`requests_kept_apart`). -/

open List

/-- What the inputs say, with the index of each. -/
def tagInputs : Nat → List OtlpProtoBytes → List Tagged
  | _, [] => []
  | index, input :: inputs => tag index (readRequest input.bytes) ++ tagInputs (index + 1) inputs

theorem map_snd_tagInputs (index : Nat) (inputs : List OtlpProtoBytes) :
    (tagInputs index inputs).map Prod.snd =
      inputs.flatMap fun input => readRequest input.bytes := by
  induction inputs generalizing index with
  | nil => rfl
  | cons input inputs ih => simp [tagInputs, ih]

variable {inputs : List OtlpProtoBytes}

theorem fst_of_mem_tagInputs {index : Nat} {p : Tagged} (h : p ∈ tagInputs index inputs) :
    index ≤ p.1 ∧ p.1 < index + inputs.length := by
  induction inputs generalizing index with
  | nil => cases h
  | cons input inputs ih =>
    rw [length_cons]
    rcases mem_append.mp h with h | h
    · rw [fst_of_mem_tag h]
      omega
    · have hrest := ih h
      omega

/-- A buffer of the source. -/
def Addressable (inputs : List OtlpProtoBytes) : Prop :=
  ∀ input ∈ inputs, input.bytes.length < isizeLimit

/-- No unit of an input is put behind the unreadable tail of another one, where `pending` bytes are
in the output at hand, with such a tail if `torn` says so. -/
def KeptApart (limit : Option Nat) (pending : Nat) (torn : Bool) : List OtlpProtoBytes → Prop
  | [] => True
  | input :: inputs =>
    (torn = true → ∀ len ∈ (unitLengths input.bytes).head?, ∃ max ∈ limit, max < pending + len) ∧
      KeptApart limit ((unitLengths input.bytes).foldl (fill limit) pending)
        (tornAfter limit pending torn input.bytes) inputs

/-- Inputs that can be read to their end. -/
theorem keptApart_of_parseable {limit : Option Nat} {pending : Nat}
    (h : ∀ input ∈ inputs, fullyParseable input.bytes = true) :
    KeptApart limit pending false inputs := by
  induction inputs generalizing pending with
  | nil => trivial
  | cons input inputs ih =>
    obtain ⟨hinput, h⟩ := forall_mem_cons.mp h
    refine ⟨nofun, ?_⟩
    have htorn : tornAfter limit pending false input.bytes = false := by simp [tornAfter, hinput]
    rw [htorn]
    exact ih h

/-! ## The walk over the inputs -/

variable {maxSize : Nat} {Left : Nat → OwnedBatch → Prop} {s : BatchWriter × Nat}
  {done : List Tagged} {torn : Bool}

theorem pushInputs_spec (h : Holds maxSize Left s done) (hends : PendingEnds torn s.1.pending)
    {index : Nat} (hindex : s.1.input ≤ index) (hlen : Addressable inputs) (budgets : Budgets)
    (hleft : ∀ input ∈ inputs, ∀ f ∈ (fields input.bytes).1, isResourceEntry f = true →
      LeftBy maxSize budgets Left f.value)
    (hapart : KeptApart (some maxSize) s.1.pending.length torn inputs) :
    Holds maxSize Left (pushInputs maxSize budgets s index inputs)
        (done ++ tagInputs index inputs) ∧
      (inputs ≠ [] →
        (pushInputs maxSize budgets s index inputs).1.input + 1 = index + inputs.length) := by
  induction inputs generalizing s done index torn with
  | nil => exact ⟨by simpa [tagInputs, pushInputs] using h, absurd rfl⟩
  | cons input inputs ih =>
    obtain ⟨hinput, hlen⟩ := forall_mem_cons.mp hlen
    obtain ⟨hinputLeft, hleft⟩ := forall_mem_cons.mp hleft
    obtain ⟨hfirst, hapart⟩ := hapart
    obtain ⟨hholds, hat, hsize, hends⟩ := pushInput_spec h hends hindex hinput budgets hinputLeft
      (by simpa using hfirst)
    rw [← hsize] at hapart
    have hnext : (pushInput maxSize budgets s index input.bytes).1.input ≤ index + 1 :=
      hat.symm ▸ le_succ index
    obtain ⟨hrest, hlast⟩ := ih hholds hends hnext hlen hleft hapart
    refine ⟨?_, fun _ => ?_⟩
    · rwa [tagInputs, ← append_assoc]
    · rw [pushInputs]
      by_cases hnil : inputs = []
      · subst hnil
        rw [pushInputs, hat]
        rfl
      · rw [hlast hnil, length_cons]
        omega

/-- The walk over the ranges reports the inputs in none of them. -/
theorem mem_completedInputs {inputCount covered i : Nat} {batches : List OwnedBatch}
    (hsorted : batches.Pairwise fun b b' => b.last ≤ b'.first)
    (hbounds : ∀ b ∈ batches, b.first ≤ b.last ∧ b.last < inputCount)
    (hcovered : ∀ b ∈ batches, covered ≤ b.first + 1) :
    i ∈ completedInputs inputCount covered batches ↔
      covered ≤ i ∧ i < inputCount ∧ ∀ b ∈ batches, ¬(b.first ≤ i ∧ i ≤ b.last) := by
  induction batches generalizing covered with
  | nil =>
    rw [completedInputs, mem_range'_1]
    simp
    omega
  | cons b batches ih =>
    obtain ⟨hb, hbounds⟩ := forall_mem_cons.mp hbounds
    obtain ⟨hbefore, hsorted⟩ := pairwise_cons.mp hsorted
    have hb' := hcovered b mem_cons_self
    have hrest := ih hsorted hbounds fun b' h' => succ_le_succ (hbefore b' h')
    rw [completedInputs, mem_append, hrest, mem_range'_1, forall_mem_cons]
    constructor
    · rintro (hlow | ⟨hle, hlt, hnone⟩)
      · refine ⟨hlow.1, by omega, by omega, fun b' h' => ?_⟩
        have hfirst := hbefore b' h'
        omega
      · exact ⟨by omega, hlt, by omega, hnone⟩
    · rintro ⟨hle, hlt, hnot, hnone⟩
      by_cases hlow : i < b.first
      · omega
      · right
        exact ⟨by omega, hlt, hnone⟩

/-! ## The whole call -/

/-- The entry with this payload exceeds a budget that the caller has named, as the output with index
`i`: so many outputs stand in front of it, or cutting it takes too many fragments or too long ones.
(No call of the source has `usizeMax` outputs.) -/
def ExceedsBudget (fragmentBudget overheadBudget flushFragmentBudget : Option Nat)
    (maxSize i : Nat) (payload : Bytes) : Prop :=
  ((∃ n ∈ flushFragmentBudget, n ≤ i) ∨ usizeMax ≤ i) ∨
    (∃ n ∈ fragmentBudget, n < projected (children (fields payload).1)) ∨
      ∃ n ∈ overheadBudget, ∃ input out, (∀ b ∈ out, Fragment input maxSize b) ∧
        readAll out <+: readEntry payload ∧
        wrappedLen RESOURCE_ENTRY_FIELD payload.length + n < totalLen out

/-- The output is an entry of an input and exceeds a budget. -/
def LeftWhole (fragmentBudget overheadBudget flushFragmentBudget : Option Nat) (limit : Nat)
    (inputs : List OtlpProtoBytes) (i : Nat) (b : OwnedBatch) : Prop :=
  ∃ input ∈ inputs, ∃ f ∈ (fields input.bytes).1, isResourceEntry f = true ∧
    b.batch.bytes = writeLenDelimited RESOURCE_ENTRY_FIELD f.value ∧
    ExceedsBudget fragmentBudget overheadBudget flushFragmentBudget (min limit usizeMax) i f.value

/-- What a rebatching call owes its caller. -/
structure Rebatched (maxBytes fragmentBudget overheadBudget flushFragmentBudget : Option Nat)
    (inputs : List OtlpProtoBytes) (r : BatchingResult) : Prop where
  /-- The outputs say what the inputs say, cut into one part for each output, and every part comes
  from inputs in the output's range. -/
  records : ∃ parts, List.Forall₂ Matches r.batches parts ∧ parts.flatten = tagInputs 0 inputs
  /-- An output over the limit holds one item or is an entry of an input, over a budget. -/
  oversized : ∀ limit, maxBytes = some limit → ∀ i b, r.batches[i]? = some b →
    limit < b.batch.bytes.length → (readRequest b.batch.bytes).length = 1 ∨
      LeftWhole fragmentBudget overheadBudget flushFragmentBudget limit inputs i b
  /-- Entries that could have been cut are counted. -/
  budgeted : ∀ limit, maxBytes = some limit →
    r.batches.countP (uncut limit) ≤ r.budgetFallbacks
  /-- Without an entry over a budget nothing is counted. -/
  unbudgeted : r.budgetFallbacks ≠ 0 → ∃ limit, maxBytes = some limit ∧ ∃ i b,
    r.batches[i]? = some b ∧
      LeftWhole fragmentBudget overheadBudget flushFragmentBudget limit inputs i b
  completed : ∀ i, i ∈ r.completedInputs ↔
    i < inputs.length ∧ ∀ b ∈ r.batches, ¬(b.first ≤ i ∧ i ≤ b.last)

/-- Everything as one output. -/
theorem single_batches (signal : Node.SignalType) (hne : inputs ≠ []) :
    ∃ b, single signal inputs = ⟨[b], [], 0⟩ ∧ b.batch.bytes = inputs.flatMap (·.bytes) ∧
      b.first = 0 ∧ b.last + 1 = inputs.length := by
  match inputs, hne with
  | [input], _ => exact ⟨⟨input, 0, 0⟩, rfl, by simp, rfl, rfl⟩
  | input :: next :: inputs, _ => exact ⟨_, rfl, rfl, rfl, rfl⟩

variable {maxBytes fragmentBudget overheadBudget flushFragmentBudget : Option Nat}

theorem single_spec (signal : Node.SignalType) (hne : inputs ≠ [])
    (hread : readRequest (inputs.flatMap (·.bytes)) =
      inputs.flatMap fun input => readRequest input.bytes)
    (hfits : ∀ limit, maxBytes = some limit → (inputs.map (·.bytes.length)).sum ≤ limit) :
    Rebatched maxBytes fragmentBudget overheadBudget flushFragmentBudget inputs
      (single signal inputs) := by
  obtain ⟨b, heq, hbytes, hfirst, hlast⟩ := single_batches signal hne
  have hshort : ∀ limit, maxBytes = some limit → ¬ limit < b.batch.bytes.length := by
    intro limit hlimit
    rw [hbytes, length_flatMap]
    exact not_lt.mpr (hfits limit hlimit)
  rw [heq]
  refine ⟨⟨[tagInputs 0 inputs], .cons ⟨?_, fun p hp => ?_⟩ .nil, append_nil _⟩,
    fun limit hlimit i b' hb => ?_, fun limit hlimit => ?_, absurd rfl, fun i => ?_⟩
  · rw [hbytes, hread, map_snd_tagInputs]
  · have hindex := fst_of_mem_tagInputs hp
    omega
  · rw [mem_singleton.mp (mem_of_getElem? hb)]
    exact fun hlong => absurd hlong (hshort limit hlimit)
  · simp [uncut, hshort limit hlimit]
  · simp only [not_mem_nil, forall_mem_singleton, false_iff, not_and]
    omega

theorem uncut_of_lt {limit : Nat} (hle : maxSize ≤ limit) {b : OwnedBatch}
    (h : uncut limit b = true) : uncut maxSize b = true := by
  simp only [uncut, Bool.and_eq_true, decide_eq_true_eq] at h ⊢
  exact ⟨lt_of_le_of_lt hle h.1, h.2⟩

theorem length_value_lt {buf : Bytes} (hlen : buf.length < isizeLimit) {f : Field}
    (hf : f ∈ (fields buf).1) : f.value.length < isizeLimit := by
  obtain ⟨hbuf, hwhole, -⟩ := fields_spec buf
  have hvalue := (hwhole f hf).length_value_le
  have hle := length_full_le hf
  rw [hbuf, length_append] at hlen
  omega

/-- The bound that the source takes for a budget. -/
abbrev boundOf (budget : Option Nat) : Nat := (budget.map (min · usizeMax)).getD usizeMax

/-- A bound below the largest number is that of a budget. -/
theorem boundOf_lt {budget : Option Nat} (h : boundOf budget < usizeMax) :
    ∃ n ∈ budget, boundOf budget = n := by
  cases budget with
  | none => exact absurd h (lt_irrefl _)
  | some n =>
    refine ⟨n, rfl, ?_⟩
    simp only [boundOf, Option.map_some, Option.getD_some] at h ⊢
    omega

theorem exceedsBudget_of_overBudget {payload : Bytes} (hlen : payload.length < isizeLimit) {i : Nat}
    (h : boundOf flushFragmentBudget ≤ i ∨ OverBudget maxSize
      ⟨boundOf fragmentBudget, boundOf overheadBudget, boundOf flushFragmentBudget⟩ payload) :
    ExceedsBudget fragmentBudget overheadBudget flushFragmentBudget maxSize i payload := by
  rcases h with hflush | hmany | ⟨input, out, hout, hfirst, hlong⟩
  · by_cases hlarge : usizeMax ≤ i
    · exact .inl (.inr hlarge)
    · obtain ⟨n, hn, heq⟩ := @boundOf_lt flushFragmentBudget (by omega)
      exact .inl (.inl ⟨n, hn, heq ▸ hflush⟩)
  · have hfits := (lengthsFit hlen).fragments
    obtain ⟨n, hn, heq⟩ := @boundOf_lt fragmentBudget (lt_of_lt_of_le hmany hfits)
    exact .inr (.inl ⟨n, hn, heq ▸ hmany⟩)
  · dsimp only at hlong
    obtain ⟨n, hn, heq⟩ := @boundOf_lt overheadBudget (by omega)
    exact .inr (.inr ⟨n, hn, input, out, hout, hfirst, by omega⟩)

theorem holds_start (signal : Node.SignalType) (Left : Nat → OwnedBatch → Prop) :
    Holds maxSize Left (⟨signal, 0, 0, 0, [], []⟩, 0) [] :=
  ⟨[], [], ⟨.nil, rfl, forall_mem_nil _, zero_le _, absurd rfl, .nil, forall_mem_nil _, le_refl _,
    nofun, absurd rfl⟩, rfl⟩

theorem packed_spec (signal : Node.SignalType) (hne : inputs ≠ []) (hlen : Addressable inputs)
    (limit : Nat) (hapart : KeptApart (some (min limit usizeMax)) 0 false inputs) :
    let packed := pushInputs (min limit usizeMax)
      ⟨boundOf fragmentBudget, boundOf overheadBudget, boundOf flushFragmentBudget⟩
      (⟨signal, 0, 0, 0, [], []⟩, 0) 0 inputs
    Rebatched (some limit) fragmentBudget overheadBudget flushFragmentBudget inputs
      ⟨packed.1.flush.batches, completedInputs inputs.length 0 packed.1.flush.batches,
        packed.2⟩ := by
  intro packed
  have hends : PendingEnds false [] := ⟨fun _ => rfl, nofun⟩
  obtain ⟨hholds, hinput⟩ := pushInputs_spec (holds_start signal
    (LeftWhole fragmentBudget overheadBudget flushFragmentBudget limit inputs)) hends
    (le_refl 0) hlen
    ⟨boundOf fragmentBudget, boundOf overheadBudget, boundOf flushFragmentBudget⟩
    (fun input hinput f hf hentry i b hb hover => ⟨input, hinput, f, hf, hentry, hb,
      exceedsBudget_of_overBudget (length_value_lt (hlen input hinput) hf) hover⟩) hapart
  obtain ⟨parts, hpack, hdone⟩ := hholds.flush
  have hlast := hinput hne
  have hbounds : ∀ b ∈ packed.1.flush.batches, b.first ≤ b.last ∧ b.last < inputs.length := by
    intro b hb
    obtain ⟨hrange, hle, -⟩ := hpack.bounds b hb
    rw [flush_input] at hle
    omega
  refine ⟨⟨parts, hpack.outputs, hdone⟩, ?_, ?_, fun hne => ⟨limit, rfl, hpack.fell hne⟩,
    fun i => ?_⟩
  · rintro limit' ⟨⟩ i b hb hlong
    by_cases hone : (readRequest b.batch.bytes).length = 1
    · exact .inl hone
    · have huncut : uncut limit b = true := by simp [uncut, hlong, hone]
      exact .inr (hpack.whole i b hb (uncut_of_lt (min_le_left _ _) huncut))
  · rintro limit' ⟨⟩
    exact le_trans
      (countP_mono_left fun b _ h => uncut_of_lt (min_le_left _ _) h) hpack.budgeted
  · rw [mem_completedInputs hpack.sorted hbounds fun b _ => zero_le _]
    exact ⟨fun h => h.2, fun h => ⟨zero_le i, h⟩⟩

/-! ## Behind an unreadable tail -/

theorem readAll_of_matches {batches : List OwnedBatch} {parts : List (List Tagged)}
    (h : List.Forall₂ Matches batches parts) : readAll batches = parts.flatten.map Prod.snd := by
  induction h with
  | nil => rfl
  | cons hb _ ih =>
    rw [flatten_cons, map_append, ← ih, ← hb.read]
    rfl


/-- What comes next begins with what is pending. -/
def Grows (w w' : BatchWriter) : Prop :=
  ∃ more, w'.batches = w.batches ++ more ∧
    w.pending <+: ((more.head?.map (·.batch.bytes)).getD w'.pending)

variable {w w' w'' : BatchWriter}

theorem Grows.refl (w : BatchWriter) : Grows w w := ⟨[], (append_nil _).symm, prefix_rfl⟩

theorem Grows.trans (h : Grows w w') (h' : Grows w' w'') : Grows w w'' := by
  obtain ⟨more, hmore, hfirst⟩ := h
  obtain ⟨more', hmore', hfirst'⟩ := h'
  refine ⟨more ++ more', by rw [hmore', hmore, append_assoc], ?_⟩
  cases more with
  | nil => exact hfirst.trans hfirst'
  | cons b more => exact hfirst

theorem grows_append (w : BatchWriter) (bytes : Bytes) : Grows w (w.append bytes) :=
  ⟨[], (append_nil _).symm, prefix_append _ _⟩

theorem grows_flush (w : BatchWriter) : Grows w w.flush := by
  by_cases hempty : w.pending = []
  · exact ⟨[], by simp [BatchWriter.flush, hempty], by simp [hempty]⟩
  · rw [flush_of_ne_nil hempty]
    exact ⟨_, rfl, prefix_rfl⟩

theorem grows_pushOpaque (w : BatchWriter) (full : Bytes) (maxSize : Nat) :
    Grows w (pushOpaque w full maxSize) := by
  have hnew := (grows_flush w).trans (grows_append w.flush full)
  unfold pushOpaque
  split_ifs
  · exact grows_append w full
  · dsimp only
    split
    · exact hnew.trans (grows_flush _)
    · exact hnew

theorem grows_pushField (budgets : Budgets) (s : BatchWriter × Nat) {f : Field} (hf : f.Whole)
    (hlen : f.full.length < isizeLimit) : Grows s.1 (pushField maxSize budgets s f).1 := by
  have houtputs : ∀ {w' : BatchWriter} {out}, w'.batches = s.1.flush.batches ++ out →
      Grows s.1 w' := fun hout =>
    (grows_flush s.1).trans ⟨_, hout, by rw [flush_pending]; exact nil_prefix⟩
  unfold pushField pushResourceEntry
  split_ifs
  · exact grows_append _ _
  · exact (grows_flush _).trans (grows_append _ _)
  · dsimp only
    split_ifs
    · exact houtputs rfl
    · have hsmall : f.value.length < isizeLimit := lt_of_le_of_lt hf.length_value_le hlen
      rcases splitResourceEntry_spec maxSize hsmall s.1.flush budgets s.2 with
        ⟨out, hemits, -⟩ | ⟨hwhole, -⟩
      · exact houtputs (by rw [hemits.eq])
      · rw [hwhole]
        exact houtputs rfl
  · exact grows_pushOpaque _ _ _

theorem grows_foldl_pushField (budgets : Budgets) {fs : List Field} (hfs : ∀ f ∈ fs, f.Whole)
    (hlen : ∀ f ∈ fs, f.full.length < isizeLimit) (s : BatchWriter × Nat) :
    Grows s.1 (fs.foldl (pushField maxSize budgets) s).1 := by
  induction fs generalizing s with
  | nil => exact .refl _
  | cons f fs ih =>
    obtain ⟨hf, hfs⟩ := forall_mem_cons.mp hfs
    obtain ⟨hflen, hlen⟩ := forall_mem_cons.mp hlen
    exact (grows_pushField budgets s hf hflen).trans (ih hfs hlen _)

theorem grows_pushInput (budgets : Budgets) (s : BatchWriter × Nat) (index : Nat) {buf : Bytes}
    (hlen : buf.length < isizeLimit) : Grows s.1 (pushInput maxSize budgets s index buf).1 := by
  obtain ⟨hbuf, hwhole, -⟩ := fields_spec buf
  have hsizes : ∀ f ∈ (fields buf).1, f.full.length < isizeLimit := by
    intro f hf
    have hle := length_full_le hf
    rw [hbuf, length_append] at hlen
    omega
  have hfold := @grows_foldl_pushField maxSize budgets _ hwhole hsizes
    ({ s.1 with input := index }, s.2)
  unfold pushInput
  split_ifs
  · exact hfold
  · exact hfold.trans (grows_pushOpaque _ _ _)

theorem grows_pushInputs (budgets : Budgets) (s : BatchWriter × Nat) (index : Nat)
    (hlen : Addressable inputs) : Grows s.1 (pushInputs maxSize budgets s index inputs).1 := by
  induction inputs generalizing s index with
  | nil => exact .refl _
  | cons input inputs ih =>
    obtain ⟨hinput, hlen⟩ := forall_mem_cons.mp hlen
    exact (grows_pushInput budgets s index hinput).trans (ih _ _ hlen)

/-- No field is read as an unreadable tail. -/
theorem ne_unread_of_mem_readField {f : Field} {item : Item} (h : item ∈ readField f) (t : Bytes) :
    item ≠ .unread t := by
  rintro rfl
  unfold readField readEntry readScope at h
  grind

theorem readField_ne_nil (f : Field) : readField f ≠ [] := by
  unfold readField
  split
  · exact readEntry_ne_nil _
  · exact cons_ne_nil _ _

/-- Bytes behind an unreadable tail: it is not read as such any more. -/
theorem readRequest_tail_append {t v : Bytes} (hv : v ≠ []) :
    ∃ item items, readRequest (t ++ v) = item :: items ∧ item ≠ .unread t := by
  have hspec := (fields_spec (t ++ v)).1
  unfold readRequest
  cases hfields : (fields (t ++ v)).1 with
  | nil =>
    rw [hfields, Protobuf.concat_nil, nil_append] at hspec
    rw [← hspec]
    refine ⟨.unread (t ++ v), [], by simp [hv], fun h => hv ?_⟩
    exact append_right_eq_self.mp (Item.unread.inj h)
  | cons f fs =>
    obtain ⟨item, items, hitems⟩ := ne_nil_iff_exists_cons.mp (readField_ne_nil f)
    refine ⟨item, _, by rw [flatMap_cons, hitems, cons_append, cons_append], ?_⟩
    exact ne_unread_of_mem_readField (hitems ▸ mem_cons_self) t

/-- The first unit of an input, behind what is pending. -/
theorem pushInput_behind (budgets : Budgets) (s : BatchWriter × Nat) (index : Nat) {buf : Bytes}
    (hlen : buf.length < isizeLimit) {len : Nat} (hhead : len ∈ (unitLengths buf).head?)
    (hfits : s.1.pending.length + len ≤ maxSize) :
    ∃ u, u ≠ [] ∧ Grows ({ s.1 with input := index }.append u)
      (pushInput maxSize budgets s index buf).1 := by
  obtain ⟨hbuf, hwhole, -⟩ := fields_spec buf
  have hsizes : ∀ f ∈ (fields buf).1, f.full.length < isizeLimit := by
    intro f hf
    have hle := length_full_le hf
    rw [hbuf, length_append] at hlen
    omega
  unfold pushInput unitLengths at *
  cases hfields : (fields buf).1 with
  | nil =>
    rw [hfields] at hhead
    by_cases hend : (fields buf).2.isEmpty = true
    · simp [hend] at hhead
    · simp [hend] at hhead
      refine ⟨(fields buf).2, by simpa using hend, ?_⟩
      rw [if_neg hend, foldl_nil, pushOpaque, if_pos (by rw [hhead]; exact hfits)]
      exact .refl _
  | cons f fs =>
    rw [hfields] at hhead hwhole hsizes
    simp at hhead
    obtain ⟨hf, hfs⟩ := forall_mem_cons.mp hwhole
    obtain ⟨-, hsizes⟩ := forall_mem_cons.mp hsizes
    refine ⟨f.full, hf.full_ne_nil, ?_⟩
    have hfirst : (pushField maxSize budgets ({ s.1 with input := index }, s.2) f).1 =
        { s.1 with input := index }.append f.full := by
      have hroom : s.1.pending.length + f.full.length ≤ maxSize := by rwa [hhead]
      simp only [pushField, pushResourceEntry, pushOpaque, hroom, if_true]
      split <;> rfl
    have hfold := @grows_foldl_pushField maxSize budgets fs hfs hsizes
      (pushField maxSize budgets ({ s.1 with input := index }, s.2) f)
    rw [hfirst] at hfold
    rw [foldl_cons]
    split
    · exact hfold
    · exact hfold.trans (grows_pushOpaque _ _ _)

/-- A unit behind an unreadable tail: the outputs do not say what the inputs say. -/
theorem pushInputs_torn (h : Holds maxSize Left s done) (hends : PendingEnds torn s.1.pending)
    {index : Nat} (hindex : s.1.input ≤ index) (hlen : Addressable inputs) (budgets : Budgets)
    (hleft : ∀ input ∈ inputs, ∀ f ∈ (fields input.bytes).1, isResourceEntry f = true →
      LeftBy maxSize budgets Left f.value)
    (hapart : ¬ KeptApart (some maxSize) s.1.pending.length torn inputs) :
    readAll (pushInputs maxSize budgets s index inputs).1.flush.batches ≠
      (done ++ tagInputs index inputs).map Prod.snd := by
  induction inputs generalizing s done index torn with
  | nil => exact absurd trivial hapart
  | cons input inputs ih =>
    obtain ⟨hinput, hrest⟩ := forall_mem_cons.mp hlen
    obtain ⟨hinputLeft, hleft'⟩ := forall_mem_cons.mp hleft
    by_cases hfirst : torn = true → ∀ len ∈ (unitLengths input.bytes).head?,
        ∃ max ∈ some maxSize, max < s.1.pending.length + len
    · -- this input does no harm
      obtain ⟨hholds, hat, hsize, hends'⟩ := pushInput_spec h hends hindex hinput budgets hinputLeft
        (by simpa using hfirst)
      rw [pushInputs, tagInputs, ← append_assoc]
      refine ih hholds hends' (hat.symm ▸ le_succ index) hrest hleft' ?_
      rw [hsize]
      exact fun hok => hapart ⟨hfirst, hok⟩
    · push Not at hfirst
      obtain ⟨htorn, len, hhead, hfits⟩ := hfirst
      obtain ⟨a, t, ha, hne, ht, hpending⟩ := hends.tail htorn
      obtain ⟨u, hu, hbehind⟩ := pushInput_behind budgets s index hinput hhead
        (hfits maxSize rfl)
      obtain ⟨more, hmore, hbegins⟩ := (hbehind.trans
        (grows_pushInputs budgets _ (index + 1) hrest)).trans (grows_flush _)
      have hat : ({ s.1 with input := index }.append u : BatchWriter).pending = a ++ (t ++ u) := by
        simp [BatchWriter.append, hpending]
      rw [hat, flush_pending] at hbegins
      cases more with
      | nil => simp [hne] at hbegins
      | cons b more =>
        obtain ⟨x, hx⟩ := hbegins
        obtain ⟨item, items, hread, hother⟩ := @readRequest_tail_append t (u ++ x) (by simp [hu])
        have hout : readRequest b.batch.bytes = readRequest a ++ item :: items := by
          rw [← hread, ← readRequest_append ha]
          exact congrArg _ (by simpa using hx.symm)
        obtain ⟨parts, pend, hpack, rfl⟩ := h
        have hdone : (parts.flatten ++ pend).map Prod.snd =
            readAll s.1.batches ++ (readRequest a ++ [.unread t]) := by
          rw [map_append, ← readAll_of_matches hpack.outputs, ← hpack.read, hpending,
            readRequest_append ha]
          congr 2
          exact readRequest_unread (forall_mem_nil _) hne ht
        intro heq
        rw [pushInputs, hmore, map_append, hdone] at heq
        have hbatches : ({ s.1 with input := index }.append u : BatchWriter).batches =
            s.1.batches := rfl
        rw [hbatches, readAll_append, append_assoc] at heq
        have htail := append_cancel_left heq
        rw [readAll, flatMap_cons, hout, append_assoc, append_assoc] at htail
        exact hother (cons.inj (append_cancel_left htail)).1

/-! ## Without a limit -/

theorem unitLengths_eq_nil {buf : Bytes} : unitLengths buf = [] ↔ buf = [] := by
  have hspec := (fields_spec buf).1
  constructor
  · intro h
    simp only [unitLengths, append_eq_nil_iff, map_eq_nil_iff] at h
    by_cases hend : (fields buf).2.isEmpty = true
    · rw [hspec, h.1, isEmpty_iff.mp hend]
      rfl
    · simp [hend] at h
  · rintro rfl
    rfl

theorem keptApart_none_torn (pending : Nat) :
    KeptApart none pending true inputs ↔ inputs.flatMap (·.bytes) = [] := by
  induction inputs generalizing pending with
  | nil => simp [KeptApart]
  | cons input inputs ih =>
    rw [KeptApart, flatMap_cons, append_eq_nil_iff, ← @unitLengths_eq_nil input.bytes]
    cases hunits : unitLengths input.bytes with
    | nil => simp [tornAfter, hunits, ih]
    | cons len units => simp

theorem foldl_fill_none (pending : Nat) (lens : List Nat) :
    lens.foldl (fill none) pending = pending + lens.sum := by
  induction lens generalizing pending with
  | nil => rfl
  | cons len lens ih =>
    rw [foldl_cons, ih, sum_cons, fill, add_assoc]

theorem readRequest_flatMap (pending : Nat) :
    readRequest (inputs.flatMap (·.bytes)) = (inputs.flatMap fun input => readRequest input.bytes) ↔
      KeptApart none pending false inputs := by
  induction inputs generalizing pending with
  | nil => exact iff_of_true rfl trivial
  | cons input inputs ih =>
    obtain ⟨hbuf, hwhole, htail⟩ := fields_spec input.bytes
    rw [KeptApart, and_iff_right (nofun : false = true → _), flatMap_cons, flatMap_cons]
    by_cases hparse : fullyParseable input.bytes = true
    · have htorn : tornAfter none pending false input.bytes = false := by simp [tornAfter, hparse]
      rw [htorn, readRequest_append hparse, append_cancel_left_eq, ih]
    · have hend : ¬ (fields input.bytes).2.isEmpty = true := hparse
      have hne : (fields input.bytes).2 ≠ [] := by simpa using hend
      have hunits : unitLengths input.bytes ≠ [] := by simp [unitLengths, hend]
      have htorn : tornAfter none pending false input.bytes = true := by
        simp only [tornAfter, List.isEmpty_iff, hunits, if_false, hparse, foldl_fill_none]
        simp [unitLengths, hend, hne]
      rw [htorn, keptApart_none_torn]
      have hread : readRequest input.bytes =
          (fields input.bytes).1.flatMap readField ++ [.unread (fields input.bytes).2] := by
        rw [readRequest, if_neg hend]
      have hall : readRequest (input.bytes ++ inputs.flatMap (·.bytes)) =
          (fields input.bytes).1.flatMap readField ++
            readRequest ((fields input.bytes).2 ++ inputs.flatMap (·.bytes)) := by
        conv_lhs => rw [hbuf, append_assoc]
        rw [readRequest_append (fullyParseable_concat hwhole), readRequest_concat hwhole]
      rw [hread, hall, append_assoc, append_cancel_left_eq]
      constructor
      · intro heq
        by_contra hmore
        obtain ⟨item, items, hitems, hother⟩ :=
          @readRequest_tail_append (fields input.bytes).2 _ hmore
        rw [hitems] at heq
        exact hother (cons.inj heq).1
      · intro hnil
        have hempty : (inputs.flatMap fun input => readRequest input.bytes) = [] := by
          rw [flatMap_eq_nil_iff] at hnil ⊢
          exact fun input hinput => by rw [hnil input hinput]; rfl
        rw [hnil, hempty, append_nil]
        exact readRequest_unread (forall_mem_nil _) hne htail

theorem makeBytesBatchesOwned_spec (signal : Node.SignalType) (hlen : Addressable inputs)
    (hsome : (inputs.map (·.bytes.length)).sum ≠ 0)
    (hapart : KeptApart (maxBytes.map (min · usizeMax)) 0 false inputs) :
    ∃ r, makeBytesBatchesOwned signal maxBytes fragmentBudget overheadBudget flushFragmentBudget
      inputs = .ok r ∧
      Rebatched maxBytes fragmentBudget overheadBudget flushFragmentBudget inputs r := by
  have hne : inputs ≠ [] := by
    rintro rfl
    exact hsome rfl
  unfold makeBytesBatchesOwned
  rw [if_neg (by simpa using hne), if_neg hsome]
  cases maxBytes with
  | none => exact ⟨_, rfl, single_spec signal hne ((readRequest_flatMap 0).mpr hapart) nofun⟩
  | some limit =>
    dsimp only
    split_ifs with hfits
    · obtain ⟨hone, hle⟩ := Bool.and_eq_true_iff.mp hfits
      obtain ⟨input, rfl⟩ := length_eq_one_iff.mp (of_decide_eq_true hone)
      refine ⟨_, rfl, single_spec signal hne (by simp) ?_⟩
      rintro limit' ⟨⟩
      exact le_trans (of_decide_eq_true hle) (min_le_left _ _)
    · exact ⟨_, rfl, packed_spec signal hne hlen limit hapart⟩

theorem sum_ne_zero (h : ∃ input ∈ inputs, input.bytes ≠ []) :
    (inputs.map (·.bytes.length)).sum ≠ 0 := by
  obtain ⟨input, hinput, hne⟩ := h
  intro hzero
  have hlength := sum_eq_zero_iff.mp hzero input.bytes.length (mem_map_of_mem hinput)
  exact hne (eq_nil_of_length_eq_zero hlength)

/-! ## The results -/

/-- Every field of the request, of its resource entries and of their scopes can be read. -/
def WellFormed (input : OtlpProtoBytes) : Prop :=
  fullyParseable input.bytes = true ∧
    ∀ f ∈ (fields input.bytes).1, isResourceEntry f = true → splittable f.value = true

instance (input : OtlpProtoBytes) : Decidable (WellFormed input) :=
  inferInstanceAs (Decidable (_ ∧ _))

/-- **Rebatching preserves records.** -/
theorem rebatching_preserves (signal : Node.SignalType)
    (maxBytes fragmentBudget overheadBudget flushFragmentBudget : Option Nat)
    (inputs : List OtlpProtoBytes) (hlen : Addressable inputs)
    (hwell : ∀ input ∈ inputs, WellFormed input) (hsome : ∃ input ∈ inputs, input.bytes ≠ []) :
    ∃ r, makeBytesBatchesOwned signal maxBytes fragmentBudget overheadBudget flushFragmentBudget
      inputs = .ok r ∧
      Rebatched maxBytes fragmentBudget overheadBudget flushFragmentBudget inputs r :=
  makeBytesBatchesOwned_spec signal hlen (sum_ne_zero hsome)
    (keptApart_of_parseable fun input hinput => (hwell input hinput).1)

/-- A request with one record, to be cut at four bytes, which are not enough for it. -/
def oneRecord : OtlpProtoBytes :=
  ⟨.logs, [0x0A, 0x06, 0x12, 0x04, 0x12, 0x02, 0x08, 0x01]⟩

/-- A request with two records, which is left whole if one fragment is allowed. -/
def twoRecords : OtlpProtoBytes :=
  ⟨.logs, [0x0A, 0x0A, 0x12, 0x08, 0x12, 0x02, 0x08, 0x01, 0x12, 0x02, 0x08, 0x02]⟩

theorem rebatching_preserves_two_requests :
    ∃ r, makeBytesBatchesOwned .logs (some 4) (some 1) none none [oneRecord, twoRecords] = .ok r ∧
      Rebatched (some 4) (some 1) none none [oneRecord, twoRecords] r :=
  rebatching_preserves .logs (some 4) (some 1) none none [oneRecord, twoRecords]
    (forall_mem_cons.mpr ⟨by decide, forall_mem_singleton.mpr (by decide)⟩)
    (forall_mem_cons.mpr ⟨by decide +kernel, forall_mem_singleton.mpr (by decide +kernel)⟩)
    ⟨oneRecord, mem_cons_self, by decide⟩

/-- **Requests are kept apart**: the outputs say of each input what it says, one after the other, if
and only if no unit is put behind the unreadable tail of an input. -/
theorem requests_kept_apart (signal : Node.SignalType)
    (maxBytes fragmentBudget overheadBudget flushFragmentBudget : Option Nat)
    (inputs : List OtlpProtoBytes) (hlen : Addressable inputs)
    (hsome : ∃ input ∈ inputs, input.bytes ≠ []) :
    (∃ r, makeBytesBatchesOwned signal maxBytes fragmentBudget overheadBudget flushFragmentBudget
        inputs = .ok r ∧
      readAll r.batches = inputs.flatMap fun input => readRequest input.bytes) ↔
    KeptApart (maxBytes.map (min · usizeMax)) 0 false inputs := by
  have htotal := sum_ne_zero hsome
  constructor
  · rintro ⟨r, hr, hread⟩
    have hne : inputs ≠ [] := by
      rintro rfl
      exact htotal rfl
    unfold makeBytesBatchesOwned at hr
    rw [if_neg (by simpa using hne), if_neg htotal] at hr
    cases maxBytes with
    | none =>
      cases hr
      obtain ⟨b, heq, hbytes, -⟩ := single_batches signal hne
      rw [heq, readAll_singleton, hbytes] at hread
      exact (readRequest_flatMap 0).mp hread
    | some limit =>
      by_contra hapart
      dsimp only at hr
      split_ifs at hr with hfits
      · -- one input, which has nothing in front of it
        obtain ⟨input, rfl⟩ := length_eq_one_iff.mp
          (of_decide_eq_true (Bool.and_eq_true_iff.mp hfits).1)
        exact hapart ⟨nofun, trivial⟩
      · cases hr
        have hends : PendingEnds false [] := ⟨fun _ => rfl, nofun⟩
        have hdiffers := pushInputs_torn (holds_start signal fun _ _ => True) hends (le_refl 0) hlen
          ⟨boundOf fragmentBudget, boundOf overheadBudget, boundOf flushFragmentBudget⟩
          (fun _ _ _ _ _ _ _ _ _ => trivial) hapart
        rw [nil_append, map_snd_tagInputs] at hdiffers
        exact hdiffers hread
  · intro hapart
    obtain ⟨r, hr, hrebatched⟩ := makeBytesBatchesOwned_spec signal hlen htotal hapart
    obtain ⟨parts, hmatches, hflatten⟩ := hrebatched.records
    refine ⟨r, hr, ?_⟩
    rw [readAll_of_matches hmatches, hflatten, map_snd_tagInputs]

/-- A request that ends inside its only field, which announces five bytes. -/
def truncated : OtlpProtoBytes := ⟨.logs, [0x0A, 0x05]⟩

/-- A limit that sets the truncated request apart from the next one. -/
theorem requests_kept_apart_truncated :
    ∃ r, makeBytesBatchesOwned .logs (some 9) none none none [truncated, oneRecord] = .ok r ∧
      readAll r.batches =
        [truncated, oneRecord].flatMap fun input => readRequest input.bytes := by
  refine (requests_kept_apart .logs (some 9) none none none [truncated, oneRecord]
    (forall_mem_cons.mpr ⟨by decide, forall_mem_singleton.mpr (by decide)⟩)
    ⟨oneRecord, mem_cons_of_mem _ mem_cons_self, by decide⟩).mpr ?_
  have hfirst : unitLengths truncated.bytes = [2] := by decide +kernel
  have hsecond : unitLengths oneRecord.bytes = [8] := by decide +kernel
  simp [KeptApart, hfirst, hsecond, fill, usizeMax]

/-- In front of another request, the announced bytes are taken from it: its record is no longer
found, with and without a limit. -/
theorem truncated_request_swallows_record :
    WellFormed oneRecord ∧ readRequest oneRecord.bytes = [.record [] [] [0x12, 0x02, 0x08, 0x01]] ∧
      ∀ maxBytes ∈ [none, some 64],
        (makeBytesBatchesOwned .logs maxBytes none none none [truncated, oneRecord]).toOption.map
            (fun r => readAll r.batches) =
          some [.malformed [0x0A, 0x06, 0x12, 0x04, 0x12], .unread [0x02, 0x08, 0x01]] := by
  decide +kernel

end OtapDataflow.OtlpBytes
