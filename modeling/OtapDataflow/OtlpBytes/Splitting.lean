import OtapDataflow.Lib.Protobuf
import OtapDataflow.Node.Message

/-! # Rebatching encoded export requests

Export requests of the three signals are nested in the same way: a request is a repeated resource
entry (field 1), a resource entry holds a header and a repeated scope entry (field 2), and a scope
entry holds a header and repeated records (field 2).  Requests are joined and cut without decoding
the records: whole resource entries are packed by concatenation, and an entry that is too large on
its own is cut at its scopes and, where needed, at its records, with the headers written again in
front of every fragment.

A loop of the source over the fields of a buffer is a function of `fields`: the fields up to the
first that cannot be read, and the rest of the buffer.  Numbers of the source's `usize` have 64
bits. -/

namespace OtapDataflow.OtlpBytes

open Protobuf Node

def RESOURCE_ENTRY_FIELD : Nat := 1
def CHILD_LIST_FIELD : Nat := 2

def usizeMax : Nat := 2 ^ 64 - 1

def saturatingAdd (a b : Nat) : Nat := min (a + b) usizeMax

structure OtlpProtoBytes where
  signal : SignalType
  bytes : Bytes

/-- An output with the inputs, first to last, that it was made of. -/
structure OwnedBatch where
  batch : OtlpProtoBytes
  first : Nat
  last : Nat

structure BatchWriter where
  signal : SignalType
  input : Nat
  first : Nat
  last : Nat
  pending : Bytes
  batches : List OwnedBatch

namespace BatchWriter

def append (w : BatchWriter) (bytes : Bytes) : BatchWriter :=
  { w with
    first := if w.pending.isEmpty then w.input else w.first
    last := w.input
    pending := w.pending ++ bytes }

def flush (w : BatchWriter) : BatchWriter :=
  if w.pending.isEmpty then w
  else { w with pending := [], batches := w.batches ++ [⟨⟨w.signal, w.pending⟩, w.first, w.last⟩] }

def emitTop (w : BatchWriter) (entry : Bytes) : BatchWriter :=
  { w with batches := w.batches ++
      [⟨⟨w.signal, writeLenDelimited RESOURCE_ENTRY_FIELD entry⟩, w.input, w.input⟩] }

/-- `emit_top` and the running count of the bytes emitted. -/
def emitCounted (w : BatchWriter) (entry : Bytes) (emitted : Nat) : BatchWriter × Nat :=
  let w := w.emitTop entry
  (w, saturatingAdd emitted ((w.batches.getLast?.map (·.batch.bytes.length)).getD 0))

end BatchWriter

/-- A child of a resource entry or of a scope entry. -/
def isChild (f : Field) : Bool := f.number = CHILD_LIST_FIELD && f.wire = LEN

def isResourceEntry (f : Field) : Bool := f.number = RESOURCE_ENTRY_FIELD && f.wire = LEN

def children (fs : List Field) : List Field := fs.filter isChild

/-- The fields that are no children, one after the other. -/
def header (fs : List Field) : Bytes := concat (fs.filter fun f => !isChild f)

def fullyParseable (bs : Bytes) : Bool := (fields bs).2.isEmpty

def countRecords (scopePayload : Bytes) : Nat := (children (fields scopePayload).1).length

/-- Place a unit that is not divided. -/
def pushOpaque (w : BatchWriter) (full : Bytes) (maxSize : Nat) : BatchWriter :=
  if w.pending.length + full.length ≤ maxSize then w.append full
  else
    let w := w.flush.append full
    if maxSize < w.pending.length then w.flush else w

/-! ## Splitting -/

/-- A resource entry with one scope, of some of its records. -/
def scopeFragment (resourceHeader scopeHeader recs : Bytes) : Bytes :=
  resourceHeader ++ writeLenDelimited CHILD_LIST_FIELD (scopeHeader ++ recs)

/-- The length on the wire of a resource entry with one scope. -/
def fragmentLen (resourceHeader scopeHeader : Bytes) (recsLen : Nat) : Nat :=
  wrappedLen RESOURCE_ENTRY_FIELD
    (resourceHeader.length + wrappedLen CHILD_LIST_FIELD (scopeHeader.length + recsLen))

/-- The loop over the records of a scope; `recs` are those collected for the next fragment. -/
def splitRecords (resourceHeader scopeHeader : Bytes) (maxSize abortAt : Nat) :
    List Field → Bytes → BatchWriter → Nat → BatchWriter × Nat
  | [], recs, w, emitted =>
    if recs.isEmpty then (w, emitted)
    else w.emitCounted (scopeFragment resourceHeader scopeHeader recs) emitted
  | rec :: rest, recs, w, emitted =>
    if fragmentLen resourceHeader scopeHeader (recs.length + rec.full.length) ≤ maxSize then
      splitRecords resourceHeader scopeHeader maxSize abortAt rest (recs ++ rec.full) w emitted
    else
      let flushed :=
        if recs.isEmpty then (w, emitted)
        else w.emitCounted (scopeFragment resourceHeader scopeHeader recs) emitted
      if !recs.isEmpty && abortAt < flushed.2 then flushed
      else if maxSize < fragmentLen resourceHeader scopeHeader rec.full.length then
        -- An indivisible record larger than the limit is emitted on its own.
        let alone :=
          flushed.1.emitCounted (scopeFragment resourceHeader scopeHeader rec.full) flushed.2
        if abortAt < alone.2 then alone
        else splitRecords resourceHeader scopeHeader maxSize abortAt rest [] alone.1 alone.2
      else splitRecords resourceHeader scopeHeader maxSize abortAt rest rec.full flushed.1 flushed.2

def splitScopeEntry (w : BatchWriter) (resourceHeader scopePayload : Bytes) (maxSize abortAt : Nat)
    (emitted : Nat) : BatchWriter × Nat :=
  let fs := (fields scopePayload).1
  if (children fs).isEmpty then
    w.emitCounted (scopeFragment resourceHeader (header fs) []) emitted
  else splitRecords resourceHeader (header fs) maxSize abortAt (children fs) [] w emitted

/-- How the loop over the scopes of an entry ends. -/
structure Packed where
  writer : BatchWriter
  emitted : Nat
  overBudget : Bool

/-- The loop over the scopes of an entry; `scopes` are the bytes of those collected after the header
for the next fragment. -/
def packScopes (header : Bytes) (maxSize abortAt : Nat) :
    List Field → Bytes → BatchWriter → Nat → Packed
  | [], scopes, w, emitted =>
    if scopes.isEmpty then ⟨w, emitted, false⟩
    else
      let last := w.emitCounted (header ++ scopes) emitted
      ⟨last.1, last.2, abortAt < last.2⟩
  | scope :: rest, scopes, w, emitted =>
    if wrappedLen RESOURCE_ENTRY_FIELD (header.length + scopes.length + scope.full.length) ≤ maxSize
    then packScopes header maxSize abortAt rest (scopes ++ scope.full) w emitted
    else
      let flushed :=
        if scopes.isEmpty then (w, emitted) else w.emitCounted (header ++ scopes) emitted
      if !scopes.isEmpty && abortAt < flushed.2 then ⟨flushed.1, flushed.2, true⟩
      else if wrappedLen RESOURCE_ENTRY_FIELD (header.length + scope.full.length) ≤ maxSize then
        packScopes header maxSize abortAt rest scope.full flushed.1 flushed.2
      else
        let split := splitScopeEntry flushed.1 header scope.value maxSize abortAt flushed.2
        if abortAt < split.2 then ⟨split.1, split.2, true⟩
        else packScopes header maxSize abortAt rest [] split.1 split.2

structure Budgets where
  fragment : Nat
  overhead : Nat
  flushFragment : Nat

/-- Whether every field of the entry and of its scopes can be read. -/
def splittable (entryPayload : Bytes) : Bool :=
  fullyParseable entryPayload &&
    (children (fields entryPayload).1).all fun scope => fullyParseable scope.value

/-- Cut an entry.  The number is that of the entries left whole by a budget so far. -/
def splitResourceEntry (w : BatchWriter) (entryPayload : Bytes) (maxSize : Nat) (budgets : Budgets)
    (budgetFallbacks : Nat) : BatchWriter × Nat :=
  let fs := (fields entryPayload).1
  if !splittable entryPayload then (w.emitTop entryPayload, budgetFallbacks)
  else if (children fs).isEmpty then (w.emitTop entryPayload, budgetFallbacks)
  else if budgets.fragment < ((children fs).map fun scope => max (countRecords scope.value) 1).sum
  then (w.emitTop entryPayload, budgetFallbacks + 1)
  else
    let start := w.batches.length
    let abortAt :=
      saturatingAdd (wrappedLen RESOURCE_ENTRY_FIELD entryPayload.length) budgets.overhead
    let packed := packScopes (header fs) maxSize abortAt (children fs) [] w 0
    if packed.overBudget then
      -- The fragments emitted so far are taken back.
      ({ packed.writer with batches := packed.writer.batches.take start }.emitTop entryPayload,
        budgetFallbacks + 1)
    else (packed.writer, budgetFallbacks)

def pushResourceEntry (w : BatchWriter) (entry : Field) (maxSize : Nat) (budgets : Budgets)
    (budgetFallbacks : Nat) : BatchWriter × Nat :=
  if w.pending.length + entry.full.length ≤ maxSize then (w.append entry.full, budgetFallbacks)
  else if entry.full.length ≤ maxSize then (w.flush.append entry.full, budgetFallbacks)
  else
    let w := w.flush
    if budgets.flushFragment ≤ w.batches.length then
      (w.emitTop entry.value, budgetFallbacks + 1)
    else splitResourceEntry w entry.value maxSize budgets budgetFallbacks

/-! ## A batch of requests -/

inductive Error
  | emptyBatch
  deriving DecidableEq, Repr

structure BatchingResult where
  batches : List OwnedBatch
  completedInputs : List Nat
  budgetFallbacks : Nat

/-- Place one top-level field. -/
def pushField (maxSize : Nat) (budgets : Budgets) (s : BatchWriter × Nat) (f : Field) :
    BatchWriter × Nat :=
  if isResourceEntry f then pushResourceEntry s.1 f maxSize budgets s.2
  else (pushOpaque s.1 f.full maxSize, s.2)

/-- Place one input: its fields, and what cannot be read as one opaque unit. -/
def pushInput (maxSize : Nat) (budgets : Budgets) (s : BatchWriter × Nat) (index : Nat)
    (buf : Bytes) : BatchWriter × Nat :=
  let s := (fields buf).1.foldl (pushField maxSize budgets) ({ s.1 with input := index }, s.2)
  if (fields buf).2.isEmpty then s else (pushOpaque s.1 (fields buf).2 maxSize, s.2)

def pushInputs (maxSize : Nat) (budgets : Budgets) :
    BatchWriter × Nat → Nat → List OtlpProtoBytes → BatchWriter × Nat
  | s, _, [] => s
  | s, index, input :: inputs =>
    pushInputs maxSize budgets (pushInput maxSize budgets s index input.bytes) (index + 1) inputs

/-- The inputs in no output's range, as the source walks over the ranges. -/
def completedInputs (inputCount : Nat) : Nat → List OwnedBatch → List Nat
  | covered, [] => List.range' covered (inputCount - covered)
  | covered, b :: batches =>
    List.range' covered (b.first - covered) ++ completedInputs inputCount (b.last + 1) batches

/-- Everything as one output. -/
def single (signal : SignalType) (inputs : List OtlpProtoBytes) : BatchingResult :=
  match inputs with
  | [input] => ⟨[⟨input, 0, 0⟩], [], 0⟩
  | inputs => ⟨[⟨⟨signal, inputs.flatMap (·.bytes)⟩, 0, inputs.length - 1⟩], [], 0⟩

def makeBytesBatchesOwned (signal : SignalType)
    (maxBytes fragmentBudget overheadBudget flushFragmentBudget : Option Nat)
    (inputs : List OtlpProtoBytes) : Except Error BatchingResult :=
  let totalSize := (inputs.map (·.bytes.length)).sum
  if inputs.isEmpty then .error .emptyBatch
  else if totalSize = 0 then .error .emptyBatch
  else
    match maxBytes with
    | none => .ok (single signal inputs)
    | some maxBytes =>
      let maxSize := min maxBytes usizeMax
      if inputs.length = 1 && totalSize ≤ maxSize then .ok (single signal inputs)
      else
        let bound := fun budget : Option Nat => (budget.map (min · usizeMax)).getD usizeMax
        let budgets : Budgets :=
          ⟨bound fragmentBudget, bound overheadBudget, bound flushFragmentBudget⟩
        let packed := pushInputs maxSize budgets (⟨signal, 0, 0, 0, [], []⟩, 0) 0 inputs
        let writer := packed.1.flush
        .ok ⟨writer.batches, completedInputs inputs.length 0 writer.batches, packed.2⟩

/-! # What an encoded request says

A request is read field by field.  Every record is reported with the header fields of its resource
entry and of its scope entry, so that a request says the same whether its records stand in one entry
or in several with equal headers.  A resource entry without scopes, a scope without records and a
top-level field that is no resource entry are reported as such, and so is an entry in which some
field cannot be read, with all its bytes. -/

open List hiding concat concat_append concat_cons concat_nil

inductive Item
  /-- A top-level field that is no resource entry. -/
  | other (full : Bytes)
  /-- The bytes of a request from its first unreadable field on. -/
  | unread (tail : Bytes)
  /-- A resource entry in which some field cannot be read. -/
  | malformed (payload : Bytes)
  | bareResource (resource : Bytes)
  | emptyScope (resource scope : Bytes)
  | record (resource scope record : Bytes)
  deriving DecidableEq, Repr

def readScope (resource payload : Bytes) : List Item :=
  let fs := (fields payload).1
  if (children fs).isEmpty then [.emptyScope resource (header fs)]
  else (children fs).map fun f => .record resource (header fs) f.full

def readEntry (payload : Bytes) : List Item :=
  let fs := (fields payload).1
  if !splittable payload then [.malformed payload]
  else if (children fs).isEmpty then [.bareResource (header fs)]
  else (children fs).flatMap fun scope => readScope (header fs) scope.value

def readField (f : Field) : List Item :=
  if isResourceEntry f then readEntry f.value else [.other f.full]

def readRequest (bs : Bytes) : List Item :=
  (fields bs).1.flatMap readField ++
    if (fields bs).2.isEmpty then [] else [.unread (fields bs).2]

/-! ## Messages made of whole fields -/

variable {fs gs : List Field} {payload : Bytes}

theorem readRequest_concat (hfs : ∀ f ∈ fs, f.Whole) :
    readRequest (concat fs) = fs.flatMap readField := by
  simp [readRequest, fields_concat hfs]

theorem readRequest_unread {tail : Bytes} (hfs : ∀ f ∈ fs, f.Whole) (hne : tail ≠ [])
    (htail : nextField tail = none) :
    readRequest (concat fs ++ tail) = fs.flatMap readField ++ [.unread tail] := by
  simp [readRequest, fields_concat_append hfs htail, hne]

theorem fullyParseable_concat (hfs : ∀ f ∈ fs, f.Whole) : fullyParseable (concat fs) = true := by
  simp [fullyParseable, fields_concat hfs]

/-- A message that can be read to its end is the concatenation of its fields. -/
theorem concat_fields (h : fullyParseable payload = true) :
    concat (fields payload).1 = payload := by
  have hnil : (fields payload).2 = [] := isEmpty_iff.mp h
  have hspec := (fields_spec payload).1
  rw [hnil, append_nil] at hspec
  exact hspec.symm

/-- The fields that make up the header of a message. -/
def headerFields (fs : List Field) : List Field := fs.filter fun f => !isChild f

theorem header_eq (fs : List Field) : header fs = concat (headerFields fs) := rfl

variable {f : Field}

theorem child_of_mem_children (h : f ∈ children fs) : isChild f = true :=
  (mem_filter.mp h).2

/-- Header fields first, then children. -/
theorem children_headerFields_append (hgs : ∀ f ∈ gs, isChild f = true) :
    children (headerFields fs ++ gs) = gs := by
  have hnone : (headerFields fs).filter isChild = [] :=
    filter_eq_nil_iff.mpr fun f hf => by simpa using (mem_filter.mp hf).2
  rw [children, filter_append, hnone, filter_eq_self.mpr hgs, nil_append]

theorem header_headerFields_append (hgs : ∀ f ∈ gs, isChild f = true) :
    header (headerFields fs ++ gs) = header fs := by
  have hnone : gs.filter (fun f => !isChild f) = [] :=
    filter_eq_nil_iff.mpr fun f hf => by simp [hgs f hf]
  rw [header, filter_append, hnone, append_nil, headerFields, filter_filter]
  simp [header]

theorem whole_of_mem_headerFields (hfs : ∀ f ∈ fs, f.Whole) (h : f ∈ headerFields fs) : f.Whole :=
  hfs f (mem_filter.mp h).1

theorem whole_of_mem_children (hfs : ∀ f ∈ fs, f.Whole) (h : f ∈ children fs) : f.Whole :=
  hfs f (mem_filter.mp h).1

/-! ## Fragments -/

section

variable {resource scope : List Field}

/-- The fields of a header followed by children. -/
theorem fields_header_append (hfs : ∀ f ∈ fs, f.Whole) (hgs : ∀ f ∈ gs, f.Whole) :
    fields (header fs ++ concat gs) = (headerFields fs ++ gs, []) := by
  rw [header_eq, ← concat_append]
  refine fields_concat fun f hf => ?_
  rcases mem_append.mp hf with hf | hf
  · exact whole_of_mem_headerFields hfs hf
  · exact hgs f hf

/-- Some of the records of a scope, after its header. -/
theorem readScope_fragment (hscope : ∀ f ∈ scope, f.Whole) (hgs : ∀ f ∈ gs, f.Whole)
    (hchild : ∀ f ∈ gs, isChild f = true) (resource : Bytes) :
    readScope resource (header scope ++ concat gs) =
      if gs.isEmpty then [.emptyScope resource (header scope)]
      else gs.map fun f => .record resource (header scope) f.full := by
  simp [readScope, fields_header_append hscope hgs, children_headerFields_append hchild,
    header_headerFields_append hchild]

/-- Some of the scopes of an entry, after its header. -/
theorem readEntry_fragment (hresource : ∀ f ∈ resource, f.Whole) (hgs : ∀ f ∈ gs, f.Whole)
    (hchild : ∀ f ∈ gs, isChild f = true) (hne : gs ≠ [])
    (hscopes : ∀ f ∈ gs, fullyParseable f.value = true) :
    readEntry (header resource ++ concat gs) =
      gs.flatMap fun f => readScope (header resource) f.value := by
  have hsplit : splittable (header resource ++ concat gs) = true := by
    simp only [splittable, fullyParseable, fields_header_append hresource hgs,
      children_headerFields_append hchild, isEmpty_nil, Bool.true_and]
    exact all_eq_true.mpr hscopes
  simp [readEntry, hsplit, fields_header_append hresource hgs, children_headerFields_append hchild,
    header_headerFields_append hchild, hne]

end

/-! # Cutting a resource entry

The fragments of an entry say together what the entry says, in the same order, unless a budget
stopped the cutting; then the caller takes them back.  A fragment over the limit holds one item, so
it cannot be cut further. -/

/-- No buffer of the source has more bytes; a length prefix in front of one still fits 64 bits. -/
def isizeLimit : Nat := 2 ^ 63

/-- What a fragment of one input owes. -/
structure Fragment (input maxSize : Nat) (b : OwnedBatch) : Prop where
  first : b.first = input
  last : b.last = input
  something : readRequest b.batch.bytes ≠ []
  /-- Over the limit only if there is nothing to cut. -/
  single : maxSize < b.batch.bytes.length → (readRequest b.batch.bytes).length = 1

/-- The writer has emitted fragments of its current input, and nothing else has changed. -/
structure Emits (maxSize : Nat) (w w' : BatchWriter) (out : List OwnedBatch) : Prop where
  eq : w' = { w with batches := w.batches ++ out }
  each : ∀ b ∈ out, Fragment w.input maxSize b

/-- What a list of outputs says. -/
def readAll (out : List OwnedBatch) : List Item := out.flatMap fun b => readRequest b.batch.bytes

@[simp] theorem readAll_nil : readAll [] = [] := rfl

@[simp] theorem readAll_append (out out' : List OwnedBatch) :
    readAll (out ++ out') = readAll out ++ readAll out' :=
  flatMap_append

theorem readAll_singleton (b : OwnedBatch) : readAll [b] = readRequest b.batch.bytes :=
  append_nil _

variable {maxSize abortAt emitted : Nat} {w w' w'' : BatchWriter} {out out' : List OwnedBatch}

theorem Emits.refl (maxSize : Nat) (w : BatchWriter) : Emits maxSize w w [] where
  eq := by rw [append_nil]
  each := forall_mem_nil _

theorem Emits.trans (h : Emits maxSize w w' out) (h' : Emits maxSize w' w'' out') :
    Emits maxSize w w'' (out ++ out') where
  eq := by
    rw [h'.eq, h.eq, append_assoc]
  each := by
    intro b hb
    rcases mem_append.mp hb with hb | hb
    · exact h.each b hb
    · have hfragment := h'.each b hb
      rwa [h.eq] at hfragment

/-- The fragments that the writer has emitted say `items`. -/
def EmitsItems (maxSize : Nat) (w w' : BatchWriter) (items : List Item) : Prop :=
  ∃ out, Emits maxSize w w' out ∧ readAll out = items

theorem EmitsItems.refl (maxSize : Nat) (w : BatchWriter) : EmitsItems maxSize w w [] :=
  ⟨[], .refl maxSize w, rfl⟩

theorem EmitsItems.trans {items items' : List Item} (h : EmitsItems maxSize w w' items)
    (h' : EmitsItems maxSize w' w'' items') : EmitsItems maxSize w w'' (items ++ items') := by
  obtain ⟨out, hemits, rfl⟩ := h
  obtain ⟨out', hemits', rfl⟩ := h'
  exact ⟨out ++ out', hemits.trans hemits', readAll_append out out'⟩

/-! ## One entry as an output -/

/-- The output that `emit_top` makes. -/
def topBatch (w : BatchWriter) (entry : Bytes) : OwnedBatch :=
  ⟨⟨w.signal, writeLenDelimited RESOURCE_ENTRY_FIELD entry⟩, w.input, w.input⟩

variable {entry : Bytes}

theorem readRequest_entry (hlen : entry.length < 2 ^ 64) :
    readRequest (writeLenDelimited RESOURCE_ENTRY_FIELD entry) = readEntry entry := by
  have hwhole : (lenDelimited RESOURCE_ENTRY_FIELD entry).Whole :=
    whole_lenDelimited (by decide) hlen
  have hconcat : concat [lenDelimited RESOURCE_ENTRY_FIELD entry] =
      writeLenDelimited RESOURCE_ENTRY_FIELD entry := append_nil _
  rw [← hconcat, readRequest_concat (forall_mem_singleton.mpr hwhole)]
  exact append_nil _

theorem readScope_ne_nil (resource payload : Bytes) : readScope resource payload ≠ [] := by
  unfold readScope
  dsimp only
  split_ifs with hne
  · exact cons_ne_nil _ _
  · simpa [List.isEmpty_iff] using hne

theorem readEntry_ne_nil (payload : Bytes) : readEntry payload ≠ [] := by
  unfold readEntry
  dsimp only
  split
  · exact cons_ne_nil _ _
  · split_ifs with hne
    · exact cons_ne_nil _ _
    · obtain ⟨scope, scopes, hscopes⟩ := exists_cons_of_ne_nil
        (show children (fields payload).1 ≠ [] by simpa [List.isEmpty_iff] using hne)
      rw [hscopes, flatMap_cons]
      exact append_ne_nil_of_left_ne_nil (readScope_ne_nil _ _) _

/-- Emitting an entry that says something and, over the limit, one thing. -/
theorem emits_emitTop (hlen : entry.length < 2 ^ 64)
    (hsingle : maxSize < wrappedLen RESOURCE_ENTRY_FIELD entry.length →
      (readEntry entry).length = 1) : Emits maxSize w (w.emitTop entry) [topBatch w entry] where
  eq := rfl
  each := by
    refine forall_mem_singleton.mpr ⟨rfl, rfl, ?_, fun hlong => ?_⟩
    · show readRequest (writeLenDelimited RESOURCE_ENTRY_FIELD entry) ≠ []
      rw [readRequest_entry hlen]
      exact readEntry_ne_nil entry
    · show (readRequest (writeLenDelimited RESOURCE_ENTRY_FIELD entry)).length = 1
      rw [readRequest_entry hlen]
      exact hsingle (by rwa [← length_writeLenDelimited])

theorem readAll_topBatch (hlen : entry.length < 2 ^ 64) (w : BatchWriter) :
    readAll [topBatch w entry] = readEntry entry :=
  (readAll_singleton _).trans (readRequest_entry hlen)

theorem emitsItems_emitTop (hlen : entry.length < 2 ^ 64)
    (hsingle : maxSize < wrappedLen RESOURCE_ENTRY_FIELD entry.length →
      (readEntry entry).length = 1) : EmitsItems maxSize w (w.emitTop entry) (readEntry entry) :=
  ⟨_, emits_emitTop hlen hsingle, readAll_topBatch hlen w⟩

/-! ## Cutting a scope -/

/-- A field that is a record of a scope, or a scope of an entry. -/
abbrev Child (f : Field) : Prop := f.Whole ∧ isChild f = true

section

variable {resource scope got rest gs : List Field}

theorem varintLenFrom_le (n v : Nat) : varintLenFrom n v ≤ n + 1 := by
  induction n generalizing v with
  | zero => exact le_refl _
  | succ n ih =>
    unfold varintLenFrom
    split
    · exact Nat.succ_le_succ (ih _)
    · omega

theorem wrappedLen_le (number len : Nat) : wrappedLen number len ≤ 20 + len := by
  have htag := varintLenFrom_le 9 (number * 8 + LEN)
  have hlen := varintLenFrom_le 9 len
  unfold wrappedLen varintLen
  omega

theorem length_scopeFragment (resourceHeader scopeHeader recs : Bytes) :
    wrappedLen RESOURCE_ENTRY_FIELD (scopeFragment resourceHeader scopeHeader recs).length =
      fragmentLen resourceHeader scopeHeader recs.length := by
  rw [scopeFragment, length_append, length_writeLenDelimited, length_append]
  rfl

theorem scopeFragment_fits {resourceHeader scopeHeader recs : Bytes}
    (h : resourceHeader.length + scopeHeader.length + recs.length < isizeLimit) :
    (scopeFragment resourceHeader scopeHeader recs).length < 2 ^ 64 := by
  have hwrapped := wrappedLen_le CHILD_LIST_FIELD (scopeHeader.length + recs.length)
  rw [scopeFragment, length_append, length_writeLenDelimited, length_append]
  unfold isizeLimit at h
  omega

/-- What a fragment of a scope says. -/
def scopeItems (resource scope gs : List Field) : List Item :=
  if gs.isEmpty then [.emptyScope (header resource) (header scope)]
  else gs.map fun f => .record (header resource) (header scope) f.full

theorem concat_eq_nil (hgs : ∀ f ∈ gs, Child f) : (concat gs).isEmpty = gs.isEmpty := by
  cases gs with
  | nil => rfl
  | cons f gs =>
    have hne := (hgs f mem_cons_self).1.full_ne_nil
    simp [hne]

/-- Emitting what is collected so far, if there is anything. -/
theorem emits_collected {items : List Field → List Item} (hnil : items [] = [])
    (hgs : ∀ f ∈ gs, Child f)
    (h : gs ≠ [] → EmitsItems maxSize w (w.emitCounted entry emitted).1 (items gs)) :
    EmitsItems maxSize w (if (concat gs).isEmpty then (w, emitted)
      else w.emitCounted entry emitted).1 (items gs) := by
  rw [concat_eq_nil hgs]
  by_cases hne : gs = []
  · subst hne
    rw [hnil]
    exact .refl maxSize w
  · rw [if_neg (by simpa using hne)]
    exact h hne

/-- What the records of a scope say. -/
def recordItems (resource scope gs : List Field) : List Item :=
  gs.map fun f => .record (header resource) (header scope) f.full

theorem scopeItems_of_ne_nil (h : gs ≠ []) :
    scopeItems resource scope gs = recordItems resource scope gs := by
  simp [scopeItems, recordItems, h]

theorem recordItems_append (gs gs' : List Field) : recordItems resource scope (gs ++ gs') =
    recordItems resource scope gs ++ recordItems resource scope gs' :=
  map_append

variable (hresource : ∀ f ∈ resource, f.Whole) (hscope : ∀ f ∈ scope, f.Whole)
include hresource hscope

section

variable (hgs : ∀ f ∈ gs, Child f)
  (hlen : (header resource).length + (header scope).length + (concat gs).length < isizeLimit)
include hgs hlen

theorem readEntry_scopeFragment :
    readEntry (scopeFragment (header resource) (header scope) (concat gs)) =
      scopeItems resource scope gs := by
  have hwhole := fun f hf => (hgs f hf).1
  have hinner : (header scope ++ concat gs).length < 2 ^ 64 := by
    rw [length_append]
    unfold isizeLimit at hlen
    omega
  have hlist : (lenDelimited CHILD_LIST_FIELD (header scope ++ concat gs)).Whole :=
    whole_lenDelimited (by decide) hinner
  have hparse : fullyParseable (header scope ++ concat gs) = true := by
    rw [fullyParseable, fields_header_append hscope hwhole]
    rfl
  have hentry := readEntry_fragment hresource (forall_mem_singleton.mpr hlist)
    (forall_mem_singleton.mpr rfl) (cons_ne_nil _ _)
    (forall_mem_singleton.mpr hparse)
  have hconcat : concat [lenDelimited CHILD_LIST_FIELD (header scope ++ concat gs)] =
      writeLenDelimited CHILD_LIST_FIELD (header scope ++ concat gs) := append_nil _
  rw [hconcat] at hentry
  refine hentry.trans ((append_nil _).trans ?_)
  exact readScope_fragment hscope hwhole (fun f hf => (hgs f hf).2) (header resource)

/-- A fragment of a scope as an output. -/
theorem emits_scopeFragment
    (hsize : fragmentLen (header resource) (header scope) (concat gs).length ≤ maxSize ∨
      gs.length ≤ 1) (w : BatchWriter) (emitted : Nat) :
    EmitsItems maxSize w
      (w.emitCounted (scopeFragment (header resource) (header scope) (concat gs)) emitted).1
      (scopeItems resource scope gs) := by
  rw [← readEntry_scopeFragment hresource hscope hgs hlen]
  refine emitsItems_emitTop (scopeFragment_fits hlen) fun hlong => ?_
  rw [length_scopeFragment] at hlong
  rw [readEntry_scopeFragment hresource hscope hgs hlen]
  have hone : gs.length ≤ 1 := hsize.resolve_left (not_le.mpr hlong)
  match gs, hone with
  | [], _ => rfl
  | [f], _ => rfl

theorem emits_records
    (hsize : gs ≠ [] → fragmentLen (header resource) (header scope) (concat gs).length ≤ maxSize)
    (w : BatchWriter) (emitted : Nat) :
    EmitsItems maxSize w (if (concat gs).isEmpty then (w, emitted)
      else w.emitCounted (scopeFragment (header resource) (header scope) (concat gs)) emitted).1
      (recordItems resource scope gs) := by
  refine emits_collected rfl hgs fun hne => ?_
  rw [← scopeItems_of_ne_nil hne]
  exact emits_scopeFragment hresource hscope hgs hlen (.inl (hsize hne)) w emitted

end

/-- The loop over the records: `got` are collected, `rest` are still to come.  If the bytes emitted
stay within the budget, all of them are emitted. -/
theorem splitRecords_spec (hgs : ∀ f ∈ got ++ rest, Child f)
    (hlen : (header resource).length + (header scope).length + (concat (got ++ rest)).length <
      isizeLimit) (hsize : got ≠ [] →
      fragmentLen (header resource) (header scope) (concat got).length ≤ maxSize)
    (w : BatchWriter) (emitted : Nat) :
    ∃ items, EmitsItems maxSize w (splitRecords (header resource) (header scope) maxSize abortAt
        rest (concat got) w emitted).1 items ∧ items <+: recordItems resource scope (got ++ rest) ∧
      ((splitRecords (header resource) (header scope) maxSize abortAt rest (concat got) w
        emitted).2 ≤ abortAt → items = recordItems resource scope (got ++ rest)) := by
  induction rest generalizing got w emitted with
  | nil =>
    rw [append_nil] at hgs hlen ⊢
    exact ⟨_, emits_records hresource hscope hgs hlen hsize w emitted, prefix_rfl, fun _ => rfl⟩
  | cons rec rest ih =>
    obtain ⟨hgot, hrest⟩ := forall_mem_append.mp hgs
    have hrec := hrest rec mem_cons_self
    have hlengths := hlen
    simp only [concat_append, concat_cons, length_append] at hlengths
    have hsingle : concat [rec] = rec.full := append_nil _
    rw [splitRecords]
    split
    · have hsnoc : got ++ rec :: rest = got ++ [rec] ++ rest := by simp
      have hconcat : concat (got ++ [rec]) = concat got ++ rec.full := by simp
      rw [hsnoc] at hgs hlen ⊢
      rw [← hconcat]
      refine ih hgs hlen (fun _ => ?_) w emitted
      rwa [hconcat, length_append]
    · have hflushed := emits_records hresource hscope hgot (by omega) hsize w emitted
      dsimp only
      generalize (if (concat got).isEmpty then (w, emitted)
        else w.emitCounted (scopeFragment (header resource) (header scope) (concat got)) emitted)
        = flushed at hflushed
      split
      · rename_i habort
        refine ⟨_, hflushed, recordItems_append got _ ▸ prefix_append _ _, fun hle => ?_⟩
        have hlt := of_decide_eq_true (Bool.and_eq_true_iff.mp habort).2
        omega
      · split
        · -- The record is too large on its own.
          have halone := emits_scopeFragment hresource hscope
            (forall_mem_singleton.mpr hrec) (by rw [hsingle]; omega)
            (Or.inr (Nat.le_refl 1) : _ ≤ maxSize ∨ _) flushed.1 flushed.2
          rw [hsingle] at halone
          generalize flushed.1.emitCounted (scopeFragment (header resource) (header scope) rec.full)
            flushed.2 = alone at halone
          have hall : recordItems resource scope (got ++ rec :: rest) =
              recordItems resource scope got ++ scopeItems resource scope [rec] ++
                recordItems resource scope rest := by
            rw [scopeItems_of_ne_nil (cons_ne_nil _ _), ← recordItems_append,
              ← recordItems_append]
            simp
          rw [hall]
          split
          · exact ⟨_, hflushed.trans halone, prefix_append _ _, fun hle => by omega⟩
          · obtain ⟨items, hemits, hfirst, hitems⟩ := @ih [] (fun f hf => hrest f (.tail _ hf))
              (by rw [nil_append]; omega) (absurd rfl) alone.1 alone.2
            exact ⟨_, (hflushed.trans halone).trans hemits, (prefix_append_right_inj _).mpr hfirst,
              fun hle => by rw [hitems hle, nil_append]⟩
        · obtain ⟨items, hemits, hfirst, hitems⟩ := @ih [rec] hrest
            (by simp only [concat_append, length_append, hsingle]; omega)
            (fun _ => by rw [hsingle]; omega) flushed.1 flushed.2
          rw [hsingle] at hemits hitems
          rw [recordItems_append got]
          exact ⟨_, hflushed.trans hemits, (prefix_append_right_inj _).mpr hfirst,
            fun hle => by rw [hitems hle]; rfl⟩

omit hresource hscope

/-- Header and children take up the message. -/
theorem length_header_add_children (fs : List Field) :
    (header fs).length + (concat (children fs)).length = (concat fs).length := by
  induction fs with
  | nil => rfl
  | cons f fs ih =>
    have hcons : (header (f :: fs)).length + (concat (children (f :: fs))).length =
        f.full.length + ((header fs).length + (concat (children fs)).length) := by
      cases h : isChild f <;> simp [header, children, h] <;> omega
    rw [hcons, ih, concat_cons, length_append]

theorem child_of_children (hwhole : ∀ f ∈ scope, f.Whole) : ∀ f ∈ children scope, Child f :=
  fun _ hf => ⟨whole_of_mem_children hwhole hf, child_of_mem_children hf⟩

theorem splitScopeEntry_spec (hresource : ∀ f ∈ resource, f.Whole) {payload : Bytes}
    (hparse : fullyParseable payload = true)
    (hlen : (header resource).length + payload.length < isizeLimit)
    (w : BatchWriter) (emitted : Nat) :
    ∃ items, EmitsItems maxSize w
        (splitScopeEntry w (header resource) payload maxSize abortAt emitted).1 items ∧
      items <+: readScope (header resource) payload ∧
      ((splitScopeEntry w (header resource) payload maxSize abortAt emitted).2 ≤ abortAt →
        items = readScope (header resource) payload) := by
  have hwhole := (fields_spec payload).2.1
  have hlengths := length_header_add_children (fields payload).1
  rw [concat_fields hparse] at hlengths
  unfold splitScopeEntry readScope
  dsimp only
  split
  · exact ⟨_, emits_scopeFragment hresource hwhole (forall_mem_nil _)
      (by simp only [concat_nil, length_nil]; omega) (.inr (Nat.zero_le 1)) w emitted, prefix_rfl,
      fun _ => rfl⟩
  · exact splitRecords_spec hresource hwhole (child_of_children hwhole)
      (by rw [nil_append]; omega) (absurd rfl) w emitted

end

/-! ## Cutting an entry -/

section

variable {resource got rest gs : List Field}

/-- What the scopes of an entry say. -/
def scopesItems (resource gs : List Field) : List Item :=
  gs.flatMap fun f => readScope (header resource) f.value

theorem scopesItems_append (gs gs' : List Field) : scopesItems resource (gs ++ gs') =
    scopesItems resource gs ++ scopesItems resource gs' :=
  flatMap_append

section

variable (hresource : ∀ f ∈ resource, f.Whole)

include hresource

theorem emits_scopes (hgs : ∀ f ∈ gs, Child f) (hparse : ∀ f ∈ gs, fullyParseable f.value = true)
    (hlen : (header resource).length + (concat gs).length < isizeLimit)
    (hsize : gs ≠ [] → wrappedLen RESOURCE_ENTRY_FIELD
      ((header resource).length + (concat gs).length) ≤ maxSize) (w : BatchWriter) (emitted : Nat) :
    EmitsItems maxSize w (if (concat gs).isEmpty then (w, emitted)
      else w.emitCounted (header resource ++ concat gs) emitted).1 (scopesItems resource gs) := by
  refine emits_collected rfl hgs fun hne => ?_
  have hfits : (header resource ++ concat gs).length < 2 ^ 64 := by
    rw [length_append]
    unfold isizeLimit at hlen
    omega
  rw [scopesItems, ← readEntry_fragment hresource (fun f hf => (hgs f hf).1)
    (fun f hf => (hgs f hf).2) hne hparse]
  refine emitsItems_emitTop hfits fun hlong => ?_
  rw [length_append] at hlong
  exact absurd (hsize hne) (not_le.mpr hlong)

/-- The loop over the scopes: `got` are collected, `rest` are still to come.  Unless it ends over
the budget, all of them are emitted. -/
theorem packScopes_spec (hgs : ∀ f ∈ got ++ rest, Child f)
    (hparse : ∀ f ∈ got ++ rest, fullyParseable f.value = true)
    (hlen : (header resource).length + (concat (got ++ rest)).length < isizeLimit)
    (hsize : got ≠ [] → wrappedLen RESOURCE_ENTRY_FIELD
      ((header resource).length + (concat got).length) ≤ maxSize)
    (w : BatchWriter) (emitted : Nat) :
    ∃ items, EmitsItems maxSize w
        (packScopes (header resource) maxSize abortAt rest (concat got) w emitted).writer items ∧
      items <+: scopesItems resource (got ++ rest) ∧
      ((packScopes (header resource) maxSize abortAt rest (concat got) w emitted).overBudget =
        false → items = scopesItems resource (got ++ rest)) := by
  induction rest generalizing got w emitted with
  | nil =>
    rw [append_nil] at hgs hparse hlen ⊢
    have hflushed := emits_scopes hresource hgs hparse hlen hsize w emitted
    refine ⟨_, ?_, prefix_rfl, fun _ => rfl⟩
    unfold packScopes
    split_ifs at hflushed with hempty
    · rwa [if_pos hempty]
    · rwa [if_neg hempty]
  | cons scope rest ih =>
    obtain ⟨hgot, hrest⟩ := forall_mem_append.mp hgs
    obtain ⟨hgotParse, hrestParse⟩ := forall_mem_append.mp hparse
    obtain ⟨⟨hscope, -⟩, hafter⟩ := forall_mem_cons.mp hrest
    obtain ⟨hscopeParse, hafterParse⟩ := forall_mem_cons.mp hrestParse
    have hlengths := hlen
    simp only [concat_append, concat_cons, length_append] at hlengths
    have hsingle : concat [scope] = scope.full := append_nil _
    rw [packScopes]
    split
    · have hsnoc : got ++ scope :: rest = got ++ [scope] ++ rest := by simp
      have hconcat : concat (got ++ [scope]) = concat got ++ scope.full := by simp
      rw [hsnoc] at hgs hparse hlen ⊢
      rw [← hconcat]
      refine ih hgs hparse hlen (fun _ => ?_) w emitted
      rwa [hconcat, length_append, ← add_assoc]
    · have hflushed := emits_scopes hresource hgot hgotParse (by omega) hsize w emitted
      dsimp only
      generalize (if (concat got).isEmpty then (w, emitted)
        else w.emitCounted (header resource ++ concat got) emitted) = flushed at hflushed
      rw [scopesItems_append got]
      split
      · exact ⟨_, hflushed, prefix_append _ _, nofun⟩
      · split
        · obtain ⟨items, hemits, hfirst, hitems⟩ := @ih [scope] hrest hrestParse
            (by simp only [concat_append, length_append, hsingle]; omega)
            (fun _ => by rwa [hsingle]) flushed.1 flushed.2
          rw [hsingle] at hemits hitems
          exact ⟨_, hflushed.trans hemits, (prefix_append_right_inj _).mpr hfirst,
            fun hdone => by rw [hitems hdone]; rfl⟩
        · -- The scope is too large on its own.
          have hvalue := hscope.length_value_le
          have hall : scopesItems resource (scope :: rest) =
              readScope (header resource) scope.value ++ scopesItems resource rest := rfl
          rw [hall, ← append_assoc]
          obtain ⟨cut, hcut, hpart, hwhole⟩ := splitScopeEntry_spec hresource hscopeParse
            (by omega) flushed.1 flushed.2
          generalize splitScopeEntry flushed.1 (header resource) scope.value maxSize abortAt
            flushed.2 = split at hcut hwhole
          split_ifs with hwithin
          · exact ⟨_, hflushed.trans hcut, ((prefix_append_right_inj _).mpr hpart).trans
              (prefix_append _ _), nofun⟩
          · obtain ⟨items, hemits, hfirst, hitems⟩ := @ih [] hafter hafterParse
              (by rw [nil_append]; omega) (absurd rfl) split.1 split.2
            rw [hwhole (not_lt.mp hwithin)] at hcut
            exact ⟨_, (hflushed.trans hcut).trans hemits, (prefix_append_right_inj _).mpr hfirst,
              fun hdone => by rw [hitems hdone, nil_append]⟩

theorem emits_children (hparse : ∀ f ∈ children resource, fullyParseable f.value = true)
    (hlen : (header resource).length + (concat (children resource)).length < isizeLimit)
    (abortAt : Nat) (w : BatchWriter) :
    ∃ items, EmitsItems maxSize w
        (packScopes (header resource) maxSize abortAt (children resource) [] w 0).writer items ∧
      items <+: scopesItems resource (children resource) ∧
      ((packScopes (header resource) maxSize abortAt (children resource) [] w 0).overBudget =
        false → items = scopesItems resource (children resource)) :=
  packScopes_spec hresource (child_of_children hresource) hparse hlen (absurd rfl) w 0

end

end

/-! # The cost of splitting

Every fragment of an entry repeats the headers.  The counter of the source is the total length of
the fragments emitted so far, up to saturation, and each fragment has a record or an empty scope of
its own (`Counted`).  So an entry that is cut stays within both budgets (`splitting_bounded`), and
the lengths that the loops compute fit the source's integers (`LengthsFit`). -/

def totalLen (out : List OwnedBatch) : Nat := (out.map (·.batch.bytes.length)).sum

/-- The writer has emitted at most `k` outputs and added their lengths to the counter. -/
def Counted (w : BatchWriter) (emitted : Nat) (r : BatchWriter × Nat) (k : Nat) : Prop :=
  ∃ out, r.1.batches = w.batches ++ out ∧ out.length ≤ k ∧
    (emitted ≤ usizeMax → r.2 = min (emitted + totalLen out) usizeMax)

section

variable {w : BatchWriter} {emitted k k' : Nat} {r r' : BatchWriter × Nat}

theorem Counted.refl (w : BatchWriter) (emitted k : Nat) : Counted w emitted (w, emitted) k :=
  ⟨[], (append_nil _).symm, Nat.zero_le k, fun hle => (min_eq_left hle).symm⟩

theorem Counted.trans (h : Counted w emitted r k) (h' : Counted r.1 r.2 r' k') :
    Counted w emitted r' (k + k') := by
  obtain ⟨out, hout, hk, hcount⟩ := h
  obtain ⟨out', hout', hk', hcount'⟩ := h'
  refine ⟨out ++ out', ?_, ?_, ?_⟩
  · rw [hout', hout, append_assoc]
  · rw [length_append]
    omega
  · intro hle
    have htotal : totalLen (out ++ out') = totalLen out + totalLen out' := by simp [totalLen]
    have hfirst := hcount hle
    have hsecond := hcount' (by omega)
    omega

theorem Counted.mono (h : Counted w emitted r k) (hk : k ≤ k') : Counted w emitted r k' := by
  obtain ⟨out, hout, hlen, hcount⟩ := h
  exact ⟨out, hout, hlen.trans hk, hcount⟩

theorem counted_emit (w : BatchWriter) (entry : Bytes) (emitted : Nat) :
    Counted w emitted (w.emitCounted entry emitted) 1 := by
  refine ⟨[topBatch w entry], rfl, le_refl 1, ?_⟩
  simp [BatchWriter.emitCounted, BatchWriter.emitTop, saturatingAdd, totalLen, topBatch]

/-- The fragments that are still to be made of what was collected. -/
def waiting (collected : Bytes) : Nat := if collected.isEmpty then 0 else 1

theorem waiting_le (collected : Bytes) : waiting collected ≤ 1 := by
  unfold waiting
  split <;> decide

theorem waiting_nil : waiting [] = 0 := rfl

theorem counted_flush (w : BatchWriter) (collected entry : Bytes) (emitted : Nat) :
    Counted w emitted (if collected.isEmpty then (w, emitted) else w.emitCounted entry emitted)
      (waiting collected) := by
  unfold waiting
  split
  · exact .refl w emitted 0
  · exact counted_emit w entry emitted

variable (resourceHeader : Bytes) (maxSize abortAt : Nat)

theorem splitRecords_counted (scopeHeader : Bytes) (rest : List Field) (recs : Bytes)
    (w : BatchWriter) (emitted : Nat) :
    Counted w emitted (splitRecords resourceHeader scopeHeader maxSize abortAt rest recs w emitted)
      (rest.length + waiting recs) := by
  induction rest generalizing recs w emitted with
  | nil => exact (counted_flush w recs _ emitted).mono (Nat.le_add_left _ _)
  | cons rec rest ih =>
    rw [splitRecords, length_cons]
    split
    · have hone := waiting_le (recs ++ rec.full)
      exact (ih _ w emitted).mono (by omega)
    · have hflushed :=
        counted_flush w recs (scopeFragment resourceHeader scopeHeader recs) emitted
      dsimp only
      generalize (if recs.isEmpty then (w, emitted)
        else w.emitCounted (scopeFragment resourceHeader scopeHeader recs) emitted) = flushed
        at hflushed
      split
      · exact hflushed.mono (Nat.le_add_left _ _)
      · split
        · have halone := hflushed.trans (counted_emit flushed.1
            (scopeFragment resourceHeader scopeHeader rec.full) flushed.2)
          split
          · exact halone.mono (by omega)
          · exact (halone.trans (ih [] _ _)).mono (by rw [waiting_nil]; omega)
        · have hone := waiting_le rec.full
          exact (hflushed.trans (ih rec.full _ _)).mono (by omega)

theorem splitScopeEntry_counted (payload : Bytes) (w : BatchWriter) (emitted : Nat) :
    Counted w emitted (splitScopeEntry w resourceHeader payload maxSize abortAt emitted)
      (max (countRecords payload) 1) := by
  unfold splitScopeEntry
  dsimp only
  split
  · exact (counted_emit w _ emitted).mono (le_max_right _ _)
  · exact (splitRecords_counted resourceHeader maxSize abortAt _ _ [] w emitted).mono
      (le_max_left _ _)

/-- The worst case for the number of fragments. -/
def projected (scopes : List Field) : Nat :=
  (scopes.map fun scope => max (countRecords scope.value) 1).sum

theorem packScopes_counted (rest : List Field) (scopes : Bytes) (w : BatchWriter) (emitted : Nat)
    (hwithin : emitted ≤ abortAt) :
    let packed := packScopes resourceHeader maxSize abortAt rest scopes w emitted
    Counted w emitted (packed.writer, packed.emitted) (projected rest + waiting scopes) ∧
      (packed.overBudget = false → packed.emitted ≤ abortAt) ∧
      (packed.overBudget = true → abortAt < packed.emitted) := by
  induction rest generalizing scopes w emitted with
  | nil =>
    have hflush := counted_flush w scopes (resourceHeader ++ scopes) emitted
    simp only [packScopes, projected, map_nil, sum_nil, zero_add]
    split_ifs at hflush with hempty
    · rw [if_pos hempty]
      exact ⟨hflush, fun _ => hwithin, nofun⟩
    · rw [if_neg hempty]
      exact ⟨hflush, fun hno => not_lt.mp (of_decide_eq_false hno), of_decide_eq_true⟩
  | cons scope rest ih =>
    have hproj : projected (scope :: rest) = max (countRecords scope.value) 1 + projected rest := by
      simp [projected]
    have hpos := le_max_right (countRecords scope.value) 1
    rw [hproj, packScopes]
    split
    · have hone := waiting_le (scopes ++ scope.full)
      obtain ⟨hcounted, hdone⟩ := ih (scopes ++ scope.full) w emitted hwithin
      exact ⟨hcounted.mono (by omega), hdone⟩
    · have hflushed := counted_flush w scopes (resourceHeader ++ scopes) emitted
      have hstay : scopes.isEmpty = true → (if scopes.isEmpty then (w, emitted)
          else w.emitCounted (resourceHeader ++ scopes) emitted).2 ≤ abortAt := by
        intro hempty
        rwa [if_pos hempty]
      dsimp only
      generalize (if scopes.isEmpty then (w, emitted)
        else w.emitCounted (resourceHeader ++ scopes) emitted) = flushed at hflushed hstay
      split
      · rename_i hstop
        exact ⟨hflushed.mono (Nat.le_add_left _ _), by simp, fun _ =>
          of_decide_eq_true (Bool.and_eq_true_iff.mp hstop).2⟩
      · rename_i hgo
        have hle : flushed.2 ≤ abortAt := by
          cases hempty : scopes.isEmpty with
          | true => exact hstay hempty
          | false => simpa [hempty] using hgo
        split
        · have hone := waiting_le scope.full
          obtain ⟨hcounted, hdone⟩ := ih scope.full flushed.1 flushed.2 hle
          exact ⟨(hflushed.trans hcounted).mono (by omega), hdone⟩
        · have hsplit := hflushed.trans (splitScopeEntry_counted resourceHeader maxSize abortAt
            scope.value flushed.1 flushed.2)
          split
          · rename_i hstop
            exact ⟨hsplit.mono (by omega), by simp, fun _ => hstop⟩
          · rename_i hno
            obtain ⟨hcounted, hdone⟩ := ih [] _ _ (not_lt.mp hno)
            refine ⟨(hsplit.trans hcounted).mono ?_, hdone⟩
            rw [waiting_nil]
            omega

end

/-! ## Entries that are left whole -/

/-- Cutting the entry takes more fragments than the first budget allows, or fragments that say a
first part of it are longer, by more than the second budget, than the entry. -/
def OverBudget (maxSize : Nat) (budgets : Budgets) (payload : Bytes) : Prop :=
  budgets.fragment < projected (children (fields payload).1) ∨
    ∃ input out, (∀ b ∈ out, Fragment input maxSize b) ∧ readAll out <+: readEntry payload ∧
      wrappedLen RESOURCE_ENTRY_FIELD payload.length + budgets.overhead <
        min (totalLen out) usizeMax

/-- **An entry is cut into fragments that say the same, or left whole by a budget.** -/
theorem splitResourceEntry_spec (maxSize : Nat) {payload : Bytes}
    (hlen : payload.length < isizeLimit) (w : BatchWriter) (budgets : Budgets) (fallbacks : Nat) :
    (∃ out, Emits maxSize w (splitResourceEntry w payload maxSize budgets fallbacks).1 out ∧
        readAll out = readEntry payload ∧
        (splitResourceEntry w payload maxSize budgets fallbacks).2 = fallbacks) ∨
      splitResourceEntry w payload maxSize budgets fallbacks =
        (w.emitTop payload, fallbacks + 1) ∧ OverBudget maxSize budgets payload := by
  have hfits : payload.length < 2 ^ 64 := by
    unfold isizeLimit at hlen
    omega
  have hwhole := (fields_spec payload).2.1
  unfold splitResourceEntry
  dsimp only
  split
  · rename_i hmalformed
    have hread : readEntry payload = [.malformed payload] := by
      unfold readEntry
      rw [if_pos hmalformed]
    exact .inl ⟨_, emits_emitTop hfits (fun _ => by rw [hread]; rfl), readAll_topBatch hfits w, rfl⟩
  · rename_i hsplittable
    split
    · rename_i hbare
      have hread : readEntry payload = [.bareResource (header (fields payload).1)] := by
        unfold readEntry
        rw [if_neg hsplittable, if_pos hbare]
      exact .inl
        ⟨_, emits_emitTop hfits (fun _ => by rw [hread]; rfl), readAll_topBatch hfits w, rfl⟩
    · rename_i hscopes
      split
      · rename_i hmany
        exact .inr ⟨rfl, .inl hmany⟩
      · rw [Bool.not_eq_true, Bool.not_eq_false'] at hsplittable
        obtain ⟨hparse, hall⟩ := Bool.and_eq_true_iff.mp hsplittable
        have hlengths := length_header_add_children (fields payload).1
        rw [concat_fields hparse] at hlengths
        have hentry : readEntry payload =
            scopesItems (fields payload).1 (children (fields payload).1) := by
          unfold readEntry
          rw [if_neg (by simp [hsplittable]), if_neg hscopes]
          rfl
        obtain ⟨items, ⟨out, hemits, rfl⟩, hfirst, hitems⟩ := emits_children hwhole
          (all_eq_true.mp hall) (by omega)
          (saturatingAdd (wrappedLen RESOURCE_ENTRY_FIELD payload.length) budgets.overhead) w
        obtain ⟨⟨out', hout', -, hemitted⟩, -, hover⟩ := packScopes_counted
          (header (fields payload).1) maxSize
          (saturatingAdd (wrappedLen RESOURCE_ENTRY_FIELD payload.length) budgets.overhead)
          (children (fields payload).1) [] w 0 (Nat.zero_le _)
        split_ifs with hwithin
        · refine .inr ⟨?_, .inr ⟨w.input, out, hemits.each, hentry ▸ hfirst, ?_⟩⟩
          · -- Taking the fragments back leaves what was there before.
            rw [hemits.eq]
            simp
          · have hbatches := congrArg BatchWriter.batches hemits.eq
            obtain rfl : out = out' := append_cancel_left (hbatches.symm.trans hout')
            have hlt := hover hwithin
            have hcount := hemitted (Nat.zero_le _)
            dsimp only at hcount
            rw [hcount, zero_add, saturatingAdd] at hlt
            omega
        · exact .inl ⟨out, hemits, hentry ▸ hitems (by simpa using hwithin), rfl⟩

/-! ## Lengths -/

/-- The lengths that the loops compute: of a header with consecutive children. -/
structure LengthsFit (payload : Bytes) : Prop where
  fragments : projected (children (fields payload).1) ≤ usizeMax
  scopes : ∀ gs, gs <:+: children (fields payload).1 → wrappedLen RESOURCE_ENTRY_FIELD
    ((header (fields payload).1).length + (concat gs).length) ≤ usizeMax
  records : ∀ scope ∈ children (fields payload).1, ∀ gs, gs <:+: children (fields scope.value).1 →
    fragmentLen (header (fields payload).1) (header (fields scope.value).1) (concat gs).length ≤
      usizeMax

theorem length_concat_le {gs fs : List Field} (h : gs <:+: fs) :
    (concat gs).length ≤ (concat fs).length := by
  obtain ⟨before, after, rfl⟩ := h
  simp only [concat_append, length_append]
  omega

theorem length_children_le (payload : Bytes) : (header (fields payload).1).length +
    (concat (children (fields payload).1)).length ≤ payload.length := by
  rw [length_header_add_children]
  nth_rw 2 [(fields_spec payload).1]
  exact (length_append).ge.trans' (Nat.le_add_right _ _)

theorem lengthsFit {payload : Bytes} (hlen : payload.length < isizeLimit) : LengthsFit payload := by
  have hpayload := length_children_le payload
  have hwhole := child_of_children (fields_spec payload).2.1
  unfold isizeLimit at hlen
  refine ⟨?_, fun gs hgs => ?_, fun scope hscope gs hgs => ?_⟩
  · have hsum : projected (children (fields payload).1) ≤
        (concat (children (fields payload).1)).length := by
      rw [concat, length_flatMap]
      refine sum_le_sum fun scope hscope => max_le ?_ ?_
      · have hrecords := length_le_concat
          fun f hf => (child_of_children (fields_spec scope.value).2.1 f hf).1
        have hvalue := length_children_le scope.value
        have hfull := (hwhole scope hscope).1.length_value_le
        unfold countRecords
        omega
      · exact length_pos_iff.mpr (hwhole scope hscope).1.full_ne_nil
    unfold usizeMax
    omega
  · have hgs' := length_concat_le hgs
    have hwrapped := wrappedLen_le RESOURCE_ENTRY_FIELD
      ((header (fields payload).1).length + (concat gs).length)
    unfold usizeMax
    omega
  · have hgs' := length_concat_le hgs
    have hvalue := length_children_le scope.value
    have hfull := (hwhole scope hscope).1.length_value_le
    obtain ⟨before, after, heq⟩ := append_of_mem hscope
    rw [heq, concat_append, concat_cons, length_append, length_append] at hpayload
    have hinner := wrappedLen_le CHILD_LIST_FIELD
      ((header (fields scope.value).1).length + (concat gs).length)
    have houter := wrappedLen_le RESOURCE_ENTRY_FIELD ((header (fields payload).1).length +
      wrappedLen CHILD_LIST_FIELD ((header (fields scope.value).1).length + (concat gs).length))
    unfold fragmentLen usizeMax
    omega

/-! ## The budgets -/

/-- What splitting an entry owes: the outputs are the entry as a whole, or fragments that say all
of it and keep to both budgets.  (All outputs are in memory at once, so that their total length is a
number of the source's `usize`.) -/
structure SplitBounded (payload : Bytes) (budgets : Budgets) (w w' : BatchWriter) : Prop where
  emitted : ∃ out, w'.batches = w.batches ++ out ∧ (out = [topBatch w payload] ∨
    readAll out = readEntry payload ∧ out.length ≤ budgets.fragment ∧
      (totalLen out ≤ usizeMax → totalLen out ≤
        wrappedLen RESOURCE_ENTRY_FIELD payload.length + budgets.overhead))
  lengths : LengthsFit payload

/-- **Splitting has bounded amplification.** -/
theorem splitting_bounded {payload : Bytes} (hlen : payload.length < isizeLimit) (w : BatchWriter)
    (maxSize : Nat) (budgets : Budgets) (fallbacks : Nat) :
    SplitBounded payload budgets w
      (splitResourceEntry w payload maxSize budgets fallbacks).1 := by
  refine ⟨?_, lengthsFit hlen⟩
  rcases splitResourceEntry_spec maxSize hlen w budgets fallbacks with
    ⟨out, hemits, hread, hfallbacks⟩ | hwhole
  · have hbatches : (splitResourceEntry w payload maxSize budgets fallbacks).1.batches =
        w.batches ++ out := by rw [hemits.eq]
    refine ⟨out, hbatches, ?_⟩
    unfold splitResourceEntry at hbatches hfallbacks
    dsimp only at hbatches hfallbacks
    have htop : w.batches ++ [topBatch w payload] = w.batches ++ out → out = [topBatch w payload] :=
      fun h => (append_cancel_left h).symm
    split at hbatches
    · exact .inl (htop hbatches)
    rename_i hsplittable
    rw [if_neg hsplittable] at hfallbacks
    split at hbatches
    · exact .inl (htop hbatches)
    rename_i hscopes
    rw [if_neg hscopes] at hfallbacks
    split at hbatches
    · exact .inl (htop hbatches)
    rename_i hfragments
    rw [if_neg hfragments] at hfallbacks
    obtain ⟨⟨out', hout', hcount, hemitted⟩, hdone, -⟩ := packScopes_counted
        (header (fields payload).1)
      maxSize (saturatingAdd (wrappedLen RESOURCE_ENTRY_FIELD payload.length) budgets.overhead)
      (children (fields payload).1) [] w 0 (Nat.zero_le _)
    split at hbatches
    · -- a budget has stopped the cutting, and then the entry counts as a fallback
      rename_i hover
      rw [if_pos hover] at hfallbacks
      omega
    · rename_i hover
      obtain rfl := append_cancel_left (hout'.symm.trans hbatches)
      have hwithin := hdone (Bool.eq_false_of_not_eq_true hover)
      refine .inr ⟨hread, hcount.trans (not_lt.mp hfragments), fun hfits => ?_⟩
      obtain ⟨hsum, hmax⟩ := le_min_iff.mp hwithin
      have hcount := hemitted (Nat.zero_le _)
      dsimp only at hcount
      omega
  · rw [hwhole.1]
    exact ⟨_, rfl, .inl rfl⟩

/-- A scope with two records is cut in two: twelve bytes for an entry that takes eight as a
whole. -/
theorem splitting_bounded_two_records : let payload : Bytes := [0x12, 4, 0x12, 0, 0x12, 0]
    let w : BatchWriter := ⟨.logs, 0, 0, 0, [], []⟩
    ((splitResourceEntry w payload 6 ⟨2, 4, 9⟩ 0).1.batches.map (·.batch.bytes.length) = [6, 6]) ∧
      SplitBounded payload ⟨2, 4, 9⟩ w (splitResourceEntry w payload 6 ⟨2, 4, 9⟩ 0).1 :=
  ⟨by decide +kernel, splitting_bounded (by decide) _ 6 ⟨2, 4, 9⟩ 0⟩

end OtapDataflow.OtlpBytes
