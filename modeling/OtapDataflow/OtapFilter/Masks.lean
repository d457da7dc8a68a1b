import OtapDataflow.Lib.Kleene

/-! # Filtering logs

A batch of logs is a table of records and optional tables of log, resource and scope attributes,
which refer to their owners by id.  A filter is evaluated as one mask for each of the first three
tables; the masks are then reconciled by ids: a record is kept only if its id is among the owners of
the attribute rows that are kept.

Ids are unsigned 16-bit numbers.  A regular expression is given by the strings that it matches, and
doubles are compared by their bits. -/

namespace OtapDataflow.OtapFilter

open Kleene

inductive Error
  | columnNotFound (name : String)
  | columnLengthMismatch
  deriving DecidableEq, Repr

/-- A value, at most one of whose typed columns is set. -/
structure Values where
  str : Option String
  int : Option Int
  double : Option UInt64
  bool : Option Bool
  deriving DecidableEq, Repr

/-- Which of the typed columns a table has. -/
structure ValueColumns where
  str : Bool
  int : Bool
  double : Bool
  bool : Bool
  deriving DecidableEq, Repr

/-- A column that is absent has no values. -/
def Values.Within (v : Values) (has : ValueColumns) : Prop :=
  (has.str = false → v.str = none) ∧ (has.int = false → v.int = none) ∧
    (has.double = false → v.double = none) ∧ (has.bool = false → v.bool = none)

instance (v : Values) (has : ValueColumns) : Decidable (v.Within has) :=
  inferInstanceAs (Decidable (_ ∧ _ ∧ _ ∧ _))

structure AttrRow where
  parentId : Option Nat
  key : Option String
  value : Values
  deriving DecidableEq, Repr

structure AttrTable where
  has : ValueColumns
  rows : List AttrRow
  within : ∀ r ∈ rows, r.value.Within has

structure LogRow where
  id : Option Nat
  resourceId : Option Nat
  scopeId : Option Nat
  severityText : Option String
  severityNumber : Option Int
  body : Values
  deriving DecidableEq, Repr

/-- The record table.  The columns of the resource and scope structs can be absent, and so can the
structs. -/
structure LogsTable where
  hasId : Bool
  /-- The `resource` struct, and whether it has an `id` column. -/
  resource : Option Bool
  scope : Option Bool
  hasSeverityText : Bool
  hasSeverityNumber : Bool
  body : Option ValueColumns
  rows : List LogRow
  within : ∀ r ∈ rows, (hasId = false → r.id = none) ∧
    (resource ≠ some true → r.resourceId = none) ∧ (scope ≠ some true → r.scopeId = none) ∧
    (hasSeverityText = false → r.severityText = none) ∧
    (hasSeverityNumber = false → r.severityNumber = none) ∧
    r.body.Within (body.getD ⟨false, false, false, false⟩)

structure OtapArrowRecords where
  logs : LogsTable
  logAttrs : Option AttrTable
  resourceAttrs : Option AttrTable
  scopeAttrs : Option AttrTable

/-! ## Matchers -/

inductive Pattern
  | exact (value : String)
  | regex (language : String → Bool)

def Pattern.isMatch : Pattern → String → Bool
  | .exact s, value => value = s
  | .regex language, value => language value

inductive ValueMatcher
  | string (pattern : Pattern)
  | int (value : Int)
  | double (value : UInt64)
  | bool (value : Bool)

structure AttrMatcher where
  key : String
  value : ValueMatcher

structure LogSeverityNumberMatchProperties where
  min : Int
  matchUndefined : Bool

structure LogMatchProperties where
  resourceAttributes : List AttrMatcher
  recordAttributes : List AttrMatcher
  severityTexts : List Pattern
  severityNumber : Option LogSeverityNumberMatchProperties
  bodies : List ValueMatcher

structure LogFilter where
  include_ : Option LogMatchProperties
  exclude : Option LogMatchProperties

/-! ## Masks -/

def andKleene (a b : Mask) : Except Error Mask :=
  (zip3 and3 a b).elim (.error .columnLengthMismatch) .ok

def orKleene (a b : Mask) : Except Error Mask :=
  (zip3 or3 a b).elim (.error .columnLengthMismatch) .ok

/-- `BooleanArray::from(BooleanBuffer::new_set(n))` and its like. -/
def constant (n : Nat) (value : Option Bool) : Mask := List.replicate n value

def negate (mask : Mask) : Mask := mask.map not3

def nullsToFalse (mask : Mask) : Mask := mask.map fun a => some (holds a)

/-- Comparing a column with a scalar: an unset value is neither equal nor unequal. -/
def eqScalar {α : Type} [DecidableEq α] (column : List (Option α)) (value : α) : Mask :=
  column.map (Option.map fun a => decide (a = value))

/-- The rows on which a value matches, or `none` if the column it needs is absent.  The column of
strings is required. -/
def valueMatcherFilter (has : ValueColumns) (values : List Values) :
    ValueMatcher → Except Error (Option Mask)
  | .string pattern =>
    if has.str then .ok (some (values.map fun v => v.str.map pattern.isMatch))
    else .error (.columnNotFound "str")
  | .int value => .ok (if has.int then some (eqScalar (values.map (·.int)) value) else none)
  | .double value =>
    .ok (if has.double then some (eqScalar (values.map (·.double)) value) else none)
  | .bool value => .ok (if has.bool then some (eqScalar (values.map (·.bool)) value) else none)

/-! ## Ids -/

def idColumnLengthMinThreshold : Nat := 2000
def idSetMaxLengthThreshold : Nat := 20

/-- The distinct ids of the selected rows. -/
def getIds (column : List (Option Nat)) (filter : Mask) : List Nat :=
  ((select column filter).filterMap id).dedup

/-- The rows whose id is in the set.  A long column is compared with the ids one after the other
and then reports the other rows as unknown, a short one is looked up row by row and reports them as
false.  (A set of at most 20 ids is at most one percent of a column of at least 2000 rows, so the
percentage that the source also asks for decides nothing.) -/
def buildIdFilter (column : List (Option Nat)) (ids : List Nat) : Except Error Mask :=
  if idColumnLengthMinThreshold ≤ column.length && ids.length ≤ idSetMaxLengthThreshold then
    ids.foldlM (fun combined i => orKleene combined (eqScalar column i))
      (constant column.length none)
  else .ok (column.map fun i => some (i.any (· ∈ ids)))

def noRecordBatchFilterSize : Nat := 1

/-- Key and value of one matcher. -/
def attributeFilter (t : AttrTable) (m : AttrMatcher) : Except Error (Option Mask) := do
  let keyFilter := eqScalar (t.rows.map (·.key)) m.key
  match ← valueMatcherFilter t.has (t.rows.map (·.value)) m.value with
  | none => pure none
  | some valueFilter => some <$> andKleene keyFilter valueFilter

/-- The loop over the matchers of resource attributes: one whose column is absent ends it. -/
def resourceAttributesFilter (t : AttrTable) : List AttrMatcher → Mask → Except Error (Option Mask)
  | [], combined => .ok (some combined)
  | m :: ms, combined => do
    match ← attributeFilter t m with
    | none => pure none
    | some mask => resourceAttributesFilter t ms (← orKleene combined mask)

/-- The rows of the resources on which as many rows match as there are matchers. -/
def getResourceAttrFilter (table : Option AttrTable) (attributes : List AttrMatcher) :
    Except Error Mask :=
  match table with
  | none => .ok (constant noRecordBatchFilterSize (some attributes.isEmpty))
  | some t =>
    if attributes.isEmpty then .ok (constant t.rows.length (some true))
    else do
      match ← resourceAttributesFilter t attributes (constant t.rows.length none) with
      | none => pure (constant t.rows.length (some false))
      | some mask =>
        let parentIds := t.rows.map (·.parentId)
        let ids := (select parentIds mask).filterMap id
        buildIdFilter parentIds (ids.dedup.filter fun i => attributes.length ≤ ids.count i)

/-- The loop over the matchers of log attributes: one whose column is absent is skipped. -/
def logAttributesFilter (t : AttrTable) : List AttrMatcher → Mask → Except Error Mask
  | [], combined => .ok combined
  | m :: ms, combined => do
    match ← attributeFilter t m with
    | none => logAttributesFilter t ms combined
    | some mask => logAttributesFilter t ms (← orKleene combined mask)

/-- The rows of the records on which some row matches. -/
def getAttrFilter (table : Option AttrTable) (attributes : List AttrMatcher) : Except Error Mask :=
  match table with
  | none => .ok (constant noRecordBatchFilterSize (some attributes.isEmpty))
  | some t =>
    if attributes.isEmpty then .ok (constant t.rows.length (some true))
    else do
      let mask ← logAttributesFilter t attributes (constant t.rows.length (some false))
      let parentIds := t.rows.map (·.parentId)
      buildIdFilter parentIds (getIds parentIds mask)

/-! ## Record fields -/

def severityTextsFilter (logs : LogsTable) (texts : List Pattern) : Except Error Mask :=
  texts.foldlM (fun combined p => orKleene combined
    (logs.rows.map fun r => r.severityText.map p.isMatch)) (constant logs.rows.length none)

/-- The loop over the bodies. -/
def bodiesFilter (has : ValueColumns) (values : List Values) :
    List ValueMatcher → Mask → Except Error Mask
  | [], combined => .ok combined
  | m :: ms, combined => do
    match ← valueMatcherFilter has values m with
    | none => bodiesFilter has values ms combined
    | some mask => bodiesFilter has values ms (← orKleene mask combined)

def severityNumberFilter (logs : LogsTable) (p : LogSeverityNumberMatchProperties) :
    Except Error Mask :=
  let atLeast := logs.rows.map fun r => r.severityNumber.map fun n => decide (p.min ≤ n)
  if p.matchUndefined then orKleene atLeast (eqScalar (logs.rows.map (·.severityNumber)) 0)
  else .ok atLeast

variable (p : LogMatchProperties)

/-- The step for the severity texts, whose column is there. -/
def matchSeverityTexts (logs : LogsTable) (filter : Mask) :
    Except Error Mask :=
  if p.severityTexts.isEmpty then .ok filter
  else do andKleene filter (← severityTextsFilter logs p.severityTexts)

def matchBodies (logs : LogsTable) (filter : Mask) : Except Error Mask :=
  if p.bodies.isEmpty then .ok filter
  else match logs.body with
    | none => .error (.columnNotFound "body")
    | some has => do
      let values := logs.rows.map (·.body)
      andKleene filter (← bodiesFilter has values p.bodies (constant logs.rows.length none))

/-- The step for the severity number.  Without its column nothing matches. -/
def matchSeverityNumber (logs : LogsTable) (filter : Mask) :
    Except Error Mask :=
  match p.severityNumber with
  | none => .ok (nullsToFalse filter)
  | some severity =>
    if logs.hasSeverityNumber then do
      let filter ← andKleene filter (← severityNumberFilter logs severity)
      pure (nullsToFalse filter)
    else .ok (constant logs.rows.length (some false))

/-- The records whose fields match.  Without the column of severity texts the evaluation ends at
once. -/
def getLogRecordFilter (logs : LogsTable) : Except Error Mask :=
  if p.severityTexts.isEmpty || logs.hasSeverityText then do
    let filter ← matchSeverityTexts p logs (constant logs.rows.length (some true))
    let filter ← matchBodies p logs filter
    matchSeverityNumber p logs filter
  else .ok (constant logs.rows.length (some false))

/-! ## The filter -/

structure Filters where
  resourceAttr : Mask
  logRecord : Mask
  logAttr : Mask

/-- One mask for each table; those of an exclusion are inverted, except where it has no criteria. -/
def createFilters (b : OtapArrowRecords) (invert : Bool) :
    Except Error Filters := do
  let resourceAttr ← getResourceAttrFilter b.resourceAttrs p.resourceAttributes
  let logRecord ← getLogRecordFilter p b.logs
  let logAttr ← getAttrFilter b.logAttrs p.recordAttributes
  let fields := !p.bodies.isEmpty || !p.severityTexts.isEmpty || p.severityNumber.isSome
  pure
    { resourceAttr := if invert && !p.resourceAttributes.isEmpty then negate resourceAttr
        else resourceAttr
      logRecord := if invert && fields then negate logRecord else logRecord
      logAttr := if invert && !p.recordAttributes.isEmpty then negate logAttr else logAttr }

/-- Keep the parents that own a kept row. -/
def updateParentRecordBatchFilter (t : AttrTable) (ids : List (Option Nat))
    (childFilter parentFilter : Mask) : Except Error Mask := do
  let parentIds := getIds (t.rows.map (·.parentId)) childFilter
  andKleene parentFilter (← buildIdFilter ids parentIds)

/-- Keep the rows whose parent is kept. -/
def newChildRecordBatchFilter (t : AttrTable) (ids : List (Option Nat)) (parentFilter : Mask) :
    Except Error Mask :=
  buildIdFilter (t.rows.map (·.parentId)) (getIds ids parentFilter)

def updateChildRecordBatchFilter (t : AttrTable) (ids : List (Option Nat))
    (childFilter parentFilter : Mask) : Except Error Mask := do
  andKleene childFilter (← newChildRecordBatchFilter t ids parentFilter)

def requireColumn (present : Bool) (name : String) (column : List (Option Nat)) :
    Except Error (List (Option Nat)) :=
  if present then .ok column else .error (.columnNotFound name)

/-- One of the two attribute tables against the records.  `none`: nothing matches. -/
def syncParent (table : Option AttrTable) (ids : Except Error (List (Option Nat)))
    (childFilter parentFilter : Mask) : Except Error (Option Mask) :=
  match table with
  | some t => do
    let ids ← ids
    some <$> updateParentRecordBatchFilter t ids childFilter parentFilter
  | none => .ok (if childFilter.any holds then some parentFilter else none)

/-- The masks of the tables that are there. -/
structure Synced where
  logRecord : Mask
  logAttrs : Option Mask
  resourceAttrs : Option Mask
  scopeAttrs : Option Mask

def syncUpFilters (b : OtapArrowRecords) (f : Filters) : Except Error Synced := do
  let nothing : Synced := ⟨constant f.logRecord.length (some false), none, none, none⟩
  let rows := b.logs.rows
  let hasResourceId ← b.logs.resource.elim (.error (.columnNotFound "resource")) .ok
  let ids := requireColumn b.logs.hasId "id" (rows.map (·.id))
  let resourceIds := requireColumn hasResourceId "resource.id" (rows.map (·.resourceId))
  match ← syncParent b.resourceAttrs resourceIds f.resourceAttr f.logRecord with
  | none => pure nothing
  | some logRecord =>
    match ← syncParent b.logAttrs ids f.logAttr logRecord with
    | none => pure nothing
    | some logRecord =>
      let logAttrs ← b.logAttrs.mapM fun t => do
        updateChildRecordBatchFilter t (← ids) f.logAttr logRecord
      let resourceAttrs ← b.resourceAttrs.mapM fun t => do
        updateChildRecordBatchFilter t (← resourceIds) f.resourceAttr logRecord
      let scopeAttrs ← b.scopeAttrs.mapM fun t => do
        let hasScopeId ← b.logs.scope.elim (.error (.columnNotFound "scope")) .ok
        newChildRecordBatchFilter t (← requireColumn hasScopeId "id" (rows.map (·.scopeId)))
          logRecord
      pure ⟨logRecord, logAttrs, resourceAttrs, scopeAttrs⟩

def AttrTable.select (t : AttrTable) (mask : Mask) : AttrTable where
  has := t.has
  rows := Kleene.select t.rows mask
  within r hr := t.within r (mem_of_mem_select hr)

def LogsTable.select (t : LogsTable) (mask : Mask) : LogsTable where
  hasId := t.hasId
  resource := t.resource
  scope := t.scope
  hasSeverityText := t.hasSeverityText
  hasSeverityNumber := t.hasSeverityNumber
  body := t.body
  rows := Kleene.select t.rows mask
  within r hr := t.within r (mem_of_mem_select hr)

/-- Filter the rows of a table that is there. -/
def applyFilter (table : Option AttrTable) (mask : Option Mask) : Option AttrTable :=
  match mask with
  | none => table
  | some mask => table.map (·.select mask)

/-- The masks of inclusion and exclusion together; `none` if neither is configured. -/
def LogFilter.masks (f : LogFilter) (b : OtapArrowRecords) : Except Error (Option Filters) :=
  match f.include_, f.exclude with
  | some inc, some exc => do
    let i ← createFilters inc b false
    let e ← createFilters exc b true
    pure (some ⟨← andKleene i.resourceAttr e.resourceAttr, ← andKleene i.logRecord e.logRecord,
      ← andKleene i.logAttr e.logAttr⟩)
  | none, some exc => some <$> createFilters exc b true
  | some inc, none => some <$> createFilters inc b false
  | none, none => pure none

/-- The filtered batch, the number of records consumed and the number of those filtered out. -/
def LogFilter.filter (f : LogFilter) (b : OtapArrowRecords) :
    Except Error (OtapArrowRecords × Nat × Nat) :=
  if b.logs.rows.length = 0 then .ok (b, 0, 0)
  else do
    match ← f.masks b with
    | none => pure (b, b.logs.rows.length, 0)
    | some filters =>
      let synced ← syncUpFilters b filters
      let logs := b.logs.select synced.logRecord
      pure ({ b with
          logs
          logAttrs := applyFilter b.logAttrs synced.logAttrs
          resourceAttrs := applyFilter b.resourceAttrs synced.resourceAttrs
          scopeAttrs := applyFilter b.scopeAttrs synced.scopeAttrs },
        b.logs.rows.length, b.logs.rows.length - logs.rows.length)

/-! # What the masks of a filter say

Each mask is described by the rows on which it is known to be true.  The masks of the two attribute
tables answer the same on all rows of one owner: they judge the owner by all of its rows
(`Judges`). -/

open List

/-! ## Matching one row -/

def valueMatches : ValueMatcher → Values → Bool
  | .string pattern, v => v.str.any pattern.isMatch
  | .int value, v => v.int = some value
  | .double value, v => v.double = some value
  | .bool value, v => v.bool = some value

def rowMatches (m : AttrMatcher) (r : AttrRow) : Bool :=
  r.key = some m.key && valueMatches m.value r.value

/-- The attributes of an owner. -/
def ownRows (table : Option AttrTable) (owner : Option Nat) : List AttrRow :=
  match table, owner with
  | some t, some i => t.rows.filter fun r => r.parentId = some i
  | _, _ => []

/-- Every matcher is met. -/
def allMatch (ms : List AttrMatcher) (rows : List AttrRow) : Bool :=
  ms.all fun m => rows.any (rowMatches m)

/-- Some matcher is met, if there are any. -/
def anyMatches (ms : List AttrMatcher) (rows : List AttrRow) : Bool :=
  ms.isEmpty || rows.any fun r => ms.any (rowMatches · r)

/-- The severity criterion; a severity that is not set is undefined, like zero. -/
def severityMatches (s : LogSeverityNumberMatchProperties) (n : Option Int) : Bool :=
  s.min ≤ n.getD 0 || (s.matchUndefined && n.getD 0 = 0)

def fieldsMatch (p : LogMatchProperties) (r : LogRow) : Bool :=
  (p.severityTexts.isEmpty || p.severityTexts.any fun t => r.severityText.any t.isMatch) &&
    (p.bodies.isEmpty || p.bodies.any (valueMatches · r.body)) &&
    p.severityNumber.all (severityMatches · r.severityNumber)

/-! ## Masks of values and attributes -/

variable {α : Type} {p q : α → Bool}

section

variable {rows : List α} {a c : Mask}

/-- A computation of a mask that is true on the rows with `p`. -/
def Computes (rows : List α) (e : Except Error Mask) (p : α → Bool) : Prop :=
  ∃ mask, e = .ok mask ∧ Reads rows mask p

theorem Computes.bind {e : Except Error Mask} {f : Mask → Except Error Mask}
    (h : Computes rows e p) (hf : ∀ mask, Reads rows mask p → Computes rows (f mask) q) :
    Computes rows (e >>= f) q := by
  obtain ⟨mask, rfl, hreads⟩ := h
  exact hf mask hreads

theorem Computes.congr {e : Except Error Mask} (h : Computes rows e p)
    (hpq : ∀ r ∈ rows, p r = q r) : Computes rows e q := by
  obtain ⟨mask, hmask, hreads⟩ := h
  exact ⟨mask, hmask, hreads.congr hpq⟩

theorem andKleene_reads (ha : Reads rows a p) (hc : Reads rows c q) :
    Computes rows (andKleene a c) fun r => p r && q r := by
  obtain ⟨m, hm, hreads⟩ := ha.zip holds_and3 hc
  exact ⟨m, by rw [andKleene, hm]; rfl, hreads⟩

theorem orKleene_reads (ha : Reads rows a p) (hc : Reads rows c q) :
    Computes rows (orKleene a c) fun r => p r || q r := by
  obtain ⟨m, hm, hreads⟩ := ha.zip holds_or3 hc
  exact ⟨m, by rw [orKleene, hm]; rfl, hreads⟩

theorem eqScalar_reads {β : Type} [DecidableEq β] (rows : List α) (f : α → Option β) (value : β) :
    Reads rows (eqScalar (rows.map f) value) fun r => decide (f r = some value) := by
  rw [eqScalar, map_map]
  refine (reads_map rows _).congr fun r _ => ?_
  cases h : f r <;> simp [h]

/-- A matcher of strings needs the column of strings. -/
def needsStr : ValueMatcher → Bool
  | .string _ => true
  | _ => false

/-- An optional mask: an absent column matches nowhere. -/
def ReadsOr (rows : List α) (o : Option Mask) (p : α → Bool) : Prop :=
  match o with
  | none => ∀ r ∈ rows, p r = false
  | some a => Reads rows a p

theorem eqColumn_reads {β : Type} [DecidableEq β] {f : α → Values} {present : Bool}
    {column : Values → Option β} (habsent : ∀ r ∈ rows, present = false → column (f r) = none)
    (value : β) :
    ReadsOr rows (if present then some (eqScalar ((rows.map f).map column) value) else none)
      fun r => decide (column (f r) = some value) := by
  cases present with
  | true =>
    rw [map_map]
    exact eqScalar_reads rows _ value
  | false =>
    intro r hr
    simp [habsent r hr rfl]

theorem valueMatcherFilter_reads {has : ValueColumns} {f : α → Values}
    (hwithin : ∀ r ∈ rows, (f r).Within has) {m : ValueMatcher}
    (hstr : needsStr m = true → has.str = true) :
    ∃ o, valueMatcherFilter has (rows.map f) m = .ok o ∧
      ReadsOr rows o fun r => valueMatches m (f r) := by
  cases m with
  | string pattern =>
    refine ⟨some _, if_pos (hstr rfl), ?_⟩
    rw [map_map]
    refine (reads_map rows _).congr fun r _ => ?_
    cases h : (f r).str <;> simp [valueMatches, h]
  | int value => exact ⟨_, rfl, eqColumn_reads (fun r hr => (hwithin r hr).2.1) value⟩
  | double value => exact ⟨_, rfl, eqColumn_reads (fun r hr => (hwithin r hr).2.2.1) value⟩
  | bool value => exact ⟨_, rfl, eqColumn_reads (fun r hr => (hwithin r hr).2.2.2) value⟩

end

/-- The matchers find the columns that they require. -/
def Columns (has : ValueColumns) (ms : List ValueMatcher) : Prop :=
  ∀ m ∈ ms, needsStr m = true → has.str = true

variable {ms : List AttrMatcher} {combined : Mask}

section

variable {t : AttrTable} {m : AttrMatcher}
  {q : AttrRow → Bool}

theorem attributeFilter_reads (hstr : needsStr m.value = true → t.has.str = true) :
    ∃ o, attributeFilter t m = .ok o ∧ ReadsOr t.rows o (rowMatches m) := by
  obtain ⟨o, ho, hreads⟩ := valueMatcherFilter_reads t.within hstr
  unfold attributeFilter
  rw [ho]
  cases o with
  | none =>
    refine ⟨none, rfl, fun r hr => ?_⟩
    have hvalue : valueMatches m.value r.value = false := hreads r hr
    rw [rowMatches, hvalue, Bool.and_false]
  | some mask =>
    obtain ⟨both, hboth, hreads⟩ := andKleene_reads (eqScalar_reads t.rows (·.key) m.key) hreads
    refine ⟨some both, ?_, hreads⟩
    show some <$> andKleene _ mask = _
    rw [hboth]
    rfl

theorem logAttributesFilter_reads (hstr : Columns t.has (ms.map (·.value)))
    (hcombined : Reads t.rows combined q) :
    Computes t.rows (logAttributesFilter t ms combined) fun r =>
      q r || ms.any (rowMatches · r) := by
  induction ms generalizing combined q with
  | nil => exact ⟨combined, rfl, hcombined.congr fun r _ => (Bool.or_false _).symm⟩
  | cons m ms ih =>
    obtain ⟨hm, hstr⟩ := forall_mem_cons.mp hstr
    obtain ⟨o, ho, hreads⟩ := attributeFilter_reads hm
    unfold logAttributesFilter
    rw [ho]
    cases o with
    | none =>
      refine (ih hstr hcombined).congr fun r hr => ?_
      rw [any_cons, hreads r hr, Bool.false_or]
    | some mask =>
      refine (orKleene_reads hcombined hreads).bind fun both hboth =>
        (ih hstr hboth).congr fun r _ => ?_
      rw [any_cons, Bool.or_assoc]

theorem resourceAttributesFilter_reads (hstr : Columns t.has (ms.map (·.value)))
    (hcombined : Reads t.rows combined q) :
    ∃ o, resourceAttributesFilter t ms combined = .ok o ∧
      (o = none → ∃ m ∈ ms, ∀ r ∈ t.rows, rowMatches m r = false) ∧
      ∀ mask, o = some mask → Reads t.rows mask fun r => q r || ms.any (rowMatches · r) := by
  induction ms generalizing combined q with
  | nil =>
    refine ⟨some combined, rfl, nofun, ?_⟩
    rintro mask ⟨⟩
    exact hcombined.congr fun r _ => (Bool.or_false _).symm
  | cons m ms ih =>
    obtain ⟨hm, hstr⟩ := forall_mem_cons.mp hstr
    obtain ⟨o, ho, hreads⟩ := attributeFilter_reads hm
    unfold resourceAttributesFilter
    rw [ho]
    cases o with
    | none => exact ⟨none, rfl, fun _ => ⟨m, mem_cons_self, hreads⟩, nofun⟩
    | some mask =>
      obtain ⟨both, hboth, hreads⟩ := orKleene_reads hcombined hreads
      obtain ⟨o, ho, hnone, hsome⟩ := ih hstr hreads
      refine ⟨o, ?_, fun h => ?_, fun mask h => (hsome mask h).congr fun r _ => ?_⟩
      · show (orKleene combined mask >>= resourceAttributesFilter t ms) = _
        rwa [hboth]
      · obtain ⟨m', hm', hnever⟩ := hnone h
        exact ⟨m', mem_cons_of_mem m hm', hnever⟩
      · rw [any_cons, Bool.or_assoc]

end

/-! ## Masks of ids -/

section

variable {rows : List α} {f : α → Option Nat} {a : Mask}

/-- The disjunction of columns, one after the other. -/
theorem foldlM_orKleene_reads {ι : Type} {columns : ι → Mask} {c : ι → α → Bool} {l : List ι}
    (hcolumns : ∀ i, Reads rows (columns i) (c i)) (h : Reads rows a q) :
    Computes rows (l.foldlM (fun combined i => orKleene combined (columns i)) a)
      fun r => q r || l.any (c · r) := by
  induction l generalizing a q with
  | nil => exact ⟨a, rfl, h.congr fun r _ => (Bool.or_false _).symm⟩
  | cons i l ih =>
    refine (orKleene_reads h (hcolumns i)).bind fun both hboth => (ih hboth).congr fun r _ => ?_
    rw [any_cons, Bool.or_assoc]

theorem buildIdFilter_reads (ids : List Nat) :
    ∃ mask, buildIdFilter (rows.map f) ids = .ok mask ∧
      (Reads rows mask fun r => (f r).any (· ∈ ids)) ∧
      (rows.length < idColumnLengthMinThreshold → Known mask) := by
  unfold buildIdFilter
  split_ifs with hlong
  · have hlength : idColumnLengthMinThreshold ≤ rows.length := by
      simpa using (Bool.and_eq_true_iff.mp hlong).1
    have hstart : Reads rows (constant (rows.map f).length none) fun _ => false := by
      rw [length_map]
      exact reads_replicate rows none
    obtain ⟨mask, hmask, hreads⟩ :=
      foldlM_orKleene_reads (l := ids) (fun i => eqScalar_reads rows f i) hstart
    refine ⟨mask, hmask, hreads.congr fun r _ => ?_,
      fun hshort => absurd hlength (not_le.mpr hshort)⟩
    rw [Bool.false_or, Bool.eq_iff_iff]
    cases f r <;> simp
  · refine ⟨_, rfl, ?_, fun _ => by simp [Known]⟩
    rw [map_map]
    exact (reads_map rows _).congr fun r _ => holds_some _

/-- The ids of the selected rows. -/
theorem mem_getIds (h : Reads rows a p) {i : Nat} :
    i ∈ getIds (rows.map f) a ↔ ∃ r ∈ rows, p r = true ∧ f r = some i := by
  rw [getIds, h.select_map, mem_dedup, mem_filterMap]
  simp [and_assoc]

end

/-! ## Masks of owners -/

/-- The owners named by the rows of a table.  The mask of an absent table has one entry. -/
def owners : Option AttrTable → List (Option Nat)
  | none => [none]
  | some t => t.rows.map (·.parentId)

/-- A mask over an attribute table that judges every owner by its own rows. -/
def Judges (table : Option AttrTable) (mask : Mask) (c : List AttrRow → Bool) : Prop :=
  Reads (owners table) mask fun o => c (ownRows table o)

section

variable {t : AttrTable} {c : List AttrRow → Bool}

/-- The same answer for all owners. -/
theorem judges_rows {value : Bool} (hc : ∀ o, c (ownRows (some t) o) = value) :
    Judges (some t) (constant t.rows.length (some value)) c := by
  have h := reads_replicate (owners (some t)) (some value)
  rw [owners, length_map] at h
  exact h.congr fun o _ => (holds_some value).trans (hc o).symm

theorem known_constant (n : Nat) (value : Bool) : Known (constant n (some value)) := fun h =>
  nomatch eq_of_mem_replicate h

/-- Without the table there are no rows. -/
theorem judges_absent {value : Bool} (hc : c [] = value) :
    Judges none (constant noRecordBatchFilterSize (some value)) c :=
  congrArg (fun v => [v]) ((holds_some value).trans hc.symm)

/-- The rows of the owners in a set. -/
theorem buildIdFilter_judges {ids : List Nat}
    (hids : ∀ i, i ∈ ids ↔ c (ownRows (some t) (some i)) = true) (hnone : c [] = false) :
    ∃ mask, buildIdFilter (t.rows.map (·.parentId)) ids = .ok mask ∧ Judges (some t) mask c ∧
      (t.rows.length < idColumnLengthMinThreshold → Known mask) := by
  have hbuild := @buildIdFilter_reads _ (t.rows.map (·.parentId)) id ids
  rw [map_id, length_map] at hbuild
  obtain ⟨mask, hmask, hreads, hknown⟩ := hbuild
  refine ⟨mask, hmask, hreads.congr fun o _ => ?_, hknown⟩
  cases o with
  | none => exact hnone.symm
  | some i =>
    rw [Bool.eq_iff_iff]
    simpa using hids i

theorem mem_ownRows {i : Nat} {r : AttrRow} :
    r ∈ ownRows (some t) (some i) ↔ r ∈ t.rows ∧ r.parentId = some i := by
  simp [ownRows]

theorem mem_of_mem_ownRows {o : Option Nat} {r : AttrRow} (h : r ∈ ownRows (some t) o) :
    r ∈ t.rows := by
  cases o with
  | none => cases h
  | some i => exact (mem_ownRows.mp h).1

/-- The mask of the record attributes. -/
theorem getAttrFilter_judges {table : Option AttrTable}
    (hstr : ∀ t ∈ table, Columns t.has (ms.map (·.value))) :
    ∃ mask, getAttrFilter table ms = .ok mask ∧ Judges table mask (anyMatches ms) ∧
      ((∀ t ∈ table, t.rows.length < idColumnLengthMinThreshold) → Known mask) := by
  cases table with
  | none =>
    exact ⟨_, rfl, judges_absent (by simp [anyMatches]), fun _ => known_constant _ _⟩
  | some t =>
    unfold getAttrFilter
    cases hms : ms.isEmpty with
    | true =>
      refine ⟨_, rfl, ?_, fun _ => known_constant _ _⟩
      exact judges_rows fun rows => by rw [anyMatches, hms, Bool.true_or]
    | false =>
      obtain ⟨mask, hmask, hreads⟩ :=
        logAttributesFilter_reads (hstr t rfl) (reads_replicate t.rows (some false))
      have hids : ∀ i, i ∈ getIds (t.rows.map (·.parentId)) mask ↔
          anyMatches ms (ownRows (some t) (some i)) = true := by
        intro i
        rw [mem_getIds hreads, anyMatches, hms, Bool.false_or, any_eq_true]
        simp only [mem_ownRows, holds_some, Bool.false_or]
        exact exists_congr fun r => by tauto
      obtain ⟨final, hfinal, hjudges, hknown⟩ :=
        buildIdFilter_judges hids (by rw [anyMatches, hms]; rfl)
      refine ⟨final, ?_, hjudges, fun hshort => hknown (hshort t rfl)⟩
      show (logAttributesFilter t ms _ >>= _) = _
      rwa [constant, hmask]

/-! ## Counting matches

A resource has all the attributes asked for if as many of its rows match, provided that no key is
asked for twice and that the resource has no key twice. -/

theorem length_le_countP_iff {rows : List AttrRow} (hkeys : (ms.map (·.key)).Nodup)
    (hrows : (rows.map (·.key)).Nodup) :
    ms.length ≤ rows.countP (fun r => ms.any (rowMatches · r)) ↔ allMatch ms rows = true := by
  set matched := rows.filter fun r => ms.any (rowMatches · r) with hmatched
  have hwanted : (ms.map fun m => some m.key).Nodup := by
    have h := hkeys.map (Option.some_injective String)
    rwa [map_map] at h
  have hfound : (matched.map (·.key)).Nodup := hrows.sublist (filter_sublist.map _)
  -- a key that is found belongs to a matcher
  have hsub : matched.map (·.key) ⊆ ms.map fun m => some m.key := by
    intro k hk
    obtain ⟨r, hr, rfl⟩ := mem_map.mp hk
    obtain ⟨m, hm, hrow⟩ := any_eq_true.mp (mem_filter.mp hr).2
    have hkey : r.key = some m.key := of_decide_eq_true (Bool.and_eq_true_iff.mp hrow).1
    exact mem_map.mpr ⟨m, hm, hkey.symm⟩
  rw [countP_eq_length_filter, ← hmatched, allMatch, all_eq_true]
  constructor
  · intro hle m hm
    have hperm : (matched.map (·.key)).Perm (ms.map fun m => some m.key) :=
      (hfound.subperm hsub).perm_of_length_le (by simpa using hle)
    have hkey : some m.key ∈ matched.map (·.key) :=
      hperm.mem_iff.mpr (mem_map.mpr ⟨m, hm, rfl⟩)
    obtain ⟨r, hr, hrkey⟩ := mem_map.mp hkey
    obtain ⟨hr, hany⟩ := mem_filter.mp hr
    obtain ⟨m', hm', hrow⟩ := any_eq_true.mp hany
    -- the matcher that the row meets has the same key, so it is the same matcher
    have hsame : m' = m := by
      refine inj_on_of_nodup_map hkeys hm' hm ?_
      have hkey' : r.key = some m'.key := of_decide_eq_true (Bool.and_eq_true_iff.mp hrow).1
      exact Option.some.inj (hkey'.symm.trans hrkey)
    exact any_eq_true.mpr ⟨r, hr, hsame ▸ hrow⟩
  · intro hall
    have hsub' : (ms.map fun m => some m.key) ⊆ matched.map (·.key) := by
      intro k hk
      obtain ⟨m, hm, rfl⟩ := mem_map.mp hk
      obtain ⟨r, hr, hrow⟩ := any_eq_true.mp (hall m hm)
      have hkey : r.key = some m.key := of_decide_eq_true (Bool.and_eq_true_iff.mp hrow).1
      exact mem_map.mpr
        ⟨r, mem_filter.mpr ⟨hr, any_eq_true.mpr ⟨m, hm, hrow⟩⟩, hkey⟩
    have hle := (hwanted.subperm hsub').length_le
    rwa [length_map, length_map] at hle

/-- The rows that are counted for a resource. -/
theorem count_selected {mask : Mask} {p : AttrRow → Bool} (h : Reads t.rows mask p) (i : Nat) :
    ((select (t.rows.map (·.parentId)) mask).filterMap id).count i =
      (ownRows (some t) (some i)).countP p := by
  rw [h.select_map, List.count, countP_filterMap, countP_map, ownRows, countP_filter, countP_filter]
  refine countP_congr fun r _ => ?_
  cases hparent : r.parentId <;> simp [hparent, and_comm]

/-- The mask of the resource attributes. -/
theorem getResourceAttrFilter_judges {table : Option AttrTable}
    (hstr : ∀ t ∈ table, Columns t.has (ms.map (·.value))) (hkeys : (ms.map (·.key)).Nodup)
    (honce : ∀ t ∈ table, ∀ i, ((ownRows (some t) (some i)).map (·.key)).Nodup) :
    ∃ mask, getResourceAttrFilter table ms = .ok mask ∧ Judges table mask (allMatch ms) ∧
      ((∀ t ∈ table, t.rows.length < idColumnLengthMinThreshold) → Known mask) := by
  cases table with
  | none =>
    refine ⟨_, rfl, judges_absent ?_, fun _ => known_constant _ _⟩
    cases ms <;> rfl
  | some t =>
    unfold getResourceAttrFilter
    cases ms with
    | nil =>
      refine ⟨_, rfl, ?_, fun _ => known_constant _ _⟩
      exact judges_rows fun _ => rfl
    | cons m ms =>
      obtain ⟨o, ho, hnone, hsome⟩ :=
        resourceAttributesFilter_reads (hstr t rfl) (reads_replicate t.rows none)
      dsimp only [isEmpty_cons]
      rw [if_neg Bool.false_ne_true, constant, ho]
      cases o with
      | none =>
        obtain ⟨m', hm', hnever⟩ := hnone rfl
        refine ⟨_, rfl, ?_, fun _ => known_constant _ _⟩
        -- no row meets this matcher, so no resource has all
        refine judges_rows fun o => all_eq_false.mpr ⟨m', hm', ?_⟩
        rw [Bool.not_eq_true, any_eq_false]
        exact fun r hr => Bool.not_eq_true _ ▸ hnever r (mem_of_mem_ownRows hr)
      | some mask =>
        have hreads := hsome mask rfl
        refine Exists.imp (fun _ h => ⟨h.1, h.2.1, fun hshort => h.2.2 (hshort t rfl)⟩)
          (buildIdFilter_judges (fun i => ?_) (by rfl))
        rw [mem_filter, mem_dedup, decide_eq_true_iff, count_selected hreads]
        simp only [holds_none, Bool.false_or]
        rw [length_le_countP_iff hkeys (honce t rfl i)]
        refine and_iff_right_of_imp fun hall => ?_
        -- the first matcher is met by one of the rows that are counted
        obtain ⟨r, hr, hrow⟩ := any_eq_true.mp (all_eq_true.mp hall m mem_cons_self)
        obtain ⟨hr, hparent⟩ := mem_ownRows.mp hr
        rw [← mem_dedup]
        refine (mem_getIds hreads).mpr ⟨r, hr, ?_, hparent⟩
        rw [holds_none, Bool.false_or, any_cons, hrow, Bool.true_or]

end

/-! ## Masks of records -/

/-- The criteria can be evaluated on the batch: the columns that matchers of strings and of bodies
need are there, no resource attribute is asked for twice, and a record whose severity is not set
does not have to match an undefined severity. -/
structure LogMatchProperties.Evaluable (p : LogMatchProperties) (b : OtapArrowRecords) : Prop where
  resource : ∀ t ∈ b.resourceAttrs, Columns t.has (p.resourceAttributes.map (·.value))
  keys : (p.resourceAttributes.map (·.key)).Nodup
  record : ∀ t ∈ b.logAttrs, Columns t.has (p.recordAttributes.map (·.value))
  bodies : p.bodies ≠ [] → ∃ has, b.logs.body = some has ∧ Columns has p.bodies
  severity : ∀ s ∈ p.severityNumber, severityMatches s none = true →
    ∀ r ∈ b.logs.rows, r.severityNumber ≠ none

section

variable {logs : LogsTable} {p : LogMatchProperties} {b : OtapArrowRecords} {mask : Mask}

theorem severityTextsFilter_reads (logs : LogsTable) (texts : List Pattern) :
    Computes logs.rows (severityTextsFilter logs texts)
      fun r => texts.any fun t => r.severityText.any t.isMatch := by
  have htext : ∀ t : Pattern, Reads logs.rows (logs.rows.map fun r => r.severityText.map t.isMatch)
      fun r => r.severityText.any t.isMatch := fun t =>
    (reads_map logs.rows _).congr fun r _ => by
      show holds (r.severityText.map _) = _
      cases r.severityText <;> simp
  refine (foldlM_orKleene_reads htext (reads_replicate logs.rows none)).congr fun r _ => ?_
  rw [holds_none, Bool.false_or]

theorem bodiesFilter_reads {rows : List α} {has : ValueColumns} {f : α → Values}
    (hwithin : ∀ r ∈ rows, (f r).Within has) {ms : List ValueMatcher} (hstr : Columns has ms)
    {q : α → Bool} (hcombined : Reads rows combined q) :
    Computes rows (bodiesFilter has (rows.map f) ms combined)
      fun r => q r || ms.any (valueMatches · (f r)) := by
  induction ms generalizing combined q with
  | nil => exact ⟨combined, rfl, hcombined.congr fun r _ => (Bool.or_false _).symm⟩
  | cons m ms ih =>
    obtain ⟨hm, hstr⟩ := forall_mem_cons.mp hstr
    obtain ⟨o, ho, hreads⟩ := valueMatcherFilter_reads hwithin hm
    unfold bodiesFilter
    rw [ho]
    cases o with
    | none =>
      refine (ih hstr hcombined).congr fun r hr => ?_
      have hvalue : valueMatches m (f r) = false := hreads r hr
      rw [any_cons, hvalue, Bool.false_or]
    | some column =>
      refine (orKleene_reads hreads hcombined).bind fun both hboth =>
        (ih hstr hboth).congr fun r _ => ?_
      rw [any_cons, Bool.or_assoc, Bool.or_left_comm]

/-- An unset severity matches nothing. -/
theorem severityNumberFilter_reads {s : LogSeverityNumberMatchProperties}
    (hset : severityMatches s none = true → ∀ r ∈ logs.rows, r.severityNumber ≠ none) :
    Computes logs.rows (severityNumberFilter logs s)
      fun r => severityMatches s r.severityNumber := by
  have hatLeast := reads_map logs.rows fun r => r.severityNumber.map fun n => decide (s.min ≤ n)
  have hcomputes : Computes logs.rows (severityNumberFilter logs s) fun r =>
      r.severityNumber.any fun n => decide (s.min ≤ n) || (s.matchUndefined && decide (n = 0)) := by
    unfold severityNumberFilter
    cases s.matchUndefined with
    | true =>
      refine (orKleene_reads hatLeast (eqScalar_reads logs.rows (·.severityNumber) 0)).congr
        fun r _ => ?_
      cases hnumber : r.severityNumber <;> simp [hnumber]
    | false =>
      refine ⟨_, rfl, hatLeast.congr fun r _ => ?_⟩
      cases hnumber : r.severityNumber <;> simp [hnumber]
  refine hcomputes.congr fun r hr => ?_
  cases hnumber : r.severityNumber with
  | none =>
    cases hmatches : severityMatches s none with
    | true => exact absurd hnumber (hset hmatches r hr)
    | false => rfl
  | some n => rfl

theorem known_nullsToFalse (mask : Mask) : Known (nullsToFalse mask) := by
  simp [Known, nullsToFalse]

variable {q : LogRow → Bool}

theorem nullsToFalse_reads (h : Reads logs.rows mask q) :
    Reads logs.rows (nullsToFalse mask) q := by
  rw [Reads, nullsToFalse, map_map]
  refine Eq.trans (map_congr_left fun a _ => ?_) h
  exact holds_some _

theorem matchSeverityTexts_reads (hmask : Reads logs.rows mask q) :
    Computes logs.rows (matchSeverityTexts p logs mask) fun r => q r &&
      (p.severityTexts.isEmpty || p.severityTexts.any fun t => r.severityText.any t.isMatch) := by
  unfold matchSeverityTexts
  cases hempty : p.severityTexts.isEmpty with
  | true => exact ⟨mask, rfl, hmask.congr fun r _ => (Bool.and_true _).symm⟩
  | false =>
    exact (severityTextsFilter_reads logs p.severityTexts).bind fun texts htexts =>
      andKleene_reads hmask htexts

theorem matchBodies_reads (h : p.Evaluable b) (hmask : Reads b.logs.rows mask q) :
    Computes b.logs.rows (matchBodies p b.logs mask) fun r => q r &&
      (p.bodies.isEmpty || p.bodies.any (valueMatches · r.body)) := by
  unfold matchBodies
  cases hempty : p.bodies.isEmpty with
  | true => exact ⟨mask, rfl, hmask.congr fun r _ => (Bool.and_true _).symm⟩
  | false =>
    obtain ⟨has, hbody, hstr⟩ := h.bodies (isEmpty_eq_false_iff.mp hempty)
    have hwithin : ∀ r ∈ b.logs.rows, r.body.Within has := by
      intro r hr
      have hcolumns := (b.logs.within r hr).2.2.2.2.2
      rwa [hbody] at hcolumns
    rw [hbody]
    refine (bodiesFilter_reads hwithin hstr (reads_replicate b.logs.rows none)).bind
      fun bodies hbodies => (andKleene_reads hmask hbodies).congr fun r _ => ?_
    rw [holds_none, Bool.false_or]

theorem matchSeverityNumber_reads (h : p.Evaluable b) (hmask : Reads b.logs.rows mask q) :
    ∃ filter, matchSeverityNumber p b.logs mask = .ok filter ∧ Known filter ∧
      Reads b.logs.rows filter fun r =>
        q r && p.severityNumber.all (severityMatches · r.severityNumber) := by
  unfold matchSeverityNumber
  cases hnumber : p.severityNumber with
  | none =>
    exact ⟨_, rfl, known_nullsToFalse mask,
      (nullsToFalse_reads hmask).congr fun r _ => (Bool.and_true _).symm⟩
  | some s =>
    have hset := h.severity s hnumber
    cases hcolumn : b.logs.hasSeverityNumber with
    | true =>
      obtain ⟨numbers, hnumbers, hreads⟩ := severityNumberFilter_reads hset
      obtain ⟨filter, hfilter, hreads⟩ := andKleene_reads hmask hreads
      refine ⟨nullsToFalse filter, ?_, known_nullsToFalse filter, nullsToFalse_reads hreads⟩
      show (severityNumberFilter b.logs s >>= fun numbers => andKleene mask numbers >>= _) = _
      rw [hnumbers]
      show (andKleene mask numbers >>= _) = _
      rw [hfilter]
      rfl
    | false =>
      refine ⟨_, rfl, known_constant _ _, (reads_replicate _ (some false)).congr fun r hr => ?_⟩
      -- no severity is set, so an undefined one must not match
      have hnone := (b.logs.within r hr).2.2.2.2.1 hcolumn
      have hmatches : severityMatches s none = false := by
        cases hmatches : severityMatches s none with
        | true => exact absurd hnone (hset hmatches r hr)
        | false => rfl
      simp [hnone, hmatches]

/-- The mask of the record fields. -/
theorem getLogRecordFilter_reads (h : p.Evaluable b) :
    ∃ mask, getLogRecordFilter p b.logs = .ok mask ∧ Reads b.logs.rows mask (fieldsMatch p) ∧
      Known mask := by
  unfold getLogRecordFilter
  split
  · obtain ⟨texts, htexts, hreads⟩ :=
      matchSeverityTexts_reads (p := p) (reads_replicate b.logs.rows (some true))
    obtain ⟨bodies, hbodies, hreads⟩ := matchBodies_reads h hreads
    obtain ⟨filter, hfilter, hknown, hreads⟩ := matchSeverityNumber_reads h hreads
    refine ⟨filter, ?_, hreads, hknown⟩
    rw [constant, htexts]
    show (matchBodies p b.logs texts >>= matchSeverityNumber p b.logs) = _
    rwa [hbodies]
  · rename_i hcolumn
    rw [Bool.or_eq_true, not_or, Bool.not_eq_true, Bool.not_eq_true] at hcolumn
    refine ⟨_, rfl, (reads_replicate _ (some false)).congr fun r hr => ?_, known_constant _ _⟩
    have hnone := (b.logs.within r hr).2.2.2.1 hcolumn.2
    simp [fieldsMatch, hcolumn.1, hnone]

end

end OtapDataflow.OtapFilter
