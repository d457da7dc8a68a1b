import OtapDataflow.OtapFilter.Masks

/-! # Filtering record by record

What a filter means for one record depends on the record's fields, on its own attributes and on
those of its resource (`LogFilter.keeps`).  The masks say the same if every record owns a row of
each attribute table that is there, or the inclusion asks for attributes of this kind, together with
some conditions on the columns and on the exclusion (`LogFilter.RecordWise`).  Otherwise a record
without attributes is lost as soon as another record of the batch has one (`plain_record_lost`). -/

namespace OtapDataflow.OtapFilter

open Kleene List

/-! ## The meaning for one record -/

/-- A record with the attributes that are its own. -/
structure Resolved where
  record : LogRow
  attributes : List AttrRow
  resourceAttributes : List AttrRow

def resolve (b : OtapArrowRecords) (r : LogRow) : Resolved where
  record := r
  attributes := ownRows b.logAttrs r.id
  resourceAttributes := ownRows b.resourceAttrs r.resourceId

/-- The record meets all the criteria. -/
def satisfies (p : LogMatchProperties) (x : Resolved) : Bool :=
  allMatch p.resourceAttributes x.resourceAttributes && fieldsMatch p x.record &&
    anyMatches p.recordAttributes x.attributes

/-- Whether there are criteria for fields of the record. -/
def LogMatchProperties.hasFields (p : LogMatchProperties) : Bool :=
  !p.bodies.isEmpty || !p.severityTexts.isEmpty || p.severityNumber.isSome

/-- The kinds of criteria that are given. -/
def LogMatchProperties.kinds (p : LogMatchProperties) : List Bool :=
  [!p.resourceAttributes.isEmpty, p.hasFields, !p.recordAttributes.isEmpty].filter id

/-- Included, and not excluded; an exclusion without criteria excludes nothing. -/
def LogFilter.keeps (f : LogFilter) (x : Resolved) : Bool :=
  f.include_.all (satisfies · x) && !f.exclude.any fun p => !p.kinds.isEmpty && satisfies p x

/-! ## The condition -/

/-- The batch has the columns by which its tables are joined, and no resource has a key twice. -/
structure OtapArrowRecords.Joined (b : OtapArrowRecords) : Prop where
  resource : b.logs.resource ≠ none
  id : b.logAttrs ≠ none → b.logs.hasId = true
  resourceId : b.resourceAttrs ≠ none → b.logs.resource = some true
  scopeId : b.scopeAttrs ≠ none → b.logs.scope = some true
  once : ∀ t ∈ b.resourceAttrs, ∀ i, ((ownRows (some t) (some i)).map (·.key)).Nodup

/-- Every record owns a row of the table, if it is there. -/
def Owned (table : Option AttrTable) (owners : List (Option Nat)) : Prop :=
  ∀ o ∈ owners, table ≠ none → ownRows table o ≠ []

/-- Fewer rows than those for which ids are compared one after the other. -/
def Short (table : Option AttrTable) : Prop :=
  ∀ t ∈ table, t.rows.length < idColumnLengthMinThreshold

/-- An exclusion has criteria of one kind, and attributes are looked up in a short table. -/
structure LogMatchProperties.Excludable (p : LogMatchProperties) (b : OtapArrowRecords) : Prop where
  kinds : p.kinds.length ≤ 1
  resource : p.resourceAttributes ≠ [] → Short b.resourceAttrs
  record : p.recordAttributes ≠ [] → Short b.logAttrs

/-- Whether the inclusion asks for resource attributes. -/
def LogFilter.asksResource (f : LogFilter) : Bool := f.include_.any (!·.resourceAttributes.isEmpty)

def LogFilter.asksRecord (f : LogFilter) : Bool := f.include_.any (!·.recordAttributes.isEmpty)

structure LogFilter.RecordWise (f : LogFilter) (b : OtapArrowRecords) : Prop where
  joined : b.Joined
  resource : f.asksResource = false → Owned b.resourceAttrs (b.logs.rows.map (·.resourceId))
  record : f.asksRecord = false → Owned b.logAttrs (b.logs.rows.map (·.id))
  includes : ∀ p ∈ f.include_, p.Evaluable b
  excludes : ∀ p ∈ f.exclude, p.Evaluable b ∧ p.Excludable b

/-! ## The three masks together -/

/-- The masks select the records with `c`.  Those of a kind that is asked for do not select an owner
without rows. -/
structure Selects (b : OtapArrowRecords) (f : Filters) (asksResource asksRecord : Bool)
    (c : Resolved → Bool) : Prop where
  split : ∃ cr cf ca, Judges b.resourceAttrs f.resourceAttr cr ∧
    Reads b.logs.rows f.logRecord cf ∧ Judges b.logAttrs f.logAttr ca ∧
    (∀ x, c x = (cr x.resourceAttributes && cf x.record && ca x.attributes)) ∧
    (asksResource = true → cr [] = false) ∧ (asksRecord = true → ca [] = false)

variable {table : Option AttrTable} {ms : List AttrMatcher} {ids : Except Error (List (Option Nat))}
  {idOf : LogRow → Option Nat} {q : LogRow → Bool} {judge : List AttrRow → Bool}
  {rows : List LogRow}

section

variable {b : OtapArrowRecords} {f g : Filters} {asksResource asksRecord asksResource' asksRecord' :
  Bool} {c d : Resolved → Bool} {p : LogMatchProperties}

variable {mask : Mask}

/-- A mask that is inverted unless it has no criteria. -/
theorem reads_invert {α : Type} {rows : List α} {q : α → Bool} {given : Bool}
    (h : Reads rows mask q) (hknown : given = true → Known mask)
    (hempty : given = false → ∀ r, q r = true) :
    Reads rows (if given then negate mask else mask) fun r => !(given && q r) := by
  cases given with
  | true => exact h.negate (hknown rfl)
  | false => exact h.congr fun r _ => hempty rfl r

theorem judges_invert {given : Bool}
    (h : Judges table mask judge) (hknown : given = true → Known mask)
    (hempty : given = false → ∀ rows, judge rows = true) :
    Judges table (if given then negate mask else mask) fun rows => !(given && judge rows) :=
  reads_invert h hknown fun hgiven _ => hempty hgiven _

theorem allMatch_of_isEmpty (h : (!ms.isEmpty) = false)
    (rows : List AttrRow) : allMatch ms rows = true := by
  cases ms with
  | nil => rfl
  | cons m ms => cases h

theorem anyMatches_of_isEmpty (h : (!ms.isEmpty) = false)
    (rows : List AttrRow) : anyMatches ms rows = true := by
  cases ms with
  | nil => rfl
  | cons m ms => cases h

theorem fieldsMatch_of_hasFields (h : p.hasFields = false) (r : LogRow) :
    fieldsMatch p r = true := by
  obtain ⟨⟨hbodies, htexts⟩, hnumber⟩ : (p.bodies = [] ∧ p.severityTexts = []) ∧
      p.severityNumber = none := by
    simpa [LogMatchProperties.hasFields] using h
  rw [fieldsMatch, hbodies, htexts, hnumber]
  rfl

theorem allMatch_nil (h : (!ms.isEmpty) = true) : allMatch ms [] = false := by
  cases ms with
  | nil => cases h
  | cons m ms => rfl

theorem anyMatches_nil (h : (!ms.isEmpty) = true) : anyMatches ms [] = false := by
  cases ms with
  | nil => cases h
  | cons m ms => rfl

theorem createFilters_includes (hb : b.Joined) (hp : p.Evaluable b) :
    ∃ f, createFilters p b false = .ok f ∧ Selects b f (!p.resourceAttributes.isEmpty)
      (!p.recordAttributes.isEmpty) (satisfies p) := by
  obtain ⟨resource, hresource, hjudges, -⟩ :=
    getResourceAttrFilter_judges hp.resource hp.keys hb.once
  obtain ⟨fields, hfields, hreads, -⟩ := getLogRecordFilter_reads hp
  obtain ⟨record, hrecord, hjudges', -⟩ := getAttrFilter_judges hp.record
  refine ⟨⟨resource, fields, record⟩, ?_,
    ⟨_, _, _, hjudges, hreads, hjudges', fun _ => rfl, allMatch_nil, anyMatches_nil⟩⟩
  unfold createFilters
  rw [hresource, hfields, hrecord]
  rfl

/-- With criteria of one kind it does not matter whether the conjunction or its parts are
inverted. -/
theorem inverted_parts (hkinds : p.kinds.length ≤ 1) (x : Resolved) :
    (!(!p.kinds.isEmpty && satisfies p x)) =
      (!(!p.resourceAttributes.isEmpty && allMatch p.resourceAttributes x.resourceAttributes) &&
        !(p.hasFields && fieldsMatch p x.record) &&
        !(!p.recordAttributes.isEmpty && anyMatches p.recordAttributes x.attributes)) := by
  have hresource := fun h => @allMatch_of_isEmpty p.resourceAttributes h x.resourceAttributes
  have hfields := fun h => @fieldsMatch_of_hasFields p h x.record
  have hrecord := fun h => @anyMatches_of_isEmpty p.recordAttributes h x.attributes
  unfold LogMatchProperties.kinds satisfies at *
  generalize (!p.resourceAttributes.isEmpty) = r at *
  generalize p.hasFields = g at *
  generalize (!p.recordAttributes.isEmpty) = a at *
  cases r <;> cases g <;> cases a <;> simp_all

/-- An exclusion inverts the masks one by one. -/
theorem createFilters_excludes (hb : b.Joined) (hp : p.Evaluable b) (he : p.Excludable b) :
    ∃ f, createFilters p b true = .ok f ∧
      Selects b f false false fun x => !(!p.kinds.isEmpty && satisfies p x) := by
  obtain ⟨resource, hresource, hjudges, hknown⟩ :=
    getResourceAttrFilter_judges hp.resource hp.keys hb.once
  obtain ⟨fields, hfields, hreads, hknown'⟩ := getLogRecordFilter_reads hp
  obtain ⟨record, hrecord, hjudges', hknown''⟩ := getAttrFilter_judges hp.record
  have hresources := judges_invert hjudges (fun h => hknown (he.resource (by simpa using h)))
    allMatch_of_isEmpty
  have hrecords := judges_invert hjudges' (fun h => hknown'' (he.record (by simpa using h)))
    anyMatches_of_isEmpty
  have hreads := reads_invert hreads (fun _ => hknown') fieldsMatch_of_hasFields
  refine ⟨⟨_, _, _⟩, ?_,
    ⟨_, _, _, hresources, hreads, hrecords, inverted_parts he.kinds, nofun, nofun⟩⟩
  unfold createFilters
  rw [hresource, hfields, hrecord]
  rfl

theorem judges_and {m m' : Mask} {j j' : List AttrRow → Bool}
    (h : Judges table m j) (h' : Judges table m' j') :
    ∃ a, andKleene m m' = .ok a ∧ Judges table a fun rows => j rows && j' rows :=
  andKleene_reads h h'

theorem Selects.and (hf : Selects b f asksResource asksRecord c)
    (hg : Selects b g asksResource' asksRecord' d) :
    ∃ r m a, andKleene f.resourceAttr g.resourceAttr = .ok r ∧
      andKleene f.logRecord g.logRecord = .ok m ∧ andKleene f.logAttr g.logAttr = .ok a ∧
      Selects b ⟨r, m, a⟩ asksResource asksRecord fun x => c x && d x := by
  obtain ⟨cr, cf, ca, hcr, hcf, hca, hc, hnoResource, hnoRecord⟩ := hf.split
  obtain ⟨dr, df, da, hdr, hdf, hda, hd, -, -⟩ := hg.split
  obtain ⟨r, hr, hresource⟩ := judges_and hcr hdr
  obtain ⟨m, hm, hfields⟩ := andKleene_reads hcf hdf
  obtain ⟨a, ha, hrecord⟩ := judges_and hca hda
  refine ⟨r, m, a, hr, hm, ha, ⟨_, _, _, hresource, hfields, hrecord, fun x => ?_,
    fun h => by rw [hnoResource h, Bool.false_and], fun h => by rw [hnoRecord h, Bool.false_and]⟩⟩
  rw [hc, hd]
  ac_rfl

/-- The masks of the whole filter. -/
theorem masks_select {f : LogFilter} (h : f.RecordWise b) :
    ∃ o, f.masks b = .ok o ∧ (o = none → ∀ x, f.keeps x = true) ∧
      ∀ filters, o = some filters → Selects b filters f.asksResource f.asksRecord f.keeps := by
  obtain ⟨include_, exclude⟩ := f
  cases include_ with
  | none =>
    cases exclude with
    | none => exact ⟨none, rfl, fun _ _ => rfl, nofun⟩
    | some exc =>
      obtain ⟨hexc, hinvert⟩ := h.excludes exc rfl
      obtain ⟨e, he, hselects⟩ := createFilters_excludes h.joined hexc hinvert
      refine ⟨some e, ?_, nofun, ?_⟩
      · show some <$> createFilters exc b true = _
        rw [he]
        rfl
      · rintro filters ⟨⟩
        exact hselects
  | some inc =>
    obtain ⟨i, hi, hselects⟩ := createFilters_includes h.joined (h.includes inc rfl)
    cases exclude with
    | none =>
      refine ⟨some i, ?_, nofun, ?_⟩
      · show some <$> createFilters inc b false = _
        rw [hi]
        rfl
      · rintro filters ⟨⟩
        have hkeeps : LogFilter.keeps ⟨some inc, none⟩ = satisfies inc :=
          funext fun x => Bool.and_true _
        rwa [hkeeps]
    | some exc =>
      obtain ⟨hexc, hinvert⟩ := h.excludes exc rfl
      obtain ⟨e, he, hselects'⟩ := createFilters_excludes h.joined hexc hinvert
      obtain ⟨r, m, a, hr, hm, ha, hboth⟩ := hselects.and hselects'
      refine ⟨some ⟨r, m, a⟩, ?_, nofun, ?_⟩
      · unfold LogFilter.masks
        dsimp only
        rw [hi, he]
        show (andKleene i.resourceAttr e.resourceAttr >>= _) = _
        rw [hr, hm, ha]
        rfl
      · rintro filters ⟨⟩
        exact hboth

/-! ## Reconciling the masks -/

section

variable {child parent : Mask}

variable {t : AttrTable}

theorem mem_getIds_judges {i : Nat} (h : Judges (some t) child judge)
    (hown : ownRows (some t) (some i) = [] → judge [] = false) :
    i ∈ getIds (t.rows.map (·.parentId)) child ↔ judge (ownRows (some t) (some i)) = true := by
  have hmem := mem_getIds (f := id) (i := i) h
  rw [map_id] at hmem
  rw [← owners, hmem]
  constructor
  · rintro ⟨o, -, hjudge, rfl⟩
    exact hjudge
  · intro hjudge
    have hrows : ownRows (some t) (some i) ≠ [] := fun hnil => by
      rw [hnil, hown hnil] at hjudge
      cases hjudge
    obtain ⟨r, hr⟩ := exists_mem_of_ne_nil _ hrows
    obtain ⟨hr, hparent⟩ := mem_ownRows.mp hr
    exact ⟨some i, mem_map.mpr ⟨r, hr, hparent⟩, hjudge, rfl⟩

/-- A record is kept if its own rows are.  One without rows is not. -/
theorem syncParent_reads {asks : Bool}
    (hids : table ≠ none → ids = .ok (rows.map idOf)) (hasks : asks = true → judge [] = false)
    (hown : asks = false → Owned table (rows.map idOf))
    (hchild : Judges table child judge) (hparent : Reads rows parent q) :
    ∃ o, syncParent table ids child parent = .ok o ∧
      ReadsOr rows o fun r => q r && judge (ownRows table (idOf r)) := by
  cases table with
  | none =>
    -- the mask of the absent table has one entry, the answer for no rows
    have hany : child.any holds = judge [] := by
      have h : child.map holds = [judge []] := hchild
      have hmap : child.any holds = (child.map holds).any id := by simp
      rw [hmap, h]
      simp
    refine ⟨_, rfl, ?_⟩
    rw [hany]
    cases hjudge : judge [] with
    | true => exact hparent.congr fun r _ => by simp [ownRows, hjudge]
    | false => exact fun r _ => by simp [ownRows, hjudge]
  | some t =>
    rw [hids (Option.some_ne_none t)]
    obtain ⟨mask, hmask, hreads, -⟩ :=
      @buildIdFilter_reads _ rows idOf (getIds (t.rows.map (·.parentId)) child)
    obtain ⟨both, hboth, hreads⟩ := andKleene_reads hparent hreads
    refine ⟨some both, ?_, hreads.congr fun r hr => ?_⟩
    · show some <$> updateParentRecordBatchFilter t (rows.map idOf) child parent = _
      rw [updateParentRecordBatchFilter, hmask]
      show some <$> andKleene parent mask = _
      rw [hboth]
      rfl
    · have hrows : ownRows (some t) (idOf r) = [] → judge [] = false := by
        intro hnil
        cases asks with
        | true => exact hasks rfl
        | false => exact absurd hnil (hown rfl _ (mem_map_of_mem hr) (Option.some_ne_none t))
      cases hid : idOf r with
      | none =>
        rw [hid] at hrows
        have hnone : judge (ownRows (some t) none) = false := hrows rfl
        rw [Option.any_none, hnone]
      | some i =>
        rw [hid] at hrows
        rw [Option.any_some, Bool.eq_iff_iff.mpr
          (decide_eq_true_iff.trans (mem_getIds_judges hchild hrows))]

/-- A child row stays if the owner's rows are judged well and the owner is kept. -/
theorem updateChildRecordBatchFilter_reads (h : Judges (some t) child judge)
    (ids : List (Option Nat)) (mask : Mask) :
    ∃ m, updateChildRecordBatchFilter t ids child mask = .ok m ∧ Reads t.rows m fun row =>
      judge (ownRows (some t) row.parentId) && row.parentId.any (· ∈ getIds ids mask) := by
  have hchild : Reads t.rows child fun row => judge (ownRows (some t) row.parentId) :=
    h.trans map_map
  obtain ⟨kept, hkept, hreads, -⟩ :=
    @buildIdFilter_reads _ t.rows (·.parentId) (getIds ids mask)
  obtain ⟨m, hm, hreads⟩ := andKleene_reads hchild hreads
  refine ⟨m, ?_, hreads⟩
  rwa [updateChildRecordBatchFilter, newChildRecordBatchFilter, hkept]

/-- The rows of one owner are not filtered if none of them is. -/
theorem ownRows_select {q : AttrRow → Bool} (h : Reads t.rows mask q) {o : Option Nat}
    (hq : ∀ row ∈ t.rows, row.parentId = o → q row = true) :
    ownRows (some (t.select mask)) o = ownRows (some t) o := by
  cases o with
  | none => rfl
  | some i =>
    show (Kleene.select t.rows mask).filter _ = t.rows.filter _
    rw [h.select, filter_filter]
    refine filter_congr fun row hrow => ?_
    by_cases hparent : row.parentId = some i
    · rw [hq row hrow hparent, Bool.and_true]
    · rw [decide_eq_false hparent, Bool.false_and]

/-- The records that are kept keep their rows. -/
theorem child_mask_covers
    (hids : ids = .ok (rows.map idOf)) (h : Judges (some t) child judge)
    (hmask : Reads rows mask q) :
    ∃ m, (ids >>= fun ids => updateChildRecordBatchFilter t ids child mask) = .ok m ∧
      ∀ r ∈ rows, q r = true → judge (ownRows (some t) (idOf r)) = true →
        ownRows (some (t.select m)) (idOf r) = ownRows (some t) (idOf r) := by
  obtain ⟨m, hm, hreads⟩ := updateChildRecordBatchFilter_reads h (rows.map idOf) mask
  refine ⟨m, by rw [hids]; exact hm, fun r hr hq hjudge => ?_⟩
  cases hid : idOf r with
  | none => rfl
  | some i =>
    refine ownRows_select hreads fun row hrow hparent => ?_
    rw [hid] at hjudge
    rw [hparent, hjudge, Bool.true_and]
    exact decide_eq_true ((mem_getIds hmask).mpr ⟨r, hr, hq, hid⟩)

end

theorem scope_mask_ok {logs : LogsTable} (h : logs.scope = some true) (t : AttrTable)
    (mask : Mask) :
    ∃ m, (logs.scope.elim (.error (.columnNotFound "scope")) .ok >>= fun hasScopeId =>
      requireColumn hasScopeId "id" (logs.rows.map (·.scopeId)) >>= fun ids =>
        newChildRecordBatchFilter t ids mask) = .ok m := by
  rw [h]
  obtain ⟨m, hm, -⟩ := @buildIdFilter_reads _ t.rows (·.parentId)
    (getIds (logs.rows.map (·.scopeId)) mask)
  exact ⟨m, hm⟩

theorem option_mapM_ok {α β : Type} {o : Option α} {g : α → Except Error β} {P : α → β → Prop}
    (h : ∀ a ∈ o, ∃ m, g a = .ok m ∧ P a m) :
    ∃ p, o.mapM g = .ok p ∧ ∀ a ∈ o, ∃ m, p = some m ∧ P a m := by
  cases o with
  | none => exact ⟨none, rfl, fun a ha => by cases ha⟩
  | some a =>
    obtain ⟨m, hm, hP⟩ := h a rfl
    refine ⟨some m, by rw [Option.mapM_some, hm]; rfl, fun a' ha => ?_⟩
    cases ha
    exact ⟨m, rfl, hP⟩

/-- The rows of the owners stay in the filtered table. -/
def Covers (table : Option AttrTable) (mask : Option Mask) (owners : List (Option Nat)) : Prop :=
  ∀ o ∈ owners, ownRows (applyFilter table mask) o = ownRows table o

theorem covers_of_mask {keeps : LogRow → Bool} {mask : Option Mask}
    (h : ∀ t ∈ table, ∃ m, mask = some m ∧ ∀ r ∈ rows, keeps r = true →
      ownRows (some (t.select m)) (idOf r) = ownRows (some t) (idOf r)) :
    Covers table mask ((rows.filter keeps).map idOf) := by
  intro o ho
  obtain ⟨r, hr, rfl⟩ := mem_map.mp ho
  obtain ⟨hr, hkeeps⟩ := mem_filter.mp hr
  cases table with
  | none => cases mask <;> rfl
  | some t =>
    obtain ⟨m, rfl, hm⟩ := h t rfl
    exact hm r hr hkeeps

/-- Nothing is kept. -/
theorem reads_nothing (h : mask.length = b.logs.rows.length) (hq : ∀ r ∈ b.logs.rows, q r = false) :
    Reads b.logs.rows (constant mask.length (some false)) q := by
  rw [constant, h]
  exact (reads_replicate b.logs.rows (some false)).congr fun r hr => (hq r hr).symm

/-- What the reconciled masks keep. -/
theorem syncUpFilters_reads (hb : b.Joined)
    (hresources : asksResource = false → Owned b.resourceAttrs (b.logs.rows.map (·.resourceId)))
    (hrecords : asksRecord = false → Owned b.logAttrs (b.logs.rows.map (·.id)))
    (h : Selects b f asksResource asksRecord c) :
    ∃ s, syncUpFilters b f = .ok s ∧ (Reads b.logs.rows s.logRecord fun r => c (resolve b r)) ∧
      Covers b.logAttrs s.logAttrs
        ((b.logs.rows.filter fun r => c (resolve b r)).map (·.id)) ∧
      Covers b.resourceAttrs s.resourceAttrs
        ((b.logs.rows.filter fun r => c (resolve b r)).map (·.resourceId)) := by
  obtain ⟨cr, cf, ca, hresource, hfields, hrecord, hc, hnoResource, hnoRecord⟩ := h.split
  have hc : ∀ r, c (resolve b r) = (cf r && cr (ownRows b.resourceAttrs r.resourceId) &&
      ca (ownRows b.logAttrs r.id)) := fun r => by
    rw [hc, Bool.and_comm (cr _)]
    rfl
  obtain ⟨hasResourceId, hstruct⟩ := Option.ne_none_iff_exists'.mp hb.resource
  have hids : b.logAttrs ≠ none →
      requireColumn b.logs.hasId "id" (b.logs.rows.map (·.id)) = .ok (b.logs.rows.map (·.id)) :=
    fun htable => if_pos (hb.id htable)
  have hresourceIds : b.resourceAttrs ≠ none → requireColumn hasResourceId "resource.id"
      (b.logs.rows.map (·.resourceId)) = .ok (b.logs.rows.map (·.resourceId)) := fun htable => by
    have htrue := hb.resourceId htable
    rw [hstruct] at htrue
    exact if_pos (Option.some.inj htrue)
  obtain ⟨o, ho, hreads⟩ :=
    syncParent_reads hresourceIds hnoResource hresources hresource hfields
  unfold syncUpFilters
  rw [hstruct]
  show ∃ s, (syncParent b.resourceAttrs _ f.resourceAttr f.logRecord >>= _) = _ ∧ _
  rw [ho]
  cases o with
  | none =>
    refine ⟨_, rfl, reads_nothing hfields.length fun r hr => ?_, fun _ _ => rfl, fun _ _ => rfl⟩
    have hnever : (cf r && cr (ownRows b.resourceAttrs r.resourceId)) = false := hreads r hr
    rw [hc, hnever, Bool.false_and]
  | some mask =>
    obtain ⟨o, ho, hreads⟩ := syncParent_reads hids hnoRecord hrecords hrecord hreads
    show ∃ s, (syncParent b.logAttrs _ f.logAttr mask >>= _) = _ ∧ _
    rw [ho]
    cases o with
    | none =>
      refine ⟨_, rfl, reads_nothing hfields.length fun r hr => ?_, fun _ _ => rfl, fun _ _ => rfl⟩
      exact (hc r).trans (hreads r hr)
    | some mask =>
      have hreads : Reads b.logs.rows mask fun r => c (resolve b r) :=
        hreads.congr fun r _ => (hc r).symm
      have hkept : ∀ r, c (resolve b r) = true → cr (ownRows b.resourceAttrs r.resourceId) = true ∧
          ca (ownRows b.logAttrs r.id) = true := fun r hr => by
        rw [hc, Bool.and_eq_true, Bool.and_eq_true] at hr
        exact ⟨hr.1.2, hr.2⟩
      obtain ⟨attrs, hattrs, hcovers⟩ := option_mapM_ok fun t (ht : t ∈ b.logAttrs) =>
        child_mask_covers (hids (Option.ne_none_iff_exists'.mpr ⟨t, ht⟩)) (ht ▸ hrecord) hreads
      obtain ⟨resources, hresourceMask, hcovers'⟩ := option_mapM_ok fun t
          (ht : t ∈ b.resourceAttrs) =>
        child_mask_covers (hresourceIds (Option.ne_none_iff_exists'.mpr ⟨t, ht⟩)) (ht ▸ hresource)
          hreads
      obtain ⟨scopes, hscopes, -⟩ := option_mapM_ok (P := fun _ _ => True)
        fun t (ht : t ∈ b.scopeAttrs) => by
          obtain ⟨m, hm⟩ :=
            scope_mask_ok (hb.scopeId (Option.ne_none_iff_exists'.mpr ⟨t, ht⟩)) t mask
          exact ⟨m, hm, trivial⟩
      refine ⟨⟨mask, attrs, resources, scopes⟩, ?_, hreads, covers_of_mask fun t ht => ?_,
        covers_of_mask fun t ht => ?_⟩
      · show (Option.mapM (m := Except Error) _ b.logAttrs >>= _) = _
        rw [hattrs]
        rw [hresourceMask]
        rw [hscopes]
        rfl
      · obtain ⟨m, rfl, hm⟩ := hcovers t ht
        exact ⟨m, rfl, fun r hr hkeeps => hm r hr hkeeps (ht ▸ (hkept r hkeeps).2)⟩
      · obtain ⟨m, rfl, hm⟩ := hcovers' t ht
        exact ⟨m, rfl, fun r hr hkeeps => hm r hr hkeeps (ht ▸ (hkept r hkeeps).1)⟩

end

/-! ## The filtered batch -/

/-- Some rows of the tables of a batch; the records that are there have their own rows. -/
structure Restricts (b out : OtapArrowRecords) : Prop where
  logs : ∃ mask, out.logs = b.logs.select mask
  logAttrs : ∃ mask, out.logAttrs = applyFilter b.logAttrs mask
  resourceAttrs : ∃ mask, out.resourceAttrs = applyFilter b.resourceAttrs mask
  scopeAttrs : ∃ mask, out.scopeAttrs = applyFilter b.scopeAttrs mask
  own : ∀ r ∈ out.logs.rows, resolve out r = resolve b r

theorem select_all (logs : LogsTable) :
    logs.select (constant logs.rows.length (some true)) = logs := by
  have hrows : Kleene.select logs.rows (constant logs.rows.length (some true)) = logs.rows := by
    rw [constant, (reads_replicate logs.rows (some true)).select]
    exact filter_true logs.rows
  unfold LogsTable.select
  congr

theorem restricts_self (b : OtapArrowRecords) : Restricts b b :=
  ⟨⟨_, (select_all b.logs).symm⟩, ⟨none, rfl⟩, ⟨none, rfl⟩, ⟨none, rfl⟩, fun _ _ => rfl⟩

/-- The filtered batch has the records that meet the filter, each with its own rows. -/
theorem filter_restricts (f : LogFilter) (b : OtapArrowRecords) (h : f.RecordWise b) :
    ∃ out, f.filter b = .ok (out, b.logs.rows.length, b.logs.rows.length - out.logs.rows.length) ∧
      (out.logs.rows = b.logs.rows.filter fun r => f.keeps (resolve b r)) ∧ Restricts b out := by
  unfold LogFilter.filter
  split_ifs with hempty
  · refine ⟨b, by rw [hempty], ?_, restricts_self b⟩
    rw [length_eq_zero_iff.mp hempty]
    rfl
  · obtain ⟨o, ho, hnone, hsome⟩ := masks_select h
    rw [ho]
    cases o with
    | none =>
      refine ⟨b, by rw [Nat.sub_self]; rfl, ?_, restricts_self b⟩
      exact (filter_eq_self.mpr fun r _ => hnone rfl _).symm
    | some filters =>
      obtain ⟨s, hs, hreads, hattrs, hresources⟩ :=
        syncUpFilters_reads h.joined h.resource h.record (hsome filters rfl)
      refine ⟨{ b with
          logs := b.logs.select s.logRecord
          logAttrs := applyFilter b.logAttrs s.logAttrs
          resourceAttrs := applyFilter b.resourceAttrs s.resourceAttrs
          scopeAttrs := applyFilter b.scopeAttrs s.scopeAttrs }, ?_, hreads.select,
        ⟨_, rfl⟩, ⟨_, rfl⟩, ⟨_, rfl⟩, ⟨_, rfl⟩, fun r hr => ?_⟩
      · show (syncUpFilters b filters >>= _) = _
        rw [hs]
        rfl
      · have hr : r ∈ b.logs.rows.filter fun r => f.keeps (resolve b r) := hreads.select ▸ hr
        have hrecord := hattrs r.id (mem_map_of_mem hr)
        have hresource := hresources r.resourceId (mem_map_of_mem hr)
        unfold resolve
        rw [hrecord, hresource]

def noValues : Values := ⟨none, none, none, none⟩

/-- A record with a severity text. -/
def warning (id : Option Nat) : LogRow :=
  ⟨id, some 0, some 0, some "WARN", none, noValues⟩

/-- Records of one resource, none of whose columns but the ids and the text is set. -/
def warnings (ids : List (Option Nat)) : LogsTable where
  hasId := true
  resource := some true
  scope := some true
  hasSeverityText := true
  hasSeverityNumber := false
  body := none
  rows := ids.map warning
  within r hr := by
    obtain ⟨id, -, rfl⟩ := mem_map.mp hr
    simp [warning, noValues, Values.Within]

/-- One attribute, of the record with id 0. -/
def oneAttribute : AttrTable where
  has := ⟨true, false, false, false⟩
  rows := [⟨some 0, some "k", ⟨some "v", none, none, none⟩⟩]
  within := by decide

def onlyWarnings : LogFilter where
  include_ := some ⟨[], [], [.exact "WARN"], none, []⟩
  exclude := none

/-- A record without attributes meets the filter, and by itself it is kept.  Next to a record with
an attribute it is dropped. -/
theorem plain_record_lost :
    onlyWarnings.keeps (resolve ⟨warnings [none], none, none, none⟩ (warning none)) = true ∧
    (onlyWarnings.filter ⟨warnings [none], none, none, none⟩).toOption.map (·.1.logs.rows) =
      some [warning none] ∧
    onlyWarnings.keeps (resolve ⟨warnings [some 0, none], some oneAttribute, none, none⟩
      (warning none)) = true ∧
    (onlyWarnings.filter ⟨warnings [some 0, none], some oneAttribute, none, none⟩).toOption.map
      (·.1.logs.rows) = some [warning (some 0)] := by
  decide +kernel

/-! # Inclusion and exclusion

A rule that is used as an inclusion keeps what it drops as an exclusion, and a filter with both
rules is the inclusion followed by the exclusion (`include_exclude`).  This needs that both of them
go record by record, and a rule with criteria of one kind: an exclusion inverts the masks of the
tables one by one, so it drops a record that meets the criteria of one kind only
(`kept_by_neither`), and an exclusion without criteria drops nothing. -/

open LogFilter

section

variable {b out : OtapArrowRecords} {p q : LogMatchProperties}

theorem Restricts.mem_rows (h : Restricts b out) {r : LogRow} (hr : r ∈ out.logs.rows) :
    r ∈ b.logs.rows := by
  obtain ⟨mask, hlogs⟩ := h.logs
  rw [hlogs] at hr
  exact mem_of_mem_select hr

variable {table : Option AttrTable} {mask : Option Mask}

theorem applyFilter_eq_none : applyFilter table mask = none ↔ table = none := by
  cases mask <;> simp [applyFilter]

/-- A filtered table has the columns of the table, and some of its rows. -/
theorem mem_applyFilter {t : AttrTable} (h : t ∈ applyFilter table mask) :
    ∃ t' ∈ table, t.has = t'.has ∧ t.rows.Sublist t'.rows := by
  cases mask with
  | none => exact ⟨t, h, rfl, List.Sublist.refl _⟩
  | some mask =>
    obtain ⟨t', ht', rfl⟩ := Option.map_eq_some_iff.mp h
    exact ⟨t', ht', rfl, select_sublist _ _⟩

theorem Restricts.joined (h : Restricts b out) (hb : b.Joined) : out.Joined := by
  obtain ⟨mask, hlogs⟩ := h.logs
  obtain ⟨_, hattrs⟩ := h.logAttrs
  obtain ⟨_, hresources⟩ := h.resourceAttrs
  obtain ⟨_, hscopes⟩ := h.scopeAttrs
  refine ⟨?_, fun htable => ?_, fun htable => ?_, fun htable => ?_, fun t ht i => ?_⟩
  · rw [hlogs]
    exact hb.resource
  · rw [hattrs, ne_eq, applyFilter_eq_none] at htable
    rw [hlogs]
    exact hb.id htable
  · rw [hresources, ne_eq, applyFilter_eq_none] at htable
    rw [hlogs]
    exact hb.resourceId htable
  · rw [hscopes, ne_eq, applyFilter_eq_none] at htable
    rw [hlogs]
    exact hb.scopeId htable
  · rw [hresources] at ht
    obtain ⟨t', ht', -, hrows⟩ := mem_applyFilter ht
    exact (hb.once t' ht' i).sublist ((hrows.filter _).map _)

theorem Restricts.evaluable (h : Restricts b out) (hp : p.Evaluable b) : p.Evaluable out := by
  obtain ⟨mask, hlogs⟩ := h.logs
  obtain ⟨_, hattrs⟩ := h.logAttrs
  obtain ⟨_, hresources⟩ := h.resourceAttrs
  refine ⟨fun t ht => ?_, hp.keys, fun t ht => ?_, ?_, fun s hs hnone r hr => ?_⟩
  · rw [hresources] at ht
    obtain ⟨t', ht', hhas, -⟩ := mem_applyFilter ht
    rw [hhas]
    exact hp.resource t' ht'
  · rw [hattrs] at ht
    obtain ⟨t', ht', hhas, -⟩ := mem_applyFilter ht
    rw [hhas]
    exact hp.record t' ht'
  · rw [hlogs]
    exact hp.bodies
  · exact hp.severity s hs hnone r (h.mem_rows hr)

theorem short_applyFilter (h : Short table) : Short (applyFilter table mask) := by
  intro t ht
  obtain ⟨t', ht', -, hrows⟩ := mem_applyFilter ht
  exact hrows.length_le.trans_lt (h t' ht')

theorem Restricts.excludable (h : Restricts b out) (hp : p.Excludable b) : p.Excludable out := by
  obtain ⟨_, hattrs⟩ := h.logAttrs
  obtain ⟨_, hresources⟩ := h.resourceAttrs
  refine ⟨hp.kinds, fun hne => ?_, fun hne => ?_⟩
  · rw [hresources]
    exact short_applyFilter (hp.resource hne)
  · rw [hattrs]
    exact short_applyFilter (hp.record hne)

/-- Every record that is kept owns rows: either all records do, or only those with rows are kept. -/
theorem owned_of_kept {rows kept : List LogRow} {idOf : LogRow → Option Nat} {asks : Bool}
    {judge : List AttrRow → Bool} (hown : asks = false → Owned table (rows.map idOf))
    (hasks : asks = true → judge [] = false)
    (hkept : ∀ r ∈ kept, r ∈ rows ∧ judge (ownRows table (idOf r)) = true ∧
      ownRows (applyFilter table mask) (idOf r) = ownRows table (idOf r)) :
    Owned (applyFilter table mask) (kept.map idOf) := by
  intro o ho htable
  obtain ⟨r, hr, rfl⟩ := mem_map.mp ho
  obtain ⟨hr, hjudge, hsame⟩ := hkept r hr
  rw [ne_eq, applyFilter_eq_none] at htable
  rw [hsame]
  cases asks with
  | false => exact hown rfl _ (mem_map_of_mem hr) htable
  | true =>
    intro hnil
    rw [hnil, hasks rfl] at hjudge
    cases hjudge

/-- What is left by the inclusion can be excluded record by record. -/
theorem recordWise_second (h : LogFilter.RecordWise ⟨some p, some q⟩ b) (hout : Restricts b out)
    (hkept : ∀ r ∈ out.logs.rows, satisfies p (resolve b r) = true) :
    LogFilter.RecordWise ⟨none, some q⟩ out := by
  obtain ⟨hq, hexclude⟩ := h.excludes q rfl
  obtain ⟨_, hattrs⟩ := hout.logAttrs
  obtain ⟨_, hresources⟩ := hout.resourceAttrs
  have hparts : ∀ r ∈ out.logs.rows,
      allMatch p.resourceAttributes (ownRows b.resourceAttrs r.resourceId) = true ∧
        anyMatches p.recordAttributes (ownRows b.logAttrs r.id) = true := fun r hr => by
    have hall := hkept r hr
    rw [satisfies, Bool.and_eq_true, Bool.and_eq_true] at hall
    exact ⟨hall.1.1, hall.2⟩
  refine ⟨hout.joined h.joined, fun _ => ?_, fun _ => ?_, ?_, fun q' hq' => ?_⟩
  · rw [hresources]
    refine owned_of_kept h.resource allMatch_nil fun r hr =>
      ⟨hout.mem_rows hr, (hparts r hr).1, ?_⟩
    rw [← hresources]
    exact congrArg Resolved.resourceAttributes (hout.own r hr)
  · rw [hattrs]
    refine owned_of_kept h.record anyMatches_nil fun r hr =>
      ⟨hout.mem_rows hr, (hparts r hr).2, ?_⟩
    rw [← hattrs]
    exact congrArg Resolved.attributes (hout.own r hr)
  · intro p' hp'
    cases hp'
  · cases hq'
    exact ⟨hout.evaluable hq, hout.excludable hexclude⟩

/-- A rule that excludes record by record also includes so. -/
theorem recordWise_include (h : LogFilter.RecordWise ⟨none, some p⟩ b) :
    LogFilter.RecordWise ⟨some p, none⟩ b := by
  refine ⟨h.joined, fun _ => h.resource rfl, fun _ => h.record rfl, fun p' hp' => ?_,
    fun p' hp' => ?_⟩
  · cases hp'
    exact (h.excludes p rfl).1
  · cases hp'

theorem recordWise_first (h : LogFilter.RecordWise ⟨some p, some q⟩ b) :
    LogFilter.RecordWise ⟨some p, none⟩ b := by
  refine { h with excludes := fun p' hp' => ?_ }
  cases hp'

theorem keeps_include (x : Resolved) : keeps ⟨some p, none⟩ x = satisfies p x :=
  Bool.and_true _

theorem keeps_exclude (hgiven : p.kinds ≠ []) (x : Resolved) :
    keeps ⟨none, some p⟩ x = !satisfies p x := by
  have hnonempty : p.kinds.isEmpty = false := isEmpty_eq_false_iff.mpr hgiven
  rw [keeps, Option.all_none, Bool.true_and, Option.any_some, hnonempty, Bool.not_false,
    Bool.true_and]

theorem keeps_both (x : Resolved) : keeps ⟨some p, some q⟩ x =
    (keeps ⟨some p, none⟩ x && keeps ⟨none, some q⟩ x) := by
  rw [keeps_include]
  rfl

end

/-- **Inclusion and exclusion.**  A rule with criteria keeps as an inclusion the records that it
drops as an exclusion, and two rules together keep what the inclusion and then the exclusion
keep. -/
theorem include_exclude (p q : LogMatchProperties) (b : OtapArrowRecords) (hgiven : p.kinds ≠ [])
    (hp : LogFilter.RecordWise ⟨none, some p⟩ b) (hpq : LogFilter.RecordWise ⟨some p, some q⟩ b) :
    (∃ included excluded : OtapArrowRecords × Nat × Nat,
      filter ⟨some p, none⟩ b = .ok included ∧
      filter ⟨none, some p⟩ b = .ok excluded ∧
      ∃ meets : LogRow → Bool, included.1.logs.rows = b.logs.rows.filter meets ∧
        excluded.1.logs.rows = b.logs.rows.filter fun r => !meets r) ∧
    ∃ both first second : OtapArrowRecords × Nat × Nat,
      filter ⟨some p, some q⟩ b = .ok both ∧
      filter ⟨some p, none⟩ b = .ok first ∧
      filter ⟨none, some q⟩ first.1 = .ok second ∧
      both.1.logs.rows = second.1.logs.rows := by
  obtain ⟨included, hincluded, hincludes, -⟩ := filter_restricts _ b (recordWise_include hp)
  obtain ⟨excluded, hexcluded, hexcludes, -⟩ := filter_restricts _ b hp
  obtain ⟨both, hboth, hbothRows, -⟩ := filter_restricts _ b hpq
  obtain ⟨first, hfirst, hfirstRows, hrestricts⟩ := filter_restricts _ b (recordWise_first hpq)
  simp only [keeps_include] at hincludes hfirstRows
  have hkept : ∀ r ∈ first.logs.rows, satisfies p (resolve b r) = true := fun r hr => by
    rw [hfirstRows] at hr
    exact (mem_filter.mp hr).2
  obtain ⟨second, hsecond, hsecondRows, -⟩ :=
    filter_restricts _ first (recordWise_second hpq hrestricts hkept)
  refine ⟨⟨_, _, hincluded, hexcluded, fun r => satisfies p (resolve b r), hincludes, ?_⟩,
    _, _, _, hboth, hfirst, hsecond, ?_⟩
  · simp only [keeps_exclude hgiven] at hexcludes
    exact hexcludes
  · -- the second filter sees the records with the rows that they had
    have hresolve : second.logs.rows =
        first.logs.rows.filter fun r => keeps ⟨none, some q⟩ (resolve b r) := by
      rw [hsecondRows]
      exact filter_congr fun r hr => by rw [hrestricts.own r hr]
    rw [hbothRows, hresolve, hfirstRows, filter_filter]
    exact filter_congr fun r _ => by rw [keeps_both, keeps_include, Bool.and_comm]

/-- Severity `WARN`, and an attribute `k` with the value `x`. -/
def warningWith (x : String) : LogMatchProperties :=
  ⟨[], [⟨"k", .string (.exact x)⟩], [.exact "WARN"], none, []⟩

/-- An attribute `k` with the value `v`. -/
def withAttribute : LogMatchProperties := ⟨[], [⟨"k", .string (.exact "v")⟩], [], none, []⟩

/-- The record with id 0 and its attribute. -/
def oneRecord : OtapArrowRecords := ⟨warnings [some 0], some oneAttribute, none, none⟩

theorem include_exclude_attribute :
    (∃ included excluded : OtapArrowRecords × Nat × Nat,
      filter ⟨some withAttribute, none⟩ oneRecord = .ok included ∧
      filter ⟨none, some withAttribute⟩ oneRecord = .ok excluded ∧
      ∃ meets : LogRow → Bool, included.1.logs.rows = oneRecord.logs.rows.filter meets ∧
        excluded.1.logs.rows = oneRecord.logs.rows.filter fun r => !meets r) ∧
    ∃ both first second : OtapArrowRecords × Nat × Nat,
      filter ⟨some withAttribute, some withAttribute⟩ oneRecord = .ok both ∧
      filter ⟨some withAttribute, none⟩ oneRecord = .ok first ∧
      filter ⟨none, some withAttribute⟩ first.1 = .ok second ∧
      both.1.logs.rows = second.1.logs.rows := by
  have hcolumns : Columns oneAttribute.has [.string (.exact "v")] := fun _ _ _ => rfl
  have hevaluable : withAttribute.Evaluable oneRecord := by
    refine ⟨fun t ht => (by cases ht), nodup_nil, fun t ht => ?_, fun h => absurd rfl h,
      fun s hs => (by cases hs)⟩
    cases ht
    exact hcolumns
  have hexcludable : withAttribute.Excludable oneRecord := by
    refine ⟨by decide, fun h => absurd rfl h, fun _ t ht => ?_⟩
    cases ht
    decide
  have hjoined : oneRecord.Joined :=
    ⟨by decide, by decide, by decide, by decide, fun t ht => (by cases ht)⟩
  have hnoResource : Owned oneRecord.resourceAttrs (oneRecord.logs.rows.map (·.resourceId)) :=
    fun _ _ h => absurd rfl h
  have hrecord : Owned oneRecord.logAttrs (oneRecord.logs.rows.map (·.id)) := by
    unfold Owned
    decide
  refine include_exclude withAttribute withAttribute oneRecord (by decide)
    ⟨hjoined, fun _ => hnoResource, fun _ => hrecord, fun p hp => (by cases hp), fun p hp => ?_⟩
    ⟨hjoined, fun _ => hnoResource, fun _ => hrecord, fun p hp => ?_, fun p hp => ?_⟩
  · cases hp
    exact ⟨hevaluable, hexcludable⟩
  · cases hp
    exact hevaluable
  · cases hp
    exact ⟨hevaluable, hexcludable⟩

/-- A warning whose attribute has another value: the inclusion drops it, and so does the exclusion
because of its severity. -/
theorem kept_by_neither :
    (filter ⟨some (warningWith "x"), none⟩ oneRecord).toOption.map (·.1.logs.rows) =
      some [] ∧
    (filter ⟨none, some (warningWith "x")⟩ oneRecord).toOption.map (·.1.logs.rows) =
      some [] ∧
    oneRecord.logs.rows = [warning (some 0)] := by
  decide +kernel

end OtapDataflow.OtapFilter
