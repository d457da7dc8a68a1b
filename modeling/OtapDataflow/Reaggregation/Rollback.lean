import OtapDataflow.Reaggregation.Processor

/-! # Attribute identity

A list of attributes is identified by a hash of its scalar attributes, sorted by key and written one
after another.  What is written can be read back (`encode_append_inj`), so the hash tells sets of
scalar attributes apart; but the empty list has a hash of its own, which a list of arrays and maps
only does not have (`list_valued_attribute_identifies`). -/

namespace OtapDataflow.Reaggregation

open Bytes List

/-- A scalar value; the numbers are given by their bits. -/
inductive Scalar
  | empty
  | bytes (value : Bytes)
  | string (value : Bytes)
  | bool (value : Bool)
  | int64 (bits : UInt64)
  | double (bits : UInt64)
  deriving DecidableEq

inductive AnyValue
  | scalar (value : Scalar)
  | array
  | keyValueList
  deriving DecidableEq

structure Attribute where
  key : Bytes
  value : Option AnyValue
  deriving DecidableEq

def writeLen (len : Nat) : Bytes := leBytes 4 len

def writeScalar : Scalar → Bytes
  | .string s => 0xf8 :: (writeLen s.length ++ s)
  | .bool true => [0xf9]
  | .bool false => [0xfa]
  | .int64 bits => 0xfb :: leBytes 8 bits.toNat
  | .double bits => 0xfc :: leBytes 8 bits.toNat
  | .bytes b => 0xf7 :: (writeLen b.length ++ b)
  | .empty => [0xf6]

/-- Keys are byte strings in lexicographic order. -/
def keyLe (a b : Attribute) : Bool := a.key.map UInt8.toNat ≤ b.key.map UInt8.toNat

namespace AttributeHash

end AttributeHash

open AttributeHash

/-! ## What is written can be read back -/

/-- What an attribute contributes to the identity; a missing value counts as the empty one. -/
def Attribute.scalar (attr : Attribute) : Option (Bytes × Scalar) :=
  match attr.value with
  | none => some (attr.key, .empty)
  | some (.scalar value) => some (attr.key, value)
  | _ => none

def Scalar.length : Scalar → Nat
  | .string s => s.length
  | .bytes b => b.length
  | _ => 0

def encode (p : Bytes × Scalar) : Bytes :=
  0xf5 :: (writeLen p.1.length ++ (p.1 ++ writeScalar p.2))

/-- The lengths fit the four bytes they are written in. -/
def Fits (p : Bytes × Scalar) : Prop := p.1.length < 2 ^ 32 ∧ p.2.length < 2 ^ 32

/-- The scalars in the order in which they are written. -/
def written (attrs : List Attribute) : List (Bytes × Scalar) :=
  (attrs.mergeSort keyLe).filterMap Attribute.scalar

variable {attrs attrs' : List Attribute}

open Node Fallible

variable {A X H : Type} [DecidableEq H]

/-! ## Tables that have grown -/

structure PointTables.Extends (t₀ t : PointTables A X) : Prop where
  rows : t₀.rows <+: t.rows
  attrs : t₀.attrs <+: t.attrs
  exemplars : t₀.exemplars <+: t.exemplars
  exemplarAttrs : t₀.exemplarAttrs <+: t.exemplarAttrs

/-- The first rows of every table are those of the smaller batch. -/
structure MetricSignalBuilder.Extends (b₀ b : MetricSignalBuilder A X) : Prop where
  metrics : b₀.metrics <+: b.metrics
  resourceAttrs : b₀.resourceAttrs <+: b.resourceAttrs
  scopeAttrs : b₀.scopeAttrs <+: b.scopeAttrs
  points : ∀ kind, (b₀.points kind).Extends (b.points kind)

omit [DecidableEq H] in
theorem PointTables.Extends.refl (t : PointTables A X) : t.Extends t :=
  ⟨prefix_rfl, prefix_rfl, prefix_rfl, prefix_rfl⟩

variable {t₀ t : PointTables A X} {data : Data A X} {metric : Metric A X} {view : MetricsView A X}

theorem PointTables.Extends.truncate (h : t₀.Extends t) : t.truncate t₀.lengths = t₀ := by
  rw [PointTables.truncate, PointTables.lengths]
  rw [← prefix_iff_eq_take.mp h.rows, ← prefix_iff_eq_take.mp h.attrs,
    ← prefix_iff_eq_take.mp h.exemplars, ← prefix_iff_eq_take.mp h.exemplarAttrs]

theorem PointTables.Extends.append (h : t₀.Extends t) (id metricId : Nat) (dp : DataPoint A X) :
    t₀.Extends (t.append id metricId dp) :=
  ⟨h.rows.trans (prefix_append _ _), h.attrs.trans (prefix_append _ _), h.exemplars,
    h.exemplarAttrs⟩

/-- A row behind the smaller table may change. -/
theorem PointTables.Extends.replace (h : t₀.Extends t) {row : Nat} (hrow : t₀.rows.length ≤ row)
    (dp : DataPoint A X) : t₀.Extends (t.replace row dp) := by
  refine ⟨?_, h.attrs, h.exemplars, h.exemplarAttrs⟩
  rw [PointTables.replace, prefix_iff_getElem?]
  intro i hi
  have hne : row ≠ i := by omega
  rw [getElem?_modify, prefix_iff_getElem?.mp h.rows i hi]
  simp [hne]

theorem MetricSignalBuilder.Extends.refl (b : MetricSignalBuilder A X) : b.Extends b :=
  ⟨prefix_rfl, prefix_rfl, prefix_rfl, fun _ => .refl _⟩

variable {b₀ b : MetricSignalBuilder A X}

/-- Cutting back to the checkpoint gives the smaller batch back. -/
theorem MetricSignalBuilder.Extends.finish (h : b₀.Extends b) :
    b.finish (some b₀.checkpoint) = b₀ := by
  rw [MetricSignalBuilder.finish, MetricSignalBuilder.checkpoint]
  rw [← prefix_iff_eq_take.mp h.metrics, ← prefix_iff_eq_take.mp h.resourceAttrs,
    ← prefix_iff_eq_take.mp h.scopeAttrs]
  simp [(h.points _).truncate]

theorem MetricSignalBuilder.Extends.onPoints (h : b₀.Extends b)
    {kind : PointKind} {f : PointTables A X → PointTables A X}
    (hf : (b₀.points kind).Extends (f (b.points kind))) : b₀.Extends (b.onPoints kind f) := by
  refine ⟨h.metrics, h.resourceAttrs, h.scopeAttrs, fun kind' => ?_⟩
  rw [MetricSignalBuilder.onPoints]
  dsimp only
  by_cases hk : kind' = kind
  · subst hk
    rw [Function.update_self]
    exact hf
  · rw [Function.update_of_ne hk]
    exact h.points kind'

/-! ## What an input overwrites -/

def Data.points : Data A X → List (DataPoint A X)
  | .gauge points => points
  | .sum _ _ points => points
  | .histogram _ points => points
  | .exponentialHistogram _ points => points
  | .summary points => points

/-- The loop over the metrics of a scope gets to a data point of `metric`, with the stream `id`. -/
def ReachesPoint (settings : Settings A H) (rm : ResourceMetrics A X) (sm : ScopeMetrics A X)
    (metric : Metric A X) (locals : Locals A X H) (s : Aggregate A X H) (id : StreamId H)
    (dp : DataPoint A X) : Prop :=
  ∃ data resource scope metricId s₁ s₂ s₃ s₄,
    metric.data = some data ∧ data.isAggregatable = true ∧
    aggResourceOf settings rm locals.aggResource s = (.ok resource, s₁) ∧
    aggScopeOf settings resource.2 sm locals.aggScope s₁ = (.ok scope, s₂) ∧
    processMetric (metricIdOf scope.2 metric data) metric data resource.1 rm scope.1 sm s₂ =
      (.ok metricId, s₃) ∧
    Reaches (fun _ dp => processDp data.metricTypeInfoOf.1.kind settings dp
      (settings.streamIdOf (metricIdOf scope.2 metric data) dp.attributes) metricId)
      () data.points s₃ () dp s₄ ∧
    id = settings.streamIdOf (metricIdOf scope.2 metric data) dp.attributes

/-- Aggregating the view gets to a data point of the stream `id`: everything in front of it is
aggregated without an error. -/
def Aggregate.Reaches (s : Aggregate A X H) (settings : Settings A H) (view : MetricsView A X)
    (id : StreamId H) (dp : DataPoint A X) : Prop :=
  ∃ rm sm metric l₁ s₁ l₂ s₂ l₃ s₃,
    Fallible.Reaches (aggregateResource settings) ⟨none, none, none, none, .new⟩ view s l₁ rm s₁ ∧
    Fallible.Reaches (aggregateScope settings rm)
      { l₁ with aggResource := none, ptResource := none } rm.scopes s₁ l₂ sm s₂ ∧
    Fallible.Reaches (aggregateMetric settings rm sm)
      { l₂ with aggScope := none, ptScope := none } sm.metrics s₂ l₃ metric s₃ ∧
    ReachesPoint settings rm sm metric l₃ s₃ id dp

/-- Aggregating the view gets to newer data for a stream of the aggregate. -/
def Aggregate.Overwritten (s : Aggregate A X H) (settings : Settings A H)
    (view : MetricsView A X) : Prop :=
  ∃ id dp stream, s.Reaches settings view id dp ∧ s.streams.lookup id = some stream ∧
    stream.timeUnixNano < dp.timeUnixNano

/-- The aggregate has grown, and the streams that are new have new rows. -/
structure Aggregate.Grown (s₀ s : Aggregate A X H) : Prop where
  tables : s₀.builder.Extends s.builder
  kept : ∀ id stream, s₀.streams.lookup id = some stream → s.streams.lookup id = some stream
  added : ∀ id stream, s.streams.lookup id = some stream → s₀.streams.lookup id = none →
    (s₀.builder.points id.metric.dataType.kind).rows.length ≤ stream.dpRowIndex

theorem Aggregate.Grown.refl (s : Aggregate A X H) : s.Grown s :=
  ⟨.refl _, fun _ _ h => h, fun _ _ h hnone => by rw [hnone] at h; cases h⟩

variable {s₀ : Aggregate A X H} {settings : Settings A H}

theorem grown_processResource (rid : ResourceId H) (view : Option (Resource A)) :
    Spec s₀.Grown (processResource rid view : Aggregating A X H Nat) (fun _ => s₀.Grown)
      s₀.Grown := by
  refine .of_state fun s hs => ?_
  rw [processResource]
  split
  · exact hs
  · dsimp only
    split
    · exact hs
    · refine ⟨?_, hs.kept, hs.added⟩
      cases view with
      | none => exact hs.tables
      | some r =>
        exact { hs.tables with
          resourceAttrs := hs.tables.resourceAttrs.trans (prefix_append _ _) }

theorem grown_processScope (sid : ScopeId H) (view : Option (Scope A)) :
    Spec s₀.Grown (processScope sid view : Aggregating A X H Nat) (fun _ => s₀.Grown)
      s₀.Grown := by
  refine .of_state fun s hs => ?_
  rw [processScope]
  split
  · exact hs
  · dsimp only
    split
    · exact hs
    · refine ⟨?_, hs.kept, hs.added⟩
      cases view with
      | none => exact hs.tables
      | some r =>
        exact { hs.tables with
          scopeAttrs := hs.tables.scopeAttrs.trans (prefix_append _ _) }

theorem grown_processMetric (metricId : MetricId H) (metric : Metric A X) (data : Data A X)
    (resourceId : Nat) (rm : ResourceMetrics A X) (scopeId : Nat) (sm : ScopeMetrics A X) :
    Spec s₀.Grown (processMetric metricId metric data resourceId rm scopeId sm)
      (fun _ => s₀.Grown) s₀.Grown := by
  refine .of_state fun s hs => ?_
  rw [processMetric]
  split
  · exact hs
  · dsimp only
    split
    · exact hs
    · exact ⟨{ hs.tables with metrics := hs.tables.metrics.trans (prefix_append _ _) },
        hs.kept, hs.added⟩

/-- A data point that is not newer than what the aggregate had for its stream. -/
theorem grown_processDp {kind : PointKind} {dp : DataPoint A X} {id : StreamId H}
    (hkind : id.metric.dataType.kind = kind)
    (hold : ∀ stream, s₀.streams.lookup id = some stream → dp.timeUnixNano ≤ stream.timeUnixNano)
    (metricId : Nat) :
    Spec s₀.Grown (processDp kind settings dp id metricId) (fun _ => s₀.Grown) s₀.Grown := by
  subst hkind
  refine .of_state fun s hs => ?_
  -- The streams of the aggregate stay as they are when another one is set.
  have hset : ∀ stream', s₀.streams.lookup id = none →
      (s₀.builder.points id.metric.dataType.kind).rows.length ≤ stream'.dpRowIndex →
      ∀ s', s₀.builder.Extends s'.builder → s'.streams = s.streams.insert id stream' →
      s₀.Grown s' := by
    intro stream' hnone hrow s' htables hstreams
    refine ⟨htables, fun id' stream h => ?_, fun id' stream h hnone' => ?_⟩
    · have hid : id' ≠ id := by
        rintro rfl
        rw [hnone] at h
        cases h
      rw [hstreams, Finmap.lookup_insert_of_ne _ hid]
      exact hs.kept id' stream h
    · rw [hstreams] at h
      by_cases hid : id' = id
      · subst hid
        rw [Finmap.lookup_insert] at h
        cases h
        exact hrow
      · rw [Finmap.lookup_insert_of_ne _ hid] at h
        exact hs.added id' stream h hnone'
  rw [processDp]
  split
  · rename_i stream hstream
    split
    · cases hnone : s₀.streams.lookup id with
      | some stream₀ =>
        have hsame := hs.kept id stream₀ hnone
        rw [hstream] at hsame
        cases hsame
        exact absurd (hold stream hnone) (by omega)
      | none =>
        have hrow := hs.added id stream hstream hnone
        refine hset _ hnone (by exact hrow) _ ?_ rfl
        dsimp only
        exact hs.tables.onPoints ((hs.tables.points _).replace hrow dp)
    · exact hs
  · rename_i hvacant
    have hnone : s₀.streams.lookup id = none := by
      refine Option.eq_none_iff_forall_not_mem.mpr fun stream₀ h => ?_
      rw [hs.kept id stream₀ h] at hvacant
      cases hvacant
    split
    · exact hs
    · split
      · exact hs
      · refine hset _ hnone (hs.tables.points _).rows.length_le _ ?_ rfl
        dsimp only
        exact hs.tables.onPoints ((hs.tables.points _).append _ _ dp)

/-! ## Loops -/

/-- A data point is not newer than what the aggregate has for its stream. -/
def Aggregate.Holds (s₀ : Aggregate A X H) (id : StreamId H) (dp : DataPoint A X) : Prop :=
  ∀ stream, s₀.streams.lookup id = some stream → dp.timeUnixNano ≤ stream.timeUnixNano

theorem grown_processAggregatableDatapoints {metricId : MetricId H} {id : Nat}
    {s : Aggregate A X H} (htype : metricId.dataType = data.metricTypeInfoOf.1)
    (hold : ∀ dp s', Reaches (fun _ dp => processDp data.metricTypeInfoOf.1.kind settings dp
      (settings.streamIdOf metricId dp.attributes) id) () data.points s () dp s' →
      s₀.Holds (settings.streamIdOf metricId dp.attributes) dp) :
    Spec (fun s' => s' = s ∧ s₀.Grown s') (processAggregatableDatapoints settings data metricId id)
      (fun _ => s₀.Grown) s₀.Grown := by
  have hloop : Spec (fun s' => s' = s ∧ s₀.Grown s')
      (loop (fun _ dp => processDp data.metricTypeInfoOf.1.kind settings dp
        (settings.streamIdOf metricId dp.attributes) id) () data.points)
      (fun _ => s₀.Grown) s₀.Grown := by
    refine .loop_reached (J := fun _ => s₀.Grown) fun _ dp s' hreach => ?_
    exact (grown_processDp (congrArg _ htype) (hold dp s' hreach) id).mono (fun _ hs => hs.2)
      (fun _ _ hs => hs) fun _ hs => hs
  cases data with
  | gauge | sum | histogram | exponentialHistogram | summary => exact hloop

/-- The ids that the loops remember are those of the resource and the scope at hand. -/
structure Locals.Fit (settings : Settings A H) (rm : ResourceMetrics A X) (sm : ScopeMetrics A X)
    (locals : Locals A X H) : Prop where
  resource : ∀ r, locals.aggResource = some r → r.2 = settings.resourceIdOf rm.resource
  scope : ∀ r, locals.aggScope = some r →
    r.2 = settings.scopeIdOf (settings.resourceIdOf rm.resource) sm.scope

variable {rm : ResourceMetrics A X} {sm : ScopeMetrics A X} {locals : Locals A X H}

theorem grown_aggResourceOf {cached : Option (Nat × ResourceId H)}
    (hfit : ∀ r, cached = some r → r.2 = settings.resourceIdOf rm.resource) :
    Spec s₀.Grown (aggResourceOf settings rm cached)
      (fun r s => s₀.Grown s ∧ r.2 = settings.resourceIdOf rm.resource) s₀.Grown := by
  cases cached with
  | some r => exact .pure fun s hs => ⟨hs, hfit r rfl⟩
  | none => exact .bind (grown_processResource _ _) fun id => .pure fun s hs => ⟨hs, rfl⟩

theorem grown_aggScopeOf {rid : ResourceId H} {cached : Option (Nat × ScopeId H)}
    (hfit : ∀ r, cached = some r → r.2 = settings.scopeIdOf rid sm.scope) :
    Spec s₀.Grown (aggScopeOf settings rid sm cached)
      (fun r s => s₀.Grown s ∧ r.2 = settings.scopeIdOf rid sm.scope) s₀.Grown := by
  cases cached with
  | some r => exact .pure fun s hs => ⟨hs, hfit r rfl⟩
  | none => exact .bind (grown_processScope _ _) fun id => .pure fun s hs => ⟨hs, rfl⟩

theorem grown_aggregateData {s : Aggregate A X H} (hfit : locals.Fit settings rm sm)
    (hdata : metric.data = some data) (hagg : data.isAggregatable = true)
    (hold : ∀ id dp, ReachesPoint settings rm sm metric locals s id dp → s₀.Holds id dp) :
    Spec (fun s' => s' = s ∧ s₀.Grown s') (aggregateData settings rm sm metric data locals)
      (fun l s => s₀.Grown s ∧ l.Fit settings rm sm) s₀.Grown := by
  have hpre : ∀ s' : Aggregate A X H, s' = s ∧ s₀.Grown s' → s₀.Grown s' := fun _ hs => hs.2
  have hsame : ∀ s' : Aggregate A X H, s₀.Grown s' → s₀.Grown s' := fun _ hs => hs
  refine .bind ((grown_aggResourceOf hfit.resource).mono hpre (fun _ _ hs => hs) hsame).keep
    fun resource s₁ ⟨hresource, hs₁, hrid⟩ => ?_
  refine Spec.bind (I := fun s' => s' = s₁ ∧ s₀.Grown s')
    (Spec.keep ((grown_aggScopeOf (fun r hr => hrid ▸ hfit.scope r hr)).mono (fun _ hs => hs.2)
      (fun _ _ hs => hs) hsame)) (fun scope s₂ ⟨hscope, hs₂, hsid⟩ => ?_) s₁ ⟨rfl, hs₁⟩
  refine Spec.bind (I := fun s' => s' = s₂ ∧ s₀.Grown s')
    (Spec.keep ((grown_processMetric _ _ _ _ _ _ _).mono (fun _ hs => hs.2) (fun _ _ hs => hs)
      hsame)) (fun metricId s₃ ⟨hmetric, hs₃⟩ => ?_) s₂ ⟨rfl, hs₂⟩
  refine Spec.bind (I := fun s' => s' = s₃ ∧ s₀.Grown s')
    (grown_processAggregatableDatapoints rfl fun dp s₄ hreach => ?_)
    (fun _ => .pure fun s' hs' => ⟨hs', fun r hr => ?_, fun r hr => ?_⟩) s₃ ⟨rfl, hs₃⟩
  · exact hold _ dp ⟨data, resource, scope, metricId, s₁, s₂, s₃, s₄, hdata, hagg, hresource,
      hscope, hmetric, hreach, rfl⟩
  · cases hr
    exact hrid
  · cases hr
    rw [← hrid]
    exact hsid

omit [DecidableEq H] in
/-- The passthrough batch leaves the other variables alone. -/
theorem passData_locals {l : Locals A X H} (h : passData rm sm metric data locals = .ok l) :
    l.aggResource = locals.aggResource ∧ l.aggScope = locals.aggScope := by
  unfold passData at h
  simp only [bind, Except.bind] at h
  split at h
  · cases h
  · split at h
    · cases h
    · split at h
      · cases h
      · split at h
        · cases h
        · cases h
          exact ⟨rfl, rfl⟩

theorem grown_aggregateMetric {s : Aggregate A X H}
    (hold : ∀ id dp, ReachesPoint settings rm sm metric locals s id dp → s₀.Holds id dp) :
    Spec (fun s' => s' = s ∧ s₀.Grown s' ∧ locals.Fit settings rm sm)
      (aggregateMetric settings rm sm locals metric)
      (fun l s => s₀.Grown s ∧ l.Fit settings rm sm) s₀.Grown := by
  rw [aggregateMetric]
  split
  · exact .pure fun s hs => hs.2
  · rename_i data hdata
    split_ifs with hagg
    · rintro s' ⟨rfl, hs, hfit⟩
      exact grown_aggregateData hfit hdata hagg hold s' ⟨rfl, hs⟩
    · refine .lift (fun l hl s hs => ⟨hs.2.1, ?_⟩) fun s hs => hs.2.1
      obtain ⟨hresource, hscope⟩ := passData_locals hl
      exact ⟨fun r hr => hs.2.2.resource r (hresource ▸ hr),
        fun r hr => hs.2.2.scope r (hscope ▸ hr)⟩

/-- **Aggregation only adds**, if it gets to newer data for no stream of the aggregate. -/
theorem grown_aggregateView (h : ¬s₀.Overwritten settings view) :
    Spec (· = s₀) (aggregateView settings view) (fun _ => s₀.Grown) s₀.Grown := by
  have hold : ∀ id dp, s₀.Reaches settings view id dp → s₀.Holds id dp := by
    intro id dp hreach stream hstream
    by_contra hnewer
    exact h ⟨id, dp, stream, hreach, hstream, not_le.mp hnewer⟩
  refine .bind (Q := fun _ => s₀.Grown) ?_ fun locals => ?_
  · refine (Spec.loop_reached (J := fun _ => s₀.Grown) (t := s₀) fun l₁ rm s₁ hrm => ?_).mono
      (fun s hs => ⟨hs, hs ▸ .refl _⟩) (fun _ _ hs => hs) fun _ hs => hs
    -- The scopes of a resource: the id that is remembered is the one of the resource.
    refine (Spec.loop_reached (t := s₁) (J := fun l s => s₀.Grown s ∧
      ∀ r, l.aggResource = some r → r.2 = settings.resourceIdOf rm.resource)
      fun l₂ sm s₂ hsm => ?_).mono (fun s hs => ⟨hs.1, hs.2, nofun⟩) (fun _ _ hs => hs.1)
      fun _ hs => hs
    rintro s' ⟨rfl, hs', hresource⟩
    refine ((Spec.loop_reached (t := s') (J := fun l s => s₀.Grown s ∧ l.Fit settings rm sm)
      fun l₃ metric s₃ hmetric => ?_).mono (fun s hs => hs) (fun l s hs => ⟨hs.1, hs.2.resource⟩)
      fun _ hs => hs) s' ⟨rfl, hs', hresource, nofun⟩
    exact grown_aggregateMetric fun id dp hpoint =>
      hold id dp ⟨rm, sm, metric, l₁, s₁, l₂, s', l₃, s₃, hrm, hsm, hmetric, hpoint⟩
  · split <;> exact .pure fun _ hs => hs

/-! ## The early flush -/

namespace TemporalReaggregationProcessor

omit [DecidableEq H] in
/-- A flush depends on the batch that it sends, and not on the rest of the aggregate. -/
theorem flush_congr {p : TemporalReaggregationProcessor A X H} {aggregate : Aggregate A X H}
    {checkpoint : Option Checkpoint}
    (h : aggregate.builder.finish checkpoint = p.aggregate.builder) :
    { p with aggregate }.flush checkpoint = p.flush none := by
  unfold flush
  rw [h]
  rfl

omit [DecidableEq H] in
theorem cancelCurrentWakeup_aggregate (p : TemporalReaggregationProcessor A X H) :
    p.cancelCurrentWakeup.1.aggregate = p.aggregate ∧
      p.cancelCurrentWakeup.1.aggregatedPeer = p.aggregatedPeer := by
  rw [cancelCurrentWakeup]
  split <;> exact ⟨rfl, rfl⟩

omit [DecidableEq H] in
/-- A flush leaves an empty aggregate. -/
theorem flush_aggregate (p : TemporalReaggregationProcessor A X H)
    (checkpoint : Option Checkpoint) :
    (p.flush checkpoint).state.aggregate = .new ∧
      (p.flush checkpoint).state.aggregatedPeer = .empty := by
  have hcancel := p.clearState.cancelCurrentWakeup_aggregate
  unfold flush
  dsimp only
  split
  · exact hcancel
  · split
    · exact hcancel
    · split
      · split <;> exact hcancel
      · exact hcancel

omit [DecidableEq H] in
theorem clearState_flush (p : TemporalReaggregationProcessor A X H)
    (checkpoint : Option Checkpoint) :
    (p.flush checkpoint).state.clearState = (p.flush checkpoint).state := by
  obtain ⟨haggregate, hpeer⟩ := p.flush_aggregate checkpoint
  rw [clearState, ← haggregate, ← hpeer]

/-- **A rejected input leaves no trace.**  If the aggregate has no room for a view, and aggregating
the view gets to newer data for no stream of it, then the flush at the checkpoint is the flush that
a flush before the input would have been.  If the view is given up, nothing else remains of it. -/
theorem rejected_leaves_no_trace (p : TemporalReaggregationProcessor A X H)
    (view : MetricsView A X) (error : AggregationError) (aggregate : Aggregate A X H)
    (hview : classifyMetrics view = true)
    (hfail : aggregateView p.settings view p.aggregate = (.error error, aggregate))
    (hnew : ¬p.aggregate.Overwritten p.settings view) :
    { p with aggregate }.flush (some p.aggregate.builder.checkpoint) = p.flush none ∧
      (p.processView view).effects = (p.flush none).effects ∧
      ∀ error', (p.processView view).result = .error (.aggregationRetryFailed error') →
        (p.processView view).state = (p.flush none).state := by
  have hgrown : p.aggregate.Grown aggregate :=
    (grown_aggregateView hnew p.aggregate rfl).2 error aggregate hfail
  have hflush := flush_congr hgrown.tables.finish
  refine ⟨hflush, ?_⟩
  rw [processView, if_pos hview, hfail]
  dsimp only
  rw [hflush]
  cases herror : (p.flush none).error with
  | some engine => exact ⟨rfl, nofun⟩
  | none =>
    rcases hretry : aggregateView p.settings view (p.flush none).state.aggregate with
      ⟨_ | result, s'⟩
    · exact ⟨rfl, fun _ _ => p.clearState_flush none⟩
    · exact ⟨rfl, nofun⟩

/-! ## Example -/

/-- A gauge with one data point for each stream: attribute, time and value. -/
def gaugeView (points : List (Nat × Nat × Nat)) : MetricsView Nat Nat :=
  [⟨none, none, [⟨none, [], [⟨[1], [], [], some (.gauge
    (points.map fun (stream, time, value) => ⟨[stream], time, value, []⟩))⟩]⟩]⟩]

/-- Streams are told apart by their attributes; one stream is allowed. -/
def oneStream : Settings Nat (List Nat) := ⟨id, [], 1⟩

def smallConfig : Config := ⟨60, 10, 10⟩

def gaugeRequest (points : List (Nat × Nat × Nat)) : Action Nat Nat :=
  ⟨.request true none (.metrics (.ok (gaugeView points))), 0⟩

/-- The data points in the aggregates that are sent. -/
def sentPoints (effects : List (Effect (Content Nat Nat))) : List (List (PointRow Nat)) :=
  effects.filterMap fun effect =>
    match effect with
    | .sendMessage ⟨.aggregate records, _, _⟩ => some (records.points .number).rows
    | _ => none

/-- The processor after one input with one stream. -/
def afterOne : System Nat Nat (List Nat) :=
  Machine.final System.step (System.init oneStream smallConfig) [gaugeRequest [(7, 1, 10)]]

/-- An input with a new stream is given up, and the aggregate that is flushed is untouched: the
newer data for the stream that it has comes behind the new one. -/
theorem rejected_leaves_no_trace_two_streams :
    sentPoints (afterOne.proc.processView (gaugeView [(8, 2, 30), (7, 2, 20)])).effects =
        sentPoints (afterOne.proc.flush none).effects ∧
      sentPoints (afterOne.proc.flush none).effects = [[⟨0, 0, 1, 10⟩]] := by
  refine ⟨congrArg sentPoints (afterOne.proc.rejected_leaves_no_trace _ .streamCardinalityExceeded _
    rfl rfl ?_).2.1, by decide⟩
  rintro ⟨id, dp, stream, ⟨rm, sm, metric, l₁, s₁, l₂, s₂, l₃, s₃, hrm, hsm, hmetric, hpoint⟩,
    hstream, -⟩
  obtain ⟨rfl, rfl, rfl⟩ := hrm.of_singleton
  obtain ⟨rfl, rfl, rfl⟩ := hsm.of_singleton
  obtain ⟨rfl, rfl, rfl⟩ := hmetric.of_singleton
  obtain ⟨data, resource, scope, metricId, s₁, s₂, s₃, s₄, ⟨⟩, -, ⟨⟩, ⟨⟩, ⟨⟩,
    ⟨pre, post, hpoints, hloop⟩, rfl⟩ := hpoint
  match pre with
  | [] =>
    obtain ⟨rfl, -⟩ := cons.inj hpoints
    cases hstream
  | first :: pre =>
    obtain ⟨rfl, -⟩ := cons.inj hpoints
    cases hloop

/-- The second input has newer data for the stream of the first and, behind it, another stream.  It
is nacked, and its value is in the aggregate that is sent for the first. -/
theorem nacked_value_is_sent :
    sentPoints (afterOne.step (gaugeRequest [(7, 2, 20), (8, 2, 30)])).2 = [[⟨0, 0, 2, 20⟩]] ∧
      sentPoints (afterOne.proc.flush none).effects = [[⟨0, 0, 1, 10⟩]] ∧
      (afterOne.step (gaugeRequest [(7, 2, 20), (8, 2, 30)])).1.outcomes =
        [(1, .nack (.newPermanent "Failed to aggregate batch: Stream cardinality exceeded"))] := by
  decide +kernel

end TemporalReaggregationProcessor

end OtapDataflow.Reaggregation
