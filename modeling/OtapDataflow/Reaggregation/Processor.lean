import OtapDataflow.Lib.Bytes
import OtapDataflow.Lib.Fallible
import OtapDataflow.Lib.Slots
import OtapDataflow.Node.Message
import OtapDataflow.Lib.Machine

/-! # Aggregating metrics

The temporal reaggregation processor folds the data points of its inputs into one batch in the
making: the resources, scopes and metrics that it has seen get a row each, and every stream keeps
the row of its newest data point.

Data that is only copied into a row has a type of its own (`X`): of a data point these are all
fields but its attributes and its time, and of an exemplar all fields but its attributes.
Attributes (`A`) are copied, and hashed for identities (`H`). -/

/-- A finite map that is known by its lookups, as a hash map is. -/
abbrev OtapDataflow.Table (κ β : Type) := Finmap fun _ : κ => β

def OtapDataflow.Table.size {κ β : Type} (t : Table κ β) : Nat := t.keys.card

namespace OtapDataflow.Reaggregation

/-! ## Views -/

inductive AggregationTemporality
  | unspecified
  | delta
  | cumulative
  deriving DecidableEq, Repr

inductive DataType
  | gauge
  | sum
  | histogram
  | exponentialHistogram
  | summary
  deriving DecidableEq, Repr

structure Exemplar (A X : Type) where
  attributes : List A
  fields : X

structure DataPoint (A X : Type) where
  attributes : List A
  timeUnixNano : Nat
  fields : X
  exemplars : List (Exemplar A X)

inductive Data (A X : Type)
  | gauge (points : List (DataPoint A X))
  | sum (temporality : AggregationTemporality) (isMonotonic : Bool) (points : List (DataPoint A X))
  | histogram (temporality : AggregationTemporality) (points : List (DataPoint A X))
  | exponentialHistogram (temporality : AggregationTemporality) (points : List (DataPoint A X))
  | summary (points : List (DataPoint A X))

structure Metric (A X : Type) where
  name : Bytes
  description : Bytes
  unit : Bytes
  data : Option (Data A X)

structure Scope (A : Type) where
  name : Option Bytes
  version : Option Bytes
  attributes : List A
  droppedAttributesCount : Nat

structure ScopeMetrics (A X : Type) where
  scope : Option (Scope A)
  schemaUrl : Bytes
  metrics : List (Metric A X)

structure Resource (A : Type) where
  attributes : List A
  droppedAttributesCount : Nat

structure ResourceMetrics (A X : Type) where
  resource : Option (Resource A)
  schemaUrl : Option Bytes
  scopes : List (ScopeMetrics A X)

abbrev MetricsView (A X : Type) := List (ResourceMetrics A X)

namespace Data

variable {A X : Type}

/-- Data type, aggregation temporality and monotonicity, as they identify a metric. -/
def metricTypeInfoOf : Data A X → DataType × AggregationTemporality × Bool
  | .gauge _ => (.gauge, .unspecified, false)
  | .sum temporality isMonotonic _ => (.sum, temporality, isMonotonic)
  | .histogram temporality _ => (.histogram, temporality, true)
  | .exponentialHistogram temporality _ => (.exponentialHistogram, temporality, true)
  | .summary _ => (.summary, .unspecified, false)

def isAggregatable : Data A X → Bool
  | .gauge _ => true
  | .sum temporality isMonotonic _ => temporality = .cumulative && isMonotonic
  | .histogram temporality _ => temporality = .cumulative
  | .exponentialHistogram temporality _ => temporality = .cumulative
  | .summary _ => true

end Data

/-! ## Identities -/

structure ResourceId (H : Type) where
  attrs : H
  deriving DecidableEq

structure ScopeId (H : Type) where
  resource : ResourceId H
  name : Bytes
  version : Bytes
  attrs : H
  deriving DecidableEq

structure MetricId (H : Type) where
  scope : ScopeId H
  name : Bytes
  unit : Bytes
  dataType : DataType
  isMonotonic : Bool
  aggregationTemporality : AggregationTemporality
  deriving DecidableEq

structure StreamId (H : Type) where
  metric : MetricId H
  attrs : H
  deriving DecidableEq

/-- The hash of attributes, and the limit of the configuration. -/
structure Settings (A H : Type) where
  hash : List A → H
  emptyHash : H
  maxStreamCardinality : Nat

namespace Settings

variable {A H X : Type} (settings : Settings A H)

def resourceIdOf (resource : Option (Resource A)) : ResourceId H :=
  ⟨(resource.map fun r => settings.hash r.attributes).getD settings.emptyHash⟩

def scopeIdOf (resourceId : ResourceId H) (scope : Option (Scope A)) : ScopeId H where
  resource := resourceId
  name := (scope.bind (·.name)).getD []
  version := (scope.bind (·.version)).getD []
  attrs := (scope.map fun s => settings.hash s.attributes).getD settings.emptyHash

def streamIdOf (metricId : MetricId H) (attributes : List A) : StreamId H :=
  ⟨metricId, settings.hash attributes⟩

end Settings

def metricIdOf {A H X : Type} (scopeId : ScopeId H) (metric : Metric A X) (data : Data A X) :
    MetricId H where
  scope := scopeId
  name := metric.name
  unit := metric.unit
  dataType := data.metricTypeInfoOf.1
  isMonotonic := data.metricTypeInfoOf.2.2
  aggregationTemporality := data.metricTypeInfoOf.2.1

/-! ## Tables of a batch -/

/-- Gauges and sums share the table of number data points. -/
inductive PointKind
  | number
  | histogram
  | exponentialHistogram
  | summary
  deriving DecidableEq, Repr

def DataType.kind : DataType → PointKind
  | .gauge => .number
  | .sum => .number
  | .histogram => .histogram
  | .exponentialHistogram => .exponentialHistogram
  | .summary => .summary

structure MetricRow where
  id : Nat
  resourceId : Nat
  resourceSchemaUrl : Bytes
  resourceDroppedAttributesCount : Nat
  scopeId : Nat
  scopeName : Option Bytes
  scopeVersion : Option Bytes
  scopeDroppedAttributesCount : Nat
  scopeSchemaUrl : Bytes
  metricType : DataType
  name : Bytes
  description : Bytes
  unit : Bytes
  aggregationTemporality : Option AggregationTemporality
  isMonotonic : Bool
  deriving DecidableEq

structure AttributeRow (A : Type) where
  parentId : Nat
  value : A
  deriving DecidableEq

structure PointRow (X : Type) where
  id : Nat
  parentId : Nat
  timeUnixNano : Nat
  fields : X
  deriving DecidableEq

structure ExemplarRow (X : Type) where
  id : Nat
  parentId : Nat
  fields : X
  deriving DecidableEq

structure PointTables (A X : Type) where
  rows : List (PointRow X)
  attrs : List (AttributeRow A)
  exemplars : List (ExemplarRow X)
  exemplarAttrs : List (AttributeRow A)
  deriving DecidableEq

/-- The tables of a metrics batch; also what it is finished into. -/
structure MetricSignalBuilder (A X : Type) where
  metrics : List MetricRow
  resourceAttrs : List (AttributeRow A)
  scopeAttrs : List (AttributeRow A)
  points : PointKind → PointTables A X

structure PointLengths where
  rows : Nat
  attrs : Nat
  exemplars : Nat
  exemplarAttrs : Nat

/-- The lengths of the tables. -/
structure Checkpoint where
  metrics : Nat
  resourceAttrs : Nat
  scopeAttrs : Nat
  points : PointKind → PointLengths

def encodeAttributes {A : Type} (parentId : Nat) (attributes : List A) : List (AttributeRow A) :=
  attributes.map fun value => ⟨parentId, value⟩

namespace PointTables

variable {A X : Type}

def empty : PointTables A X := ⟨[], [], [], []⟩

def lengths (t : PointTables A X) : PointLengths :=
  ⟨t.rows.length, t.attrs.length, t.exemplars.length, t.exemplarAttrs.length⟩

def truncate (t : PointTables A X) (lengths : PointLengths) : PointTables A X :=
  ⟨t.rows.take lengths.rows, t.attrs.take lengths.attrs, t.exemplars.take lengths.exemplars,
    t.exemplarAttrs.take lengths.exemplarAttrs⟩

/-- A new row with the attributes of the data point. -/
def append (t : PointTables A X) (id metricId : Nat) (dp : DataPoint A X) : PointTables A X :=
  { t with
    rows := t.rows ++ [⟨id, metricId, dp.timeUnixNano, dp.fields⟩]
    attrs := t.attrs ++ encodeAttributes id dp.attributes }

/-- Newer data in a row.  The attributes are part of the identity of the stream and stay. -/
def replace (t : PointTables A X) (row : Nat) (dp : DataPoint A X) : PointTables A X :=
  { t with
    rows := t.rows.modify row fun old =>
      { old with timeUnixNano := dp.timeUnixNano, fields := dp.fields } }

def appendExemplar (t : PointTables A X) (id parentId : Nat) (exemplar : Exemplar A X) :
    PointTables A X :=
  { t with
    exemplars := t.exemplars ++ [⟨id, parentId, exemplar.fields⟩]
    exemplarAttrs := t.exemplarAttrs ++ encodeAttributes id exemplar.attributes }

end PointTables

namespace MetricSignalBuilder

variable {A X : Type}

def empty : MetricSignalBuilder A X := ⟨[], [], [], fun _ => .empty⟩

variable (b : MetricSignalBuilder A X)

/-- No row in the table of metrics. -/
def isEmpty : Bool := b.metrics.isEmpty

def checkpoint : Checkpoint :=
  ⟨b.metrics.length, b.resourceAttrs.length, b.scopeAttrs.length, fun kind =>
    (b.points kind).lengths⟩

/-- The finished batch, cut back to a checkpoint if there is one. -/
def finish : Option Checkpoint → MetricSignalBuilder A X
  | none => b
  | some c =>
    ⟨b.metrics.take c.metrics, b.resourceAttrs.take c.resourceAttrs, b.scopeAttrs.take c.scopeAttrs,
      fun kind => (b.points kind).truncate (c.points kind)⟩

def appendResource (id : Nat) (resource : Option (Resource A)) :
    MetricSignalBuilder A X :=
  match resource with
  | none => b
  | some r => { b with resourceAttrs := b.resourceAttrs ++ encodeAttributes id r.attributes }

def appendScope (id : Nat) (scope : Option (Scope A)) :
    MetricSignalBuilder A X :=
  match scope with
  | none => b
  | some s => { b with scopeAttrs := b.scopeAttrs ++ encodeAttributes id s.attributes }

def appendMetric (id : Nat) (metric : Metric A X) (data : Data A X)
    (resourceId : Nat) (rm : ResourceMetrics A X) (scopeId : Nat) (sm : ScopeMetrics A X) :
    MetricSignalBuilder A X :=
  { b with
    metrics := b.metrics ++ [{
      id
      resourceId
      resourceSchemaUrl := rm.schemaUrl.getD []
      resourceDroppedAttributesCount := (rm.resource.map (·.droppedAttributesCount)).getD 0
      scopeId
      scopeName := sm.scope.bind (·.name)
      scopeVersion := sm.scope.bind (·.version)
      scopeDroppedAttributesCount := (sm.scope.map (·.droppedAttributesCount)).getD 0
      scopeSchemaUrl := sm.schemaUrl
      metricType := data.metricTypeInfoOf.1
      name := metric.name
      description := metric.description
      unit := metric.unit
      aggregationTemporality :=
        if data.metricTypeInfoOf.2.1 = .unspecified then none else some data.metricTypeInfoOf.2.1
      isMonotonic := data.metricTypeInfoOf.2.2 }] }

/-- Change the tables of one kind of data points. -/
def onPoints (kind : PointKind)
    (f : PointTables A X → PointTables A X) : MetricSignalBuilder A X :=
  { b with points := Function.update b.points kind (f (b.points kind)) }

end MetricSignalBuilder

/-! ## The state of aggregation -/

inductive AggregationError
  | idOverflow
  | streamCardinalityExceeded
  deriving DecidableEq, Repr

def u16Max : Nat := 65535

def u32Max : Nat := 4294967295

/-- The next id for each table. -/
structure OtapIdState where
  resource : Nat
  scope : Nat
  metric : Nat
  point : PointKind → Nat
  exemplar : PointKind → Nat

def OtapIdState.default : OtapIdState := ⟨0, 0, 0, fun _ => 0, fun _ => 0⟩

structure StreamMeta where
  dpRowIndex : Nat
  timeUnixNano : Nat
  deriving DecidableEq

/-- The batch in the making: the ids that were given out, and the tables. -/
structure Aggregate (A X H : Type) where
  resources : Table (ResourceId H) Nat
  scopes : Table (ScopeId H) Nat
  metrics : Table (MetricId H) Nat
  streams : Table (StreamId H) StreamMeta
  next : OtapIdState
  builder : MetricSignalBuilder A X

def Aggregate.new {A X H : Type} : Aggregate A X H := ⟨∅, ∅, ∅, ∅, .default, .empty⟩

abbrev Aggregating (A X H α : Type) := Fallible AggregationError (Aggregate A X H) α

variable {A X H : Type} [DecidableEq H]

def processResource (rid : ResourceId H) (view : Option (Resource A)) : Aggregating A X H Nat :=
  fun s =>
    match s.resources.lookup rid with
    | some id => (.ok id, s)
    | none =>
      let id := s.next.resource
      if id = u16Max then (.error .idOverflow, s)
      else
        (.ok id, { s with
          next := { s.next with resource := id + 1 }
          builder := s.builder.appendResource id view
          resources := s.resources.insert rid id })

def processScope (sid : ScopeId H) (view : Option (Scope A)) : Aggregating A X H Nat :=
  fun s =>
    match s.scopes.lookup sid with
    | some id => (.ok id, s)
    | none =>
      let id := s.next.scope
      if id = u16Max then (.error .idOverflow, s)
      else
        (.ok id, { s with
          next := { s.next with scope := id + 1 }
          builder := s.builder.appendScope id view
          scopes := s.scopes.insert sid id })

def processMetric (metricId : MetricId H) (metric : Metric A X) (data : Data A X)
    (resourceId : Nat) (rm : ResourceMetrics A X) (scopeId : Nat) (sm : ScopeMetrics A X) :
    Aggregating A X H Nat :=
  fun s =>
    match s.metrics.lookup metricId with
    | some id => (.ok id, s)
    | none =>
      let id := s.next.metric
      if id = u16Max then (.error .idOverflow, s)
      else
        (.ok id, { s with
          next := { s.next with metric := id + 1 }
          builder := s.builder.appendMetric id metric data resourceId rm scopeId sm
          metrics := s.metrics.insert metricId id })

/-- A data point of a stream: newer data replaces the row of the stream, a new stream gets a row. -/
def processDp (kind : PointKind) (settings : Settings A H) (dp : DataPoint A X)
    (streamId : StreamId H) (metricId : Nat) : Aggregating A X H Unit :=
  fun s =>
    match s.streams.lookup streamId with
    | some stream =>
      if stream.timeUnixNano < dp.timeUnixNano then
        (.ok (), { s with
          streams := s.streams.insert streamId { stream with timeUnixNano := dp.timeUnixNano }
          builder := s.builder.onPoints kind (·.replace stream.dpRowIndex dp) })
      else (.ok (), s)
    | none =>
      if settings.maxStreamCardinality ≤ s.streams.size then
        (.error .streamCardinalityExceeded, s)
      else if s.next.point kind = u32Max then (.error .idOverflow, s)
      else
        (.ok (), { s with
          next := { s.next with
            point := Function.update s.next.point kind (s.next.point kind + 1) }
          streams := s.streams.insert streamId
            ⟨(s.builder.points kind).rows.length, dp.timeUnixNano⟩
          builder := s.builder.onPoints kind (·.append (s.next.point kind) metricId dp) })

variable (settings : Settings A H)

def processNumberDp (dp : DataPoint A X) (streamId : StreamId H)
    (metricId : Nat) : Aggregating A X H Unit :=
  processDp .number settings dp streamId metricId

def processHistogramDp (dp : DataPoint A X) (streamId : StreamId H)
    (metricId : Nat) : Aggregating A X H Unit :=
  processDp .histogram settings dp streamId metricId

def processExpHistogramDp (dp : DataPoint A X) (streamId : StreamId H)
    (metricId : Nat) : Aggregating A X H Unit :=
  processDp .exponentialHistogram settings dp streamId metricId

def processSummaryDp (dp : DataPoint A X) (streamId : StreamId H)
    (metricId : Nat) : Aggregating A X H Unit :=
  processDp .summary settings dp streamId metricId

/-- The loop over the data points of a metric. -/
def processDps (process : DataPoint A X → StreamId H → Nat → Aggregating A X H Unit)
    (settings : Settings A H) (metricId : MetricId H) (id : Nat) (points : List (DataPoint A X)) :
    Aggregating A X H Unit :=
  Fallible.loop (fun _ dp => process dp (settings.streamIdOf metricId dp.attributes) id) () points

def processAggregatableDatapoints (data : Data A X)
    (metricId : MetricId H) (id : Nat) : Aggregating A X H Unit :=
  match data with
  | .gauge points => processDps (processNumberDp settings) settings metricId id points
  | .sum _ _ points => processDps (processNumberDp settings) settings metricId id points
  | .histogram _ points => processDps (processHistogramDp settings) settings metricId id points
  | .exponentialHistogram _ points =>
    processDps (processExpHistogramDp settings) settings metricId id points
  | .summary points => processDps (processSummaryDp settings) settings metricId id points

/-! ## The passthrough batch -/

/-- A batch of the metrics of one input that cannot be aggregated. -/
structure Passthrough (A X : Type) where
  next : OtapIdState
  builder : MetricSignalBuilder A X

def Passthrough.new : Passthrough A X := ⟨.default, .empty⟩

def nextId16 (counter : Nat) : Except AggregationError Nat :=
  if counter = u16Max then .error .idOverflow else .ok counter

def nextId32 (counter : Nat) : Except AggregationError Nat :=
  if counter = u32Max then .error .idOverflow else .ok counter

def appendExemplars (kind : PointKind) (dpId : Nat) :
    List (Exemplar A X) → Passthrough A X → Except AggregationError (Passthrough A X)
  | [], pt => .ok pt
  | exemplar :: exemplars, pt => do
    let id ← nextId32 (pt.next.exemplar kind)
    appendExemplars kind dpId exemplars
      { next := { pt.next with exemplar := Function.update pt.next.exemplar kind (id + 1) }
        builder := pt.builder.onPoints kind (·.appendExemplar id dpId exemplar) }

/-- The data points of a passthrough metric; summaries have no exemplars. -/
def appendDps (kind : PointKind) (metricId : Nat) :
    List (DataPoint A X) → Passthrough A X → Except AggregationError (Passthrough A X)
  | [], pt => .ok pt
  | dp :: dps, pt => do
    let id ← nextId32 (pt.next.point kind)
    let appended : Passthrough A X :=
      { next := { pt.next with point := Function.update pt.next.point kind (id + 1) }
        builder := pt.builder.onPoints kind (·.append id metricId dp) }
    let pt ← if kind = .summary then .ok appended
      else appendExemplars kind id dp.exemplars appended
    appendDps kind metricId dps pt

def appendPassthroughDatapoints (data : Data A X) (metricId : Nat) (pt : Passthrough A X) :
    Except AggregationError (Passthrough A X) :=
  match data with
  | .gauge points => appendDps .number metricId points pt
  | .sum _ _ points => appendDps .number metricId points pt
  | .histogram _ points => appendDps .histogram metricId points pt
  | .exponentialHistogram _ points => appendDps .exponentialHistogram metricId points pt
  | .summary points => appendDps .summary metricId points pt

/-! ## A view -/

inductive AggregationResult (A X : Type)
  /-- Nothing in the batch can be aggregated: forward the original. -/
  | noAggregations
  /-- The rest, to be sent right away. -/
  | someAggregations (records : MetricSignalBuilder A X)
  | allAggregated

/-- The local variables of the loops.  Resources and scopes get their ids when the first metric
needs them. -/
structure Locals (A X H : Type) where
  aggResource : Option (Nat × ResourceId H)
  ptResource : Option Nat
  aggScope : Option (Nat × ScopeId H)
  ptScope : Option Nat
  passthrough : Passthrough A X

def aggResourceOf (rm : ResourceMetrics A X) :
    Option (Nat × ResourceId H) → Aggregating A X H (Nat × ResourceId H)
  | some resource => pure resource
  | none => do
    let rid := settings.resourceIdOf rm.resource
    let id ← processResource rid rm.resource
    pure (id, rid)

def aggScopeOf (rid : ResourceId H) (sm : ScopeMetrics A X) :
    Option (Nat × ScopeId H) → Aggregating A X H (Nat × ScopeId H)
  | some scope => pure scope
  | none => do
    let sid := settings.scopeIdOf rid sm.scope
    let id ← processScope sid sm.scope
    pure (id, sid)

/-- A metric that can be aggregated. -/
def aggregateData (rm : ResourceMetrics A X) (sm : ScopeMetrics A X)
    (metric : Metric A X) (data : Data A X) (locals : Locals A X H) :
    Aggregating A X H (Locals A X H) := do
  let resource ← aggResourceOf settings rm locals.aggResource
  let scope ← aggScopeOf settings resource.2 sm locals.aggScope
  let metricId := metricIdOf scope.2 metric data
  let id ← processMetric metricId metric data resource.1 rm scope.1 sm
  let () ← processAggregatableDatapoints settings data metricId id
  pure { locals with aggResource := some resource, aggScope := some scope }

def ptResourceOf (rm : ResourceMetrics A X) (pt : Passthrough A X) :
    Option Nat → Except AggregationError (Nat × Passthrough A X)
  | some id => .ok (id, pt)
  | none => do
    let id ← nextId16 pt.next.resource
    .ok (id, ⟨{ pt.next with resource := id + 1 }, pt.builder.appendResource id rm.resource⟩)

def ptScopeOf (sm : ScopeMetrics A X) (pt : Passthrough A X) :
    Option Nat → Except AggregationError (Nat × Passthrough A X)
  | some id => .ok (id, pt)
  | none => do
    let id ← nextId16 pt.next.scope
    .ok (id, ⟨{ pt.next with scope := id + 1 }, pt.builder.appendScope id sm.scope⟩)

/-- A metric that cannot. -/
def passData (rm : ResourceMetrics A X) (sm : ScopeMetrics A X) (metric : Metric A X)
    (data : Data A X) (locals : Locals A X H) : Except AggregationError (Locals A X H) := do
  let resource ← ptResourceOf rm locals.passthrough locals.ptResource
  let scope ← ptScopeOf sm resource.2 locals.ptScope
  let pt := scope.2
  let id ← nextId16 pt.next.metric
  let pt ← appendPassthroughDatapoints data id
    ⟨{ pt.next with metric := id + 1 },
      pt.builder.appendMetric id metric data resource.1 rm scope.1 sm⟩
  .ok { locals with ptResource := some resource.1, ptScope := some scope.1, passthrough := pt }

def aggregateMetric (rm : ResourceMetrics A X) (sm : ScopeMetrics A X)
    (locals : Locals A X H) (metric : Metric A X) : Aggregating A X H (Locals A X H) :=
  match metric.data with
  | none => pure locals
  | some data =>
    if data.isAggregatable then aggregateData settings rm sm metric data locals
    else Fallible.lift (passData rm sm metric data locals)

def aggregateScope (rm : ResourceMetrics A X) (locals : Locals A X H)
    (sm : ScopeMetrics A X) : Aggregating A X H (Locals A X H) :=
  Fallible.loop (aggregateMetric settings rm sm) { locals with aggScope := none, ptScope := none }
    sm.metrics

def aggregateResource (locals : Locals A X H)
    (rm : ResourceMetrics A X) : Aggregating A X H (Locals A X H) :=
  Fallible.loop (aggregateScope settings rm)
    { locals with aggResource := none, ptResource := none } rm.scopes

def aggregateView (view : MetricsView A X) :
    Aggregating A X H (AggregationResult A X) := do
  let locals ← Fallible.loop (aggregateResource settings) ⟨none, none, none, none, .new⟩ view
  if locals.passthrough.next.metric = 0 then pure .allAggregated
  else pure (.someAggregations (locals.passthrough.builder.finish none))

/-- The metrics of a view that have data. -/
def metricsOf (view : MetricsView A X) : List (Data A X) :=
  view.flatMap fun rm => rm.scopes.flatMap fun sm => sm.metrics.filterMap (·.data)

/-- Whether there is anything to aggregate. -/
def classifyMetrics (view : MetricsView A X) : Bool := (metricsOf view).any (·.isAggregatable)

/-! # The temporal reaggregation processor

Inputs are folded into the aggregate (`Aggregate`) until a wakeup, an overflow or the shutdown
flushes it.  A tracked input waits in an inbound slot for the aggregate and, if a part of it could
not be aggregated, for the passthrough output with that part.

What the clock says and how the scheduler answers a request for a wakeup are given with each message
(`Env`); the scheduler is asked at most once.  Sending never fails here. -/

open Node

inductive WakeupError
  | unsupported
  | shuttingDown
  | capacity
  deriving DecidableEq, Repr

/-- The name of the error in messages. -/
def WakeupError.text : WakeupError → String
  | .unsupported => "Unsupported"
  | .shuttingDown => "ShuttingDown"
  | .capacity => "Capacity"

/-- Why there is no view of the data of an input. -/
inductive ViewError
  | codec (error : String)
  | records (error : String)
  deriving DecidableEq, Repr

inductive Payload (A X : Type)
  | metrics (view : Except ViewError (MetricsView A X))
  /-- Logs and traces. -/
  | other

/-- What an output is made of: an input as it is, the part of an input that cannot be aggregated, or
the aggregate. -/
inductive Content (A X : Type)
  | input (payload : Payload A X)
  | passthrough (records : MetricSignalBuilder A X)
  | aggregate (records : MetricSignalBuilder A X)

structure Config where
  period : Nat
  inboundRequestLimit : Nat
  outboundRequestLimit : Nat

structure InboundTracker where
  ctx : Context
  /-- Outputs that were not acked yet. -/
  pendingAcks : Nat
  /-- Whether the aggregate with the data of the input was flushed. -/
  flushed : Bool
  deriving DecidableEq, Repr

structure TemporalReaggregationProcessor (A X H : Type) where
  settings : Settings A H
  period : Nat
  wakeupRevision : Option Nat
  aggregate : Aggregate A X H
  inboundBatches : Slots InboundTracker
  pendingFlush : List CallData
  aggregatedPeer : PeerAddrMerger
  outboundBatches : Slots (List CallData)

structure Env where
  now : Nat
  setWakeup : Except WakeupError Nat

/-- A key is call data of one word. -/
def keyOf : CallData → Option Nat
  | [key] => some key
  | _ => none

def aggregationErrorText : AggregationError → String
  | .idOverflow => "Id overflow"
  | .streamCardinalityExceeded => "Stream cardinality exceeded"

def ViewError.reason : ViewError → String
  | .codec error => error
  | .records error => "Failed to create view: " ++ error

inductive Input (A X : Type)
  | pdata (ctx : Context) (payload : Payload A X)
  | ack (callData : CallData)
  | nack (callData : CallData) (refusal : Refusal)
  | wakeup (revision : Nat)
  | shutdown
  | otherControl

inductive ProcessingError
  | engine (error : EngineError)
  | aggregationRetryFailed (error : AggregationError)

/-- What came of the view of an input. -/
structure Viewed (A X H : Type) where
  state : TemporalReaggregationProcessor A X H
  effects : List (Effect (Content A X))
  result : Except ProcessingError (AggregationResult A X)

namespace TemporalReaggregationProcessor

variable {A X H : Type}

abbrev Done (A X H : Type) := Handled (TemporalReaggregationProcessor A X H) (Content A X)

def fromConfig (settings : Settings A H) (config : Config) :
    TemporalReaggregationProcessor A X H where
  settings := settings
  period := config.period
  wakeupRevision := none
  aggregate := .new
  inboundBatches := .new config.inboundRequestLimit
  pendingFlush := []
  aggregatedPeer := .empty
  outboundBatches := .new config.outboundRequestLimit

section

variable (p : TemporalReaggregationProcessor A X H)

/-! ## Replies -/

/-- An ack for one of the inputs of an output. -/
def ackInbound (callData : CallData) : Done A X H :=
  match keyOf callData with
  | none => ⟨p, [], some (.panic "valid key")⟩
  | some key =>
    match p.inboundBatches.get? key with
    | none => ⟨p, [], none⟩
    | some tracker =>
      match tracker.pendingAcks, tracker.flushed with
      | 0, true => ⟨p, [], some (.panic "Flushed tracker with 0 outbounds")⟩
      | 0, false => ⟨p, [], none⟩
      | 1, true =>
        ⟨{ p with inboundBatches := p.inboundBatches.erase key }, [.notifyAck tracker.ctx none],
          none⟩
      | 1, false | 2, true =>
        ⟨{ p with inboundBatches := p.inboundBatches.modify key fun t =>
          { t with pendingAcks := t.pendingAcks - 1 } }, [], none⟩
      | 2, false => ⟨p, [], some (.panic "Unflushed tracker with > 1 outbound")⟩
      | _, _ => ⟨p, [], some (.panic "We can never have more than two outbounds for a batch")⟩

def nackInbound (refusal : Refusal)
    (callData : CallData) : Done A X H :=
  match keyOf callData with
  | none => ⟨p, [], some (.panic "valid slot key")⟩
  | some key =>
    match p.inboundBatches.get? key with
    | none => ⟨p, [], none⟩
    | some tracker =>
      ⟨{ p with inboundBatches := p.inboundBatches.erase key },
        [.notifyNack tracker.ctx none (.new refusal.reason)], none⟩

/-- One inbound after the other; a panic ends the loop. -/
def onInbounds (p : TemporalReaggregationProcessor A X H)
    (op : TemporalReaggregationProcessor A X H → CallData → Done A X H) :
    List CallData → Done A X H
  | [] => ⟨p, [], none⟩
  | callData :: rest =>
    let first := op p callData
    match first.error with
    | some error => ⟨first.state, first.effects, some error⟩
    | none =>
      let others := first.state.onInbounds op rest
      ⟨others.state, first.effects ++ others.effects, others.error⟩

/-- The reply to an output.  Call data that names no output is ignored. -/
def handleReply (callData : CallData)
    (op : TemporalReaggregationProcessor A X H → CallData → Done A X H) : Done A X H :=
  match keyOf callData with
  | none => ⟨p, [], none⟩
  | some key =>
    match p.outboundBatches.get? key with
    | none => ⟨p, [], none⟩
    | some inbounds =>
      { p with outboundBatches := p.outboundBatches.erase key }.onInbounds op inbounds

def handleAck (callData : CallData) : Done A X H :=
  p.handleReply callData ackInbound

def handleNack (callData : CallData)
    (refusal : Refusal) : Done A X H :=
  p.handleReply callData fun p => p.nackInbound refusal

/-! ## Wakeups -/

def flushWakeupSlot : Nat := 0

/-- The shutdown message flushes what a wakeup after the latch would have flushed. -/
def scheduleWakeup (env : Env) : Done A X H :=
  let request : List (Effect (Content A X)) := [.setWakeup flushWakeupSlot (env.now + p.period)]
  match env.setWakeup with
  | .ok revision => ⟨{ p with wakeupRevision := some revision }, request, none⟩
  | .error .shuttingDown => ⟨p, request, none⟩
  | .error error =>
    ⟨p, request, some (.processorError ("could not set wakeup: " ++ error.text))⟩

def cancelCurrentWakeup :
    TemporalReaggregationProcessor A X H × List (Effect (Content A X)) :=
  if p.wakeupRevision.isSome then
    ({ p with wakeupRevision := none }, [.cancelWakeup flushWakeupSlot])
  else (p, [])

/-- Cancel the wakeup and schedule a new one. -/
def resetWakeup (env : Env) : Done A X H :=
  let cancelled := p.cancelCurrentWakeup
  let scheduled := cancelled.1.scheduleWakeup env
  ⟨scheduled.state, cancelled.2 ++ scheduled.effects, scheduled.error⟩

def ensureWakeupScheduled (env : Env) : Done A X H :=
  if p.wakeupRevision.isNone then p.resetWakeup env else ⟨p, [], none⟩

/-- Take the input in: a slot, a wakeup, and a place in the pending flush. -/
def recordPendingAndHandleWakeup (env : Env)
    (tracker : InboundTracker) : Done A X H :=
  if p.inboundBatches.hasCapacity then
    let key := p.inboundBatches.next
    let scheduled :=
      { p with inboundBatches := p.inboundBatches.insert tracker }.ensureWakeupScheduled env
    match scheduled.error with
    | some error => ⟨scheduled.state, scheduled.effects, some error⟩
    | none =>
      ⟨{ scheduled.state with pendingFlush := scheduled.state.pendingFlush ++ [[key]] },
        scheduled.effects, none⟩
  else ⟨p, [], some (.panic "available")⟩

/-! ## Flushing -/

def clearState : TemporalReaggregationProcessor A X H :=
  { p with aggregate := .new, aggregatedPeer := .empty }

/-- The inputs of the aggregate wait for one more output. -/
def markFlushed (inbound : Slots InboundTracker) : List CallData → Option (Slots InboundTracker)
  | [] => some inbound
  | callData :: rest =>
    match keyOf callData with
    | none => none
    | some key =>
      markFlushed (inbound.modify key fun t =>
        { t with pendingAcks := t.pendingAcks + 1, flushed := true }) rest

def flush (checkpoint : Option Checkpoint) :
    Done A X H :=
  let records := p.aggregate.builder.finish checkpoint
  let mergedPeer := p.aggregatedPeer.finish
  let cancelled := p.clearState.cancelCurrentWakeup
  if records.isEmpty then ⟨cancelled.1, cancelled.2, none⟩
  else
    let pending := cancelled.1.pendingFlush
    let drained := { cancelled.1 with pendingFlush := [] }
    if pending = [] then
      ⟨drained, cancelled.2 ++ [.sendMessage ⟨.aggregate records, .unsubscribed, mergedPeer⟩], none⟩
    else if drained.outboundBatches.hasCapacity then
      match markFlushed drained.inboundBatches pending with
      | none => ⟨drained, cancelled.2, some (.panic "Valid slot key")⟩
      | some inbound =>
        ⟨{ drained with
            inboundBatches := inbound
            outboundBatches := drained.outboundBatches.insert pending },
          cancelled.2 ++ [.sendMessage
            ⟨.aggregate records, .subscribed [drained.outboundBatches.next], mergedPeer⟩], none⟩
    else ⟨drained, cancelled.2, some (.panic "available")⟩

end

/-! ## Inputs -/

variable [DecidableEq H] (p : TemporalReaggregationProcessor A X H)

/-- Aggregate a view.  If the aggregate has no room for it, flush what was there before and try
again; if it does not fit into an empty aggregate either, give up. -/
def processView (view : MetricsView A X) :
    Viewed A X H :=
  if classifyMetrics view then
    let checkpoint := p.aggregate.builder.checkpoint
    match aggregateView p.settings view p.aggregate with
    | (.ok result, aggregate) => ⟨{ p with aggregate }, [], .ok result⟩
    | (.error _, aggregate) =>
      let flushed := { p with aggregate }.flush (some checkpoint)
      match flushed.error with
      | some error => ⟨flushed.state, flushed.effects, .error (.engine error)⟩
      | none =>
        match aggregateView p.settings view flushed.state.aggregate with
        | (.ok result, aggregate) => ⟨{ flushed.state with aggregate }, flushed.effects, .ok result⟩
        | (.error error, aggregate) =>
          ⟨{ flushed.state with aggregate }.clearState, flushed.effects,
            .error (.aggregationRetryFailed error)⟩
  else ⟨p, [], .ok .noAggregations⟩

/-- What follows the aggregation. -/
def finishView (env : Env) (ctx : Context)
    (payload : Payload A X) : Except ProcessingError (AggregationResult A X) → Done A X H
  | .ok .noAggregations => ⟨p, [.sendMessage ⟨.input payload, .forwarded ctx, ctx.peerAddr⟩], none⟩
  | .ok (.someAggregations records) =>
    let p := { p with aggregatedPeer := p.aggregatedPeer.push ctx.peerAddr }
    if ctx.needsCompletionTracking then
      let recorded := p.recordPendingAndHandleWakeup env ⟨ctx, 1, false⟩
      match recorded.error with
      | some error => ⟨recorded.state, recorded.effects, some error⟩
      | none =>
        if recorded.state.outboundBatches.hasCapacity then
          ⟨{ recorded.state with
              outboundBatches := recorded.state.outboundBatches.insert [[p.inboundBatches.next]] },
            recorded.effects ++ [.sendMessage ⟨.passthrough records,
              .subscribed [recorded.state.outboundBatches.next], ctx.peerAddr⟩], none⟩
        else ⟨recorded.state, recorded.effects, some (.panic "available")⟩
    else
      let scheduled := p.ensureWakeupScheduled env
      match scheduled.error with
      | some error => ⟨scheduled.state, scheduled.effects, some error⟩
      | none =>
        ⟨scheduled.state, scheduled.effects ++
          [.sendMessage ⟨.passthrough records, .forwarded ctx, ctx.peerAddr⟩], none⟩
  | .ok .allAggregated =>
    let p := { p with aggregatedPeer := p.aggregatedPeer.push ctx.peerAddr }
    if ctx.needsCompletionTracking then p.recordPendingAndHandleWakeup env ⟨ctx, 0, false⟩
    else p.ensureWakeupScheduled env
  | .error (.engine error) => ⟨p, [], some error⟩
  | .error (.aggregationRetryFailed error) =>
    ⟨p, [.notifyNack ctx (some (.input payload))
      (.newPermanent ("Failed to aggregate batch: " ++ aggregationErrorText error))], none⟩

def processMetricPdata (env : Env) (ctx : Context)
    (payload : Payload A X) (view : Except ViewError (MetricsView A X)) : Done A X H :=
  match view with
  | .error error =>
    ⟨p, [.notifyNack ctx (some (.input payload)) (.newPermanent error.reason)], none⟩
  | .ok view =>
    let viewed := p.processView view
    let done := viewed.state.finishView env ctx payload viewed.result
    ⟨done.state, viewed.effects ++ done.effects, done.error⟩

def process (env : Env) : Input A X → Done A X H
  | .pdata ctx (.metrics view) => p.processMetricPdata env ctx (.metrics view) view
  | .pdata ctx .other => ⟨p, [.sendMessage ⟨.input .other, .forwarded ctx, ctx.peerAddr⟩], none⟩
  | .ack callData => p.handleAck callData
  | .nack callData refusal => p.handleNack callData refusal
  | .wakeup revision =>
    if p.wakeupRevision = some revision then { p with wakeupRevision := none }.flush none
    else ⟨p, [], none⟩
  | .shutdown => p.flush none
  | .otherControl => ⟨p, [], none⟩

end TemporalReaggregationProcessor

/-! # Inputs, outputs and wakeups

`System` is the processor between the senders of its inputs, the node that takes its outputs and the
scheduler of its wakeups.  With every output the inputs are recorded whose data it was made of: an
output with the aggregate was made of the inputs that were folded into it since the last one.  When
the shutdown is latched, the scheduler drops the wakeup. -/

open TemporalReaggregationProcessor

variable {A X H : Type}

/-! ## The scheduler -/

def u64Max : Nat := 18446744073709551615

/-- The scheduler with the one slot that the processor uses. -/
structure Scheduler where
  armed : Option Nat
  nextRevision : Nat
  shuttingDown : Bool
  deriving DecidableEq, Repr

namespace Scheduler

/-- The answer to a request for a wakeup. -/
def answer (s : Scheduler) : Except WakeupError Nat :=
  if s.shuttingDown then .error .shuttingDown else .ok s.nextRevision

/-- What an effect does to the scheduler. -/
def apply (s : Scheduler) : Effect (Content A X) → Scheduler
  | .setWakeup _ _ =>
    if s.shuttingDown then s
    else { s with armed := some s.nextRevision, nextRevision := min (s.nextRevision + 1) u64Max }
  | .cancelWakeup _ => if s.shuttingDown then s else { s with armed := none }
  | _ => s

def beginShutdown (s : Scheduler) : Scheduler := { s with armed := none, shuttingDown := true }

end Scheduler

/-! ## Runs -/

abbrev Event (A X : Type) := Node.Event (Payload A X) Unit

/-- An event, with the time of it. -/
structure Action (A X : Type) where
  event : Event A X
  now : Nat

/-- Content with the inputs that it was made of. -/
abbrev Traced (A X : Type) := Content A X × List Nat

structure System (A X H : Type) extends
    Node.System (TemporalReaggregationProcessor A X H) (Traced A X) where
  scheduler : Scheduler
  /-- The inputs in the aggregate. -/
  folded : List Nat

/-- The inputs that an output was made of. -/
def trace (folded request : List Nat) (message : Sent (Content A X)) : Sent (Traced A X) :=
  { message with
    payload := (message.payload,
      match message.payload with
      | .aggregate _ => folded
      | _ => request) }

def Effect.flushes : Effect (Content A X) → Bool
  | .sendMessage ⟨.aggregate _, _, _⟩ => true
  | _ => false

namespace System

def init (settings : Settings A H) (config : Config) : System A X H :=
  ⟨.init (.fromConfig settings config), ⟨none, 0, false⟩, []⟩

/-- Take in what handling a message came to; `request` is the input that is handled, and `folds`
says whether it was folded into the aggregate. -/
def record (s : System A X H) (request : List Nat) (folds : Bool) (done : Done A X H) :
    System A X H × List (Effect (Content A X)) :=
  ({ s with
      toSystem := s.toSystem.record (trace s.folded request) done
      scheduler := done.effects.foldl Scheduler.apply s.scheduler
      folded := (if done.effects.any Effect.flushes then [] else s.folded) ++
        if folds then request else [] },
    done.effects)

/-- The output has got its reply. -/
def answer (s : System A X H) (index : Nat) (outcome : Outcome) : System A X H :=
  { s with toSystem := s.toSystem.answer index outcome }

variable [DecidableEq H]

/-- Whether the processor folds the input into the aggregate. -/
def folds (s : System A X H) : Payload A X → Bool
  | .metrics (.ok view) =>
    match (s.proc.processView view).result with
    | .ok (.someAggregations _) => true
    | .ok .allAggregated => true
    | _ => false
  | _ => false

/-- The processor handles a message. -/
def handle (s : System A X H) (action : Action A X) (request : List Nat) (folds : Bool)
    (input : Input A X) : System A X H × List (Effect (Content A X)) :=
  s.record request folds (s.proc.process ⟨action.now, s.scheduler.answer⟩ input)

def step (s : System A X H) (action : Action A X) :
    System A X H × List (Effect (Content A X)) :=
  if s.failed.isSome then (s, [])
  else
    match action.event with
    | .request tracked peerAddr payload =>
      { s with requests := s.requests ++ [tracked] }.handle action [s.requests.length]
        (s.folds payload) (.pdata ⟨s.requests.length, tracked, peerAddr⟩ payload)
    | .reply index outcome =>
      match s.outputs[index]? with
      | none => (s, [])
      | some output =>
        match output.message.delivery with
        | .forwarded ctx =>
          ({ s.answer index outcome with outcomes := s.outcomes ++ [(ctx.request, outcome)] }, [])
        | .subscribed callData =>
          (s.answer index outcome).handle action [] false
            (match outcome with
            | .ack => .ack callData
            | .nack refusal => .nack callData refusal)
        | .unsubscribed => (s.answer index outcome, [])
    | .wakeup () =>
      match s.scheduler.armed with
      | none => (s, [])
      | some revision =>
        { s with scheduler := { s.scheduler with armed := none } }.handle action [] false
          (.wakeup revision)
    | .latchShutdown => ({ s with scheduler := s.scheduler.beginShutdown }, [])
    | .shutdown => s.handle action [] false .shutdown
    | .otherControl => s.handle action [] false .otherControl

end System

end OtapDataflow.Reaggregation
