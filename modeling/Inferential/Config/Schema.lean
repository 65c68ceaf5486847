import Inferential.PyStd.Dict
import Inferential.Scheduler.Request
import Mathlib.Tactic.NormNum

/-!
# Schema — the configuration values

The pydantic models of `config/schema.py`.  A `Field` constraint (`ge`, `gt`, `le`, `lt`) is a field
that proves it, so a configuration that the schema refuses cannot be built.
-/

namespace Inferential

open PyStd

structure DeadlineAwareConfig (ν : Type) where
  cadenceWeight : ν
  urgencyWeight : ν
  stepsWeight : ν
  priorityWeight : ν
  ageWeight : ν

/-- The field defaults. -/
def DeadlineAwareConfig.default {ν : Type} [Score ν] : DeadlineAwareConfig ν where
  cadenceWeight := ((45 : Rat) : ν)
  urgencyWeight := ((25 : Rat) : ν)
  stepsWeight := ((15 : Rat) : ν)
  priorityWeight := ((10 : Rat) : ν)
  ageWeight := ((15 : Rat) : ν)

structure BatchConfig where
  maxBatchSize : Nat := 8
  maxWaitMs : Rat := 10
  maxBatchSize_ge : 1 ≤ maxBatchSize := by decide
  maxWaitMs_gt : 0 < maxWaitMs := by decide +kernel

structure TieredConfig where
  numTiers : Nat := 3
  numTiers_ge : 1 ≤ numTiers := by decide

structure PipelineDispatchConfig where
  enabled : Bool := false

structure PredictivePreDispatchConfig where
  enabled : Bool := false
  lookaheadMs : Rat := 5
  minCadenceSamples : Nat := 5
  lookaheadMs_gt : 0 < lookaheadMs := by decide +kernel
  minCadenceSamples_ge : 2 ≤ minCadenceSamples := by decide

structure ModelConfig where
  maxInflight : Nat := 2
  maxInflight_ge : 1 ≤ maxInflight := by decide

structure ModelsConfig where
  known : Dict String ModelConfig := Dict.empty
  defaultMaxInflight : Nat := 2
  defaultMaxInflight_ge : 1 ≤ defaultMaxInflight := by decide

/-- `Literal["drop_oldest", "reject_newest"]` -/
inductive OverflowPolicy
  | dropOldest
  | rejectNewest
  deriving DecidableEq, Repr

structure SchedulingConfig (ν : Type) [Score ν] where
  strategy : String := "model_deadline"
  maxQueueSize : Nat := 1000
  requestTtlMs : Rat := 5000
  overflowPolicy : OverflowPolicy := .dropOldest
  maxRetries : Nat := 0
  maxConcurrentDispatch : Nat := 8
  deadlineAware : DeadlineAwareConfig ν := .default
  batchOptimized : BatchConfig := {}
  priorityTiered : TieredConfig := {}
  modelDeadline : DeadlineAwareConfig ν := .default
  pipelineDispatch : PipelineDispatchConfig := {}
  predictivePreDispatch : PredictivePreDispatchConfig := {}
  maxQueueSize_ge : 1 ≤ maxQueueSize := by decide
  requestTtlMs_gt : 0 < requestTtlMs := by decide +kernel
  maxConcurrentDispatch_ge : 1 ≤ maxConcurrentDispatch := by decide

structure ClientDefaults (ν : Type) [Score ν] where
  latencyBudgetMs : ν := ((50 : Rat) : ν)
  latencyBudgetMs_gt : ((0 : Rat) : ν) < latencyBudgetMs := by decide +kernel

/-- The budget of a known client has no constraint. -/
structure ClientEntry (ν : Type) where
  id : String
  model : String
  latencyBudgetMs : Option ν := none

structure ClientsConfig (ν : Type) [Score ν] where
  defaults : ClientDefaults ν := by exact {}
  known : List (ClientEntry ν) := []

structure ResponseTrackingConfig where
  overdueMultiplier : Rat := 3 / 2
  disconnectTimeoutS : Rat := 10
  cadenceAlpha : Rat := 3 / 10
  overdueMultiplier_gt : 1 < overdueMultiplier := by decide +kernel
  disconnectTimeoutS_gt : 0 < disconnectTimeoutS := by decide +kernel
  cadenceAlpha_gt : 0 < cadenceAlpha := by decide +kernel
  cadenceAlpha_lt : cadenceAlpha < 1 := by decide +kernel

structure MetricsConfig where
  ringBufferSize : Nat := 10000
  enabled : Bool := true
  ringBufferSize_ge : 100 ≤ ringBufferSize := by decide

structure InferentialConfig (ν : Type) [Score ν] where
  scheduling : SchedulingConfig ν := {}
  models : ModelsConfig := {}
  clients : ClientsConfig ν := by exact {}
  responseTracking : ResponseTrackingConfig := {}
  metrics : MetricsConfig := {}

namespace InferentialConfig

variable {ν : Type} [Score ν]

/-- The first known entry of the client that has a budget, else the default. -/
def getClientBudget (config : InferentialConfig ν) (clientId : String) : ν :=
  match config.clients.known.findSome? fun entry =>
      -- an entry without a budget is passed over
      if entry.id = clientId then entry.latencyBudgetMs else none with
  | some budget => budget
  | none => config.clients.defaults.latencyBudgetMs

def getModelMaxInflight (config : InferentialConfig ν) (modelId : String) : Nat :=
  match config.models.known.get? modelId with
  | some model => model.maxInflight
  | none => config.models.defaultMaxInflight

/-- Every model may have at least one request in flight. -/
theorem getModelMaxInflight_pos (config : InferentialConfig ν) (modelId : String) :
    1 ≤ config.getModelMaxInflight modelId := by
  unfold getModelMaxInflight
  split
  · next model _ => exact model.maxInflight_ge
  · exact config.models.defaultMaxInflight_ge

end InferentialConfig

/-- The default configuration. -/
def plainConfig : InferentialConfig Rat := {}

end Inferential
