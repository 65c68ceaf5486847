import Inferential.Config.Schema
import Mathlib.Algebra.BigOperators.Group.List.Basic

/-!
# Collector — what is recorded

A recorded point goes to the callbacks and into the ring buffer of its series.  `log` is what the
callbacks see: all points, where a series keeps the last ones of its name.
-/

namespace Inferential

structure MetricPoint where
  name : String
  value : Rat
  labels : List (String × String) := []
  deriving DecidableEq, Repr

structure MetricsCollector where
  ringBufferSize : Nat
  enabled : Bool
  log : List MetricPoint := []

namespace MetricsCollector

def init (config : MetricsConfig) : MetricsCollector where
  ringBufferSize := config.ringBufferSize
  enabled := config.enabled

def record (name : String) (value : Rat) (labels : List (String × String)) (c : MetricsCollector) :
    MetricsCollector :=
  if c.enabled then { c with log := c.log ++ [⟨name, value, labels⟩] } else c

def recordAll (points : List MetricPoint) (c : MetricsCollector) : MetricsCollector :=
  points.foldl (fun c p => c.record p.name p.value p.labels) c

/-- The sum of the recorded values of a name. -/
def sum (name : String) (c : MetricsCollector) : Rat :=
  ((c.log.filter fun p => p.name = name).map MetricPoint.value).sum

@[simp] theorem record_enabled (name : String) (value : Rat) (labels : List (String × String))
    (c : MetricsCollector) : (c.record name value labels).enabled = c.enabled := by
  unfold record
  split <;> rfl

@[simp] theorem recordAll_enabled (points : List MetricPoint) (c : MetricsCollector) :
    (c.recordAll points).enabled = c.enabled := by
  induction points generalizing c with
  | nil => rfl
  | cons p points ih => simpa [recordAll] using ih (c.record p.name p.value p.labels)

end MetricsCollector
end Inferential
