import Inferential.Server.Delivery

/-!
# Losses — when every request is accounted for

An accepted observation is queued, in flight, answered, removed with its client, or counted by one
of the four loss metrics, as long as no step is leaky.  Overflow under `drop_oldest` is leaky: the
dropped request is not counted.
-/

namespace Inferential

open PyStd

variable {ν : Type} [Score ν]

/-! ## Counting -/

def Event.sentCount : Event ν → Nat
  | .sent _ => 1
  | _ => 0

def Event.removedCount : Event ν → Nat
  | .disconnected _ removed => removed
  | _ => 0

omit [Score ν] in
theorem Event.settled_eq (e : Event ν) : e.settled = e.sentCount + e.removedCount := by
  cases e <;> simp [settled, sentCount, removedCount]

namespace Server

/-- The observations that `decode` has accepted. -/
def acceptedCount (s : Server ν) : Nat := (s.history.map Event.arrived).sum

/-- The responses that have been sent. -/
def sentCount (s : Server ν) : Nat := (s.history.map Event.sentCount).sum

/-- The requests that `on_client_disconnected` has removed. -/
def removedCount (s : Server ν) : Nat := (s.history.map Event.removedCount).sum

/-- Every accepted observation is counted once. -/
def Accounted (s : Server ν) : Prop :=
  (s.acceptedCount : Rat) = (stored s.scheduler).length + s.inFlight.length + s.sentCount +
    s.metrics.sum "queue_full_drops" + s.metrics.sum "requests_expired" +
    s.metrics.sum "dispatch_errors" + s.metrics.sum "send_errors" + s.removedCount

instance (s : Server ν) : Decidable s.Accounted := inferInstanceAs (Decidable (_ = _))

/-- Balanced books account for every observation. -/
theorem accounted_of_booked {s : Server ν} (h : Booked s.view) : s.Accounted := by
  have hsettled : (s.history.map Event.settled).sum = s.sentCount + s.removedCount := by
    unfold sentCount removedCount
    rw [← List.sum_map_add]
    exact congrArg List.sum (List.map_congr_left fun e _ => e.settled_eq)
  have hroster : s.roster.length = (stored s.scheduler).length + s.inFlight.length := by
    simp [roster, places, inFlight]
  have hbalance : (s.acceptedCount : Rat) =
      s.roster.length + (s.history.map Event.settled).sum + s.metrics.lost := h.balance
  -- the roster is the queue and what is in flight, the lost ones are split by metric
  rw [hsettled, hroster, MetricsCollector.lost_eq] at hbalance
  unfold Accounted
  rw [hbalance]
  push_cast
  ring

/-! ## Runs without losses -/

/-- The dispatcher answers what it is asked, and nothing is lost uncounted. -/
def Lossless (config : InferentialConfig ν) (pb : Protobuf ν) (s : Server ν) (a : Action ν) :
    Prop :=
  WellAnswered s a ∧ ¬ Leaky config pb s a

theorem init_booked {config : InferentialConfig ν} {s : Server ν} (hinit : init config = .ok s)
    (henabled : config.metrics.enabled = true) : Booked s.view := by
  unfold init at hinit
  split at hinit
  · cases hinit
  · next scheduler hcreate =>
      cases hinit
      have hempty : stored scheduler = [] := (AnyScheduler.createScheduler_fresh hcreate).2
      refine ⟨henabled, ?_⟩
      simp [view, roster, flights, LegacyLoop.flights, places, hempty, MetricsCollector.lost,
        MetricsCollector.init]

/-- In every run whose steps are all lossless, every observation is accounted for. -/
theorem lossless_accounted (config : InferentialConfig ν) (pb : Protobuf ν) (s₀ : Server ν)
    (hinit : init config = .ok s₀) (henabled : config.metrics.enabled = true)
    (actions : List (Action ν)) (hlossless : Follows config pb (Lossless config pb) s₀ actions) :
    (run config pb s₀ actions).Accounted := by
  -- the life cycles are needed to know that a step is a flow, and the books follow from that
  have hkept : ∀ s a, Lossless config pb s a → Delivering config s ∧ Booked s.view →
      Delivering config (step config pb s a) ∧ Booked (step config pb s a).view := by
    rintro s a ⟨hanswered, htight⟩ ⟨hdelivering, hbooked⟩
    obtain ⟨-, hflows⟩ := step_flows config pb a hdelivering.wired hdelivering.sound hanswered
    exact ⟨hdelivering.step hanswered, hflows.booked htight hbooked⟩
  have hrun : Delivering config (run config pb s₀ actions) ∧
      Booked (run config pb s₀ actions).view :=
    run_keeps hkept hlossless ⟨init_delivering hinit, init_booked hinit henabled⟩
  exact accounted_of_booked hrun.2

/-! ### Overflow -/

/-- Room for one request; the overflow policy is the default, `drop_oldest`. -/
def smallConfig : InferentialConfig Rat :=
  { plainConfig with
    scheduling := { plainConfig.scheduling with
      maxQueueSize := 1
      maxQueueSize_ge := Nat.le_refl 1 } }

def smallServer : Server Rat :=
  { plainServer with scheduler := .modelDeadline (.init smallConfig.scheduling) }

/-- A single request fits. -/
theorem single_accounted :
    (run smallConfig plainMessages smallServer [arriveAt 0 0]).Accounted := by
  refine lossless_accounted smallConfig plainMessages smallServer rfl rfl [arriveAt 0 0]
    ⟨⟨trivial, ?_⟩, trivial⟩
  -- the queue is empty, and the default budget is not zero
  rintro ⟨decoded, -, ⟨hfull, -⟩ | ⟨-, e, hscore⟩⟩
  · have hroom : ¬ ((1 : Int) ≤ 0) := by decide
    exact hroom hfull
  · simp [ModelDeadlineScheduler.computeScore, ModelDeadlineScheduler.init, scoreWith,
      weightedScore, requestOf, buildRequest, smallConfig, plainConfig,
      InferentialConfig.getClientBudget] at hscore

/-- The second one drops the first, and no metric tells. -/
theorem overflow_not_accounted :
    init smallConfig = .ok smallServer ∧
      ¬ (run smallConfig plainMessages smallServer [arriveAt 0 0, arriveAt 1 0]).Accounted :=
  ⟨rfl, by decide +kernel⟩

end Server
end Inferential
