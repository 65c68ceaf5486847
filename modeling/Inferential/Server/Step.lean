import Inferential.Proto.Wire
import Inferential.Server.Legacy
import Inferential.Server.Pipeline
import Inferential.Server.Receive

/-!
# Step — the runs of the server

The tick loop, the predictive wake loop, `use_scheduler`, and all steps together.  A step of a
coroutine that stands elsewhere changes nothing, so that every list of actions is a run.
-/

namespace Inferential

open PyStd

variable {ν : Type} [Score ν]

namespace Server

/-! ## The tick loop -/

/-- `time_since_last(client_id) > disconnect_timeout_s` -/
def isSilent (config : InferentialConfig ν) (now : Rat) (clientId : String) (s : Server ν) : Bool :=
  match s.cadence.timeSinceLast now clientId with
  | none => true
  | some since => decide (config.responseTracking.disconnectTimeoutS < since)

/-- A client that is silent for too long is reported to the scheduler. -/
def checkClient (config : InferentialConfig ν) (now : Rat) (clientId : String) (s : Server ν) :
    Server ν :=
  if s.isSilent config now clientId then
    -- nothing marks the client, so that every later tick reports it again
    let scheduler := Scheduler.onClientDisconnected clientId s.scheduler
    let removed := (stored s.scheduler).length - (stored scheduler).length
    let s := { s with scheduler := scheduler }
    let s := s.record "client_disconnected" 1 [("client", clientId)]
    s.log [.disconnected clientId removed]
  else s

/-- The body of `_tick_loop`; `expiry` is the clock reading for each queued request, `now` the one
for each client. -/
def tick (config : InferentialConfig ν) (expiry : InferenceRequest ν → Rat) (now : String → Rat)
    (s : Server ν) : Server ν :=
  let (expired, scheduler) := Scheduler.tick expiry s.scheduler
  let s := { s with scheduler := scheduler }
  let s := if expired = 0 then s else s.record "requests_expired" expired []
  let s := s.record "active_clients" s.clients.activeCount []
  s.clients.clients.keys.foldl (fun s clientId => s.checkClient config (now clientId) clientId) s

/-! ## The predictive wake loop -/

def wakeClient (config : InferentialConfig ν) (now : Rat) (clientId : String) (s : Server ν) :
    Server ν :=
  let pd := config.scheduling.predictivePreDispatch
  if s.cadence.sampleCount clientId < pd.minCadenceSamples then s
  else
    let timeUntil := s.cadence.timeUntilNext now clientId
    -- only a request that is due soon, not one that is late
    if 0 < timeUntil ∧ timeUntil ≤ pd.lookaheadMs / 1000 then
      (s.clients.clientModels clientId).foldl (fun s modelId => s.setEvent modelId) s
    else s

/-- The body of `_predictive_wake_loop`, which runs when both options are enabled. -/
def predictiveWake (config : InferentialConfig ν) (now : String → Rat) (s : Server ν) : Server ν :=
  if config.scheduling.pipelineDispatch.enabled ∧ config.scheduling.predictivePreDispatch.enabled
  then
    s.clients.clients.keys.foldl (fun s clientId => s.wakeClient config (now clientId) clientId) s
  else s

/-! ## Swapping the scheduler -/

/-- The configuration of the new scheduler; `weights` is the copy that the keyword arguments
update. -/
def swapConfig (config : SchedulingConfig ν) (strategy : String)
    (weights : Option (DeadlineAwareConfig ν)) : SchedulingConfig ν :=
  match weights with
  | none => { config with strategy := strategy }
  | some weights =>
      if strategy = "model_deadline" then
        { config with strategy := strategy, modelDeadline := weights }
      else
        { config with strategy := strategy, deadlineAware := weights }

/-- `use_scheduler` -/
def useScheduler (config : InferentialConfig ν) (registered : String → Bool) (strategy : String)
    (policy : Option String) (weights : Option (DeadlineAwareConfig ν)) (s : Server ν) :
    Except PyError Unit × Server ν :=
  match createScheduler (swapConfig config.scheduling strategy weights) with
  | .error e => (.error e, s)
  | .ok scheduler =>
      -- the old scheduler goes, with the requests that it holds
      let s := { s with scheduler := scheduler }
      match policy with
      | none => (.ok (), s)
      | some policyName =>
          match scheduler.usePolicy registered policyName with
          -- the swap has happened even when the policy is unknown
          | .error e => (.error e, s)
          | .ok scheduler => (.ok (), { s with scheduler := scheduler })

/-! ## All steps -/

inductive Action (ν : Type)
  | receive (msg : IncomingObservation) (clock : ReceiveClock) (m : Moment ν)
  | tick (expiry : InferenceRequest ν → Rat) (now : String → Rat)
  | predictiveWake (now : String → Rat)
  | useScheduler (registered : String → Bool) (strategy : String) (policy : Option String)
      (weights : Option (DeadlineAwareConfig ν))
  | legacyTop (first : Rat) (clock : Nat → Rat) (dispatchTime : Rat)
  | legacyReturned (result : Except PyError (List DispatchResult))
  | legacyResult (issuedAt now : Rat) (m : Moment ν)
  | legacySent (outcome : SendOutcome)
  | loopAcquire (i : Nat)
  | loopProceed (i : Nat) (now : Rat)
  | loopResume (i : Nat) (woken : Bool)
  | taskStart (i : Nat)
  | taskReturned (i : Nat) (result : Except PyError (List DispatchResult))
  | taskResult (i : Nat) (issuedAt now : Rat) (m : Moment ν)
  | taskSent (i : Nat) (outcome : SendOutcome)

section Runs

variable (config : InferentialConfig ν) (pb : Protobuf ν)

def step (s : Server ν) : Action ν → Server ν
  | .receive msg clock m => s.receive config pb msg clock m
  | .tick expiry now => s.tick config expiry now
  | .predictiveWake now => s.predictiveWake config now
  | .useScheduler registered strategy policy weights =>
      (s.useScheduler config registered strategy policy weights).2
  | .legacyTop first clock dispatchTime => s.legacyTop config first clock dispatchTime
  | .legacyReturned result => s.legacyReturned result
  | .legacyResult issuedAt now m => s.legacyResult config issuedAt now m
  | .legacySent outcome => s.legacySent outcome
  | .loopAcquire i => s.loopAcquire i
  | .loopProceed i now => s.loopProceed i now
  | .loopResume i woken => s.loopResume i woken
  | .taskStart i => s.taskStart i
  | .taskReturned i result => s.taskReturned i result
  | .taskResult i issuedAt now m => s.taskResult config i issuedAt now m
  | .taskSent i outcome => s.taskSent i outcome

def run (s : Server ν) (actions : List (Action ν)) : Server ν :=
  actions.foldl (step config pb) s

/-- Every step of the run is taken in a state, and with an action, that satisfies `assumed`. -/
def Follows (assumed : Server ν → Action ν → Prop) : Server ν → List (Action ν) → Prop
  | _, [] => True
  | s, a :: actions => assumed s a ∧ Follows assumed (step config pb s a) actions

variable {config pb}

/-- What holds at first and is kept by every assumed step holds after the run. -/
theorem run_keeps {assumed : Server ν → Action ν → Prop} {inv : Server ν → Prop}
    (hstep : ∀ s a, assumed s a → inv s → inv (step config pb s a)) {s : Server ν}
    {actions : List (Action ν)} (hfollows : Follows config pb assumed s actions) (h : inv s) :
    inv (run config pb s actions) := by
  induction actions generalizing s with
  | nil => exact h
  | cons a actions ih => exact ih hfollows.2 (hstep s a hfollows.1 h)

theorem follows_of_forall {p : Action ν → Prop} {actions : List (Action ν)}
    (h : ∀ a ∈ actions, p a) (s : Server ν) : Follows config pb (fun _ a => p a) s actions := by
  induction actions generalizing s with
  | nil => trivial
  | cons a actions ih =>
      obtain ⟨ha, hrest⟩ := List.forall_mem_cons.mp h
      exact ⟨ha, ih hrest _⟩

end Runs

/-! ## A plain server -/

/-- With the default configuration. -/
def plainServer : Server Rat where
  scheduler := .modelDeadline (.init plainConfig.scheduling)
  cadence := {
    alpha := plainConfig.responseTracking.cadenceAlpha
    overdueMultiplier := plainConfig.responseTracking.overdueMultiplier }
  metrics := .init plainConfig.metrics

def plainDecoded (receivedAt : Rat) : DecodedObservation Rat where
  clientId := "robot-01"
  modelId := "policy"
  timestampNs := 0
  urgency := 0
  priority := 1
  stepsRemaining := none
  slots := []
  envelope := Wire.observation plainObservation
  payload := []
  receivedAt := receivedAt
  stalenessMs := 0

def plainMessage (receivedAt : Rat) : IncomingObservation where
  identity := [1]
  envelope := Wire.observation plainObservation
  payload := []
  receivedAt := receivedAt

def plainMoment (now : Rat) : Moment Rat where
  now := now
  policy := fun _ _ => .ok 0

/-- The observation arrives at `t`, and its request is built after `delay`. -/
def arriveAt (t delay : Rat) : Action Rat :=
  .receive (plainMessage t) ⟨0, t, t + delay⟩ (plainMoment (t + delay))

end Server
end Inferential
