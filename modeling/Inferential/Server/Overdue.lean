import Inferential.Scheduler.ScoreOrder
import Inferential.Server.Frames
import Mathlib.Tactic.Linarith
import Mathlib.Tactic.Positivity

/-!
# Overdue — when a late client is scored as late

The receive loop updates the cadence tracker with the new arrival before it asks for the time until
the next one, so the answer is counted from the new arrival.
-/

namespace Inferential

open PyStd

namespace Server

/-! ## Arrivals -/

section Arrivals

variable {ν : Type} [Score ν] {config : InferentialConfig ν} {pb : Protobuf ν}

/-- The client of an observation that a step accepts, and when the tracker sees it. -/
def arrival (pb : Protobuf ν) : Action ν → Option (String × Rat)
  | .receive msg clock _ =>
      match decode pb clock.nowNs msg.envelope msg.payload msg.receivedAt with
      | .error _ => none
      | .ok decoded => some (decoded.clientId, clock.tracked)
  | _ => none

/-- The arrival times of the accepted observations of a client. -/
def arrivals (pb : Protobuf ν) (clientId : String) (actions : List (Action ν)) : List Rat :=
  (actions.filterMap (arrival pb)).filterMap fun a => if a.1 = clientId then some a.2 else none

/-- Only an accepted observation changes the tracker. -/
theorem step_cadence (config : InferentialConfig ν) (pb : Protobuf ν) (s : Server ν)
    (a : Action ν) :
    (step config pb s a).cadence =
      match arrival pb a with
      | none => s.cadence
      | some (clientId, tracked) => s.cadence.onRequest tracked clientId := by
  by_cases ha : a.IsReceive
  · cases a with
    | receive msg clock m =>
        cases hdecode : decode pb clock.nowNs msg.envelope msg.payload msg.receivedAt with
        | error e =>
            rcases receive_rejected_frame config pb clock hdecode m s with ⟨_, hreceive⟩
            simp only [step, arrival, hdecode, hreceive]
        | ok decoded =>
            obtain ⟨_, _, _, _, hreceive⟩ := receive_frame config pb clock hdecode m s
            obtain ⟨_, _, _, _, _, htrack⟩ := track_frame msg decoded clock.tracked s
            simp only [step, arrival, hdecode]
            rw [hreceive]
            simp only [log, htrack]
    | _ => exact absurd ha id
  · obtain ⟨_, _, _, _, _, _, _, h⟩ := step_frame config pb s ha
    have hnone : arrival pb a = none := by
      cases a with
      | receive msg clock m => exact absurd trivial ha
      | _ => rfl
    rw [h, hnone]

/-- Along a run the tracker knows of each client what its arrivals teach. -/
theorem run_knows {s : Server ν} {clientId : String} {before : List Rat}
    (h : s.cadence.Knows clientId before) (actions : List (Action ν)) :
    (run config pb s actions).cadence.Knows clientId (before ++ arrivals pb clientId actions) ∧
      (run config pb s actions).cadence.alpha = s.cadence.alpha := by
  induction actions generalizing s before with
  | nil => simpa [arrivals, run] using h
  | cons a actions ih =>
      have hcadence := step_cadence config pb s a
      cases harrival : arrival pb a with
      | none =>
          rw [harrival] at hcadence
          have hstep : (step config pb s a).cadence.Knows clientId before := hcadence ▸ h
          simpa [arrivals, harrival, run, hcadence] using ih hstep
      | some event =>
          obtain ⟨other, tracked⟩ := event
          rw [harrival] at hcadence
          -- only arrivals of this client are listed and teach something about it
          by_cases hclient : other = clientId
          · subst hclient
            have hstep : (step config pb s a).cadence.Knows other (before ++ [tracked]) :=
              hcadence ▸ h.onRequest tracked
            simpa [arrivals, harrival, run, hcadence] using ih hstep
          · have hstep : (step config pb s a).cadence.Knows clientId before :=
              hcadence ▸ h.onRequest_other (Ne.symm hclient) tracked
            simpa [arrivals, harrival, run, hcadence, hclient] using ih hstep

theorem init_cadence {s : Server ν} (hinit : init config = .ok s) :
    s.cadence.alpha = config.responseTracking.cadenceAlpha ∧
      ∀ clientId, s.cadence.Knows clientId [] := by
  unfold init at hinit
  split at hinit
  · simp at hinit
  · simp only [Except.ok.injEq] at hinit
    subst hinit
    exact ⟨rfl, fun clientId => rfl⟩

/-- An accepted observation ends the history so far with its request. -/
theorem receive_history (config : InferentialConfig ν) {msg : IncomingObservation}
    (clock : ReceiveClock) {decoded : DecodedObservation ν}
    (hdecode : decode pb clock.nowNs msg.envelope msg.payload msg.receivedAt = .ok decoded)
    (m : Moment ν) (s : Server ν) :
    (s.receive config pb msg clock m).history.getLast? =
      some (.accepted (s.requestOf config msg clock decoded)) := by
  obtain ⟨_, _, _, _, hreceive⟩ := receive_frame config pb clock hdecode m s
  rw [hreceive]
  simp only [log, List.getLast?_append, List.getLast?_singleton, Option.some_or]

end Arrivals

/-! ## The cadence term -/

theorem stepsTerm_add (weights : DeadlineAwareConfig Rat) (s x : Rat) (steps : Option Nat) :
    stepsTerm weights (s + x) steps = stepsTerm weights s steps + x := by
  cases steps with
  | none => rfl
  | some n =>
      simp only [stepsTerm]
      split
      · ring
      · split
        · ring
        · split
          · ring
          · rfl

/-- The score of the same request that is due right now lacks exactly the cadence term. -/
theorem weightedScore_due {weights : DeadlineAwareConfig Rat} {now score : Rat}
    {r : InferenceRequest Rat} (h : weightedScore weights now r = .ok score) :
    weightedScore weights now { r with timeUntilNext := 0 } =
      .ok (score - max 0 (-r.timeUntilNext) / (1 / 10) * weights.cadenceWeight) := by
  have hsignals : signalScore weights r =
      signalScore weights { r with timeUntilNext := 0 } +
        max 0 (-r.timeUntilNext) / (1 / 10) * weights.cadenceWeight := by
    -- the cadence term is added first; moving it to the end separates it from the other terms
    have hsum : ∀ x y : Rat, 0 + x + y = 0 + y + x := fun x y => by ring
    simp only [signalScore, Rat.cast_id]
    rw [hsum, stepsTerm_add]
    simp only [neg_zero, max_self, zero_div, zero_mul, zero_add]
    ring
  unfold weightedScore at h ⊢
  split at h
  · cases h
  · next hbudget =>
      rw [if_neg hbudget, ← Except.ok.inj h, hsignals]
      refine congrArg Except.ok ?_
      show _ + ageTerm weights now r = _
      ring

/-! ## Overdue -/

/-- The computed score is strictly higher than that of the same request when it is due right now. -/
def RaisedByCadence (m : Moment Rat) (r : InferenceRequest Rat) (s : AnyScheduler Rat) : Prop :=
  ∀ score, s.computeScore m r = .ok score →
    ∃ due, s.computeScore m { r with timeUntilNext := 0 } = .ok due ∧ due < score

/-- A request that is submitted when its client is late by more than its cadence: it says so, and
every scheduler that scores by itself, with a positive cadence weight, scores it higher for it. -/
structure ScoredOverdue (request : InferenceRequest Rat) : Prop where
  late : request.timeUntilNext < 0
  raised : ∀ s : AnyScheduler Rat, s.discipline = .heap → s.scoring.1 = none →
    0 < s.scoring.2.cadenceWeight → ∀ m, RaisedByCadence m request s

theorem raisedByCadence {s : AnyScheduler Rat} (hheap : s.discipline = .heap)
    (hpolicy : s.scoring.1 = none) (hweight : 0 < s.scoring.2.cadenceWeight) (m : Moment Rat)
    {r : InferenceRequest Rat} (hlate : r.timeUntilNext < 0) :
    RaisedByCadence m r s := by
  have hbuiltIn : ∀ r, s.computeScore m r = weightedScore s.scoring.2 m.now r := fun r => by
    rw [AnyScheduler.computeScore_eq hheap, hpolicy, scoreWith]
  intro score hscore
  rw [hbuiltIn] at hscore
  refine ⟨_, (hbuiltIn _).trans (weightedScore_due hscore), sub_lt_self score ?_⟩
  have hoverdue : 0 < max 0 (-r.timeUntilNext) := lt_max_of_lt_right (neg_pos.mpr hlate)
  positivity

theorem scoredOverdue_iff (request : InferenceRequest Rat) :
    ScoredOverdue request ↔ request.timeUntilNext < 0 :=
  ⟨fun h => h.late, fun hlate =>
    ⟨hlate, fun _ hheap hpolicy hweight m => raisedByCadence hheap hpolicy hweight m hlate⟩⟩

/-- In every run, an observation that comes later than the cadence of its client is scored as
overdue exactly when building its request takes longer than the new average. -/
theorem overdue_scored_iff (config : InferentialConfig Rat) (pb : Protobuf Rat) (s₀ : Server Rat)
    (hinit : init config = .ok s₀) (actions : List (Action Rat)) (msg : IncomingObservation)
    (clock : ReceiveClock) (m : Moment Rat) (decoded : DecodedObservation Rat)
    (hdecode : decode pb clock.nowNs msg.envelope msg.payload msg.receivedAt = .ok decoded)
    (last cadence : Rat)
    (hknown : CadenceTracker.knownAfter config.responseTracking.cadenceAlpha
      (arrivals pb decoded.clientId actions) = (some last, some cadence)) :
    let alpha := config.responseTracking.cadenceAlpha
    let gap := clock.tracked - last
    let s := step config pb (run config pb s₀ actions) (.receive msg clock m)
    ∃ request, s.history.getLast? = some (.accepted request) ∧
      request.clientId = decoded.clientId ∧
      ((cadence < gap → ScoredOverdue request) ↔
        (cadence < gap → alpha * gap + (1 - alpha) * cadence < clock.built - clock.tracked)) := by
  intro alpha gap s
  obtain ⟨halpha, hknows₀⟩ := init_cadence hinit
  obtain ⟨hknows, hkept⟩ := run_knows (hknows₀ decoded.clientId) actions
  rw [List.nil_append] at hknows
  refine ⟨_, receive_history config clock hdecode m _, rfl, ?_⟩
  -- the tracker has already counted the arrival when it is asked
  have huntil := hknows.timeUntilNext_onRequest (by rw [hkept, halpha]; exact hknown)
    clock.tracked clock.built
  rw [hkept, halpha] at huntil
  refine imp_congr Iff.rfl ?_
  rw [scoredOverdue_iff]
  dsimp only [requestOf, buildRequest]
  rw [huntil, sub_neg]

/-! ## A late client -/

/-- After arrivals at 0, 1 and 11 seconds, four seconds of processing make the client overdue. -/
theorem overdue_scored_delayed :
    let s := run plainConfig plainMessages plainServer [arriveAt 0 0, arriveAt 1 0, arriveAt 11 4]
    ∃ request, s.history.getLast? = some (.accepted request) ∧ ScoredOverdue request := by
  obtain ⟨request, hlast, -, hiff⟩ := overdue_scored_iff plainConfig plainMessages plainServer rfl
    [arriveAt 0 0, arriveAt 1 0] (plainMessage 11) ⟨0, 11, 15⟩ (plainMoment 15) (plainDecoded 11)
    rfl 1 1 (by decide +kernel)
  -- the action, with its sums evaluated
  have hmoment : arriveAt 11 4 = .receive (plainMessage 11) ⟨0, 11, 15⟩ (plainMoment 15) := by
    norm_num [arriveAt]
  refine ⟨request, ?_, hiff.mpr (fun _ => by norm_num [plainConfig]) (by norm_num)⟩
  simpa only [run, List.foldl_cons, List.foldl_nil, hmoment] using hlast

/-- Without any delay the request of the same client counts as due in 3.7 seconds. -/
theorem late_client_not_overdue :
    let s := run plainConfig plainMessages plainServer [arriveAt 0 0, arriveAt 1 0]
    (s.cadence.learned.get? "robot-01" = some 1 ∧ s.cadence.lastRequest.get? "robot-01" = some 1) ∧
      ∃ request, (step plainConfig plainMessages s (arriveAt 11 0)).history.getLast? =
          some (.accepted request) ∧
        request.timeUntilNext = 37 / 10 ∧ ¬ ScoredOverdue request := by
  intro s
  have huntil : (s.cadence.onRequest 11 "robot-01").timeUntilNext (11 + 0) "robot-01" = 37 / 10 := by
    decide +kernel
  have hdecode : decode plainMessages 0 (plainMessage 11).envelope (plainMessage 11).payload 11 =
      .ok (plainDecoded 11) := rfl
  have hlast := receive_history plainConfig ⟨0, 11, 11 + 0⟩ hdecode (plainMoment (11 + 0)) s
  refine ⟨by decide +kernel, _, hlast, huntil, ?_⟩
  rw [scoredOverdue_iff]
  have hpos : (0 : Rat) ≤ 37 / 10 := by norm_num
  exact not_lt.mpr (hpos.trans_eq huntil.symm)

end Server
end Inferential
