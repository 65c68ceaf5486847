import Inferential.Machine.MovingAverage
import Inferential.Tracking.Cadence

/-!
# Convergence — the learned cadence is an average of the client's own intervals

What the tracker knows of a client after any requests is a function of the times of that client:
the cadence is the moving average of the intervals between them, and it is counted how many there
were.
-/

namespace Inferential

open PyStd Machine

/-- The times between successive requests. -/
def intervals : List Rat → List Rat
  | last :: now :: times => (now - last) :: intervals (now :: times)
  | _ => []

theorem intervals_concat (times : List Rat) (last now : Rat) :
    intervals (times ++ [last, now]) = intervals (times ++ [last]) ++ [now - last] := by
  induction times with
  | nil => rfl
  | cons time times ih =>
      cases times with
      | nil => rfl
      | cons next times =>
          simp only [List.cons_append, intervals] at ih ⊢
          rw [ih]

@[simp] theorem intervals_length (times : List Rat) :
    (intervals times).length = times.length - 1 := by
  induction times with
  | nil => rfl
  | cons time times ih =>
      cases times with
      | nil => rfl
      | cons next times => simpa [intervals] using ih

theorem startedAverage_concat (alpha : Rat) (ivs : List Rat) (interval : Rat) :
    startedAverage alpha (ivs ++ [interval]) =
      some (updateCadence alpha (startedAverage alpha ivs) interval) := by
  cases ivs with
  | nil => rfl
  | cons iv ivs => simp [startedAverage, updateCadence]

namespace CadenceTracker

/-- `__init__` -/
def init (alpha overdueMultiplier : Rat) : CadenceTracker where
  alpha := alpha
  overdueMultiplier := overdueMultiplier

/-- `learned_cadence` -/
def learnedCadence (clientId : String) (t : CadenceTracker) : Option Rat :=
  t.learned.get? clientId

/-- The tracker after `on_request` calls of the clients, at the times given. -/
def afterRequests (t : CadenceTracker) (requests : List (String × Rat)) : CadenceTracker :=
  requests.foldl (fun t request => t.onRequest request.2 request.1) t

@[simp] theorem afterRequests_nil (t : CadenceTracker) : t.afterRequests [] = t := rfl

@[simp] theorem afterRequests_cons (t : CadenceTracker) (request : String × Rat)
    (requests : List (String × Rat)) :
    t.afterRequests (request :: requests) =
      (t.onRequest request.2 request.1).afterRequests requests := rfl

/-- The times of the requests of one client. -/
def timesOf (clientId : String) (requests : List (String × Rat)) : List Rat :=
  (requests.filter fun request => request.1 = clientId).map Prod.snd

/-! ## What is known -/

/-- The cadence is the average of the intervals. -/
theorem knownAfter_eq (alpha : Rat) (arrivals : List Rat) :
    knownAfter alpha arrivals =
      (arrivals.getLast?, startedAverage alpha (intervals arrivals)) := by
  induction arrivals using List.reverseRecOn with
  | nil => rfl
  | append_singleton arrivals now ih =>
      rw [knownAfter_append, ih]
      rcases List.eq_nil_or_concat' arrivals with rfl | ⟨front, last, rfl⟩
      · rfl
      · rw [List.append_assoc, List.singleton_append, intervals_concat, startedAverage_concat]
        simp

/-- The tracker knows what the client's times teach, and has counted its intervals. -/
structure Follows (t : CadenceTracker) (clientId : String) (times : List Rat) : Prop where
  knows : t.Knows clientId times
  counted : t.sampleCount clientId = times.length - 1

theorem Follows.known {t : CadenceTracker} {clientId : String} {times : List Rat}
    (h : t.Follows clientId times) : t.lastRequest.get? clientId = times.getLast? ∧
      t.learnedCadence clientId = startedAverage t.alpha (intervals times) := by
  have hknows := h.knows
  rwa [Knows, knownAfter_eq, Prod.mk.injEq] at hknows

theorem Follows.init (alpha overdueMultiplier : Rat) (clientId : String) :
    (init alpha overdueMultiplier).Follows clientId [] :=
  ⟨rfl, rfl⟩

theorem Follows.onRequest {t : CadenceTracker} {clientId : String} {times : List Rat}
    (h : t.Follows clientId times) (now : Rat) :
    (t.onRequest now clientId).Follows clientId (times ++ [now]) := by
  refine ⟨h.knows.onRequest now, ?_⟩
  have hcounted := h.counted
  have hlast := h.known.1
  unfold CadenceTracker.onRequest
  cases times with
  | nil =>
      rw [List.getLast?_nil] at hlast
      rw [hlast]
      exact hcounted
  | cons time times =>
      rw [List.getLast?_cons] at hlast
      rw [hlast]
      show ((t.samples.set clientId (t.sampleCount clientId + 1)).get? clientId).getD 0 = _
      simp [hcounted]

theorem Follows.onRequest_other {t : CadenceTracker} {clientId other : String} {times : List Rat}
    (h : t.Follows clientId times) (hne : clientId ≠ other) (now : Rat) :
    (t.onRequest now other).Follows clientId times := by
  refine ⟨h.knows.onRequest_other hne now, ?_⟩
  rw [← h.counted]
  unfold CadenceTracker.onRequest
  split
  · rfl
  · simp [sampleCount, Dict.get?_set, hne]

/-- After any calls the tracker follows every client. -/
theorem Follows.afterRequests {t : CadenceTracker} {clientId : String} {times : List Rat}
    (h : t.Follows clientId times) (requests : List (String × Rat)) :
    (t.afterRequests requests).Follows clientId (times ++ timesOf clientId requests) := by
  induction requests generalizing t times with
  | nil => simpa [timesOf] using h
  | cons request requests ih =>
      rcases request with ⟨other, now⟩
      by_cases hclient : other = clientId
      · subst hclient
        have hnext := ih (h.onRequest now)
        rw [List.append_assoc] at hnext
        simpa [timesOf] using hnext
      · have hnext := ih (h.onRequest_other (Ne.symm hclient) now)
        simpa [timesOf, hclient] using hnext

/-! ## Convergence -/

theorem afterRequests_alpha (t : CadenceTracker) (requests : List (String × Rat)) :
    (t.afterRequests requests).alpha = t.alpha := by
  induction requests generalizing t with
  | nil => rfl
  | cons request requests ih => simp [ih]

/-- The cadence that is learned from any requests, of whichever clients. -/
theorem learnedCadence_afterRequests (alpha overdueMultiplier : Rat)
    (requests : List (String × Rat)) (clientId : String) :
    ((init alpha overdueMultiplier).afterRequests requests).learnedCadence clientId =
      startedAverage alpha (intervals (timesOf clientId requests)) := by
  have hfollows := (Follows.init alpha overdueMultiplier clientId).afterRequests requests
  rw [hfollows.known.2, afterRequests_alpha]
  rfl

/-- The learned cadence exists from the second request on, lies between the client's own intervals,
does not depend on the other clients and approaches a steady interval geometrically. -/
theorem cadence_converges {alpha : Rat} (h0 : 0 < alpha) (h1 : alpha < 1) (overdueMultiplier : Rat)
    (requests : List (String × Rat)) (clientId : String) :
    let run := (init alpha overdueMultiplier).afterRequests
    let t := run requests
    let times := timesOf clientId requests
    ((t.learnedCadence clientId).isSome ↔ 2 ≤ times.length) ∧
    (∀ cadence, t.learnedCadence clientId = some cadence →
      (intervals times).minimum ≤ (cadence : WithTop Rat) ∧
        (cadence : WithBot Rat) ≤ (intervals times).maximum) ∧
    (∀ others, timesOf clientId others = times →
      (run others).learnedCadence clientId = t.learnedCadence clientId) ∧
    (∀ before after k d earlier, requests = before ++ after →
      (run before).learnedCadence clientId = some earlier →
      intervals times = intervals (timesOf clientId before) ++ List.replicate k d →
      ∃ cadence, t.learnedCadence clientId = some cadence ∧
        |cadence - d| = (1 - alpha) ^ k * |earlier - d|) ∧
    t.sampleCount clientId = (intervals times).length ∧
    ∀ cadence last now, t.learnedCadence clientId = some cadence → times.getLast? = some last →
      t.timeUntilNext now clientId = cadence - (now - last) := by
  intro run t times
  have hlearned : ∀ requests, (run requests).learnedCadence clientId =
      startedAverage alpha (intervals (timesOf clientId requests)) := fun requests =>
    learnedCadence_afterRequests alpha overdueMultiplier requests clientId
  have hfollows : t.Follows clientId times :=
    (Follows.init alpha overdueMultiplier clientId).afterRequests requests
  refine ⟨?_, ?_, ?_, ?_, ?_, ?_⟩
  · rw [hlearned requests, startedAverage_isSome, ← List.length_pos_iff, intervals_length]
    exact Nat.lt_sub_iff_add_lt
  · intro cadence hcadence
    rw [hlearned requests] at hcadence
    exact startedAverage_between h0.le h1.le hcadence
  · intro others hsame
    rw [hlearned others, hlearned requests, hsame]
  · rintro before after k d earlier - hearlier hsteady
    rw [hlearned before] at hearlier
    refine ⟨movingAverage alpha earlier (List.replicate k d), ?_,
      abs_movingAverage_replicate h1.le earlier d k⟩
    rw [hlearned requests]
    exact hsteady ▸ startedAverage_append hearlier _
  · rw [hfollows.counted, intervals_length]
  · intro cadence last now hcadence hlast
    have hrequest := hfollows.known.1.trans hlast
    have hget : t.learned.get? clientId = some cadence := hcadence
    simp only [timeUntilNext, hget, hrequest]

/-- Two clients; the first asks after a second, and then twice after half a second. -/
theorem cadence_converges_steady :
    let requests : List (String × Rat) :=
      [("a", 0), ("b", 0), ("a", 1), ("b", 4), ("a", 3 / 2), ("a", 2)]
    ∃ cadence, ((init (3 / 10) (3 / 2)).afterRequests requests).learnedCadence "a" = some cadence ∧
      |cadence - 1 / 2| = (1 - 3 / 10) ^ 2 * |1 - 1 / 2| := by
  intro requests
  have hpos : (0 : Rat) < 3 / 10 := by decide +kernel
  have hsteady := cadence_converges hpos (by decide +kernel) (3 / 2) requests "a"
  exact hsteady.2.2.2.1 (requests.take 3) (requests.drop 3) 2 (1 / 2) 1 rfl (by decide +kernel)
    (by decide +kernel)

end CadenceTracker
end Inferential
