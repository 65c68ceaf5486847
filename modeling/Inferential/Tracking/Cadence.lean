import Inferential.PyStd.Dict
import Mathlib.Data.Rat.Cast.Order
import Mathlib.Tactic.Ring

/-!
# Cadence — how often a client asks

`CadenceTracker` learns the interval between the requests of a client as a moving average.  What it
knows about a client is a function of the arrival times of that client alone.
-/

namespace Inferential

open PyStd

structure CadenceTracker where
  alpha : Rat := 3 / 10
  overdueMultiplier : Rat := 3 / 2
  /-- `_cadence` -/
  learned : Dict String Rat := Dict.empty
  lastRequest : Dict String Rat := Dict.empty
  samples : Dict String Nat := Dict.empty

/-- The moving average after one more interval. -/
def updateCadence (alpha : Rat) (cadence : Option Rat) (interval : Rat) : Rat :=
  match cadence with
  | some k => alpha * interval + (1 - alpha) * k
  | none => interval

namespace CadenceTracker

def sampleCount (clientId : String) (t : CadenceTracker) : Nat :=
  (t.samples.get? clientId).getD 0

def onRequest (now : Rat) (clientId : String) (t : CadenceTracker) : CadenceTracker :=
  match t.lastRequest.get? clientId with
  -- the first request gives no interval
  | none => { t with lastRequest := t.lastRequest.set clientId now }
  | some last =>
      let cadence := updateCadence t.alpha (t.learned.get? clientId) (now - last)
      { t with
        learned := t.learned.set clientId cadence
        samples := t.samples.set clientId (t.sampleCount clientId + 1)
        lastRequest := t.lastRequest.set clientId now }

/-- An unknown cadence counts as due now.  A client with a cadence has a last request. -/
def timeUntilNext (now : Rat) (clientId : String) (t : CadenceTracker) : Rat :=
  match t.learned.get? clientId, t.lastRequest.get? clientId with
  | some cadence, some last => cadence - (now - last)
  | _, _ => 0

/-- `none` is the infinite time since a request that was never made. -/
def timeSinceLast (now : Rat) (clientId : String) (t : CadenceTracker) : Option Rat :=
  (t.lastRequest.get? clientId).map fun last => now - last

/-! ## What is known of one client -/

/-- The last arrival and the cadence after a list of arrivals. -/
def knownAfter (alpha : Rat) (arrivals : List Rat) : Option Rat × Option Rat :=
  arrivals.foldl (fun known now =>
    (some now,
      match known.1 with
      | none => known.2
      | some last => some (updateCadence alpha known.2 (now - last)))) (none, none)

theorem knownAfter_append (alpha : Rat) (arrivals : List Rat) (now : Rat) :
    knownAfter alpha (arrivals ++ [now]) =
      (some now,
        match (knownAfter alpha arrivals).1 with
        | none => (knownAfter alpha arrivals).2
        | some last => some (updateCadence alpha (knownAfter alpha arrivals).2 (now - last))) := by
  simp [knownAfter, List.foldl_append]

/-- The tracker knows of a client what its arrivals teach. -/
def Knows (t : CadenceTracker) (clientId : String) (arrivals : List Rat) : Prop :=
  (t.lastRequest.get? clientId, t.learned.get? clientId) = knownAfter t.alpha arrivals

@[simp] theorem onRequest_alpha (now : Rat) (clientId : String) (t : CadenceTracker) :
    (t.onRequest now clientId).alpha = t.alpha := by
  unfold onRequest
  split <;> rfl

theorem Knows.onRequest {t : CadenceTracker} {clientId : String} {arrivals : List Rat}
    (h : t.Knows clientId arrivals) (now : Rat) :
    (t.onRequest now clientId).Knows clientId (arrivals ++ [now]) := by
  unfold Knows at h ⊢
  rw [onRequest_alpha, knownAfter_append, ← h]
  unfold CadenceTracker.onRequest
  -- the tracker branches on the last request, and so does what is known
  cases hlast : t.lastRequest.get? clientId with
  | none => simp
  | some last => simp

/-- A request of another client teaches nothing about this one. -/
theorem Knows.onRequest_other {t : CadenceTracker} {clientId other : String} {arrivals : List Rat}
    (h : t.Knows clientId arrivals) (hne : clientId ≠ other) (now : Rat) :
    (t.onRequest now other).Knows clientId arrivals := by
  unfold Knows at h ⊢
  rw [onRequest_alpha, ← h]
  unfold CadenceTracker.onRequest
  cases hlast : t.lastRequest.get? other with
  | none => simp [Dict.get?_set, hne]
  | some last => simp [Dict.get?_set, hne]

/-- Right after a request the time until the next is the new average, less the time that has passed
since. -/
theorem Knows.timeUntilNext_onRequest {t : CadenceTracker} {clientId : String} {arrivals : List Rat}
    {last cadence : Rat} (h : t.Knows clientId arrivals)
    (hknown : knownAfter t.alpha arrivals = (some last, some cadence)) (arrived now : Rat) :
    (t.onRequest arrived clientId).timeUntilNext now clientId =
      t.alpha * (arrived - last) + (1 - t.alpha) * cadence - (now - arrived) := by
  have hafter := h.onRequest arrived
  unfold Knows at hafter
  rw [onRequest_alpha, knownAfter_append, hknown, Prod.mk.injEq] at hafter
  simp only [timeUntilNext, hafter.1, hafter.2, updateCadence]

end CadenceTracker
end Inferential
