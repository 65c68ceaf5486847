import Inferential.Server.Delivery

/-!
# Attempts — at most one answer and a bounded number of attempts

Read off the life cycle: in every run each request object lives a life of `requestLife`, and the
places of the requests agree with the states that their lives have led to.
-/

namespace Inferential

open Lifecycle PyStd

variable {ν : Type} [Score ν]

namespace Server

/-- What has happened to one request object, in order. -/
def lifeOf (objId : Nat) (s : Server ν) : List LifeEvent := wordOf objId (lives s.history)

/-- No request is attempted too often, is at two places, or is answered twice. -/
structure AnsweredOnce (maxRetries : Nat) (s : Server ν) : Prop where
  attempts : ∀ objId, (s.lifeOf objId).count .dispatched ≤ maxRetries + 1
  onePlace : ((stored s.scheduler ++ s.inFlight).map InferenceRequest.objId).Nodup
  retries : ∀ r ∈ stored s.scheduler ++ s.inFlight,
    r.retryCount = (s.lifeOf r.objId).count .requeued
  afterSuccess : ∀ objId before rest,
    s.lifeOf objId = before ++ .returned true :: rest → .dispatched ∉ rest
  oneResponse : ∀ objId, (s.lifeOf objId).count .responded ≤ 1
  addressed : ∀ objId identity, .responded objId identity ∈ s.history →
    ∃ r, .accepted r ∈ s.history ∧ r.objId = objId ∧ r.identity = identity ∧
      ∀ r', .accepted r' ∈ s.history → r'.objId = objId → r' = r

section Lives

variable {maxRetries : Nat} {s : Server ν} (h : Sound maxRetries s.view)

include h

theorem life_state (objId : Nat) :
    ∃ state, (requestLife maxRetries).after (s.lifeOf objId) = some state :=
  Option.isSome_iff_exists.mp (h.tracks.valid objId)

/-- The place of a request knows its retries. -/
theorem place_retries {p : Place} (hp : p ∈ s.roster) :
    p.retryCount = (s.lifeOf p.objId).count .requeued := by
  have hstate := h.tracks.state (p.objId, p.life) (List.mem_map_of_mem hp)
  have hretries : p.life.retries = p.retryCount := by
    unfold Place.life
    split <;> rfl
  rw [← hretries]
  exact (lifeCounts hstate).requeued.symm

theorem sound_answeredOnce : AnsweredOnce maxRetries s where
  attempts objId := by
    obtain ⟨state, hstate⟩ := life_state h objId
    have hcounts := lifeCounts hstate
    calc
      (s.lifeOf objId).count .dispatched = state.attempts := hcounts.dispatched
      _ ≤ state.retries + 1 := state.attempts_le
      _ ≤ maxRetries + 1 := Nat.succ_le_succ hcounts.retries_le
  onePlace := objIds_nodup h
  retries r hr := by
    -- a queued request has a place, and so has one in flight
    rcases List.mem_append.mp hr with hstored | hflight
    · have hplace : place .queued r ∈ (stored s.scheduler).map (place .queued) :=
        List.mem_map_of_mem hstored
      exact place_retries h (List.mem_append_left _ hplace)
    · obtain ⟨f, hf, rfl⟩ := List.mem_map.mp hflight
      have hplace : place f.1 f.2 ∈ places s.flights := List.mem_map.mpr ⟨f, hf, rfl⟩
      exact place_retries h (List.mem_append_right _ hplace)
  afterSuccess objId before rest hlife := by
    have hvalid : ((requestLife maxRetries).after (s.lifeOf objId)).isSome := h.tracks.valid objId
    rw [hlife] at hvalid
    exact life_after_success hvalid
  oneResponse objId := by
    obtain ⟨state, hstate⟩ := life_state h objId
    exact (lifeCounts hstate).responded.trans_le state.responses_le
  addressed objId identity hresponded := by
    obtain ⟨r, hr, hid, hidentity⟩ := h.responded objId identity hresponded
    exact ⟨r, hr, hid, hidentity, fun r' hr' hid' => h.unique r' r hr' hr (hid'.trans hid.symm)⟩

end Lives

/-- In every run, with any strategy and any swaps, if every dispatch call that returns answers what
it was asked. -/
theorem run_answeredOnce (config : InferentialConfig ν) (pb : Protobuf ν) (s₀ : Server ν)
    (hinit : init config = .ok s₀) (actions : List (Action ν))
    (hanswered : Follows config pb WellAnswered s₀ actions) :
    AnsweredOnce config.scheduling.maxRetries (run config pb s₀ actions) := by
  have hdelivering : Delivering config (run config pb s₀ actions) :=
    run_keeps (fun s a ha hs => hs.step ha) hanswered (init_delivering hinit)
  exact sound_answeredOnce hdelivering.sound

/-! ### A failed attempt -/

def failedResult : DispatchResult where
  clientId := "robot-01"
  responseId := "r"
  identity := [1]
  envelope := []
  payload := []
  latencyMs := 1
  success := false
  error := some "boom"

def retryingConfig : InferentialConfig Rat :=
  { plainConfig with scheduling := { plainConfig.scheduling with maxRetries := 1 } }

def retryingServer : Server Rat :=
  { plainServer with scheduler := .modelDeadline (.init retryingConfig.scheduling) }

/-- The single loop dispatches a request, the attempt fails, and the request is queued again. -/
def failedAttempt : List (Action Rat) :=
  [arriveAt 0 0, .legacyTop 0 (fun _ => 0) 0, .legacyReturned (.ok [failedResult]),
    .legacyResult 0 0 (plainMoment 0)]

theorem failedAttempt_answeredOnce :
    let s := run retryingConfig plainMessages retryingServer failedAttempt
    (stored s.scheduler).map (fun r => r.retryCount) = [1] ∧ AnsweredOnce 1 s := by
  have hanswered :
      Follows retryingConfig plainMessages WellAnswered retryingServer failedAttempt := by
    refine ⟨trivial, trivial, fun batch hbatch => ?_, trivial, trivial⟩
    -- the batch that the loop waits for is the one request of object 0
    have hids : ((run retryingConfig plainMessages retryingServer
        [arriveAt 0 0, .legacyTop 0 (fun _ => 0) 0]).legacy.flights.map fun f =>
          (f.2.objId, f.2.identity)) = [(0, [1])] := by decide +kernel
    have hbatch' : (run retryingConfig plainMessages retryingServer
        [arriveAt 0 0, .legacyTop 0 (fun _ => 0) 0]).legacy = .dispatching batch := hbatch
    rw [hbatch', LegacyLoop.flights, List.map_map] at hids
    exact List.Perm.of_eq hids.symm
  exact ⟨by decide +kernel, run_answeredOnce retryingConfig plainMessages retryingServer rfl
    failedAttempt hanswered⟩

end Server
end Inferential
