import Inferential.Server.Calls
import Inferential.Server.Delivery
import Inferential.Server.Work
import Mathlib.Algebra.Order.Group.Multiset

/-!
# Fates — how requests leave the server

Beside the run of the server, `departures` reads off each step which requests it lets go, and how.
What is queued or in flight before a step, and what the step lets in, is what is queued or in flight
after it, and what it lets go.
-/

namespace Inferential

open PyStd

variable {ν : Type} [Score ν]

inductive Fate
  | answered
  | rejected
  | evicted
  | expired
  | failed
  | removed
  deriving DecidableEq, Repr

/-- The id of a request that is accepted. -/
def Event.requestId : Event ν → Option Nat
  | .accepted r => some r.objId
  | _ => none

omit [Score ν] in
theorem Event.IsWork.no_requestId {e : Event ν} (h : e.IsWork) : e.requestId = none := by
  cases e with
  | accepted r => exact absurd h id
  | _ => rfl

/-! ## The ids of requests -/

omit [Score ν] in
/-- The ids of a list of requests, in no order. -/
def ids (rs : List (InferenceRequest ν)) : Multiset Nat := (rs.map InferenceRequest.objId : List Nat)

section Ids

omit [Score ν]

@[simp] theorem ids_nil : ids ([] : List (InferenceRequest ν)) = 0 := rfl

@[simp] theorem ids_cons (r : InferenceRequest ν) (rs : List (InferenceRequest ν)) :
    ids (r :: rs) = {r.objId} + ids rs := rfl

@[simp] theorem ids_append (rs rs' : List (InferenceRequest ν)) : ids (rs ++ rs') = ids rs + ids rs' := by
  simp [ids]

theorem ids_perm {rs rs' : List (InferenceRequest ν)} (h : rs.Perm rs') : ids rs = ids rs' :=
  Multiset.coe_eq_coe.mpr (h.map InferenceRequest.objId)

theorem ids_flights {fs fs' : List (Stage × InferenceRequest ν)} (h : fs.Perm fs') :
    ids (fs.map Prod.snd) = ids (fs'.map Prod.snd) := ids_perm (h.map Prod.snd)

end Ids

namespace Server

/-- Everything that is queued or in flight. -/
def whole (s : Server ν) : Multiset Nat := ids (stored s.scheduler) + ids s.inFlight

/-- The ids of the accepted requests, in order. -/
def requestIds (s : Server ν) : List Nat := s.history.filterMap Event.requestId

/-! ## Departures -/

omit [Score ν] in
def depart (fate : Fate) (rs : List (InferenceRequest ν)) : List (Nat × Fate) :=
  rs.map fun r => (r.objId, fate)

omit [Score ν] in
/-- The ids of requests that leave. -/
def gone (departed : List (Nat × Fate)) : Multiset Nat := (departed.map Prod.fst : List Nat)

section Departed

omit [Score ν]

@[simp] theorem gone_nil : gone [] = 0 := rfl

@[simp] theorem gone_append (ds ds' : List (Nat × Fate)) : gone (ds ++ ds') = gone ds + gone ds' := by
  simp [gone]

@[simp] theorem gone_depart (fate : Fate) (rs : List (InferenceRequest ν)) :
    gone (depart fate rs) = ids rs := by
  simp [gone, depart, ids, Function.comp_def]

end Departed

/-- The requests that the checks of a tick take out of the queue. -/
def removals (silent : String → Bool) : List String → AnyScheduler ν → List (InferenceRequest ν)
  | [], _ => []
  | clientId :: clientIds, q =>
      if silent clientId then
        (stored q).filter (leaves q clientId) ++
          removals silent clientIds (Scheduler.onClientDisconnected clientId q)
      else removals silent clientIds q

section Steps

variable (config : InferentialConfig ν) (pb : Protobuf ν)

/-- The requests that a step lets go; a swap lets go of none. -/
def departures (s : Server ν) : Action ν → List (Nat × Fate)
  | .receive msg clock m =>
      match decode pb clock.nowNs msg.envelope msg.payload msg.receivedAt with
      | .error _ => []
      | .ok decoded =>
          let request := s.requestOf config msg clock decoded
          let o := Scheduler.submit m request (s.track msg decoded clock.tracked).scheduler
          depart .evicted o.dropped.toList ++
            match o.raised with
            | none => []
            | some (.queueFullError _) => depart .rejected [request]
            | some _ => depart .failed [request]
  | .tick expiry now =>
      let q := (Scheduler.tick expiry s.scheduler).2
      depart .expired ((stored s.scheduler).filter fun r =>
          isExpired (expiry r) (AccountedScheduler.config s.scheduler).requestTtlMs r) ++
        depart .removed (removals (fun c => s.isSilent config (now c) c) s.clients.clients.keys q)
  | .legacyReturned (.error _) =>
      match s.legacy with
      | .dispatching batch => depart .failed batch
      | _ => []
  | .legacyResult _ _ m =>
      match s.legacy with
      | .processing batch (result :: _) =>
          if result.success then []
          else
            match (originalOf batch result.reqId).filter (mayRetry config) with
            | some original =>
                match (Scheduler.resubmit m (retried original) s.scheduler).raised with
                -- the loop ends, with all that it has in hand
                | some _ => depart .failed (s.legacy.flights.map Prod.snd)
                | none => []
            | none => depart .failed (originalOf batch result.reqId).toList
      | _ => []
  | .legacySent outcome =>
      match s.legacy with
      | .sending batch result _ =>
          match outcome with
          | .sent => depart .answered (originalOf batch result.reqId).toList
          | .zmqError _ => depart .failed (originalOf batch result.reqId).toList
          | .raised _ => depart .failed (s.legacy.flights.map Prod.snd)
      | _ => []
  | .taskReturned i (.error _) =>
      match s.tasks[i]? with
      | some task => if task.pc = .dispatching then depart .failed [task.request] else []
      | none => []
  | .taskResult i _ _ m =>
      match s.tasks[i]? with
      | none => []
      | some task =>
          match task.pc with
          | .processing (result :: _) =>
              if result.success then []
              else if mayRetry config task.request then
                match (Scheduler.resubmit m (retried task.request) s.scheduler).raised with
                | some _ => depart .failed (task.flights.map Prod.snd)
                | none => []
              else depart .failed [task.request]
          | _ => []
  | .taskSent i outcome =>
      match s.tasks[i]? with
      | none => []
      | some task =>
          match task.pc with
          | .sending _ _ =>
              match outcome with
              | .sent => depart .answered [task.request]
              | .zmqError _ => depart .failed [task.request]
              | .raised _ => depart .failed (task.flights.map Prod.snd)
          | _ => []
  | _ => []

/-- The id of the request that a step accepts. -/
def admitted (s : Server ν) : Action ν → List Nat
  | .receive msg clock _ =>
      match decode pb clock.nowNs msg.envelope msg.payload msg.receivedAt with
      | .error _ => []
      | .ok _ => [s.nextObj]
  | _ => []

theorem admitted_cases (s : Server ν) (a : Action ν) :
    admitted pb s a = [] ∨ admitted pb s a = [s.nextObj] := by
  cases a with
  | receive msg clock m =>
      simp only [admitted]
      split
      · exact Or.inl rfl
      · exact Or.inr rfl
  | _ => exact Or.inl rfl

/-- Nothing is lost and nothing appears, apart from what comes and what departs. -/
def Conserves (s : Server ν) (came : List Nat) (departed : List (Nat × Fate)) (s' : Server ν) :
    Prop :=
  s.whole + (came : Multiset Nat) = gone departed + s'.whole


/-! ## What the steps conserve -/

namespace Conserves

variable {s s' : Server ν}

/-- Requests leave the flights, and the queue is as before. -/
theorem landed (fs : List (Stage × InferenceRequest ν)) (fate : Fate)
    (hflights : s.flights.Perm (fs ++ s'.flights))
    (hqueue : ids (stored s'.scheduler) = ids (stored s.scheduler)) :
    Conserves s [] (depart fate (fs.map Prod.snd)) s' := by
  have hids := ids_flights hflights
  simp only [List.map_append, ids_append] at hids
  simp only [Conserves, whole, inFlight, gone_depart, hids, hqueue, Multiset.coe_nil, add_zero]
  abel

/-- Nothing moves but within the flights. -/
theorem still (hflights : ids s'.inFlight = ids s.inFlight)
    (hqueue : ids (stored s'.scheduler) = ids (stored s.scheduler)) : Conserves s [] [] s' := by
  simp only [Conserves, whole, hflights, hqueue, gone_nil, Multiset.coe_nil, add_zero, zero_add]

theorem refl : Conserves s [] [] s := still rfl rfl

theorem frame (hlegacy : s'.legacy = s.legacy) (htasks : s'.tasks = s.tasks)
    (hscheduler : s'.scheduler = s.scheduler) : Conserves s [] [] s' :=
  still (by simp only [inFlight, flights, hlegacy, htasks]) (by rw [hscheduler])

/-- A request goes from the flights back to the queue. -/
theorem requeued (stage : Stage) {req queued : InferenceRequest ν}
    (hflights : s.flights.Perm ((stage, req) :: s'.flights))
    (hqueue : (stored s'.scheduler).Perm (queued :: stored s.scheduler))
    (hid : queued.objId = req.objId) : Conserves s [] [] s' := by
  have hids := ids_flights hflights
  simp only [List.map_cons, ids_cons] at hids
  simp only [Conserves, whole, inFlight, hids, ids_perm hqueue, ids_cons, hid, gone_nil,
    Multiset.coe_nil, add_zero]
  abel

end Conserves

theorem legacyTop_conserves (first : Rat) (clock : Nat → Rat) (dispatchTime : Rat) {s : Server ν}
    (hinv : AccountedScheduler.Inv s.scheduler) :
    Conserves s [] [] (s.legacyTop config first clock dispatchTime) := by
  rcases collectBatch_spec config.scheduling.maxConcurrentDispatch first clock hinv with ⟨-, hperm⟩
  have hids := ids_perm hperm
  unfold legacyTop
  split
  · next hlegacy =>
      split
      · exact .refl
      · dsimp only
        split
        · next hempty =>
            simp only [List.isEmpty_iff.mp hempty, List.nil_append] at hids
            exact .still rfl hids.symm
        · simp only [Conserves, whole, inFlight, flights, hlegacy, LegacyLoop.flights, hids, log,
            record, recordAll, List.map_append, List.map_map, Function.comp_def, List.map_id',
            ids_append, List.map_nil, ids_nil, gone_nil, Multiset.coe_nil, add_zero]
          abel
  · exact .refl

/-! ### Results of the single loop -/

theorem legacyReturned_conserves {maxRetries : Nat} (result : Except PyError (List DispatchResult))
    {s : Server ν} (hsound : Sound maxRetries s.view)
    (hanswered : WellAnswered s (.legacyReturned result)) :
    Conserves s [] (departures config pb s (.legacyReturned result)) (s.legacyReturned result) := by
  cases hlegacy : s.legacy with
  | dispatching batch =>
      have hflights : s.flights =
          (batch.map fun req => (Stage.dispatching, req)) ++
            s.tasks.flatMap DispatchTask.flights := by
        simp [flights, hlegacy, LegacyLoop.flights]
      cases result with
      | error e =>
          have hbatch : depart .failed batch =
              depart .failed ((batch.map fun req => (Stage.dispatching, req)).map Prod.snd) := by
            simp [Function.comp_def]
          simp only [legacyReturned, departures, hlegacy, hbatch]
          exact .landed _ .failed (List.Perm.of_eq hflights) rfl
      | ok results =>
          have hanswers : AnswersOf results batch := hanswered batch hlegacy
          have hnodup : (batch.map InferenceRequest.objId).Nodup := by
            have hall := flights_nodup hsound
            simp only [inFlight, hflights, List.map_append, List.map_map] at hall
            exact (List.nodup_append.mp hall).1
          -- each request of the batch has its result
          have hids := ids_perm (hanswers.answered_snd hnodup)
          apply Conserves.still
          · simp only [legacyReturned, hlegacy, inFlight, flights, LegacyLoop.flights, waiting, log,
              List.map_append, List.map_map, Function.comp_def, List.map_id', ids_append, hids]
          · simp only [legacyReturned, hlegacy, log]
  | _ =>
      cases result <;> simp only [legacyReturned, departures, hlegacy] <;> exact .refl

theorem legacyResult_conserves (issuedAt now : Rat) (m : Moment ν) {s : Server ν}
    (hwired : Wired s) (hsound : Sound (maxRetries config) s.view) :
    Conserves s [] (departures config pb s (.legacyResult issuedAt now m))
      (s.legacyResult config issuedAt now m) := by
  have hwiredLegacy := hwired.legacy
  cases hlegacy : s.legacy with
  | processing batch results =>
      simp only [hlegacy, LegacyMatched] at hwiredLegacy
      cases results with
      | nil =>
          simp only [legacyResult, departures, hlegacy]
          apply Conserves.still
          · simp [inFlight, flights, hlegacy, LegacyLoop.flights, waiting, answered]
          · rfl
      | cons result results =>
          rcases hwiredLegacy result List.mem_cons_self with ⟨req, hreq, -⟩
          have hmatched : Matched batch results :=
            fun r hr => hwiredLegacy r (List.mem_cons_of_mem result hr)
          have hfrom := flights_processing hlegacy hreq
          simp only [legacyResult, departures, hlegacy]
          cases hsuccess : result.success with
          | true =>
              apply Conserves.still
              · simp only [inFlight, hfrom]
                simp [flights, LegacyLoop.flights, log, record, hreq]
              · rfl
          | false =>
              simp only [hreq, Bool.false_eq_true, if_false]
              cases hretry : mayRetry config req with
              | true =>
                  simp only [Option.filter_some, hretry, if_true]
                  rcases AccountedScheduler.resubmit_spec m (retried req) hwired.scheduler with
                    ⟨-, -, hrequeues⟩
                  cases hraised : (Scheduler.resubmit m (retried req) s.scheduler).raised with
                  | some e =>
                      have hqueue := hrequeues.refused (by simp [hraised])
                      exact Conserves.landed (LegacyLoop.flights _) .failed
                        (by simp [flights, hlegacy, LegacyLoop.flights]) (by simp only [hqueue])
                  | none =>
                      rcases hrequeues.accepted hraised with ⟨queued, hunstamped, hperm⟩
                      have hchanged := waiting_retried hlegacy hreq hsound hmatched
                      have hid := congrArg InferenceRequest.objId hunstamped
                      refine Conserves.requeued (.returned result.success) (List.Perm.of_eq ?_) hperm
                        (by simpa [InferenceRequest.unstamped, retried] using hid)
                      rw [hfrom]
                      simp [flights, LegacyLoop.flights, log, record, hchanged]
              | false =>
                  simp only [Option.filter_some, hretry, Bool.false_eq_true, if_false,
                    Option.toList_some]
                  refine Conserves.landed [(.returned result.success, req)] .failed
                    (List.Perm.of_eq ?_) rfl
                  rw [hfrom]
                  simp [flights, LegacyLoop.flights, record]
  | _ =>
      simp only [legacyResult, departures, hlegacy]
      exact .refl

theorem legacySent_conserves (outcome : SendOutcome) {s : Server ν} (hwired : Wired s) :
    Conserves s [] (departures config pb s (.legacySent outcome)) (s.legacySent outcome) := by
  have hwiredLegacy := hwired.legacy
  cases hlegacy : s.legacy with
  | sending batch result results =>
      simp only [hlegacy, LegacyMatched] at hwiredLegacy
      rcases hwiredLegacy result List.mem_cons_self with ⟨req, hreq, -⟩
      have hfrom : s.flights =
          (.responded, req) :: (waiting batch results ++ s.tasks.flatMap DispatchTask.flights) := by
        simp [flights, hlegacy, LegacyLoop.flights, hreq]
      simp only [legacySent, departures, hlegacy, hreq, Option.toList_some]
      cases outcome with
      | sent =>
          exact Conserves.landed [(.responded, req)] .answered (List.Perm.of_eq hfrom) rfl
      | zmqError message =>
          exact Conserves.landed [(.responded, req)] .failed (List.Perm.of_eq hfrom) rfl
      -- the rest of the batch goes with the loop
      | raised message =>
          exact Conserves.landed (LegacyLoop.flights _) .failed
            (by simp [flights, hlegacy, LegacyLoop.flights]) rfl
  | _ =>
      simp only [legacySent, departures, hlegacy]
      exact .refl

/-! ### The loops of the models and their tasks -/

theorem loopProceed_conserves (i : Nat) (now : Rat) {s : Server ν}
    (hinv : AccountedScheduler.Inv s.scheduler) : Conserves s [] [] (s.loopProceed i now) := by
  unfold loopProceed
  split
  · exact .refl
  · next loop hloop =>
      split
      · split
        · rcases AnyScheduler.nextBatchForModel_spec loop.modelId hinv with ⟨-, hperm, hlength, -⟩
          have hids := ids_perm hperm
          dsimp only
          split
          · next hbatch =>
              simp only [hbatch, List.nil_append] at hids
              exact .still rfl hids.symm
          · next request more hbatch =>
              -- a model-aware scheduler gives out one request at a time
              have hmore : more = [] := by simpa [hbatch] using hlength
              simp only [hbatch, hmore, ids_append, ids_cons, ids_nil, add_zero] at hids
              have hqueue : ids (stored s.scheduler) = {request.objId} +
                  ids (stored (s.scheduler.nextBatchForModel loop.modelId).2) := hids
              simp only [Conserves, whole, inFlight, flights, hqueue, log, record, updateLoop,
                List.flatMap_append, List.flatMap_cons, List.flatMap_nil, DispatchTask.flights,
                List.map_append, List.map_cons, List.map_nil, ids_append, ids_cons, ids_nil,
                gone_nil, Multiset.coe_nil, add_zero]
              abel
        · exact .frame rfl rfl rfl
      · exact .refl

namespace Conserves

variable {s s' : Server ν} {i : Nat} {task : DispatchTask ν}

/-- The task goes on, with the same request in hand. -/
theorem taskGoesOn (task' : DispatchTask ν) (htask : s.tasks[i]? = some task)
    (hsame : ids (task'.flights.map Prod.snd) = ids (task.flights.map Prod.snd))
    (hlegacy : s'.legacy = s.legacy) (htasks : s'.tasks = s.tasks.set i task')
    (hscheduler : s'.scheduler = s.scheduler) : Conserves s [] [] s' := by
  have hfrom := ids_flights (flights_at htask)
  have hto := ids_flights (flights_set task' htask hlegacy htasks)
  simp only [List.map_append, ids_append] at hfrom hto
  apply Conserves.still
  · simp only [inFlight, hfrom, hto, hsame]
  · rw [hscheduler]

end Conserves

theorem taskStart_conserves (i : Nat) (s : Server ν) : Conserves s [] [] (s.taskStart i) := by
  unfold taskStart
  split
  · exact .refl
  · next task htask =>
      split
      · next hpc =>
          exact .taskGoesOn { task with pc := .dispatching } htask
            (by simp [DispatchTask.flights, hpc]) rfl rfl rfl
      · exact .refl

theorem taskReturned_conserves (i : Nat) (result : Except PyError (List DispatchResult))
    {s : Server ν} (hanswered : WellAnswered s (.taskReturned i result)) :
    Conserves s [] (departures config pb s (.taskReturned i result)) (s.taskReturned i result) := by
  cases htask : s.tasks[i]? with
  | none =>
      cases result <;> simp only [taskReturned, departures, htask] <;> exact .refl
  | some task =>
      cases hpc : task.pc with
      | dispatching =>
          have hfrom := flights_at htask
          simp only [DispatchTask.flights, hpc] at hfrom
          cases result with
          | error e =>
              simp only [taskReturned, departures, htask, hpc, if_true]
              exact .landed [(.dispatching, task.request)] .failed hfrom rfl
          | ok results =>
              -- the call was for one request, and so there is one result
              have hanswers : AnswersOf results [task.request] := hanswered task htask hpc
              have hone : results.length = 1 := by simpa using hanswers.length_eq
              rcases List.length_eq_one_iff.mp hone with ⟨result, rfl⟩
              simp only [taskReturned, departures, htask, hpc]
              exact .taskGoesOn { task with pc := .processing [result] } htask
                (by simp [DispatchTask.flights, hpc]) rfl rfl rfl
      | _ =>
          cases result <;> simp only [taskReturned, departures, htask, hpc] <;>
            simpa using Conserves.refl

theorem taskResult_conserves (i : Nat) (issuedAt now : Rat) (m : Moment ν) {s : Server ν}
    (hwired : Wired s) (hsound : Sound (maxRetries config) s.view) :
    Conserves s [] (departures config pb s (.taskResult i issuedAt now m))
      (s.taskResult config i issuedAt now m) := by
  cases htask : s.tasks[i]? with
  | none =>
      simp only [taskResult, departures, htask]
      exact .refl
  | some task =>
      have hfrom := flights_at htask
      cases hpc : task.pc with
      | processing results =>
          cases results with
          | nil =>
              simp only [taskResult, departures, htask, hpc]
              simp only [DispatchTask.flights, hpc, List.map_nil, List.nil_append] at hfrom
              exact .still (ids_flights hfrom).symm rfl
          | cons result results =>
              simp only [DispatchTask.flights, hpc, List.map_cons, List.cons_append] at hfrom
              simp only [taskResult, departures, htask, hpc]
              cases hsuccess : result.success with
              | true =>
                  exact .taskGoesOn { task with pc := .sending result results } htask
                    (by simp [DispatchTask.flights, hpc]) rfl rfl rfl
              | false =>
                  simp only [Bool.false_eq_true, if_false]
                  cases hretry : mayRetry config task.request with
                  | true =>
                      simp only [if_true]
                      rcases AccountedScheduler.resubmit_spec m (retried task.request)
                        hwired.scheduler with ⟨-, -, hrequeues⟩
                      cases hraised :
                          (Scheduler.resubmit m (retried task.request) s.scheduler).raised with
                      | some e =>
                          have hqueue := hrequeues.refused (by simp [hraised])
                          refine Conserves.landed task.flights .failed (flights_at htask) ?_
                          simp only [finishTask, updateLoop, hqueue]
                      | none =>
                          rcases hrequeues.accepted hraised with ⟨queued, hunstamped, hperm⟩
                          have hlast : results = [] := last_result hsound hfrom
                          subst hlast
                          have hid := congrArg InferenceRequest.objId hunstamped
                          refine Conserves.requeued (.returned result.success) ?_ hperm
                            (by simpa [InferenceRequest.unstamped, retried] using hid)
                          show s.flights.Perm ([(.returned result.success, task.request)] ++ _)
                          exact flights_next
                            { task with request := retried task.request, pc := .processing [] }
                            htask hfrom rfl rfl
                  | false =>
                      simp only [Bool.false_eq_true, if_false]
                      refine Conserves.landed [(.returned result.success, task.request)] .failed ?_ rfl
                      exact flights_next { task with pc := .processing results } htask hfrom rfl rfl
      | _ =>
          simp only [taskResult, departures, htask, hpc]
          exact .refl

theorem taskSent_conserves (i : Nat) (outcome : SendOutcome) (s : Server ν) :
    Conserves s [] (departures config pb s (.taskSent i outcome)) (s.taskSent i outcome) := by
  cases htask : s.tasks[i]? with
  | none =>
      simp only [taskSent, departures, htask]
      exact .refl
  | some task =>
      have hfrom := flights_at htask
      cases hpc : task.pc with
      | sending result results =>
          simp only [DispatchTask.flights, hpc, List.cons_append] at hfrom
          simp only [taskSent, departures, htask, hpc]
          cases outcome with
          | sent =>
              refine Conserves.landed [(.responded, task.request)] .answered ?_ rfl
              exact flights_next { task with pc := .processing results } htask hfrom rfl rfl
          | zmqError message =>
              refine Conserves.landed [(.responded, task.request)] .failed ?_ rfl
              exact flights_next { task with pc := .processing results } htask hfrom rfl rfl
          | raised message =>
              exact .landed task.flights .failed (flights_at htask) rfl
      | _ =>
          simp only [taskSent, departures, htask, hpc]
          exact .refl

/-! ### The tick loop and the receive loop -/

/-- What the checks of a tick take out of the queue. -/
theorem checkClients_queue (now : String → Rat) (clientIds : List String) {s : Server ν}
    (hinv : AccountedScheduler.Inv s.scheduler) :
    ids (stored s.scheduler) =
      ids (removals (fun c => s.isSilent config (now c) c) clientIds s.scheduler) +
        ids (stored (clientIds.foldl
          (fun s clientId => s.checkClient config (now clientId) clientId) s).scheduler) := by
  induction clientIds generalizing s with
  | nil => simp [removals]
  | cons first clientIds ih =>
      have hcadence : (s.checkClient config (now first) first).cadence = s.cadence := by
        rcases checkClient_frame config (now first) first s with ⟨_, _, _, hframe⟩
        rw [hframe]
      have hsilent : ∀ c, (s.checkClient config (now first) first).isSilent config (now c) c =
          s.isSilent config (now c) c := by
        intro c
        simp [isSilent, hcadence]
      cases hfirst : s.isSilent config (now first) first with
      | false =>
          have hsame : (s.checkClient config (now first) first).scheduler = s.scheduler := by
            simp [checkClient, hfirst]
          have hrest := ih (s := s.checkClient config (now first) first) (hsame ▸ hinv)
          simpa only [List.foldl_cons, removals, hfirst, Bool.false_eq_true, if_false, hsilent,
            hsame] using hrest
      | true =>
          have hnext : (s.checkClient config (now first) first).scheduler =
              Scheduler.onClientDisconnected first s.scheduler := by
            simp [checkClient, hfirst, log, record]
          rcases AccountedScheduler.disconnected_spec first hinv with ⟨hinv', -, hperm⟩
          have hrest := ih (s := s.checkClient config (now first) first) (hnext ▸ hinv')
          simp only [hsilent, hnext] at hrest
          have hsplit := ids_perm (List.filter_append_perm
            (fun r => leaves s.scheduler first r) (stored s.scheduler))
          simp only [ids_append] at hsplit
          simp only [List.foldl_cons, removals, hfirst, if_true, ids_append, ← hsplit,
            ← ids_perm hperm, hrest]
          abel

theorem tick_conserves (expiry : InferenceRequest ν → Rat) (now : String → Rat) {s : Server ν}
    (hinv : AccountedScheduler.Inv s.scheduler) :
    Conserves s [] (departures config pb s (.tick expiry now)) (s.tick config expiry now) := by
  rcases AccountedScheduler.tick_spec expiry hinv with ⟨hinv', -, hperm, -⟩
  -- the state in which the checks start
  have hstart : ∃ s' : Server ν, s.tick config expiry now = s.clients.clients.keys.foldl
      (fun s clientId => s.checkClient config (now clientId) clientId) s' ∧
        s'.scheduler = (Scheduler.tick expiry s.scheduler).2 ∧ s'.cadence = s.cadence := by
    unfold tick
    dsimp only
    split
    · exact ⟨_, rfl, rfl, rfl⟩
    · exact ⟨_, rfl, rfl, rfl⟩
  rcases hstart with ⟨s', htick, hscheduler, hcadence⟩
  have hsilent : ∀ c, s'.isSilent config (now c) c = s.isSilent config (now c) c := by
    intro c
    simp [isSilent, hcadence]
  have hchecks := checkClients_queue config now s.clients.clients.keys (hscheduler ▸ hinv')
  simp only [hsilent, hscheduler, ← htick] at hchecks
  have hsplit := ids_perm (List.filter_append_perm (fun r => isExpired (expiry r)
    (AccountedScheduler.config s.scheduler).requestTtlMs r) (stored s.scheduler))
  simp only [ids_append, ← ids_perm hperm, hchecks] at hsplit
  rcases tick_frame config expiry now s with ⟨_, _, _, hframe⟩
  have hflights : ids (s.tick config expiry now).inFlight = ids s.inFlight := by
    simp only [hframe, inFlight, flights]
  simp only [Conserves, whole, departures, gone_append, gone_depart, hflights, ← hsplit,
    Multiset.coe_nil, add_zero]
  abel

theorem submit_conserves (m : Moment ν) (request : InferenceRequest ν) {q : AnyScheduler ν}
    (hinv : AccountedScheduler.Inv q) :
    let o := Scheduler.submit m request q
    ids (stored q) + {request.objId} = ids o.dropped.toList +
      (if o.raised = none then 0 else {request.objId}) + ids (stored o.state) := by
  intro o
  rcases submit_spec m request hinv with ⟨-, -, kept, hdrop, haccept, hrefuse⟩
  have hids := ids_perm hdrop
  simp only [ids_append] at hids
  cases hraised : o.raised with
  | none =>
      rcases haccept hraised with ⟨queued, hunstamped, hperm⟩
      have hid : queued.objId = request.objId := by
        simpa [InferenceRequest.unstamped] using congrArg InferenceRequest.objId hunstamped
      simp only [hids, ids_perm hperm, ids_cons, hid, if_true, o]
      abel
  | some e =>
      have hsome : o.raised ≠ none := by simp [hraised]
      have hperm := hrefuse hsome
      simp only [hids, ids_perm hperm, reduceCtorEq, if_false, o]
      abel

/-- An accepted observation is submitted, and nothing in flight moves. -/
theorem receive_after {msg : IncomingObservation} (clock : ReceiveClock)
    {decoded : DecodedObservation ν}
    (hdecode : decode pb clock.nowNs msg.envelope msg.payload msg.receivedAt = .ok decoded)
    (m : Moment ν) (s : Server ν) :
    (s.receive config pb msg clock m).scheduler =
        (Scheduler.submit m (s.requestOf config msg clock decoded)
          (s.track msg decoded clock.tracked).scheduler).state ∧
      (s.receive config pb msg clock m).flights = s.flights := by
  constructor
  · rw [receive_accepted config pb clock hdecode]
    exact submitRequest_scheduler config m _ _
  · rcases receive_frame config pb clock hdecode m s with ⟨_, _, _, _, hreceive⟩
    rcases track_frame msg decoded clock.tracked s with ⟨_, _, _, _, _, htrack⟩
    rw [hreceive]
    simp only [flights, log, htrack]

theorem receive_conserves (msg : IncomingObservation) (clock : ReceiveClock) (m : Moment ν)
    {s : Server ν} (hinv : AccountedScheduler.Inv s.scheduler) :
    Conserves s (admitted pb s (.receive msg clock m)) (departures config pb s (.receive msg clock m))
      (s.receive config pb msg clock m) := by
  cases hdecode : decode pb clock.nowNs msg.envelope msg.payload msg.receivedAt with
  | error e =>
      rcases receive_rejected_frame config pb clock hdecode m s with ⟨_, hreceive⟩
      simp only [admitted, departures, hdecode, hreceive]
      exact .frame rfl rfl rfl
  | ok decoded =>
      rcases track_queue msg decoded clock.tracked hinv with ⟨hinv', -, hperm⟩
      rcases receive_after config pb clock hdecode m s with ⟨hscheduler, hflights⟩
      have hqueue := submit_conserves m (s.requestOf config msg clock decoded) hinv'
      have hid : (s.requestOf config msg clock decoded).objId = s.nextObj := rfl
      simp only [Conserves, whole, inFlight, admitted, departures, hdecode, hflights, hscheduler,
        ← ids_perm hperm, ← hid, gone_append, gone_depart, Multiset.coe_singleton]
      -- the request is queued, refused, or lost when scoring raises
      split
      · next hnone =>
          simp only [hnone, if_true, add_zero] at hqueue
          rw [add_right_comm, hqueue]
          simp only [gone_nil]
          abel
      · next hfull =>
          simp only [hfull, reduceCtorEq, if_false] at hqueue
          rw [add_right_comm, hqueue]
          simp only [gone_depart, ids_cons, ids_nil, add_zero]
          abel
      · next hsome =>
          simp only [hsome, reduceCtorEq, if_false] at hqueue
          rw [add_right_comm, hqueue]
          simp only [gone_depart, ids_cons, ids_nil, add_zero]
          abel

/-- Every step conserves the requests, but for a swap. -/
theorem step_conserves {s : Server ν} {a : Action ν} (h : Delivering config s)
    (hanswered : WellAnswered s a) (hswap : ¬ a.IsSwap) :
    Conserves s (admitted pb s a) (departures config pb s a) (step config pb s a) := by
  have hinv := h.wired.scheduler
  cases a with
  | receive msg clock m => exact receive_conserves config pb msg clock m hinv
  | tick expiry now => exact tick_conserves config pb expiry now hinv
  | predictiveWake now =>
      rcases predictiveWake_frame config now s with ⟨_, heq⟩
      simp only [step, heq]
      exact .frame rfl rfl rfl
  | useScheduler registered strategy policy weights => exact absurd trivial hswap
  | legacyTop first clock dispatchTime =>
      exact legacyTop_conserves config first clock dispatchTime hinv
  | legacyReturned result => exact legacyReturned_conserves config pb result h.sound hanswered
  | legacyResult issuedAt now m =>
      exact legacyResult_conserves config pb issuedAt now m h.wired h.sound
  | legacySent outcome => exact legacySent_conserves config pb outcome h.wired
  | loopAcquire i =>
      rcases loopAcquire_frame i s with ⟨_, heq⟩
      simp only [step, heq]
      exact .frame rfl rfl rfl
  | loopProceed i now => exact loopProceed_conserves i now hinv
  | loopResume i woken =>
      rcases loopResume_frame i woken s with ⟨_, heq⟩
      simp only [step, heq]
      exact .frame rfl rfl rfl
  | taskStart i => exact taskStart_conserves i s
  | taskReturned i result => exact taskReturned_conserves config pb i result hanswered
  | taskResult i issuedAt now m =>
      exact taskResult_conserves config pb i issuedAt now m h.wired h.sound
  | taskSent i outcome => exact taskSent_conserves config pb i outcome s

/-! ## The ids of accepted requests -/

/-- A tick reports clients, and nothing else. -/
theorem tick_history (expiry : InferenceRequest ν → Rat) (now : String → Rat) (s : Server ν) :
    ∃ events, (s.tick config expiry now).history = s.history ++ events ∧
      events.filterMap Event.requestId = [] := by
  let reports : Server ν → Server ν → Prop := fun s s' =>
    ∃ events, s'.history = s.history ++ events ∧ events.filterMap Event.requestId = []
  have hchecks : ∀ (s : Server ν) (clientIds : List String), reports s
      (clientIds.foldl (fun s clientId => s.checkClient config (now clientId) clientId) s) := by
    apply foldl_rel reports
    · exact fun s => ⟨[], by simp, rfl⟩
    · rintro s₁ s₂ s₃ ⟨events, h, hnil⟩ ⟨events', h', hnil'⟩
      exact ⟨events ++ events', by simp [h, h'], by simp [hnil, hnil']⟩
    · intro s clientId
      unfold checkClient
      split
      · exact ⟨_, rfl, rfl⟩
      · exact ⟨[], by simp, rfl⟩
  unfold tick
  dsimp only
  split
  · exact hchecks _ _
  · exact hchecks _ _

/-- An accepted request gets the next id. -/
theorem step_requestIds (s : Server ν) (a : Action ν) :
    (step config pb s a).requestIds = s.requestIds ++ admitted pb s a ∧
      (step config pb s a).nextObj = s.nextObj + (admitted pb s a).length := by
  by_cases hreceive : a.IsReceive
  · cases a with
    | receive msg clock m =>
        cases hdecode : decode pb clock.nowNs msg.envelope msg.payload msg.receivedAt with
        | error e =>
            rcases receive_rejected_frame config pb clock hdecode m s with ⟨_, hframe⟩
            simp [step, hframe, hdecode, admitted, requestIds]
        | ok decoded =>
            rcases receive_frame config pb clock hdecode m s with ⟨_, _, _, _, hframe⟩
            have htrack : (s.track msg decoded clock.tracked).history.filterMap Event.requestId =
                s.history.filterMap Event.requestId := by
              cases hnew : (s.clients.onObservation decoded.clientId decoded.modelId).1 <;>
                simp [track, hnew, record, log, Event.requestId]
            simp only [step, hframe, admitted, hdecode]
            simp [requestIds, log, htrack, Event.requestId, requestOf, buildRequest]
    | _ => exact absurd hreceive id
  · rcases step_frame config pb s hreceive with ⟨_, _, _, _, _, _, _, hframe⟩
    have hnone : admitted pb s a = [] := by
      cases a with
      | receive msg clock m => exact absurd trivial hreceive
      | _ => rfl
    have hhistory : ∃ events, (step config pb s a).history = s.history ++ events ∧
        events.filterMap Event.requestId = [] := by
      by_cases htick : a.IsTick
      · cases a with
        | tick expiry now => exact tick_history config expiry now s
        | _ => exact absurd htick id
      · rcases step_logs config pb s hreceive htick with ⟨events, hhistory, hwork⟩
        refine ⟨events, hhistory, List.filterMap_eq_nil_iff.mpr ?_⟩
        intro e he
        exact (hwork e he).no_requestId
    rcases hhistory with ⟨events, hhistory, hnil⟩
    constructor
    · simp [requestIds, hhistory, hnil, hnone]
    · simp [hframe, hnone]

end Steps
end Server
end Inferential
