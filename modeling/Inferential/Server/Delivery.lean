import Inferential.Server.Refinement

/-!
# Delivery — dispatching and answering are flows of requests

The single loop and the tasks of the models do the same to a request in flight: it goes on, it is
queued again, or it leaves.  There is one lemma for each of these, and the two are instances.
-/

namespace Inferential

open PyStd

variable {ν : Type} [Score ν]

namespace Server

/-! ## Requests in flight -/

section InFlight

variable {s s' : Server ν} {leaky : Prop}

omit [Score ν] in
/-- Flights that are singled out, in the whole roster. -/
theorem roster_split (gone : List (Stage × InferenceRequest ν))
    {fs rest : List (Stage × InferenceRequest ν)} (h : fs.Perm (gone ++ rest))
    (queued : List Place) :
    (queued ++ places fs).Perm (places gone ++ (queued ++ places rest)) := by
  have hplaces : (places fs).Perm (places gone ++ places rest) := by
    simpa [places] using h.map fun f => place f.1 f.2
  calc
    List.Perm (queued ++ places fs) (queued ++ (places gone ++ places rest)) :=
      hplaces.append_left _
    List.Perm _ (places gone ++ (queued ++ places rest)) := by
      rw [← List.append_assoc, ← List.append_assoc]
      exact List.perm_append_comm.append_right _

/-- A request in flight goes one step. -/
theorem flight_advances {maxRetries : Nat} {start stop : Stage} {req : InferenceRequest ν}
    {e : Event ν} {rest : List (Stage × InferenceRequest ν)} (points : List MetricPoint)
    (hadvance : Advance maxRetries (place start req) e (place stop req))
    (hpoints : ∀ point ∈ points, point.lost = 0) (hfrom : s.flights.Perm ((start, req) :: rest))
    (hto : s'.flights.Perm ((stop, req) :: rest)) (hscheduler : s'.scheduler = s.scheduler)
    (hhistory : s'.history = s.history ++ [e]) (hmetrics : s'.metrics = s.metrics.recordAll points)
    (hnext : s'.nextObj = s.nextObj) : Flows maxRetries leaky s.view s'.view := by
  have hto' : s'.roster.Perm (place stop req ::
      ((stored s.scheduler).map (place .queued) ++ places rest)) := by
    rw [roster, hscheduler]
    exact roster_split [(stop, req)] hto _
  exact .single (.advance (place start req) (place stop req) e _ points hadvance hpoints
    (roster_split [(start, req)] hfrom _) hto' hhistory hmetrics hnext)

/-- A failed request is queued again. -/
theorem flight_requeued {config : InferentialConfig ν} {req : InferenceRequest ν} (m : Moment ν)
    (points : List MetricPoint) (hretry : mayRetry config req = true)
    (hinv : AccountedScheduler.Inv s.scheduler)
    (hraised : (Scheduler.resubmit m (retried req) s.scheduler).raised = none)
    (hpoints : ∀ point ∈ points, point.lost = 0)
    (hflights : s.flights.Perm ([(.returned false, req)] ++ s'.flights))
    (hscheduler : s'.scheduler = (Scheduler.resubmit m (retried req) s.scheduler).state)
    (hhistory : s'.history = s.history ++ [.requeued req.objId])
    (hmetrics : s'.metrics = s.metrics.recordAll points) (hnext : s'.nextObj = s.nextObj) :
    Flows (maxRetries config) leaky s.view s'.view := by
  obtain ⟨-, -, hrequeues⟩ := AccountedScheduler.resubmit_spec m (retried req) hinv
  obtain ⟨queued, hunstamped, hstored⟩ := hrequeues.accepted hraised
  have hlt : req.retryCount < maxRetries config := by
    simp only [mayRetry, Bool.and_eq_true, decide_eq_true_eq] at hretry
    exact hretry.2
  have hto : s'.roster.Perm (place .queued (retried req) ::
      ((stored s.scheduler).map (place .queued) ++ places s'.flights)) := by
    rw [roster, hscheduler, ← place_of_unstamped hunstamped]
    exact (hstored.map (place .queued)).append_right _
  exact .single (.advance (place (.returned false) req) _ _ _ points (.requeued rfl hlt) hpoints
    (roster_split [(.returned false, req)] hflights _) hto hhistory hmetrics hnext)

/-- Requests in flight leave, and are counted. -/
theorem flights_leave {maxRetries : Nat} (gone : List (Stage × InferenceRequest ν))
    (events : List (Event ν)) (points : List MetricPoint) (hevents : ∀ e ∈ events, e.life = none)
    (hcount : ((events.map Event.settled).sum : Rat) + (points.map MetricPoint.lost).sum =
      gone.length)
    (hflights : s.flights.Perm (gone ++ s'.flights)) (hscheduler : s'.scheduler = s.scheduler)
    (hhistory : s'.history = s.history ++ events)
    (hmetrics : s'.metrics = s.metrics.recordAll points) (hnext : s'.nextObj = s.nextObj) :
    Flows maxRetries leaky s.view s'.view := by
  refine .single (.leave (places gone) events points hevents ?_ ?_ hhistory hmetrics hnext)
  · rw [hcount, places, List.length_map]
  · simp only [view, roster, hscheduler]
    exact roster_split gone hflights _

/-- Requests in flight are lost. -/
theorem flights_lost {maxRetries : Nat} (hleaky : leaky)
    (gone : List (Stage × InferenceRequest ν)) (hflights : s.flights.Perm (gone ++ s'.flights))
    (hscheduler : s'.scheduler = s.scheduler) (hhistory : s'.history = s.history)
    (hmetrics : s'.metrics = s.metrics) (hnext : s'.nextObj = s.nextObj) :
    Flows maxRetries leaky s.view s'.view := by
  refine .single (.lose hleaky (places gone) ?_ hhistory hmetrics hnext)
  simp only [view, roster, hscheduler]
  exact roster_split gone hflights _

end InFlight

/-! ## The single loop takes requests -/

theorem collectMore_spec (maxConcurrent : Nat) (clock : Nat → Rat) (fuel : Nat)
    (batch : List (InferenceRequest ν)) {scheduler : AnyScheduler ν}
    (hinv : AccountedScheduler.Inv scheduler) :
    let collected := collectMore maxConcurrent clock fuel batch scheduler
    AccountedScheduler.Inv collected.2 ∧
      (batch ++ stored scheduler).Perm (collected.1 ++ stored collected.2) := by
  -- each round moves requests from the scheduler to the batch
  induction fuel generalizing batch scheduler with
  | zero => exact ⟨hinv, List.Perm.refl _⟩
  | succ fuel ih =>
      obtain ⟨hinv', -, hperm⟩ := AccountedScheduler.nextBatch_spec (clock fuel) hinv
      unfold collectMore
      split
      · dsimp only
        split
        · next hempty =>
            rw [List.isEmpty_iff.mp hempty, List.nil_append] at hperm
            exact ⟨hinv', hperm.append_left batch⟩
        · obtain ⟨hinv'', hperm'⟩ := ih (batch ++ (Scheduler.nextBatch (clock fuel) scheduler).1)
            hinv'
          refine ⟨hinv'', List.Perm.trans ?_ hperm'⟩
          rw [List.append_assoc]
          exact hperm.append_left batch
      · exact ⟨hinv, List.Perm.refl _⟩

/-- What is collected is what the scheduler no longer holds. -/
theorem collectBatch_spec (maxConcurrent : Nat) (first : Rat) (clock : Nat → Rat)
    {scheduler : AnyScheduler ν} (hinv : AccountedScheduler.Inv scheduler) :
    let collected := collectBatch maxConcurrent first clock scheduler
    AccountedScheduler.Inv collected.2 ∧
      (stored scheduler).Perm (collected.1 ++ stored collected.2) := by
  obtain ⟨hinv', -, hperm⟩ := AccountedScheduler.nextBatch_spec first hinv
  unfold collectBatch
  dsimp only
  split
  · exact ⟨hinv', hperm⟩
  · obtain ⟨hinv'', hperm'⟩ := collectMore_spec maxConcurrent clock maxConcurrent
      (Scheduler.nextBatch first scheduler).1 hinv'
    exact ⟨hinv'', hperm.trans hperm'⟩

section Steps

variable (config : InferentialConfig ν) (pb : Protobuf ν) {leaky : Prop} {s : Server ν}

theorem legacyTop_flows (first : Rat) (clock : Nat → Rat) (dispatchTime : Rat)
    (hwired : Wired s) :
    Wired (s.legacyTop config first clock dispatchTime) ∧
      Flows (maxRetries config) leaky s.view
        (s.legacyTop config first clock dispatchTime).view := by
  cases hlegacy : s.legacy with
  | top =>
      obtain ⟨hinv, hperm⟩ := collectBatch_spec config.scheduling.maxConcurrentDispatch first clock
        hwired.scheduler
      simp only [legacyTop, hlegacy]
      split
      · exact ⟨hwired, .refl⟩
      · generalize collectBatch config.scheduling.maxConcurrentDispatch first clock s.scheduler =
          collected at hinv hperm
        obtain ⟨batch, scheduler⟩ := collected
        split
        · next hempty =>
            rw [List.isEmpty_iff.mp hempty, List.nil_append] at hperm
            exact ⟨⟨hinv, trivial, hwired.tasks⟩, .quiet [] [] (by simp) (by simp)
              (roster_of_stored hperm (by simp [flights, hlegacy])) (by simp [view]) rfl rfl⟩
        · refine ⟨⟨hinv, trivial, hwired.tasks⟩, ?_⟩
          let rest : List Place := (stored scheduler).map (place .queued) ++
            places (s.tasks.flatMap DispatchTask.flights)
          let points : List MetricPoint :=
            ⟨"queue_depth", (Scheduler.queueLen scheduler : Int), []⟩ ::
              ⟨"batch_size", batch.length, []⟩ :: batch.map fun req =>
                ⟨"scheduling_wait_ms", (dispatchTime - req.receivedAt) * 1000,
                  [("client", req.clientId)]⟩
          -- the metrics are recorded, then all are taken, then all are handed to the dispatcher
          let recorded : FlowState ν :=
            { s.view with
              roster := batch.map (place .queued) ++ rest
              metrics := s.metrics.recordAll points }
          let allTaken : FlowState ν :=
            { recorded with
              roster := batch.map (place .taken) ++ rest
              history := s.history ++ batch.map (.taken .legacy) }
          have hrecorded : Flows (maxRetries config) leaky s.view recorded := by
            refine .quiet [] points (by simp) ?_ ?_ (by simp [recorded]) rfl rfl
            · simp [points, MetricPoint.lost, lossMetrics]
            · have hmap := (hperm.map (place .queued)).append_right
                (places (s.tasks.flatMap DispatchTask.flights))
              simpa [view, roster, flights, hlegacy, LegacyLoop.flights, recorded, rest] using hmap
          have htaken : Flows (maxRetries config) leaky recorded allTaken :=
            Flows.advanceAll batch (place .queued) (place .taken) (.taken .legacy)
              (fun req _ => .taken .legacy rfl rfl) rest
              (List.Perm.refl _) (List.Perm.refl _) rfl rfl rfl
          refine (hrecorded.trans htaken).trans (Flows.advanceAll batch (place .taken)
            (place .dispatching) (fun req => .dispatched req.objId)
            (fun req _ => .dispatched rfl) rest (List.Perm.refl _) ?_ ?_ rfl rfl)
          · simp only [view, roster, flights, LegacyLoop.flights, places, rest, List.map_append,
              List.map_map, Function.comp_def]
            rw [← List.append_assoc, ← List.append_assoc]
            exact List.perm_append_comm.append_right _
          · simp [view, log, record, recordAll, allTaken]
  | _ =>
      simp only [legacyTop, hlegacy]
      exact ⟨hwired, .refl⟩

/-! ## The single loop processes results -/

/-- No object is at two places. -/
theorem objIds_nodup {maxRetries : Nat} (hsound : Sound maxRetries s.view) :
    ((stored s.scheduler ++ s.inFlight).map InferenceRequest.objId).Nodup := by
  have hnodup := hsound.tracks.nodup
  simpa [view, roster, places, inFlight, place, List.map_append, List.map_map,
    Function.comp_def] using hnodup

theorem flights_nodup {maxRetries : Nat} (hsound : Sound maxRetries s.view) :
    (s.inFlight.map InferenceRequest.objId).Nodup := by
  have hnodup := objIds_nodup hsound
  rw [List.map_append] at hnodup
  exact (List.nodup_append.mp hnodup).2.1

theorem legacyReturned_flows {maxRetries : Nat} (result : Except PyError (List DispatchResult))
    (hleaky : Leaky config pb s (.legacyReturned result) → leaky) (hwired : Wired s)
    (hsound : Sound maxRetries s.view) (hanswered : WellAnswered s (.legacyReturned result)) :
    Wired (s.legacyReturned result) ∧
      Flows maxRetries leaky s.view (s.legacyReturned result).view := by
  cases hlegacy : s.legacy with
  | dispatching batch =>
      simp only [legacyReturned, hlegacy]
      cases result with
      | error e =>
          refine ⟨⟨hwired.scheduler, trivial, hwired.tasks⟩,
            flights_lost (hleaky ⟨batch, hlegacy⟩) s.legacy.flights ?_ rfl rfl rfl rfl⟩
          exact List.Perm.refl _
      | ok results =>
          have hanswers : AnswersOf results batch := hanswered batch hlegacy
          have hnodup : (batch.map InferenceRequest.objId).Nodup := by
            have hall := flights_nodup hsound
            simp only [inFlight, flights, hlegacy, LegacyLoop.flights, List.map_append] at hall
            simpa [List.map_map, Function.comp_def] using (List.nodup_append.mp hall).1
          -- the objects of the batch are distinct, so every result finds its request
          have hmatched := hanswers.matched hnodup
          refine ⟨⟨hwired.scheduler, hmatched, hwired.tasks⟩, ?_⟩
          let rest : List Place := (stored s.scheduler).map (place .queued) ++
            places (s.tasks.flatMap DispatchTask.flights)
          refine Flows.advanceAll (answered batch results) (fun a => place .dispatching a.2)
            (fun a => place (.returned a.1.success) a.2)
            (fun a => .returned a.1.reqId a.1.success) ?_ rest ?_ ?_ ?_ rfl rfl
          · intro a ha
            obtain ⟨result, -, hfound⟩ := List.mem_filterMap.mp ha
            obtain ⟨req, hreq, rfl⟩ := Option.map_eq_some_iff.mp hfound
            rw [← (originalOf_objId hreq).2]
            exact .returned result.success rfl
          · have hbatch := (hanswers.answered_snd hnodup).symm.map (place (ν := ν) .dispatching)
            rw [List.map_map] at hbatch
            have hfrom := roster_split (batch.map fun req => (Stage.dispatching, req))
              (List.Perm.refl (batch.map (fun req => (Stage.dispatching, req)) ++
                s.tasks.flatMap DispatchTask.flights)) ((stored s.scheduler).map (place .queued))
            simp only [view, roster, flights, hlegacy, LegacyLoop.flights]
            refine hfrom.trans (List.Perm.append_right _ ?_)
            simpa [places, List.map_map, Function.comp_def] using hbatch
          · have hto := roster_split (waiting batch results)
              (List.Perm.refl (waiting batch results ++ s.tasks.flatMap DispatchTask.flights))
              ((stored s.scheduler).map (place .queued))
            simpa [view, roster, flights, LegacyLoop.flights, log, places, waiting, rest,
              List.map_map, Function.comp_def] using hto
          · have hevents := congrArg (List.map fun result : DispatchResult =>
              (Event.returned result.reqId result.success : Event ν)) hmatched.answered_fst
            simp only [view, log]
            rw [← hevents, List.map_map]
            rfl
  | _ =>
      simp only [legacyReturned, hlegacy]
      exact ⟨hwired, .refl⟩

omit [Score ν] in
theorem waiting_cons {batch : List (InferenceRequest ν)} {result : DispatchResult}
    {req : InferenceRequest ν} (h : originalOf batch result.reqId = some req)
    (results : List DispatchResult) :
    waiting batch (result :: results) =
      (.returned result.success, req) :: waiting batch results := by
  simp [waiting, answered, h]

omit [Score ν] in
/-- While a request is in flight once, no other result of the batch is about it. -/
theorem waiting_changeIn {batch : List (InferenceRequest ν)} (req : InferenceRequest ν)
    {changed : InferenceRequest ν} {results : List DispatchResult} (hmatched : Matched batch results)
    (hid : changed.objId = req.objId)
    (hnodup : ((req :: (waiting batch results).map Prod.snd).map InferenceRequest.objId).Nodup) :
    waiting (changeIn changed batch) results = waiting batch results := by
  have hother : ∀ result ∈ results, result.reqId ≠ changed.objId := by
    intro result hresult heq
    obtain ⟨found, hfound, -⟩ := hmatched result hresult
    have hmem : (Stage.returned result.success, found) ∈ waiting batch results := by
      refine List.mem_map.mpr ⟨(result, found), List.mem_filterMap.mpr ⟨result, hresult, ?_⟩, rfl⟩
      simp [hfound]
    have hfoundId : found.objId = req.objId :=
      (originalOf_objId hfound).2.trans (heq.trans hid)
    rw [List.map_cons, List.nodup_cons] at hnodup
    exact hnodup.1 (hfoundId ▸ List.mem_map_of_mem (List.mem_map_of_mem hmem))
  unfold waiting
  rw [answered_changeIn hother]

omit [Score ν] in
theorem Matched.changeIn {batch : List (InferenceRequest ν)} {results : List DispatchResult}
    (h : Matched batch results) (req : InferenceRequest ν) {changed : InferenceRequest ν}
    (hreq : originalOf batch changed.objId = some req) (hidentity : changed.identity = req.identity) :
    Matched (changeIn changed batch) results := by
  intro result hresult
  obtain ⟨found, hfound, hfoundIdentity⟩ := h result hresult
  rw [originalOf_changeIn, hfound]
  refine ⟨_, rfl, ?_⟩
  dsimp only
  split
  · next heq =>
      -- both lookups are for the same object
      rw [← heq, (originalOf_objId hfound).2, hfound, Option.some.injEq] at hreq
      rw [hidentity, ← hreq, hfoundIdentity]
  · exact hfoundIdentity

section Result

variable {batch : List (InferenceRequest ν)} {result : DispatchResult}
  {results : List DispatchResult} {req : InferenceRequest ν}
  (hlegacy : s.legacy = .processing batch (result :: results))
  (hreq : originalOf batch result.reqId = some req)

include hlegacy hreq

/-- The request of the first result is in flight. -/
theorem flights_processing : s.flights = (.returned result.success, req) ::
    (waiting batch results ++ s.tasks.flatMap DispatchTask.flights) := by
  simp [flights, hlegacy, LegacyLoop.flights, waiting_cons hreq]

/-- The other results are about other requests, so that a retry does not change them. -/
theorem waiting_retried {maxRetries : Nat} (hsound : Sound maxRetries s.view)
    (hmatched : Matched batch results) :
    waiting (changeIn (retried req) batch) results = waiting batch results := by
  have hnodup := flights_nodup hsound
  simp only [inFlight, flights_processing hlegacy hreq, List.map_cons, List.map_append] at hnodup
  rw [← List.cons_append] at hnodup
  refine waiting_changeIn req hmatched rfl ?_
  simpa using (List.nodup_append.mp hnodup).1

/-- The response goes out. -/
theorem legacyResult_responds {maxRetries : Nat} (hwired : Wired s) (hsuccess : result.success = true)
    (hidentity : req.identity = result.identity) (issuedAt now : Rat) (m : Moment ν) :
    Wired (s.legacyResult config issuedAt now m) ∧
      Flows maxRetries leaky s.view (s.legacyResult config issuedAt now m).view := by
  have hmatched : Matched batch (result :: results) := by
    have hwiredLegacy := hwired.legacy
    rwa [hlegacy] at hwiredLegacy
  have hfrom := flights_processing hlegacy hreq
  rw [hsuccess] at hfrom
  simp only [legacyResult, hlegacy, hsuccess, if_true]
  refine ⟨⟨hwired.scheduler, hmatched, hwired.tasks⟩, flight_advances
    [⟨"e2e_latency_ms", _, [("client", result.clientId)]⟩,
      ⟨"inference_latency_ms", result.latencyMs, [("client", result.clientId)]⟩]
    (.responded (p := place (.returned true) req) rfl) ?_ (List.Perm.of_eq hfrom)
    (List.Perm.of_eq ?_) rfl ?_ rfl rfl⟩
  · simp [MetricPoint.lost, lossMetrics]
  · simp [flights, LegacyLoop.flights, log, record, hreq]
  · simp [log, record, place, (originalOf_objId hreq).2, hidentity]

/-- The request is queued again, unless scoring raises: then the loop ends, and the whole batch with
it. -/
theorem legacyResult_retries (hwired : Wired s) (hsound : Sound (maxRetries config) s.view)
    (hmatched : Matched batch results) (hfailed : result.success = false)
    (hretry : mayRetry config req = true) (issuedAt now : Rat) (m : Moment ν)
    (hleaky : Leaky config pb s (.legacyResult issuedAt now m) → leaky) :
    Wired (s.legacyResult config issuedAt now m) ∧
      Flows (maxRetries config) leaky s.view (s.legacyResult config issuedAt now m).view := by
  obtain ⟨hinv, -, hrequeues⟩ :=
    AccountedScheduler.resubmit_spec m (retried req) hwired.scheduler
  have hfrom := flights_processing hlegacy hreq
  rw [hfailed] at hfrom
  simp only [legacyResult, hlegacy, hfailed, hreq, Option.filter_some, hretry, Bool.false_eq_true,
    if_false, if_true]
  cases hraised : (Scheduler.resubmit m (retried req) s.scheduler).raised with
  | some e =>
      have hscore : s.scheduler.ScoreRaises m (retried req) :=
        (AnyScheduler.resubmit_raised_iff m (retried req) s.scheduler).mp (by simp [hraised])
      have hlost : leaky :=
        hleaky ⟨batch, result, results, req, hlegacy, hfailed, hreq, hretry, hscore⟩
      exact ⟨⟨hinv, trivial, hwired.tasks⟩, flights_lost hlost s.legacy.flights (List.Perm.refl _)
        (hrequeues.refused (by simp [hraised])) rfl rfl rfl⟩
  | none =>
      have hchanged := waiting_retried hlegacy hreq hsound hmatched
      have hmatched' : Matched (changeIn (retried req) batch) results :=
        hmatched.changeIn req (by rw [← hreq, ← (originalOf_objId hreq).2]; rfl) rfl
      refine ⟨⟨hinv, hmatched', hwired.tasks⟩, flight_requeued m
        [⟨"dispatch_retries", 1, [("client", result.clientId)]⟩] hretry
        hwired.scheduler hraised ?_ (List.Perm.of_eq ?_) rfl rfl rfl rfl⟩
      · simp [MetricPoint.lost, lossMetrics]
      · rw [hfrom]
        simp [flights, LegacyLoop.flights, log, record, hchanged]

/-- No retries are left: the request is given up. -/
theorem legacyResult_givesUp {maxRetries : Nat} (hwired : Wired s)
    (hmatched : Matched batch results) (hfailed : result.success = false)
    (hretry : mayRetry config req = false) (issuedAt now : Rat) (m : Moment ν) :
    Wired (s.legacyResult config issuedAt now m) ∧
      Flows maxRetries leaky s.view (s.legacyResult config issuedAt now m).view := by
  have hfrom := flights_processing hlegacy hreq
  rw [hfailed] at hfrom
  simp only [legacyResult, hlegacy, hfailed, hreq, Option.filter_some, hretry, Bool.false_eq_true,
    if_false]
  refine ⟨⟨hwired.scheduler, hmatched, hwired.tasks⟩, flights_leave [(.returned false, req)] []
    [⟨"dispatch_errors", 1, [("client", result.clientId), ("error", errorLabel result)]⟩] (by simp)
    ?_ (List.Perm.of_eq hfrom) rfl ?_ rfl rfl⟩
  · simp [MetricPoint.lost, lossMetrics]
  · simp [record]

end Result

theorem legacyResult_flows (issuedAt now : Rat) (m : Moment ν)
    (hleaky : Leaky config pb s (.legacyResult issuedAt now m) → leaky)
    (hwired : Wired s) (hsound : Sound (maxRetries config) s.view) :
    Wired (s.legacyResult config issuedAt now m) ∧
      Flows (maxRetries config) leaky s.view (s.legacyResult config issuedAt now m).view := by
  have hwiredLegacy := hwired.legacy
  cases hlegacy : s.legacy with
  | processing batch results =>
      rw [hlegacy] at hwiredLegacy
      cases results with
      | nil =>
          simp only [legacyResult, hlegacy]
          refine ⟨⟨hwired.scheduler, trivial, hwired.tasks⟩, .quiet [] [] (by simp) (by simp) ?_
            (by simp [view]) rfl rfl⟩
          exact roster_of_stored (List.Perm.refl _)
            (by simp [flights, hlegacy, LegacyLoop.flights, waiting, answered])
      | cons result results =>
          obtain ⟨req, hreq, hidentity⟩ := hwiredLegacy result List.mem_cons_self
          have hmatched : Matched batch results :=
            fun r hr => hwiredLegacy r (List.mem_cons_of_mem result hr)
          cases hsuccess : result.success with
          | true =>
              exact legacyResult_responds config hlegacy hreq hwired hsuccess hidentity issuedAt now m
          | false =>
              cases hretry : mayRetry config req with
              | true =>
                  exact legacyResult_retries config pb hlegacy hreq hwired hsound hmatched hsuccess
                    hretry issuedAt now m hleaky
              | false =>
                  exact legacyResult_givesUp config hlegacy hreq hwired hmatched hsuccess hretry
                    issuedAt now m
  | _ =>
      simp only [legacyResult, hlegacy]
      exact ⟨hwired, .refl⟩

theorem legacySent_flows {maxRetries : Nat} (outcome : SendOutcome)
    (hleaky : Leaky config pb s (.legacySent outcome) → leaky) (hwired : Wired s) :
    Wired (s.legacySent outcome) ∧ Flows maxRetries leaky s.view (s.legacySent outcome).view := by
  have hwiredLegacy := hwired.legacy
  cases hlegacy : s.legacy with
  | sending batch result results =>
      rw [hlegacy] at hwiredLegacy
      obtain ⟨req, hreq, -⟩ := hwiredLegacy result List.mem_cons_self
      have hmatched : Matched batch results :=
        fun r hr => hwiredLegacy r (List.mem_cons_of_mem result hr)
      have hfrom : s.flights =
          (.responded, req) :: (waiting batch results ++ s.tasks.flatMap DispatchTask.flights) := by
        simp [flights, hlegacy, LegacyLoop.flights, hreq]
      simp only [legacySent, hlegacy]
      cases outcome with
      -- the response is out, and the request is settled
      | sent =>
          refine ⟨⟨hwired.scheduler, hmatched, hwired.tasks⟩, flights_leave [(.responded, req)]
            [.sent result.reqId] [] (by simp [Event.life]) ?_ (List.Perm.of_eq hfrom) rfl rfl rfl
            rfl⟩
          simp [Event.settled]
      | zmqError message =>
          refine ⟨⟨hwired.scheduler, hmatched, hwired.tasks⟩, flights_leave [(.responded, req)] []
            [⟨"send_errors", 1, [("client", result.clientId)]⟩] (by simp) ?_
            (List.Perm.of_eq hfrom) rfl ?_ rfl rfl⟩
          · simp [MetricPoint.lost, lossMetrics]
          · simp [record]
      -- nothing catches it: the rest of the batch goes with the loop
      | raised message =>
          exact ⟨⟨hwired.scheduler, trivial, hwired.tasks⟩, flights_lost
            (hleaky ⟨batch, result, results, hlegacy⟩) s.legacy.flights (List.Perm.refl _) rfl rfl
            rfl rfl⟩
  | _ =>
      simp only [legacySent, hlegacy]
      exact ⟨hwired, .refl⟩

/-! ## The loops of the models -/

theorem loopProceed_flows {maxRetries : Nat} (i : Nat) (now : Rat) (hwired : Wired s) :
    Wired (s.loopProceed i now) ∧ Flows maxRetries leaky s.view (s.loopProceed i now).view := by
  -- the branches in which no request is handed out
  have hquiet : ∀ s' : Server ν, AccountedScheduler.Inv s'.scheduler →
      (stored s.scheduler).Perm (stored s'.scheduler) → s'.legacy = s.legacy → s'.tasks = s.tasks →
        s'.history = s.history → s'.metrics = s.metrics → s'.nextObj = s.nextObj →
          Wired s' ∧ Flows maxRetries leaky s.view s'.view := by
    intro s' hinv hstored hlegacy htasks hhistory hmetrics hnext
    refine ⟨⟨hinv, hlegacy ▸ hwired.legacy, htasks ▸ hwired.tasks⟩, .quiet [] [] (by simp) (by simp)
      (roster_of_stored hstored (by rw [flights, flights, hlegacy, htasks])) ?_ hmetrics hnext⟩
    simp [view, hhistory]
  unfold loopProceed
  split
  · exact ⟨hwired, .refl⟩
  · next loop hloop =>
      split
      · split
        · obtain ⟨hinv, hperm, hlength, -⟩ :=
            AnyScheduler.nextBatchForModel_spec loop.modelId hwired.scheduler
          generalize s.scheduler.nextBatchForModel loop.modelId = next at hinv hperm hlength
          obtain ⟨batch, scheduler⟩ := next
          cases batch with
          | nil => exact hquiet _ hinv hperm rfl rfl rfl rfl rfl
          | cons req more =>
              obtain rfl : more = [] := by simpa using hlength
              refine ⟨⟨hinv, hwired.legacy, ?_⟩, ?_⟩
              -- a task that was just created has no results yet
              · intro task htask
                rcases List.mem_append.mp htask with hold | hnew
                · exact hwired.tasks task hold
                · rw [List.mem_singleton.mp hnew]
                  trivial
              · refine .single (.advance (place .queued req) (place .taken req)
                  (.taken (.model loop.modelId) req)
                  ((stored scheduler).map (place .queued) ++ places s.flights)
                  [⟨"scheduling_wait_ms", (now - req.receivedAt) * 1000,
                      [("client", req.clientId), ("model", loop.modelId)]⟩,
                    ⟨"queue_depth", (scheduler.queueLenForModel loop.modelId : Nat),
                      [("model", loop.modelId)]⟩]
                  (.taken _ rfl rfl) ?_ ((hperm.map (place .queued)).append_right _) ?_ rfl ?_ rfl)
                · simp [MetricPoint.lost, lossMetrics]
                · refine List.Perm.trans ?_ List.perm_middle
                  refine List.Perm.append_left _ ?_
                  simpa [view, roster, flights, places, updateLoop, log, record,
                    DispatchTask.flights] using List.perm_append_singleton
                      (place .taken req) (places s.flights)
                · rfl
        · exact hquiet _ hwired.scheduler (List.Perm.refl _) rfl rfl rfl rfl rfl
      · exact ⟨hwired, .refl⟩

/-! ## The tasks -/

/-- The requests in flight that are not in the hands of the task. -/
def elsewhere (i : Nat) (s : Server ν) : List (Stage × InferenceRequest ν) :=
  s.legacy.flights ++ (s.tasks.eraseIdx i).flatMap DispatchTask.flights

section Tasks

variable {s' : Server ν} {i : Nat} {task : DispatchTask ν} (task' : DispatchTask ν)

/-- The requests of a list of tasks, those of one task first. -/
theorem flights_first {tasks : List (DispatchTask ν)} (legacy : List (Stage × InferenceRequest ν))
    (hperm : tasks.Perm (task :: s.tasks.eraseIdx i)) (hlegacy : legacy = s.legacy.flights) :
    (legacy ++ tasks.flatMap DispatchTask.flights).Perm (task.flights ++ s.elsewhere i) := by
  have hflat := hperm.flatMap_right DispatchTask.flights
  rw [List.flatMap_cons] at hflat
  rw [hlegacy, elsewhere]
  calc
    List.Perm _ (s.legacy.flights ++ (task.flights ++
        (s.tasks.eraseIdx i).flatMap DispatchTask.flights)) := hflat.append_left _
    List.Perm _ (task.flights ++ (s.legacy.flights ++
        (s.tasks.eraseIdx i).flatMap DispatchTask.flights)) := by
      rw [← List.append_assoc, ← List.append_assoc]
      exact List.perm_append_comm.append_right _

theorem flights_at (htask : s.tasks[i]? = some task) :
    s.flights.Perm (task.flights ++ s.elsewhere i) := by
  obtain ⟨hi, rfl⟩ := List.getElem?_eq_some_iff.mp htask
  exact flights_first s.legacy.flights (List.getElem_cons_eraseIdx_perm hi).symm rfl

theorem flights_set (htask : s.tasks[i]? = some task) (hlegacy : s'.legacy = s.legacy)
    (htasks : s'.tasks = s.tasks.set i task') :
    s'.flights.Perm (task'.flights ++ s.elsewhere i) := by
  obtain ⟨hi, -⟩ := List.getElem?_eq_some_iff.mp htask
  rw [flights, htasks]
  exact flights_first s'.legacy.flights (List.set_perm_cons_eraseIdx hi task')
    (congrArg LegacyLoop.flights hlegacy)

/-- The task goes on without the first of its flights. -/
theorem flights_next (htask : s.tasks[i]? = some task) {gone : List (Stage × InferenceRequest ν)}
    (hfrom : s.flights.Perm (gone ++ (task'.flights ++ s.elsewhere i)))
    (hlegacy : s'.legacy = s.legacy) (htasks : s'.tasks = s.tasks.set i task') :
    s.flights.Perm (gone ++ s'.flights) :=
  hfrom.trans ((flights_set task' htask hlegacy htasks).symm.append_left gone)

/-- The request of a task is in flight once, and so the task has no second result. -/
theorem last_result {maxRetries : Nat} (hsound : Sound maxRetries s.view) {stage : Stage}
    {req : InferenceRequest ν} {results : List DispatchResult}
    {rest : List (Stage × InferenceRequest ν)}
    (hfrom : s.flights.Perm ((stage, req) ::
      ((results.map fun result => (Stage.returned result.success, req)) ++ rest))) :
    results = [] := by
  have hnodup := flights_nodup hsound
  have hids := (hfrom.map fun f => f.2.objId).nodup_iff.mp (by
    simpa [inFlight, Function.comp_def] using hnodup)
  -- a second result would put the request in two places
  cases results with
  | nil => rfl
  | cons result results => simp at hids

theorem Wired.setTask (h : Wired s) (hinv : AccountedScheduler.Inv s'.scheduler)
    (hlegacy : s'.legacy = s.legacy) (htasks : s'.tasks = s.tasks.set i task')
    (hmatched : TaskMatched task') : Wired s' := by
  refine ⟨hinv, hlegacy ▸ h.legacy, ?_⟩
  intro t ht
  rw [htasks] at ht
  rcases List.mem_or_eq_of_mem_set ht with hold | rfl
  · exact h.tasks t hold
  · exact hmatched

theorem Wired.finishTask (h : Wired s) (hinv : AccountedScheduler.Inv s'.scheduler)
    (hlegacy : s'.legacy = s.legacy) (htasks : s'.tasks = s.tasks.eraseIdx i) : Wired s' := by
  refine ⟨hinv, hlegacy ▸ h.legacy, ?_⟩
  intro t ht
  rw [htasks] at ht
  exact h.tasks t (List.mem_of_mem_eraseIdx ht)

end Tasks

theorem taskStart_flows {maxRetries : Nat} (i : Nat) (hwired : Wired s) :
    Wired (s.taskStart i) ∧ Flows maxRetries leaky s.view (s.taskStart i).view := by
  unfold taskStart
  split
  · exact ⟨hwired, .refl⟩
  · next task htask =>
      split
      · next hpc =>
          have hfrom := flights_at htask
          simp only [DispatchTask.flights, hpc] at hfrom
          let started : DispatchTask ν := { task with pc := .dispatching }
          exact ⟨hwired.setTask started hwired.scheduler rfl rfl trivial,
            flight_advances [] (.dispatched rfl) (by simp) hfrom
              (flights_set started htask rfl rfl) rfl rfl rfl rfl⟩
      · exact ⟨hwired, .refl⟩

theorem taskReturned_flows {maxRetries : Nat} (i : Nat)
    (result : Except PyError (List DispatchResult))
    (hleaky : Leaky config pb s (.taskReturned i result) → leaky) (hwired : Wired s)
    (hanswered : WellAnswered s (.taskReturned i result)) :
    Wired (s.taskReturned i result) ∧
      Flows maxRetries leaky s.view (s.taskReturned i result).view := by
  unfold taskReturned
  split
  · exact ⟨hwired, .refl⟩
  · next task htask =>
      split
      · next hpc =>
          have hfrom := flights_at htask
          simp only [DispatchTask.flights, hpc] at hfrom
          cases result with
          | error e =>
              exact ⟨hwired.finishTask hwired.scheduler rfl rfl,
                flights_lost (hleaky ⟨task, htask, hpc⟩) _ hfrom rfl rfl rfl rfl⟩
          | ok results =>
              -- the call was for one request, and so there is one result
              have hanswers : AnswersOf results [task.request] := hanswered task htask hpc
              obtain ⟨result, rfl⟩ : ∃ result, results = [result] :=
                List.length_eq_one_iff.mp (by simpa using hanswers.length_eq)
              have hids : result.reqId = task.request.objId ∧
                  result.identity = task.request.identity := by
                simpa [AnswersOf] using hanswers
              let returned : DispatchTask ν := { task with pc := .processing [result] }
              refine ⟨hwired.setTask returned hwired.scheduler rfl rfl ?_, flight_advances []
                (.returned result.success rfl) (by simp) hfrom (flights_set returned htask rfl rfl)
                rfl ?_ rfl rfl⟩
              · simpa [TaskMatched, returned] using hids
              · simp [setTask, log, hids.1, place]
      · exact ⟨hwired, .refl⟩

section Result

variable {i : Nat} {task : DispatchTask ν} {result : DispatchResult}
  {results : List DispatchResult} (htask : s.tasks[i]? = some task)
  (hpc : task.pc = .processing (result :: results))

include htask hpc

theorem flights_task : s.flights.Perm ((.returned result.success, task.request) ::
    ((results.map fun r => (Stage.returned r.success, task.request)) ++ s.elsewhere i)) := by
  have hfrom := flights_at htask
  simpa only [DispatchTask.flights, hpc, List.map_cons, List.cons_append] using hfrom

/-- The response goes out. -/
theorem taskResult_responds {maxRetries : Nat} (hwired : Wired s) (hsuccess : result.success = true)
    (issuedAt now : Rat) (m : Moment ν) :
    Wired (s.taskResult config i issuedAt now m) ∧
      Flows maxRetries leaky s.view (s.taskResult config i issuedAt now m).view := by
  have hmatched := hwired.tasks task (List.mem_of_getElem? htask)
  simp only [TaskMatched, hpc] at hmatched
  obtain ⟨hid, hidentity⟩ := hmatched result List.mem_cons_self
  have hfrom := flights_task htask hpc
  rw [hsuccess] at hfrom
  let sending : DispatchTask ν := { task with pc := .sending result results }
  simp only [taskResult, htask, hpc, hsuccess, if_true]
  refine ⟨hwired.setTask sending hwired.scheduler rfl rfl hmatched, flight_advances
    [⟨"e2e_latency_ms", (now - task.request.receivedAt) * 1000,
        [("client", result.clientId), ("model", task.modelId)]⟩,
      ⟨"inference_latency_ms", result.latencyMs,
        [("client", result.clientId), ("model", task.modelId)]⟩]
    (.responded (p := place (.returned true) task.request) rfl) ?_ hfrom
    (flights_set sending htask rfl rfl) rfl ?_ rfl rfl⟩
  · simp [MetricPoint.lost, lossMetrics]
  · simp [setTask, log, record, place, hid, hidentity]

/-- The request is queued again, unless scoring raises: then the task ends, and its request with
it. -/
theorem taskResult_retries (hwired : Wired s) (hsound : Sound (maxRetries config) s.view)
    (hfailed : result.success = false) (hretry : mayRetry config task.request = true)
    (issuedAt now : Rat) (m : Moment ν)
    (hleaky : Leaky config pb s (.taskResult i issuedAt now m) → leaky) :
    Wired (s.taskResult config i issuedAt now m) ∧
      Flows (maxRetries config) leaky s.view (s.taskResult config i issuedAt now m).view := by
  obtain ⟨hinv, -, hrequeues⟩ :=
    AccountedScheduler.resubmit_spec m (retried task.request) hwired.scheduler
  have hfrom := flights_task htask hpc
  rw [hfailed] at hfrom
  simp only [taskResult, htask, hpc, hfailed, hretry, Bool.false_eq_true, if_false, if_true]
  cases hraised : (Scheduler.resubmit m (retried task.request) s.scheduler).raised with
  | some e =>
      have hscore : s.scheduler.ScoreRaises m (retried task.request) :=
        (AnyScheduler.resubmit_raised_iff m _ s.scheduler).mp (by simp [hraised])
      exact ⟨hwired.finishTask hinv rfl rfl, flights_lost
        (hleaky ⟨task, result, results, htask, hpc, hfailed, hretry, hscore⟩)
        _ (flights_at htask) (hrequeues.refused (by simp [hraised])) rfl rfl rfl⟩
  | none =>
      obtain rfl := last_result hsound hfrom
      let requeued : DispatchTask ν :=
        { task with request := retried task.request, pc := .processing [] }
      refine ⟨hwired.setTask requeued hinv rfl rfl (by simp [TaskMatched, requeued]),
        flight_requeued m [⟨"dispatch_retries", 1,
          [("client", result.clientId), ("model", task.modelId)]⟩] hretry
          hwired.scheduler hraised ?_ ?_ rfl rfl rfl rfl⟩
      · simp [MetricPoint.lost, lossMetrics]
      · exact flights_next requeued htask hfrom rfl rfl

/-- No retries are left: the request is given up. -/
theorem taskResult_givesUp {maxRetries : Nat} (hwired : Wired s) (hfailed : result.success = false)
    (hretry : mayRetry config task.request = false) (issuedAt now : Rat) (m : Moment ν) :
    Wired (s.taskResult config i issuedAt now m) ∧
      Flows maxRetries leaky s.view (s.taskResult config i issuedAt now m).view := by
  have hmatched := hwired.tasks task (List.mem_of_getElem? htask)
  simp only [TaskMatched, hpc] at hmatched
  have hrest := (List.forall_mem_cons.mp hmatched).2
  have hfrom := flights_task htask hpc
  rw [hfailed] at hfrom
  let next : DispatchTask ν := { task with pc := .processing results }
  simp only [taskResult, htask, hpc, hfailed, hretry, Bool.false_eq_true, if_false]
  refine ⟨hwired.setTask next hwired.scheduler rfl rfl hrest, flights_leave
    [(.returned false, task.request)] [] [⟨"dispatch_errors", 1,
      [("client", result.clientId), ("error", errorLabel result)]⟩] (by simp) ?_
    (flights_next next htask hfrom rfl rfl) rfl ?_ rfl rfl⟩
  · simp [MetricPoint.lost, lossMetrics]
  · simp [setTask, record]

end Result

theorem taskResult_flows (i : Nat) (issuedAt now : Rat) (m : Moment ν)
    (hleaky : Leaky config pb s (.taskResult i issuedAt now m) → leaky)
    (hwired : Wired s) (hsound : Sound (maxRetries config) s.view) :
    Wired (s.taskResult config i issuedAt now m) ∧
      Flows (maxRetries config) leaky s.view (s.taskResult config i issuedAt now m).view := by
  cases htask : s.tasks[i]? with
  | none =>
      simp only [taskResult, htask]
      exact ⟨hwired, .refl⟩
  | some task =>
      cases hpc : task.pc with
      | processing results =>
          cases results with
          | nil =>
              have hfrom := flights_at htask
              simp only [DispatchTask.flights, hpc, List.map_nil, List.nil_append] at hfrom
              simp only [taskResult, htask, hpc]
              refine ⟨hwired.finishTask hwired.scheduler rfl rfl, flights_leave [] [] [] (by simp)
                (by simp) hfrom rfl ?_ rfl rfl⟩
              exact (List.append_nil _).symm
          | cons result results =>
              cases hsuccess : result.success with
              | true =>
                  exact taskResult_responds config htask hpc hwired hsuccess issuedAt now m
              | false =>
                  cases hretry : mayRetry config task.request with
                  | true =>
                      exact taskResult_retries config pb htask hpc hwired hsound hsuccess hretry
                        issuedAt now m hleaky
                  | false =>
                      exact taskResult_givesUp config htask hpc hwired hsuccess hretry issuedAt now m
      | _ =>
          simp only [taskResult, htask, hpc]
          exact ⟨hwired, .refl⟩

theorem taskSent_flows {maxRetries : Nat} (i : Nat) (outcome : SendOutcome)
    (hleaky : Leaky config pb s (.taskSent i outcome) → leaky) (hwired : Wired s) :
    Wired (s.taskSent i outcome) ∧ Flows maxRetries leaky s.view (s.taskSent i outcome).view := by
  unfold taskSent
  split
  · exact ⟨hwired, .refl⟩
  · next task htask =>
      have hfrom := flights_at htask
      have htaskMatched := hwired.tasks task (List.mem_of_getElem? htask)
      split
      · next result results hpc =>
          simp only [TaskMatched, hpc] at htaskMatched
          have hrest := (List.forall_mem_cons.mp htaskMatched).2
          simp only [DispatchTask.flights, hpc, List.cons_append] at hfrom
          let next : DispatchTask ν := { task with pc := .processing results }
          split
          · refine ⟨hwired.setTask next hwired.scheduler rfl rfl hrest, flights_leave
              [(.responded, task.request)] [.sent result.reqId] [] (by simp [Event.life]) ?_
              (flights_next next htask hfrom rfl rfl) rfl rfl rfl rfl⟩
            simp [Event.settled]
          · refine ⟨hwired.setTask next hwired.scheduler rfl rfl hrest, flights_leave
              [(.responded, task.request)] [] [⟨"send_errors", 1, [("client", result.clientId)]⟩]
              (by simp) ?_ (flights_next next htask hfrom rfl rfl) rfl ?_ rfl rfl⟩
            · simp [MetricPoint.lost, lossMetrics]
            · simp [setTask, record]
          -- the exception ends the task after its response was lost
          · next message =>
              exact ⟨hwired.finishTask hwired.scheduler rfl rfl,
                flights_lost (hleaky ⟨task, result, results, htask, hpc⟩) _ (flights_at htask) rfl
                  rfl rfl rfl⟩
      · exact ⟨hwired, .refl⟩

/-! ## All steps -/

/-- Every step of the server is a flow of requests, which is leaky only if the step is. -/
theorem step_flows (a : Action ν) (hwired : Wired s) (hsound : Sound (maxRetries config) s.view)
    (hanswered : WellAnswered s a) :
    Wired (step config pb s a) ∧
      Flows (maxRetries config) (Leaky config pb s a) s.view (step config pb s a).view := by
  cases a with
  | receive msg clock m => exact receive_flows config pb msg clock m (fun h => h) hwired
  | tick expiry now => exact tick_flows config expiry now hwired
  | predictiveWake now => exact loops_flows config (predictiveWake_frame config now s) hwired
  | useScheduler registered strategy policy weights =>
      exact useScheduler_flows config trivial registered strategy policy weights hwired
  | legacyTop first clock dispatchTime =>
      exact legacyTop_flows config first clock dispatchTime hwired
  | legacyReturned result =>
      exact legacyReturned_flows config pb result (fun h => h) hwired hsound hanswered
  | legacyResult issuedAt now m =>
      exact legacyResult_flows config pb issuedAt now m (fun h => h) hwired hsound
  | legacySent outcome => exact legacySent_flows config pb outcome (fun h => h) hwired
  | loopAcquire i => exact loops_flows config (loopAcquire_frame i s) hwired
  | loopProceed i now => exact loopProceed_flows i now hwired
  | loopResume i woken => exact loops_flows config (loopResume_frame i woken s) hwired
  | taskStart i => exact taskStart_flows i hwired
  | taskReturned i result =>
      exact taskReturned_flows config pb i result (fun h => h) hwired hanswered
  | taskResult i issuedAt now m =>
      exact taskResult_flows config pb i issuedAt now m (fun h => h) hwired hsound
  | taskSent i outcome => exact taskSent_flows config pb i outcome (fun h => h) hwired

/-! ## Runs -/

/-- What every run keeps, as long as the dispatcher answers what it is asked. -/
structure Delivering (s : Server ν) : Prop where
  wired : Wired s
  sound : Sound (maxRetries config) s.view

variable {config} in
theorem init_delivering (h : init config = .ok s) : Delivering config s := by
  unfold init at h
  split at h
  · cases h
  · next scheduler hcreate =>
      cases h
      obtain ⟨hinv, hstored⟩ := AnyScheduler.createScheduler_fresh hcreate
      have hempty : stored scheduler = [] := hstored
      refine ⟨⟨hinv, trivial, by simp⟩, ⟨⟨?_, ?_, ?_⟩, ?_, ?_⟩⟩
      · simp [view, roster, flights, LegacyLoop.flights, places, hempty]
      · simp [view]
      · simp [view]
      · simpa [view, roster, flights, LegacyLoop.flights, places, hempty, lives] using
          Lifecycle.Tracks.nil
      · simp [view, lives]

variable {config pb} in
theorem Delivering.step {a : Action ν} (h : Delivering config s)
    (hanswered : WellAnswered s a) : Delivering config (step config pb s a) := by
  obtain ⟨hwired, hflows⟩ := step_flows config pb a h.wired h.sound hanswered
  exact ⟨hwired, hflows.sound h.sound⟩

end Steps

end Server
end Inferential
