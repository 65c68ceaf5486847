import Inferential.Machine.Simulation
import Inferential.Server.Attempts

/-!
# Paths — the single loop and the tasks do the same with a batch

`_dispatch_loop` and `_dispatch_single` each have their own code for the results of the dispatcher.
A batch that is handled by the loop can be handled by one task a request, in any company of
arrivals, ticks and swaps: the queue, the trackers and what happens to the requests come out the
same, and the metrics do up to the label that names the model.
-/

namespace Inferential

open PyStd Machine

/-- The point without the label of the model, which only the tasks give. -/
def MetricPoint.withoutModel (p : MetricPoint) : MetricPoint :=
  { p with labels := p.labels.filter fun label => label.1 ≠ "model" }

variable {ν : Type} [Score ν] {config : InferentialConfig ν} {pb : Protobuf ν}

namespace Server

/-! ## The same effects -/

/-- Two servers that differ only in who handles the batch. -/
structure SameEffects (s t : Server ν) : Prop where
  scheduler : t.scheduler = s.scheduler
  cadence : t.cadence = s.cadence
  responses : t.responses = s.responses
  clients : t.clients = s.clients
  modelEvents : t.modelEvents = s.modelEvents
  loops : t.loops.length = s.loops.length
  nextObj : t.nextObj = s.nextObj
  history : t.history = s.history
  enabled : t.metrics.enabled = s.metrics.enabled
  points : t.metrics.log.map MetricPoint.withoutModel = s.metrics.log.map MetricPoint.withoutModel

namespace SameEffects

variable {s t : Server ν}

theorem record_withoutModel (h : SameEffects s t) (name : String) (value : Rat)
    {labels labels' : List (String × String)}
    (hlabels : labels'.filter (fun label => label.1 ≠ "model") =
      labels.filter fun label => label.1 ≠ "model") :
    SameEffects (s.record name value labels) (t.record name value labels') := by
  refine { h with enabled := ?_, points := ?_ }
  · simp [Server.record, h.enabled]
  · have hpoint : MetricPoint.withoutModel ⟨name, value, labels'⟩ =
        MetricPoint.withoutModel ⟨name, value, labels⟩ := by
      simp only [MetricPoint.withoutModel, hlabels]
    simp only [Server.record, MetricsCollector.record, h.enabled]
    split
    · simp only [List.map_append, List.map_cons, h.points, hpoint]
    · exact h.points

theorem record (h : SameEffects s t) (name : String) (value : Rat)
    (labels : List (String × String)) :
    SameEffects (s.record name value labels) (t.record name value labels) :=
  h.record_withoutModel name value rfl

/-- A task names its model too. -/
theorem record_model (h : SameEffects s t) (name : String) (value : Rat)
    (clientId modelId : String) :
    SameEffects (s.record name value [("client", clientId)])
      (t.record name value [("client", clientId), ("model", modelId)]) := by
  apply h.record_withoutModel
  simp

theorem log (h : SameEffects s t) (events : List (Event ν)) :
    SameEffects (s.log events) (t.log events) := by
  refine { h with history := ?_ }
  simp only [Server.log, h.history]

theorem reschedule (h : SameEffects s t) (scheduler : AnyScheduler ν) :
    SameEffects { s with scheduler := scheduler } { t with scheduler := scheduler } :=
  { h with scheduler := rfl }

theorem respond (h : SameEffects s t) (responses : ResponseTracker) :
    SameEffects { s with responses := responses } { t with responses := responses } :=
  { h with responses := rfl }

/-! ## Arrivals, ticks and swaps -/

theorem setEvent (h : SameEffects s t) (modelId : String) :
    SameEffects (s.setEvent modelId) (t.setEvent modelId) := by
  simp only [Server.setEvent, h.modelEvents]
  split
  · exact h
  · refine { h with loops := ?_ }
    simp only [updateLoop, List.length_modify, h.loops]

theorem ensureModelDispatch (h : SameEffects s t) (modelId : String) :
    SameEffects (s.ensureModelDispatch config modelId) (t.ensureModelDispatch config modelId) := by
  simp only [Server.ensureModelDispatch, h.modelEvents, h.loops]
  split
  · exact h
  · refine { h with modelEvents := rfl, loops := ?_ }
    simp only [List.length_append, h.loops]

theorem track (h : SameEffects s t) (msg : IncomingObservation) (decoded : DecodedObservation ν)
    (tracked : Rat) : SameEffects (s.track msg decoded tracked) (t.track msg decoded tracked) := by
  simp only [Server.track, h.clients, h.scheduler, h.cadence, h.responses]
  refine (SameEffects.record ?_ _ _ _).record _ _ _
  split
  · apply SameEffects.log
    exact { h with scheduler := rfl, cadence := rfl, responses := rfl, clients := rfl }
  · exact { h with scheduler := rfl, cadence := rfl, responses := rfl, clients := rfl }

theorem submitRequest (h : SameEffects s t) (m : Moment ν) (request : InferenceRequest ν) :
    SameEffects (s.submitRequest config m request) (t.submitRequest config m request) := by
  simp only [Server.submitRequest, h.scheduler]
  have hnext := h.reschedule (Scheduler.submit m request s.scheduler).state
  split
  · exact hnext.record _ _ _
  · exact hnext
  · split
    · exact (hnext.ensureModelDispatch request.modelId).setEvent request.modelId
    · exact hnext

theorem receive (h : SameEffects s t) (msg : IncomingObservation) (clock : ReceiveClock)
    (m : Moment ν) :
    SameEffects (s.receive config pb msg clock m) (t.receive config pb msg clock m) := by
  cases hdecode : decode pb clock.nowNs msg.envelope msg.payload msg.receivedAt with
  | error e =>
      simp only [Server.receive, hdecode]
      cases e with
      | observationError message => exact h.record _ _ _
      | _ => exact h
  | ok decoded =>
      rw [receive_accepted config pb clock hdecode, receive_accepted config pb clock hdecode]
      have hrequest : t.requestOf config msg clock decoded = s.requestOf config msg clock decoded := by
        simp only [requestOf, h.cadence, h.nextObj]
      rw [hrequest]
      apply SameEffects.submitRequest
      apply SameEffects.log
      have htracked := h.track msg decoded clock.tracked
      exact { htracked with nextObj := congrArg (· + 1) h.nextObj }

theorem checkClient (h : SameEffects s t) (now : Rat) (clientId : String) :
    SameEffects (s.checkClient config now clientId) (t.checkClient config now clientId) := by
  have hsilent : t.isSilent config now clientId = s.isSilent config now clientId := by
    simp only [isSilent, h.cadence]
  simp only [Server.checkClient, hsilent, h.scheduler]
  split
  · exact ((h.reschedule _).record _ _ _).log _
  · exact h

theorem tick (h : SameEffects s t) (expiry : InferenceRequest ν → Rat) (now : String → Rat) :
    SameEffects (s.tick config expiry now) (t.tick config expiry now) := by
  -- the loop over the clients
  have hloop : ∀ (clientIds : List String) {s t : Server ν}, SameEffects s t → SameEffects
      (clientIds.foldl (fun s clientId => s.checkClient config (now clientId) clientId) s)
      (clientIds.foldl (fun s clientId => s.checkClient config (now clientId) clientId) t) := by
    intro clientIds
    induction clientIds with
    | nil => exact id
    | cons clientId clientIds ih => exact fun h => ih (h.checkClient (now clientId) clientId)
  have hexpired := h.reschedule (Scheduler.tick expiry s.scheduler).2
  have hcounted := hexpired.record "requests_expired" (Scheduler.tick expiry s.scheduler).1 []
  simp only [Server.tick, h.scheduler]
  split
  · have hstart := hexpired.record "active_clients" s.clients.activeCount []
    simpa [Server.record, h.clients] using hloop s.clients.clients.keys hstart
  · have hstart := hcounted.record "active_clients" s.clients.activeCount []
    simpa [Server.record, h.clients] using hloop s.clients.clients.keys hstart

theorem predictiveWake (h : SameEffects s t) (now : String → Rat) :
    SameEffects (s.predictiveWake config now) (t.predictiveWake config now) := by
  -- on both sides events are set, and nothing else
  have hset : ∀ s : Server ν, ∃ loops, s.predictiveWake config now = { s with loops := loops } ∧
      loops.length = s.loops.length := by
    refine predictiveWake_rel config (fun s s' => ∃ loops, s' = { s with loops := loops } ∧
      loops.length = s.loops.length) (fun s => ⟨s.loops, rfl, rfl⟩) ?_ ?_ now
    · rintro s₁ _ _ ⟨loops, rfl, hloops⟩ ⟨loops', rfl, hloops'⟩
      exact ⟨loops', rfl, hloops'.trans hloops⟩
    · intro s modelId
      unfold Server.setEvent
      split
      · exact ⟨s.loops, rfl, rfl⟩
      · exact ⟨_, rfl, List.length_modify _ _ _⟩
  rcases hset s with ⟨_, hs, hsLoops⟩
  rcases hset t with ⟨_, ht, htLoops⟩
  rw [hs, ht]
  exact { h with loops := htLoops.trans (h.loops.trans hsLoops.symm) }

theorem useScheduler (h : SameEffects s t) (registered : String → Bool) (strategy : String)
    (policy : Option String) (weights : Option (DeadlineAwareConfig ν)) :
    SameEffects (s.useScheduler config registered strategy policy weights).2
      (t.useScheduler config registered strategy policy weights).2 := by
  simp only [Server.useScheduler]
  split
  · exact h
  · next scheduler _ =>
      cases policy with
      | none => exact h.reschedule scheduler
      | some policyName =>
          cases husable : scheduler.usePolicy registered policyName with
          | error e => simpa [husable] using h.reschedule scheduler
          | ok scheduler' => simpa [husable] using h.reschedule scheduler'

end SameEffects

/-- The steps that come from outside of the dispatch. -/
def fromOutside : Action ν → Option (Action ν)
  | .receive msg clock m => some (.receive msg clock m)
  | .tick expiry now => some (.tick expiry now)
  | .predictiveWake now => some (.predictiveWake now)
  | .useScheduler registered strategy policy weights =>
      some (.useScheduler registered strategy policy weights)
  | _ => none

theorem SameEffects.arrives {s t : Server ν} (h : SameEffects s t) {a : Action ν}
    (ha : (fromOutside a).isSome) : SameEffects (step config pb s a) (step config pb t a) := by
  cases a with
  | receive msg clock m => exact h.receive msg clock m
  | tick expiry now => exact h.tick expiry now
  | predictiveWake now => exact h.predictiveWake now
  | useScheduler registered strategy policy weights =>
      exact h.useScheduler registered strategy policy weights
  | _ => simp [fromOutside] at ha

/-- The dispatch goes on where it was. -/
theorem fromOutside_frame (s : Server ν) {a : Action ν} (ha : (fromOutside a).isSome) :
    (step config pb s a).legacy = s.legacy ∧ (step config pb s a).tasks = s.tasks := by
  cases a with
  | receive msg clock m =>
      cases hdecode : decode pb clock.nowNs msg.envelope msg.payload msg.receivedAt with
      | error e =>
          rcases receive_rejected_frame config pb clock hdecode m s with ⟨_, h⟩
          simp only [step, h, and_self]
      | ok decoded =>
          rcases receive_frame config pb clock hdecode m s with ⟨_, _, _, _, h⟩
          rcases track_frame msg decoded clock.tracked s with ⟨_, _, _, _, _, htrack⟩
          simp only [step, h, htrack, Server.log, and_self]
  | tick expiry now =>
      rcases tick_frame config expiry now s with ⟨_, _, _, h⟩
      simp only [step, h, and_self]
  | predictiveWake now =>
      rcases predictiveWake_frame config now s with ⟨_, h⟩
      simp only [step, h, and_self]
  | useScheduler registered strategy policy weights =>
      rcases useScheduler_frame config registered strategy policy weights s with ⟨_, h⟩
      simp only [step, h, and_self]
  | _ => simp [fromOutside] at ha

/-! ## A task for each request of the batch -/

/-- After some other tasks come those of the batch, and they stand where the ids tell. -/
structure Beside (others : List (DispatchTask ν)) (batch : List (InferenceRequest ν))
    (pcOf : Nat → TaskPc) (tasks : List (DispatchTask ν)) : Prop where
  distinct : (batch.map InferenceRequest.objId).Nodup
  places : ∃ own, tasks = others ++ own ∧ own.map (fun task => (task.request, task.pc)) =
    batch.map fun req => (req, pcOf req.objId)

/-- The results that are about one object. -/
def about (objId : Nat) (results : List DispatchResult) : List DispatchResult :=
  results.filter fun result => result.reqId = objId

/-- Where the task of an object stands while the loop stands at `send`. -/
def sendingPc (result : DispatchResult) (results : List DispatchResult) (objId : Nat) : TaskPc :=
  if result.reqId = objId then .sending result (about objId results)
  else .processing (about objId results)

/-- The tasks stand where the loop stands; a loop that died leaves them alone. -/
def Stands (others tasks : List (DispatchTask ν)) : LegacyLoop ν → Prop
  | .top => tasks = others
  | .dispatching batch => Beside others batch (fun _ => .dispatching) tasks
  | .processing batch results => Matched batch results ∧
      Beside others batch (fun objId => .processing (about objId results)) tasks
  | .sending batch result results =>
      Matched batch (result :: results) ∧ Beside others batch (sendingPc result results) tasks
  | .dead => True

omit [Score ν] in
/-- A request that is not changed changes nothing in the batch. -/
theorem changeIn_self {batch : List (InferenceRequest ν)} {req : InferenceRequest ν}
    (hdistinct : (batch.map InferenceRequest.objId).Nodup) (hreq : req ∈ batch) :
    changeIn req batch = batch := by
  have hsame : ∀ r ∈ batch, (if r.objId = req.objId then req else r) = r := by
    intro r hr
    split
    · next heq => exact (List.inj_on_of_nodup_map hdistinct hr hreq heq).symm
    · rfl
  exact (List.map_congr_left hsame).trans (List.map_id' batch)

namespace Beside

variable {others tasks : List (DispatchTask ν)} {batch : List (InferenceRequest ν)}
  {pcOf pcOf' : Nat → TaskPc}

omit [Score ν] in
theorem congr (h : Beside others batch pcOf tasks)
    (hpc : ∀ req ∈ batch, pcOf' req.objId = pcOf req.objId) : Beside others batch pcOf' tasks := by
  rcases h with ⟨hdistinct, own, htasks, hown⟩
  refine ⟨hdistinct, own, htasks, hown.trans ?_⟩
  exact List.map_congr_left fun req hreq => by rw [hpc req hreq]

omit [Score ν] in
/-- The task of the request that a result is about. -/
theorem find (h : Beside others batch pcOf tasks) {reqId : Nat} {req : InferenceRequest ν}
    (hfound : originalOf batch reqId = some req) :
    ∃ (i : Nat) (task : DispatchTask ν), (others.length ≤ i ∧ batch[i - others.length]? = some req) ∧
      tasks[i]? = some task ∧ task.request = req ∧ task.pc = pcOf reqId := by
  rcases h with ⟨-, own, rfl, hown⟩
  rcases originalOf_objId hfound with ⟨hmem, rfl⟩
  rcases List.mem_iff_getElem?.mp hmem with ⟨j, hj⟩
  have hplace := congrArg (fun places => places[j]?) hown
  simp only [List.getElem?_map, hj, Option.map_some, Option.map_eq_some_iff, Prod.mk.injEq] at hplace
  rcases hplace with ⟨task, htask, hrequest, hpc⟩
  refine ⟨others.length + j, task, ⟨Nat.le_add_right _ _, ?_⟩, ?_, hrequest, hpc⟩
  · rw [Nat.add_sub_cancel_left, hj]
  · rw [List.getElem?_append_right (Nat.le_add_right _ _), Nat.add_sub_cancel_left, htask]

omit [Score ν] in
/-- One task goes on, and its request may have changed. -/
theorem move (h : Beside others batch pcOf tasks) {i : Nat} {req : InferenceRequest ν}
    (hi : others.length ≤ i ∧ batch[i - others.length]? = some req) (task : DispatchTask ν)
    (hid : task.request.objId = req.objId) (hpc : task.pc = pcOf' req.objId)
    (hother : ∀ objId, objId ≠ req.objId → pcOf' objId = pcOf objId) :
    Beside others (changeIn task.request batch) pcOf' (tasks.set i task) := by
  rcases h with ⟨hdistinct, own, rfl, hown⟩
  rcases hi with ⟨hle, hi⟩
  have hlt : i - others.length < own.length := by
    have hlength := congrArg List.length hown
    rw [List.length_map, List.length_map] at hlength
    exact hlength ▸ (List.getElem?_eq_some_iff.mp hi).choose
  have hids : (changeIn task.request batch).map InferenceRequest.objId =
      batch.map InferenceRequest.objId := by
    simp only [changeIn, List.map_map]
    refine List.map_congr_left fun r _ => ?_
    simp only [Function.comp_apply]
    split
    · next heq => exact heq.symm
    · rfl
  refine ⟨by rw [hids]; exact hdistinct, own.set (i - others.length) task,
    List.set_append_right i task hle, List.ext_getElem? fun j => ?_⟩
  simp only [List.getElem?_map, List.getElem?_set, changeIn]
  by_cases hj : i - others.length = j
  · subst hj
    simp [hlt, hi, hid, hpc]
  · have hplace := congrArg (fun places => places[j]?) hown
    simp only [List.getElem?_map] at hplace
    rw [if_neg hj, hplace]
    cases hbatch : batch[j]? with
    | none => rfl
    | some r =>
        -- another place of the batch holds another object
        have hne : r.objId ≠ req.objId := by
          intro heq
          have hboth : (batch.map InferenceRequest.objId)[i - others.length]? =
              (batch.map InferenceRequest.objId)[j]? := by
            simp [List.getElem?_map, hi, hbatch, heq]
          have hltBatch : i - others.length < (batch.map InferenceRequest.objId).length := by
            rw [List.length_map]
            exact (List.getElem?_eq_some_iff.mp hi).choose
          exact hj ((List.getElem?_inj hltBatch hdistinct).mp hboth)
        simp [hid, hne, hother r.objId hne]

omit [Score ν] in
/-- One task goes on with the request that it has. -/
theorem advance (h : Beside others batch pcOf tasks) {i : Nat} {task : DispatchTask ν}
    (hi : others.length ≤ i ∧ batch[i - others.length]? = some task.request) (pc : TaskPc)
    (hpc : pc = pcOf' task.request.objId)
    (hother : ∀ objId, objId ≠ task.request.objId → pcOf' objId = pcOf objId) :
    Beside others batch pcOf' (tasks.set i { task with pc := pc }) := by
  have hmoved := h.move hi { task with pc := pc } rfl hpc hother
  rwa [changeIn_self h.distinct (List.mem_of_getElem? hi.2)] at hmoved

end Beside

/-! ## The moves of the tasks -/

def IsTaskMove : Action ν → Prop
  | .taskReturned _ _ => True
  | .taskResult _ _ _ _ => True
  | .taskSent _ _ => True
  | _ => False

/-- A task gets the answer to its own request. -/
def TaskMove (s : Server ν) (a : Action ν) : Prop :=
  WellAnswered s a ∧ ((fromOutside a).isSome ∨ IsTaskMove a)

structure Replays (s t : Server ν) : Prop where
  effects : SameEffects s t
  stands : Stands s.tasks t.tasks s.legacy

/-- Some moves of the tasks lead to where the loop is now. -/
def Answered (config : InferentialConfig ν) (pb : Protobuf ν) (s t : Server ν) : Prop :=
  ∃ moves, Along (step config pb) TaskMove t moves ∧ moves.filterMap fromOutside = [] ∧
    Replays s (moves.foldl (step config pb) t)

variable {s t : Server ν}

theorem Replays.answered (h : Replays s t) : Answered config pb s t := ⟨[], trivial, rfl, h⟩

theorem Answered.after {a : Action ν} (hmove : TaskMove t a) (ha : fromOutside a = none)
    (h : Answered config pb s (step config pb t a)) : Answered config pb s t := by
  rcases h with ⟨moves, hallowed, hshown, hreplays⟩
  refine ⟨a :: moves, ⟨hmove, hallowed⟩, ?_, hreplays⟩
  simp only [List.filterMap_cons, ha, hshown]

/-! ### The dispatcher returns -/

/-- Where the task of an object stands when these results have come in. -/
def returnedPc (results : List DispatchResult) (objId : Nat) : TaskPc :=
  if about objId results = [] then .dispatching else .processing (about objId results)

theorem about_append (objId : Nat) (results results' : List DispatchResult) :
    about objId (results ++ results') = about objId results ++ about objId results' :=
  List.filter_append _ _

/-- One task after the other gets its result. -/
theorem returned_one_by_one {batch : List (InferenceRequest ν)} {results : List DispatchResult}
    (hmatched : Matched batch results) (hdistinct : (results.map DispatchResult.reqId).Nodup)
    (hall : ∀ req ∈ batch, about req.objId results ≠ [])
    (rest : List DispatchResult) : ∀ {done : List DispatchResult} {t : Server ν},
      done ++ rest = results → Beside s.tasks batch (returnedPc done) t.tasks →
      SameEffects (s.log (done.map fun result => .returned result.reqId result.success)) t →
      Answered config pb { s.log (results.map fun result => .returned result.reqId result.success)
        with legacy := .processing batch results } t := by
  induction rest with
  | nil =>
      intro done t hresults hbeside heffects
      rw [List.append_nil] at hresults
      subst hresults
      refine Replays.answered ⟨{ heffects with }, hmatched, hbeside.congr fun req hreq => ?_⟩
      simp only [returnedPc, hall req hreq, if_false]
  | cons result rest ih =>
      intro done t hresults hbeside heffects
      have hmem : result ∈ results := hresults ▸ by simp
      rcases hmatched result hmem with ⟨req, hfound, hidentity⟩
      rcases hbeside.find hfound with ⟨i, task, hi, htask, rfl, hpc⟩
      have hreqId := (originalOf_objId hfound).2
      -- no other result is about this request
      have hfirst : about result.reqId done = [] := by
        rw [← hresults, List.map_append, List.map_cons] at hdistinct
        refine List.filter_eq_nil_iff.mpr fun other hother heq => ?_
        have hdisjoint := (List.nodup_append.mp hdistinct).2.2
        exact hdisjoint other.reqId (List.mem_map_of_mem hother) result.reqId
          List.mem_cons_self (of_decide_eq_true heq)
      rw [returnedPc, if_pos hfirst] at hpc
      have hstep : step config pb t (.taskReturned i (.ok [result])) =
          (t.log [.returned result.reqId result.success]).setTask i
            { task with pc := .processing [result] } := by
        simp [step, taskReturned, htask, hpc]
      have hanswer : TaskMove t (.taskReturned i (.ok [result])) := by
        refine ⟨fun task' htask' _ => ?_, Or.inr trivial⟩
        rw [htask, Option.some.injEq] at htask'
        subst htask'
        simp [AnswersOf, hreqId, hidentity]
      apply Answered.after hanswer rfl
      rw [hstep]
      have hresults' : (done ++ [result]) ++ rest = results := by
        rw [List.append_assoc, List.singleton_append, hresults]
      refine ih hresults' ?_ ?_
      · refine hbeside.advance hi (.processing [result]) ?_ ?_
        · have hown : about result.reqId (done ++ [result]) = [result] := by
            rw [about_append, hfirst, List.nil_append]
            simp [about]
          simp [returnedPc, hreqId, hown]
        · intro objId hne
          have hother : about objId [result] = [] := by
            simp [about, ← hreqId, Ne.symm hne]
          simp only [returnedPc, about_append, hother, List.append_nil]
      · have hlogged := heffects.log [.returned result.reqId result.success]
        simp only [Server.log, List.append_assoc, List.map_append, List.map_cons, List.map_nil,
          setTask] at hlogged ⊢
        exact { hlogged with }

theorem Replays.returned (h : Replays s t) {result : Except PyError (List DispatchResult)}
    (hanswered : WellAnswered s (.legacyReturned result)) :
    Answered config pb (s.legacyReturned result) t := by
  cases hlegacy : s.legacy with
  | dispatching batch =>
      have hstands := h.stands
      rw [hlegacy] at hstands
      cases result with
      | error e =>
          simp only [legacyReturned, hlegacy]
          exact Replays.answered ⟨{ h.effects with }, trivial⟩
      | ok results =>
          have hanswers : AnswersOf results batch := hanswered batch hlegacy
          have hids : (results.map DispatchResult.reqId).Perm (batch.map InferenceRequest.objId) := by
            simpa [List.map_map, Function.comp_def] using hanswers.map Prod.fst
          have hall : ∀ req ∈ batch, about req.objId results ≠ [] := by
            intro req hreq hnone
            have hmem := hids.mem_iff.mpr (List.mem_map_of_mem hreq)
            rcases List.mem_map.mp hmem with ⟨result, hresult, hreqId⟩
            exact List.filter_eq_nil_iff.mp hnone result hresult (decide_eq_true hreqId)
          simp only [legacyReturned, hlegacy]
          refine returned_one_by_one (hanswers.matched hstands.distinct)
            (hids.nodup_iff.mpr hstands.distinct) hall results (List.nil_append results)
            (hstands.congr fun req _ => rfl) ?_
          refine { h.effects with history := ?_ }
          simp only [Server.log, List.map_nil, List.append_nil, h.effects.history]
  | _ =>
      simp only [legacyReturned, hlegacy]
      exact h.answered

/-! ### The results -/

/-- The tasks of a batch that is done with end, and the others stay. -/
theorem finish_all (m : Moment ν) (hlegacy : s.legacy = .top) (own : List (DispatchTask ν))
    {t : Server ν} (htasks : t.tasks = s.tasks ++ own)
    (hdone : ∀ task ∈ own, task.pc = .processing []) (heffects : SameEffects s t) :
    Answered config pb s t := by
  induction own generalizing t with
  | nil =>
      rw [List.append_nil] at htasks
      exact Replays.answered ⟨heffects, by rw [hlegacy]; exact htasks⟩
  | cons task own ih =>
      have hpc : task.pc = .processing [] := hdone task List.mem_cons_self
      have hstep : step config pb t (.taskResult s.tasks.length 0 0 m) =
          t.finishTask s.tasks.length task := by
        simp [step, taskResult, htasks, hpc]
      have hmove : TaskMove t (.taskResult s.tasks.length 0 0 m) := ⟨trivial, Or.inr trivial⟩
      apply Answered.after hmove rfl
      rw [hstep]
      apply ih
      · simp [finishTask, htasks, List.eraseIdx_append_of_length_le]
      · exact fun task' htask' => hdone task' (List.mem_cons_of_mem task htask')
      · refine { heffects with loops := ?_ }
        simpa [finishTask, updateLoop] using heffects.loops

/-- The other tasks do not mind that a result is gone. -/
theorem about_other {result : DispatchResult} {objId : Nat} (hne : objId ≠ result.reqId)
    (results : List DispatchResult) : about objId (result :: results) = about objId results := by
  simp [about, Ne.symm hne]

theorem about_own {result : DispatchResult} {objId : Nat} (heq : objId = result.reqId)
    (results : List DispatchResult) :
    about objId (result :: results) = result :: about objId results := by
  simp [about, heq]

section Result

variable {batch : List (InferenceRequest ν)} {result : DispatchResult}
  {results : List DispatchResult} (hlegacy : s.legacy = .processing batch (result :: results))

include hlegacy

theorem Replays.responds (h : Replays s t) (hsuccess : result.success = true) (issuedAt now : Rat)
    (m : Moment ν) : Answered config pb (s.legacyResult config issuedAt now m) t := by
  have hstands := h.stands
  rw [hlegacy] at hstands
  rcases hstands with ⟨hmatched, hbeside⟩
  rcases hmatched result List.mem_cons_self with ⟨req, hfound, -⟩
  rcases hbeside.find hfound with ⟨i, task, hi, htask, rfl, hpc⟩
  have hreqId := (originalOf_objId hfound).2
  rw [about_own rfl] at hpc
  have hmove : TaskMove t (.taskResult i issuedAt now m) := ⟨trivial, Or.inr trivial⟩
  apply Answered.after hmove rfl
  apply Replays.answered
  simp only [step, taskResult, htask, hpc, hsuccess, if_true, legacyResult, hlegacy, hfound,
    h.effects.responses]
  constructor
  · have hresponded := h.effects.respond (s.responses.onResponseSent issuedAt result.clientId
      result.responseId result.latencyMs)
    have htimed := hresponded.record_model "e2e_latency_ms"
      ((now - task.request.receivedAt) * 1000) result.clientId task.modelId
    have hmeasured := (htimed.record_model "inference_latency_ms" result.latencyMs result.clientId
      task.modelId).log [.responded result.reqId result.identity]
    exact { hmeasured with }
  · refine ⟨hmatched, ?_⟩
    refine hbeside.advance hi (.sending result (about result.reqId results)) ?_ ?_
    · simp only [sendingPc, hreqId, if_true]
    · intro objId hne
      rw [hreqId] at hne
      simp only [sendingPc, if_neg (Ne.symm hne), about_other hne]

theorem Replays.fails (h : Replays s t) (hfailed : result.success = false) (issuedAt now : Rat)
    (m : Moment ν) : Answered config pb (s.legacyResult config issuedAt now m) t := by
  have hstands := h.stands
  rw [hlegacy] at hstands
  rcases hstands with ⟨hmatched, hbeside⟩
  have hrest : Matched batch results := fun r hr => hmatched r (List.mem_cons_of_mem result hr)
  rcases hmatched result List.mem_cons_self with ⟨req, hfound, -⟩
  rcases hbeside.find hfound with ⟨i, task, hi, htask, rfl, hpc⟩
  have hreqId := (originalOf_objId hfound).2
  rw [about_own rfl] at hpc
  have hmove : TaskMove t (.taskResult i issuedAt now m) := ⟨trivial, Or.inr trivial⟩
  apply Answered.after hmove rfl
  apply Replays.answered
  simp only [step, taskResult, htask, hpc, hfailed, legacyResult, hlegacy, hfound,
    h.effects.scheduler, Option.filter_some, Bool.false_eq_true, if_false]
  cases hretry : mayRetry config task.request with
  | true =>
      have hqueued := h.effects.reschedule
        (Scheduler.resubmit m (retried task.request) s.scheduler).state
      simp only [if_true]
      cases hraised : (Scheduler.resubmit m (retried task.request) s.scheduler).raised with
      | some e =>
          -- the loop ends here, and the task too
          refine ⟨{ hqueued with loops := ?_ }, trivial⟩
          simpa [finishTask, updateLoop] using hqueued.loops
      | none =>
          have hcounted := (hqueued.record_model "dispatch_retries" 1 result.clientId
            task.modelId).log [.requeued task.request.objId]
          refine ⟨{ hcounted with }, ?_, ?_⟩
          · refine hrest.changeIn task.request ?_ rfl
            exact (congrArg (originalOf batch) hreqId).trans hfound
          · refine hbeside.move hi { task with
              request := retried task.request
              pc := .processing (about result.reqId results) } rfl ?_ ?_
            · simp only [hreqId]
            · intro objId hne
              rw [hreqId] at hne
              simp only [about_other hne]
  | false =>
      have hcounted := h.effects.record "dispatch_errors" 1
        [("client", result.clientId), ("error", errorLabel result)]
      simp only [Bool.false_eq_true, if_false]
      refine ⟨{ hcounted with }, hrest, ?_⟩
      refine hbeside.advance hi (.processing (about result.reqId results)) ?_ ?_
      · simp only [hreqId]
      · intro objId hne
        rw [hreqId] at hne
        simp only [about_other hne]

end Result

theorem Replays.result (h : Replays s t) (issuedAt now : Rat) (m : Moment ν) :
    Answered config pb (s.legacyResult config issuedAt now m) t := by
  cases hlegacy : s.legacy with
  | processing batch results =>
      cases results with
      | nil =>
          have hstands := h.stands
          rw [hlegacy] at hstands
          simp only [legacyResult, hlegacy]
          rcases hstands.2.places with ⟨own, htasks, hown⟩
          refine finish_all m rfl own htasks (fun task htask => ?_) { h.effects with }
          -- no task has a result left
          have hplace := List.mem_map_of_mem (f := fun task : DispatchTask ν =>
            (task.request, task.pc)) htask
          rw [hown] at hplace
          rcases List.mem_map.mp hplace with ⟨req, -, heq⟩
          exact (congrArg Prod.snd heq).symm
      | cons result results =>
          cases hsuccess : result.success with
          | true => exact h.responds hlegacy hsuccess issuedAt now m
          | false => exact h.fails hlegacy hsuccess issuedAt now m
  | _ =>
      simp only [legacyResult, hlegacy]
      exact h.answered

/-! ### The sends -/

theorem Replays.sent (h : Replays s t) (outcome : SendOutcome) :
    Answered config pb (s.legacySent outcome) t := by
  cases hlegacy : s.legacy with
  | sending batch result results =>
      have hstands := h.stands
      rw [hlegacy] at hstands
      rcases hstands with ⟨hmatched, hbeside⟩
      have hrest : Matched batch results := fun r hr => hmatched r (List.mem_cons_of_mem result hr)
      rcases hmatched result List.mem_cons_self with ⟨req, hfound, -⟩
      rcases hbeside.find hfound with ⟨i, task, hi, htask, rfl, hpc⟩
      have hreqId := (originalOf_objId hfound).2
      simp only [sendingPc, if_true] at hpc
      have hnext : Beside s.tasks batch (fun objId => .processing (about objId results))
          (t.tasks.set i { task with pc := .processing (about result.reqId results) }) := by
        refine hbeside.advance hi _ ?_ ?_
        · simp only [hreqId]
        · intro objId hne
          rw [hreqId] at hne
          simp only [sendingPc, if_neg (Ne.symm hne)]
      have hmove : TaskMove t (.taskSent i outcome) := ⟨trivial, Or.inr trivial⟩
      apply Answered.after hmove rfl
      apply Replays.answered
      cases outcome with
      | sent =>
          simp only [step, taskSent, htask, hpc, legacySent, hlegacy]
          exact ⟨{ h.effects.log [.sent result.reqId] with }, hrest, hnext⟩
      | zmqError message =>
          simp only [step, taskSent, htask, hpc, legacySent, hlegacy]
          exact ⟨{ h.effects.record "send_errors" 1 [("client", result.clientId)] with }, hrest,
            hnext⟩
      | raised message =>
          simp only [step, taskSent, htask, hpc, legacySent, hlegacy]
          refine ⟨{ h.effects with loops := ?_ }, trivial⟩
          simpa [finishTask, updateLoop] using h.effects.loops
  | _ =>
      simp only [legacySent, hlegacy]
      exact h.answered

/-! ## A whole batch -/

/-- The steps with which the loop handles a batch, and those from outside. -/
def Handles : Action ν → Prop
  | .legacyReturned _ => True
  | .legacyResult _ _ _ => True
  | .legacySent _ => True
  | a => (fromOutside a).isSome

theorem Replays.arrives (h : Replays s t) {a : Action ν} (ha : (fromOutside a).isSome)
    (hshown : fromOutside a = some a) (hanswered : WellAnswered t a) :
    ∃ moves, Along (step config pb) TaskMove t moves ∧
      moves.filterMap fromOutside = (fromOutside a).toList ∧
      Replays (step config pb s a) (moves.foldl (step config pb) t) := by
  have hframe : ∀ r : Server ν, (step config pb r a).legacy = r.legacy ∧
      (step config pb r a).tasks = r.tasks := fun r => fromOutside_frame r ha
  rcases hframe s with ⟨hlegacy, htasks⟩
  refine ⟨[a], along_singleton.mpr ⟨hanswered, Or.inl ha⟩, ?_, h.effects.arrives ha, ?_⟩
  · simp only [List.filterMap_cons, List.filterMap_nil, hshown, Option.toList_some]
  · rw [hlegacy, htasks]
    exact (hframe t).2 ▸ h.stands

theorem paths_simulate : Simulates (step config pb) (step config pb) fromOutside fromOutside
    (fun s a => WellAnswered s a ∧ Handles a) TaskMove Replays := by
  rintro s t a h ⟨hanswered, hhandles⟩
  cases a with
  | legacyReturned result => exact h.returned hanswered
  | legacyResult issuedAt now m => exact h.result issuedAt now m
  | legacySent outcome => exact h.sent outcome
  | receive msg clock m => exact h.arrives rfl rfl trivial
  | tick expiry now => exact h.arrives rfl rfl trivial
  | predictiveWake now => exact h.arrives rfl rfl trivial
  | useScheduler registered strategy policy weights => exact h.arrives rfl rfl trivial
  | _ => simp [Handles, fromOutside] at hhandles

/-- A task that waits for the answer to a request. -/
def taskOf (loopOf : String → Nat) (req : InferenceRequest ν) : DispatchTask ν where
  request := req
  modelId := req.modelId
  loop := loopOf req.modelId
  pc := .dispatching

/-- The batch that the loop waits for is given to tasks of the models instead. -/
def toTasks (loopOf : String → Nat) (s : Server ν) : Server ν :=
  match s.legacy with
  | .dispatching batch =>
      { s with legacy := .top, tasks := s.tasks ++ batch.map (taskOf loopOf) }
  | _ => s

/-- In every run, whatever the single loop does with a batch, tasks of the models can do with it too,
in the same company: same queue, same trackers, same fates of the requests, and the same metrics but
for the label of the model.  When the loop is through with the batch, so are the tasks. -/
theorem batch_as_tasks (config : InferentialConfig ν) (pb : Protobuf ν) (s₀ : Server ν)
    (hinit : init config = .ok s₀) (before : List (Action ν))
    (hbefore : Follows config pb WellAnswered s₀ before) {batch : List (InferenceRequest ν)}
    (hbatch : (run config pb s₀ before).legacy = .dispatching batch) (loopOf : String → Nat)
    (actions : List (Action ν))
    (hactions : Along (step config pb) (fun s a => WellAnswered s a ∧ Handles a)
      (run config pb s₀ before) actions) :
    let s := run config pb s₀ before
    ∃ moves, Along (step config pb) TaskMove (s.toTasks loopOf) moves ∧
      moves.filterMap fromOutside = actions.filterMap fromOutside ∧
      SameEffects (run config pb s actions) (run config pb (s.toTasks loopOf) moves) ∧
      ((run config pb s actions).legacy = .top →
        (run config pb (s.toTasks loopOf) moves).tasks = (run config pb s actions).tasks) := by
  intro s
  have hdelivering : Delivering config s :=
    run_keeps (fun s a ha hs => hs.step ha) hbefore (init_delivering hinit)
  have hdistinct : (batch.map InferenceRequest.objId).Nodup := by
    have hnodup := flights_nodup hdelivering.sound
    simp only [inFlight, flights, s, hbatch, LegacyLoop.flights, List.map_append] at hnodup
    simpa [List.map_map, Function.comp_def] using (List.nodup_append.mp hnodup).1
  have hstart : Replays s (s.toTasks loopOf) := by
    have hlegacy : s.legacy = .dispatching batch := hbatch
    have htasks : s.toTasks loopOf =
        { s with legacy := .top, tasks := s.tasks ++ batch.map (taskOf loopOf) } := by
      simp only [toTasks, hlegacy]
    rw [htasks]
    refine ⟨⟨rfl, rfl, rfl, rfl, rfl, rfl, rfl, rfl, rfl, rfl⟩, ?_⟩
    rw [hlegacy]
    exact ⟨hdistinct, _, rfl, by simp [taskOf]⟩
  rcases paths_simulate.run hstart hactions with ⟨moves, hmoves, hshown, hreplays⟩
  refine ⟨moves, hmoves, hshown, hreplays.effects, fun htop => ?_⟩
  have hstands := hreplays.stands
  have hlegacy : (actions.foldl (step config pb) s).legacy = .top := htop
  rw [hlegacy] at hstands
  exact hstands

/-! ### A batch that fails, while another request arrives -/

def handled : List (Action Rat) :=
  [arriveAt 0 0, .legacyReturned (.ok [failedResult]), .legacyResult 0 0 (plainMoment 0),
    .legacyResult 0 0 (plainMoment 0)]

theorem handled_as_tasks :
    let s := run retryingConfig plainMessages retryingServer
      [arriveAt 0 0, .legacyTop 0 (fun _ => 0) 0]
    (stored (run retryingConfig plainMessages s handled).scheduler).map
        InferenceRequest.retryCount = [0, 1] ∧
      ∃ moves, moves.filterMap fromOutside = [arriveAt 0 0] ∧
        SameEffects (run retryingConfig plainMessages s handled)
          (run retryingConfig plainMessages (s.toTasks fun _ => 0) moves) ∧
        (run retryingConfig plainMessages (s.toTasks fun _ => 0) moves).tasks = [] := by
  intro s
  have hanswered : ∀ batch, s.legacy = .dispatching batch → AnswersOf [failedResult] batch := by
    intro batch hbatch
    -- the batch that the loop waits for is the one request of object 0
    have hids : (s.legacy.flights.map fun f => (f.2.objId, f.2.identity)) = [(0, [1])] := by
      decide +kernel
    rw [hbatch, LegacyLoop.flights, List.map_map] at hids
    exact List.Perm.of_eq hids.symm
  rcases batch_as_tasks retryingConfig plainMessages retryingServer rfl
    [arriveAt 0 0, .legacyTop 0 (fun _ => 0) 0] ⟨trivial, trivial, trivial⟩ rfl (fun _ => 0) handled
    ⟨⟨trivial, rfl⟩, ⟨hanswered, trivial⟩, ⟨trivial, trivial⟩, ⟨trivial, trivial⟩, trivial⟩ with
    ⟨moves, -, hshown, heffects, hdone⟩
  exact ⟨by decide +kernel, moves, hshown, heffects, hdone rfl⟩

end Server
end Inferential
