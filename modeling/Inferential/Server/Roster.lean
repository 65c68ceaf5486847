import Inferential.Server.Flow
import Inferential.Server.Frames

/-!
# Roster — where the requests of a server are

The abstract view of a server: the requests in its queue, and those in flight with how far they are.
-/

namespace Inferential

open PyStd

variable {ν : Type} [Score ν]

/-! ## Flights -/

omit [Score ν] in
/-- The results that are not yet processed, each with its request. -/
def answered (batch : List (InferenceRequest ν)) (results : List DispatchResult) :
    List (DispatchResult × InferenceRequest ν) :=
  results.filterMap fun result =>
    (Server.originalOf batch result.reqId).map fun req => (result, req)

def waiting (batch : List (InferenceRequest ν)) (results : List DispatchResult) :
    List (Stage × InferenceRequest ν) :=
  (answered batch results).map fun a => (.returned a.1.success, a.2)

/-- The requests of the single loop, and how far they are. -/
def LegacyLoop.flights : LegacyLoop ν → List (Stage × InferenceRequest ν)
  | .top => []
  | .dispatching batch => batch.map fun req => (.dispatching, req)
  | .processing batch results => waiting batch results
  | .sending batch result results =>
      ((Server.originalOf batch result.reqId).toList.map fun req => (.responded, req)) ++
        waiting batch results
  | .dead => []

def DispatchTask.flights (task : DispatchTask ν) : List (Stage × InferenceRequest ν) :=
  match task.pc with
  | .created => [(.taken, task.request)]
  | .dispatching => [(.dispatching, task.request)]
  | .processing results => results.map fun result => (.returned result.success, task.request)
  | .sending _ results =>
      (.responded, task.request) ::
        results.map fun result => (.returned result.success, task.request)

namespace Server

/-- The requests in flight, from the moment that they leave the queue. -/
def flights (s : Server ν) : List (Stage × InferenceRequest ν) :=
  s.legacy.flights ++ s.tasks.flatMap DispatchTask.flights

def inFlight (s : Server ν) : List (InferenceRequest ν) := s.flights.map Prod.snd

def places (fs : List (Stage × InferenceRequest ν)) : List Place := fs.map fun f => place f.1 f.2

def roster (s : Server ν) : List Place :=
  (stored s.scheduler).map (place .queued) ++ places s.flights

def view (s : Server ν) : FlowState ν where
  roster := s.roster
  history := s.history
  metrics := s.metrics
  nextObj := s.nextObj

/-! ## Answers -/

/-- A dispatch call gives one result for each request, with its id and identity. -/
def AnswersOf (results : List DispatchResult) (batch : List (InferenceRequest ν)) : Prop :=
  (results.map fun result => (result.reqId, result.identity)).Perm
    (batch.map fun req => (req.objId, req.identity))

/-- Every result has its request in the batch. -/
def Matched (batch : List (InferenceRequest ν)) (results : List DispatchResult) : Prop :=
  ∀ result ∈ results, ∃ req, originalOf batch result.reqId = some req ∧
    req.identity = result.identity

omit [Score ν] in
theorem originalOf_objId {batch : List (InferenceRequest ν)} {reqId : Nat}
    {req : InferenceRequest ν} (h : originalOf batch reqId = some req) :
    req ∈ batch ∧ req.objId = reqId :=
  ⟨List.mem_of_find?_eq_some h, by simpa using List.find?_some h⟩

omit [Score ν] in
/-- In a batch of different objects each is found under its id. -/
theorem originalOf_self {batch : List (InferenceRequest ν)}
    (hnodup : (batch.map InferenceRequest.objId).Nodup) {req : InferenceRequest ν}
    (hreq : req ∈ batch) : originalOf batch req.objId = some req := by
  induction batch with
  | nil => simp at hreq
  | cons first batch ih =>
      rw [List.map_cons, List.nodup_cons] at hnodup
      rcases List.mem_cons.mp hreq with rfl | hrest
      · simp [originalOf]
      · have hne : first.objId ≠ req.objId := by
          intro heq
          exact hnodup.1 (heq ▸ List.mem_map_of_mem hrest)
        have hfound := ih hnodup.2 hrest
        simpa [originalOf, hne] using hfound

omit [Score ν] in
theorem AnswersOf.matched {batch : List (InferenceRequest ν)} {results : List DispatchResult}
    (h : AnswersOf results batch) (hnodup : (batch.map InferenceRequest.objId).Nodup) :
    Matched batch results := by
  intro result hresult
  have hmem := h.mem_iff.mp (List.mem_map_of_mem hresult)
  obtain ⟨req, hreq, heq⟩ := List.mem_map.mp hmem
  simp only [Prod.mk.injEq] at heq
  exact ⟨req, heq.1 ▸ originalOf_self hnodup hreq, heq.2⟩

omit [Score ν] in
theorem Matched.answered_fst {batch : List (InferenceRequest ν)} {results : List DispatchResult}
    (h : Matched batch results) : (answered batch results).map Prod.fst = results := by
  induction results with
  | nil => rfl
  | cons result results ih =>
      obtain ⟨req, hreq, -⟩ := h result List.mem_cons_self
      have hrest := ih fun r hr => h r (List.mem_cons_of_mem result hr)
      simp only [answered, List.filterMap_cons, hreq, Option.map_some, List.map_cons,
        List.cons.injEq, true_and]
      exact hrest

omit [Score ν] in
/-- The requests of the results are the batch. -/
theorem AnswersOf.answered_snd {batch : List (InferenceRequest ν)} {results : List DispatchResult}
    (h : AnswersOf results batch) (hnodup : (batch.map InferenceRequest.objId).Nodup) :
    ((answered batch results).map Prod.snd).Perm batch := by
  -- the ids of the results are those of the batch, and each id finds its request
  have hids : (results.map DispatchResult.reqId).Perm (batch.map InferenceRequest.objId) := by
    simpa [List.map_map, Function.comp_def] using h.map Prod.fst
  have hfound : (batch.map InferenceRequest.objId).filterMap (originalOf batch) = batch := by
    rw [List.filterMap_map]
    calc
      batch.filterMap (originalOf batch ∘ InferenceRequest.objId)
          = batch.filterMap some :=
        List.filterMap_congr fun req hreq => originalOf_self hnodup hreq
      _ = batch := List.filterMap_some
  calc
    ((answered batch results).map Prod.snd)
        = (results.map DispatchResult.reqId).filterMap (originalOf batch) := by
      simp [answered, List.map_filterMap, List.filterMap_map, Function.comp_def]
    List.Perm _ ((batch.map InferenceRequest.objId).filterMap (originalOf batch)) :=
      hids.filterMap _
    List.Perm _ batch := List.Perm.of_eq hfound

omit [Score ν] in
/-- A changed request is found changed; the others are found as before. -/
theorem originalOf_changeIn (batch : List (InferenceRequest ν)) (changed : InferenceRequest ν)
    (reqId : Nat) :
    originalOf (changeIn changed batch) reqId =
      (originalOf batch reqId).map fun req => if req.objId = changed.objId then changed else req := by
  -- the changed request has the id that it is found under
  have hid : ∀ req : InferenceRequest ν,
      (if req.objId = changed.objId then changed else req).objId = req.objId := by
    intro req
    split
    · next heq => exact heq.symm
    · rfl
  unfold originalOf changeIn
  rw [List.find?_map]
  congr 1
  refine congrArg (fun p => List.find? p batch) (funext fun req => ?_)
  simp [hid req]

omit [Score ν] in
/-- The results of other requests are as before. -/
theorem answered_changeIn {batch : List (InferenceRequest ν)} {changed : InferenceRequest ν}
    {results : List DispatchResult} (h : ∀ result ∈ results, result.reqId ≠ changed.objId) :
    answered (changeIn changed batch) results = answered batch results := by
  refine List.filterMap_congr fun result hresult => ?_
  rw [originalOf_changeIn]
  cases hfound : originalOf batch result.reqId with
  | none => rfl
  | some req =>
      have hne : req.objId ≠ changed.objId := by
        rw [(originalOf_objId hfound).2]
        exact h result hresult
      simp [hne]

/-! ## What every step keeps -/

/-- The results in hand have their requests. -/
def LegacyMatched : LegacyLoop ν → Prop
  | .processing batch results => Matched batch results
  | .sending batch result results => Matched batch (result :: results)
  | _ => True

def TaskMatched (task : DispatchTask ν) : Prop :=
  let ofTask := fun result : DispatchResult =>
    result.reqId = task.request.objId ∧ result.identity = task.request.identity
  match task.pc with
  | .processing results => ∀ result ∈ results, ofTask result
  | .sending result results => ∀ r ∈ result :: results, ofTask r
  | _ => True

structure Wired (s : Server ν) : Prop where
  scheduler : AccountedScheduler.Inv s.scheduler
  legacy : LegacyMatched s.legacy
  tasks : ∀ task ∈ s.tasks, TaskMatched task

/-! ## What a step may assume, and lose -/

/-- The dispatcher answers what it is asked. -/
def WellAnswered (s : Server ν) : Action ν → Prop
  | .legacyReturned (.ok results) => ∀ batch, s.legacy = .dispatching batch →
      AnswersOf results batch
  | .taskReturned i (.ok results) => ∀ task, s.tasks[i]? = some task → task.pc = .dispatching →
      AnswersOf results [task.request]
  | _ => True

/-- The steps that can lose a request without counting it. -/
def Leaky (config : InferentialConfig ν) (pb : Protobuf ν) (s : Server ν) : Action ν → Prop
  | .receive msg clock m => ∃ decoded,
      decode pb clock.nowNs msg.envelope msg.payload msg.receivedAt = .ok decoded ∧
        (s.scheduler.Full ∧ s.scheduler.config.overflowPolicy = .dropOldest ∨
          ¬ s.scheduler.Full ∧ s.scheduler.ScoreRaises m (requestOf config msg clock decoded s))
  | .useScheduler _ _ _ _ => True
  | .legacyReturned (.error _) => ∃ batch, s.legacy = .dispatching batch
  | .legacyResult _ _ m => ∃ batch result results req,
      s.legacy = .processing batch (result :: results) ∧ result.success = false ∧
        originalOf batch result.reqId = some req ∧ mayRetry config req = true ∧
        s.scheduler.ScoreRaises m (retried req)
  | .legacySent (.raised _) => ∃ batch result results, s.legacy = .sending batch result results
  | .taskReturned i (.error _) => ∃ task, s.tasks[i]? = some task ∧ task.pc = .dispatching
  | .taskResult i _ _ m => ∃ task result results, s.tasks[i]? = some task ∧
      task.pc = .processing (result :: results) ∧ result.success = false ∧
        mayRetry config task.request = true ∧ s.scheduler.ScoreRaises m (retried task.request)
  | .taskSent i (.raised _) => ∃ task result results, s.tasks[i]? = some task ∧
      task.pc = .sending result results
  | _ => False

end Server
end Inferential
