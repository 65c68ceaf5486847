import Inferential.Dispatch.Isolation
import Inferential.Machine.Guarded

/-!
# Gather — the remote calls of a batch, step by step

`RayDispatcher.dispatch` between its awaits.  The coroutines of one model are started together, read
the variables of the loop that made them, and end in any order; `gather` puts their results in the
order of the requests.  Whatever the order, each result is the one of its own request.
-/

namespace Inferential

open PyStd

variable {ν Obj Handle : Type}

/-! ## Coroutines -/

/-- Where a `_call` stands. -/
inductive CallPc (Handle : Type)
  | created
  /-- at the `await`; the call went to this handle -/
  | remote (handle : Handle)
  | returned (result : DispatchResult)

structure RemoteCall (ν Handle : Type) where
  request : InferenceRequest ν
  obs : Dict String ObsValue
  pc : CallPc Handle := .created

namespace RemoteCall

def result? (call : RemoteCall ν Handle) : Option DispatchResult :=
  match call.pc with
  | .returned result => some result
  | _ => none

/-- `handle` is read when the coroutine runs. -/
def start (handle : Handle) (call : RemoteCall ν Handle) : RemoteCall ν Handle :=
  match call.pc with
  | .created => { call with pc := .remote handle }
  | _ => call

end RemoteCall

/-- What `gather` returns, once all coroutines have returned. -/
def gathered : List (RemoteCall ν Handle) → Option (List DispatchResult)
  | [] => some []
  | call :: calls =>
      match call.result?, gathered calls with
      | some result, some results => some (result :: results)
      | _, _ => none

/-! ## The loop over the models -/

/-- `modelId` and `handle` are the variables of the loop that the coroutines close over. -/
inductive RayPc (ν Handle : Type)
  | head
  | gathering (modelId : String) (handle : Handle) (calls : List (RemoteCall ν Handle))
  | ended (outcome : Except PyError (List DispatchResult))

/-- A call of `dispatch`. -/
structure RayRun (ν Handle : Type) where
  dispatcher : RayDispatcher Handle
  health : Dict String EndpointHealth := Dict.empty
  groups : List (String × List (InferenceRequest ν))
  results : List DispatchResult := []
  pc : RayPc ν Handle := .head

inductive RayAction (Obj : Type)
  | nextModel
  | start (i : Nat)
  | complete (i : Nat) (outcome : Except PyError (RawResult Obj))
  | collect

namespace RayRun

def begin (d : RayDispatcher Handle) (requests : List (InferenceRequest ν)) : RayRun ν Handle where
  dispatcher := d
  groups := (byModel requests).items

section Steps

variable (pb : Protobuf ν) (np : Numpy Obj) (serve : RayServe Handle Obj)
  (stamp : InferenceRequest ν → CallStamp)

/-- From the head of the loop to the `await` of `gather`. -/
def nextModel (s : RayRun ν Handle) : RayRun ν Handle :=
  match s.pc with
  | .head =>
      match s.groups with
      | [] => { s with pc := .ended (.ok s.results) }
      | (modelId, requests) :: groups =>
          match RayDispatcher.getHandle serve modelId s.dispatcher with
          | (.error e, d) => { s with dispatcher := d, pc := .ended (.error e) }
          | (.ok handle, d) =>
              match RayDispatcher.reconstructAll pb np requests with
              | .error e => { s with dispatcher := d, pc := .ended (.error e) }
              | .ok calls =>
                  { s with
                    dispatcher := d
                    groups := groups
                    pc := .gathering modelId handle
                      (calls.map fun call => { request := call.1, obs := call.2 }) }
  | _ => s

def start (i : Nat) (s : RayRun ν Handle) : RayRun ν Handle :=
  match s.pc with
  | .gathering modelId handle calls =>
      { s with pc := .gathering modelId handle (calls.modify i (RemoteCall.start handle)) }
  | _ => s

/-- The remote call ends; the coroutine goes on with the variables as they are now. -/
def complete (i : Nat) (outcome : Except PyError (RawResult Obj)) (s : RayRun ν Handle) :
    RayRun ν Handle :=
  match s.pc with
  | .gathering modelId handle calls =>
      match calls[i]? with
      | none => s
      | some call =>
          match call.pc with
          | .remote _ =>
              let result := callResult pb np (stamp call.request) call.request outcome
              { s with
                health :=
                  LocalDispatcher.healthAfter pb np stamp modelId call.request outcome s.health
                pc := .gathering modelId handle
                  (calls.set i { call with pc := .returned result }) }
          | _ => s
  | _ => s

/-- `results.extend(batch_results)` -/
def collect (s : RayRun ν Handle) : RayRun ν Handle :=
  match s.pc with
  | .gathering _ _ calls =>
      match gathered calls with
      | none => s
      | some batchResults => { s with results := s.results ++ batchResults, pc := .head }
  | _ => s

def step (s : RayRun ν Handle) : RayAction Obj → RayRun ν Handle
  | .nextModel => s.nextModel pb np serve
  | .start i => s.start i
  | .complete i outcome => s.complete pb np stamp i outcome
  | .collect => s.collect

def run (s : RayRun ν Handle) (actions : List (RayAction Obj)) : RayRun ν Handle :=
  actions.foldl (step pb np serve stamp) s

end Steps

/-- A remote call ends with what its handle may give for its observation. -/
def Genuine (gives : Handle → Dict String ObsValue → Except PyError (RawResult Obj) → Prop)
    (s : RayRun ν Handle) : RayAction Obj → Prop
  | .complete i outcome => ∀ modelId handle calls, s.pc = .gathering modelId handle calls →
      ∀ call, calls[i]? = some call → ∀ target, call.pc = .remote target →
        gives target call.obs outcome
  | _ => True

end RayRun

theorem gathered_forall₂ {calls : List (RemoteCall ν Handle)} {results : List DispatchResult}
    (h : gathered calls = some results) :
    List.Forall₂ (fun call result => call.pc = .returned result) calls results := by
  induction calls generalizing results with
  | nil =>
      cases h
      exact List.Forall₂.nil
  | cons call calls ih =>
      unfold gathered at h
      split at h
      · next result rest hresult hrest =>
          cases h
          refine List.Forall₂.cons ?_ (ih hrest)
          unfold RemoteCall.result? at hresult
          split at hresult
          · next hpc =>
              cases hresult
              exact hpc
          · cases hresult
      · cases h

/-! ## Each result belongs to its request -/

section Answers

variable (pb : Protobuf ν) (np : Numpy Obj) (serve : RayServe Handle Obj)
  (stamp : InferenceRequest ν → CallStamp)
  (gives : Handle → Dict String ObsValue → Except PyError (RawResult Obj) → Prop)
  (d : RayDispatcher Handle)

/-- The result that the handle of the request's model may give for the request's observation. -/
def RayAnswers (req : InferenceRequest ν) (result : DispatchResult) : Prop :=
  ∃ handle obs outcome, d.handleFor serve req.modelId = .ok handle ∧
    reconstructNumpy pb np req = .ok obs ∧ gives handle obs outcome ∧
    result = callResult pb np (stamp req) req outcome

/-- A coroutine of the model `modelId`. -/
structure CallSound (modelId : String) (handle : Handle) (call : RemoteCall ν Handle) : Prop where
  model : call.request.modelId = modelId
  obs : reconstructNumpy pb np call.request = .ok call.obs
  target : ∀ target, call.pc = .remote target → target = handle
  returned : ∀ result, call.pc = .returned result →
    RayAnswers pb np serve stamp gives d call.request result

/-- How far `dispatch` has come with the requests `all`. -/
inductive Progress (all : List (InferenceRequest ν)) (results : List DispatchResult)
    (groups : List (String × List (InferenceRequest ν))) : RayPc ν Handle → Prop
  | head (finished : List (InferenceRequest ν))
      (hresults : List.Forall₂ (RayAnswers pb np serve stamp gives d) finished results)
      (hall : finished ++ (groups.map Prod.snd).flatten = all) : Progress all results groups .head
  | gathering (finished : List (InferenceRequest ν)) (modelId : String) (handle : Handle)
      (calls : List (RemoteCall ν Handle))
      (hresults : List.Forall₂ (RayAnswers pb np serve stamp gives d) finished results)
      (hhandle : d.handleFor serve modelId = .ok handle)
      (hcalls : ∀ call ∈ calls, CallSound pb np serve stamp gives d modelId handle call)
      (hall : finished ++ (calls.map RemoteCall.request ++ (groups.map Prod.snd).flatten) = all) :
      Progress all results groups (.gathering modelId handle calls)
  | ended (outcome : Except PyError (List DispatchResult))
      (hresults : ∀ results, outcome = .ok results →
        List.Forall₂ (RayAnswers pb np serve stamp gives d) all results) :
      Progress all results groups (.ended outcome)

structure RayRun.Sound (all : List (InferenceRequest ν)) (s : RayRun ν Handle) : Prop where
  handles : s.dispatcher.handleFor serve = d.handleFor serve
  owned : ∀ group ∈ s.groups, ∀ req ∈ group.2, req.modelId = group.1
  progress : Progress pb np serve stamp gives d all s.results s.groups s.pc

theorem reconstructAll_spec {requests : List (InferenceRequest ν)}
    {calls : List (InferenceRequest ν × Dict String ObsValue)}
    (h : RayDispatcher.reconstructAll pb np requests = .ok calls) :
    calls.map Prod.fst = requests ∧
      ∀ call ∈ calls, reconstructNumpy pb np call.1 = .ok call.2 := by
  induction requests generalizing calls with
  | nil =>
      cases h
      exact ⟨rfl, by simp⟩
  | cons req requests ih =>
      unfold RayDispatcher.reconstructAll at h
      split at h
      · cases h
      · next obs hobs =>
          split at h
          · cases h
          · next rest hrest =>
              cases h
              obtain ⟨hfst, hall⟩ := ih hrest
              exact ⟨by rw [List.map_cons, hfst], List.forall_mem_cons.mpr ⟨hobs, hall⟩⟩

namespace RayRun

variable {pb np serve stamp gives d} {all : List (InferenceRequest ν)} {s : RayRun ν Handle}

theorem begin_sound (requests : List (InferenceRequest ν)) :
    Sound pb np serve stamp gives d (byModel requests).flatten (begin d requests) where
  handles := rfl
  owned := (byModel_grouped requests).owned
  progress := Progress.head [] List.Forall₂.nil rfl

theorem Sound.nextModel (h : Sound pb np serve stamp gives d all s) :
    Sound pb np serve stamp gives d all (s.nextModel pb np serve) := by
  unfold RayRun.nextModel
  split
  · next hhead =>
      have hprogress := h.progress
      rw [hhead] at hprogress
      obtain ⟨finished, hresults, hall⟩ := hprogress
      split
      · next hnil =>
          -- no model is left, so all requests are finished
          refine ⟨h.handles, h.owned, Progress.ended _ ?_⟩
          rintro results ⟨⟩
          simpa [hnil, ← hall] using hresults
      · next modelId requests groups hgroups =>
          have howned := h.owned
          rw [hgroups] at howned hall
          obtain ⟨hgroup, hrest⟩ := List.forall_mem_cons.mp howned
          obtain ⟨hfound, hkept⟩ := RayDispatcher.getHandle_handleFor serve s.dispatcher modelId
          rw [h.handles] at hfound hkept
          split
          · next e d' heq =>
              rw [heq] at hkept
              exact ⟨hkept, h.owned, Progress.ended _ (by simp)⟩
          · next handle d' heq =>
              rw [heq] at hfound hkept
              split
              · exact ⟨hkept, h.owned, Progress.ended _ (by simp)⟩
              · next calls hcalls =>
                  obtain ⟨hrequests, hobs⟩ := reconstructAll_spec pb np hcalls
                  refine ⟨hkept, hrest,
                    Progress.gathering finished modelId handle _ hresults hfound.symm ?_ ?_⟩
                  · intro call hcall
                    obtain ⟨c, hc, rfl⟩ := List.mem_map.mp hcall
                    have hmem : c.1 ∈ requests := hrequests ▸ List.mem_map_of_mem hc
                    exact ⟨hgroup c.1 hmem, hobs c hc, by simp, by simp⟩
                  · have hsame : (calls.map fun call =>
                        ({ request := call.1, obs := call.2 } : RemoteCall ν Handle)).map
                          RemoteCall.request = requests := by
                      rw [← hrequests, List.map_map]
                      rfl
                    rw [hsame]
                    simpa using hall
  · exact h

/-- The coroutines go on, each for the request that it was made for. -/
theorem Sound.calls {modelId : String} {handle : Handle} {calls calls' : List (RemoteCall ν Handle)}
    (h : Sound pb np serve stamp gives d all s) (hpc : s.pc = .gathering modelId handle calls)
    (hsame : calls'.map RemoteCall.request = calls.map RemoteCall.request)
    (hcalls : (∀ call ∈ calls, CallSound pb np serve stamp gives d modelId handle call) →
      d.handleFor serve modelId = .ok handle →
        ∀ call ∈ calls', CallSound pb np serve stamp gives d modelId handle call)
    (health : Dict String EndpointHealth) :
    Sound pb np serve stamp gives d all
      { s with health := health, pc := .gathering modelId handle calls' } := by
  have hprogress := h.progress
  rw [hpc] at hprogress
  cases hprogress with
  | gathering finished _ _ _ hresults hhandle hsound hall =>
      refine ⟨h.handles, h.owned,
        Progress.gathering finished modelId handle calls' hresults hhandle
          (hcalls hsound hhandle) ?_⟩
      rw [hsame]
      exact hall

theorem Sound.start (h : Sound pb np serve stamp gives d all s) (i : Nat) :
    Sound pb np serve stamp gives d all (s.start i) := by
  unfold RayRun.start
  split
  · next modelId handle calls hpc =>
      have hrequest : ∀ call : RemoteCall ν Handle, (call.start handle).request = call.request := by
        intro call
        unfold RemoteCall.start
        split <;> rfl
      refine h.calls hpc ?_ ?_ s.health
      · refine List.ext_getElem? fun j => ?_
        simp only [List.getElem?_map, List.getElem?_modify]
        split
        · cases calls[j]? with
          | none => rfl
          | some call => simp [hrequest]
        · simp
      · intro hsound _ call hcall
        obtain ⟨j, hj⟩ := List.mem_iff_getElem?.mp hcall
        rw [List.getElem?_modify] at hj
        cases hold : calls[j]? with
        | none => simp [hold] at hj
        | some old =>
            have hcs := hsound old (List.mem_of_getElem? hold)
            rw [hold] at hj
            by_cases hij : i = j
            · -- the coroutine that starts reads the handle of its own model
              obtain rfl : old.start handle = call := by simpa [hij] using hj
              unfold RemoteCall.start
              split
              · exact ⟨hcs.model, hcs.obs, by simp, by simp⟩
              · exact hcs
            · obtain rfl : old = call := by simpa [hij] using hj
              exact hcs
  · exact h

theorem Sound.complete (h : Sound pb np serve stamp gives d all s) {i : Nat}
    {outcome : Except PyError (RawResult Obj)} (hgenuine : s.Genuine gives (.complete i outcome)) :
    Sound pb np serve stamp gives d all (s.complete pb np stamp i outcome) := by
  unfold RayRun.complete
  split
  · next modelId handle calls hpc =>
      split
      · exact h
      · next call hcall =>
          split
          · next target htarget =>
              have hgives := hgenuine modelId handle calls hpc call hcall target htarget
              refine h.calls hpc ?_ ?_ _
              · refine List.ext_getElem? fun j => ?_
                simp only [List.getElem?_map, List.getElem?_set]
                split
                · next hij =>
                    subst hij
                    obtain ⟨hlt, heq⟩ := List.getElem?_eq_some_iff.mp hcall
                    simp [hlt, heq]
                · rfl
              · intro hsound hhandle c hc
                rcases List.mem_or_eq_of_mem_set hc with hold | rfl
                · exact hsound c hold
                · have hcs := hsound call (List.mem_of_getElem? hcall)
                  refine ⟨hcs.model, hcs.obs, by simp, ?_⟩
                  rintro result ⟨⟩
                  refine ⟨handle, call.obs, outcome, ?_, hcs.obs, ?_, rfl⟩
                  · rw [hcs.model]
                    exact hhandle
                  · rw [← hcs.target target htarget]
                    exact hgives
          · exact h
  · exact h

theorem Sound.collect (h : Sound pb np serve stamp gives d all s) :
    Sound pb np serve stamp gives d all s.collect := by
  unfold RayRun.collect
  split
  · next modelId handle calls hpc =>
      split
      · exact h
      · next batchResults hgathered =>
          have hprogress := h.progress
          rw [hpc] at hprogress
          cases hprogress with
          | gathering finished _ _ _ hresults hhandle hsound hall =>
              refine ⟨h.handles, h.owned,
                Progress.head (finished ++ calls.map RemoteCall.request) ?_ ?_⟩
              · -- position by position, the coroutine and its request
                have hboth := (List.forall₂_and_left calls batchResults).mpr
                  ⟨hsound, gathered_forall₂ hgathered⟩
                have hanswers : List.Forall₂ (RayAnswers pb np serve stamp gives d)
                    (calls.map RemoteCall.request) batchResults := by
                  rw [List.forall₂_map_left_iff]
                  exact hboth.imp fun call result h => h.1.returned result h.2
                exact List.rel_append hresults hanswers
              · rw [List.append_assoc]
                exact hall
  · exact h

theorem Sound.step (h : Sound pb np serve stamp gives d all s) {a : RayAction Obj}
    (hgenuine : s.Genuine gives a) :
    Sound pb np serve stamp gives d all (RayRun.step pb np serve stamp s a) := by
  cases a with
  | nextModel => exact h.nextModel
  | start i => exact h.start i
  | complete i outcome => exact h.complete hgenuine
  | collect => exact h.collect

/-- The coroutines may run in any order. -/
theorem Sound.run {actions : List (RayAction Obj)} (h : Sound pb np serve stamp gives d all s)
    (hgenuine : Machine.Along (RayRun.step pb np serve stamp) (Genuine gives) s actions) :
    Sound pb np serve stamp gives d all (RayRun.run pb np serve stamp s actions) := by
  induction actions generalizing s with
  | nil => exact h
  | cons a actions ih => exact ih (h.step hgenuine.1) hgenuine.2

/-- A finished call of `dispatch` has an answer for each request, in the order of the groups. -/
theorem answered {requests : List (InferenceRequest ν)} {actions : List (RayAction Obj)}
    {results : List DispatchResult}
    (hgenuine : Machine.Along (RayRun.step pb np serve stamp) (Genuine gives) (begin d requests)
      actions)
    (hended : (RayRun.run pb np serve stamp (begin d requests) actions).pc = .ended (.ok results)) :
    List.Forall₂ (RayAnswers pb np serve stamp gives d) (byModel requests).flatten results := by
  have hprogress := ((begin_sound requests).run hgenuine).progress
  rw [hended] at hprogress
  cases hprogress with
  | ended _ hresults => exact hresults results rfl

/-- With handles that always give the same, no order of the coroutines gives other results than
calling them one after the other. -/
theorem run_eq_dispatch {requests : List (InferenceRequest ν)} {actions : List (RayAction Obj)}
    {results : List DispatchResult}
    (hgenuine : Machine.Along (RayRun.step pb np serve stamp)
      (Genuine fun handle obs outcome => outcome = serve.infer handle obs) (begin d requests)
      actions)
    (hended : (RayRun.run pb np serve stamp (begin d requests) actions).pc = .ended (.ok results)) :
    (RayDispatcher.dispatch pb np serve stamp requests d).1 = .ok results := by
  have hanswers := answered hgenuine hended
  have hone : List.Forall₂ (fun req result => d.answer pb np stamp serve req = .ok result)
      (byModel requests).flatten results := by
    refine hanswers.imp ?_
    rintro req result ⟨handle, obs, outcome, hhandle, hobs, rfl, rfl⟩
    simp [RayDispatcher.answer, hhandle, callOne, hobs]
  rw [RayDispatcher.dispatch_fst]
  exact allResults_of_forall₂ hone

end RayRun

end Answers

/-! ## No cross-talk -/

section CrossTalk

variable (pb : Protobuf ν) (np : Numpy Obj)
  (applied : InferenceRequest ν → Dict String ObsValue → RawResult Obj → Prop)

/-- The response answers the request: it was collected from what was applied to the request's own
observation. -/
structure OwnResponse (req : InferenceRequest ν) (result : DispatchResult)
    (resp : ModelResponse) : Prop where
  envelope : result.envelope = pb.serializeResponse resp
  client : resp.client = req.clientId
  modelId : resp.modelId = req.modelId
  tensors : ∃ obs raw c, reconstructNumpy pb np req = .ok obs ∧ applied req obs raw ∧
    collect pb np raw = .ok c ∧
    resp.tensors = c.tensors ∧ resp.metadata = c.metadata ∧ result.payload = c.payload

structure OwnResult (req : InferenceRequest ν) (result : DispatchResult) : Prop where
  reqId : result.reqId = req.objId
  clientId : result.clientId = req.clientId
  identity : result.identity = req.identity
  success : result.success = true → ∃ resp, OwnResponse pb np applied req result resp

/-- The results are those of the requests, one for each. -/
structure NoCrossTalk (requests : List (InferenceRequest ν)) (results : List DispatchResult) :
    Prop where
  perm : (results.map DispatchResult.reqId).Perm (requests.map InferenceRequest.objId)
  nodup : (results.map DispatchResult.reqId).Nodup
  own : ∀ req ∈ requests, ∀ result ∈ results, result.reqId = req.objId →
    OwnResult pb np applied req result

variable {pb np applied}

theorem errorResult_own (stamp : CallStamp) (req : InferenceRequest ν) (latencyMs : Rat)
    (error : String) : OwnResult pb np applied req (errorResult stamp req latencyMs error) where
  reqId := rfl
  clientId := rfl
  identity := rfl
  success := by simp [errorResult]

theorem callResult_own {req : InferenceRequest ν} {obs : Dict String ObsValue}
    (hobs : reconstructNumpy pb np req = .ok obs) (stamp : CallStamp)
    (outcome : Except PyError (RawResult Obj))
    (happlied : ∀ raw, outcome = .ok raw → applied req obs raw) :
    OwnResult pb np applied req (callResult pb np stamp req outcome) := by
  cases outcome with
  | error e => exact errorResult_own stamp req stamp.errorLatencyMs e.message
  | ok raw =>
      cases hc : collect pb np raw with
      | error e =>
          simp only [callResult, buildResult, hc]
          exact errorResult_own stamp req stamp.errorLatencyMs e.message
      | ok c =>
          simp only [callResult, buildResult, hc]
          refine ⟨rfl, rfl, rfl, fun _ => ⟨_, rfl, rfl, rfl, obs, raw, c, hobs, ?_, hc, rfl, rfl, rfl⟩⟩
          exact happlied raw rfl

theorem map_reqId_eq {order : List (InferenceRequest ν)} {results : List DispatchResult}
    (hown : List.Forall₂ (OwnResult pb np applied) order results) :
    results.map DispatchResult.reqId = order.map InferenceRequest.objId := by
  induction hown with
  | nil => rfl
  | cons hhead _ ih => simp only [List.map_cons, hhead.reqId, ih]

/-- The ids tell the requests apart, so a result with the id of a request is its own. -/
theorem noCrossTalk_of_forall₂ {requests order : List (InferenceRequest ν)}
    {results : List DispatchResult} (hdistinct : (requests.map InferenceRequest.objId).Nodup)
    (hperm : order.Perm requests) (hown : List.Forall₂ (OwnResult pb np applied) order results) :
    NoCrossTalk pb np applied requests results := by
  have hids : (results.map DispatchResult.reqId).Perm (requests.map InferenceRequest.objId) := by
    rw [map_reqId_eq hown]
    exact hperm.map InferenceRequest.objId
  refine ⟨hids, hids.nodup_iff.mpr hdistinct, ?_⟩
  intro req hreq result hresult hid
  obtain ⟨owner, howner, howns⟩ := exists_paired hown.flip hresult
  have hsame : owner = req :=
    List.inj_on_of_nodup_map hdistinct (hperm.mem_iff.mp howner) hreq (howns.reqId.symm.trans hid)
  exact hsame ▸ howns

theorem LocalDispatcher.answer_own (stamp : InferenceRequest ν → CallStamp)
    (d : LocalDispatcher Obj) {req : InferenceRequest ν} {result : DispatchResult}
    (h : d.answer pb np stamp req = .ok result) :
    OwnResult pb np
      (fun req obs raw => ∃ fn, d.models.get? req.modelId = some fn ∧ fn obs = .ok raw)
      req result := by
  unfold LocalDispatcher.answer at h
  split at h
  · cases h
    exact errorResult_own (stamp req) req 0 _
  · next fn hfn =>
      unfold callOne at h
      split at h
      · cases h
      · next obs hobs =>
          cases h
          exact callResult_own hobs (stamp req) (fn obs) fun raw hraw => ⟨fn, hfn, hraw⟩

theorem RayAnswers.own {serve : RayServe Handle Obj} {stamp : InferenceRequest ν → CallStamp}
    {gives : Handle → Dict String ObsValue → Except PyError (RawResult Obj) → Prop}
    {d : RayDispatcher Handle} {req : InferenceRequest ν} {result : DispatchResult}
    (h : RayAnswers pb np serve stamp gives d req result) :
    OwnResult pb np
      (fun req obs raw => ∃ handle, d.handleFor serve req.modelId = .ok handle ∧
        gives handle obs (.ok raw))
      req result := by
  rcases h with ⟨handle, obs, outcome, hhandle, hobs, hgives, rfl⟩
  refine callResult_own hobs (stamp req) outcome ?_
  rintro raw rfl
  exact ⟨handle, hhandle, hgives⟩

/-- A batch that is answered is answered without cross-talk, by the local dispatcher and by Ray,
whatever the order in which the remote calls complete. -/
theorem dispatch_separates (pb : Protobuf ν) (np : Numpy Obj) (stamp : InferenceRequest ν → CallStamp)
    (requests : List (InferenceRequest ν))
    (hdistinct : (requests.map InferenceRequest.objId).Nodup) :
    (∀ (d : LocalDispatcher Obj) (results : List DispatchResult),
      (LocalDispatcher.dispatch pb np stamp requests d).1 = .ok results →
        NoCrossTalk pb np
          (fun req obs raw => ∃ fn, d.models.get? req.modelId = some fn ∧ fn obs = .ok raw)
          requests results) ∧
    (∀ (serve : RayServe Handle Obj)
        (gives : Handle → Dict String ObsValue → Except PyError (RawResult Obj) → Prop)
        (d : RayDispatcher Handle) (actions : List (RayAction Obj)) (results : List DispatchResult),
      Machine.Along (RayRun.step pb np serve stamp) (RayRun.Genuine gives)
          (RayRun.begin d requests) actions →
        (RayRun.run pb np serve stamp (RayRun.begin d requests) actions).pc =
            .ended (.ok results) →
          NoCrossTalk pb np
            (fun req obs raw => ∃ handle, d.handleFor serve req.modelId = .ok handle ∧
              gives handle obs (.ok raw))
            requests results) := by
  have hperm := (byModel_grouped requests).perm
  constructor
  · intro d results hok
    have hanswers := allResults_ok ((d.dispatch_fst pb np stamp requests).symm.trans hok)
    exact noCrossTalk_of_forall₂ hdistinct hperm
      (hanswers.imp fun _ _ h => LocalDispatcher.answer_own stamp d h)
  · intro serve gives d actions results hgenuine hended
    have hanswers := RayRun.answered hgenuine hended
    exact noCrossTalk_of_forall₂ hdistinct hperm (hanswers.imp fun _ _ h => h.own)

end CrossTalk

/-- The second robot asks the same policy, with an observation of its own. -/
def secondRequest : InferenceRequest Rat :=
  { goodRequest with clientId := "robot-02", identity := [2], payload := [0, 0, 128, 63], objId := 1 }

def echoed (req : InferenceRequest Rat) : Except PyError (RawResult NdArray) :=
  .ok (.other ⟨⟨"float32", "<f4", 4⟩, [1], req.payload⟩)

/-- The call made second completes first. -/
def reversedCalls : List (RayAction NdArray) :=
  [.nextModel, .start 0, .start 1, .complete 1 (echoed secondRequest),
    .complete 0 (echoed goodRequest), .collect, .nextModel]

def reversedStep : RayRun Rat Unit → RayAction NdArray → RayRun Rat Unit :=
  RayRun.step mixedMessages Numpy.reference echoServe fixedStamp

theorem reversedCalls_genuine :
    Machine.Along reversedStep
      (RayRun.Genuine fun handle obs outcome => outcome = echoServe.infer handle obs)
      (RayRun.begin {} [goodRequest, secondRequest]) reversedCalls := by
  refine ⟨trivial, trivial, trivial, ?_, ?_, trivial, trivial, trivial⟩
  · rintro modelId handle calls ⟨⟩ call ⟨⟩ target ⟨⟩
    rfl
  · rintro modelId handle calls ⟨⟩ call ⟨⟩ target ⟨⟩
    rfl

/-- Two robots ask one policy, and a third request has no model: locally all three are answered, and
on Ray the two robots are, with the second call completing first. -/
theorem dispatch_separates_robots :
    (∃ results,
      (LocalDispatcher.dispatch mixedMessages Numpy.reference fixedStamp
        [goodRequest, secondRequest, unknownRequest] echoModels).1 = .ok results ∧
      NoCrossTalk mixedMessages Numpy.reference
        (fun req obs raw => ∃ fn, echoModels.models.get? req.modelId = some fn ∧ fn obs = .ok raw)
        [goodRequest, secondRequest, unknownRequest] results) ∧
    (∃ results,
      (RayRun.run mixedMessages Numpy.reference echoServe fixedStamp
        (RayRun.begin {} [goodRequest, secondRequest]) reversedCalls).pc = .ended (.ok results) ∧
      NoCrossTalk mixedMessages Numpy.reference
        (fun req obs raw => ∃ handle,
          RayDispatcher.handleFor echoServe {} req.modelId = .ok handle ∧
            Except.ok raw = echoServe.infer handle obs)
        [goodRequest, secondRequest] results) := by
  constructor
  · have hok : ∃ results, (LocalDispatcher.dispatch mixedMessages Numpy.reference fixedStamp
        [goodRequest, secondRequest, unknownRequest] echoModels).1 = .ok results := ⟨_, rfl⟩
    rcases hok with ⟨results, hok⟩
    exact ⟨results, hok, (@dispatch_separates Rat NdArray Unit mixedMessages Numpy.reference
      fixedStamp [goodRequest, secondRequest, unknownRequest] (by decide)).1 echoModels results hok⟩
  · have hended : ∃ results, (RayRun.run mixedMessages Numpy.reference echoServe fixedStamp
        (RayRun.begin {} [goodRequest, secondRequest]) reversedCalls).pc =
          .ended (.ok results) := ⟨_, rfl⟩
    rcases hended with ⟨results, hended⟩
    exact ⟨results, hended, (dispatch_separates mixedMessages Numpy.reference fixedStamp
      [goodRequest, secondRequest] (by decide)).2 echoServe
      (fun handle obs outcome => outcome = echoServe.infer handle obs) {} reversedCalls results
      reversedCalls_genuine hended⟩

end Inferential
