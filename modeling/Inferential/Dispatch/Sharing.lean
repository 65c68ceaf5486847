import Inferential.Dispatch.Gather
import Inferential.Dispatch.Health

/-!
# Sharing — one dispatcher, many calls of `dispatch`

The tasks of the models call `dispatch` of one `RayDispatcher` at the same time.  Between their
awaits the calls take turns, and they share the handles and the health of the endpoints.  Each of
them still returns the results of its own remote calls, and each remote call is counted.
-/

namespace Inferential

open PyStd

variable {ν Obj Handle : Type}

/-! ## Concurrent calls -/

/-- A remote call that has ended, and the call of `dispatch` that made it. -/
structure EndedCall (ν Obj Handle : Type) where
  caller : Nat
  request : InferenceRequest ν
  obs : Dict String ObsValue
  handle : Handle
  stamp : CallStamp
  outcome : Except PyError (RawResult Obj)

/-- The coroutine that a step ends, if it ends one. -/
def RayRun.endedBy (caller : Nat) (stamp : InferenceRequest ν → CallStamp) (s : RayRun ν Handle) :
    RayAction Obj → List (EndedCall ν Obj Handle)
  | .complete i outcome =>
      match s.pc with
      | .gathering _ _ calls =>
          match calls[i]? with
          | none => []
          | some call =>
              match call.pc with
              | .remote handle =>
                  [⟨caller, call.request, call.obs, handle, stamp call.request, outcome⟩]
              | _ => []
      | _ => []
  | _ => []

/-- `ended` is no field of the source: it lists the remote calls in the order in which they ended. -/
structure SharedDispatcher (ν Obj Handle : Type) where
  dispatcher : RayDispatcher Handle := {}
  health : Dict String EndpointHealth := Dict.empty
  callers : List (List (InferenceRequest ν) × RayRun ν Handle) := []
  ended : List (EndedCall ν Obj Handle) := []

inductive SharedAction (ν Obj Handle : Type)
  | dispatch (requests : List (InferenceRequest ν))
  /-- One of the callers goes on; what Ray Serve answers may change with time. -/
  | goOn (caller : Nat) (serve : RayServe Handle Obj) (stamp : InferenceRequest ν → CallStamp)
      (a : RayAction Obj)

namespace SharedDispatcher

section Steps

variable (pb : Protobuf ν) (np : Numpy Obj)

def step (s : SharedDispatcher ν Obj Handle) :
    SharedAction ν Obj Handle → SharedDispatcher ν Obj Handle
  | .dispatch requests =>
      { s with callers := s.callers ++ [(requests, RayRun.begin s.dispatcher requests)] }
  | .goOn caller serve stamp a =>
      match s.callers[caller]? with
      | none => s
      | some (requests, run) =>
          -- handles and health are those of `self`
          let run := { run with dispatcher := s.dispatcher, health := s.health }
          let next := RayRun.step pb np serve stamp run a
          { dispatcher := next.dispatcher
            health := next.health
            callers := s.callers.set caller (requests, next)
            ended := s.ended ++ run.endedBy caller stamp a }

def run (s : SharedDispatcher ν Obj Handle) (actions : List (SharedAction ν Obj Handle)) :
    SharedDispatcher ν Obj Handle :=
  actions.foldl (step pb np) s

end Steps

/-- The remote calls that ended for a call of `dispatch`. -/
def endedFor (caller : Nat) (s : SharedDispatcher ν Obj Handle) : List (EndedCall ν Obj Handle) :=
  s.ended.filter fun call => call.caller = caller

/-- The remote calls of a model that ended. -/
def endedOf (modelId : String) (s : SharedDispatcher ν Obj Handle) :
    List (EndedCall ν Obj Handle) :=
  s.ended.filter fun call => call.request.modelId = modelId

end SharedDispatcher

/-! ## What is shared -/

section Sharing

variable (pb : Protobuf ν) (np : Numpy Obj)

/-- The request with what its remote call made of it. -/
def EndedCall.answer (call : EndedCall ν Obj Handle) : InferenceRequest ν × DispatchResult :=
  (call.request, callResult pb np call.stamp call.request call.outcome)

/-- What its endpoint is updated with. -/
def EndedCall.entries (call : EndedCall ν Obj Handle) : List (Rat × Bool) :=
  Inferential.entries pb np call.stamp call.outcome

/-- The calls of `dispatch` share one handle and the health of one endpoint for each model, and
nothing else. -/
structure Shares (s : SharedDispatcher ν Obj Handle) : Prop where
  /-- All remote calls of a model went to the one handle that is kept for it. -/
  handle : ∀ call ∈ s.ended, s.dispatcher.handles.get? call.request.modelId = some call.handle
  /-- Each was made with the observation of its own request. -/
  obs : ∀ call ∈ s.ended, reconstructNumpy pb np call.request = .ok call.obs
  /-- The health of an endpoint is that of its calls, in the order in which they ended. -/
  health : ∀ modelId, s.health.get? modelId =
    healthOf modelId ((s.endedOf modelId).flatMap (EndedCall.entries pb np))
  /-- Each is counted. -/
  counted : ∀ modelId, CountsOnce (s.health.get? modelId)
    ((s.endedOf modelId).flatMap fun call => marks pb np call.outcome)
  /-- A call that returned has the results of its own remote calls, one for each request. -/
  returned : ∀ caller requests run results, s.callers[caller]? = some (requests, run) →
    run.pc = .ended (.ok results) → (byModel requests).flatten.length = results.length ∧
      ((s.endedFor caller).map (EndedCall.answer pb np)).Perm
        ((byModel requests).flatten.zip results)

end Sharing

/-! ## One caller -/

def RemoteCall.answer (call : RemoteCall ν Handle) : Option (InferenceRequest ν × DispatchResult) :=
  call.result?.map fun result => (call.request, result)

section Caller

variable (pb : Protobuf ν) (np : Numpy Obj)

/-- A coroutine of the model `modelId`, whose handle is kept. -/
structure Prepared (modelId : String) (handle : Handle) (call : RemoteCall ν Handle) : Prop where
  model : call.request.modelId = modelId
  obs : reconstructNumpy pb np call.request = .ok call.obs
  target : ∀ target, call.pc = .remote target → target = handle

/-- How far a call of `dispatch` has come with the requests `all`, and that the remote calls `own`
are those that ended for it. -/
inductive Reached (handles : Dict String Handle) (own : List (InferenceRequest ν × DispatchResult))
    (all : List (InferenceRequest ν)) (results : List DispatchResult)
    (groups : List (String × List (InferenceRequest ν))) : RayPc ν Handle → Prop
  | head (finished : List (InferenceRequest ν × DispatchResult))
      (hresults : finished.map Prod.snd = results)
      (hall : finished.map Prod.fst ++ (groups.map Prod.snd).flatten = all)
      (hown : own.Perm finished) : Reached handles own all results groups .head
  | gathering (finished : List (InferenceRequest ν × DispatchResult)) (modelId : String)
      (handle : Handle) (calls : List (RemoteCall ν Handle))
      (hresults : finished.map Prod.snd = results)
      (hhandle : handles.get? modelId = some handle)
      (hcalls : ∀ call ∈ calls, Prepared pb np modelId handle call)
      (hall : finished.map Prod.fst ++ (calls.map RemoteCall.request ++
        (groups.map Prod.snd).flatten) = all)
      (hown : own.Perm (finished ++ calls.filterMap RemoteCall.answer)) :
      Reached handles own all results groups (.gathering modelId handle calls)
  | ended (outcome : Except PyError (List DispatchResult))
      (hreturned : ∀ results, outcome = .ok results → ∃ finished,
        finished.map Prod.snd = results ∧ finished.map Prod.fst = all ∧ own.Perm finished) :
      Reached handles own all results groups (.ended outcome)

structure CallerSound (handles : Dict String Handle)
    (own : List (InferenceRequest ν × DispatchResult)) (requests : List (InferenceRequest ν))
    (run : RayRun ν Handle) : Prop where
  owned : ∀ group ∈ run.groups, ∀ req ∈ group.2, req.modelId = group.1
  reached : Reached pb np handles own (byModel requests).flatten run.results run.groups run.pc

variable {pb np} {handles handles' : Dict String Handle}
  {own : List (InferenceRequest ν × DispatchResult)} {requests : List (InferenceRequest ν)}
  {s : RayRun ν Handle}

/-- Handles are only added. -/
theorem Reached.mono {all : List (InferenceRequest ν)} {results : List DispatchResult}
    {groups : List (String × List (InferenceRequest ν))} {pc : RayPc ν Handle}
    (h : Reached pb np handles own all results groups pc)
    (hkept : ∀ modelId handle, handles.get? modelId = some handle →
      handles'.get? modelId = some handle) : Reached pb np handles' own all results groups pc := by
  cases h with
  | head finished hresults hall hown => exact .head finished hresults hall hown
  | gathering finished modelId handle calls hresults hhandle hcalls hall hown =>
      exact .gathering finished modelId handle calls hresults (hkept modelId handle hhandle) hcalls
        hall hown
  | ended outcome hreturned => exact .ended outcome hreturned

theorem CallerSound.begin (d : RayDispatcher Handle) (requests : List (InferenceRequest ν)) :
    CallerSound pb np handles [] requests (.begin d requests) where
  owned := (byModel_grouped requests).owned
  reached := .head [] rfl rfl (List.Perm.refl [])

theorem getHandle_kept (serve : RayServe Handle Obj) (d : RayDispatcher Handle) (modelId : String) :
    (∀ other handle, d.handles.get? other = some handle →
      (d.getHandle serve modelId).2.handles.get? other = some handle) ∧
        ∀ handle, (d.getHandle serve modelId).1 = .ok handle →
          (d.getHandle serve modelId).2.handles.get? modelId = some handle := by
  unfold RayDispatcher.getHandle
  cases hget : d.handles.get? modelId with
  | some kept =>
      refine ⟨fun _ _ hother => hother, ?_⟩
      rintro handle ⟨⟩
      exact hget
  | none =>
      cases serve.getAppHandle modelId with
      | error e => exact ⟨fun _ _ hother => hother, fun _ hok => nomatch hok⟩
      | ok found =>
          refine ⟨fun other handle hother => ?_, ?_⟩
          · have hne : other ≠ modelId := by
              rintro rfl
              simp [hget] at hother
            simpa [Dict.get?_set, hne] using hother
          · rintro handle ⟨⟩
            simp

theorem CallerSound.nextModel (h : CallerSound pb np s.dispatcher.handles own requests s)
    (serve : RayServe Handle Obj) :
    CallerSound pb np (s.nextModel pb np serve).dispatcher.handles own requests
      (s.nextModel pb np serve) := by
  unfold RayRun.nextModel
  split
  · next hhead =>
      have hreached := h.reached
      rw [hhead] at hreached
      rcases hreached with ⟨finished, hresults, hall, hown⟩
      split
      · next hnil =>
          refine ⟨h.owned, .ended _ ?_⟩
          rintro results ⟨⟩
          exact ⟨finished, hresults, by simpa [hnil] using hall, hown⟩
      · next modelId group groups hgroups =>
          have howned := h.owned
          rw [hgroups] at howned hall
          rcases List.forall_mem_cons.mp howned with ⟨hgroup, hrest⟩
          rcases getHandle_kept serve s.dispatcher modelId with ⟨hkept, hfound⟩
          split
          · exact ⟨h.owned, .ended _ (by simp)⟩
          · next handle d' heq =>
              rw [heq] at hkept hfound
              split
              · exact ⟨h.owned, .ended _ (by simp)⟩
              · next calls hcalls =>
                  rcases reconstructAll_spec pb np hcalls with ⟨hrequests, hobs⟩
                  refine ⟨hrest, .gathering finished modelId handle _ hresults
                    (hfound handle rfl) ?_ ?_ ?_⟩
                  · intro call hcall
                    rcases List.mem_map.mp hcall with ⟨c, hc, rfl⟩
                    have hmem : c.1 ∈ group := hrequests ▸ List.mem_map_of_mem hc
                    exact ⟨hgroup c.1 hmem, hobs c hc, by simp⟩
                  · have hsame : (calls.map fun call =>
                        ({ request := call.1, obs := call.2 } : RemoteCall ν Handle)).map
                          RemoteCall.request = group := by
                      rw [← hrequests, List.map_map]
                      rfl
                    rw [hsame]
                    simpa using hall
                  · simpa [List.filterMap_map, Function.comp_def, RemoteCall.answer,
                      RemoteCall.result?] using hown
  · exact h

theorem start_request (handle : Handle) (call : RemoteCall ν Handle) :
    (call.start handle).request = call.request ∧ (call.start handle).answer = call.answer := by
  unfold RemoteCall.start
  split
  · next hpc => simp [RemoteCall.answer, RemoteCall.result?, hpc]
  · exact ⟨rfl, rfl⟩

theorem Prepared.start {modelId : String} {handle : Handle} {call : RemoteCall ν Handle}
    (h : Prepared pb np modelId handle call) :
    Prepared pb np modelId handle (call.start handle) := by
  unfold RemoteCall.start
  split
  · exact ⟨h.model, h.obs, by simp⟩
  · exact h

/-- What a change keeps of each element. -/
theorem map_modify_same {α β : Type} {f : α → α} {g : α → β} (hsame : ∀ x, g (f x) = g x)
    (xs : List α) (i : Nat) : (xs.modify i f).map g = xs.map g := by
  refine List.ext_getElem? fun j => ?_
  simp only [List.getElem?_map, List.getElem?_modify]
  cases xs[j]? with
  | none => rfl
  | some x => by_cases hj : i = j <;> simp [hj, hsame]

theorem forall_mem_modify {α : Type} {p : α → Prop} {f : α → α} (hf : ∀ x, p x → p (f x))
    {xs : List α} (h : ∀ x ∈ xs, p x) (i : Nat) : ∀ x ∈ xs.modify i f, p x := by
  intro y hy
  rcases List.mem_iff_getElem?.mp hy with ⟨j, hj⟩
  rw [List.getElem?_modify] at hj
  rcases Option.map_eq_some_iff.mp hj with ⟨x, hx, rfl⟩
  have hp := h x (List.mem_of_getElem? hx)
  split
  · exact hf x hp
  · exact hp

theorem CallerSound.start (h : CallerSound pb np s.dispatcher.handles own requests s) (i : Nat) :
    CallerSound pb np (s.start i).dispatcher.handles own requests (s.start i) := by
  unfold RayRun.start
  split
  · next modelId handle calls hpc =>
      have hreached := h.reached
      rw [hpc] at hreached
      rcases hreached with _ | ⟨finished, _, _, _, hresults, hhandle, hcalls, hall, hown⟩
      refine ⟨h.owned, .gathering finished modelId handle _ hresults hhandle ?_ ?_ ?_⟩
      · exact forall_mem_modify (fun _ hcall => hcall.start) hcalls i
      · rw [map_modify_same fun call => (start_request handle call).1]
        exact hall
      · have hanswers := congrArg (List.filterMap id)
          (map_modify_same (fun call => (start_request handle call).2) calls i)
        simp only [List.filterMap_map, Function.id_comp] at hanswers
        rw [hanswers]
        exact hown
  · exact h

theorem set_answer {calls : List (RemoteCall ν Handle)} {i : Nat} {call next : RemoteCall ν Handle}
    {answer : InferenceRequest ν × DispatchResult} (hcall : calls[i]? = some call)
    (hnone : call.answer = none) (hsome : next.answer = some answer) :
    ((calls.set i next).filterMap RemoteCall.answer).Perm
      (answer :: calls.filterMap RemoteCall.answer) := by
  rcases List.getElem?_eq_some_iff.mp hcall with ⟨hi, rfl⟩
  have hset := (List.set_perm_cons_eraseIdx hi next).filterMap RemoteCall.answer
  have hold := (List.getElem_cons_eraseIdx_perm hi).filterMap RemoteCall.answer
  rw [List.filterMap_cons_none hnone] at hold
  rw [List.filterMap_cons_some hsome] at hset
  exact hset.trans (hold.cons answer)

variable (pb np) in
/-- A coroutine goes on, or nobody does. -/
theorem complete_cases (s : RayRun ν Handle) (caller : Nat)
    (stamp : InferenceRequest ν → CallStamp) (i : Nat) (outcome : Except PyError (RawResult Obj)) :
    s.complete pb np stamp i outcome = s ∧ s.endedBy caller stamp (.complete i outcome) = [] ∨
      ∃ modelId handle calls call target, s.pc = .gathering modelId handle calls ∧
        calls[i]? = some call ∧ call.pc = .remote target ∧
        s.complete pb np stamp i outcome =
          { s with
            health := LocalDispatcher.healthAfter pb np stamp modelId call.request outcome s.health
            pc := .gathering modelId handle (calls.set i
              ⟨call.request, call.obs,
                .returned (callResult pb np (stamp call.request) call.request outcome)⟩) } ∧
        s.endedBy caller stamp (.complete i outcome) =
          [⟨caller, call.request, call.obs, target, stamp call.request, outcome⟩] := by
  cases hpc : s.pc with
  | gathering modelId handle calls =>
      cases hcall : calls[i]? with
      | none => exact .inl ⟨by simp [RayRun.complete, hpc, hcall], by simp [RayRun.endedBy, hpc, hcall]⟩
      | some call =>
          cases htarget : call.pc with
          | remote target =>
              refine .inr ⟨modelId, handle, calls, call, target, rfl, hcall, htarget, ?_, ?_⟩
              · simp [RayRun.complete, hpc, hcall, htarget]
              · simp [RayRun.endedBy, hpc, hcall, htarget]
          | _ =>
              refine .inl ⟨?_, ?_⟩
              · simp [RayRun.complete, hpc, hcall, htarget]
              · simp [RayRun.endedBy, hpc, hcall, htarget]
  | _ => exact .inl ⟨by simp [RayRun.complete, hpc], by simp [RayRun.endedBy, hpc]⟩

theorem CallerSound.gathering {modelId : String} {handle : Handle}
    {calls : List (RemoteCall ν Handle)} (h : CallerSound pb np handles own requests s)
    (hpc : s.pc = .gathering modelId handle calls) :
    handles.get? modelId = some handle ∧ ∀ call ∈ calls, Prepared pb np modelId handle call := by
  have hreached := h.reached
  rw [hpc] at hreached
  rcases hreached with _ | ⟨finished, _, _, _, hresults, hhandle, hcalls, hall, hown⟩
  exact ⟨hhandle, hcalls⟩

/-- The remote call that ends is one of the model, on its handle, for its own observation. -/
theorem CallerSound.endedBy (h : CallerSound pb np s.dispatcher.handles own requests s)
    (caller : Nat) (stamp : InferenceRequest ν → CallStamp) {a : RayAction Obj}
    {call : EndedCall ν Obj Handle} (hcall : call ∈ s.endedBy caller stamp a) :
    call.caller = caller ∧
      s.dispatcher.handles.get? call.request.modelId = some call.handle ∧
        reconstructNumpy pb np call.request = .ok call.obs := by
  cases a with
  | complete i outcome =>
      rcases complete_cases pb np s caller stamp i outcome with
        ⟨-, hnone⟩ | ⟨modelId, handle, calls, remote, target, hpc, hremote, htarget, -, hone⟩
      · rw [hnone] at hcall
        cases hcall
      · rcases h.gathering hpc with ⟨hhandle, hcalls⟩
        have hprepared := hcalls remote (List.mem_of_getElem? hremote)
        rw [hone] at hcall
        rw [List.mem_singleton.mp hcall]
        refine ⟨rfl, ?_, hprepared.obs⟩
        rw [hprepared.model, hprepared.target target htarget]
        exact hhandle
  | _ => cases hcall

theorem CallerSound.complete (h : CallerSound pb np s.dispatcher.handles own requests s)
    (caller : Nat) (stamp : InferenceRequest ν → CallStamp) (i : Nat)
    (outcome : Except PyError (RawResult Obj)) :
    CallerSound pb np (s.complete pb np stamp i outcome).dispatcher.handles
      (own ++ (s.endedBy caller stamp (.complete i outcome)).map (EndedCall.answer pb np)) requests
      (s.complete pb np stamp i outcome) := by
  rcases complete_cases pb np s caller stamp i outcome with
    ⟨hstill, hnone⟩ | ⟨modelId, handle, calls, call, target, hpc, hcall, htarget, hnext, hone⟩
  · rw [hstill, hnone]
    simpa using h
  · have hreached := h.reached
    rw [hpc] at hreached
    rcases hreached with _ | ⟨finished, _, _, _, hresults, hhandle, hcalls, hall, hown⟩
    have hprepared := hcalls call (List.mem_of_getElem? hcall)
    rw [hnext, hone]
    refine ⟨h.owned, .gathering finished modelId handle _ hresults hhandle ?_ ?_ ?_⟩
    · intro other hother
      rcases List.mem_or_eq_of_mem_set hother with hold | rfl
      · exact hcalls other hold
      · exact ⟨hprepared.model, hprepared.obs, by simp⟩
    · have hsame : (calls.map RemoteCall.request).set i call.request =
          calls.map RemoteCall.request := by
        rcases List.getElem?_eq_some_iff.mp hcall with ⟨hi, rfl⟩
        refine List.ext_getElem? fun j => ?_
        by_cases hj : i = j
        · subst hj
          simp [hi]
        · simp [hj]
      rw [List.map_set, hsame]
      exact hall
    · refine (hown.append_right _).trans ?_
      rw [List.append_assoc]
      refine List.Perm.append_left finished (List.perm_append_comm.trans ?_)
      exact (set_answer hcall (by simp [RemoteCall.answer, RemoteCall.result?, htarget]) rfl).symm

theorem CallerSound.collect (h : CallerSound pb np s.dispatcher.handles own requests s) :
    CallerSound pb np s.collect.dispatcher.handles own requests s.collect := by
  unfold RayRun.collect
  split
  · next modelId handle calls hpc =>
      split
      · exact h
      · next batchResults hgathered =>
          have hreached := h.reached
          rw [hpc] at hreached
          rcases hreached with _ | ⟨finished, _, _, _, hresults, hhandle, hcalls, hall, hown⟩
          -- all coroutines have returned, each with its own result
          have hreturned := gathered_forall₂ hgathered
          have hanswers : calls.filterMap RemoteCall.answer =
              (calls.map RemoteCall.request).zip batchResults := by
            clear hpc hcalls hall hown hgathered
            induction hreturned with
            | nil => rfl
            | cons hcall _ ih =>
                simp [RemoteCall.answer, RemoteCall.result?, hcall] at ih ⊢
                exact ih
          have hlength : (calls.map RemoteCall.request).length = batchResults.length := by
            rw [List.length_map]
            exact hreturned.length_eq
          refine ⟨h.owned, .head (finished ++ (calls.map RemoteCall.request).zip batchResults)
            ?_ ?_ (hanswers ▸ hown)⟩
          · rw [List.map_append, hresults, List.map_snd_zip (Nat.le_of_eq hlength.symm)]
          · rw [List.map_append, List.map_fst_zip (Nat.le_of_eq hlength), List.append_assoc]
            exact hall
  · exact h

/-- One step of the caller. -/
theorem CallerSound.step (h : CallerSound pb np s.dispatcher.handles own requests s)
    (caller : Nat) (serve : RayServe Handle Obj) (stamp : InferenceRequest ν → CallStamp)
    (a : RayAction Obj) :
    CallerSound pb np (RayRun.step pb np serve stamp s a).dispatcher.handles
      (own ++ (s.endedBy caller stamp a).map (EndedCall.answer pb np)) requests
      (RayRun.step pb np serve stamp s a) := by
  cases a with
  | nextModel =>
      simp only [RayRun.step, RayRun.endedBy, List.map_nil, List.append_nil]
      exact h.nextModel serve
  | start i =>
      simp only [RayRun.step, RayRun.endedBy, List.map_nil, List.append_nil]
      exact h.start i
  | complete i outcome => exact h.complete caller stamp i outcome
  | collect =>
      simp only [RayRun.step, RayRun.endedBy, List.map_nil, List.append_nil]
      exact h.collect

/-! ## What a step does to the others -/

theorem step_kept (serve : RayServe Handle Obj) (stamp : InferenceRequest ν → CallStamp)
    (a : RayAction Obj) (modelId : String) (handle : Handle)
    (hkept : s.dispatcher.handles.get? modelId = some handle) :
    (RayRun.step pb np serve stamp s a).dispatcher.handles.get? modelId = some handle := by
  cases a with
  | nextModel =>
      show (s.nextModel pb np serve).dispatcher.handles.get? modelId = some handle
      unfold RayRun.nextModel
      split
      · split
        · exact hkept
        · next other group groups _ =>
            have hgot := (getHandle_kept serve s.dispatcher other).1 modelId handle hkept
            split
            · next e d heq =>
                rw [heq] at hgot
                exact hgot
            · next found d heq =>
                rw [heq] at hgot
                split
                · exact hgot
                · exact hgot
      · exact hkept
  | start i =>
      show (s.start i).dispatcher.handles.get? modelId = some handle
      unfold RayRun.start
      split <;> exact hkept
  | complete i outcome =>
      show (s.complete pb np stamp i outcome).dispatcher.handles.get? modelId = some handle
      unfold RayRun.complete
      split
      · split
        · exact hkept
        · split <;> exact hkept
      · exact hkept
  | collect =>
      show s.collect.dispatcher.handles.get? modelId = some handle
      unfold RayRun.collect
      split
      · split <;> exact hkept
      · exact hkept

/-- A remote call that ends updates the endpoint of its model, and no other. -/
theorem CallerSound.health (h : CallerSound pb np s.dispatcher.handles own requests s)
    (caller : Nat) (serve : RayServe Handle Obj) (stamp : InferenceRequest ν → CallStamp)
    (a : RayAction Obj) (modelId : String) :
    (RayRun.step pb np serve stamp s a).health.get? modelId =
      (((s.endedBy caller stamp a).filter fun call => call.request.modelId = modelId).flatMap
        (EndedCall.entries pb np)).foldl (noted modelId) (s.health.get? modelId) := by
  cases a with
  | nextModel =>
      have hsame : (s.nextModel pb np serve).health = s.health := by
        unfold RayRun.nextModel
        split
        · split
          · rfl
          · split
            · rfl
            · split <;> rfl
        · rfl
      simp [RayRun.endedBy, RayRun.step, hsame]
  | start i =>
      have hsame : (s.start i).health = s.health := by
        unfold RayRun.start
        split <;> rfl
      simp [RayRun.endedBy, RayRun.step, hsame]
  | collect =>
      have hsame : s.collect.health = s.health := by
        unfold RayRun.collect
        split
        · split <;> rfl
        · rfl
      simp [RayRun.endedBy, RayRun.step, hsame]
  | complete i outcome =>
      show (s.complete pb np stamp i outcome).health.get? modelId = _
      rcases complete_cases pb np s caller stamp i outcome with
        ⟨hstill, hnone⟩ | ⟨group, handle, calls, call, target, hpc, hcall, -, hnext, hone⟩
      · rw [hstill, hnone]
        rfl
      · have hmodel := ((h.gathering hpc).2 call (List.mem_of_getElem? hcall)).model
        rw [hnext, hone]
        by_cases hsame : group = modelId
        · subst hsame
          have hself := healthAfter_self pb np stamp s.health group call.request outcome
          simpa [hmodel, EndedCall.entries] using hself
        · have hother := healthAfter_other pb np stamp s.health (Ne.symm hsame) call.request outcome
          simpa [hmodel, hsame] using hother

end Caller

/-! ## All callers -/

section Shared

variable (pb : Protobuf ν) (np : Numpy Obj)

structure SharedSound (s : SharedDispatcher ν Obj Handle) : Prop where
  made : ∀ call ∈ s.ended, call.caller < s.callers.length ∧
    s.dispatcher.handles.get? call.request.modelId = some call.handle ∧
      reconstructNumpy pb np call.request = .ok call.obs
  health : ∀ modelId, s.health.get? modelId =
    healthOf modelId ((s.endedOf modelId).flatMap (EndedCall.entries pb np))
  callers : ∀ caller requests run, s.callers[caller]? = some (requests, run) →
    CallerSound pb np s.dispatcher.handles
      ((s.endedFor caller).map (EndedCall.answer pb np)) requests run

variable {pb np} {s : SharedDispatcher ν Obj Handle}

/-- A call of `dispatch` begins, and has made no remote calls yet. -/
theorem SharedSound.dispatch (h : SharedSound pb np s) (requests : List (InferenceRequest ν)) :
    SharedSound pb np (s.step pb np (.dispatch requests)) := by
  refine ⟨?_, h.health, ?_⟩
  · intro call hcall
    rcases h.made call hcall with ⟨hlt, hmade⟩
    refine ⟨?_, hmade⟩
    simpa [SharedDispatcher.step] using Nat.lt_succ_of_lt hlt
  · intro caller requests' run hcaller
    simp only [SharedDispatcher.step, List.getElem?_append] at hcaller
    split at hcaller
    · exact h.callers caller requests' run hcaller
    · next hge =>
        have hnone : s.endedFor caller = [] := by
          refine List.filter_eq_nil_iff.mpr fun call hcall => ?_
          have hlt := (h.made call hcall).1
          simp only [decide_eq_true_eq]
          omega
        have hpair : (requests, RayRun.begin s.dispatcher requests) = (requests', run) :=
          List.mem_singleton.mp (List.mem_of_getElem? hcaller) |>.symm
        cases hpair
        show CallerSound pb np _ ((s.endedFor caller).map _) _ _
        rw [hnone]
        exact .begin s.dispatcher requests

/-- One caller goes on; the others have the same remote calls as before. -/
theorem SharedSound.goOn (h : SharedSound pb np s) {caller : Nat}
    {requests : List (InferenceRequest ν)} {run : RayRun ν Handle}
    (hcaller : s.callers[caller]? = some (requests, run)) (serve : RayServe Handle Obj)
    (stamp : InferenceRequest ν → CallStamp) (a : RayAction Obj) :
    SharedSound pb np (s.step pb np (.goOn caller serve stamp a)) := by
  let here : RayRun ν Handle := { run with dispatcher := s.dispatcher, health := s.health }
  let next := RayRun.step pb np serve stamp here a
  have hstep : s.step pb np (.goOn caller serve stamp a) =
      { dispatcher := next.dispatcher
        health := next.health
        callers := s.callers.set caller (requests, next)
        ended := s.ended ++ here.endedBy caller stamp a } := by
    simp only [SharedDispatcher.step, hcaller]
    rfl
  have hold := h.callers caller requests run hcaller
  have hhere : CallerSound pb np here.dispatcher.handles
      ((s.endedFor caller).map (EndedCall.answer pb np)) requests here := ⟨hold.owned, hold.reached⟩
  have hlt : caller < s.callers.length := (List.getElem?_eq_some_iff.mp hcaller).1
  have hkept : ∀ modelId handle, s.dispatcher.handles.get? modelId = some handle →
      next.dispatcher.handles.get? modelId = some handle :=
    fun modelId handle hkept => step_kept serve stamp a modelId handle hkept
  rw [hstep]
  refine ⟨?_, ?_, ?_⟩
  · intro call hcall
    rcases List.mem_append.mp hcall with hbefore | hnew
    · rcases h.made call hbefore with ⟨hbegun, hhandle, hobs⟩
      exact ⟨by simpa using hbegun, hkept _ _ hhandle, hobs⟩
    · rcases hhere.endedBy caller stamp hnew with ⟨hown, hhandle, hobs⟩
      exact ⟨by simpa [hown] using hlt, hkept _ _ hhandle, hobs⟩
  · intro modelId
    have hhealth := hhere.health caller serve stamp a modelId
    have hbefore : here.health.get? modelId = _ := h.health modelId
    rw [hbefore, healthOf, ← List.foldl_append, ← List.flatMap_append] at hhealth
    rw [SharedDispatcher.endedOf, List.filter_append]
    exact hhealth
  · intro other requests' run' hother
    rw [List.getElem?_set] at hother
    split at hother
    · next hsame =>
        subst hsame
        cases hother
        -- all new calls are its own
        have hall : (here.endedBy caller stamp a).filter (fun call => call.caller = caller) =
            here.endedBy caller stamp a := by
          refine List.filter_eq_self.mpr fun call hcall => ?_
          exact decide_eq_true (hhere.endedBy caller stamp hcall).1
        have hgone := hhere.step caller serve stamp a
        simpa [SharedDispatcher.endedFor, List.filter_append, hall] using hgone
    · next hne =>
        have hnone : (here.endedBy caller stamp a).filter (fun call => call.caller = other) =
            [] := by
          refine List.filter_eq_nil_iff.mpr fun call hcall => ?_
          simpa [(hhere.endedBy caller stamp hcall).1] using hne
        have hsound := h.callers other requests' run' hother
        refine ⟨hsound.owned, ?_⟩
        simpa [SharedDispatcher.endedFor, List.filter_append, hnone] using
          hsound.reached.mono hkept

theorem SharedSound.step (h : SharedSound pb np s) (a : SharedAction ν Obj Handle) :
    SharedSound pb np (s.step pb np a) := by
  cases a with
  | dispatch requests => exact h.dispatch requests
  | goOn caller serve stamp a =>
      cases hcaller : s.callers[caller]? with
      | none => simpa [SharedDispatcher.step, hcaller] using h
      | some entry => exact h.goOn hcaller serve stamp a

theorem SharedSound.shares (h : SharedSound pb np s) : Shares pb np s where
  handle := fun call hcall => (h.made call hcall).2.1
  obs := fun call hcall => (h.made call hcall).2.2
  health := h.health
  counted := fun modelId => by
    have hnone : CountsOnce none [] := rfl
    have hmarks : ((s.endedOf modelId).flatMap (EndedCall.entries pb np)).map Prod.snd =
        (s.endedOf modelId).flatMap fun call => marks pb np call.outcome := by
      rw [List.map_flatMap]
      exact List.flatMap_congr fun call _ => entries_marks pb np call.stamp call.outcome
    rw [h.health, healthOf, ← hmarks]
    exact hnone.foldl _
  returned := by
    intro caller requests run results hcaller hended
    have hreached := (h.callers caller requests run hcaller).reached
    rw [hended] at hreached
    rcases hreached with _ | _ | ⟨-, hreturned⟩
    rcases hreturned results rfl with ⟨finished, hresults, hall, hown⟩
    have hlength : finished.length = results.length := by rw [← hresults, List.length_map]
    have hzip : (finished.map Prod.fst).zip results = finished := by
      rw [← hresults]
      exact (List.zip_of_prod rfl rfl).symm
    rw [← hall, hzip]
    exact ⟨by simpa using hlength, hown⟩

end Shared

/-- In every run of a `RayDispatcher`, with any number of concurrent calls of `dispatch`, the calls
share the handles and the health of the endpoints and nothing else: whatever Ray Serve answers at
each time, and in whichever order the remote calls end. -/
theorem concurrent_dispatch (pb : Protobuf ν) (np : Numpy Obj)
    (actions : List (SharedAction ν Obj Handle)) :
    Shares pb np (SharedDispatcher.run pb np {} actions) := by
  have hstart : SharedSound pb np ({} : SharedDispatcher ν Obj Handle) := by
    refine ⟨?_, fun _ => rfl, ?_⟩
    · intro call hcall
      cases hcall
    · intro caller requests run hcaller
      cases hcaller
  have hrun : ∀ s : SharedDispatcher ν Obj Handle, SharedSound pb np s →
      SharedSound pb np (s.run pb np actions) := by
    induction actions with
    | nil => exact fun _ h => h
    | cons a actions ih => exact fun s h => ih (s.step pb np a) (h.step a)
  exact (hrun _ hstart).shares

end Inferential
