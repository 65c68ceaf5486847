import Inferential.Server.Attempts
import Inferential.System.State

/-!
# EndToEnd — every result is the answer to an observation of its own

From the result that a client gets back to the observation that caused it: the response was sent
once, for a request that was built of one message, which one call of `observe` has sent.  Each stage
is a matching, and the matchings compose.
-/

namespace Inferential

open PyStd Client

variable {ν Py Obj Handle ι : Type}

/-! ## The dispatchers -/

/-- A dispatch that returns answers every request of its batch, each from its own observation. -/
theorem Backend.answers {pb : Protobuf ν} {np : Numpy Obj} {backend : Backend Obj Handle}
    {batch : List (InferenceRequest ν)} {results : List DispatchResult}
    (h : backend.Returns pb np batch (.ok results)) :
    ∃ order, order.Perm batch ∧
      List.Forall₂ (OwnResult pb np fun req => backend.Ran req.modelId) order results := by
  refine ⟨(byModel batch).flatten, (byModel_grouped batch).perm, ?_⟩
  cases backend with
  | «local» models =>
      rcases h with ⟨health, stamp, hok⟩
      rw [LocalDispatcher.dispatch_fst] at hok
      exact (allResults_ok hok).imp fun _ _ h => LocalDispatcher.answer_own stamp ⟨models, health⟩ h
  | ray serve gives =>
      rcases h with ⟨d, stamp, actions, hknown, hgenuine, hended⟩
      refine (RayRun.answered hgenuine hended).imp ?_
      intro req result hanswers
      rcases hanswers with ⟨handle, obs, outcome, hhandle, hobs, hgives, rfl⟩
      refine callResult_own hobs (stamp req) outcome ?_
      rintro raw rfl
      refine ⟨handle, ?_, hgives⟩
      -- a handle that is known already is the one that would be looked up
      unfold RayDispatcher.handleFor at hhandle
      split at hhandle
      · next found =>
          cases hhandle
          exact hknown req.modelId handle found
      · exact hhandle

theorem answersOf_own {pb : Protobuf ν} {np : Numpy Obj}
    {applied : InferenceRequest ν → Dict String ObsValue → RawResult Obj → Prop}
    {batch order : List (InferenceRequest ν)} {results : List DispatchResult}
    (hperm : order.Perm batch) (hown : List.Forall₂ (OwnResult pb np applied) order results) :
    Server.AnswersOf results batch := by
  have hmap : results.map (fun result => (result.reqId, result.identity)) =
      order.map fun req => (req.objId, req.identity) := by
    clear hperm
    induction hown with
    | nil => rfl
    | cons hhead _ ih => simp only [List.map_cons, hhead.reqId, hhead.identity, ih]
  unfold Server.AnswersOf
  rw [hmap]
  exact hperm.map _

/-! ## Copies of a request -/

section Copies

variable [Score ν]

/-- The request as it was accepted, whatever has happened to it since. -/
def InferenceRequest.bare (r : InferenceRequest ν) : InferenceRequest ν :=
  { r.unstamped with retryCount := 0 }

/-- What the schedulers leave as it is. -/
theorem InferenceRequest.bare_fields {r r₀ : InferenceRequest ν} (h : r.bare = r₀.bare) :
    (r.objId = r₀.objId ∧ r.clientId = r₀.clientId ∧ r.identity = r₀.identity) ∧
      r.modelId = r₀.modelId ∧ r.envelope = r₀.envelope ∧ r.payload = r₀.payload := by
  have hobjId := congrArg InferenceRequest.objId h
  have hclientId := congrArg InferenceRequest.clientId h
  have hidentity := congrArg InferenceRequest.identity h
  have hmodelId := congrArg InferenceRequest.modelId h
  have henvelope := congrArg InferenceRequest.envelope h
  have hpayload := congrArg InferenceRequest.payload h
  exact ⟨⟨hobjId, hclientId, hidentity⟩, hmodelId, henvelope, hpayload⟩

/-- The response is that of the request as it was accepted. -/
theorem OwnResponse.of_bare {pb : Protobuf ν} {np : Numpy Obj} {backend : Backend Obj Handle}
    {r r₀ : InferenceRequest ν} {result : DispatchResult} {resp : ModelResponse}
    (hbare : r.bare = r₀.bare)
    (h : OwnResponse pb np (fun req => backend.Ran req.modelId) r result resp) :
    OwnResponse pb np (fun req => backend.Ran req.modelId) r₀ result resp := by
  rcases InferenceRequest.bare_fields hbare with
    ⟨⟨-, hclientId, -⟩, hmodelId, henvelope, hpayload⟩
  have hobs : reconstructNumpy pb np r = reconstructNumpy pb np r₀ := by
    unfold reconstructNumpy
    rw [henvelope, hpayload]
  refine ⟨h.envelope, h.client.trans hclientId, h.modelId.trans hmodelId, ?_⟩
  rcases h.tensors with ⟨obs, raw, c, hreconstruct, hran, hcollect⟩
  exact ⟨obs, raw, c, hobs ▸ hreconstruct, hmodelId ▸ hran, hcollect⟩

/-- The result is that of the request as it was accepted. -/
theorem OwnResult.of_bare {pb : Protobuf ν} {np : Numpy Obj} {backend : Backend Obj Handle}
    {r r₀ : InferenceRequest ν} {result : DispatchResult} (hbare : r.bare = r₀.bare)
    (h : OwnResult pb np (fun req => backend.Ran req.modelId) r result) :
    OwnResult pb np (fun req => backend.Ran req.modelId) r₀ result := by
  rcases InferenceRequest.bare_fields hbare with ⟨⟨hobjId, hclientId, hidentity⟩, -⟩
  refine ⟨h.reqId.trans hobjId, h.clientId.trans hclientId, h.identity.trans hidentity, ?_⟩
  intro hsuccess
  rcases h.success hsuccess with ⟨resp, hresp⟩
  exact ⟨resp, hresp.of_bare hbare⟩

end Copies

/-! ## Answers are sent once -/

namespace Server

variable [Score ν]

/-- The responses of a request, counted in the history or in its life. -/
theorem count_answers (objId : Nat) (s : Server ν) :
    s.answers.count objId = (s.lifeOf objId).count .responded := by
  unfold answers lifeOf lives
  induction s.history with
  | nil => rfl
  | cons e history ih =>
      -- only a response adds to both counts
      cases e with
      | responded other identity =>
          by_cases hid : other = objId
          · subst hid
            simpa [List.filterMap_cons, Event.answer, Event.life, Lifecycle.wordOf] using ih
          · simpa [List.filterMap_cons, Event.answer, Event.life, Lifecycle.wordOf, hid] using ih
      | accepted r =>
          by_cases hid : r.objId = objId <;>
            simpa [List.filterMap_cons, Event.answer, Event.life, Lifecycle.wordOf, hid] using ih
      | taken owner r =>
          by_cases hid : r.objId = objId <;>
            simpa [List.filterMap_cons, Event.answer, Event.life, Lifecycle.wordOf, hid] using ih
      | dispatched other =>
          by_cases hid : other = objId <;>
            simpa [List.filterMap_cons, Event.answer, Event.life, Lifecycle.wordOf, hid] using ih
      | returned other success =>
          by_cases hid : other = objId <;>
            simpa [List.filterMap_cons, Event.answer, Event.life, Lifecycle.wordOf, hid] using ih
      | requeued other =>
          by_cases hid : other = objId <;>
            simpa [List.filterMap_cons, Event.answer, Event.life, Lifecycle.wordOf, hid] using ih
      | _ => simpa [List.filterMap_cons, Event.answer, Event.life, Lifecycle.wordOf] using ih

theorem answers_nodup {maxRetries : Nat} {s : Server ν} (h : Sound maxRetries s.view) :
    s.answers.Nodup := by
  rw [List.nodup_iff_count_le_one]
  intro objId
  rw [count_answers]
  exact (sound_answeredOnce h).oneResponse objId

/-- A send that ends was awaited. -/
theorem endedBy_sending {s : Server ν} {a : Action ν} {call : SendCall} (h : call ∈ s.endedBy a) :
    call.response ∈ s.sending := by
  cases a with
  | legacySent outcome =>
      rcases List.mem_map.mp h with ⟨response, hresponse, rfl⟩
      exact List.mem_append_left _ hresponse
  | taskSent i outcome =>
      rcases List.mem_map.mp h with ⟨response, hresponse, rfl⟩
      rcases List.mem_flatMap.mp hresponse with ⟨task, htask, hmem⟩
      have hfound : task ∈ s.tasks := List.mem_of_getElem? (Option.mem_toList.mp htask)
      exact List.mem_append_right _ (List.mem_flatMap.mpr ⟨task, hfound, hmem⟩)
  | _ => cases h

end Server

namespace System

variable [Score ν] [DecidableEq ι]

/-! ## What every stage knows -/

section Stages

variable (pb : Protobuf ν) (np : Numpy Obj) (cpb : ClientProtobuf ν Py) (clientId : ι → String)
  (toFloat32 : Rat → Rat) (backend : Backend Obj Handle)

/-- A message on its way to the server was sent by its client, or by a peer with another
identity. -/
def Honest (up : Upward ι Py) : Prop :=
  match up.source with
  | none => ∀ i, up.identity ≠ identityOf (clientId i)
  | some (i, call) => up.identity = identityOf (clientId i) ∧
      ∃ message obs parsed, call.sends cpb (clientId i) = .ok message ∧
        up.frames = sendFrames message ∧ message.1 = cpb.serializeObservation obs ∧
        obs.client = some (clientId i) ∧ obs.modelId = call.modelId ∧
        ObservationArrives pb cpb obs parsed

/-- The request was built of the message. -/
def BuiltOf (up : Upward ι Py) (r : InferenceRequest ν) : Prop :=
  ∃ receivedAt msg nowNs decoded, ZmqTransport.recv (up.identity :: up.frames) receivedAt = some msg ∧
    decode pb nowNs msg.envelope msg.payload msg.receivedAt = .ok decoded ∧
    r.identity = msg.identity ∧ r.envelope = msg.envelope ∧ r.payload = msg.payload ∧
    r.clientId = decoded.clientId ∧ r.modelId = decoded.modelId

/-- The request is one that was accepted, up to what the schedulers write into it. -/
def IsCopy (accepted : List (InferenceRequest ν)) (r : InferenceRequest ν) : Prop :=
  ∃ r₀ ∈ accepted, r.bare = r₀.bare

/-- A success is the answer to an accepted request, and its client can parse it. -/
def IsAnswer (accepted : List (InferenceRequest ν)) (result : DispatchResult) : Prop :=
  ∃ r₀ ∈ accepted, OwnResult pb np (fun req => backend.Ran req.modelId) r₀ result ∧
    ∀ resp, OwnResponse pb np (fun req => backend.Ran req.modelId) r₀ result resp →
      ∃ parsed, ResponseArrives pb cpb toFloat32 resp parsed

/-- The response on its way down is the answer to the request. -/
def Carries (r : InferenceRequest ν) (down : Downward) : Prop :=
  ∃ result resp parsed, down = ⟨result.reqId, ZmqTransport.send result.outgoing⟩ ∧
    OwnResult pb np (fun req => backend.Ran req.modelId) r result ∧
    OwnResponse pb np (fun req => backend.Ran req.modelId) r result resp ∧
    ResponseArrives pb cpb toFloat32 resp parsed

/-- What has reached an endpoint: a part of what the network has delivered, and only for it. -/
def Reached (identity : Bytes) (delivered : List Downward) (e : Endpoint) : Prop :=
  e.Readable cpb.parseResponse ∧ ∃ arrived : List Downward, arrived.Subperm delivered ∧
    (∀ down ∈ arrived, down.frames.head? = some identity) ∧
    Machine.Router.Conserves (modelOf cpb.parseResponse)
      (arrived.map fun down => unpack down.frames.tail) e.view

/-- The responses that the server has given to the socket, beside the sends that still run. -/
def Sent (server : Server ν) (sent : List Downward) : Prop :=
  ∃ ended : List SendCall,
    server.answers.Perm
      ((server.sending ++ ended.map SendCall.response).map DispatchResult.reqId) ∧
    sent = ended.filterMap given ∧
    ∀ call ∈ ended, call.response.success = true ∧
      IsAnswer pb np cpb toFloat32 backend server.acceptedRequests call.response

structure Causal (config : InferentialConfig ν) (s : System ν ι Py) : Prop where
  delivering : Server.Delivering config s.server
  holding : Server.Holding (IsCopy s.server.acceptedRequests)
    (fun result => result.success = true →
      IsAnswer pb np cpb toFloat32 backend s.server.acceptedRequests result) s.server
  sent : Sent pb np cpb toFloat32 backend s.server s.downlink.sent
  uplink : s.uplink.Honest
  downlink : s.downlink.Honest
  honest : ∀ up ∈ s.uplink.sent, Honest pb cpb clientId up
  built : Machine.Matches (BuiltOf pb) s.uplink.delivered s.server.acceptedRequests
  reached : ∀ i, Reached cpb (identityOf (clientId i)) s.downlink.delivered (s.endpoints i)

end Stages

section Step

variable {config : InferentialConfig ν} {pb : Protobuf ν} {np : Numpy Obj}
  {cpb : ClientProtobuf ν Py} {clientId : ι → String} {toFloat32 : Rat → Rat}
  {backend : Backend Obj Handle} {s : System ν ι Py}

theorem isCopy_copies (accepted : List (InferenceRequest ν)) :
    Server.Copies (IsCopy accepted) where
  stamp := by
    rintro r r' hunstamped ⟨r₀, hr₀, hbare⟩
    refine ⟨r₀, hr₀, ?_⟩
    unfold InferenceRequest.bare at hbare ⊢
    rw [hunstamped]
    exact hbare
  retried := fun ⟨r₀, hr₀, hbare⟩ => ⟨r₀, hr₀, hbare⟩

theorem IsCopy.mono {accepted more : List (InferenceRequest ν)} (hsub : accepted ⊆ more)
    {r : InferenceRequest ν} (h : IsCopy accepted r) : IsCopy more r := by
  rcases h with ⟨r₀, hr₀, hbare⟩
  exact ⟨r₀, hsub hr₀, hbare⟩

omit [Score ν] in
theorem IsAnswer.mono {accepted more : List (InferenceRequest ν)} (hsub : accepted ⊆ more)
    {result : DispatchResult} (h : IsAnswer pb np cpb toFloat32 backend accepted result) :
    IsAnswer pb np cpb toFloat32 backend more result := by
  rcases h with ⟨r₀, hr₀, hown, harrives⟩
  exact ⟨r₀, hsub hr₀, hown, harrives⟩

/-- What the dispatcher returns for copies of accepted requests answers these requests. -/
theorem dispatched_answers {accepted batch : List (InferenceRequest ν)}
    {results : List DispatchResult} (hbatch : ∀ r ∈ batch, IsCopy accepted r)
    (h : Dispatched pb np cpb toFloat32 backend batch (.ok results)) :
    Server.AnswersOf results batch ∧
      ∀ result ∈ results, IsAnswer pb np cpb toFloat32 backend accepted result := by
  rcases Backend.answers h.1 with ⟨order, hperm, hown⟩
  refine ⟨answersOf_own hperm hown, ?_⟩
  intro result hresult
  rcases (Machine.Matches.of_forall₂ hown).mem hresult with ⟨r, hr, hresultOf⟩
  have hrbatch : r ∈ batch := hperm.mem_iff.mp hr
  rcases hbatch r hrbatch with ⟨r₀, hr₀, hbare⟩
  refine ⟨r₀, hr₀, hresultOf.of_bare hbare, ?_⟩
  intro resp hresp
  exact h.2 results rfl result hresult r hrbatch resp (hresp.of_bare hbare.symm)

omit [DecidableEq ι] in
theorem Causal.brings (h : Causal pb np cpb clientId toFloat32 backend config s)
    {a : Server.Action ν} (hassumed : Assumed pb np cpb clientId toFloat32 backend s (.serve a)) :
    Server.WellAnswered s.server a ∧
      Server.Brings config pb (IsCopy s.server.acceptedRequests)
        (fun result => result.success = true →
          IsAnswer pb np cpb toFloat32 backend s.server.acceptedRequests result) s.server a := by
  cases a with
  | receive msg clock m => exact absurd hassumed id
  | legacyReturned result =>
      cases result with
      | error e => exact ⟨trivial, trivial⟩
      | ok results =>
          have hanswers : ∀ batch, s.server.legacy = .dispatching batch →
              Server.AnswersOf results batch ∧ ∀ result ∈ results,
                IsAnswer pb np cpb toFloat32 backend s.server.acceptedRequests result := by
            intro batch hbatch
            refine dispatched_answers ?_ (hassumed batch hbatch)
            simpa [hbatch, LegacyLoop.batch] using h.holding.batch
          exact ⟨fun batch hbatch => (hanswers batch hbatch).1,
            fun batch hbatch result hresult _ => (hanswers batch hbatch).2 result hresult⟩
  | taskReturned i result =>
      cases result with
      | error e => exact ⟨trivial, trivial⟩
      | ok results =>
          have hanswers : ∀ task, s.server.tasks[i]? = some task → task.pc = .dispatching →
              Server.AnswersOf results [task.request] ∧ ∀ result ∈ results,
                IsAnswer pb np cpb toFloat32 backend s.server.acceptedRequests result := by
            intro task htask hpc
            refine dispatched_answers ?_ (hassumed task htask hpc)
            simpa using (Server.task_holding h.holding htask).1
          exact ⟨fun task htask hpc => (hanswers task htask hpc).1,
            fun task htask hpc result hresult _ => (hanswers task htask hpc).2 result hresult⟩
  | _ => exact ⟨trivial, trivial⟩

/-! ## Step by step -/

omit [Score ν] in
theorem Reached.mono {identity : Bytes} {delivered more : List Downward} {e : Endpoint}
    (hsub : delivered.Subperm more) (h : Reached cpb identity delivered e) :
    Reached cpb identity more e := by
  rcases h with ⟨hreadable, arrived, harrived, hrest⟩
  exact ⟨hreadable, arrived, harrived.trans hsub, hrest⟩

omit [Score ν] in
/-- Nothing arrives. -/
theorem Reached.moves {identity : Bytes} {delivered : List Downward} {e e' : Endpoint}
    (h : Reached cpb identity delivered e)
    (hmoves : e'.Readable cpb.parseResponse ∧
      Machine.Router.Step (modelOf cpb.parseResponse) e.view [] e'.view) :
    Reached cpb identity delivered e' := by
  rcases h with ⟨-, arrived, harrived, haddressed, hconserves⟩
  refine ⟨hmoves.1, arrived, harrived, haddressed, ?_⟩
  simpa using hmoves.2.conserves hconserves

omit [Score ν] in
/-- A response arrives that the client can parse. -/
theorem Reached.arrives {identity : Bytes} {delivered : List Downward} {e : Endpoint}
    {down : Downward} (h : Reached cpb identity delivered e)
    (hhead : down.frames.head? = some identity)
    (hparses : Parses cpb.parseResponse down.frames.tail) :
    Reached cpb identity (delivered ++ [down]) (e.arrive cpb.parseResponse down.frames.tail) := by
  rcases h with ⟨hreadable, arrived, harrived, haddressed, hconserves⟩
  rcases Endpoint.arrive_moves hparses hreadable with ⟨hreadable', hmove⟩
  refine ⟨hreadable', arrived ++ [down], harrived.append (List.Subperm.refl _), ?_, ?_⟩
  · intro d hd
    rcases List.mem_append.mp hd with hold | hnew
    · exact haddressed d hold
    · exact List.mem_singleton.mp hnew ▸ hhead
  · simpa using hmove.conserves hconserves

/-- Every response that was given to the socket is carried by an accepted request. -/
theorem Sent.carried {server : Server ν} {sent : List Downward}
    (h : Sent pb np cpb toFloat32 backend server sent) :
    ∀ down ∈ sent, ∃ r ∈ server.acceptedRequests, Carries pb np cpb toFloat32 backend r down := by
  rcases h with ⟨ended, -, rfl, hanswers⟩
  intro down hdown
  rcases List.mem_filterMap.mp hdown with ⟨call, hcall, hgiven⟩
  rcases hanswers call hcall with ⟨hsuccess, r₀, hr₀, hown, harrives⟩
  rcases hown.success hsuccess with ⟨resp, hresp⟩
  rcases harrives resp hresp with ⟨parsed, hparsed⟩
  refine ⟨r₀, hr₀, call.response, resp, parsed, ?_, hown, hresp, hparsed⟩
  unfold given at hgiven
  split at hgiven
  · exact (Option.some.inj hgiven).symm
  · cases hgiven

omit [Score ν] in
theorem Carries.parses {r : InferenceRequest ν} {down : Downward}
    (h : Carries pb np cpb toFloat32 backend r down) :
    Parses cpb.parseResponse down.frames.tail := by
  rcases h with ⟨result, resp, parsed, rfl, -, hresp, hparsed⟩
  refine ⟨parsed, ?_⟩
  have hunpack := (unpack_send result.outgoing).2
  show cpb.parseResponse (unpack (ZmqTransport.send result.outgoing).tail).1 = _
  rw [hunpack]
  show cpb.parseResponse result.envelope = _
  rw [hresp.envelope]
  exact hparsed.parse

theorem Sent.step {server : Server ν} {sent : List Downward} {a : Server.Action ν}
    (h : Sent pb np cpb toFloat32 backend server sent)
    (hholding : Server.Holding (IsCopy server.acceptedRequests) (fun result =>
      result.success = true → IsAnswer pb np cpb toFloat32 backend server.acceptedRequests result)
      server)
    (hsub : server.acceptedRequests ⊆ (server.step config pb a).acceptedRequests) :
    Sent pb np cpb toFloat32 backend (server.step config pb a) (sent ++ outgoing server a) := by
  rcases h with ⟨ended, hbalance, hsent, hanswers⟩
  refine ⟨ended ++ server.endedBy a, (Server.step_handover server a).balance hbalance, ?_, ?_⟩
  · rw [List.filterMap_append, hsent, outgoing]
  · intro call hcall
    rcases List.mem_append.mp hcall with hold | hnew
    · exact ⟨(hanswers call hold).1, (hanswers call hold).2.mono hsub⟩
    -- the send that ends was of a success
    · rcases hholding.success call.response (Server.endedBy_sending hnew) with ⟨hanswer, hsuccess⟩
      exact ⟨hsuccess, (hanswer hsuccess).mono hsub⟩

/-- The server goes on by itself. -/
theorem Causal.serve (h : Causal pb np cpb clientId toFloat32 backend config s)
    {a : Server.Action ν} (hassumed : Assumed pb np cpb clientId toFloat32 backend s (.serve a)) :
    Causal pb np cpb clientId toFloat32 backend config (s.step config pb cpb clientId (.serve a)) := by
  have hreceive : ¬ a.IsReceive := by
    intro hreceive
    cases a with
    | receive msg clock m => exact hassumed
    | _ => exact hreceive
  rcases h.brings hassumed with ⟨hanswered, hbrings⟩
  have haccepted : (s.server.step config pb a).acceptedRequests = s.server.acceptedRequests :=
    Server.step_accepts hreceive
  have hholding := Server.step_holding h.holding h.delivering.wired.scheduler
    (isCopy_copies s.server.acceptedRequests) hbrings
  refine ⟨h.delivering.step hanswered, ?_, ?_, h.uplink, h.downlink.send _, h.honest, ?_, ?_⟩
  · show Server.Holding (IsCopy (s.server.step config pb a).acceptedRequests)
      (fun result => result.success = true → IsAnswer pb np cpb toFloat32 backend
        (s.server.step config pb a).acceptedRequests result) (s.server.step config pb a)
    rw [haccepted]
    exact hholding
  · exact h.sent.step h.holding (haccepted ▸ List.Subset.refl _)
  · show Machine.Matches _ _ (s.server.step config pb a).acceptedRequests
    rw [haccepted]
    exact h.built
  · exact h.reached

/-- The receive loop takes the next message that the network delivers. -/
theorem Causal.receive (h : Causal pb np cpb clientId toFloat32 backend config s) (n : Nat)
    (receivedAt : Rat) (clock : ReceiveClock) (m : Moment ν) :
    Causal pb np cpb clientId toFloat32 backend config
      (s.step config pb cpb clientId (.receive n receivedAt clock m)) := by
  have huplink := h.uplink.deliver n
  cases hn : s.uplink.inFlight[n]? with
  | none =>
      simp only [step, hn]
      exact h
  | some up =>
      have hdelivered : (s.uplink.deliver n).delivered = s.uplink.delivered ++ [up] := by
        simp [Machine.Channel.deliver, hn]
      have hlonger : s.uplink.delivered.Subperm (s.uplink.deliver n).delivered := by
        rw [hdelivered]
        exact (List.sublist_append_left _ _).subperm
      cases hrecv : ZmqTransport.recv (up.identity :: up.frames) receivedAt with
      | none =>
          simp only [step, hn, hrecv]
          exact ⟨h.delivering, h.holding, h.sent, huplink, h.downlink, h.honest,
            h.built.widen hlonger, h.reached⟩
      | some msg =>
          simp only [step, hn, hrecv]
          have hquiet : outgoing s.server (.receive msg clock m) = [] := rfl
          have hdelivering : Server.Delivering config (s.server.receive config pb msg clock m) :=
            h.delivering.step (a := .receive msg clock m) trivial
          cases hdecode : decode pb clock.nowNs msg.envelope msg.payload msg.receivedAt with
          | error e =>
              have hsame : (s.server.receive config pb msg clock m).acceptedRequests =
                  s.server.acceptedRequests := Server.receive_refuses hdecode m
              have hsent : Sent pb np cpb toFloat32 backend
                  (s.server.step config pb (.receive msg clock m))
                  (s.downlink.sent ++ outgoing s.server (.receive msg clock m)) :=
                h.sent.step h.holding (List.Perm.of_eq hsame).symm.subset
              rw [hquiet, List.append_nil] at hsent
              have hnothing : Server.Brings config pb (IsCopy s.server.acceptedRequests)
                  (fun result => result.success = true →
                    IsAnswer pb np cpb toFloat32 backend s.server.acceptedRequests result)
                  s.server (.receive msg clock m) := by
                intro decoded hdecode'
                cases hdecode.symm.trans hdecode'
              have hholding := Server.receive_holding h.holding h.delivering.wired.scheduler
                (isCopy_copies _) hnothing
              rw [← hsame] at hholding
              refine ⟨hdelivering, hholding, hsent, huplink, h.downlink, h.honest, ?_, h.reached⟩
              rw [hsame]
              exact h.built.widen hlonger
          | ok decoded =>
              have hmore : (s.server.receive config pb msg clock m).acceptedRequests =
                  s.server.acceptedRequests ++ [s.server.requestOf config msg clock decoded] :=
                Server.receive_accepts hdecode m
              have hsub : s.server.acceptedRequests ⊆
                  (s.server.receive config pb msg clock m).acceptedRequests := by
                rw [hmore]
                exact List.subset_append_left _ _
              have hsent : Sent pb np cpb toFloat32 backend
                  (s.server.step config pb (.receive msg clock m))
                  (s.downlink.sent ++ outgoing s.server (.receive msg clock m)) :=
                h.sent.step h.holding hsub
              rw [hquiet, List.append_nil] at hsent
              have hwider := h.holding.imp (fun _ => IsCopy.mono hsub)
                (fun _ hanswer hsuccess => (hanswer hsuccess).mono hsub)
              -- the new request is a copy of itself
              have hbrings : Server.Brings config pb
                  (IsCopy (s.server.receive config pb msg clock m).acceptedRequests)
                  (fun result => result.success = true → IsAnswer pb np cpb toFloat32 backend
                    (s.server.receive config pb msg clock m).acceptedRequests result)
                  s.server (.receive msg clock m) := by
                intro decoded' hdecode'
                cases hdecode.symm.trans hdecode'
                refine ⟨_, ?_, rfl⟩
                rw [hmore]
                exact List.mem_append_right _ List.mem_cons_self
              have hholding := Server.receive_holding hwider h.delivering.wired.scheduler
                (isCopy_copies _) hbrings
              refine ⟨hdelivering, hholding, hsent, huplink, h.downlink, h.honest, ?_, h.reached⟩
              rw [hmore, hdelivered]
              refine h.built.append (.of_forall₂ (.cons ?_ .nil))
              exact ⟨receivedAt, msg, clock.nowNs, decoded, hrecv, hdecode, rfl, rfl, rfl, rfl, rfl⟩

/-- The network delivers a response to a client. -/
theorem Causal.deliver (h : Causal pb np cpb clientId toFloat32 backend config s) (n : Nat)
    (i : ι) :
    Causal pb np cpb clientId toFloat32 backend config
      (s.step config pb cpb clientId (.deliver n i)) := by
  cases hn : s.downlink.inFlight[n]? with
  | none =>
      simp only [step, hn]
      exact h
  | some down =>
      by_cases hhead : down.frames.head? = some (identityOf (clientId i))
      · simp only [step, hn, hhead, if_true]
        have hdelivered : (s.downlink.deliver n).delivered = s.downlink.delivered ++ [down] := by
          simp [Machine.Channel.deliver, hn]
        have hsent : down ∈ s.downlink.sent := by
          have hflight : down ∈ s.downlink.inFlight := List.mem_of_getElem? hn
          exact h.downlink.subset (List.mem_append_right _ hflight)
        rcases h.sent.carried down hsent with ⟨r, -, hcarries⟩
        refine ⟨h.delivering, h.holding, h.sent, h.uplink, h.downlink.deliver n, h.honest, h.built,
          ?_⟩
        intro j
        show Reached cpb (identityOf (clientId j)) (s.downlink.deliver n).delivered
          (Function.update s.endpoints i
            ((s.endpoints i).arrive cpb.parseResponse down.frames.tail) j)
        rw [hdelivered]
        by_cases hj : j = i
        · subst hj
          rw [Function.update_self]
          exact (h.reached j).arrives hhead hcarries.parses
        · rw [Function.update_of_ne hj]
          exact (h.reached j).mono (List.sublist_append_left _ _).subperm
      · simp only [step, hn, hhead, if_false]
        exact h

/-- A client goes on, and nothing arrives. -/
theorem Causal.reached_update (h : Causal pb np cpb clientId toFloat32 backend config s) (i : ι)
    {e : Endpoint} (hmoves : (s.endpoints i).Readable cpb.parseResponse →
      e.Readable cpb.parseResponse ∧
        Machine.Router.Step (modelOf cpb.parseResponse) (s.endpoints i).view [] e.view) (j : ι) :
    Reached cpb (identityOf (clientId j)) s.downlink.delivered (Function.update s.endpoints i e j) := by
  by_cases hj : j = i
  · subst hj
    rw [Function.update_self]
    exact (h.reached j).moves (hmoves (h.reached j).1)
  · rw [Function.update_of_ne hj]
    exact h.reached j

theorem Causal.observe (h : Causal pb np cpb clientId toFloat32 backend config s) (i : ι)
    (call : ObserveCall Py)
    (hassumed : Assumed pb np cpb clientId toFloat32 backend s (.observe i call)) :
    Causal pb np cpb clientId toFloat32 backend config
      (s.step config pb cpb clientId (.observe i call)) := by
  cases hsends : call.sends cpb (clientId i) with
  | error e =>
      simp only [step, hsends]
      exact h
  | ok message =>
      simp only [step, hsends]
      refine ⟨h.delivering, h.holding, h.sent, h.uplink.send _, h.downlink, ?_, h.built, ?_⟩
      · intro up hup
        rcases List.mem_append.mp hup with hold | hnew
        · exact h.honest up hold
        · rw [List.mem_singleton.mp hnew]
          -- what was serialised is the message of the call
          have hbuilt : (call.message cpb (clientId i)).map
              (fun built => (cpb.serializeObservation built.1, built.2)) = .ok message := by
            unfold ObserveCall.sends Client.Handle.observe at hsends
            split at hsends
            · cases hsends
            · exact hsends
          cases hmessage : call.message cpb (clientId i) with
          | error e =>
              rw [hmessage] at hbuilt
              cases hbuilt
          | ok built =>
              rw [hmessage] at hbuilt
              cases hbuilt
              rcases hassumed built hmessage with ⟨parsed, hparsed⟩
              rcases observationMessage_keeps hmessage with ⟨hclient, hmodelId, -⟩
              exact ⟨rfl, _, built.1, parsed, hsends, rfl, rfl, hclient, hmodelId, hparsed⟩
      · exact h.reached_update i fun hreadable => Endpoint.send_moves hreadable

/-- Every step keeps what each stage knows. -/
theorem Causal.step (h : Causal pb np cpb clientId toFloat32 backend config s)
    {a : Action ν ι Py} (hassumed : Assumed pb np cpb clientId toFloat32 backend s a) :
    Causal pb np cpb clientId toFloat32 backend config (s.step config pb cpb clientId a) := by
  cases a with
  | observe i call => exact h.observe i call hassumed
  | foreign identity frames =>
      refine ⟨h.delivering, h.holding, h.sent, h.uplink.send _, h.downlink, ?_, h.built, h.reached⟩
      intro up hup
      rcases List.mem_append.mp hup with hold | hnew
      · exact h.honest up hold
      · rw [List.mem_singleton.mp hnew]
        exact hassumed
  | loseUp n =>
      exact ⟨h.delivering, h.holding, h.sent, h.uplink.lose n, h.downlink, h.honest, h.built,
        h.reached⟩
  | loseDown n =>
      exact ⟨h.delivering, h.holding, h.sent, h.uplink, h.downlink.lose n, h.honest, h.built,
        h.reached⟩
  | receive n receivedAt clock m => exact h.receive n receivedAt clock m
  | serve a => exact h.serve hassumed
  | deliver n i => exact h.deliver n i
  | client i a =>
      exact ⟨h.delivering, h.holding, h.sent, h.uplink, h.downlink, h.honest, h.built,
        h.reached_update i fun hreadable => Endpoint.step_moves hassumed hreadable⟩

theorem Causal.run (h : Causal pb np cpb clientId toFloat32 backend config s)
    {actions : List (Action ν ι Py)}
    (hassumed : Machine.Along (System.step config pb cpb clientId)
      (Assumed pb np cpb clientId toFloat32 backend) s actions) :
    Causal pb np cpb clientId toFloat32 backend config (s.run config pb cpb clientId actions) := by
  induction actions generalizing s with
  | nil => exact h
  | cons a actions ih => exact ih (h.step hassumed.1) hassumed.2

end Step

/-! ## The start -/

/-- A client of either kind that has not been used. -/
def freshEndpoint (isAsync : Bool) : Endpoint := if isAsync then .async {} else .sync {}

/-- The server before its first step, and clients of either kind. -/
def start (server : Server ν) (isAsync : ι → Bool) : System ν ι Py where
  server := server
  endpoints := fun i => freshEndpoint (isAsync i)

omit [DecidableEq ι] in
theorem start_causal {config : InferentialConfig ν} {pb : Protobuf ν} {np : Numpy Obj}
    {cpb : ClientProtobuf ν Py} {clientId : ι → String} {toFloat32 : Rat → Rat}
    {backend : Backend Obj Handle} {server : Server ν} (hinit : Server.init config = .ok server)
    (isAsync : ι → Bool) :
    Causal pb np cpb clientId toFloat32 backend config (start server isAsync) := by
  have hdelivering := Server.init_delivering hinit
  have hserver : stored server.scheduler = [] ∧ server.legacy = .top ∧ server.tasks = [] ∧
      server.history = [] := by
    unfold Server.init at hinit
    split at hinit
    · cases hinit
    · next scheduler hcreate =>
        cases hinit
        exact ⟨(AnyScheduler.createScheduler_fresh hcreate).2, rfl, rfl, rfl⟩
  rcases hserver with ⟨hstored, hlegacy, htasks, hhistory⟩
  have haccepted : server.acceptedRequests = [] := by simp [Server.acceptedRequests, hhistory]
  refine ⟨hdelivering, ?_, ?_, Machine.Channel.honest_empty, Machine.Channel.honest_empty,
    by simp [start], ?_, ?_⟩
  · refine ⟨?_, ?_, ?_, ?_, ?_⟩
    · simp [start, hstored]
    · simp [start, hlegacy, LegacyLoop.batch]
    · simp [start, hlegacy, LegacyLoop.results]
    · simp [start, hlegacy, LegacyLoop.awaited]
    · simp [start, htasks]
  · refine ⟨[], ?_, rfl, by simp⟩
    simp [start, Server.answers, Server.sending, hhistory, hlegacy, htasks, LegacyLoop.awaited]
  · simp only [start, haccepted]
    exact .nil _ _
  · intro i
    have hempty : (freshEndpoint (isAsync i)).Readable cpb.parseResponse ∧
        (freshEndpoint (isAsync i)).view = ⟨[], fun _ => [], []⟩ := by
      unfold freshEndpoint
      split
      · exact ⟨by simp [Endpoint.Readable, AsyncConnection.Readable], rfl⟩
      · exact ⟨by simp [Endpoint.Readable, Connection.Readable], rfl⟩
    refine ⟨hempty.1, [], List.nil_subperm, by simp, ?_⟩
    simp only [start, hempty.2]
    exact Machine.Router.conserves_nil rfl (fun _ => rfl) rfl

/-! ## From end to end -/

section EndToEnd

/-- The calls of `observe` that have sent a message, with the clients that made them. -/
def observations (s : System ν ι Py) : List (ι × ObserveCall Py) :=
  s.uplink.sent.filterMap Upward.source

/-- The responses that calls of `get_result` on the handles of a model have returned, in order. -/
def results (s : System ν ι Py) (i : ι) (modelId : String) : List Response :=
  (s.endpoints i).view.handedTo modelId

variable (pb : Protobuf ν) (np : Numpy Obj) (cpb : ClientProtobuf ν Py) (clientId : ι → String)
  (backend : Backend Obj Handle)

/-- The response is what the backend makes of the arrays and strings of the call, which was made
under the same client id and on a handle of the same model. -/
structure AnswersCall (i : ι) (modelId : String) (observed : ι × ObserveCall Py) (r : Response) :
    Prop where
  sameClient : clientId observed.1 = clientId i
  sameModel : observed.2.modelId = modelId
  answer : ∃ message obs raw c resp, observed.2.sends cpb (clientId i) = .ok message ∧
    (∀ req : InferenceRequest ν, req.envelope = message.1 → req.payload = message.2 →
      reconstructNumpy pb np req = .ok obs) ∧
    backend.Ran modelId obs raw ∧ collect pb np raw = .ok c ∧
    r = (pb.serializeResponse resp, c.payload) ∧ resp.client = clientId i ∧
    resp.modelId = modelId ∧ resp.tensors = c.tensors ∧ resp.metadata = c.metadata

variable {pb np cpb clientId backend} {config : InferentialConfig ν} {toFloat32 : Rat → Rat}
  {s : System ν ι Py}

/-- No two responses on their way down are for one request. -/
theorem Sent.nodup {maxRetries : Nat} {server : Server ν} {sent : List Downward}
    (h : Sent pb np cpb toFloat32 backend server sent) (hsound : Sound maxRetries server.view) :
    (sent.map Downward.reqId).Nodup := by
  rcases h with ⟨ended, hbalance, rfl, -⟩
  have hall : ((ended.map SendCall.response).map DispatchResult.reqId).Nodup := by
    have hnodup := hbalance.nodup_iff.mp (Server.answers_nodup hsound)
    rw [List.map_append] at hnodup
    exact (List.nodup_append.mp hnodup).2.1
  refine hall.sublist ?_
  -- a call that gave nothing to the socket is left out
  clear hall hbalance
  induction ended with
  | nil => exact List.Sublist.refl _
  | cons call ended ih =>
      rw [List.map_cons, List.map_cons]
      cases hgiven : given call with
      | none =>
          rw [List.filterMap_cons_none hgiven]
          exact ih.cons _
      | some down =>
          have hreqId : down.reqId = call.response.reqId := by
            unfold given at hgiven
            split at hgiven
            · cases hgiven
              rfl
            · cases hgiven
          rw [List.filterMap_cons_some hgiven, List.map_cons, hreqId]
          exact ih.cons_cons _

omit [Score ν] [DecidableEq ι] in
/-- The stages from the message of a client to the response that it can receive. -/
theorem answersCall_of_stages {i : ι} {modelId : String} {up : Upward ι Py}
    {r : InferenceRequest ν} {down : Downward} (hhonest : Honest pb cpb clientId up)
    (hbuilt : BuiltOf pb up r) (hcarries : Carries pb np cpb toFloat32 backend r down)
    (hhead : down.frames.head? = some (identityOf (clientId i)))
    (hmodel : modelOf cpb.parseResponse (unpack down.frames.tail) = modelId) :
    ∃ observed, up.source = some observed ∧
      AnswersCall pb np cpb clientId backend i modelId observed (unpack down.frames.tail) := by
  rcases hbuilt with ⟨receivedAt, msg, nowNs, decoded, hrecv, hdecode, hridentity, henvelope,
    hpayload, hrclient, hrmodel⟩
  rcases hcarries with ⟨result, resp, parsed, rfl, hown, hresp, hparsed⟩
  have hidentity : up.identity = identityOf (clientId i) := by
    have hmsg : msg.identity = up.identity := by
      cases hrecv
      rfl
    have hsent : result.identity = identityOf (clientId i) := Option.some.inj hhead
    rw [← hmsg, ← hridentity, ← hown.identity, hsent]
  -- a peer with another identity would have got the response
  cases hsource : up.source with
  | none =>
      simp only [Honest, hsource] at hhonest
      exact absurd hidentity (hhonest i)
  | some observed =>
      rcases observed with ⟨j, call⟩
      simp only [Honest, hsource] at hhonest
      rcases hhonest with ⟨hup, message, obs, parsedObs, hsends, hframes, hserialized, hclient,
        hcallModel, harrives⟩
      have hsame : clientId j = clientId i := identityOf_injective (hup.symm.trans hidentity)
      rw [hframes, recv_sendFrames] at hrecv
      cases hrecv
      -- the server has read the message of the call
      have hdecoded : decoded.clientId = clientId j ∧ decoded.modelId = call.modelId := by
        have hparse : pb.parseObservation message.1 = .ok parsedObs := hserialized ▸ harrives.parse
        have hfields := decode_reads hdecode hparse
        rw [harrives.client, hclient, harrives.modelId, hcallModel] at hfields
        exact ⟨Option.some.inj hfields.1.symm, hfields.2.symm⟩
      have hunpack : unpack (ZmqTransport.send result.outgoing).tail =
          (result.envelope, result.payload) := (unpack_send result.outgoing).2
      have hparsedModel : resp.modelId = modelId := by
        rw [← hmodel]
        simp only [hunpack, modelOf, hresp.envelope, hparsed.parse]
        exact hparsed.modelId.symm
      have hcallModelId : call.modelId = modelId := by
        rw [← hparsedModel, hresp.modelId, hrmodel, hdecoded.2]
      rcases hresp.tensors with ⟨values, raw, c, hreconstruct, hran, hcollect, htensors, hmetadata,
        hresultPayload⟩
      refine ⟨(j, call), rfl, hsame, hcallModelId, message, values, raw, c, resp, hsame ▸ hsends, ?_,
        ?_, hcollect, ?_, ?_, hparsedModel, htensors, hmetadata⟩
      · intro req hreqEnvelope hreqPayload
        rw [← hreconstruct]
        unfold reconstructNumpy
        rw [hreqEnvelope, hreqPayload, henvelope, hpayload]
      · rw [← hparsedModel, hresp.modelId]
        exact hran
      · rw [hunpack, hresp.envelope, hresultPayload]
      · rw [hresp.client, hrclient, hdecoded.1, hsame]

omit [DecidableEq ι] in
/-- What each stage knows, put together: a result of a client answers an observation of its own. -/
theorem Causal.matched (h : Causal pb np cpb clientId toFloat32 backend config s) (i : ι)
    (modelId : String) :
    Machine.Matches (AnswersCall pb np cpb clientId backend i modelId) s.observations
      (s.results i modelId) := by
  have hbuilt : Machine.Matches (BuiltOf pb) s.uplink.sent s.server.acceptedRequests :=
    h.built.widen h.uplink.delivered_subperm
  have hcarried : Machine.Matches (Carries pb np cpb toFloat32 backend)
      s.server.acceptedRequests s.downlink.sent := by
    refine .of_key InferenceRequest.objId Downward.reqId ?_
      (h.sent.nodup h.delivering.sound) h.sent.carried
    rintro r down ⟨result, resp, parsed, rfl, hown, -⟩
    exact hown.reqId.symm
  rcases h.reached i with ⟨-, arrived, harrived, hhead, hconserves⟩
  have hstages := (hbuilt.comp hcarried).narrow
    (harrived.trans h.downlink.delivered_subperm)
  -- in the form in which the client unpacks it
  have hunpacked : Machine.Matches (fun up response => ∃ down, response = unpack down.frames.tail ∧
      down.frames.head? = some (identityOf (clientId i)) ∧
      ∃ r, BuiltOf pb up r ∧ Carries pb np cpb toFloat32 backend r down) s.uplink.sent
      (arrived.map fun down => unpack down.frames.tail) :=
    hstages.map fun down hdown up hup => ⟨down, rfl, hhead down hdown, hup⟩
  have hhanded : (s.results i modelId).Subperm
      (Machine.Router.ofKey (modelOf cpb.parseResponse) modelId
        (arrived.map fun down => unpack down.frames.tail)) :=
    (hconserves.handed_prefix modelId).sublist.subperm
  refine (hunpacked.narrow (hhanded.trans (List.filter_sublist).subperm)).filterMap ?_
  rintro up hup response hresponse ⟨down, rfl, hdown, r, hr, hcarries⟩
  have hmodel : modelOf cpb.parseResponse (unpack down.frames.tail) = modelId := by
    have hkept := hhanded.subset hresponse
    simpa [Machine.Router.ofKey] using (List.mem_filter.mp hkept).2
  exact answersCall_of_stages (h.honest up hup) hr hcarries hdown hmodel

/-- Whatever the order of the steps and whatever the network loses, the responses that a client gets
for a model answer calls of `observe` under its own id for that model, and no two of them answer the
same call. -/
theorem results_answer_observations {server : Server ν} (hinit : Server.init config = .ok server)
    (isAsync : ι → Bool) {actions : List (Action ν ι Py)}
    (hassumed : Machine.Along (step config pb cpb clientId)
      (Assumed pb np cpb clientId toFloat32 backend) (start server isAsync) actions)
    (i : ι) (modelId : String) :
    Machine.Matches (AnswersCall pb np cpb clientId backend i modelId)
      ((start server isAsync).run config pb cpb clientId actions).observations
      (((start server isAsync).run config pb cpb clientId actions).results i modelId) :=
  ((start_causal hinit isAsync).run hassumed).matched i modelId

end EndToEnd

/-! ### A robot sends its joints and gets them back -/

def robot : Unit → String := fun _ => "robot-01"

def jointsTensor : Tensor := ⟨"q", .uint8, [3], 0, 3, 0, .raw⟩

def jointsCall : ObserveCall Rat where
  modelId := "policy"
  handlePriority := 1
  timestampNs := 0
  urgency := 0
  stepsRemaining := none
  priority := none
  kwargs := Dict.empty.set "q" (.array ⟨⟨"uint8", "|u1", 1⟩, [3], [1, 2, 3]⟩)

def jointsResponse : ModelResponse := { plainResponse "policy" "r" with tensors := [jointsTensor] }

/-- The server's side of protobuf for the two messages. -/
def jointsMessages : Protobuf Rat :=
  { Protobuf.ofMessages [policyObservation jointsTensor] with
    serializeResponse := fun resp =>
      if resp.responseId = "r" ∧ resp.timestampNs = 0 ∧ resp.inferenceLatencyMs = 0 then
        Wire.modelResponse resp
      else [] }

def jointsClient : ClientProtobuf Rat Rat := .ofMessages [jointsResponse]

def echoModel (obs : Dict String ObsValue) : Except PyError (RawResult NdArray) :=
  match obs.get? "q" with
  | some (.array joints) => .ok (.dict [(some "q", .inr joints)])
  | _ => .error .zeroDivisionError

def echo : Backend NdArray Unit := .local (Dict.empty.set "policy" echoModel)

def jointsRequest : InferenceRequest Rat where
  clientId := "robot-01"
  modelId := "policy"
  identity := identityOf "robot-01"
  envelope := Wire.observation (policyObservation jointsTensor)
  payload := [1, 2, 3]
  receivedAt := 0
  urgency := 0
  stepsRemaining := none
  timeUntilNext := 0
  latencyBudgetMs := 50
  priority := 1
  score := 9
  objId := 0

def jointsResult : DispatchResult where
  clientId := "robot-01"
  responseId := "r"
  identity := identityOf "robot-01"
  envelope := Wire.modelResponse jointsResponse
  payload := [1, 2, 3]
  latencyMs := 0
  success := true

def jointsRun : List (Action Rat Unit Rat) :=
  [.observe () jointsCall, .receive 0 0 ⟨0, 0, 0⟩ (Server.plainMoment 0),
    .serve (.legacyTop 0 (fun _ => 0) 0), .serve (.legacyReturned (.ok [jointsResult])),
    .serve (.legacyResult 0 0 (Server.plainMoment 0)), .serve (.legacySent .sent), .deliver 0 (),
    .client () (.sync (.getResult "policy" 1000 0)), .client () (.sync .drain),
    .client () (.sync .drain), .client () (.sync .take)]

/-- What the model returns for the request. -/
theorem jointsRequest_dispatched : Dispatched jointsMessages Numpy.reference jointsClient id echo
    [jointsRequest] (.ok [jointsResult]) := by
  refine ⟨⟨Dict.empty, fun _ => ⟨"r", 0, 0, 0⟩, rfl⟩, ?_⟩
  intro results hresults r hr req hreq resp hresp
  cases hresults
  rcases List.mem_singleton.mp hr with rfl
  rcases List.mem_singleton.mp hreq with rfl
  have hserialized : jointsMessages.serializeResponse resp = Wire.modelResponse jointsResponse :=
    hresp.envelope.symm
  have hown : resp.responseId = "r" ∧ resp.timestampNs = 0 ∧ resp.inferenceLatencyMs = 0 := by
    by_contra hother
    simp only [jointsMessages, if_neg hother] at hserialized
    exact absurd hserialized (by decide +kernel)
  rcases hresp.tensors with ⟨obs, raw, c, hobs, ⟨fn, hfn, hraw⟩, hc, htensors, hmetadata, -⟩
  cases hobs
  cases hfn
  cases hraw
  cases hc
  have hparse : jointsClient.parseResponse (Wire.modelResponse jointsResponse) =
      .ok jointsResponse := by
    simp [jointsClient, ClientProtobuf.ofMessages, parseAmong]
  refine ⟨jointsResponse, hserialized ▸ hparse, hresp.client.symm, hown.1.symm, hown.2.1.symm,
    htensors.symm, hown.2.2.symm, hresp.modelId.symm, ?_⟩
  intro k
  rw [hmetadata]
  rfl

theorem jointsRun_assumed : Machine.Along (step plainConfig jointsMessages jointsClient robot)
    (Assumed jointsMessages Numpy.reference jointsClient robot id echo)
    (start Server.plainServer fun _ => false) jointsRun := by
  refine ⟨?_, trivial, trivial, ?_, trivial, trivial, trivial, id, id, id, id, trivial⟩
  · intro message hmessage
    have hbuilt : message.1 = policyObservation jointsTensor := by
      cases hmessage
      rfl
    rw [hbuilt]
    refine ⟨policyObservation jointsTensor, ?_, rfl, rfl, rfl, rfl, rfl, rfl, fun _ => rfl, rfl⟩
    simp [jointsMessages, jointsClient, Protobuf.ofMessages, ClientProtobuf.ofMessages]
  · intro batch hbatch
    have htaken : ((start Server.plainServer fun _ => false).run plainConfig jointsMessages
        jointsClient robot (jointsRun.take 3)).server.legacy.batch = [jointsRequest] := by
      decide +kernel
    have hsame : batch = [jointsRequest] := by
      rw [← htaken]
      exact (congrArg LegacyLoop.batch hbatch).symm
    rw [hsame]
    exact jointsRequest_dispatched

theorem joints_answered :
    let s := (start Server.plainServer fun _ => false).run plainConfig jointsMessages jointsClient
      robot jointsRun
    s.results () "policy" = [(Wire.modelResponse jointsResponse, [1, 2, 3])] ∧
      Machine.Matches
        (AnswersCall jointsMessages Numpy.reference jointsClient robot echo () "policy")
        s.observations (s.results () "policy") :=
  ⟨by decide +kernel, results_answer_observations rfl _ jointsRun_assumed () "policy"⟩

end System
end Inferential
