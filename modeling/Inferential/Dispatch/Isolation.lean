import Inferential.Dispatch.Local
import Inferential.Dispatch.Ray
import Inferential.Proto.Wire
import Mathlib.Data.List.Perm.Basic
import Mathlib.Data.List.Induction

/-!
# Isolation — a batch answers as its requests would alone

Both dispatchers answer a batch by answering its requests one by one, grouped by model, and raise
when one of these raises.  So the requests of a batch are isolated from one another exactly when
none of them raises.
-/

namespace Inferential

open PyStd

variable {ν Obj Handle : Type}

/-! ## Answering one by one -/

/-- The results of a list of requests, or the first exception. -/
def allResults (answer : InferenceRequest ν → Except PyError DispatchResult) :
    List (InferenceRequest ν) → Except PyError (List DispatchResult)
  | [] => .ok []
  | req :: requests =>
      match answer req with
      | .error e => .error e
      | .ok result =>
          match allResults answer requests with
          | .error e => .error e
          | .ok results => .ok (result :: results)

section AllResults

variable {answer : InferenceRequest ν → Except PyError DispatchResult}

theorem allResults_append (first second : List (InferenceRequest ν)) :
    allResults answer (first ++ second) =
      match allResults answer first with
      | .error e => .error e
      | .ok results =>
          match allResults answer second with
          | .error e => .error e
          | .ok rest => .ok (results ++ rest) := by
  induction first with
  | nil =>
      simp only [List.nil_append, allResults]
      cases allResults answer second <;> rfl
  | cons req first ih =>
      simp only [List.cons_append, allResults, ih]
      cases answer req with
      | error e => rfl
      | ok result =>
          cases allResults answer first with
          | error e => rfl
          | ok results => cases allResults answer second <;> rfl

theorem allResults_ok {requests : List (InferenceRequest ν)} {results : List DispatchResult}
    (h : allResults answer requests = .ok results) :
    List.Forall₂ (fun req result => answer req = .ok result) requests results := by
  induction requests generalizing results with
  | nil =>
      simp only [allResults, Except.ok.injEq] at h
      subst h
      exact List.Forall₂.nil
  | cons req requests ih =>
      unfold allResults at h
      split at h
      · simp at h
      · next result hanswer =>
          split at h
          · simp at h
          · next rest hrest =>
              simp only [Except.ok.injEq] at h
              subst h
              exact List.Forall₂.cons hanswer (ih hrest)

theorem allResults_of_forall₂ {requests : List (InferenceRequest ν)} {results : List DispatchResult}
    (h : List.Forall₂ (fun req result => answer req = .ok result) requests results) :
    allResults answer requests = .ok results := by
  induction h with
  | nil => rfl
  | cons hhead _ ih => simp only [allResults, hhead, ih]

theorem allResults_ok_iff {requests : List (InferenceRequest ν)} :
    (∃ results, allResults answer requests = .ok results) ↔
      ∀ req ∈ requests, ∃ result, answer req = .ok result := by
  induction requests with
  | nil => simp [allResults]
  | cons req requests ih =>
      simp only [List.forall_mem_cons, ← ih, allResults]
      cases answer req with
      | error e => simp
      | ok result => cases allResults answer requests <;> simp

theorem allResults_singleton (req : InferenceRequest ν) :
    allResults answer [req] = (answer req).map fun result => [result] := by
  simp only [allResults]
  cases answer req <;> rfl

theorem allResults_congr {answer' : InferenceRequest ν → Except PyError DispatchResult}
    {requests : List (InferenceRequest ν)} (h : ∀ req ∈ requests, answer req = answer' req) :
    allResults answer requests = allResults answer' requests := by
  induction requests with
  | nil => rfl
  | cons req requests ih =>
      obtain ⟨hreq, hrest⟩ := List.forall_mem_cons.mp h
      simp only [allResults, hreq, ih hrest]

theorem allResults_map (f : InferenceRequest ν → DispatchResult)
    (requests : List (InferenceRequest ν)) :
    allResults (fun req => .ok (f req)) requests = .ok (requests.map f) := by
  induction requests with
  | nil => rfl
  | cons req requests ih => simp only [allResults, ih, List.map_cons]

end AllResults

/-! ## Grouping by model -/

/-- What holds of the groups after the requests `seen`. -/
structure Grouped (seen : List (InferenceRequest ν))
    (d : Dict String (List (InferenceRequest ν))) : Prop where
  perm : d.flatten.Perm seen
  owned : d.Owned InferenceRequest.modelId
  nonempty : ∀ group ∈ d.items, group.2 ≠ []

theorem Grouped.append {seen : List (InferenceRequest ν)}
    {d : Dict String (List (InferenceRequest ν))} (h : Grouped seen d) (req : InferenceRequest ν) :
    Grouped (seen ++ [req]) (d.set req.modelId (d.listAt req.modelId ++ [req])) where
  perm :=
    calc (d.set req.modelId (d.listAt req.modelId ++ [req])).flatten
      List.Perm _ (req :: d.flatten) :=
          Dict.flatten_set_cons (List.perm_append_singleton req _)
      List.Perm _ (req :: seen) := h.perm.cons req
      List.Perm _ (seen ++ [req]) := (List.perm_append_singleton req seen).symm
  owned := by
    refine h.owned.set fun r hr => ?_
    rcases List.mem_append.mp hr with hold | hnew
    · exact h.owned.listAt hold
    · rw [List.mem_singleton.mp hnew]
  nonempty := by
    intro group hgroup
    have hget := Dict.get?_eq_some.mpr hgroup
    rw [Dict.get?_set] at hget
    split at hget
    · rw [← Option.some.inj hget]
      simp
    · exact h.nonempty group (Dict.get?_eq_some.mp hget)

theorem byModel_grouped (requests : List (InferenceRequest ν)) :
    Grouped requests (byModel requests) := by
  -- the dictionary grows at the end, so the induction peels off the last request
  induction requests using List.reverseRecOn with
  | nil => exact ⟨by simp [byModel, Dict.empty, Dict.flatten, Dict.values], by
      simp [byModel, Dict.Owned, Dict.empty], by simp [byModel, Dict.empty]⟩
  | append_singleton requests req ih =>
      have hstep := ih.append req
      simpa only [byModel, List.foldl_append, List.foldl_cons, List.foldl_nil] using hstep

theorem byModel_singleton (req : InferenceRequest ν) : (byModel [req]).flatten = [req] :=
  List.perm_singleton.mp (byModel_grouped [req]).perm

/-! ## Both dispatchers answer one by one -/

section OneByOne

variable (pb : Protobuf ν) (np : Numpy Obj) (stamp : InferenceRequest ν → CallStamp)

/-- The request is reconstructed, and the model called in a `try`. -/
def callOne (fn : Dict String ObsValue → Except PyError (RawResult Obj))
    (req : InferenceRequest ν) : Except PyError DispatchResult :=
  match reconstructNumpy pb np req with
  | .error e => .error e
  | .ok obs => .ok (callResult pb np (stamp req) req (fn obs))

namespace LocalDispatcher

def answer (d : LocalDispatcher Obj) (req : InferenceRequest ν) : Except PyError DispatchResult :=
  match d.models.get? req.modelId with
  | none => .ok (errorResult (stamp req) req 0 s!"No model registered for '{req.modelId}'")
  | some fn => callOne pb np stamp fn req

theorem callAll_fst (modelId : String) (fn : Dict String ObsValue → Except PyError (RawResult Obj))
    (requests : List (InferenceRequest ν)) (health : Dict String EndpointHealth) :
    (callAll pb np stamp modelId fn requests health).1 =
      allResults (callOne pb np stamp fn) requests := by
  induction requests generalizing health with
  | nil => rfl
  | cons req requests ih =>
      simp only [callAll, allResults, callOne]
      cases reconstructNumpy pb np req with
      | error e => rfl
      | ok obs =>
          -- the health that is threaded through never shows in the results
          have hrest := ih (healthAfter pb np stamp modelId req (fn obs) health)
          dsimp only
          rw [← hrest]
          rcases callAll pb np stamp modelId fn requests
            (healthAfter pb np stamp modelId req (fn obs) health) with ⟨(e | results), health'⟩ <;> rfl

theorem dispatchGroup_fst (d : LocalDispatcher Obj) {modelId : String}
    {requests : List (InferenceRequest ν)} (hmodel : ∀ req ∈ requests, req.modelId = modelId)
    (health : Dict String EndpointHealth) :
    (dispatchGroup pb np stamp d.models modelId requests health).1 =
      allResults (d.answer pb np stamp) requests := by
  -- all requests of the group ask for the same model
  have hanswer : ∀ req ∈ requests, d.answer pb np stamp req =
      match d.models.get? modelId with
      | none => .ok (errorResult (stamp req) req 0 s!"No model registered for '{modelId}'")
      | some fn => callOne pb np stamp fn req := by
    intro req hreq
    rw [answer, hmodel req hreq]
  rw [allResults_congr hanswer, dispatchGroup]
  cases d.models.get? modelId with
  | none => exact (allResults_map _ requests).symm
  | some fn => exact callAll_fst pb np stamp modelId fn requests health

theorem dispatchModels_fst (d : LocalDispatcher Obj)
    {groups : List (String × List (InferenceRequest ν))}
    (howned : ∀ group ∈ groups, ∀ req ∈ group.2, req.modelId = group.1)
    (health : Dict String EndpointHealth) :
    (dispatchModels pb np stamp d.models groups health).1 =
      allResults (d.answer pb np stamp) (groups.map Prod.snd).flatten := by
  induction groups generalizing health with
  | nil => rfl
  | cons group groups ih =>
      obtain ⟨hgroup, hrest⟩ := List.forall_mem_cons.mp howned
      have hfirst := dispatchGroup_fst pb np stamp d hgroup health
      simp only [List.map_cons, List.flatten_cons, allResults_append, ← hfirst, dispatchModels]
      rcases dispatchGroup pb np stamp d.models group.1 group.2 health with ⟨(e | results), health'⟩
      · rfl
      · dsimp only
        rw [← ih hrest health']
        rcases dispatchModels pb np stamp d.models groups health' with ⟨(e | rest), health''⟩ <;> rfl

theorem dispatch_fst (d : LocalDispatcher Obj) (requests : List (InferenceRequest ν)) :
    (dispatch pb np stamp requests d).1 =
      allResults (d.answer pb np stamp) (byModel requests).flatten :=
  dispatchModels_fst pb np stamp d (byModel_grouped requests).owned d.health

end LocalDispatcher

namespace RayDispatcher

/-- The handle that `_get_handle` returns, without the table that keeps it. -/
def handleFor (serve : RayServe Handle Obj) (d : RayDispatcher Handle) (modelId : String) :
    Except PyError Handle :=
  match d.handles.get? modelId with
  | some handle => .ok handle
  | none => serve.getAppHandle modelId

variable (serve : RayServe Handle Obj)

def answer (d : RayDispatcher Handle) (req : InferenceRequest ν) : Except PyError DispatchResult :=
  match d.handleFor serve req.modelId with
  | .error e => .error e
  | .ok handle => callOne pb np stamp (serve.infer handle) req

omit pb np stamp in
/-- A handle that is kept is the one that would be looked up again. -/
theorem getHandle_handleFor (d : RayDispatcher Handle) (modelId : String) :
    (getHandle serve modelId d).1 = d.handleFor serve modelId ∧
      (getHandle serve modelId d).2.handleFor serve = d.handleFor serve := by
  unfold getHandle handleFor
  cases hget : d.handles.get? modelId with
  | some handle => simp
  | none =>
      cases happ : serve.getAppHandle modelId with
      | error e => simp
      | ok handle =>
          refine ⟨rfl, funext fun other => ?_⟩
          -- the handle that was added is what a look-up of its model gives
          by_cases heq : other = modelId
          · subst heq
            simp [hget, happ]
          · simp [Dict.get?_set, heq]

theorem reconstructAll_calls (fn : Dict String ObsValue → Except PyError (RawResult Obj))
    (requests : List (InferenceRequest ν)) :
    allResults (callOne pb np stamp fn) requests =
      (reconstructAll pb np requests).map fun calls =>
        calls.map fun call => callResult pb np (stamp call.1) call.1 (fn call.2) := by
  induction requests with
  | nil => rfl
  | cons req requests ih =>
      simp only [allResults, callOne, reconstructAll]
      cases reconstructNumpy pb np req with
      | error e => rfl
      | ok obs =>
          simp only [ih]
          cases reconstructAll pb np requests <;> rfl

theorem group_answers (d : RayDispatcher Handle) {modelId : String}
    {requests : List (InferenceRequest ν)} (hne : requests ≠ [])
    (hmodel : ∀ req ∈ requests, req.modelId = modelId) :
    allResults (d.answer pb np stamp serve) requests =
      match d.handleFor serve modelId with
      | .error e => .error e
      | .ok handle => allResults (callOne pb np stamp (serve.infer handle)) requests := by
  have hanswer : ∀ req ∈ requests, d.answer pb np stamp serve req =
      match d.handleFor serve modelId with
      | .error e => .error e
      | .ok handle => callOne pb np stamp (serve.infer handle) req := by
    intro req hreq
    rw [answer, hmodel req hreq]
  rw [allResults_congr hanswer]
  cases d.handleFor serve modelId with
  | ok handle => rfl
  | error e =>
      -- the handle is looked up once for the group, so the group must have a first request
      cases requests with
      | nil => exact absurd rfl hne
      | cons req requests => rfl

theorem dispatchModels_fst (d d' : RayDispatcher Handle)
    (hsame : d'.handleFor serve = d.handleFor serve)
    {groups : List (String × List (InferenceRequest ν))}
    (hne : ∀ group ∈ groups, group.2 ≠ [])
    (howned : ∀ group ∈ groups, ∀ req ∈ group.2, req.modelId = group.1) :
    (dispatchModels pb np serve stamp groups d').1 =
      allResults (d.answer pb np stamp serve) (groups.map Prod.snd).flatten := by
  induction groups generalizing d' with
  | nil => rfl
  | cons group groups ih =>
      obtain ⟨hgroup, hrest⟩ := List.forall_mem_cons.mp howned
      obtain ⟨hgroupNe, hrestNe⟩ := List.forall_mem_cons.mp hne
      obtain ⟨hhandle, hkept⟩ := getHandle_handleFor serve d' group.1
      have hfirst := group_answers pb np stamp serve d hgroupNe hgroup
      simp only [List.map_cons, List.flatten_cons, allResults_append, hfirst, dispatchModels]
      rw [hsame] at hhandle hkept
      rw [← hhandle]
      revert hkept
      rcases getHandle serve group.1 d' with ⟨(e | handle), d''⟩
      · exact fun _ => rfl
      · intro hkept
        dsimp only
        rw [reconstructAll_calls, ← ih d'' hkept hrestNe hrest]
        cases reconstructAll pb np group.2 with
        | error e => rfl
        | ok calls =>
            rcases dispatchModels pb np serve stamp groups d'' with ⟨(e | rest), final⟩ <;> rfl

theorem dispatch_fst (d : RayDispatcher Handle) (requests : List (InferenceRequest ν)) :
    (dispatch pb np serve stamp requests d).1 =
      allResults (d.answer pb np stamp serve) (byModel requests).flatten :=
  dispatchModels_fst pb np stamp serve d d rfl (byModel_grouped requests).nonempty
    (byModel_grouped requests).owned

end RayDispatcher

end OneByOne

/-! ## Isolation -/

/-- The same answer up to the response id, the timestamps and the latency. -/
structure SameAnswer (pb : Protobuf ν) (a b : DispatchResult) : Prop where
  success : a.success = b.success
  clientId : a.clientId = b.clientId
  identity : a.identity = b.identity
  payload : a.payload = b.payload
  envelope : ∃ resp resp' : ModelResponse,
    a.envelope = pb.serializeResponse resp ∧ b.envelope = pb.serializeResponse resp' ∧
      resp.client = resp'.client ∧ resp.modelId = resp'.modelId ∧
      resp.tensors = resp'.tensors ∧ resp.metadata = resp'.metadata

section Isolation

variable (pb : Protobuf ν)
  (dispatch : (InferenceRequest ν → CallStamp) → List (InferenceRequest ν) →
    Except PyError (List DispatchResult))

def SucceedsAlone (stamp : InferenceRequest ν → CallStamp) (req : InferenceRequest ν) : Prop :=
  ∃ result, dispatch stamp [req] = .ok [result] ∧ result.success = true

/-- The result answers the request as a batch of its own would: with the same response when that
succeeds, and with a failure when it does not. -/
def AnsweredAsAlone (req : InferenceRequest ν) (result : DispatchResult) : Prop :=
  result.reqId = req.objId ∧
    ∀ stamp',
      (∀ alone, dispatch stamp' [req] = .ok [alone] → alone.success = true →
        SameAnswer pb alone result) ∧
      (¬ SucceedsAlone dispatch stamp' req → result.success = false)

/-- The batch returns one result for each of its requests, in some order, each answered as it would
be alone, and the one for `req` is a success. -/
def IsolatedIn (stamp : InferenceRequest ν → CallStamp) (batch : List (InferenceRequest ν))
    (req : InferenceRequest ν) : Prop :=
  ∃ order results, order.Perm batch ∧ dispatch stamp batch = .ok results ∧
    List.Forall₂ (AnsweredAsAlone pb dispatch) order results ∧
    ∃ result ∈ results, AnsweredAsAlone pb dispatch req result ∧ result.success = true

end Isolation

theorem buildResult_same {pb : Protobuf ν} {np : Numpy Obj} {stamp stamp' : CallStamp}
    {req : InferenceRequest ν} {raw : RawResult Obj} {a b : DispatchResult}
    (ha : buildResult pb np stamp req raw = .ok a)
    (hb : buildResult pb np stamp' req raw = .ok b) : SameAnswer pb a b := by
  unfold buildResult at ha hb
  cases hc : collect pb np raw with
  | error e => simp [hc] at ha
  | ok c =>
      simp only [hc, Except.ok.injEq] at ha hb
      subst ha hb
      exact ⟨rfl, rfl, rfl, rfl, _, _, rfl, rfl, rfl, rfl, rfl, rfl⟩

theorem buildResult_reqId {pb : Protobuf ν} {np : Numpy Obj} {stamp : CallStamp}
    {req : InferenceRequest ν} {raw : RawResult Obj} {result : DispatchResult}
    (h : buildResult pb np stamp req raw = .ok result) :
    result.success = true ∧ result.reqId = req.objId := by
  unfold buildResult at h
  cases hc : collect pb np raw with
  | error e => simp [hc] at h
  | ok c =>
      simp only [hc, Except.ok.injEq] at h
      subst h
      exact ⟨rfl, rfl⟩

/-- How a request is answered does not depend on the stamps: it raises, it fails, or it is built
from the same raw result. -/
inductive AnswerKind (pb : Protobuf ν) (np : Numpy Obj) (req : InferenceRequest ν)
    (answer : (InferenceRequest ν → CallStamp) → Except PyError DispatchResult) : Prop
  | raises (e : PyError) (h : ∀ stamp, answer stamp = .error e)
  | fails (h : ∀ stamp, ∃ result, answer stamp = .ok result ∧ result.success = false ∧
      result.reqId = req.objId)
  | builds (raw : RawResult Obj)
      (h : ∀ stamp, ∃ result, answer stamp = .ok result ∧
        buildResult pb np (stamp req) req raw = .ok result)

theorem callOne_kind (pb : Protobuf ν) (np : Numpy Obj)
    (fn : Dict String ObsValue → Except PyError (RawResult Obj)) (req : InferenceRequest ν) :
    AnswerKind pb np req fun stamp => callOne pb np stamp fn req := by
  -- the clocks and the id of a call never decide between the three kinds
  cases hobs : reconstructNumpy pb np req with
  | error e => exact .raises e fun stamp => by simp [callOne, hobs]
  | ok obs =>
      cases hraw : fn obs with
      | error e => exact .fails fun stamp =>
          ⟨_, by simp only [callOne, hobs, hraw, callResult]; rfl, rfl, rfl⟩
      | ok raw =>
          cases hc : collect pb np raw with
          | error e => exact .fails fun stamp =>
              ⟨_, by simp only [callOne, hobs, hraw, callResult, buildResult, hc]; rfl, rfl, rfl⟩
          | ok c => exact .builds raw fun stamp =>
              ⟨_, by simp only [callOne, hobs, hraw, callResult, buildResult, hc]; rfl,
                by simp only [buildResult, hc]⟩

theorem LocalDispatcher.answer_kind (pb : Protobuf ν) (np : Numpy Obj) (d : LocalDispatcher Obj)
    (req : InferenceRequest ν) : AnswerKind pb np req fun stamp => d.answer pb np stamp req := by
  unfold LocalDispatcher.answer
  cases d.models.get? req.modelId with
  | none => exact .fails fun stamp =>
      ⟨errorResult (stamp req) req 0 s!"No model registered for '{req.modelId}'", rfl, rfl, rfl⟩
  | some fn => exact callOne_kind pb np fn req

theorem RayDispatcher.answer_kind (pb : Protobuf ν) (np : Numpy Obj) (serve : RayServe Handle Obj)
    (d : RayDispatcher Handle) (req : InferenceRequest ν) :
    AnswerKind pb np req fun stamp => d.answer pb np stamp serve req := by
  unfold RayDispatcher.answer
  cases d.handleFor serve req.modelId with
  | error e => exact .raises e fun _ => rfl
  | ok handle => exact callOne_kind pb np (serve.infer handle) req

theorem exists_paired {α β : Type} {R : α → β → Prop} {as : List α} {bs : List β}
    (h : List.Forall₂ R as bs) {a : α} (ha : a ∈ as) : ∃ b ∈ bs, R a b := by
  induction h with
  | nil => simp at ha
  | cons hhead _ ih =>
      rcases List.mem_cons.mp ha with rfl | htail
      · exact ⟨_, List.mem_cons_self, hhead⟩
      · rcases ih htail with ⟨b, hb, hpaired⟩
        exact ⟨b, List.mem_cons_of_mem _ hb, hpaired⟩

section OneAnswerEach

variable {pb : Protobuf ν} {np : Numpy Obj}
  {answer : (InferenceRequest ν → CallStamp) → InferenceRequest ν → Except PyError DispatchResult}
  {dispatch : (InferenceRequest ν → CallStamp) → List (InferenceRequest ν) →
    Except PyError (List DispatchResult)}

theorem dispatch_singleton
    (hdispatch : ∀ stamp batch,
      dispatch stamp batch = allResults (answer stamp) (byModel batch).flatten)
    (stamp : InferenceRequest ν → CallStamp) (req : InferenceRequest ν) :
    dispatch stamp [req] = (answer stamp req).map fun result => [result] := by
  rw [hdispatch, byModel_singleton, allResults_singleton]

theorem answered_as_alone (hkind : ∀ req, AnswerKind pb np req fun stamp => answer stamp req)
    (hdispatch : ∀ stamp batch,
      dispatch stamp batch = allResults (answer stamp) (byModel batch).flatten)
    {stamp : InferenceRequest ν → CallStamp} {req : InferenceRequest ν} {result : DispatchResult}
    (h : answer stamp req = .ok result) : AnsweredAsAlone pb dispatch req result := by
  have halone := dispatch_singleton hdispatch
  cases hkind req with
  -- a request that raises has no answer in the batch
  | raises e hraises => simp [hraises stamp] at h
  | fails hfails =>
      obtain ⟨_, hresult, hfail, hid⟩ := hfails stamp
      obtain rfl := Except.ok.inj (hresult.symm.trans h)
      refine ⟨hid, fun stamp' => ⟨fun alone hok hsuccess => ?_, fun _ => hfail⟩⟩
      obtain ⟨result', hresult', hfail', -⟩ := hfails stamp'
      rw [halone, hresult'] at hok
      simp only [Except.map, Except.ok.injEq, List.cons.injEq, and_true] at hok
      rw [hok, hsuccess] at hfail'
      exact absurd hfail' (by decide)
  | builds raw hbuilds =>
      obtain ⟨_, hresult, hbuilt⟩ := hbuilds stamp
      obtain rfl := Except.ok.inj (hresult.symm.trans h)
      refine ⟨(buildResult_reqId hbuilt).2, fun stamp' => ?_⟩
      obtain ⟨result', hresult', hbuilt'⟩ := hbuilds stamp'
      have hok' : dispatch stamp' [req] = .ok [result'] := by rw [halone, hresult']; rfl
      refine ⟨fun alone hok _ => ?_, fun hnot => ?_⟩
      · obtain rfl : result' = alone := by simpa [hok'] using hok
        exact buildResult_same hbuilt' hbuilt
      · exact absurd ⟨result', hok', (buildResult_reqId hbuilt').1⟩ hnot

/-- A dispatcher that answers one by one isolates a request that succeeds alone exactly when no
request of the batch raises. -/
theorem isolatedIn_iff (hkind : ∀ req, AnswerKind pb np req fun stamp => answer stamp req)
    (hdispatch : ∀ stamp batch,
      dispatch stamp batch = allResults (answer stamp) (byModel batch).flatten)
    (stamp : InferenceRequest ν → CallStamp) {stamp' : InferenceRequest ν → CallStamp}
    {batch : List (InferenceRequest ν)} {req : InferenceRequest ν} (hreq : req ∈ batch)
    (halone : SucceedsAlone dispatch stamp' req) :
    IsolatedIn pb dispatch stamp batch req ↔
      ∀ other ∈ batch, ∃ result, answer stamp other = .ok result := by
  have hperm := (byModel_grouped batch).perm
  have hall : (∀ other ∈ batch, ∃ result, answer stamp other = .ok result) ↔
      ∃ results, dispatch stamp batch = .ok results := by
    rw [hdispatch, allResults_ok_iff]
    exact forall_congr' fun other => imp_congr hperm.mem_iff.symm Iff.rfl
  -- isolation in a batch asks for no more than that the batch returns
  rw [hall]
  constructor
  · rintro ⟨_, results, -, hok, -⟩
    exact ⟨results, hok⟩
  · rintro ⟨results, hok⟩
    have hanswers := allResults_ok ((hdispatch stamp batch).symm.trans hok)
    have hisolated := hanswers.imp fun _ _ h => answered_as_alone hkind hdispatch h
    obtain ⟨result, hmem, hanswered⟩ := exists_paired hisolated (hperm.mem_iff.mpr hreq)
    obtain ⟨alone, hok', hsuccess⟩ := halone
    have hsame := (hanswered.2 stamp').1 alone hok' hsuccess
    exact ⟨_, results, hperm, hok, hisolated, result, hmem, hanswered, hsame.success ▸ hsuccess⟩

end OneAnswerEach

/-! ## Which requests raise -/

/-- The envelope parses and its tensors are consistent with the payload. -/
def Reconstructible (pb : Protobuf ν) (infers : Int → Bool) (req : InferenceRequest ν) : Prop :=
  ∃ obs, pb.parseObservation req.envelope = .ok obs ∧
    ∀ tensor ∈ obs.tensors, Consistent infers req.payload tensor

theorem callOne_ok_iff {np : Numpy Obj} (hnp : np.Documented) (pb : Protobuf ν)
    (stamp : InferenceRequest ν → CallStamp)
    (fn : Dict String ObsValue → Except PyError (RawResult Obj)) (req : InferenceRequest ν) :
    (∃ result, callOne pb np stamp fn req = .ok result) ↔ Reconstructible pb np.infers req := by
  rw [Reconstructible, ← reconstructNumpy_ok_iff hnp, callOne]
  cases reconstructNumpy pb np req <;> simp

theorem LocalDispatcher.answer_ok_iff {np : Numpy Obj} (hnp : np.Documented) (pb : Protobuf ν)
    (stamp : InferenceRequest ν → CallStamp) (d : LocalDispatcher Obj) (req : InferenceRequest ν) :
    (∃ result, d.answer pb np stamp req = .ok result) ↔
      (d.models.contains req.modelId = true → Reconstructible pb np.infers req) := by
  rw [LocalDispatcher.answer, Dict.contains]
  cases d.models.get? req.modelId with
  | none => simp
  | some fn => simpa using callOne_ok_iff hnp pb stamp fn req

/-- `_get_handle` has a handle for the model, or finds one. -/
def RayDispatcher.HasHandle (serve : RayServe Handle Obj) (d : RayDispatcher Handle)
    (modelId : String) : Prop :=
  d.handles.contains modelId = true ∨ ∃ handle, serve.getAppHandle modelId = .ok handle

theorem RayDispatcher.answer_ok_iff {np : Numpy Obj} (hnp : np.Documented) (pb : Protobuf ν)
    (stamp : InferenceRequest ν → CallStamp) (serve : RayServe Handle Obj)
    (d : RayDispatcher Handle) (req : InferenceRequest ν) :
    (∃ result, d.answer pb np stamp serve req = .ok result) ↔
      d.HasHandle serve req.modelId ∧ Reconstructible pb np.infers req := by
  unfold RayDispatcher.answer HasHandle handleFor Dict.contains
  cases d.handles.get? req.modelId with
  | some handle => simpa using callOne_ok_iff hnp pb stamp (serve.infer handle) req
  | none =>
      cases serve.getAppHandle req.modelId with
      | error e => simp
      | ok handle => simpa using callOne_ok_iff hnp pb stamp (serve.infer handle) req

/-- A request that succeeds alone is isolated from the rest of its batch exactly when the requests
for registered models can be reconstructed, for the local dispatcher, and when all requests can be
reconstructed and have a handle, for Ray. -/
theorem batch_isolates_iff {np : Numpy Obj} (hnp : np.Documented) (pb : Protobuf ν)
    (stamp stamp' : InferenceRequest ν → CallStamp) (batch : List (InferenceRequest ν))
    (req : InferenceRequest ν) (hreq : req ∈ batch) :
    (∀ d : LocalDispatcher Obj,
      let dispatch := fun stamp requests => (LocalDispatcher.dispatch pb np stamp requests d).1;
      SucceedsAlone dispatch stamp' req →
        (IsolatedIn pb dispatch stamp batch req ↔
          ∀ other ∈ batch, d.models.contains other.modelId = true →
            Reconstructible pb np.infers other)) ∧
    (∀ (serve : RayServe Handle Obj) (d : RayDispatcher Handle),
      let dispatch :=
        fun stamp requests => (RayDispatcher.dispatch pb np serve stamp requests d).1;
      SucceedsAlone dispatch stamp' req →
        (IsolatedIn pb dispatch stamp batch req ↔
          ∀ other ∈ batch, d.HasHandle serve other.modelId ∧ Reconstructible pb np.infers other)) := by
  constructor
  · intro d dispatch halone
    have hiff := isolatedIn_iff (d.answer_kind pb np)
      (fun stamp batch => d.dispatch_fst pb np stamp batch) stamp hreq halone
    exact hiff.trans (forall₂_congr fun other _ => d.answer_ok_iff hnp pb stamp other)
  · intro serve d dispatch halone
    have hiff := isolatedIn_iff (d.answer_kind pb np serve)
      (fun stamp batch => d.dispatch_fst pb np stamp serve batch) stamp hreq halone
    exact hiff.trans (forall₂_congr fun other _ => d.answer_ok_iff hnp pb stamp serve other)

/-! ## A mixed batch -/

/-- The observation of `policyObservation`, with a payload that holds its tensor. -/
def policyRequest (tensor : Tensor) (modelId : String) (objId : Nat) : InferenceRequest Rat where
  clientId := "robot-01"
  modelId := modelId
  identity := [1]
  envelope := Wire.observation { policyObservation tensor with modelId := modelId }
  payload := List.replicate tensor.byteLength 0
  receivedAt := 0
  urgency := 0
  stepsRemaining := none
  timeUntilNext := 0
  latencyBudgetMs := 50
  priority := 1
  score := 0
  objId := objId

def fourBytes : Tensor := ⟨"state", .float32, [1], 0, 4, 0, .raw⟩

def badBytes : Tensor := ⟨"state", .float32, [], 0, 3, 0, .raw⟩

def mixedMessages : Protobuf Rat :=
  Protobuf.ofMessages [policyObservation fourBytes, policyObservation badBytes,
    { policyObservation fourBytes with modelId := "unknown" }]

def goodRequest : InferenceRequest Rat := policyRequest fourBytes "policy" 0

def badRequest : InferenceRequest Rat := policyRequest badBytes "policy" 1

def unknownRequest : InferenceRequest Rat := policyRequest fourBytes "unknown" 2

def fixedStamp : InferenceRequest Rat → CallStamp := fun _ => ⟨"c0ffee", 0, 0, 0⟩

/-- The policy answers with its input array. -/
def echoPolicy (obs : Dict String ObsValue) : Except PyError (RawResult NdArray) :=
  match obs.get? "state" with
  | some (.array a) => .ok (.other a)
  | _ => .error (.foreign "'state'")

def echoModels : LocalDispatcher NdArray := LocalDispatcher.registerModel "policy" echoPolicy {}

/-- One application, and its handle. -/
def echoServe : RayServe Unit NdArray where
  getAppHandle modelId :=
    if modelId = "policy" then .ok () else .error (.foreign s!"Application '{modelId}' does not exist.")
  infer _ := echoPolicy

def echoLocal (stamp : InferenceRequest Rat → CallStamp) (requests : List (InferenceRequest Rat)) :
    Except PyError (List DispatchResult) :=
  (LocalDispatcher.dispatch mixedMessages Numpy.reference stamp requests echoModels).1

def echoRay (stamp : InferenceRequest Rat → CallStamp) (requests : List (InferenceRequest Rat)) :
    Except PyError (List DispatchResult) :=
  (RayDispatcher.dispatch mixedMessages Numpy.reference echoServe stamp requests {}).1

theorem succeedsAlone_iff {dispatch : (InferenceRequest ν → CallStamp) → List (InferenceRequest ν) →
    Except PyError (List DispatchResult)} {stamp : InferenceRequest ν → CallStamp}
    {req : InferenceRequest ν} :
    SucceedsAlone dispatch stamp req ↔
      (match dispatch stamp [req] with
        | .ok [result] => result.success
        | _ => false) = true := by
  unfold SucceedsAlone
  rcases dispatch stamp [req] with e | (_ | ⟨result, (_ | ⟨_, _⟩)⟩) <;> simp

theorem goodRequest_succeeds :
    SucceedsAlone echoLocal fixedStamp goodRequest ∧
      SucceedsAlone echoRay fixedStamp goodRequest :=
  ⟨succeedsAlone_iff.mpr (by rfl), succeedsAlone_iff.mpr (by rfl)⟩

/-- A request for an unknown model leaves the others alone locally, and takes the batch down on
Ray. -/
theorem batch_isolates_unknownModel :
    IsolatedIn mixedMessages echoLocal fixedStamp [goodRequest, unknownRequest] goodRequest ∧
      ¬ IsolatedIn mixedMessages echoRay fixedStamp [goodRequest, unknownRequest] goodRequest := by
  obtain ⟨hlocal, hray⟩ := batch_isolates_iff Numpy.reference_documented mixedMessages fixedStamp
    fixedStamp [goodRequest, unknownRequest] goodRequest List.mem_cons_self
  constructor
  · refine (hlocal echoModels goodRequest_succeeds.1).mpr fun other hother _ => ?_
    rw [Reconstructible, ← reconstructNumpy_ok_iff Numpy.reference_documented]
    rcases List.mem_pair.mp hother with rfl | rfl
    · exact ⟨_, rfl⟩
    · exact ⟨_, rfl⟩
  · intro hisolated
    -- the condition fails at the unknown model, which has no handle
    have hhandle := ((hray echoServe {} goodRequest_succeeds.2).mp hisolated unknownRequest
      (by simp)).1
    rcases hhandle with hkept | ⟨handle, hfound⟩
    · exact absurd hkept (by decide)
    · simp [echoServe, unknownRequest, policyRequest] at hfound

/-- A request for three bytes of float32 takes the batch down on both dispatchers. -/
theorem badRequest_not_isolated :
    (SucceedsAlone echoLocal fixedStamp goodRequest ∧
      ¬ IsolatedIn mixedMessages echoLocal fixedStamp [goodRequest, badRequest] goodRequest) ∧
    (SucceedsAlone echoRay fixedStamp goodRequest ∧
      ¬ IsolatedIn mixedMessages echoRay fixedStamp [goodRequest, badRequest] goodRequest) := by
  have hlocal : echoLocal fixedStamp [goodRequest, badRequest] =
      .error (.valueError "buffer size must be a multiple of element size") := by rfl
  have hray : echoRay fixedStamp [goodRequest, badRequest] =
      .error (.valueError "buffer size must be a multiple of element size") := by rfl
  refine ⟨⟨goodRequest_succeeds.1, ?_⟩, ⟨goodRequest_succeeds.2, ?_⟩⟩
  · rintro ⟨_, results, -, hok, -⟩
    simp [hlocal] at hok
  · rintro ⟨_, results, -, hok, -⟩
    simp [hray] at hok

end Inferential
