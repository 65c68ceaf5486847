import Inferential.Dispatch.Isolation
import Inferential.Machine.MovingAverage

/-!
# Health — what `endpoint_health` counts

The health of an endpoint is updated before the result of a call is built, and again when building
it fails.  To say which calls that are, the dispatcher is run with callables that may change a
state of their own, and what they return is noted.
-/

namespace Inferential

open PyStd Machine

variable {ν ω Obj : Type}

/-! ## Callables with a state -/

/-- What a callable returns or raises may depend on earlier calls. -/
abbrev Callable (ω Obj : Type) := Dict String ObsValue → ω → Except PyError (RawResult Obj) × ω

/-- A `LocalDispatcher` of such callables.  `calls` is what each of them returned or raised, in the
order of the calls; the code keeps no such list. -/
structure TracedDispatcher (ν ω Obj : Type) where
  models : Dict String (Callable ω Obj)
  world : ω
  health : Dict String EndpointHealth := Dict.empty
  calls : List (InferenceRequest ν × Except PyError (RawResult Obj)) := []

namespace TracedDispatcher

section Dispatch

variable (pb : Protobuf ν) (np : Numpy Obj) (stamp : InferenceRequest ν → CallStamp)

/-- The call and what follows it in the `try`. -/
def callModel (modelId : String) (fn : Callable ω Obj) (req : InferenceRequest ν)
    (obs : Dict String ObsValue) (d : TracedDispatcher ν ω Obj) :
    DispatchResult × TracedDispatcher ν ω Obj :=
  let (result, world) := fn obs d.world
  (callResult pb np (stamp req) req result,
    { d with
      world := world
      health := LocalDispatcher.healthAfter pb np stamp modelId req result d.health
      calls := d.calls ++ [(req, result)] })

def callAll (modelId : String) (fn : Callable ω Obj) :
    List (InferenceRequest ν) → TracedDispatcher ν ω Obj →
      Except PyError (List DispatchResult) × TracedDispatcher ν ω Obj
  | [], d => (.ok [], d)
  | req :: requests, d =>
      match reconstructNumpy pb np req with
      | .error e => (.error e, d)
      | .ok obs =>
          let called := d.callModel pb np stamp modelId fn req obs
          match callAll modelId fn requests called.2 with
          | (.error e, d) => (.error e, d)
          | (.ok results, d) => (.ok (called.1 :: results), d)

def dispatchGroup (modelId : String) (requests : List (InferenceRequest ν))
    (d : TracedDispatcher ν ω Obj) :
    Except PyError (List DispatchResult) × TracedDispatcher ν ω Obj :=
  match d.models.get? modelId with
  | none =>
      (.ok (requests.map fun req =>
        errorResult (stamp req) req 0 s!"No model registered for '{modelId}'"), d)
  | some fn => callAll pb np stamp modelId fn requests d

def dispatchModels :
    List (String × List (InferenceRequest ν)) → TracedDispatcher ν ω Obj →
      Except PyError (List DispatchResult) × TracedDispatcher ν ω Obj
  | [], d => (.ok [], d)
  | (modelId, requests) :: groups, d =>
      match dispatchGroup pb np stamp modelId requests d with
      | (.error e, d) => (.error e, d)
      | (.ok results, d) =>
          match dispatchModels groups d with
          | (.error e, d) => (.error e, d)
          | (.ok rest, d) => (.ok (results ++ rest), d)

def dispatch (requests : List (InferenceRequest ν)) (d : TracedDispatcher ν ω Obj) :
    Except PyError (List DispatchResult) × TracedDispatcher ν ω Obj :=
  dispatchModels pb np stamp (byModel requests).items d

/-- One batch after the other, as long as `dispatch` returns. -/
def dispatchAll : List (List (InferenceRequest ν)) → TracedDispatcher ν ω Obj →
    Except PyError (List (List DispatchResult)) × TracedDispatcher ν ω Obj
  | [], d => (.ok [], d)
  | batch :: batches, d =>
      match dispatch pb np stamp batch d with
      | (.error e, d) => (.error e, d)
      | (.ok results, d) =>
          match dispatchAll batches d with
          | (.error e, d) => (.error e, d)
          | (.ok rest, d) => (.ok (results :: rest), d)

end Dispatch

def endpointHealth (modelId : String) (d : TracedDispatcher ν ω Obj) : Option EndpointHealth :=
  d.health.get? modelId

/-! ## The dispatcher of functions -/

/-- The dispatcher with the callables of `d`, which have no state. -/
def ofLocal (d : LocalDispatcher Obj) : TracedDispatcher ν Unit Obj where
  models := d.models.mapValues fun fn obs world => (fn obs, world)
  world := ()
  health := d.health

section Stateless

variable (pb : Protobuf ν) (np : Numpy Obj) (stamp : InferenceRequest ν → CallStamp)

theorem callAll_stateless (modelId : String)
    (fn : Dict String ObsValue → Except PyError (RawResult Obj))
    (requests : List (InferenceRequest ν)) (d : TracedDispatcher ν Unit Obj) :
    let run := callAll pb np stamp modelId (fun obs world => (fn obs, world)) requests d
    LocalDispatcher.callAll pb np stamp modelId fn requests d.health = (run.1, run.2.health) ∧
      run.2.models = d.models := by
  induction requests generalizing d with
  | nil => exact ⟨rfl, rfl⟩
  | cons req requests ih =>
      simp only [callAll, LocalDispatcher.callAll]
      cases reconstructNumpy pb np req with
      | error e => exact ⟨rfl, rfl⟩
      | ok obs =>
          have hhealth : LocalDispatcher.healthAfter pb np stamp modelId req (fn obs) d.health =
              (d.callModel pb np stamp modelId (fun obs world => (fn obs, world)) req obs).2.health :=
            rfl
          rcases ih (d.callModel pb np stamp modelId (fun obs world => (fn obs, world)) req obs).2
            with ⟨hrest, hmodels⟩
          dsimp only
          rw [hhealth, hrest]
          -- the rest of the loop returns or raises
          generalize callAll pb np stamp modelId (fun obs world => (fn obs, world)) requests
            (d.callModel pb np stamp modelId (fun obs world => (fn obs, world)) req obs).2 = run
            at hmodels ⊢
          rcases run with ⟨e | results, d'⟩
          · exact ⟨rfl, hmodels⟩
          · exact ⟨rfl, hmodels⟩

theorem dispatchGroup_stateless (l : LocalDispatcher Obj) (modelId : String)
    (requests : List (InferenceRequest ν)) (d : TracedDispatcher ν Unit Obj)
    (hd : d.models = (ofLocal (ν := ν) l).models) :
    let run := dispatchGroup pb np stamp modelId requests d
    LocalDispatcher.dispatchGroup pb np stamp l.models modelId requests d.health =
      (run.1, run.2.health) ∧ run.2.models = d.models := by
  have hget : d.models.get? modelId =
      (l.models.get? modelId).map fun fn obs world => (fn obs, world) := by
    rw [hd, ofLocal, Dict.get?_mapValues]
  simp only [dispatchGroup, LocalDispatcher.dispatchGroup, hget]
  cases l.models.get? modelId with
  | none => exact ⟨rfl, rfl⟩
  | some fn => exact callAll_stateless pb np stamp modelId fn requests d

theorem dispatchModels_stateless (l : LocalDispatcher Obj)
    (groups : List (String × List (InferenceRequest ν))) (d : TracedDispatcher ν Unit Obj)
    (hd : d.models = (ofLocal (ν := ν) l).models) :
    let run := dispatchModels pb np stamp groups d
    LocalDispatcher.dispatchModels pb np stamp l.models groups d.health =
      (run.1, run.2.health) := by
  induction groups generalizing d with
  | nil => rfl
  | cons group groups ih =>
      rcases group with ⟨modelId, requests⟩
      rcases dispatchGroup_stateless pb np stamp l modelId requests d hd with ⟨hgroup, hmodels⟩
      simp only [dispatchModels, LocalDispatcher.dispatchModels, hgroup]
      generalize dispatchGroup pb np stamp modelId requests d = run at hmodels ⊢
      rcases run with ⟨e | results, d'⟩
      · rfl
      · have hrest := ih d' (hmodels.trans hd)
        dsimp only at hrest ⊢
        rw [hrest]
        rcases dispatchModels pb np stamp groups d' with ⟨e | rest, d''⟩
        · rfl
        · rfl

/-- Without a state it is the dispatcher of `LocalDispatcher`. -/
theorem dispatch_stateless (l : LocalDispatcher Obj) (requests : List (InferenceRequest ν)) :
    let run := dispatch pb np stamp requests (ofLocal l)
    LocalDispatcher.dispatch pb np stamp requests l = (run.1, { l with health := run.2.health }) := by
  have hrun := dispatchModels_stateless pb np stamp l (byModel requests).items (ofLocal l) rfl
  unfold LocalDispatcher.dispatch
  rw [show l.health = (ofLocal (ν := ν) l).health from rfl, hrun]
  rfl

end Stateless

end TracedDispatcher

/-! ## The counters of an endpoint -/

/-- `error_val` -/
def errorVal (success : Bool) : Rat := if success then 0 else 1

/-- Each of these attempts is counted once. -/
def CountsOnce (health : Option EndpointHealth) (attempts : List Bool) : Prop :=
  match health with
  | none => attempts = []
  | some h =>
      h.totalRequests = attempts.length ∧
        h.errorRate = movingAverage h.alpha 0 (attempts.map errorVal)

/-- An endpoint is updated with a latency and a success. -/
def noted (modelId : String) (health : Option EndpointHealth) (entry : Rat × Bool) :
    Option EndpointHealth :=
  some ((health.getD { modelId := modelId }).update entry.1 entry.2)

/-- The health of an endpoint after these updates. -/
def healthOf (modelId : String) (entries : List (Rat × Bool)) : Option EndpointHealth :=
  entries.foldl (noted modelId) none

theorem updateHealth_self (health : Dict String EndpointHealth) (modelId : String)
    (latencyMs : Rat) (success : Bool) :
    (updateHealth health modelId latencyMs success).get? modelId =
      noted modelId (health.get? modelId) (latencyMs, success) :=
  Dict.get?_set_self _ _ _

theorem CountsOnce.noted {modelId : String} {health : Option EndpointHealth} {attempts : List Bool}
    (h : CountsOnce health attempts) (entry : Rat × Bool) :
    CountsOnce (noted modelId health entry) (attempts ++ [entry.2]) := by
  have hold : (health.getD { modelId := modelId }).totalRequests = attempts.length ∧
      (health.getD { modelId := modelId }).errorRate =
        movingAverage (health.getD { modelId := modelId }).alpha 0 (attempts.map errorVal) := by
    cases health with
    | some old => exact h
    | none =>
        have hnil : attempts = [] := h
        subst hnil
        exact ⟨rfl, rfl⟩
  unfold Inferential.noted
  generalize health.getD { modelId := modelId } = old at hold ⊢
  rcases hold with ⟨htotal, hrate⟩
  refine ⟨?_, ?_⟩
  · simp [EndpointHealth.update, htotal]
  · rw [List.map_append, List.map_singleton, movingAverage_concat]
    simp [EndpointHealth.update, hrate, errorVal]

theorem CountsOnce.foldl {modelId : String} {health : Option EndpointHealth} {attempts : List Bool}
    (h : CountsOnce health attempts) (entries : List (Rat × Bool)) :
    CountsOnce (entries.foldl (Inferential.noted modelId) health)
      (attempts ++ entries.map Prod.snd) := by
  induction entries generalizing health attempts with
  | nil => simpa using h
  | cons entry entries ih => simpa using ih (h.noted entry)

/-- The health knows how many attempts it counted. -/
theorem CountsOnce.length_eq {health : Option EndpointHealth} {attempts attempts' : List Bool}
    (h : CountsOnce health attempts) (h' : CountsOnce health attempts') :
    attempts.length = attempts'.length := by
  cases health with
  | none =>
      have hnil : attempts = [] := h
      have hnil' : attempts' = [] := h'
      rw [hnil, hnil']
  | some health => exact h.1.symm.trans h'.1

theorem updateHealth_other (health : Dict String EndpointHealth) {modelId other : String}
    (hne : modelId ≠ other) (latencyMs : Rat) (success : Bool) :
    (updateHealth health other latencyMs success).get? modelId = health.get? modelId :=
  Dict.get?_set_other _ _ hne

section Calls

variable (pb : Protobuf ν) (np : Numpy Obj) (stamp : InferenceRequest ν → CallStamp)

/-- The value that was returned, if one was, can be made into a response. -/
def Buildable (result : Except PyError (RawResult Obj)) : Prop :=
  ∀ rawResult, result = .ok rawResult → ∃ c, collect pb np rawResult = .ok c

/-- The updates that are made for a call. -/
def marks (result : Except PyError (RawResult Obj)) : List Bool :=
  match result with
  | .error _ => [false]
  | .ok rawResult =>
      match collect pb np rawResult with
      | .error _ => [true, false]
      | .ok _ => [true]

/-- The updates with their latencies. -/
def entries (stamp : CallStamp) (result : Except PyError (RawResult Obj)) : List (Rat × Bool) :=
  match result with
  | .error _ => [(stamp.errorLatencyMs, false)]
  | .ok rawResult =>
      match collect pb np rawResult with
      | .error _ => [(stamp.latencyMs, true), (stamp.errorLatencyMs, false)]
      | .ok _ => [(stamp.latencyMs, true)]

theorem entries_marks (stamp : CallStamp) (result : Except PyError (RawResult Obj)) :
    (entries pb np stamp result).map Prod.snd = marks pb np result := by
  cases result with
  | error e => rfl
  | ok rawResult => cases hc : collect pb np rawResult <;> simp [entries, marks, hc]

theorem marks_buildable {result : Except PyError (RawResult Obj)} (h : Buildable pb np result)
    (req : InferenceRequest ν) :
    marks pb np result = [(callResult pb np (stamp req) req result).success] := by
  cases result with
  | error e => rfl
  | ok rawResult =>
      rcases h rawResult rfl with ⟨c, hc⟩
      simp [marks, callResult, buildResult, hc]

/-- A call is counted once exactly when what it returns can be built. -/
theorem marks_length (result : Except PyError (RawResult Obj)) :
    1 ≤ (marks pb np result).length ∧ ((marks pb np result).length = 1 ↔ Buildable pb np result) := by
  cases result with
  | error e => simp [marks, Buildable]
  | ok rawResult => cases hc : collect pb np rawResult <;> simp [marks, Buildable, hc]

/-- Calls that are counted once are counted by their success. -/
theorem marks_all {calls : List (InferenceRequest ν × Except PyError (RawResult Obj))}
    (h : ∀ call ∈ calls, Buildable pb np call.2) :
    (calls.flatMap fun call => marks pb np call.2) =
      calls.map fun call => (callResult pb np (stamp call.1) call.1 call.2).success := by
  induction calls with
  | nil => rfl
  | cons call calls ih =>
      rcases List.forall_mem_cons.mp h with ⟨hcall, hcalls⟩
      rw [List.flatMap_cons, ih hcalls, marks_buildable pb np stamp hcall call.1]
      rfl

/-- Calls that are counted as often as there are calls are counted once each. -/
theorem buildable_of_length {calls : List (InferenceRequest ν × Except PyError (RawResult Obj))} :
    calls.length ≤ (calls.flatMap fun call => marks pb np call.2).length ∧
      ((calls.flatMap fun call => marks pb np call.2).length = calls.length →
        ∀ call ∈ calls, Buildable pb np call.2) := by
  induction calls with
  | nil => simp
  | cons call calls ih =>
      rcases ih with ⟨hle, hrest⟩
      rcases marks_length pb np call.2 with ⟨hone, hiff⟩
      simp only [List.flatMap_cons, List.length_append, List.length_cons]
      refine ⟨by omega, fun hsame => ?_⟩
      have hcall : (marks pb np call.2).length = 1 := by omega
      have hcalls := hrest (by omega)
      exact List.forall_mem_cons.mpr ⟨hiff.mp hcall, hcalls⟩

theorem healthAfter_self (health : Dict String EndpointHealth) (modelId : String)
    (req : InferenceRequest ν) (result : Except PyError (RawResult Obj)) :
    (LocalDispatcher.healthAfter pb np stamp modelId req result health).get? modelId =
      (entries pb np (stamp req) result).foldl (noted modelId) (health.get? modelId) := by
  cases result with
  | error e => exact updateHealth_self _ _ _ _
  | ok rawResult =>
      -- a failure is counted after the success
      cases hc : collect pb np rawResult <;>
        simp [LocalDispatcher.healthAfter, buildResult, entries, hc, updateHealth_self]

theorem CountsOnce.healthAfter {health : Dict String EndpointHealth} {modelId : String}
    {attempts : List Bool} (h : CountsOnce (health.get? modelId) attempts)
    (req : InferenceRequest ν) (result : Except PyError (RawResult Obj)) :
    CountsOnce ((LocalDispatcher.healthAfter pb np stamp modelId req result health).get? modelId)
      (attempts ++ marks pb np result) := by
  rw [healthAfter_self, ← entries_marks pb np (stamp req)]
  exact h.foldl _

theorem healthAfter_other (health : Dict String EndpointHealth) {modelId other : String}
    (hne : modelId ≠ other) (req : InferenceRequest ν) (result : Except PyError (RawResult Obj)) :
    (LocalDispatcher.healthAfter pb np stamp other req result health).get? modelId =
      health.get? modelId := by
  cases result with
  | error e => exact updateHealth_other _ hne _ _
  | ok rawResult =>
      simp only [LocalDispatcher.healthAfter]
      split
      · rw [updateHealth_other _ hne, updateHealth_other _ hne]
      · exact updateHealth_other _ hne _ _

end Calls

/-! ## Runs -/

namespace TracedDispatcher

variable (pb : Protobuf ν) (np : Numpy Obj) (stamp : InferenceRequest ν → CallStamp)

/-- What is known of the endpoint `modelId` after these requests were answered with these
results. -/
structure Answered (modelId : String) (answers : List (InferenceRequest ν × DispatchResult))
    (d : TracedDispatcher ν ω Obj) : Prop where
  own : ∀ answer ∈ answers, answer.2.reqId = answer.1.objId
  called : answers.filter (fun answer => answer.1.modelId = modelId) =
    (d.calls.filter fun call => call.1.modelId = modelId).map fun call =>
      (call.1, callResult pb np (stamp call.1) call.1 call.2)
  counted : CountsOnce (d.endpointHealth modelId)
    ((d.calls.filter fun call => call.1.modelId = modelId).flatMap fun call => marks pb np call.2)

/-- What answering some more requests leaves. -/
structure Serves (modelId : String) (answers : List (InferenceRequest ν × DispatchResult))
    (d : TracedDispatcher ν ω Obj) (requests : List (InferenceRequest ν))
    (results : List DispatchResult) (d' : TracedDispatcher ν ω Obj) : Prop where
  length : requests.length = results.length
  models : d'.models = d.models
  answered : Answered pb np stamp modelId (answers ++ requests.zip results) d'

theorem callResult_reqId (req : InferenceRequest ν) (result : Except PyError (RawResult Obj)) :
    (callResult pb np (stamp req) req result).reqId = req.objId := by
  cases result with
  | error e => rfl
  | ok rawResult =>
      cases hc : collect pb np rawResult <;> simp [callResult, buildResult, hc, errorResult]

variable {pb np stamp} {modelId : String} {answers : List (InferenceRequest ν × DispatchResult)}
  {d d' : TracedDispatcher ν ω Obj}

theorem Answered.callModel (h : Answered pb np stamp modelId answers d)
    (req : InferenceRequest ν) (fn : Callable ω Obj) (obs : Dict String ObsValue) :
    let called := d.callModel pb np stamp req.modelId fn req obs
    Answered pb np stamp modelId (answers ++ [(req, called.1)]) called.2 := by
  intro called
  have hown : ∀ answer ∈ answers ++ [(req, called.1)], answer.2.reqId = answer.1.objId := by
    intro answer hanswer
    rcases List.mem_append.mp hanswer with hold | hnew
    · exact h.own answer hold
    · rw [List.mem_singleton.mp hnew]
      exact callResult_reqId pb np stamp req _
  have hcalls : called.2.calls = d.calls ++ [(req, (fn obs d.world).1)] := rfl
  by_cases hmodel : req.modelId = modelId
  · subst hmodel
    refine ⟨hown, ?_, ?_⟩
    · rw [hcalls, List.filter_append, List.filter_append, List.map_append, h.called]
      simp [called, TracedDispatcher.callModel]
    · have hcounted := h.counted.healthAfter pb np stamp req (fn obs d.world).1
      have hhealth : called.2.endpointHealth req.modelId =
          (LocalDispatcher.healthAfter pb np stamp req.modelId req (fn obs d.world).1
            d.health).get? req.modelId := rfl
      rw [hhealth, hcalls, List.filter_append, List.flatMap_append]
      simpa using hcounted
  · refine ⟨hown, ?_, ?_⟩
    · simpa [hcalls, hmodel] using h.called
    · have hhealth : called.2.endpointHealth modelId = d.endpointHealth modelId :=
        healthAfter_other pb np stamp d.health (Ne.symm hmodel) req _
      rw [hhealth]
      simpa [hcalls, hmodel] using h.counted

/-- Requests for a model that is not registered are answered without a call. -/
theorem Answered.unknown (h : Answered pb np stamp modelId answers d) {other error : String}
    (hne : modelId ≠ other) {requests : List (InferenceRequest ν)}
    (howned : ∀ req ∈ requests, req.modelId = other) :
    Answered pb np stamp modelId (answers ++ requests.zip (requests.map fun req =>
      errorResult (stamp req) req 0 error)) d := by
  have hzip : ∀ answer ∈ requests.zip (requests.map fun req =>
      errorResult (stamp req) req 0 error), ∃ req ∈ requests,
        (req, errorResult (stamp req) req 0 error) = answer := by
    intro answer hanswer
    have hpairs : requests.zip (requests.map fun req => errorResult (stamp req) req 0 error) =
        requests.map fun req => (req, errorResult (stamp req) req 0 error) := by
      simpa using List.zip_map' (l := requests) (f := id)
        (g := fun req => errorResult (stamp req) req 0 error)
    rw [hpairs] at hanswer
    exact List.mem_map.mp hanswer
  refine ⟨?_, ?_, h.counted⟩
  · intro answer hanswer
    rcases List.mem_append.mp hanswer with hold | hnew
    · exact h.own answer hold
    · rcases hzip answer hnew with ⟨req, -, rfl⟩
      rfl
  · rw [List.filter_append, h.called, List.append_right_eq_self, List.filter_eq_nil_iff]
    intro answer hanswer
    rcases hzip answer hanswer with ⟨req, hreq, rfl⟩
    simpa [howned req hreq] using Ne.symm hne

theorem Answered.callAll (h : Answered pb np stamp modelId answers d) {other : String}
    {fn : Callable ω Obj} {requests : List (InferenceRequest ν)} {results : List DispatchResult}
    (howned : ∀ req ∈ requests, req.modelId = other)
    (hrun : callAll pb np stamp other fn requests d = (.ok results, d')) :
    Serves pb np stamp modelId answers d requests results d' := by
  induction requests generalizing d answers results with
  | nil =>
      cases hrun
      exact ⟨rfl, rfl, by simpa using h⟩
  | cons req requests ih =>
      rcases List.forall_mem_cons.mp howned with ⟨rfl, hrest⟩
      simp only [TracedDispatcher.callAll] at hrun
      split at hrun
      · cases hrun
      · next obs _ =>
          split at hrun
          · cases hrun
          · next rest d'' hrest' =>
              cases hrun
              rcases ih (h.callModel req fn obs) hrest hrest' with ⟨hlength, hmodels, hanswered⟩
              refine ⟨congrArg Nat.succ hlength, hmodels, ?_⟩
              rw [List.append_assoc] at hanswered
              exact hanswered

theorem Answered.dispatchGroup (h : Answered pb np stamp modelId answers d)
    (hregistered : d.models.contains modelId = true) {other : String}
    {requests : List (InferenceRequest ν)} {results : List DispatchResult}
    (howned : ∀ req ∈ requests, req.modelId = other)
    (hrun : dispatchGroup pb np stamp other requests d = (.ok results, d')) :
    Serves pb np stamp modelId answers d requests results d' := by
  unfold TracedDispatcher.dispatchGroup at hrun
  cases hget : d.models.get? other with
  | some fn =>
      rw [hget] at hrun
      exact h.callAll howned hrun
  | none =>
      rw [hget] at hrun
      cases hrun
      have hne : modelId ≠ other := by
        rintro rfl
        simp [Dict.contains, hget] at hregistered
      exact ⟨(List.length_map _).symm, rfl, h.unknown hne howned⟩

theorem Answered.dispatchModels (h : Answered pb np stamp modelId answers d)
    (hregistered : d.models.contains modelId = true)
    {groups : List (String × List (InferenceRequest ν))} {results : List DispatchResult}
    (howned : ∀ group ∈ groups, ∀ req ∈ group.2, req.modelId = group.1)
    (hrun : dispatchModels pb np stamp groups d = (.ok results, d')) :
    Serves pb np stamp modelId answers d (groups.map Prod.snd).flatten results d' := by
  induction groups generalizing d answers results with
  | nil =>
      cases hrun
      exact ⟨rfl, rfl, by simpa using h⟩
  | cons group groups ih =>
      rcases List.forall_mem_cons.mp howned with ⟨hgroup, hgroups⟩
      simp only [TracedDispatcher.dispatchModels] at hrun
      split at hrun
      · cases hrun
      · next first d₁ hfirst =>
          rcases h.dispatchGroup hregistered hgroup hfirst with ⟨hlength, hmodels, hanswered⟩
          split at hrun
          · cases hrun
          · next rest d₂ hrest =>
              cases hrun
              rw [← hmodels] at hregistered
              rcases ih hanswered hregistered hgroups hrest with ⟨hlength', hmodels', hanswered'⟩
              rw [List.append_assoc, ← List.zip_append hlength] at hanswered'
              refine ⟨?_, hmodels'.trans hmodels, hanswered'⟩
              simp only [List.map_cons, List.flatten_cons, List.length_append, hlength, hlength']

theorem Answered.dispatch (h : Answered pb np stamp modelId answers d)
    (hregistered : d.models.contains modelId = true) {requests : List (InferenceRequest ν)}
    {results : List DispatchResult}
    (hrun : dispatch pb np stamp requests d = (.ok results, d')) :
    Serves pb np stamp modelId answers d (byModel requests).flatten results d' :=
  h.dispatchModels hregistered (byModel_grouped requests).owned hrun

/-- The requests of some batches with their results.  A batch is answered model by model. -/
def answersOf (batches : List (List (InferenceRequest ν))) (results : List (List DispatchResult)) :
    List (InferenceRequest ν × DispatchResult) :=
  (batches.zip results).flatMap fun answered => (byModel answered.1).flatten.zip answered.2

theorem byModel_filter (requests : List (InferenceRequest ν)) (modelId : String) :
    (byModel requests).flatten.filter (fun req => req.modelId = modelId) =
      requests.filter fun req => req.modelId = modelId := by
  rw [(byModel_grouped requests).owned.filter_flatten]
  induction requests using List.reverseRecOn with
  | nil => rfl
  | append_singleton requests req ih =>
      have hstep : byModel (requests ++ [req]) = (byModel requests).set req.modelId
          ((byModel requests).listAt req.modelId ++ [req]) := by
        simp [byModel, List.foldl_append]
      rw [hstep, Dict.listAt_append, ih, List.filter_append]
      by_cases hmodel : req.modelId = modelId
      · simp [hmodel]
      · simp [hmodel, Ne.symm hmodel]

/-- A run of batches answers every request of a model, in order. -/
theorem Answered.dispatchAll (h : Answered pb np stamp modelId answers d)
    (hregistered : d.models.contains modelId = true)
    {batches : List (List (InferenceRequest ν))} {results : List (List DispatchResult)}
    (hrun : dispatchAll pb np stamp batches d = (.ok results, d')) :
    Answered pb np stamp modelId (answers ++ answersOf batches results) d' ∧
      ((answersOf batches results).filter fun answer => answer.1.modelId = modelId).map Prod.fst =
        batches.flatten.filter fun req => req.modelId = modelId := by
  induction batches generalizing d answers results with
  | nil =>
      cases hrun
      exact ⟨by simpa [answersOf] using h, rfl⟩
  | cons batch batches ih =>
      simp only [TracedDispatcher.dispatchAll] at hrun
      split at hrun
      · cases hrun
      · next first d₁ hfirst =>
          rcases h.dispatch hregistered hfirst with ⟨hlength, hmodels, hanswered⟩
          split at hrun
          · cases hrun
          · next rest d₂ hrest =>
              cases hrun
              rw [← hmodels] at hregistered
              rcases ih hanswered hregistered hrest with ⟨hall, hrequests⟩
              have hsplit : answersOf (batch :: batches) (first :: rest) =
                  (byModel batch).flatten.zip first ++ answersOf batches rest := by
                simp [answersOf]
              have hfst : ((byModel batch).flatten.zip first).map Prod.fst =
                  (byModel batch).flatten := List.map_fst_zip hlength.le
              refine ⟨?_, ?_⟩
              · rw [hsplit, ← List.append_assoc]
                exact hall
              · have hbatch : (((byModel batch).flatten.zip first).filter fun answer =>
                    answer.1.modelId = modelId).map Prod.fst =
                      batch.filter fun req => req.modelId = modelId := by
                  have hfilter : (((byModel batch).flatten.zip first).map Prod.fst).filter
                      (fun req => req.modelId = modelId) = _ := List.filter_map
                  rw [hfst, byModel_filter] at hfilter
                  exact hfilter.symm
                rw [hsplit, List.filter_append, List.map_append, hbatch, hrequests,
                  List.flatten_cons, List.filter_append]

/-! ## When the counters are right -/

/-- In a new dispatcher, after any batches that `dispatch` returned from, the health of a registered
model counts every request once exactly when every value that its callable returned could be made
into a response. -/
theorem counts_once_iff (pb : Protobuf ν) (np : Numpy Obj) (stamp : InferenceRequest ν → CallStamp)
    (models : Dict String (Callable ω Obj)) (world : ω)
    {batches : List (List (InferenceRequest ν))} {results : List (List DispatchResult)}
    {d : TracedDispatcher ν ω Obj}
    (hrun : dispatchAll pb np stamp batches { models := models, world := world } = (.ok results, d))
    {modelId : String} (hregistered : models.contains modelId = true) :
    let attempts := (answersOf batches results).filter fun answer => answer.1.modelId = modelId
    attempts.map Prod.fst = batches.flatten.filter (fun req => req.modelId = modelId) ∧
    (∀ answer ∈ attempts, answer.2.reqId = answer.1.objId) ∧
    (CountsOnce (d.endpointHealth modelId) (attempts.map fun answer => answer.2.success) ↔
      ∀ call ∈ d.calls, call.1.modelId = modelId → Buildable pb np call.2) := by
  intro attempts
  have hnew : Answered pb np stamp modelId []
      ({ models := models, world := world } : TracedDispatcher ν ω Obj) :=
    ⟨by simp, rfl, rfl⟩
  rcases hnew.dispatchAll hregistered hrun with ⟨⟨hown, hcalled, hcounted⟩, hrequests⟩
  rw [List.nil_append] at hown hcalled
  refine ⟨hrequests, fun answer hanswer => hown answer (List.mem_of_mem_filter hanswer), ?_⟩
  -- the attempts are the calls of the model
  have hsuccess : attempts.map (fun answer => answer.2.success) =
      (d.calls.filter fun call => call.1.modelId = modelId).map fun call =>
        (callResult pb np (stamp call.1) call.1 call.2).success := by
    simp only [attempts, hcalled, List.map_map]
    rfl
  have hcalls : (∀ call ∈ d.calls, call.1.modelId = modelId → Buildable pb np call.2) ↔
      ∀ call ∈ d.calls.filter (fun call => call.1.modelId = modelId), Buildable pb np call.2 := by
    simp only [List.mem_filter, decide_eq_true_eq, and_imp]
  rw [hsuccess, hcalls]
  generalize d.calls.filter (fun call => call.1.modelId = modelId) = calls at hcounted
  constructor
  · intro honce
    have hlength := hcounted.length_eq honce
    rw [List.length_map] at hlength
    exact (buildable_of_length pb np).2 hlength
  · intro hbuildable
    rwa [marks_all pb np stamp hbuildable] at hcounted

/-- One model, asked for by `goodRequest`. -/
def policyDispatcher (fn : Callable ω NdArray) (world : ω) : TracedDispatcher Rat ω NdArray where
  models := Dict.empty.set "policy" fn
  world := world

/-- Returns `{"status": "done"}` once, and raises from then on. -/
def flakyPolicy : Callable Nat NdArray := fun _ asked =>
  (if asked = 0 then .ok (.dict [(some "status", .inl "done")])
    else .error (.foreign "out of memory"), asked + 1)

theorem counts_once_flaky :
    let run := dispatchAll mixedMessages Numpy.reference fixedStamp [[goodRequest], [goodRequest]]
      (policyDispatcher flakyPolicy 0)
    CountsOnce (run.2.endpointHealth "policy") [true, false] := by
  intro run
  have honce := (counts_once_iff mixedMessages Numpy.reference fixedStamp
    (policyDispatcher flakyPolicy 0).models 0 (show run = (.ok _, run.2) from rfl)
    (show (policyDispatcher flakyPolicy 0).models.contains "policy" = true from rfl)).2.2
  refine honce.mpr fun call hcall _ => ?_
  have hcalls : run.2.calls = [(goodRequest, .ok (.dict [(some "status", .inl "done")])),
      (goodRequest, .error (.foreign "out of memory"))] := rfl
  rw [hcalls] at hcall
  rcases List.mem_pair.mp hcall with rfl | rfl
  · rintro _ ⟨⟩
    exact ⟨_, rfl⟩
  · exact nofun

/-- The policy returns `{1: "done"}`, and protobuf refuses the key. -/
def keyedPolicy : Callable Unit NdArray := fun _ world => (.ok (.dict [(none, .inl "done")]), world)

/-- The one request is counted twice. -/
theorem keyed_counted_twice :
    let run := dispatchAll mixedMessages Numpy.reference fixedStamp [[goodRequest]]
      (policyDispatcher keyedPolicy ())
    run.1 = .ok [[errorResult (fixedStamp goodRequest) goodRequest 0 mixedMessages.keyError]] ∧
      (run.2.endpointHealth "policy").map EndpointHealth.totalRequests = some 2 ∧
      ¬ CountsOnce (run.2.endpointHealth "policy") [false] := by
  intro run
  have hhealth : (run.2.endpointHealth "policy").map EndpointHealth.totalRequests = some 2 := rfl
  refine ⟨rfl, hhealth, ?_⟩
  intro honce
  cases hget : run.2.endpointHealth "policy" with
  | none => simp [hget] at hhealth
  | some health =>
      rw [hget] at hhealth honce
      have htotal : health.totalRequests = 2 := Option.some.inj hhealth
      have hcounted : health.totalRequests = 1 := honce.1
      omega

end TracedDispatcher
end Inferential
