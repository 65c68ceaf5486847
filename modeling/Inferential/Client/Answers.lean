import Inferential.Client.Tensors

/-!
# Answers — what reaches the client of a model's dictionary

The fixed fields, the arrays and the strings of a response share the keys of one dictionary at the
client, and arrays without bytes are left out of it.  A dictionary arrives whole exactly when it has
no such array and no key of a fixed field that is not equal to the field.
-/

namespace Inferential

open PyStd

namespace Client

variable {ν Py Obj : Type}

/-- The same string, or an array with the same shape and values. -/
def Matches : ObsValue → OutputValue → Prop
  | .text s, .text s' => s = s'
  | .array a, .array b => a.SameValues b
  | _, _ => False

/-- The output has the whole dictionary of the model and the fields of the server. -/
structure Whole (toFloat32 : Rat → Rat) (modelId : String) (values : Dict String ObsValue)
    (result : DispatchResult) (output : Dict String OutputValue) : Prop where
  values : ∀ k v, values.get? k = some v → ∃ w, output.get? k = some w ∧ Matches v w
  responseId : output.get? "response_id" = some (.text result.responseId)
  modelId : output.get? "model_id" = some (.text modelId)
  latency : output.get? "inference_latency_ms" = some (.number (toFloat32 result.latencyMs))

/-- The client reads the result, and its output is whole. -/
def ArrivesWhole (cpb : ClientProtobuf ν Py) (np : Numpy Obj) (toFloat32 : Rat → Rat)
    (modelId : String) (values : Dict String ObsValue) (result : DispatchResult) : Prop :=
  ∃ output, parseResponse cpb np result.envelope result.payload = .ok output ∧
    Whole toFloat32 modelId values result output

/-- No array is without elements, and a key of a fixed field has the value of the field. -/
structure Fits (responseId modelId : String) (values : Dict String ObsValue) : Prop where
  nonempty : ∀ k a, values.get? k = some (.array a) → 0 < a.size
  responseId : ∀ v, values.get? "response_id" = some v → v = .text responseId
  modelId : ∀ v, values.get? "model_id" = some v → v = .text modelId
  latency : values.get? "inference_latency_ms" = none

/-- Strings, and arrays as numpy makes them in the byte order of the machine. -/
def Returnable (values : Dict String ObsValue) : Prop :=
  ∀ k a, values.get? k = some (.array a) → a.WellFormed ∧ ¬ a.BigEndian

variable {values : Dict String ObsValue}

/-! ## The fixed fields -/

theorem get?_fixedFields (resp : ModelResponse) (k : String) :
    (fixedFields resp).get? k =
      if k = "inference_latency_ms" then some (.number resp.inferenceLatencyMs)
      else if k = "model_id" then some (.text resp.modelId)
      else if k = "response_id" then some (.text resp.responseId)
      else none := by
  simp only [fixedFields, Dict.get?_set, Dict.get?_empty]

/-- None of them is an array. -/
theorem fixedFields_unmatched {resp : ModelResponse} {k : String} {w : OutputValue}
    (h : (fixedFields resp).get? k = some w) (a : NdArray) : ¬ Matches (.array a) w := by
  rw [get?_fixedFields] at h
  repeat' split at h
  all_goals first
    | (rcases Option.some.inj h with rfl
       exact id)
    | cases h

theorem matches_text_iff {v : ObsValue} {s : String} : Matches v (.text s) ↔ v = .text s := by
  cases v with
  | text s' => simp [Matches]
  | array a => simp [Matches]

theorem not_matches_number (v : ObsValue) (x : Rat) : ¬ Matches v (.number x) := by
  cases v with
  | text s => exact id
  | array a => exact id

/-! ## Whole answers -/

/-- A value that is seen matches itself. -/
theorem seen_matches {v : ObsValue} {w : OutputValue} (hseen : seen v = some w)
    (hv : ∀ a, v = .array a → a.WellFormed ∧ ¬ a.BigEndian ∧
      ∃ tag, dtypeFromNumpy a.dtype = .ok tag) : Matches v w := by
  cases v with
  | text s =>
      rcases Option.some.inj hseen with rfl
      rfl
  | array a =>
      rcases hv a rfl with ⟨hwf, hlittle, tag, htag⟩
      by_cases hdata : a.data = []
      · simp [seen, hdata] at hseen
      · simp only [seen, if_neg hdata, Option.some.injEq] at hseen
        subst hseen
        exact (sameValues_asRead_iff hwf htag).mpr fun hbig => absurd hbig hlittle

/-- The output that is given key by key is whole exactly when the dictionary fits. -/
theorem whole_iff {toFloat32 : Rat → Rat} {modelId : String} {result : DispatchResult}
    {output : Dict String OutputValue} {parsed : ModelResponse}
    (hget : ∀ k, output.get? k = ((values.get? k).bind seen).or ((fixedFields parsed).get? k))
    (hresponseId : parsed.responseId = result.responseId) (hmodelId : parsed.modelId = modelId)
    (hlatency : parsed.inferenceLatencyMs = toFloat32 result.latencyMs)
    (hvalues : ∀ k a, values.get? k = some (.array a) → a.WellFormed ∧ ¬ a.BigEndian ∧
      ∃ tag, dtypeFromNumpy a.dtype = .ok tag) :
    Whole toFloat32 modelId values result output ↔ Fits result.responseId modelId values := by
  have hempty : ∀ k a, values.get? k = some (.array a) → (a.data = [] ↔ a.size = 0) := by
    intro k a ha
    rcases hvalues k a ha with ⟨hwf, -, tag, htag⟩
    exact data_eq_nil_iff hwf htag
  constructor
  · intro hwhole
    -- a key that is there has a value that matches what the output has
    have hmatch : ∀ {k v w}, values.get? k = some v → output.get? k = some w → Matches v w := by
      intro k v w hv hw
      rcases hwhole.values k v hv with ⟨w', hw', hmatch⟩
      rcases Option.some.inj (hw'.symm.trans hw) with rfl
      exact hmatch
    refine ⟨?_, ?_, ?_, ?_⟩
    · intro k a ha
      apply Nat.pos_of_ne_zero
      intro hzero
      rcases hwhole.values k _ ha with ⟨w, hw, hmatches⟩
      have hfixed : (fixedFields parsed).get? k = some w := by
        rw [← hw, hget]
        simp [ha, seen, (hempty k a ha).mpr hzero]
      exact fixedFields_unmatched hfixed a hmatches
    · intro v hv
      exact matches_text_iff.mp (hmatch hv hwhole.responseId)
    · intro v hv
      exact matches_text_iff.mp (hmatch hv hwhole.modelId)
    · apply Option.eq_none_iff_forall_ne_some.mpr
      intro v hv
      exact not_matches_number v _ (hmatch hv hwhole.latency)
  · intro hfits
    refine ⟨?_, ?_, ?_, ?_⟩
    · intro k v hv
      have hsome : ∃ w, seen v = some w := by
        cases v with
        | text s => exact ⟨_, rfl⟩
        | array a =>
            have hdata : a.data ≠ [] :=
              fun hnil => (hfits.nonempty k a hv).ne' ((hempty k a hv).mp hnil)
            exact ⟨_, if_neg hdata⟩
      rcases hsome with ⟨w, hw⟩
      refine ⟨w, by simp [hget, hv, hw], seen_matches hw ?_⟩
      rintro a rfl
      exact hvalues k a hv
    · rw [hget]
      cases hv : values.get? "response_id" with
      | none => simp [get?_fixedFields, hresponseId]
      | some v => simp [hfits.responseId v hv, seen]
    · rw [hget]
      cases hv : values.get? "model_id" with
      | none => simp [get?_fixedFields, hmodelId]
      | some v => simp [hfits.modelId v hv, seen]
    · rw [hget, hfits.latency]
      simp [get?_fixedFields, hlatency]

/-- A dictionary whose result can be built reaches the client whole exactly when it fits. -/
theorem answer_whole_iff {pb : Protobuf ν} {cpb : ClientProtobuf ν Py} {np : Numpy Obj}
    {ofArray : NdArray → Obj} {toFloat32 : Rat → Rat} (hnp : np.Documented)
    (hof : ∀ a, np.asarray (ofArray a) = .ok a) (hreturnable : Returnable values)
    {stamp : CallStamp} {req : InferenceRequest ν} {result : DispatchResult}
    (hbuild : buildResult pb np stamp req (rawDict ofArray values) = .ok result)
    (hreturned : ∀ c, collect pb np (rawDict ofArray values) = .ok c →
      ∃ parsed, ResponseArrives pb cpb toFloat32 (responseMessage stamp req c) parsed) :
    ArrivesWhole cpb np toFloat32 req.modelId values result ↔
      Fits stamp.responseId req.modelId values := by
  rcases buildResult_keeps hof hbuild with
    ⟨c, hkeeps, hcollect, henvelope, hpayload, hresponseId, hlatency⟩
  rcases hreturned c hcollect with ⟨parsed, harrives⟩
  have hwf : ∀ k a, values.get? k = some (.array a) → a.WellFormed :=
    fun k a ha => (hreturnable k a ha).1
  have hvalues : ∀ k a, values.get? k = some (.array a) → a.WellFormed ∧ ¬ a.BigEndian ∧
      ∃ tag, dtypeFromNumpy a.dtype = .ok tag := by
    intro k a ha
    rcases hkeeps.exists_holds ha with ⟨tensor, -, -, hholds⟩
    exact ⟨(hreturnable k a ha).1, (hreturnable k a ha).2, _, hholds.dtype⟩
  rcases parseResponse_keeps hnp hkeeps hwf harrives.parse harrives.tensors harrives.metadata with
    ⟨output, houtput, hget⟩
  rw [← henvelope, ← hpayload] at houtput
  have hresponse : parsed.responseId = result.responseId :=
    harrives.responseId.trans hresponseId.symm
  have hmodel : parsed.modelId = req.modelId := harrives.modelId
  have hnumber : parsed.inferenceLatencyMs = toFloat32 result.latencyMs := by
    rw [hlatency]
    exact harrives.inferenceLatencyMs
  have hwhole := whole_iff hget hresponse hmodel hnumber hvalues
  rw [hresponseId] at hwhole
  rw [← hwhole]
  constructor
  · rintro ⟨output', houtput', h⟩
    rcases Except.ok.inj (houtput.symm.trans houtput') with rfl
    exact h
  · intro h
    exact ⟨output, houtput, h⟩

/-! ### Three answers of the policy -/

theorem answer_arrives {values : Dict String ObsValue} {c : Collected}
    (hc : collect (.ofMessages []) Numpy.reference (rawDict id values) = .ok c) :
    ∀ c', collect (.ofMessages []) Numpy.reference (rawDict id values) = .ok c' →
      ∃ parsed, ResponseArrives (.ofMessages [])
        (.ofMessages [responseMessage policyStamp policyRequest c]) id
        (responseMessage policyStamp policyRequest c') parsed := by
  intro c' hc'
  rcases Except.ok.inj (hc.symm.trans hc') with rfl
  exact ⟨_, response_arrives _ _⟩

/-- `{"actions": np.array([1, 2], dtype="float32"), "status": "ok"}` -/
def actions : Dict String ObsValue :=
  (Dict.empty.set "actions" (.array native)).set "status" (.text "ok")

def actionsCollected : Collected where
  tensors := [⟨"actions", .float32, [2], 0, 8, 0, .raw⟩]
  payload := native.data
  metadata := Dict.empty.set "status" "ok"

theorem actions_whole :
    ∃ result, buildResult (.ofMessages []) Numpy.reference policyStamp policyRequest
        (rawDict id actions) = .ok result ∧
      ArrivesWhole (.ofMessages [responseMessage policyStamp policyRequest actionsCollected])
        Numpy.reference id "policy" actions result := by
  have harray : ∀ k a, actions.get? k = some (.array a) → a = native := by
    intro k a ha
    simp only [actions, Dict.get?_set, Dict.get?_empty] at ha
    split at ha
    · cases ha
    · split at ha
      · exact (ObsValue.array.inj (Option.some.inj ha)).symm
      · cases ha
  have hreturnable : Returnable actions := by
    intro k a ha
    rw [harray k a ha]
    exact ⟨float32_wellFormed rfl, by decide⟩
  have hcollect : collect (.ofMessages []) Numpy.reference (rawDict id actions) =
      .ok actionsCollected := rfl
  have hbuild : ∃ result, buildResult (.ofMessages []) Numpy.reference policyStamp policyRequest
      (rawDict id actions) = .ok result := ⟨_, rfl⟩
  rcases hbuild with ⟨result, hbuild⟩
  refine ⟨result, hbuild, (answer_whole_iff Numpy.reference_documented (fun _ => rfl) hreturnable
    hbuild (answer_arrives hcollect)).mpr ⟨?_, ?_, ?_, ?_⟩⟩
  · intro k a ha
    rw [harray k a ha]
    decide
  · intro v hv
    cases hv
  · intro v hv
    cases hv
  · rfl

/-- `{"boxes": np.zeros((0, 4), dtype="float32")}` -/
def noBoxes : Dict String ObsValue :=
  Dict.empty.set "boxes" (.array ⟨⟨"float32", "<f4", 4⟩, [0, 4], []⟩)

/-- `{"model_id": "policy-v2"}` -/
def renamed : Dict String ObsValue := Dict.empty.set "model_id" (.text "policy-v2")

/-- Neither is whole: the boxes are missing, and the model id is not that of the request. -/
theorem empty_and_renamed_not_whole :
    (∃ result c, buildResult (.ofMessages []) Numpy.reference policyStamp policyRequest
        (rawDict id noBoxes) = .ok result ∧
      collect (.ofMessages []) Numpy.reference (rawDict id noBoxes) = .ok c ∧
      ¬ ArrivesWhole (.ofMessages [responseMessage policyStamp policyRequest c]) Numpy.reference id
        "policy" noBoxes result) ∧
    ∃ result c, buildResult (.ofMessages []) Numpy.reference policyStamp policyRequest
        (rawDict id renamed) = .ok result ∧
      collect (.ofMessages []) Numpy.reference (rawDict id renamed) = .ok c ∧
      ¬ ArrivesWhole (.ofMessages [responseMessage policyStamp policyRequest c]) Numpy.reference id
        "policy" renamed result := by
  constructor
  · refine ⟨_, _, rfl, rfl, ?_⟩
    rintro ⟨output, houtput, hwhole⟩
    rcases Except.ok.inj houtput with rfl
    rcases hwhole.values "boxes" _ rfl with ⟨w, hw, -⟩
    cases hw
  · refine ⟨_, _, rfl, rfl, ?_⟩
    rintro ⟨output, houtput, hwhole⟩
    rcases Except.ok.inj houtput with rfl
    exact absurd hwhole.modelId (by decide)

end Client
end Inferential
