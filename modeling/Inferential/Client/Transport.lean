import Inferential.Client.Packing

/-!
# Transport — from one encoder to the other side's decoder

What the server reads from an observation and what the client reads from a response, key by key,
given that protobuf gives back the messages that it is given.
-/

namespace Inferential

open PyStd

namespace Client

variable {ν Py Obj : Type}

/-! ## Messages -/

/-- The server parses the message that the client has serialised; the entries of a map come in any
order. -/
structure ObservationArrives (pb : Protobuf ν) (cpb : ClientProtobuf ν Py) (obs : Observation ν)
    (parsed : Observation ν) : Prop where
  parse : pb.parseObservation (cpb.serializeObservation obs) = .ok parsed
  client : parsed.client = obs.client
  timestampNs : parsed.timestampNs = obs.timestampNs
  urgency : parsed.urgency = obs.urgency
  tensors : parsed.tensors = obs.tensors
  modelId : parsed.modelId = obs.modelId
  stepsRemaining : parsed.stepsRemaining = obs.stepsRemaining
  metadata : ∀ k, parsed.metadata.get? k = obs.metadata.get? k
  priority : parsed.priority = obs.priority

/-- The client parses the message that the server has serialised; `toFloat32` is the rounding to
single precision. -/
structure ResponseArrives (pb : Protobuf ν) (cpb : ClientProtobuf ν Py) (toFloat32 : Rat → Rat)
    (resp parsed : ModelResponse) : Prop where
  parse : cpb.parseResponse (pb.serializeResponse resp) = .ok parsed
  client : parsed.client = resp.client
  responseId : parsed.responseId = resp.responseId
  timestampNs : parsed.timestampNs = resp.timestampNs
  tensors : parsed.tensors = resp.tensors
  inferenceLatencyMs : parsed.inferenceLatencyMs = toFloat32 resp.inferenceLatencyMs
  modelId : parsed.modelId = resp.modelId
  metadata : ∀ k, parsed.metadata.get? k = resp.metadata.get? k

theorem observation_arrives (obs : Observation Rat) (responses : List ModelResponse) :
    ObservationArrives (.ofMessages [obs]) (.ofMessages responses) obs obs where
  parse := by simp [Protobuf.ofMessages, ClientProtobuf.ofMessages]
  client := rfl
  timestampNs := rfl
  urgency := rfl
  tensors := rfl
  modelId := rfl
  stepsRemaining := rfl
  metadata := fun _ => rfl
  priority := rfl

theorem response_arrives (resp : ModelResponse) (messages : List (Observation Rat)) :
    ResponseArrives (.ofMessages messages) (.ofMessages [resp]) id resp resp where
  parse := by simp [Protobuf.ofMessages, ClientProtobuf.ofMessages, parseAmong]
  client := rfl
  responseId := rfl
  timestampNs := rfl
  tensors := rfl
  inferenceLatencyMs := rfl
  modelId := rfl
  metadata := fun _ => rfl

/-! ## The encoders -/

/-- The value that is sent for an argument. -/
def Argument.value : Argument Py → Option ObsValue
  | .array a => some (.array a)
  | .text s => some (.text s)
  | .other _ => none

theorem appendArgument_appends (timestampNs : Nat) :
    Appends (β := Argument Py) (appendArgument timestampNs) Argument.value := by
  intro look c c' k v hkeeps hnew happend
  cases v with
  | array a =>
      simp only [appendArgument] at happend
      cases hdtype : dtypeFromNumpy a.dtype with
      | error e => simp [hdtype] at happend
      | ok dtype =>
          simp only [hdtype, Except.ok.injEq] at happend
          subst happend
          exact hkeeps.array hnew rfl (.last hdtype rfl rfl rfl rfl)
  | text s =>
      simp only [appendArgument, Except.ok.injEq] at happend
      subst happend
      exact hkeeps.text hnew s
  | other value =>
      simp only [appendArgument, Except.ok.injEq] at happend
      subst happend
      have hsame : Function.update look k (Argument.value (.other value)) = look := by
        rw [Argument.value, ← hnew, Function.update_eq_self]
      rwa [hsame]

theorem appendArguments_eq (timestampNs : Nat) (kwargs : List (String × Argument Py))
    (c : Collected) :
    appendArguments timestampNs kwargs c = collectAll (appendArgument timestampNs) kwargs c := by
  induction kwargs generalizing c with
  | nil => rfl
  | cons kwarg kwargs ih =>
      cases happend : appendArgument timestampNs kwarg.1 kwarg.2 c with
      | error e => simp only [appendArguments, collectAll, happend]
      | ok c' => simpa only [appendArguments, collectAll, happend] using ih c'

/-- A call that does not raise sends what the arguments collect. -/
theorem observationMessage_collects {cpb : ClientProtobuf ν Py} {o : Outgoing Py}
    {obs : Observation ν} {payload : Bytes} (h : observationMessage cpb o = .ok (obs, payload)) :
    ∃ c, appendArguments o.timestampNs o.kwargs.items {} = .ok c ∧ payload = c.payload ∧
      obs.client = some o.clientId ∧ obs.modelId = o.modelId ∧
      obs.tensors = c.tensors ∧ obs.metadata = c.metadata := by
  unfold observationMessage at h
  -- the setters come before the loop
  split at h
  · cases h
  · split at h
    · cases h
    · split at h
      · cases h
      · split at h
        · cases h
        · next c hc =>
            rcases Prod.mk.inj (Except.ok.inj h) with ⟨rfl, rfl⟩
            exact ⟨c, hc, rfl, rfl, rfl, rfl, rfl⟩

/-- The message of a call that does not raise. -/
theorem observationMessage_keeps {cpb : ClientProtobuf ν Py} {o : Outgoing Py}
    {obs : Observation ν} {payload : Bytes} (h : observationMessage cpb o = .ok (obs, payload)) :
    obs.client = some o.clientId ∧ obs.modelId = o.modelId ∧
      Keeps (fun k => (o.kwargs.get? k).bind Argument.value)
        { tensors := obs.tensors, payload := payload, metadata := obs.metadata } := by
  rcases observationMessage_collects h with ⟨c, hc, rfl, hclient, hmodel, htensors, hmetadata⟩
  rw [appendArguments_eq] at hc
  have hkeeps := collectAll_dict (appendArgument_appends o.timestampNs) hc
  rw [htensors, hmetadata]
  exact ⟨hclient, hmodel, hkeeps⟩

/-- A dictionary of strings and arrays, as a model returns it. -/
def rawDict (ofArray : NdArray → Obj) (values : Dict String ObsValue) : RawResult Obj :=
  .dict (values.items.map fun kv =>
    (some kv.1,
      match kv.2 with
      | .text s => .inl s
      | .array a => .inr (ofArray a)))

/-- One turn of the loop over the result of a model. -/
def appendValue (np : Numpy Obj) (ofArray : NdArray → Obj) (key : String) :
    ObsValue → Collected → Except PyError Collected
  | .text s, c => .ok { c with metadata := c.metadata.set key s }
  | .array a, c => appendArray np key (ofArray a) c

theorem collect_rawDict (pb : Protobuf ν) (np : Numpy Obj) (ofArray : NdArray → Obj)
    (values : Dict String ObsValue) :
    collect pb np (rawDict ofArray values) =
      collectAll (appendValue np ofArray) values.items {} := by
  simp only [collect, rawDict]
  generalize ({} : Collected) = c
  induction values.items generalizing c with
  | nil => rfl
  | cons kv items ih =>
      rcases kv with ⟨key, v⟩
      cases v with
      | text s => simpa [appendItems, collectAll, appendValue] using ih _
      | array a =>
          cases happend : appendArray np key (ofArray a) c with
          | error e => simp only [List.map_cons, appendItems, collectAll, appendValue, happend]
          | ok c' =>
              simpa only [List.map_cons, appendItems, collectAll, appendValue, happend] using ih c'

variable {np : Numpy Obj} {ofArray : NdArray → Obj}

theorem appendValue_appends (hof : ∀ a, np.asarray (ofArray a) = .ok a) :
    Appends (appendValue np ofArray) some := by
  intro look c c' k v hkeeps hnew happend
  cases v with
  | array a =>
      simp only [appendValue, appendArray, hof, ndarrayToTensor] at happend
      cases hdtype : dtypeFromNumpy a.dtype with
      | error e => simp [hdtype] at happend
      | ok dtype =>
          simp only [hdtype, Except.ok.injEq] at happend
          subst happend
          exact hkeeps.array hnew rfl (.last hdtype rfl rfl rfl rfl)
  | text s =>
      simp only [appendValue, Except.ok.injEq] at happend
      subst happend
      exact hkeeps.text hnew s

/-- The message that `_build_result` fills in. -/
def responseMessage (stamp : CallStamp) (req : InferenceRequest ν) (c : Collected) :
    ModelResponse where
  client := req.clientId
  responseId := stamp.responseId
  timestampNs := stamp.timestampNs
  tensors := c.tensors
  inferenceLatencyMs := stamp.latencyMs
  modelId := req.modelId
  metadata := c.metadata

/-- The result of a dictionary, when it can be built. -/
theorem buildResult_keeps {pb : Protobuf ν} (hof : ∀ a, np.asarray (ofArray a) = .ok a)
    {stamp : CallStamp} {req : InferenceRequest ν} {values : Dict String ObsValue}
    {result : DispatchResult}
    (h : buildResult pb np stamp req (rawDict ofArray values) = .ok result) :
    ∃ c, Keeps values.get? c ∧ collect pb np (rawDict ofArray values) = .ok c ∧
      result.envelope = pb.serializeResponse (responseMessage stamp req c) ∧
      result.payload = c.payload ∧ result.responseId = stamp.responseId ∧
      result.latencyMs = stamp.latencyMs := by
  unfold buildResult at h
  split at h
  · cases h
  · next c hc =>
      rcases Except.ok.inj h with rfl
      have hkeeps : Keeps values.get? c := by
        have hall := hc
        rw [collect_rawDict] at hall
        have hbind := collectAll_dict (appendValue_appends hof) hall
        simpa using hbind
      exact ⟨c, hkeeps, hc, rfl, rfl, rfl, rfl⟩

/-! ## The decoders -/

/-- The loop over tensors that both decoders have. -/
def loadAll {γ : Type} (np : Numpy Obj) (wrap : NdArray → γ) (payload : Bytes) :
    List Tensor → Dict String γ → Except PyError (Dict String γ)
  | [], result => .ok result
  | tensor :: tensors, result =>
      match loadTensor np payload tensor with
      | .error e => .error e
      | .ok array => loadAll np wrap payload tensors (result.set tensor.key (wrap array))

theorem loadTensors_eq (payload : Bytes) (tensors : List Tensor) (result : Dict String ObsValue) :
    loadTensors np payload tensors result = loadAll np .array payload tensors result := by
  induction tensors generalizing result with
  | nil => rfl
  | cons tensor tensors ih =>
      cases hload : loadTensor np payload tensor with
      | error e => simp only [loadTensors, loadAll, hload]
      | ok array => simpa only [loadTensors, loadAll, hload] using ih _

/-- The client leaves out what has no data. -/
theorem parseTensors_eq (payload : Bytes) (tensors : List Tensor)
    (output : Dict String OutputValue) :
    parseTensors np payload tensors output =
      loadAll np .array payload (tensors.filter HasData) output := by
  induction tensors generalizing output with
  | nil => rfl
  | cons tensor tensors ih =>
      by_cases hdata : HasData tensor
      · rw [List.filter_cons_of_pos (by simpa using hdata)]
        cases hload : loadTensor np payload tensor with
        | error e => simp only [parseTensors, if_pos hdata, loadAll, hload]
        | ok array => simpa only [parseTensors, if_pos hdata, loadAll, hload] using ih _
      · rw [List.filter_cons_of_neg (by simpa using hdata)]
        simpa only [parseTensors, if_neg hdata] using ih output

/-- Each tensor gives the array of its key, the other keys keep what they had. -/
theorem loadAll_holds {γ : Type} (wrap : NdArray → γ) (hnp : np.Documented) {payload : Bytes}
    {look : String → Option ObsValue} {tensors : List Tensor} (result : Dict String γ)
    (hwf : ∀ k a, look k = some (.array a) → a.WellFormed)
    (hholds : ∀ tensor ∈ tensors, ∃ a, look tensor.key = some (.array a) ∧ Holds payload a tensor) :
    ∃ result', loadAll np wrap payload tensors result = .ok result' ∧
      (∀ tensor ∈ tensors, ∀ a, look tensor.key = some (.array a) →
        result'.get? tensor.key = some (wrap a.asRead)) ∧
      ∀ k, (∀ tensor ∈ tensors, tensor.key ≠ k) → result'.get? k = result.get? k := by
  induction tensors generalizing result with
  | nil => exact ⟨result, rfl, by simp, by simp⟩
  | cons tensor tensors ih =>
      rcases List.forall_mem_cons.mp hholds with ⟨⟨a, hlook, hone⟩, hrest⟩
      have hload := loadTensor_holds hnp (hwf _ a hlook) hone
      rcases ih (result.set tensor.key (wrap a.asRead)) hrest with ⟨result', hall, hread, hkept⟩
      refine ⟨result', by simpa only [loadAll, hload] using hall, ?_, ?_⟩
      · intro tensor' htensor' a' hlook'
        rcases List.mem_cons.mp htensor' with rfl | hlater
        · -- a later tensor of the key holds the same array
          have hsame : a' = a := by simpa [hlook] using hlook'.symm
          subst hsame
          by_cases hagain : ∃ tensor ∈ tensors, tensor.key = tensor'.key
          · rcases hagain with ⟨tensor'', hmem, hkey⟩
            have hget := hread tensor'' hmem a' (hkey ▸ hlook)
            rwa [hkey] at hget
          · have hget := hkept tensor'.key fun tensor hmem hkey => hagain ⟨tensor, hmem, hkey⟩
            rw [hget, Dict.get?_set_self]
        · exact hread tensor' hlater a' hlook'
      · intro k hk
        rcases List.forall_mem_cons.mp hk with ⟨hfirst, hlater⟩
        rw [hkept k hlater, Dict.get?_set_other _ _ (Ne.symm hfirst)]

/-- The server reads every value that was collected, and nothing else. -/
theorem reconstructNumpy_keeps {pb : Protobuf ν} (hnp : np.Documented)
    {look : String → Option ObsValue} {c : Collected} (hkeeps : Keeps look c)
    (hwf : ∀ k a, look k = some (.array a) → a.WellFormed) (req : InferenceRequest ν)
    {parsed : Observation ν} (hparse : pb.parseObservation req.envelope = .ok parsed)
    (htensors : parsed.tensors = c.tensors)
    (hmetadata : ∀ k, parsed.metadata.get? k = c.metadata.get? k)
    (hpayload : req.payload = c.payload) :
    ∃ result, reconstructNumpy pb np req = .ok result ∧
      ∀ k, result.get? k = (look k).map ObsValue.asRead := by
  have hload := loadAll_holds ObsValue.array hnp Dict.empty hwf hkeeps.holds
  rcases hload with ⟨result, hall, hread, hkept⟩
  rw [← loadTensors_eq, ← htensors, ← hpayload] at hall
  have hresult : reconstructNumpy pb np req =
      .ok (parsed.metadata.items.foldl (fun result kv => result.set kv.1 (.text kv.2)) result) := by
    simp only [reconstructNumpy, hparse, hall]
  refine ⟨_, hresult, fun k => ?_⟩
  rw [Dict.get?_foldl_set _ parsed.metadata.nodup]
  change ((parsed.metadata.get? k).map ObsValue.text).or (result.get? k) = _
  rw [hmetadata]
  cases hlook : look k with
  | none =>
      have habsent : result.get? k = none := hkept k (hkeeps.key_ne (by simp [hlook]))
      simp [hkeeps.metadata_eq_none (k := k) (by simp [hlook]), habsent]
  | some v =>
      cases v with
      | text s => simp [(hkeeps.metadata k s).mpr hlook, ObsValue.asRead]
      | array a =>
          have hnone : c.metadata.get? k = none := hkeeps.metadata_eq_none (by simp [hlook])
          rcases hkeeps.present k a hlook with ⟨tensor, htensor, rfl⟩
          simp [hnone, hread tensor htensor a hlook, ObsValue.asRead]

/-- What the client sees of a value: an array without bytes is left out. -/
def seen : ObsValue → Option OutputValue
  | .text s => some (.text s)
  | .array a => if a.data = [] then none else some (.array a.asRead)

/-- The client reads the values that were collected, and the fixed fields under the other keys. -/
theorem parseResponse_keeps {cpb : ClientProtobuf ν Py} (hnp : np.Documented)
    {look : String → Option ObsValue} {c : Collected} (hkeeps : Keeps look c)
    (hwf : ∀ k a, look k = some (.array a) → a.WellFormed) {envelope : Bytes}
    {parsed : ModelResponse} (hparse : cpb.parseResponse envelope = .ok parsed)
    (htensors : parsed.tensors = c.tensors)
    (hmetadata : ∀ k, parsed.metadata.get? k = c.metadata.get? k) :
    ∃ output, parseResponse cpb np envelope c.payload = .ok output ∧
      ∀ k, output.get? k = ((look k).bind seen).or ((fixedFields parsed).get? k) := by
  have hdata : ∀ tensor ∈ c.tensors, ∀ a, Holds c.payload a tensor →
      (HasData tensor ↔ a.data ≠ []) := by
    intro tensor htensor a hholds
    rcases dtype_roundtrip hholds.dtype with ⟨-, -, hnumber, -⟩
    simp [HasData, hholds.byteLength, hnumber, List.length_pos_iff]
  have hfilter : ∀ tensor ∈ c.tensors.filter HasData,
      ∃ a, look tensor.key = some (.array a) ∧ Holds c.payload a tensor :=
    fun tensor htensor => hkeeps.holds tensor (List.mem_of_mem_filter htensor)
  have hload := loadAll_holds OutputValue.array hnp (fixedFields parsed) hwf hfilter
  rcases hload with ⟨output, hall, hread, hkept⟩
  rw [← parseTensors_eq, ← htensors] at hall
  have houtput : parseResponse cpb np envelope c.payload =
      .ok (parsed.metadata.items.foldl (fun output kv => output.set kv.1 (.text kv.2)) output) := by
    simp only [parseResponse, hparse, hall]
  refine ⟨_, houtput, fun k => ?_⟩
  rw [Dict.get?_foldl_set _ parsed.metadata.nodup]
  change ((parsed.metadata.get? k).map OutputValue.text).or (output.get? k) = _
  rw [hmetadata]
  cases hlook : look k with
  | none =>
      have hfixed := hkept k fun tensor htensor =>
        hkeeps.key_ne (by simp [hlook]) tensor (List.mem_of_mem_filter htensor)
      have hnone : c.metadata.get? k = none := hkeeps.metadata_eq_none (by simp [hlook])
      simp [hnone, hfixed]
  | some v =>
      cases v with
      | text s => simp [(hkeeps.metadata k s).mpr hlook, seen]
      | array a =>
          have hnone : c.metadata.get? k = none := hkeeps.metadata_eq_none (by simp [hlook])
          by_cases hempty : a.data = []
          · -- every tensor of the key is without data
            have hfixed : output.get? k = (fixedFields parsed).get? k := by
              apply hkept
              rintro tensor htensor rfl
              rcases List.mem_filter.mp htensor with ⟨hmem, hhas⟩
              have hholds := hkeeps.holds_array hmem hlook
              exact (hdata tensor hmem a hholds).mp (by simpa using hhas) hempty
            simp [hnone, hfixed, seen, hempty]
          · rcases hkeeps.exists_holds hlook with ⟨tensor, htensor, rfl, hholds⟩
            have hhas := (hdata tensor htensor a hholds).mpr hempty
            have hget := hread tensor (List.mem_filter.mpr ⟨htensor, by simpa using hhas⟩) a hlook
            simp [hnone, hget, seen, hempty]

end Client
end Inferential
