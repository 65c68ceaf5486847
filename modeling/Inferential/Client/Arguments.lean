import Inferential.Client.Tensors

/-!
# Arguments — what the server makes of the arguments of `observe`

The client sends every array and every string; the server refuses an observation with an array that
has no bytes, and gives the model a value for each argument that was sent.
-/

namespace Inferential

open PyStd

namespace Client

variable {ν Py Obj : Type}

/-- Arrays as numpy makes them. -/
def RealArrays (kwargs : Dict String (Argument Py)) : Prop :=
  ∀ k a, kwargs.get? k = some (.array a) → a.WellFormed

/-- What the server does with an observation: it is accepted unless an array is empty, in which case
the error names such an array; and the model is given a value for every array and every string, and
for nothing but the arguments of the call. -/
structure Delivered (pb : Protobuf ν) (np : Numpy Obj) (kwargs : Dict String (Argument Py))
    (envelope payload : Bytes) : Prop where
  accepted : ∀ nowNs receivedAt,
    (∃ decoded, decode pb nowNs envelope payload receivedAt = .ok decoded) ↔
      ∀ k a, kwargs.get? k = some (.array a) → 0 < a.size
  rejected : ∀ nowNs receivedAt e, decode pb nowNs envelope payload receivedAt = .error e →
    ∃ k a, kwargs.get? k = some (.array a) ∧ a.size = 0 ∧
      e = .observationError s!"Slot '{k}' has zero byte_length"
  given : ∀ req : InferenceRequest ν, req.envelope = envelope → req.payload = payload →
    ∃ result, reconstructNumpy pb np req = .ok result ∧
      (∀ k a, kwargs.get? k = some (.array a) → k ∈ result.keys) ∧
      (∀ k s, kwargs.get? k = some (.text s) → k ∈ result.keys) ∧
      ∀ k ∈ result.keys, k ∈ kwargs.keys

variable {cpb : ClientProtobuf ν Py} {kwargs : Dict String (Argument Py)}

/-- An argument that is sent as an array is an array. -/
theorem value_eq_array_iff {k : String} {a : NdArray} :
    (kwargs.get? k).bind Argument.value = some (.array a) ↔ kwargs.get? k = some (.array a) := by
  cases h : kwargs.get? k with
  | none => simp
  | some v => cases v <;> simp [Argument.value]

/-- A call that does not raise has built its message from its arguments. -/
theorem observe_ok {handle : Handle Py} {timestampNs : Nat} {urgency : Py}
    {stepsRemaining priority : Option Py} {envelope payload : Bytes}
    (h : handle.observe cpb timestampNs urgency stepsRemaining priority kwargs =
      .ok (envelope, payload)) :
    ∃ obs, observationMessage cpb
        (handle.outgoing timestampNs urgency stepsRemaining priority kwargs) = .ok (obs, payload) ∧
      envelope = cpb.serializeObservation obs := by
  unfold Handle.observe at h
  split at h
  · cases h
  · unfold buildObservation at h
    cases hmessage : observationMessage cpb
        (handle.outgoing timestampNs urgency stepsRemaining priority kwargs) with
    | error e => simp [hmessage, Except.map] at h
    | ok message =>
        simp only [hmessage, Except.map, Except.ok.injEq, Prod.mk.injEq] at h
        rcases h with ⟨rfl, rfl⟩
        exact ⟨message.1, rfl, rfl⟩

/-! ## What the server has of a call -/

/-- The observation names its client and its model, and holds the values of the arguments. -/
structure Arrived (pb : Protobuf ν) (kwargs : Dict String (Argument Py)) (envelope payload : Bytes)
    (parsed : Observation ν) : Prop where
  parse : pb.parseObservation envelope = .ok parsed
  client : ∃ clientId, parsed.client = some clientId ∧ clientId ≠ ""
  modelId : parsed.modelId ≠ ""
  keeps : Keeps (fun k => (kwargs.get? k).bind Argument.value)
    { tensors := parsed.tensors, payload := payload, metadata := parsed.metadata }

namespace Arrived

variable {pb : Protobuf ν} {np : Numpy Obj} {envelope payload : Bytes} {parsed : Observation ν}

/-- Each tensor holds an array of the call, and has no bytes when the array is empty. -/
theorem holds (h : Arrived pb kwargs envelope payload parsed) (hreal : RealArrays kwargs)
    {tensor : Tensor} (htensor : tensor ∈ parsed.tensors) :
    ∃ a, kwargs.get? tensor.key = some (.array a) ∧ Holds payload a tensor ∧
      (tensor.byteLength = 0 ↔ a.size = 0) := by
  rcases h.keeps.holds tensor htensor with ⟨a, ha, hholds⟩
  have hget := value_eq_array_iff.mp ha
  refine ⟨a, hget, hholds, ?_⟩
  rw [hholds.byteLength, List.length_eq_zero_iff]
  exact data_eq_nil_iff (hreal _ a hget) hholds.dtype

theorem rejected (h : Arrived pb kwargs envelope payload parsed) (hreal : RealArrays kwargs)
    {nowNs : Int} {receivedAt : Rat} {e : PyError}
    (herror : decode pb nowNs envelope payload receivedAt = .error e) :
    ∃ k a, kwargs.get? k = some (.array a) ∧ a.size = 0 ∧
      e = .observationError s!"Slot '{k}' has zero byte_length" := by
  have htensors : ∀ s ∈ parsed.tensors, (∃ dtype, dtypeToNumpy s.dtype = .ok dtype) ∧
      s.encoding = .raw ∧ s.byteOffset + s.byteLength ≤ payload.length := by
    intro s hs
    rcases h.holds hreal hs with ⟨a, -, hone, -⟩
    exact ⟨⟨_, (asRead_dtype hone.dtype).1⟩, hone.encoding, hone.range⟩
  rcases h.client with ⟨clientId, hclient, hne⟩
  rcases decode_error h.parse hclient hne h.modelId htensors herror with ⟨s, hs, hzero, rfl⟩
  rcases h.holds hreal hs with ⟨a, ha, -, hempty⟩
  exact ⟨s.key, a, ha, hempty.mp hzero, rfl⟩

/-- The server accepts the observation exactly when it has no empty array. -/
theorem accepted_iff (h : Arrived pb kwargs envelope payload parsed) (hreal : RealArrays kwargs)
    (nowNs : Int) (receivedAt : Rat) :
    (∃ decoded, decode pb nowNs envelope payload receivedAt = .ok decoded) ↔
      ∀ k a, kwargs.get? k = some (.array a) → 0 < a.size := by
  constructor
  · rintro ⟨decoded, hdecoded⟩ k a ha
    rcases decode_ok hdecoded with ⟨parsed', hparse', hvalid⟩
    rcases Except.ok.inj (h.parse.symm.trans hparse') with rfl
    rcases h.keeps.exists_holds (value_eq_array_iff.mpr ha) with ⟨tensor, htensor, rfl, hholds⟩
    apply Nat.pos_of_ne_zero
    intro hzero
    have hdata := (data_eq_nil_iff (hreal _ a ha) hholds.dtype).mpr hzero
    have hlength : tensor.byteLength = 0 := by
      rw [hholds.byteLength, hdata]
      rfl
    exact (hvalid tensor htensor).2.1 hlength
  · intro hnonempty
    cases hdecode : decode pb nowNs envelope payload receivedAt with
    | ok decoded => exact ⟨decoded, rfl⟩
    | error e =>
        rcases h.rejected hreal hdecode with ⟨k, a, ha, hzero, -⟩
        exact absurd hzero (hnonempty k a ha).ne'

/-- The model is given the arguments that were sent. -/
theorem given (h : Arrived pb kwargs envelope payload parsed) (hreal : RealArrays kwargs)
    (hnp : np.Documented) {req : InferenceRequest ν} (henvelope : req.envelope = envelope)
    (hpayload : req.payload = payload) :
    ∃ result, reconstructNumpy pb np req = .ok result ∧
      ∀ k, k ∈ result.keys ↔ ∃ v, kwargs.get? k = some v ∧ v.value ≠ none := by
  have hwf : ∀ k a, (kwargs.get? k).bind Argument.value = some (.array a) → a.WellFormed :=
    fun k a ha => hreal k a (value_eq_array_iff.mp ha)
  have hparse : pb.parseObservation req.envelope = .ok parsed := by
    rw [henvelope]
    exact h.parse
  rcases reconstructNumpy_keeps hnp h.keeps hwf req hparse rfl (fun _ => rfl) hpayload with
    ⟨result, hresult, hget⟩
  refine ⟨result, hresult, fun k => ?_⟩
  rw [Dict.mem_keys, hget]
  cases hk : kwargs.get? k with
  | none => simp
  | some v => cases hv : v.value <;> simp [hv]

end Arrived

/-- Every call of `observe` that does not raise, on a connection and for a model that have an id. -/
theorem observe_delivered {pb : Protobuf ν} {np : Numpy Obj} (hnp : np.Documented)
    {handle : Handle Py} {timestampNs : Nat} {urgency : Py} {stepsRemaining priority : Option Py}
    {envelope payload : Bytes} (hclient : handle.clientId ≠ "") (hmodel : handle.modelId ≠ "")
    (hreal : RealArrays kwargs)
    (hobserve : handle.observe cpb timestampNs urgency stepsRemaining priority kwargs =
      .ok (envelope, payload))
    (hsent : ∀ obs, observationMessage cpb
        (handle.outgoing timestampNs urgency stepsRemaining priority kwargs) = .ok (obs, payload) →
      ∃ parsed, ObservationArrives pb cpb obs parsed) :
    Delivered pb np kwargs envelope payload := by
  rcases observe_ok hobserve with ⟨obs, hmessage, rfl⟩
  rcases hsent obs hmessage with ⟨parsed, harrives⟩
  rcases observationMessage_keeps hmessage with ⟨hobsClient, hobsModel, hkeeps⟩
  have harrived : Arrived pb kwargs (cpb.serializeObservation obs) payload parsed :=
    { parse := harrives.parse
      client := ⟨handle.clientId, harrives.client.trans hobsClient, hclient⟩
      modelId := by
        rw [harrives.modelId, hobsModel]
        exact hmodel
      keeps :=
        { holds := by
            rw [harrives.tensors]
            exact hkeeps.holds
          present := by
            rw [harrives.tensors]
            exact hkeeps.present
          metadata := by
            intro k s
            rw [harrives.metadata]
            exact hkeeps.metadata k s } }
  refine ⟨harrived.accepted_iff hreal, fun _ _ _ => harrived.rejected hreal, ?_⟩
  intro req henvelope hpayload
  rcases harrived.given hreal hnp henvelope hpayload with ⟨result, hresult, hkeys⟩
  refine ⟨result, hresult, ?_, ?_, ?_⟩
  · intro k a ha
    exact (hkeys k).mpr ⟨_, ha, by simp [Argument.value]⟩
  · intro k s hs
    exact (hkeys k).mpr ⟨_, hs, by simp [Argument.value]⟩
  · intro k hk
    rcases (hkeys k).mp hk with ⟨v, hv, -⟩
    exact Dict.mem_keys.mpr ⟨v, hv⟩

/-! ### Three calls for the policy -/

def policyHandle : Handle Rat where
  clientId := "robot-01"
  modelId := "policy"
  priority := 1

/-- `state=np.array([1, 2], dtype="float32"), prompt="go"` -/
def prompted : Dict String (Argument Rat) :=
  (Dict.empty.set "state" (.array native)).set "prompt" (.text "go")

def promptedObservation : Observation Rat :=
  { sentObservation with metadata := Dict.empty.set "prompt" "go" }

theorem prompted_delivered :
    ∃ envelope payload,
      policyHandle.observe (.ofMessages []) 1 0 none none prompted = .ok (envelope, payload) ∧
        Delivered (.ofMessages [promptedObservation]) Numpy.reference prompted envelope payload := by
  have hmessage : observationMessage (.ofMessages [])
      (policyHandle.outgoing 1 0 none none prompted) = .ok (promptedObservation, native.data) := rfl
  have hobserve : policyHandle.observe (.ofMessages []) 1 0 none none prompted =
      .ok (Wire.observation promptedObservation, native.data) := rfl
  have hreal : RealArrays prompted := by
    intro k a ha
    simp only [prompted, Dict.get?_set, Dict.get?_empty] at ha
    split at ha
    · cases ha
    · split at ha
      · rcases Argument.array.inj (Option.some.inj ha) with rfl
        exact float32_wellFormed rfl
      · cases ha
  refine ⟨_, _, hobserve, observe_delivered Numpy.reference_documented (by decide) (by decide) hreal
    hobserve ?_⟩
  intro obs hobs
  rcases Except.ok.inj (hmessage.symm.trans hobs) with ⟨rfl, -⟩
  exact ⟨_, observation_arrives _ _⟩

/-- The server accepts the observation and gives the model exactly the arguments of the call. -/
def Complete (pb : Protobuf ν) (np : Numpy Obj) (kwargs : Dict String (Argument Py))
    (envelope payload : Bytes) : Prop :=
  (∀ nowNs receivedAt, ∃ decoded, decode pb nowNs envelope payload receivedAt = .ok decoded) ∧
    ∀ req : InferenceRequest ν, req.envelope = envelope → req.payload = payload →
      ∃ result, reconstructNumpy pb np req = .ok result ∧ ∀ k, k ∈ result.keys ↔ k ∈ kwargs.keys

/-- `boxes=np.zeros((0, 4), dtype="float32")` -/
def boxless : Dict String (Argument Rat) :=
  Dict.empty.set "boxes" (.array ⟨⟨"float32", "<f4", 4⟩, [0, 4], []⟩)

def boxlessObservation : Observation Rat :=
  { plainObservation with
    timestampNs := 1
    tensors := [⟨"boxes", .float32, [0, 4], 0, 0, 1, .raw⟩] }

/-- `state=np.array([1, 2], dtype="float32"), retries=3` -/
def counted : Dict String (Argument Rat) :=
  (Dict.empty.set "state" (.array native)).set "retries" (.other 3)

/-- Two calls that do not raise: the server refuses the first, and the model of the second is not
given the number. -/
theorem boxless_and_counted_incomplete :
    (∃ envelope payload,
      policyHandle.observe (.ofMessages []) 1 0 none none boxless = .ok (envelope, payload) ∧
        ¬ Complete (.ofMessages [boxlessObservation]) Numpy.reference boxless envelope payload) ∧
    ∃ envelope payload,
      policyHandle.observe (.ofMessages []) 1 0 none none counted = .ok (envelope, payload) ∧
        ¬ Complete (.ofMessages [sentObservation]) Numpy.reference counted envelope payload := by
  constructor
  · refine ⟨_, _, rfl, ?_⟩
    rintro ⟨haccepted, -⟩
    rcases haccepted 1 0 with ⟨decoded, hdecoded⟩
    cases hdecoded
  · refine ⟨_, _, rfl, ?_⟩
    rintro ⟨-, hgiven⟩
    rcases hgiven { policyRequest with
      envelope := Wire.observation sentObservation, payload := native.data } rfl rfl with
      ⟨result, hresult, hkeys⟩
    rcases Except.ok.inj hresult with rfl
    have hretries := (hkeys "retries").mpr (by decide)
    exact absurd hretries (by decide)

end Client
end Inferential
