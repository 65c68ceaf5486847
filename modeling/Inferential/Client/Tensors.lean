import Inferential.Client.Transport
import Inferential.Proto.Wire

/-!
# Tensors — which arrays survive the wire

Dtypes travel as tags, which say nothing about the byte order.  An array arrives with its shape and
its bytes, so that it has the same values exactly when its byte order does not matter.
-/

namespace Inferential

open PyStd

namespace Client

variable {ν Py Obj : Type}

/-! ## Both directions -/

/-- The call with these arrays as its keyword arguments. -/
def Outgoing.withArrays (o : Outgoing Py) (arrays : Dict String NdArray) : Outgoing Py :=
  { o with kwargs := arrays.mapValues .array }

/-- The call is not refused, and `_reconstruct_numpy` gives every array with its values. -/
def ReachModel (pb : Protobuf ν) (cpb : ClientProtobuf ν Py) (np : Numpy Obj) (o : Outgoing Py)
    (req : InferenceRequest ν) (arrays : Dict String NdArray) : Prop :=
  refused (o.withArrays arrays).kwargs = none ∧ ∃ envelope payload,
    buildObservation cpb (o.withArrays arrays) = .ok (envelope, payload) ∧
      ∃ result,
        reconstructNumpy pb np { req with envelope := envelope, payload := payload } = .ok result ∧
          ∀ k a, arrays.get? k = some a → ∃ b, result.get? k = some (.array b) ∧ a.SameValues b

/-- The result can be built, and `_parse_response` gives every array with its values. -/
def ReachClient (pb : Protobuf ν) (cpb : ClientProtobuf ν Py) (np : Numpy Obj)
    (ofArray : NdArray → Obj) (stamp : CallStamp) (req : InferenceRequest ν)
    (arrays : Dict String NdArray) : Prop :=
  ∃ result, buildResult pb np stamp req (rawDict ofArray (arrays.mapValues .array)) = .ok result ∧
    ∃ output, parseResponse cpb np result.envelope result.payload = .ok output ∧
      ∀ k a, arrays.get? k = some a → ∃ b, output.get? k = some (.array b) ∧ a.SameValues b

/-- Arrays that numpy can make and `dtype_from_numpy` accepts. -/
def Sendable (arrays : Dict String NdArray) : Prop :=
  ∀ k a, arrays.get? k = some a → a.WellFormed ∧ ∃ tag, dtypeFromNumpy a.dtype = .ok tag

/-- The scalar fields accept what they are given. -/
structure ScalarsFit (cpb : ClientProtobuf ν Py) (o : Outgoing Py) : Prop where
  urgency : ∃ urgency, cpb.setFloat o.urgency = .ok urgency
  priority : ∃ priority, cpb.setUint32 o.priority = .ok priority
  stepsRemaining : ∃ stepsRemaining, o.stepsRemaining.mapM cpb.setUint32 = .ok stepsRemaining

variable {pb : Protobuf ν} {cpb : ClientProtobuf ν Py} {np : Numpy Obj} {ofArray : NdArray → Obj}
  {arrays : Dict String NdArray}

/-- Once each array arrives as it is read, the arrays survive exactly when their byte orders do not
matter. -/
theorem arrive_iff {γ : Type} (wrap : NdArray → γ) (hwrap : Function.Injective wrap)
    (hsendable : Sendable arrays) {get? : String → Option γ}
    (hget : ∀ k a, arrays.get? k = some a → get? k = some (wrap a.asRead)) :
    (∀ k a, arrays.get? k = some a → ∃ b, get? k = some (wrap b) ∧ a.SameValues b) ↔
      ∀ k a, arrays.get? k = some a → a.OrderFree := by
  refine forall_congr' fun k => forall_congr' fun a => forall_congr' fun ha => ?_
  rcases hsendable k a ha with ⟨hwf, tag, htag⟩
  rw [← sameValues_asRead_iff hwf htag, hget k a ha]
  constructor
  · rintro ⟨b, hb, hsame⟩
    rcases hwrap (Option.some.inj hb) with rfl
    exact hsame
  · intro hsame
    exact ⟨a.asRead, rfl, hsame⟩

theorem observationMessage_ok {o : Outgoing Py} (hscalars : ScalarsFit cpb o)
    (hsendable : Sendable arrays) :
    ∃ obs payload, observationMessage cpb (o.withArrays arrays) = .ok (obs, payload) := by
  rcases hscalars with ⟨⟨urgency, hurgency⟩, ⟨priority, hpriority⟩, ⟨steps, hsteps⟩⟩
  have hturns : ∀ kv ∈ (o.withArrays arrays).kwargs.items, ∀ c,
      ∃ c', appendArgument o.timestampNs kv.1 kv.2 c = .ok c' := by
    intro kv hkv c
    rcases List.mem_map.mp hkv with ⟨item, hitem, rfl⟩
    rcases hsendable item.1 item.2 (Dict.get?_eq_some.mpr hitem) with ⟨-, tag, htag⟩
    simp [appendArgument, htag]
  rcases collectAll_ok hturns {} with ⟨c, hc⟩
  rw [← appendArguments_eq] at hc
  simp only [Outgoing.withArrays] at hc
  simp only [observationMessage, Outgoing.withArrays, hurgency, hpriority, hsteps, hc]
  exact ⟨_, _, rfl⟩

/-- A call with an array under the name of a parameter is refused. -/
theorem withArrays_refused {o : Outgoing Py} :
    refused (o.withArrays arrays).kwargs = none ↔
      ∀ k a, arrays.get? k = some a → k ∉ parameters := by
  simp only [refused, Outgoing.withArrays, Dict.keys_mapValues, List.find?_eq_none,
    decide_eq_true_eq, Dict.mem_keys]
  constructor
  · intro h k a ha
    exact h k ⟨a, ha⟩
  · intro h k hk
    rcases hk with ⟨a, ha⟩
    exact h k a ha

theorem reachModel_iff (hnp : np.Documented) (hsendable : Sendable arrays) {o : Outgoing Py}
    (hscalars : ScalarsFit cpb o)
    (hsent : ∀ obs payload, observationMessage cpb (o.withArrays arrays) = .ok (obs, payload) →
      ∃ parsed, ObservationArrives pb cpb obs parsed)
    (req : InferenceRequest ν) :
    ReachModel pb cpb np o req arrays ↔
      ∀ k a, arrays.get? k = some a → k ∉ parameters ∧ a.OrderFree := by
  rcases observationMessage_ok hscalars hsendable with ⟨obs, payload, hmessage⟩
  rcases hsent obs payload hmessage with ⟨parsed, harrives⟩
  rcases observationMessage_keeps hmessage with ⟨-, -, hkeeps⟩
  have hlook : ∀ k, ((o.withArrays arrays).kwargs.get? k).bind Argument.value =
      (arrays.get? k).map ObsValue.array := by
    intro k
    cases h : arrays.get? k <;> simp [Outgoing.withArrays, Argument.value, h]
  simp only [hlook] at hkeeps
  have hwf : ∀ k a, (arrays.get? k).map ObsValue.array = some (.array a) → a.WellFormed := by
    intro k a ha
    simp only [Option.map_eq_some_iff, ObsValue.array.injEq, exists_eq_right] at ha
    exact (hsendable k a ha).1
  have hbuild : buildObservation cpb (o.withArrays arrays) =
      .ok (cpb.serializeObservation obs, payload) := by
    simp [buildObservation, hmessage, Except.map]
  rcases reconstructNumpy_keeps hnp hkeeps hwf
    { req with envelope := cpb.serializeObservation obs, payload := payload } harrives.parse
    harrives.tensors harrives.metadata rfl with ⟨result, hresult, hget⟩
  have hread : ∀ k a, arrays.get? k = some a → result.get? k = some (.array a.asRead) := by
    intro k a ha
    simp [hget, ha, ObsValue.asRead]
  simp only [imp_and, forall_and, ReachModel, withArrays_refused]
  refine and_congr_right' ?_
  rw [← arrive_iff ObsValue.array (fun _ _ => ObsValue.array.inj) hsendable hread]
  constructor
  · rintro ⟨envelope', payload', hbuild', result', hresult', hsame⟩
    rw [hbuild, Except.ok.injEq, Prod.mk.injEq] at hbuild'
    rcases hbuild' with ⟨rfl, rfl⟩
    rw [hresult, Except.ok.injEq] at hresult'
    subst hresult'
    exact hsame
  · intro hsame
    exact ⟨_, _, hbuild, result, hresult, hsame⟩

theorem buildResult_ok (pb : Protobuf ν) (hof : ∀ a, np.asarray (ofArray a) = .ok a)
    (hsendable : Sendable arrays) (stamp : CallStamp) (req : InferenceRequest ν) :
    ∃ result, buildResult pb np stamp req (rawDict ofArray (arrays.mapValues .array)) =
      .ok result := by
  have hturns : ∀ kv ∈ (arrays.mapValues ObsValue.array).items, ∀ c,
      ∃ c', appendValue np ofArray kv.1 kv.2 c = .ok c' := by
    intro kv hkv c
    rcases List.mem_map.mp hkv with ⟨item, hitem, rfl⟩
    rcases hsendable item.1 item.2 (Dict.get?_eq_some.mpr hitem) with ⟨-, tag, htag⟩
    simp [appendValue, appendArray, hof, ndarrayToTensor, htag]
  rcases collectAll_ok hturns {} with ⟨c, hc⟩
  rw [← collect_rawDict pb] at hc
  simp only [buildResult, hc]
  exact ⟨_, rfl⟩

theorem reachClient_iff {toFloat32 : Rat → Rat} (hnp : np.Documented)
    (hof : ∀ a, np.asarray (ofArray a) = .ok a) (hsendable : Sendable arrays)
    (hnonempty : ∀ k a, arrays.get? k = some a → 0 < a.size) {stamp : CallStamp}
    {req : InferenceRequest ν}
    (hreturned : ∀ c, collect pb np (rawDict ofArray (arrays.mapValues .array)) = .ok c →
      ∃ parsed, ResponseArrives pb cpb toFloat32 (responseMessage stamp req c) parsed) :
    ReachClient pb cpb np ofArray stamp req arrays ↔
      ∀ k a, arrays.get? k = some a → a.OrderFree := by
  rcases buildResult_ok pb hof hsendable stamp req with ⟨result, hbuild⟩
  rcases buildResult_keeps hof hbuild with ⟨c, hkeeps, hcollect, henvelope, hpayload, -, -⟩
  rcases hreturned c hcollect with ⟨parsed, harrives⟩
  have hlook : ∀ k, (arrays.mapValues ObsValue.array).get? k = (arrays.get? k).map .array :=
    fun k => Dict.get?_mapValues _ arrays k
  have hwf : ∀ k a, (arrays.mapValues ObsValue.array).get? k = some (.array a) →
      a.WellFormed := by
    intro k a ha
    simp only [hlook, Option.map_eq_some_iff, ObsValue.array.injEq, exists_eq_right] at ha
    exact (hsendable k a ha).1
  rcases parseResponse_keeps hnp hkeeps hwf harrives.parse harrives.tensors
    harrives.metadata with ⟨output, houtput, hget⟩
  rw [← henvelope, ← hpayload] at houtput
  have hread : ∀ k a, arrays.get? k = some a → output.get? k = some (.array a.asRead) := by
    intro k a ha
    rcases hsendable k a ha with ⟨hwell, tag, htag⟩
    have hdata : a.data ≠ [] := by
      apply List.ne_nil_of_length_pos
      rw [hwell.sized]
      exact Nat.mul_pos (hnonempty k a ha) (hwell.itemsize_pos htag)
    simp [hget, hlook, ha, seen, hdata]
  rw [← arrive_iff OutputValue.array (fun _ _ => OutputValue.array.inj) hsendable hread]
  constructor
  · rintro ⟨result', hbuild', output', houtput', hsame⟩
    rw [hbuild, Except.ok.injEq] at hbuild'
    subst hbuild'
    rw [houtput, Except.ok.injEq] at houtput'
    subst houtput'
    exact hsame
  · intro hsame
    exact ⟨result, hbuild, output, houtput, hsame⟩

/-- Non-empty arrays that are sent, and returned by a model, arrive with their shapes and values in
both directions exactly when no key is refused and no byte order matters. -/
theorem arrays_survive_iff {toFloat32 : Rat → Rat} (hnp : np.Documented)
    (hof : ∀ a, np.asarray (ofArray a) = .ok a) (hsendable : Sendable arrays)
    (hnonempty : ∀ k a, arrays.get? k = some a → 0 < a.size) {o : Outgoing Py}
    (hscalars : ScalarsFit cpb o)
    (hsent : ∀ obs payload, observationMessage cpb (o.withArrays arrays) = .ok (obs, payload) →
      ∃ parsed, ObservationArrives pb cpb obs parsed)
    {stamp : CallStamp} {req : InferenceRequest ν}
    (hreturned : ∀ c, collect pb np (rawDict ofArray (arrays.mapValues .array)) = .ok c →
      ∃ parsed, ResponseArrives pb cpb toFloat32 (responseMessage stamp req c) parsed) :
    ReachModel pb cpb np o req arrays ∧ ReachClient pb cpb np ofArray stamp req arrays ↔
      ∀ k a, arrays.get? k = some a → k ∉ parameters ∧ a.OrderFree := by
  rw [reachModel_iff hnp hsendable hscalars hsent req,
    reachClient_iff hnp hof hsendable hnonempty hreturned]
  exact and_iff_left_of_imp fun h k a ha => (h k a ha).2

/-! ### The numbers one and two in both byte orders -/

def native : NdArray := ⟨⟨"float32", "<f4", 4⟩, [2], [0, 0, 128, 63, 0, 0, 0, 64]⟩

/-- `native.astype(">f4")` -/
def swapped : NdArray := ⟨⟨"float32", ">f4", 4⟩, [2], [63, 128, 0, 0, 64, 0, 0, 0]⟩

/-- The call `observe(state=a)` of a handle for the policy. -/
def policyCall : Outgoing Rat where
  clientId := "robot-01"
  modelId := "policy"
  timestampNs := 1
  urgency := 0
  stepsRemaining := none
  priority := 1
  kwargs := Dict.empty

def policyRequest : InferenceRequest Rat where
  clientId := "robot-01"
  modelId := "policy"
  identity := [1]
  envelope := []
  payload := []
  receivedAt := 0
  urgency := 0
  stepsRemaining := none
  timeUntilNext := 0
  latencyBudgetMs := 50
  priority := 1
  score := 0
  objId := 1

def policyStamp : CallStamp where
  responseId := "c0ffee"
  timestampNs := 2
  latencyMs := 0
  errorLatencyMs := 0

def stateTensor (timestampNs : Nat) : Tensor := ⟨"state", .float32, [2], 0, 8, timestampNs, .raw⟩

/-- The messages are the same for both arrays. -/
def sentObservation : Observation Rat :=
  { plainObservation with timestampNs := 1, tensors := [stateTensor 1] }

def returnedResponse : ModelResponse :=
  { plainResponse "policy" "c0ffee" with timestampNs := 2, tensors := [stateTensor 0] }

def state (a : NdArray) : Dict String NdArray := Dict.empty.set "state" a

theorem state_sent (a : NdArray) (ha : a = native ∨ a = swapped) :
    ∀ obs payload, observationMessage (.ofMessages [returnedResponse]) (policyCall.withArrays
        (state a)) = .ok (obs, payload) →
      ∃ parsed, ObservationArrives (.ofMessages [sentObservation])
        (.ofMessages [returnedResponse]) obs parsed := by
  intro obs payload hmessage
  have hsent : obs = sentObservation := by
    rcases ha with rfl | rfl
    · exact (Prod.mk.inj (Except.ok.inj hmessage)).1.symm
    · exact (Prod.mk.inj (Except.ok.inj hmessage)).1.symm
  rw [hsent]
  exact ⟨_, observation_arrives _ _⟩

theorem state_returned (a : NdArray) (ha : a = native ∨ a = swapped) :
    ∀ c, collect (.ofMessages [sentObservation]) Numpy.reference
        (rawDict id ((state a).mapValues .array)) = .ok c →
      ∃ parsed, ResponseArrives (.ofMessages [sentObservation])
        (.ofMessages [returnedResponse]) id (responseMessage policyStamp policyRequest c) parsed := by
  intro c hc
  have hreturned : responseMessage policyStamp policyRequest c = returnedResponse := by
    rcases ha with rfl | rfl
    · rw [← Except.ok.inj hc]
      rfl
    · rw [← Except.ok.inj hc]
      rfl
  rw [hreturned]
  exact ⟨_, response_arrives _ _⟩

theorem get?_state {a b : NdArray} {k : String} (h : (state a).get? k = some b) :
    k = "state" ∧ b = a := by
  simp only [state, Dict.get?_set, Dict.get?_empty] at h
  split at h
  · next hkey => exact ⟨hkey, (Option.some.inj h).symm⟩
  · cases h

/-- A vector of two single-precision numbers. -/
theorem float32_wellFormed {str : String} {data : Bytes} (hlength : data.length = 8) :
    NdArray.WellFormed ⟨⟨"float32", str, 4⟩, [2], data⟩ where
  ranked := show 1 ≤ maxDims by decide
  sized := hlength
  named := by
    intro tag native hfrom hto
    rcases Except.ok.inj hfrom with rfl
    rcases Except.ok.inj hto with rfl
    rfl

theorem state_sendable (a : NdArray) (ha : a = native ∨ a = swapped) : Sendable (state a) := by
  intro k b hb
  rcases get?_state hb with ⟨-, rfl⟩
  rcases ha with rfl | rfl
  · exact ⟨float32_wellFormed rfl, .float32, rfl⟩
  · exact ⟨float32_wellFormed rfl, .float32, rfl⟩

theorem policyCall_fits (responses : List ModelResponse) :
    ScalarsFit (.ofMessages responses) policyCall where
  urgency := ⟨0, rfl⟩
  priority := ⟨1, rfl⟩
  stepsRemaining := ⟨none, rfl⟩

/-- The native array survives. -/
theorem native_survives :
    ReachModel (.ofMessages [sentObservation]) (.ofMessages [returnedResponse]) Numpy.reference
        policyCall policyRequest (state native) ∧
      ReachClient (.ofMessages [sentObservation]) (.ofMessages [returnedResponse]) Numpy.reference id
        policyStamp policyRequest (state native) := by
  apply (arrays_survive_iff Numpy.reference_documented (fun _ => rfl)
    (state_sendable native (.inl rfl)) _ (policyCall_fits _) (state_sent native (.inl rfl))
    (state_returned native (.inl rfl))).mpr
  · intro k a ha
    rcases get?_state ha with ⟨rfl, rfl⟩
    exact ⟨by decide, fun hbig => absurd hbig (by decide)⟩
  · intro k a ha
    rcases get?_state ha with ⟨rfl, rfl⟩
    decide

/-- The other one is accepted and read as two other numbers, in both directions. -/
theorem swapped_misread :
    Sendable (state swapped) ∧ (∀ k a, (state swapped).get? k = some a → 0 < a.size) ∧
      ¬ ReachModel (.ofMessages [sentObservation]) (.ofMessages [returnedResponse]) Numpy.reference
        policyCall policyRequest (state swapped) ∧
      ¬ ReachClient (.ofMessages [sentObservation]) (.ofMessages [returnedResponse])
        Numpy.reference id policyStamp policyRequest (state swapped) := by
  have hsendable := state_sendable swapped (.inr rfl)
  have hget : (state swapped).get? "state" = some swapped := rfl
  have hfree : ¬ swapped.OrderFree := by
    intro h
    exact absurd (h (by decide) 0 (by decide)) (by decide)
  have hnonempty : ∀ k a, (state swapped).get? k = some a → 0 < a.size := by
    intro k a ha
    rcases get?_state ha with ⟨rfl, rfl⟩
    decide
  refine ⟨hsendable, hnonempty, ?_, ?_⟩
  · intro hreach
    have hall := (reachModel_iff Numpy.reference_documented hsendable (policyCall_fits _)
      (state_sent swapped (.inr rfl)) _).mp hreach
    exact hfree (hall "state" swapped hget).2
  · intro hreach
    have hall := (reachClient_iff Numpy.reference_documented (fun _ => rfl) hsendable hnonempty
      (state_returned swapped (.inr rfl))).mp hreach
    exact hfree (hall "state" swapped hget)

end Client
end Inferential
