import Inferential.Client.Answers
import Inferential.Client.Bounds

/-!
# Views — what a native client reads of a model's answer

`TensorData` of the Rust and C++ clients with its size, its count and its typed views, and what
`_build_result` and `get_result` make together of the dictionary that a model returns.
-/

namespace Inferential

open PyStd

namespace Client
namespace Native

/-! ## Typed views -/

namespace TensorData

/-- `element_size` -/
def elementSize (t : TensorData) : Nat :=
  match t.dtype with
  | .float16 => 2
  | .bfloat16 => 2
  | .float32 => 4
  | .int32 => 4
  | .float64 => 8
  | .int64 => 8
  | .uint8 => 1
  | .bool => 1
  | _ => 0

def numel (t : TensorData) : Nat :=
  if t.elementSize = 0 then 0 else t.data.length / t.elementSize

/-- The C++ `as<T>`, for a `T` of `size` bytes: the elements as the machine stores them, or `none`
when the call throws. -/
def as (size : Nat) (t : TensorData) : Option (List Bytes) :=
  if size ≠ t.elementSize then none
  else some ((List.range (t.data.length / size)).map fun i => (t.data.drop (i * size)).take size)

/-- In Rust the assertion is on the size only, and its failure is a panic. -/
def asF32 (t : TensorData) : Option (List Bytes) := t.as 4

def asF64 (t : TensorData) : Option (List Bytes) := t.as 8

def asI32 (t : TensorData) : Option (List Bytes) := t.as 4

def asI64 (t : TensorData) : Option (List Bytes) := t.as 8

def asU8 (t : TensorData) : Bytes := t.data

end TensorData

/-- The tensor shows the array: its shape, its bytes, and its elements in a view of their size, and
there is no view of another size. -/
structure Shows (t : TensorData) (a : NdArray) : Prop where
  shape : t.shape = a.shape.map Int.ofNat
  bytes : t.asU8 = a.data
  elementSize : t.elementSize = a.dtype.itemsize
  numel : t.numel = a.size
  elements : t.as a.dtype.itemsize = some ((List.range a.size).map a.rawElement)
  refuses : ∀ size, size ≠ a.dtype.itemsize → t.as size = none

/-- Each row of the table has the element size of its numpy dtype. -/
theorem elementSize_native {t : TensorData} {native : NpDtype}
    (hnative : dtypeToNumpy t.dtype = .ok native) : t.elementSize = native.itemsize := by
  unfold TensorData.elementSize
  cases hdtype : t.dtype with
  | unspecified => simp [hdtype, dtypeToNumpy] at hnative
  | unrecognized value => simp [hdtype, dtypeToNumpy] at hnative
  | _ =>
      simp only [hdtype, dtypeToNumpy, Except.ok.injEq] at hnative
      subst hnative
      rfl

theorem shows_of_data {a : NdArray} (hwf : a.WellFormed) {t : TensorData}
    (htag : dtypeFromNumpy a.dtype = .ok t.dtype) (hshape : t.shape = a.shape.map Int.ofNat)
    (hdata : t.data = a.data) : Shows t a := by
  rcases dtype_roundtrip htag with ⟨native, hnative, -, -⟩
  have hsize : t.elementSize = a.dtype.itemsize :=
    (elementSize_native hnative).trans (hwf.named _ _ htag hnative)
  have hpos := hwf.itemsize_pos htag
  have hcount : t.data.length / a.dtype.itemsize = a.size := by
    rw [hdata, hwf.sized]
    exact Nat.mul_div_cancel _ hpos
  refine ⟨hshape, hdata, hsize, ?_, ?_, ?_⟩
  · rw [TensorData.numel, hsize, if_neg hpos.ne', hcount]
  · rw [TensorData.as, hsize, if_neg (not_not.mpr rfl), hcount, hdata]
    rfl
  · intro size hne
    rw [TensorData.as, hsize, if_pos hne]

/-! ## The keys of a response -/

/-- The two fields that `get_result` puts into the map first. -/
def fixedTensors (responseId modelId : String) : Dict String TensorData :=
  (Dict.empty.set "response_id" (.ofString "response_id" responseId)).set
    "model_id" (.ofString "model_id" modelId)

/-- What `get_result` reads of a value under its key. -/
def seenAs (k : String) : ObsValue → Option TensorData
  | .text s => some (.ofString k s)
  | .array a =>
      match dtypeFromNumpy a.dtype with
      | .error _ => none
      | .ok dtype =>
          if a.data = [] then none
          else some { key := k, data := a.data, shape := a.shape.map Int.ofNat, dtype := dtype }

/-- The map without the two fields, key by key. -/
def seenIn (look : String → Option ObsValue) (k : String) : Option TensorData :=
  (look k).bind (seenAs k)

variable {ν Obj : Type} {look : String → Option ObsValue} {c : Collected} {resp : ModelResponse}

/-- The tensor that holds an array is read when the array has bytes, and then with these bytes. -/
theorem holds_present_iff {payload : Bytes} {a : NdArray} {tensor : Tensor}
    (h : Holds payload a tensor) : Present tensor ↔ a.data ≠ [] := by
  rcases dtype_roundtrip h.dtype with ⟨-, -, hnumber, -⟩
  have hdtype : tensor.dtype ≠ .unspecified := by
    intro hzero
    exact hnumber (by rw [hzero]; rfl)
  simp [Present, h.byteLength, hdtype, List.length_pos_iff]

theorem holds_exactData {payload : Bytes} {a : NdArray} {tensor : Tensor}
    (h : Holds payload a tensor) : exactData payload tensor = a.data := by
  rw [exactData, if_pos h.range, h.bytes]

/-- Every value that was collected is read, and the two fields under the other keys. -/
theorem exactOutput_keeps (hkeeps : Keeps look c) (htensors : resp.tensors = c.tensors)
    (hmetadata : ∀ k, resp.metadata.get? k = c.metadata.get? k) (k : String) :
    (exactOutput resp c.payload).get? k =
      (seenIn look k).or ((fixedTensors resp.responseId resp.modelId).get? k) := by
  have htensor : ∀ tensor ∈ resp.tensors.filter Present,
      seenIn look tensor.key = some
        { key := tensor.key
          data := exactData c.payload tensor
          shape := tensor.shape
          dtype := tensor.dtype } := by
    intro tensor hmem
    rcases List.mem_filter.mp hmem with ⟨htensor, hpresent⟩
    rcases hkeeps.holds tensor (htensors ▸ htensor) with ⟨a, ha, hholds⟩
    have hdata := (holds_present_iff hholds).mp (of_decide_eq_true hpresent)
    simp [seenIn, ha, seenAs, hholds.dtype, hdata, holds_exactData hholds, hholds.shape]
  have hmeta : ∀ kv ∈ resp.metadata.items,
      seenIn look kv.1 = some (.ofString kv.1 kv.2) := by
    intro kv hkv
    have hget : c.metadata.get? kv.1 = some kv.2 := by
      rw [← hmetadata]
      exact Dict.get?_eq_some.mpr hkv
    simp [seenIn, (hkeeps.metadata kv.1 kv.2).mp hget, seenAs]
  rw [exactOutput, Dict.get?_foldl_assign Prod.fst _ (seenIn look) hmeta,
    Dict.get?_foldl_assign Tensor.key _ (seenIn look) htensor]
  split
  · next hin =>
      rcases List.mem_map.mp hin with ⟨kv, hkv, rfl⟩
      simp [hmeta kv hkv]
  · next hout =>
      split
      · next hin =>
          rcases List.mem_map.mp hin with ⟨tensor, hmem, rfl⟩
          simp [htensor tensor hmem]
      · next hnone =>
          -- the key has no string, and no array with bytes
          have hunseen : seenIn look k = none := by
            unfold seenIn
            cases hlook : look k with
            | none => rfl
            | some v =>
                cases v with
                | text s =>
                    have hget : resp.metadata.get? k = some s := by
                      rw [hmetadata]
                      exact (hkeeps.metadata k s).mpr hlook
                    exact absurd (Dict.mem_keys.mpr ⟨s, hget⟩) hout
                | array a =>
                    rcases hkeeps.exists_holds hlook with ⟨tensor, hmem, rfl, hholds⟩
                    have hempty : a.data = [] := by
                      by_contra hdata
                      apply hnone
                      refine List.mem_map_of_mem (List.mem_filter.mpr ⟨htensors ▸ hmem, ?_⟩)
                      exact decide_eq_true ((holds_present_iff hholds).mpr hdata)
                    simp [seenAs, hholds.dtype, hempty]
          rw [hunseen, Option.none_or]
          rfl

/-! ## Whole answers -/

/-- The generated code of the client parses the message that the server has serialised; the entries
of a map come in any order. -/
structure Decodes (pb : Protobuf ν) (parse : Bytes → Except String ModelResponse)
    (resp parsed : ModelResponse) : Prop where
  parse : parse (pb.serializeResponse resp) = .ok parsed
  responseId : parsed.responseId = resp.responseId
  tensors : parsed.tensors = resp.tensors
  modelId : parsed.modelId = resp.modelId
  metadata : ∀ k, parsed.metadata.get? k = resp.metadata.get? k

/-- The map has each string and each array that is not empty, as the model gave them, and else
nothing but the two fields. -/
structure Received (responseId modelId : String) (values : Dict String ObsValue)
    (output : Dict String TensorData) : Prop where
  text : ∀ k s, values.get? k = some (.text s) → output.get? k = some (.ofString k s)
  array : ∀ k a, values.get? k = some (.array a) → 0 < a.size →
    ∃ t, output.get? k = some t ∧ t.key = k ∧ Shows t a
  fixed : ∀ k, (∀ s, values.get? k ≠ some (.text s)) →
    (∀ a, values.get? k = some (.array a) → a.size = 0) →
      output.get? k = (fixedTensors responseId modelId).get? k

theorem received_of_get? {responseId modelId : String} {values : Dict String ObsValue}
    {output : Dict String TensorData}
    (hvalues : ∀ k a, values.get? k = some (.array a) →
      a.WellFormed ∧ ∃ tag, dtypeFromNumpy a.dtype = .ok tag)
    (hget : ∀ k, output.get? k =
      (seenIn values.get? k).or ((fixedTensors responseId modelId).get? k)) :
    Received responseId modelId values output where
  text := by
    intro k s hs
    rw [hget, seenIn, hs]
    rfl
  array := by
    intro k a ha hsize
    rcases hvalues k a ha with ⟨hwf, tag, htag⟩
    have hdata : a.data ≠ [] := fun hnil => hsize.ne' ((data_eq_nil_iff hwf htag).mp hnil)
    refine ⟨{ key := k, data := a.data, shape := a.shape.map Int.ofNat, dtype := tag }, ?_, rfl,
      shows_of_data hwf htag rfl rfl⟩
    rw [hget, seenIn, ha]
    simp [seenAs, htag, hdata]
  fixed := by
    intro k htext hempty
    rw [hget, seenIn]
    cases hk : values.get? k with
    | none => rfl
    | some v =>
        cases v with
        | text s => exact absurd hk (htext s)
        | array a =>
            rcases hvalues k a hk with ⟨hwf, tag, htag⟩
            simp [seenAs, htag, (data_eq_nil_iff hwf htag).mpr (hempty a hk)]

/-- Where every range is inside the payload, the three clients read every tensor. -/
theorem getResult_inside (checked : Bool) {payload : Bytes} (hlong : payload.length < 2 ^ 64)
    (hinside : ∀ tensor ∈ resp.tensors, tensor.byteOffset + tensor.byteLength ≤ payload.length) :
    getResult checked resp payload = some (exactOutput resp payload) ∧
      getResultAsync checked resp payload = some (exactOutput resp payload) ∧
      getResultCpp resp payload = some (exactOutput resp payload) := by
  have hwire : ∀ tensor ∈ resp.tensors, Wire64 tensor := by
    intro tensor htensor
    have hle := hinside tensor htensor
    exact ⟨by omega, by omega⟩
  have hfits : ∀ (checked : Bool), ∀ tensor ∈ resp.tensors, Present tensor →
      ¬ Overflows checked payload tensor := by
    intro checked tensor htensor _ hoverflow
    have hle := hinside tensor htensor
    have hwraps := hoverflow.1
    omega
  have hread : ∀ (checked : Bool), ∀ tensor ∈ resp.tensors, readRust checked payload tensor =
      if Overflows checked payload tensor then none else some (exactData payload tensor) :=
    fun checked tensor htensor => readRust_eq checked payload (hwire tensor htensor)
  refine ⟨(getResultWith_iff (hread checked)).mpr (hfits checked),
    (getResultWith_iff (hread checked)).mpr (hfits checked), ?_⟩
  refine (getResultWith_iff fun tensor htensor => ?_).mpr (hfits false)
  rw [readCpp_eq, hread false tensor htensor]

/-- Every dictionary of strings and arrays whose result can be built reaches the Rust and the C++
client: no read fails, and the map has exactly the values of the model, but for empty arrays and for
the two fields where the model has no value for them. -/
theorem native_answer {pb : Protobuf ν} {np : Numpy Obj} {ofArray : NdArray → Obj}
    (hof : ∀ a, np.asarray (ofArray a) = .ok a) {values : Dict String ObsValue}
    (hwf : ∀ k a, values.get? k = some (.array a) → a.WellFormed) {stamp : CallStamp}
    {req : InferenceRequest ν} {result : DispatchResult}
    (hbuild : buildResult pb np stamp req (rawDict ofArray values) = .ok result)
    (hlong : result.payload.length < 2 ^ 64) {parse : Bytes → Except String ModelResponse}
    (hdecodes : ∀ c, collect pb np (rawDict ofArray values) = .ok c →
      ∃ parsed, Decodes pb parse (responseMessage stamp req c) parsed) (checked : Bool) :
    ∃ parsed output,
      readResponse parse [[], result.envelope, result.payload] = some (parsed, result.payload) ∧
        getResult checked parsed result.payload = some output ∧
        getResultAsync checked parsed result.payload = some output ∧
        getResultCpp parsed result.payload = some output ∧
        Received stamp.responseId req.modelId values output := by
  rcases buildResult_keeps hof hbuild with ⟨c, hkeeps, hcollect, henvelope, hpayload, -, -⟩
  rcases hdecodes c hcollect with ⟨parsed, hparsed⟩
  have htensors : parsed.tensors = c.tensors := hparsed.tensors
  have hinside : ∀ tensor ∈ parsed.tensors,
      tensor.byteOffset + tensor.byteLength ≤ result.payload.length := by
    intro tensor htensor
    rcases hkeeps.holds tensor (htensors ▸ htensor) with ⟨a, -, hholds⟩
    rw [hpayload]
    exact hholds.range
  rcases getResult_inside checked hlong hinside with ⟨hrust, hasync, hcpp⟩
  refine ⟨parsed, _, ?_, hrust, hasync, hcpp, ?_⟩
  · simp only [readResponse, henvelope, hparsed.parse]
    rfl
  · rw [hpayload]
    have hget := exactOutput_keeps hkeeps htensors hparsed.metadata
    rw [hparsed.responseId, hparsed.modelId] at hget
    refine received_of_get? (fun k a ha => ⟨hwf k a ha, ?_⟩) hget
    rcases hkeeps.exists_holds ha with ⟨tensor, -, -, hholds⟩
    exact ⟨_, hholds.dtype⟩

/-! ### Two actions and a status -/

theorem actions_read :
    ∃ result parsed output, buildResult (.ofMessages []) Numpy.reference policyStamp policyRequest
        (rawDict id actions) = .ok result ∧
      readResponse (parseAmong [responseMessage policyStamp policyRequest actionsCollected])
        [[], result.envelope, result.payload] = some (parsed, result.payload) ∧
      getResult true parsed result.payload = some output ∧
      getResultCpp parsed result.payload = some output ∧
      Received policyStamp.responseId "policy" actions output ∧
      (output.get? "actions").bind (TensorData.as 4) = some [[0, 0, 128, 63], [0, 0, 0, 64]] := by
  have hwf : ∀ k a, actions.get? k = some (.array a) → a.WellFormed := by
    intro k a ha
    simp only [actions, Dict.get?_set, Dict.get?_empty] at ha
    split at ha
    · cases ha
    · split at ha
      · rcases ObsValue.array.inj (Option.some.inj ha) with rfl
        exact float32_wellFormed rfl
      · cases ha
  have hdecodes : ∀ c, collect (.ofMessages []) Numpy.reference (rawDict id actions) = .ok c →
      ∃ parsed, Decodes (.ofMessages [])
        (parseAmong [responseMessage policyStamp policyRequest actionsCollected])
        (responseMessage policyStamp policyRequest c) parsed := by
    intro c hc
    have hcollect : collect (.ofMessages []) Numpy.reference (rawDict id actions) =
        .ok actionsCollected := rfl
    rcases Except.ok.inj (hcollect.symm.trans hc) with rfl
    exact ⟨_, by simp [Protobuf.ofMessages, parseAmong], rfl, rfl, rfl, fun _ => rfl⟩
  have hbuild : ∃ result, buildResult (.ofMessages []) Numpy.reference policyStamp policyRequest
      (rawDict id actions) = .ok result ∧ result.payload = native.data := ⟨_, rfl, rfl⟩
  rcases hbuild with ⟨result, hbuild, hpayload⟩
  have hlong : result.payload.length < 2 ^ 64 := by
    rw [hpayload]
    decide
  rcases native_answer (fun _ => rfl) hwf hbuild hlong hdecodes true with
    ⟨parsed, output, hread, hrust, -, hcpp, hreceived⟩
  refine ⟨result, parsed, output, hbuild, hread, hrust, hcpp, hreceived, ?_⟩
  rcases hreceived.array "actions" native rfl (by decide) with ⟨t, ht, -, hshows⟩
  have helements : t.as 4 = some [[0, 0, 128, 63], [0, 0, 0, 64]] := hshows.elements
  rw [ht]
  exact helements

end Native
end Client
end Inferential
