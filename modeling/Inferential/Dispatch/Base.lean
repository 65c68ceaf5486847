import Inferential.Observation.Assembler

/-!
# Base — what the dispatchers share

`DispatchResult`, the reconstruction of a request's arrays and the building of its result.
-/

namespace Inferential

open PyStd

variable {ν Obj : Type}

structure DispatchResult where
  clientId : String
  responseId : String
  identity : Bytes
  envelope : Bytes
  payload : Bytes
  latencyMs : Rat
  success : Bool
  /-- `id(InferenceRequest)` -/
  reqId : Nat := 0
  error : Option String := none
  deriving DecidableEq

/-- `str(e)` -/
def PyError.message : PyError → String
  | .queueFullError clientId => s!"Queue full, rejecting request from client {clientId}"
  | .zeroDivisionError => "division by zero"
  | .valueError message => message
  | .typeError message => message
  | .observationError message => message
  | .foreign message => message

/-! ## Reconstruction -/

inductive ObsValue
  | array (a : NdArray)
  | text (s : String)
  deriving DecidableEq

/-- `payload[tensor.byte_offset : tensor.byte_offset + tensor.byte_length]` -/
def tensorBytes (payload : Bytes) (tensor : Tensor) : Bytes :=
  (payload.drop tensor.byteOffset).take tensor.byteLength

/-- The array of one tensor. -/
def loadTensor (np : Numpy Obj) (payload : Bytes) (tensor : Tensor) : Except PyError NdArray :=
  match dtypeToNumpy tensor.dtype with
  | .error e => .error e
  | .ok npDtype =>
      match np.frombuffer (tensorBytes payload tensor) npDtype with
      | .error e => .error e
      | .ok array => np.reshape array tensor.shape

def loadTensors (np : Numpy Obj) (payload : Bytes) :
    List Tensor → Dict String ObsValue → Except PyError (Dict String ObsValue)
  | [], result => .ok result
  | tensor :: tensors, result =>
      match loadTensor np payload tensor with
      | .error e => .error e
      | .ok array => loadTensors np payload tensors (result.set tensor.key (.array array))

/-- `_reconstruct_numpy`; metadata overwrites tensors of the same key. -/
def reconstructNumpy (pb : Protobuf ν) (np : Numpy Obj) (req : InferenceRequest ν) :
    Except PyError (Dict String ObsValue) :=
  match pb.parseObservation req.envelope with
  | .error e => .error (.foreign e)
  | .ok obs =>
      match loadTensors np req.payload obs.tensors Dict.empty with
      | .error e => .error e
      | .ok result =>
          .ok (obs.metadata.items.foldl (fun result kv => result.set kv.1 (.text kv.2)) result)

/-! ## Results -/

/-- What a model returns: a dictionary, or anything else.  A key that is not a string is `none`. -/
inductive RawResult (Obj : Type)
  | dict (items : List (Option String × (String ⊕ Obj)))
  | other (value : Obj)

/-- What `uuid4` and the clocks give for one call of a model; an error is timed anew. -/
structure CallStamp where
  responseId : String
  timestampNs : Int
  latencyMs : Rat
  errorLatencyMs : Rat

/-- `_ndarray_to_tensor` -/
def ndarrayToTensor (key : String) (arr : NdArray) (offset : Nat) :
    Except PyError (Tensor × Bytes) :=
  match dtypeFromNumpy arr.dtype with
  | .error e => .error e
  | .ok dtype =>
      .ok ({
        key := key
        dtype := dtype
        shape := arr.shape.map Int.ofNat
        byteOffset := offset
        byteLength := arr.data.length
        encoding := .raw }, arr.data)

/-- The response's tensors, its payload and its metadata while they are collected. -/
structure Collected where
  tensors : List Tensor := []
  payload : Bytes := []
  metadata : Dict String String := Dict.empty

/-- `np.asarray(value)` appended as a tensor; the offset is the length of the payload so far. -/
def appendArray (np : Numpy Obj) (key : String) (value : Obj) (c : Collected) :
    Except PyError Collected :=
  match np.asarray value with
  | .error e => .error e
  | .ok arr =>
      match ndarrayToTensor key arr c.payload.length with
      | .error e => .error e
      | .ok (tensor, data) =>
          .ok { c with tensors := c.tensors ++ [tensor], payload := c.payload ++ data }

def appendItems (pb : Protobuf ν) (np : Numpy Obj) :
    List (Option String × (String ⊕ Obj)) → Collected → Except PyError Collected
  | [], c => .ok c
  -- protobuf refuses a key that is not a string, whatever its value is
  | (none, .inl _) :: _, _ => .error (.typeError pb.keyError)
  | (none, .inr value) :: _, _ =>
      match np.asarray value with
      | .error e => .error e
      | .ok _ => .error (.typeError pb.keyError)
  | (some key, .inl text) :: items, c =>
      appendItems pb np items { c with metadata := c.metadata.set key text }
  | (some key, .inr value) :: items, c =>
      match appendArray np key value c with
      | .error e => .error e
      | .ok c' => appendItems pb np items c'

def collect (pb : Protobuf ν) (np : Numpy Obj) : RawResult Obj → Except PyError Collected
  | .dict items => appendItems pb np items {}
  | .other value => appendArray np "actions" value {}

/-- `_build_result` -/
def buildResult (pb : Protobuf ν) (np : Numpy Obj) (stamp : CallStamp) (req : InferenceRequest ν)
    (rawResult : RawResult Obj) : Except PyError DispatchResult :=
  match collect pb np rawResult with
  | .error e => .error e
  | .ok c =>
      .ok {
        clientId := req.clientId
        responseId := stamp.responseId
        identity := req.identity
        envelope := pb.serializeResponse {
          client := req.clientId
          responseId := stamp.responseId
          timestampNs := stamp.timestampNs
          tensors := c.tensors
          inferenceLatencyMs := stamp.latencyMs
          modelId := req.modelId
          metadata := c.metadata }
        payload := c.payload
        latencyMs := stamp.latencyMs
        success := true
        reqId := req.objId }

/-- `_error_result` -/
def errorResult (stamp : CallStamp) (req : InferenceRequest ν) (latencyMs : Rat) (error : String) :
    DispatchResult where
  clientId := req.clientId
  responseId := stamp.responseId
  identity := req.identity
  envelope := []
  payload := []
  latencyMs := latencyMs
  success := false
  reqId := req.objId
  error := some error

/-- The `try` of both dispatchers around a call of a model: whatever is raised, by the model or by
building its result, becomes an error result. -/
def callResult (pb : Protobuf ν) (np : Numpy Obj) (stamp : CallStamp) (req : InferenceRequest ν)
    (result : Except PyError (RawResult Obj)) : DispatchResult :=
  match result with
  | .error e => errorResult stamp req stamp.errorLatencyMs e.message
  | .ok rawResult =>
      match buildResult pb np stamp req rawResult with
      | .error e => errorResult stamp req stamp.errorLatencyMs e.message
      | .ok built => built

/-- `by_model`: the requests of each model, in the order of first appearance. -/
def byModel (requests : List (InferenceRequest ν)) : Dict String (List (InferenceRequest ν)) :=
  requests.foldl (fun d req => d.set req.modelId (d.listAt req.modelId ++ [req])) Dict.empty

/-! ## When reconstruction succeeds -/

/-- The bytes of the tensor are a whole number of elements of its dtype, and as many as its shape
holds. -/
def Consistent (infers : Int → Bool) (payload : Bytes) (tensor : Tensor) : Prop :=
  ∃ npDtype, dtypeToNumpy tensor.dtype = .ok npDtype ∧
    npDtype.itemsize ∣ (tensorBytes payload tensor).length ∧
    ShapeFits infers tensor.shape ((tensorBytes payload tensor).length / npDtype.itemsize)

theorem loadTensor_ok_iff {np : Numpy Obj} (hnp : np.Documented) {payload : Bytes}
    {tensor : Tensor} :
    (∃ array, loadTensor np payload tensor = .ok array) ↔
      Consistent np.infers payload tensor := by
  unfold loadTensor Consistent
  cases hdtype : dtypeToNumpy tensor.dtype with
  | error e => simp
  | ok npDtype =>
      simp only [Except.ok.injEq, exists_eq_left']
      by_cases hdvd : npDtype.itemsize ∣ (tensorBytes payload tensor).length
      -- the buffer is read; what is left is whether it can be reshaped
      · simp only [hnp.frombuffer_ok (itemsize_pos hdtype) hdvd, hdvd, true_and]
        by_cases hfits :
            ShapeFits np.infers tensor.shape
              ((tensorBytes payload tensor).length / npDtype.itemsize)
        · have hok := hnp.reshape_ok
            ⟨npDtype, [(tensorBytes payload tensor).length / npDtype.itemsize],
              tensorBytes payload tensor⟩ tensor.shape (by simpa [NdArray.size] using hfits)
          simp [hok, hfits]
        · obtain ⟨e, he⟩ := hnp.reshape_raises
            ⟨npDtype, [(tensorBytes payload tensor).length / npDtype.itemsize],
              tensorBytes payload tensor⟩ tensor.shape (by simpa [NdArray.size] using hfits)
          simp [he, hfits]
      · obtain ⟨e, he⟩ := hnp.frombuffer_raises hdvd
        simp [he, hdvd]

theorem loadTensors_ok_iff {np : Numpy Obj} (hnp : np.Documented) {payload : Bytes}
    {tensors : List Tensor} (result : Dict String ObsValue) :
    (∃ result', loadTensors np payload tensors result = .ok result') ↔
      ∀ tensor ∈ tensors, Consistent np.infers payload tensor := by
  -- the tensors already loaded are arbitrary, since each turn adds one
  induction tensors generalizing result with
  | nil => simp [loadTensors]
  | cons tensor tensors ih =>
      unfold loadTensors
      rw [List.forall_mem_cons, ← loadTensor_ok_iff hnp]
      cases hload : loadTensor np payload tensor with
      | error e => simp
      | ok array => simpa using ih (result.set tensor.key (.array array))

/-- A request can be reconstructed exactly when its envelope parses and its tensors are
consistent. -/
theorem reconstructNumpy_ok_iff {pb : Protobuf ν} {np : Numpy Obj} (hnp : np.Documented)
    {req : InferenceRequest ν} :
    (∃ result, reconstructNumpy pb np req = .ok result) ↔
      ∃ obs, pb.parseObservation req.envelope = .ok obs ∧
        ∀ tensor ∈ obs.tensors, Consistent np.infers req.payload tensor := by
  unfold reconstructNumpy
  cases hparse : pb.parseObservation req.envelope with
  | error e => simp
  | ok obs =>
      simp only [Except.ok.injEq, exists_eq_left', ← loadTensors_ok_iff hnp Dict.empty]
      cases hload : loadTensors np req.payload obs.tensors Dict.empty with
      | error e => simp
      | ok result => simp

end Inferential
