import Inferential.Machine.Guarded
import Inferential.Proto.Wire

/-!
# Native — how the Rust and C++ clients receive

`Connection::recv` and `Model::get_result` of the synchronous Rust client and of the C++ client,
which agree.  A call takes the first message of the socket and looks at no model, so that a handle
gets its own responses as long as they are the ones that come first.
-/

namespace Inferential

open PyStd

namespace Client
namespace Native

/-! ## One response -/

structure TensorData where
  key : String
  data : Bytes
  shape : List Int
  dtype : DType
  deriving DecidableEq

/-- The strings of a response are stored as their UTF-8 bytes. -/
def TensorData.ofString (key value : String) : TensorData where
  key := key
  data := value.toUTF8.data.toList
  shape := []
  dtype := .unspecified

/-- `start + len` overflows.  The wrapped sum is out of range unless it fails the comparison with
the length of the payload; a Rust build with overflow checks panics before that. -/
def Overflows (checked : Bool) (payload : Bytes) (tensor : Tensor) : Prop :=
  2 ^ 64 ≤ tensor.byteOffset + tensor.byteLength ∧
    (checked = true ∨ (tensor.byteOffset + tensor.byteLength) % 2 ^ 64 ≤ payload.length)

instance (checked : Bool) (payload : Bytes) (tensor : Tensor) :
    Decidable (Overflows checked payload tensor) :=
  inferInstanceAs (Decidable (_ ∧ _))

/-- Only these tensors are read. -/
def Present (tensor : Tensor) : Prop := 0 < tensor.byteLength ∧ tensor.dtype ≠ .unspecified

instance (tensor : Tensor) : Decidable (Present tensor) := inferInstanceAs (Decidable (_ ∧ _))

def sliceOf (payload : Bytes) (tensor : Tensor) : Bytes :=
  if (tensor.byteOffset + tensor.byteLength) % 2 ^ 64 ≤ payload.length then
    (payload.drop tensor.byteOffset).take tensor.byteLength
  else []

/-- What is read of a tensor; `none` when the call does not get through. -/
def readOf (checked : Bool) (payload : Bytes) (tensor : Tensor) : Option Bytes :=
  if Overflows checked payload tensor then none else some (sliceOf payload tensor)

/-- The loop over the tensors. -/
def insertRead (read : Tensor → Option Bytes) :
    List Tensor → Dict String TensorData → Option (Dict String TensorData)
  | [], output => some output
  | tensor :: tensors, output =>
      if Present tensor then
        match read tensor with
        | none => none
        | some data =>
            insertRead read tensors (output.set tensor.key
              { key := tensor.key, data := data, shape := tensor.shape, dtype := tensor.dtype })
      else insertRead read tensors output

/-- `get_result` after the decoding. -/
def getResultWith (read : Tensor → Option Bytes) (resp : ModelResponse) :
    Option (Dict String TensorData) :=
  let fixed := (Dict.empty.set "response_id" (.ofString "response_id" resp.responseId)).set
    "model_id" (.ofString "model_id" resp.modelId)
  (insertRead read resp.tensors fixed).map fun output =>
    resp.metadata.items.foldl (fun output kv => output.set kv.1 (.ofString kv.1 kv.2)) output

/-- The map that `get_result` returns for a response. -/
def outputOf (checked : Bool) (resp : ModelResponse) (payload : Bytes) :
    Option (Dict String TensorData) :=
  getResultWith (readOf checked payload) resp

/-- `recv` and `decode`: the empty frame, the envelope and the payload; a message with fewer frames
or another envelope is dropped. -/
def readResponse (parse : Bytes → Except String ModelResponse) :
    List Bytes → Option (ModelResponse × Bytes)
  | _ :: envelope :: payload :: _ => (parse envelope).toOption.map fun resp => (resp, payload)
  | _ => none

/-! ## The connection -/

inductive Result
  | none
  | response (resp : ModelResponse) (output : Dict String TensorData)
  /-- a panic in Rust, a read out of range in C++ -/
  | fault

/-- A finished call of `get_result`. -/
structure Call where
  modelId : String
  /-- The models that had a handle. -/
  handles : List String
  /-- The message that was taken from the socket. -/
  taken : Option (List Bytes)
  result : Result

structure Connection where
  socket : List (List Bytes) := []
  /-- The model of each handle that was created. -/
  handles : List String := []
  calls : List Call := []

inductive Action
  | arrive (frames : List Bytes)
  | model (modelId : String)
  /-- The handle's call of `get_result`, when it ends. -/
  | getResult (handle : Nat)

def resultOf (parse : Bytes → Except String ModelResponse) (checked : Bool) (frames : List Bytes) :
    Result :=
  match readResponse parse frames with
  | none => .none
  | some (resp, payload) =>
      match outputOf checked resp payload with
      | none => .fault
      | some output => .response resp output

namespace Connection

def finish (modelId : String) (taken : Option (List Bytes)) (result : Result) (c : Connection) :
    Connection :=
  { c with calls := c.calls ++
      [{ modelId := modelId, handles := c.handles, taken := taken, result := result }] }

/-- `get_result`; `self.model_id` is not used. -/
def getResult (parse : Bytes → Except String ModelResponse) (checked : Bool) (modelId : String)
    (c : Connection) : Connection :=
  match c.socket with
  -- the timeout has run out
  | [] => c.finish modelId none .none
  | frames :: rest =>
      { c with socket := rest }.finish modelId (some frames) (resultOf parse checked frames)

def step (parse : Bytes → Except String ModelResponse) (checked : Bool) (c : Connection) :
    Action → Connection
  | .arrive frames => { c with socket := c.socket ++ [frames] }
  | .model modelId => { c with handles := c.handles ++ [modelId] }
  | .getResult handle =>
      match c.handles[handle]? with
      | none => c
      | some modelId => c.getResult parse checked modelId

end Connection

/-! ## Own responses -/

variable (parse : Bytes → Except String ModelResponse) (checked : Bool)

/-- The call has returned no response of another model, and has taken none from a handle. -/
structure Call.Own (call : Call) : Prop where
  returned : ∀ resp output, call.result = .response resp output → resp.modelId = call.modelId
  taken : ∀ frames resp payload, call.taken = some frames →
    readResponse parse frames = some (resp, payload) → resp.modelId ≠ call.modelId →
      resp.modelId ∉ call.handles

/-- A response can be taken by a handle: it is the handle's own, or it is returned to nobody and
belongs to no handle. -/
def Takes (modelId : String) (handles : List String) (frames : List Bytes) : Prop :=
  ∀ resp payload, readResponse parse frames = some (resp, payload) →
    resp.modelId = modelId ∨ resp.modelId ∉ handles ∧
      ∃ tensor ∈ resp.tensors, Present tensor ∧ Overflows checked payload tensor

/-- Whenever a call of a handle ends and a message waits, the first one can be taken by it. -/
def OwnFirst (c : Connection) : Action → Prop
  | .getResult handle => ∀ modelId frames, c.handles[handle]? = some modelId →
      c.socket.head? = some frames → Takes parse checked modelId c.handles frames
  | _ => True

variable {parse checked}

/-- The loop gets through when every tensor that is present is read. -/
theorem insertRead_isSome_iff {read : Tensor → Option Bytes} {tensors : List Tensor}
    (output : Dict String TensorData) :
    (insertRead read tensors output).isSome ↔
      ∀ tensor ∈ tensors, Present tensor → (read tensor).isSome := by
  induction tensors generalizing output with
  | nil => simp [insertRead]
  | cons tensor tensors ih =>
      rw [List.forall_mem_cons]
      by_cases hpresent : Present tensor
      · cases hread : read tensor with
        | none => simp [insertRead, hpresent, hread]
        | some data => simp [insertRead, hpresent, hread, ih]
      · simp [insertRead, hpresent, ih]

/-- Only an overflow keeps the tensors from being read. -/
theorem outputOf_eq_none_iff {resp : ModelResponse} {payload : Bytes} :
    outputOf checked resp payload = none ↔
      ∃ tensor ∈ resp.tensors, Present tensor ∧ Overflows checked payload tensor := by
  have hread : ∀ tensor, (readOf checked payload tensor).isSome ↔
      ¬ Overflows checked payload tensor := by
    intro tensor
    unfold readOf
    split <;> simp_all
  rw [← Option.not_isSome_iff_eq_none, outputOf, getResultWith, Option.isSome_map,
    insertRead_isSome_iff]
  simp [hread]

/-- A call that takes a message is in order exactly when the message can be taken. -/
theorem own_iff_takes {modelId : String} {handles : List String} {frames : List Bytes} :
    Call.Own parse
        { modelId := modelId, handles := handles, taken := some frames,
          result := resultOf parse checked frames } ↔
      Takes parse checked modelId handles frames := by
  constructor
  · intro hown resp payload hread
    by_cases hmodel : resp.modelId = modelId
    · exact .inl hmodel
    · refine .inr ⟨hown.taken frames resp payload rfl hread hmodel, ?_⟩
      apply outputOf_eq_none_iff.mp
      cases houtput : outputOf checked resp payload with
      | none => rfl
      | some output =>
          have hresult : resultOf parse checked frames = .response resp output := by
            simp [resultOf, hread, houtput]
          exact absurd (hown.returned resp output hresult) hmodel
  · intro htakes
    constructor
    · intro resp output hresult
      cases hread : readResponse parse frames with
      | none => simp [resultOf, hread] at hresult
      | some read =>
          cases houtput : outputOf checked read.1 read.2 with
          | none => simp [resultOf, hread, houtput] at hresult
          | some output' =>
              have hsame : read.1 = resp := by
                simp only [resultOf, hread, houtput, Result.response.injEq] at hresult
                exact hresult.1
              rw [← hsame]
              rcases htakes read.1 read.2 hread with hmodel | hfault
              · exact hmodel
              · simp [outputOf_eq_none_iff.mpr hfault.2] at houtput
    · intro frames' resp payload htaken hread hmodel
      rcases Option.some.inj htaken with rfl
      rcases htakes resp payload hread with hown | hother
      · exact absurd hown hmodel
      · exact hother.1

/-- A call that takes no message is in order. -/
theorem own_of_timeout {modelId : String} {handles : List String} :
    Call.Own parse
      { modelId := modelId, handles := handles, taken := none, result := .none } where
  returned := by simp
  taken := by simp

theorem own_finish_iff {c : Connection} {modelId : String} {taken : Option (List Bytes)}
    {result : Result} :
    (∀ call ∈ (c.finish modelId taken result).calls, call.Own parse) ↔
      (∀ call ∈ c.calls, call.Own parse) ∧
        Call.Own parse
          { modelId := modelId, handles := c.handles, taken := taken, result := result } := by
  simp [Connection.finish, or_imp, forall_and]

/-- One step: the calls stay in order exactly when the next call gets its own message. -/
theorem step_own_iff {c : Connection} (a : Action) (hown : ∀ call ∈ c.calls, call.Own parse) :
    (∀ call ∈ (c.step parse checked a).calls, call.Own parse) ↔ OwnFirst parse checked c a := by
  cases a with
  | arrive frames => exact iff_of_true hown trivial
  | model modelId => exact iff_of_true hown trivial
  | getResult handle =>
      cases hhandle : c.handles[handle]? with
      | none => simpa [Connection.step, OwnFirst, hhandle] using hown
      | some modelId =>
          cases hsocket : c.socket with
          | nil =>
              simp only [Connection.step, Connection.getResult, hhandle, hsocket, OwnFirst]
              exact iff_of_true (own_finish_iff.mpr ⟨hown, own_of_timeout⟩) (by simp)
          | cons frames rest =>
              simp only [Connection.step, Connection.getResult, hhandle, hsocket, own_finish_iff,
                own_iff_takes, OwnFirst]
              simpa using fun _ => hown

/-- In a run of a connection, every call of every handle returns only responses of its model, and
takes none of another handle's, exactly as long as the first message is the caller's own whenever a
call ends. -/
theorem own_responses_iff (parse : Bytes → Except String ModelResponse) (checked : Bool)
    (actions : List Action) :
    Machine.Throughout (Connection.step parse checked)
        (fun c => ∀ call ∈ c.calls, call.Own parse) {} actions ↔
      Machine.Along (Connection.step parse checked) (OwnFirst parse checked) {} actions := by
  have hguards : Machine.Guards (Connection.step parse checked)
      (fun c => ∀ call ∈ c.calls, call.Own parse) (OwnFirst parse checked)
      (fun c a => ∀ call ∈ (c.step parse checked a).calls, call.Own parse) :=
    { keeps := fun hown hfirst => (step_own_iff _ hown).mpr hfirst
      holds := fun hown hfirst => (step_own_iff _ hown).mpr hfirst
      needs := fun hown hlaw => (step_own_iff _ hown).mp hlaw }
  have hstart : ∀ call ∈ (Connection.calls {}), call.Own parse := by simp
  exact hguards.throughout_iff hstart hstart

/-! ### Two handles -/

/-- The message of a response without tensors. -/
def plainMessage (resp : ModelResponse) : List Bytes := [[], Wire.modelResponse resp, []]

/-- The telemetry is answered before the policy, and the policy's handle asks first. -/
def policyAsksFirst : List Action :=
  [.model "policy", .model "telemetry",
    .arrive (plainMessage (plainResponse "telemetry" "2")), .getResult 0]

/-- What the policy's handle is given. -/
def telemetryCall : Call where
  modelId := "policy"
  handles := ["policy", "telemetry"]
  taken := some (plainMessage (plainResponse "telemetry" "2"))
  result := .response (plainResponse "telemetry" "2")
    ((Dict.empty.set "response_id" (.ofString "response_id" "2")).set
      "model_id" (.ofString "model_id" "telemetry"))

/-- The handle of the policy returns the response of the telemetry, which has a handle too, and the
socket is empty then. -/
theorem policy_gets_telemetry :
    let parse := parseAmong [plainResponse "telemetry" "2"]
    let c := policyAsksFirst.foldl (Connection.step parse false) {}
    c.calls = [telemetryCall] ∧ c.socket = [] ∧
      ¬ Machine.Throughout (Connection.step parse false)
        (fun c => ∀ call ∈ c.calls, call.Own parse) {} policyAsksFirst := by
  intro parse c
  have hcalls : c.calls = [telemetryCall] := rfl
  refine ⟨hcalls, rfl, ?_⟩
  rintro ⟨-, -, -, -, hlast⟩
  have hmem : telemetryCall ∈ c.calls := by
    rw [hcalls]
    exact List.mem_singleton_self telemetryCall
  have hown : telemetryCall.Own parse := hlast telemetryCall hmem
  have hmodel : "telemetry" = "policy" := hown.returned _ _ rfl
  exact absurd hmodel (by decide)

end Native
end Client
end Inferential
