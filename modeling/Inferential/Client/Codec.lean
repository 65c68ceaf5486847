import Inferential.Dispatch.Base
import Inferential.Proto.Wire

/-!
# Codec — what the Python client sends and how it reads an answer

`_build_observation`, `_parse_response` and the `observe` of both clients.  `Py` are the Python
objects that a caller passes.
-/

namespace Inferential

open PyStd

namespace Client

variable {ν Py Obj : Type}

/-- The generated code as the client uses it: `SerializeToString`, `ParseFromString` with the text
of its `DecodeError`, and the setters of a `float` and of a `uint32` field, which refuse some of the
values that they are given. -/
structure ClientProtobuf (ν Py : Type) where
  serializeObservation : Observation ν → Bytes
  parseResponse : Bytes → Except String ModelResponse
  setFloat : Py → Except PyError ν
  setUint32 : Py → Except PyError Nat

/-- The generated code for a list of responses; numbers are set exactly, as small integers are. -/
def ClientProtobuf.ofMessages (responses : List ModelResponse) : ClientProtobuf Rat Rat where
  serializeObservation := Wire.observation
  parseResponse := parseAmong responses
  setFloat x := .ok x
  setUint32 x :=
    if x.den = 1 ∧ 0 ≤ x.num ∧ x.num < 2 ^ 32 then .ok x.num.toNat
    else .error (.valueError s!"Value out of range: {x}")

/-! ## Sending -/

/-- The value of a keyword argument, by its type. -/
inductive Argument (Py : Type)
  | array (a : NdArray)
  | text (s : String)
  /-- neither an `np.ndarray` nor a `str` -/
  | other (value : Py)

/-- One turn of the loop over the keyword arguments. -/
def appendArgument (timestampNs : Nat) (key : String) :
    Argument Py → Collected → Except PyError Collected
  | .array value, c =>
      match dtypeFromNumpy value.dtype with
      | .error e => .error e
      | .ok dtype =>
          .ok { c with
            tensors := c.tensors ++ [{
              key := key
              dtype := dtype
              shape := value.shape.map Int.ofNat
              byteOffset := c.payload.length
              byteLength := value.data.length
              timestampNs := timestampNs
              encoding := .raw }]
            payload := c.payload ++ value.data }
  | .text value, c => .ok { c with metadata := c.metadata.set key value }
  -- there is no third branch
  | .other _, c => .ok c

def appendArguments (timestampNs : Nat) :
    List (String × Argument Py) → Collected → Except PyError Collected
  | [], c => .ok c
  | (key, value) :: kwargs, c =>
      match appendArgument timestampNs key value c with
      | .error e => .error e
      | .ok c' => appendArguments timestampNs kwargs c'

/-- The arguments of `_build_observation`, with its reading of the clock. -/
structure Outgoing (Py : Type) where
  clientId : String
  modelId : String
  timestampNs : Nat
  urgency : Py
  stepsRemaining : Option Py
  priority : Py
  kwargs : Dict String (Argument Py)

/-- The message that `_build_observation` fills in, and the payload. -/
def observationMessage (cpb : ClientProtobuf ν Py) (o : Outgoing Py) :
    Except PyError (Observation ν × Bytes) :=
  match cpb.setFloat o.urgency with
  | .error e => .error e
  | .ok urgency =>
      match cpb.setUint32 o.priority with
      | .error e => .error e
      | .ok priority =>
          match o.stepsRemaining.mapM cpb.setUint32 with
          | .error e => .error e
          | .ok stepsRemaining =>
              match appendArguments o.timestampNs o.kwargs.items {} with
              | .error e => .error e
              | .ok c =>
                  .ok ({
                    client := some o.clientId
                    timestampNs := o.timestampNs
                    urgency := urgency
                    tensors := c.tensors
                    modelId := o.modelId
                    stepsRemaining := stepsRemaining
                    metadata := c.metadata
                    priority := priority }, c.payload)

/-- `_build_observation` -/
def buildObservation (cpb : ClientProtobuf ν Py) (o : Outgoing Py) :
    Except PyError (Bytes × Bytes) :=
  (observationMessage cpb o).map fun message => (cpb.serializeObservation message.1, message.2)

/-- A model handle, with the id of its connection. -/
structure Handle (Py : Type) where
  clientId : String
  modelId : String
  priority : Py

/-- The parameters of `observe` and of `_build_observation`, which cannot be the name of a further
keyword argument. -/
def parameters : List String :=
  ["self", "urgency", "steps_remaining", "priority", "client_id", "client_type", "model_id"]

/-- The keyword arguments that a call is refused for. -/
def refused (kwargs : Dict String (Argument Py)) : Option String :=
  kwargs.keys.find? fun key => key ∈ parameters

/-- What `observe` hands to `_build_observation`. -/
def Handle.outgoing (handle : Handle Py) (timestampNs : Nat) (urgency : Py)
    (stepsRemaining priority : Option Py) (kwargs : Dict String (Argument Py)) : Outgoing Py where
  clientId := handle.clientId
  modelId := handle.modelId
  timestampNs := timestampNs
  urgency := urgency
  stepsRemaining := stepsRemaining
  priority := priority.getD handle.priority
  kwargs := kwargs

/-- `observe` of both clients, up to the sending. -/
def Handle.observe (cpb : ClientProtobuf ν Py) (handle : Handle Py) (timestampNs : Nat)
    (urgency : Py) (stepsRemaining priority : Option Py) (kwargs : Dict String (Argument Py)) :
    Except PyError (Bytes × Bytes) :=
  match refused kwargs with
  | some key => .error (.typeError s!"got multiple values for argument '{key}'")
  | none =>
      buildObservation cpb
        (handle.outgoing timestampNs urgency stepsRemaining priority kwargs)

/-! ## Receiving -/

inductive OutputValue
  | text (s : String)
  | number (x : Rat)
  | array (a : NdArray)
  deriving DecidableEq

/-- `tensor.byte_length > 0 and tensor.dtype` -/
def HasData (tensor : Tensor) : Prop := 0 < tensor.byteLength ∧ tensor.dtype.number ≠ 0

instance (tensor : Tensor) : Decidable (HasData tensor) := inferInstanceAs (Decidable (_ ∧ _))

/-- The loop over the tensors of a response. -/
def parseTensors (np : Numpy Obj) (payload : Bytes) :
    List Tensor → Dict String OutputValue → Except PyError (Dict String OutputValue)
  | [], output => .ok output
  | tensor :: tensors, output =>
      if HasData tensor then
        match loadTensor np payload tensor with
        | .error e => .error e
        | .ok array => parseTensors np payload tensors (output.set tensor.key (.array array))
      else parseTensors np payload tensors output

/-- The entries that every output starts with. -/
def fixedFields (resp : ModelResponse) : Dict String OutputValue :=
  ((Dict.empty.set "response_id" (.text resp.responseId)).set "model_id" (.text resp.modelId)).set
    "inference_latency_ms" (.number resp.inferenceLatencyMs)

/-- `_parse_response` -/
def parseResponse (cpb : ClientProtobuf ν Py) (np : Numpy Obj) (envelope payload : Bytes) :
    Except PyError (Dict String OutputValue) :=
  match cpb.parseResponse envelope with
  | .error e => .error (.foreign e)
  | .ok resp =>
      match parseTensors np payload resp.tensors (fixedFields resp) with
      | .error e => .error e
      | .ok output =>
          .ok (resp.metadata.items.foldl (fun output kv => output.set kv.1 (.text kv.2)) output)

end Client
end Inferential
