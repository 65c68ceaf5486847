import Inferential.Proto

/-!
# Wire — the proto3 encoding of the messages

A computable instance of `Protobuf` that knows a list of messages.  It covers messages whose `float`
fields have the default value zero, which is not written.
-/

namespace Inferential

open PyStd

namespace Wire

/-- Base 128, low bytes first; ten bytes hold 64 bits. -/
def varintAux : Nat → Nat → Bytes
  | 0, _ => []
  | fuel + 1, n =>
      -- every byte but the last has its high bit set
      if n < 128 then [UInt8.ofNat n] else UInt8.ofNat (n % 128 + 128) :: varintAux fuel (n / 128)

def varint (n : Nat) : Bytes := varintAux 10 n

/-- Negative integers are written in two's complement. -/
def int64 (n : Int) : Bytes := varint (n % 2 ^ 64).toNat

def tag (number wireType : Nat) : Bytes := varint (8 * number + wireType)

/-- A singular integer field; the default is left out. -/
def varintField (number n : Nat) : Bytes :=
  if n = 0 then [] else tag number 0 ++ varint n

def enumField (number : Nat) (value : Int) : Bytes :=
  if value = 0 then [] else tag number 0 ++ int64 value

def message (number : Nat) (content : Bytes) : Bytes :=
  tag number 2 ++ varint content.length ++ content

def text (s : String) : Bytes := s.toUTF8.data.toList

def stringField (number : Nat) (s : String) : Bytes :=
  if s = "" then [] else message number (text s)

def tensor (t : Tensor) : Bytes :=
  stringField 1 t.key ++ enumField 2 t.dtype.number ++
    -- a packed repeated field, left out when it is empty
    (if t.shape = [] then [] else message 3 (t.shape.flatMap int64)) ++
    varintField 4 t.byteOffset ++ varintField 5 t.byteLength ++ varintField 6 t.timestampNs ++
    enumField 7 t.encoding.number

/-- Entries of a map are messages with a key and a value. -/
def metadata (number : Nat) (d : Dict String String) : Bytes :=
  d.items.flatMap fun kv => message number (message 1 (text kv.1) ++ message 2 (text kv.2))

def client (number : Nat) (clientId : String) : Bytes := message number (stringField 1 clientId)

def observation (obs : Observation Rat) : Bytes :=
  ((obs.client.map (client 1)).getD []) ++ varintField 2 obs.timestampNs ++
    obs.tensors.flatMap (fun t => message 4 (tensor t)) ++ stringField 5 obs.modelId ++
    -- an optional field is written even if it is zero
    ((obs.stepsRemaining.map fun n => tag 6 0 ++ varint n).getD []) ++ metadata 7 obs.metadata ++
    varintField 8 obs.priority

def modelResponse (resp : ModelResponse) : Bytes :=
  client 1 resp.client ++ stringField 2 resp.responseId ++
    varintField 3 resp.timestampNs.toNat ++ resp.tensors.flatMap (fun t => message 4 (tensor t)) ++
    stringField 6 resp.modelId ++ metadata 7 resp.metadata

end Wire

def Protobuf.ofMessages (messages : List (Observation Rat)) : Protobuf Rat where
  parseObservation envelope :=
    match messages.find? fun obs => Wire.observation obs = envelope with
    | some obs => .ok obs
    | none => .error "Error parsing message"
  serializeResponse := Wire.modelResponse
  keyError := "bad argument type for built-in operation"

/-- `ParseFromString` for a list of responses. -/
def parseAmong (responses : List ModelResponse) (envelope : Bytes) : Except String ModelResponse :=
  match responses.find? fun resp => Wire.modelResponse resp = envelope with
  | some resp => .ok resp
  | none => .error "Error parsing message"

/-- An answer of a model to the robot, without tensors. -/
def plainResponse (modelId responseId : String) : ModelResponse where
  client := "robot-01"
  responseId := responseId
  timestampNs := 0
  tensors := []
  inferenceLatencyMs := 0
  modelId := modelId
  metadata := Dict.empty

/-- A robot asks for a policy, without tensors. -/
def plainObservation : Observation Rat where
  client := some "robot-01"
  timestampNs := 0
  urgency := 0
  tensors := []
  modelId := "policy"
  stepsRemaining := none
  metadata := Dict.empty
  priority := 1

def plainMessages : Protobuf Rat := .ofMessages [plainObservation]

/-- The same with one tensor. -/
def policyObservation (tensor : Tensor) : Observation Rat :=
  { plainObservation with tensors := [tensor] }

example : Wire.observation (policyObservation ⟨"q", .uint8, [-1], 0, 3, 0, .raw⟩) =
    [10, 10, 10, 8, 114, 111, 98, 111, 116, 45, 48, 49, 34, 21, 10, 1, 113, 16, 5, 26, 10, 255, 255,
      255, 255, 255, 255, 255, 255, 255, 1, 40, 3, 56, 1, 42, 6, 112, 111, 108, 105, 99, 121, 64, 1]
    := by decide

end Inferential
