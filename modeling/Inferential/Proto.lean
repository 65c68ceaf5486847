import Inferential.PyStd.Dict
import Inferential.PyStd.Numpy

/-!
# Proto — the wire messages

The messages of `inferential.proto` and the tables of `proto/__init__.py`.  Enumerations are open, as
in proto3: a message can carry a number that has no name.
-/

namespace Inferential

open PyStd

/-! ## Messages -/

inductive DType
  | unspecified
  | float16
  | float32
  | float64
  | bfloat16
  | uint8
  | int32
  | int64
  | bool
  | unrecognized (value : Int)
  deriving DecidableEq, Repr

inductive Encoding
  | unspecified
  | raw
  | jpeg
  | png
  | unrecognized (value : Int)
  deriving DecidableEq, Repr

def DType.number : DType → Int
  | .unspecified => 0
  | .float16 => 1
  | .float32 => 2
  | .float64 => 3
  | .bfloat16 => 4
  | .uint8 => 5
  | .int32 => 6
  | .int64 => 7
  | .bool => 8
  | .unrecognized value => value

def Encoding.number : Encoding → Int
  | .unspecified => 0
  | .raw => 1
  | .jpeg => 2
  | .png => 3
  | .unrecognized value => value

structure Tensor where
  key : String
  dtype : DType
  shape : List Int
  byteOffset : Nat
  byteLength : Nat
  timestampNs : Nat := 0
  encoding : Encoding := .raw
  deriving DecidableEq, Repr

/-- The `client` field is given by the id of the client, `none` when it is not set. -/
structure Observation (ν : Type) where
  client : Option String
  timestampNs : Nat
  urgency : ν
  tensors : List Tensor
  modelId : String
  stepsRemaining : Option Nat
  metadata : Dict String String
  priority : Nat

structure ModelResponse where
  client : String
  responseId : String
  timestampNs : Int
  tensors : List Tensor
  inferenceLatencyMs : Rat
  modelId : String
  metadata : Dict String String

/-- The generated code: `ParseFromString`, with the text of its `DecodeError`, `SerializeToString`,
and the text of the `TypeError` for a key that is not a string. -/
structure Protobuf (ν : Type) where
  parseObservation : Bytes → Except String (Observation ν)
  serializeResponse : ModelResponse → Bytes
  keyError : String

/-! ## The tables -/

/-- `_DTYPE_TO_NUMPY`; bfloat16 has no numpy equivalent, its raw bytes are preserved. -/
def dtypeToNumpy (dtypeEnum : DType) : Except PyError NpDtype :=
  match dtypeEnum with
  | .float16 => .ok ⟨"float16", "<f2", 2⟩
  | .float32 => .ok ⟨"float32", "<f4", 4⟩
  | .float64 => .ok ⟨"float64", "<f8", 8⟩
  | .bfloat16 => .ok ⟨"uint16", "<u2", 2⟩
  | .uint8 => .ok ⟨"uint8", "|u1", 1⟩
  | .int32 => .ok ⟨"int32", "<i4", 4⟩
  | .int64 => .ok ⟨"int64", "<i8", 8⟩
  | .bool => .ok ⟨"bool", "|b1", 1⟩
  | d => .error (.valueError s!"Unknown DType enum value: {d.number}")

/-- `_NUMPY_TO_DTYPE` -/
def dtypeFromNumpy (npDtype : NpDtype) : Except PyError DType :=
  -- there is no row for uint16, which bfloat16 was read as
  if npDtype.name = "float16" then .ok .float16
  else if npDtype.name = "float32" then .ok .float32
  else if npDtype.name = "float64" then .ok .float64
  else if npDtype.name = "uint8" then .ok .uint8
  else if npDtype.name = "int32" then .ok .int32
  else if npDtype.name = "int64" then .ok .int64
  else if npDtype.name = "bool" then .ok .bool
  else .error (.valueError s!"No DType mapping for numpy dtype: {npDtype.name}")

/-- `_ENCODING_TO_STRING` -/
def encodingToString (encodingEnum : Encoding) : Except PyError String :=
  match encodingEnum with
  | .raw => .ok "raw"
  | .jpeg => .ok "jpeg"
  | .png => .ok "png"
  | e => .error (.valueError s!"Unknown Encoding enum value: {e.number}")

theorem itemsize_pos {dtypeEnum : DType} {npDtype : NpDtype}
    (h : dtypeToNumpy dtypeEnum = .ok npDtype) : 0 < npDtype.itemsize := by
  -- one case for each row of the table, the last two have none
  cases dtypeEnum <;> simp only [dtypeToNumpy, Except.ok.injEq, reduceCtorEq] at h <;>
    subst h <;> decide

end Inferential
