import Inferential.Dispatch.Base
import Inferential.Proto.Wire

/-!
# Admission — what the server admits and what the dispatcher can process

`decode` bounds the byte range of every tensor by the payload.  Reading the tensor as an array needs
more: its length must be a whole number of elements, and the elements must fit its shape.
-/

namespace Inferential

variable {ν Obj : Type}

/-- The declared byte length of the tensor is a multiple of the element size of its dtype, and its
shape holds that many elements. -/
def DeclaredConsistent (infers : Int → Bool) (tensor : Tensor) : Prop :=
  ∀ npDtype, dtypeToNumpy tensor.dtype = .ok npDtype →
    npDtype.itemsize ∣ tensor.byteLength ∧
      ShapeFits infers tensor.shape (tensor.byteLength / npDtype.itemsize)

theorem tensorBytes_length {payload : Bytes} {tensor : Tensor}
    (h : tensor.byteOffset + tensor.byteLength ≤ payload.length) :
    (tensorBytes payload tensor).length = tensor.byteLength := by
  simp only [tensorBytes, List.length_take, List.length_drop]
  omega

/-- Inside the payload the slice has the declared length. -/
theorem consistent_iff_declared {infers : Int → Bool} {payload : Bytes} {tensor : Tensor}
    (hrange : tensor.byteOffset + tensor.byteLength ≤ payload.length)
    (hdtype : ∃ npDtype, dtypeToNumpy tensor.dtype = .ok npDtype) :
    Consistent infers payload tensor ↔ DeclaredConsistent infers tensor := by
  obtain ⟨npDtype, hnpDtype⟩ := hdtype
  simp [Consistent, DeclaredConsistent, hnpDtype, tensorBytes_length hrange]

/-- Of the observations that `decode` accepts, exactly those with consistent tensors can be
reconstructed from the request that carries them. -/
theorem admitted_processable_iff {np : Numpy Obj} (hnp : np.Documented) (pb : Protobuf ν)
    (nowNs : Int) (envelope payload : Bytes) (receivedAt : Rat) (decoded : DecodedObservation ν)
    (hdecode : decode pb nowNs envelope payload receivedAt = .ok decoded)
    (req : InferenceRequest ν) (henvelope : req.envelope = envelope)
    (hpayload : req.payload = payload) :
    (∃ obs, reconstructNumpy pb np req = .ok obs) ↔
      ∀ obs, pb.parseObservation envelope = .ok obs →
        ∀ tensor ∈ obs.tensors, DeclaredConsistent np.infers tensor := by
  obtain ⟨obs, hparse, hvalid⟩ := decode_ok hdecode
  have htensors : ∀ tensor ∈ obs.tensors,
      (Consistent np.infers payload tensor ↔ DeclaredConsistent np.infers tensor) := by
    intro tensor htensor
    obtain ⟨hrange, -, hdtype⟩ := hvalid tensor htensor
    exact consistent_iff_declared hrange hdtype
  rw [reconstructNumpy_ok_iff hnp, henvelope, hpayload, hparse]
  simp only [Except.ok.injEq, exists_eq_left', forall_eq']
  exact forall₂_congr htensors

/-! ## Two messages -/

/-- Two float32 in a shape of `(-1, 2)`. -/
def twoFloats : Tensor where
  key := "state"
  dtype := .float32
  shape := [-1, 2]
  byteOffset := 0
  byteLength := 8

/-- Three bytes that claim to be float32. -/
def threeBytes : Tensor where
  key := "state"
  dtype := .float32
  shape := []
  byteOffset := 0
  byteLength := 3

theorem admitted_processable_twoFloats :
    let pb := Protobuf.ofMessages [policyObservation twoFloats]
    let envelope := Wire.observation (policyObservation twoFloats)
    let payload : Bytes := [0, 0, 128, 63, 0, 0, 0, 64]
    let req :=
      { plainRequest "robot-01" "policy" 0 0 with envelope := envelope, payload := payload }
    (∃ obs, reconstructNumpy pb Numpy.reference req = .ok obs) ↔
      ∀ obs, pb.parseObservation envelope = .ok obs →
        ∀ tensor ∈ obs.tensors, DeclaredConsistent Numpy.reference.infers tensor := by
  intro pb envelope payload req
  have hdecode : ∃ decoded, decode pb 0 envelope payload 0 = .ok decoded := ⟨_, rfl⟩
  obtain ⟨decoded, hdecoded⟩ := hdecode
  exact admitted_processable_iff Numpy.reference_documented pb 0 envelope payload 0 decoded hdecoded
    req rfl rfl

/-- A message that `decode` accepts and from which no array can be made. -/
theorem admitted_threeBytes_raises :
    let pb := Protobuf.ofMessages [policyObservation threeBytes]
    let envelope := Wire.observation (policyObservation threeBytes)
    let payload : Bytes := [1, 2, 3]
    let req :=
      { plainRequest "robot-01" "policy" 0 0 with envelope := envelope, payload := payload }
    (∃ decoded, decode pb 0 envelope payload 0 = .ok decoded) ∧
      reconstructNumpy pb Numpy.reference req =
        .error (.valueError "buffer size must be a multiple of element size") := by
  intro pb envelope payload req
  exact ⟨⟨_, rfl⟩, rfl⟩

end Inferential
