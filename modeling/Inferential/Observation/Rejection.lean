import Inferential.Observation.Assembler
import Inferential.Proto.Wire

/-!
# Rejection — which observations are rejected, and how

`decode` accepts exactly the well-formed observations.  The checks of the assembler itself raise an
`ObservationError`, the two conversions of enumerations a `ValueError`, which the receive loop does
not count as an observation error.
-/

namespace Inferential

variable {ν : Type}

/-! ## Well-formed observations -/

/-- The rows of `_DTYPE_TO_NUMPY`. -/
def KnownDType (d : DType) : Prop :=
  d ∈ [.float16, .float32, .float64, .bfloat16, .uint8, .int32, .int64, .bool]

/-- The rows of `_ENCODING_TO_STRING`, or no encoding. -/
def KnownEncoding (e : Encoding) : Prop := e ∈ [.raw, .jpeg, .png, .unspecified]

instance (d : DType) : Decidable (KnownDType d) := inferInstanceAs (Decidable (_ ∈ _))

instance (e : Encoding) : Decidable (KnownEncoding e) := inferInstanceAs (Decidable (_ ∈ _))

/-- Both enumerations of the tensor have a name. -/
structure Convertible (s : Tensor) : Prop where
  dtype : KnownDType s.dtype
  encoding : KnownEncoding s.encoding

/-- The tensor has bytes, and they are in the payload. -/
structure InRange (payloadSize : Nat) (s : Tensor) : Prop where
  nonempty : 0 < s.byteLength
  inside : s.byteOffset + s.byteLength ≤ payloadSize

/-- `client.id` and `model_id` are non-empty. -/
structure Named (obs : Observation ν) : Prop where
  client : ∃ clientId, obs.client = some clientId ∧ clientId ≠ ""
  model : obs.modelId ≠ ""

/-- The slot is the tensor's. -/
structure SlotOf (s : Tensor) (slot : SlotInfo) : Prop where
  key : slot.key = s.key
  dtype : ∃ native, dtypeToNumpy s.dtype = .ok native ∧ slot.dtype = native.str
  shape : slot.shape = s.shape
  byteOffset : slot.byteOffset = s.byteOffset
  byteLength : slot.byteLength = s.byteLength
  timestampNs : slot.timestampNs = s.timestampNs
  encoding : s.encoding = .unspecified ∧ slot.encoding = "raw" ∨
    encodingToString s.encoding = .ok slot.encoding

/-- An outcome of `decode` is right when observations are accepted exactly if they are well-formed,
with the tensors as slots, and rejected with an `ObservationError`. -/
structure Decides (pb : Protobuf ν) (envelope payload : Bytes)
    (outcome : Except PyError (DecodedObservation ν)) : Prop where
  accepts : (∃ decoded, outcome = .ok decoded) ↔
    ∃ obs, pb.parseObservation envelope = .ok obs ∧ Named obs ∧
      ∀ s ∈ obs.tensors, Convertible s ∧ InRange payload.length s
  slots : ∀ decoded, outcome = .ok decoded → ∀ obs, pb.parseObservation envelope = .ok obs →
    List.Forall₂ SlotOf obs.tensors decoded.slots
  raises : ∀ e, outcome = .error e → ∃ message, e = .observationError message

/-! ## Slots -/

theorem dtypeToNumpy_known (d : DType) :
    (∃ native, dtypeToNumpy d = .ok native ∧ KnownDType d) ∨
      ∃ message, dtypeToNumpy d = .error (.valueError message) ∧ ¬ KnownDType d := by
  cases d <;> simp [dtypeToNumpy, KnownDType]

theorem encodingToString_known (e : Encoding) :
    (∃ text, encodingToString e = .ok text ∧ KnownEncoding e ∧ e ≠ .unspecified) ∨
      ∃ message, encodingToString e = .error (.valueError message) ∧
        (KnownEncoding e → e = .unspecified) := by
  cases e <;> simp [encodingToString, KnownEncoding]

/-- A tensor is converted, or a `ValueError` is raised. -/
theorem slotInfo_cases (s : Tensor) :
    (∃ slot, slotInfo s = .ok slot ∧ Convertible s ∧ SlotOf s slot) ∨
      ∃ message, slotInfo s = .error (.valueError message) ∧ ¬ Convertible s := by
  rcases dtypeToNumpy_known s.dtype with ⟨native, hnative, hdtype⟩ | ⟨message, hmessage, hdtype⟩
  · by_cases hunspecified : s.encoding = .unspecified
    · refine .inl ⟨_, by simp only [slotInfo, hnative, hunspecified]; rfl, ⟨hdtype, ?_⟩, ?_⟩
      · rw [hunspecified]
        decide
      · exact ⟨rfl, ⟨native, hnative, rfl⟩, rfl, rfl, rfl, rfl, .inl ⟨hunspecified, rfl⟩⟩
    · rcases encodingToString_known s.encoding with
        ⟨text, htext, hknown, -⟩ | ⟨message, hmessage, hknown⟩
      · refine .inl ⟨_, by simp only [slotInfo, hnative, if_pos hunspecified, htext]; rfl,
          ⟨hdtype, hknown⟩, ?_⟩
        exact ⟨rfl, ⟨native, hnative, rfl⟩, rfl, rfl, rfl, rfl, .inr htext⟩
      · refine .inr ⟨message, ?_, fun h => hunspecified (hknown h.encoding)⟩
        simp only [slotInfo, hnative, if_pos hunspecified, hmessage]
  · refine .inr ⟨message, ?_, fun h => hdtype h.dtype⟩
    simp only [slotInfo, hmessage]

/-- All tensors are converted, or a `ValueError` is raised. -/
theorem slotInfos_cases (tensors : List Tensor) :
    (∃ slots, slotInfos tensors = .ok slots ∧ (∀ s ∈ tensors, Convertible s) ∧
        List.Forall₂ SlotOf tensors slots) ∨
      ∃ message, slotInfos tensors = .error (.valueError message) ∧
        ¬ ∀ s ∈ tensors, Convertible s := by
  induction tensors with
  | nil => exact .inl ⟨[], rfl, by simp, .nil⟩
  | cons s tensors ih =>
      rw [List.forall_mem_cons]
      rcases slotInfo_cases s with ⟨slot, hslot, hone, hof⟩ | ⟨message, hmessage, hone⟩
      · rcases ih with ⟨slots, hslots, hrest, hofs⟩ | ⟨message, hmessage, hrest⟩
        · refine .inl ⟨slot :: slots, ?_, ⟨hone, hrest⟩, .cons hof hofs⟩
          simp only [slotInfos, hslot, hslots]
        · refine .inr ⟨message, ?_, fun h => hrest h.2⟩
          simp only [slotInfos, hslot, hmessage]
      · refine .inr ⟨message, ?_, fun h => hone h.1⟩
        simp only [slotInfos, hmessage]

/-- The slots are in range, or an `ObservationError` is raised. -/
theorem validateSlots_cases (slots : List SlotInfo) (payloadSize : Nat) :
    validateSlots slots payloadSize = .ok () ∨
      ∃ message, validateSlots slots payloadSize = .error (.observationError message) := by
  cases h : validateSlots slots payloadSize with
  | ok u => exact .inl rfl
  | error e =>
      rcases validateSlots_error h with ⟨slot, -, herror⟩
      unfold validateSlot at herror
      dsimp only at herror
      split at herror
      · exact .inr ⟨_, herror.symm⟩
      · split at herror
        · exact .inr ⟨_, herror.symm⟩
        · cases herror

/-- The slots are in range exactly when their tensors are. -/
theorem validateSlots_slotOf_iff {tensors : List Tensor} {slots : List SlotInfo}
    (h : List.Forall₂ SlotOf tensors slots) (payloadSize : Nat) :
    validateSlots slots payloadSize = .ok () ↔ ∀ s ∈ tensors, InRange payloadSize s := by
  rw [validateSlots_ok_iff]
  induction h with
  | nil => simp
  | cons hone _ ih =>
      rw [List.forall_mem_cons, List.forall_mem_cons, ih, hone.byteOffset, hone.byteLength]
      refine and_congr_left' ⟨fun h => ⟨Nat.pos_of_ne_zero h.2, h.1⟩, fun h => ⟨h.inside, ?_⟩⟩
      exact Nat.pos_iff_ne_zero.mp h.nonempty

/-! ## Decoding -/

section Decode

variable {pb : Protobuf ν} (nowNs : Int) {envelope : Bytes} (payload : Bytes) (receivedAt : Rat)

/-- Without a message that names its client and its model, an `ObservationError` is raised. -/
theorem decode_unnamed
    (h : ∀ obs, pb.parseObservation envelope = .ok obs → ¬ Named obs) :
    ∃ message, decode pb nowNs envelope payload receivedAt = .error (.observationError message) := by
  unfold decode
  split
  · exact ⟨_, rfl⟩
  · next obs hparse =>
      have hunnamed := h obs hparse
      split
      · exact ⟨_, rfl⟩
      · next clientId hclient =>
          split
          · exact ⟨_, rfl⟩
          · next hid =>
              split
              · exact ⟨_, rfl⟩
              · next hmodel => exact absurd ⟨⟨clientId, hclient, hid⟩, hmodel⟩ hunnamed

/-- With one, the tensors decide. -/
theorem decode_named {obs : Observation ν} (hparse : pb.parseObservation envelope = .ok obs)
    (hnamed : Named obs) :
    (∀ e, slotInfos obs.tensors = .error e →
      decode pb nowNs envelope payload receivedAt = .error e) ∧
    ∀ slots, slotInfos obs.tensors = .ok slots →
      (∀ e, validateSlots slots payload.length = .error e →
        decode pb nowNs envelope payload receivedAt = .error e) ∧
      (validateSlots slots payload.length = .ok () →
        ∃ decoded, decode pb nowNs envelope payload receivedAt = .ok decoded ∧
          decoded.slots = slots) := by
  rcases hnamed with ⟨⟨clientId, hclient, hid⟩, hmodel⟩
  refine ⟨fun e he => ?_, fun slots hslots => ⟨fun e he => ?_, fun hvalid => ?_⟩⟩
  · simp only [decode, hparse, hclient, if_neg hid, if_neg hmodel, he]
  · simp only [decode, hparse, hclient, if_neg hid, if_neg hmodel, hslots, he]
  · refine ⟨_, by simp only [decode, hparse, hclient, if_neg hid, if_neg hmodel, hslots, hvalid]; rfl,
      rfl⟩

/-- What `decode` does, by the kind of its input. -/
theorem decode_cases (pb : Protobuf ν) (nowNs : Int) (envelope payload : Bytes) (receivedAt : Rat) :
    (∃ obs decoded, decode pb nowNs envelope payload receivedAt = .ok decoded ∧
        pb.parseObservation envelope = .ok obs ∧ Named obs ∧
        (∀ s ∈ obs.tensors, Convertible s ∧ InRange payload.length s) ∧
        List.Forall₂ SlotOf obs.tensors decoded.slots) ∨
      (∃ message, decode pb nowNs envelope payload receivedAt = .error (.observationError message) ∧
        ∀ obs, pb.parseObservation envelope = .ok obs → Named obs →
          (∀ s ∈ obs.tensors, Convertible s) ∧ ¬ ∀ s ∈ obs.tensors, InRange payload.length s) ∨
      ∃ obs message, decode pb nowNs envelope payload receivedAt = .error (.valueError message) ∧
        pb.parseObservation envelope = .ok obs ∧ Named obs ∧
        ¬ ∀ s ∈ obs.tensors, Convertible s := by
  by_cases hnamed : ∃ obs, pb.parseObservation envelope = .ok obs ∧ Named obs
  · rcases hnamed with ⟨obs, hparse, hnamed⟩
    have hsame : ∀ obs', pb.parseObservation envelope = .ok obs' → obs' = obs := by
      intro obs' hparse'
      exact Except.ok.inj (hparse'.symm.trans hparse)
    rcases decode_named nowNs payload receivedAt hparse hnamed with ⟨herror, hok⟩
    rcases slotInfos_cases obs.tensors with
      ⟨slots, hslots, hconvertible, hof⟩ | ⟨message, hslots, hconvertible⟩
    · rcases hok slots hslots with ⟨hinvalid, hvalid⟩
      rcases validateSlots_cases slots payload.length with hyes | ⟨message, hno⟩
      · rcases hvalid hyes with ⟨decoded, hdecoded, rfl⟩
        have hrange := (validateSlots_slotOf_iff hof payload.length).mp hyes
        exact .inl ⟨obs, decoded, hdecoded, hparse, hnamed,
          fun s hs => ⟨hconvertible s hs, hrange s hs⟩, hof⟩
      · refine .inr (.inl ⟨message, hinvalid _ hno, ?_⟩)
        rintro obs' hparse' -
        rw [hsame obs' hparse']
        refine ⟨hconvertible, fun hrange => ?_⟩
        rw [(validateSlots_slotOf_iff hof payload.length).mpr hrange] at hno
        cases hno
    · exact .inr (.inr ⟨obs, message, herror _ hslots, hparse, hnamed, hconvertible⟩)
  · have hunnamed : ∀ obs, pb.parseObservation envelope = .ok obs → ¬ Named obs :=
      fun obs hparse h => hnamed ⟨obs, hparse, h⟩
    rcases decode_unnamed nowNs payload receivedAt hunnamed with ⟨message, hmessage⟩
    exact .inr (.inl ⟨message, hmessage, fun obs hparse h => absurd h (hunnamed obs hparse)⟩)

end Decode

/-- `decode` decides right exactly on the inputs whose tensors can all be converted, once the
observation parses and names its client and its model. -/
theorem decode_decides_iff (pb : Protobuf ν) (nowNs : Int) (envelope payload : Bytes)
    (receivedAt : Rat) :
    Decides pb envelope payload (decode pb nowNs envelope payload receivedAt) ↔
      ∀ obs, pb.parseObservation envelope = .ok obs → Named obs →
        ∀ s ∈ obs.tensors, Convertible s := by
  rcases decode_cases pb nowNs envelope payload receivedAt with
    ⟨obs, decoded, hdecode, hparse, hnamed, htensors, hslots⟩ | ⟨message, hdecode, hrejected⟩ |
      ⟨obs, message, hdecode, hparse, hnamed, htensors⟩
  · have hsame : ∀ obs', pb.parseObservation envelope = .ok obs' → obs' = obs := by
      intro obs' hparse'
      exact Except.ok.inj (hparse'.symm.trans hparse)
    apply iff_of_true
    · rw [hdecode]
      refine ⟨iff_of_true ⟨decoded, rfl⟩ ⟨obs, hparse, hnamed, htensors⟩, ?_, by simp⟩
      rintro _ ⟨rfl⟩ obs' hparse'
      rw [hsame obs' hparse']
      exact hslots
    · intro obs' hparse' _ s hs
      rw [hsame obs' hparse'] at hs
      exact (htensors s hs).1
  · apply iff_of_true
    · rw [hdecode]
      refine ⟨iff_of_false (by simp) ?_, by simp, ?_⟩
      · rintro ⟨obs, hparse, hnamed, htensors⟩
        exact (hrejected obs hparse hnamed).2 fun s hs => (htensors s hs).2
      · rintro e ⟨rfl⟩
        exact ⟨message, rfl⟩
    · intro obs hparse hnamed
      exact (hrejected obs hparse hnamed).1
  · -- the conversions raise a `ValueError`
    apply iff_of_false
    · intro hdecides
      rcases hdecides.raises _ hdecode with ⟨message', hmessage⟩
      cases hmessage
    · exact fun h => htensors (h obs hparse hnamed)

/-- A tensor of no dtype, which is the default. -/
def untypedTensor : Tensor := ⟨"state", .unspecified, [1], 0, 4, 0, .raw⟩

theorem untypedTensor_valueError :
    let pb := Protobuf.ofMessages [policyObservation untypedTensor];
    let envelope := Wire.observation (policyObservation untypedTensor);
    decode pb 0 envelope [0, 0, 0, 0] 0 = .error (.valueError "Unknown DType enum value: 0") ∧
      ¬ Decides pb envelope [0, 0, 0, 0] (decode pb 0 envelope [0, 0, 0, 0] 0) := by
  intro pb envelope
  have hdecode : decode pb 0 envelope [0, 0, 0, 0] 0 =
      .error (.valueError "Unknown DType enum value: 0") := by rfl
  refine ⟨hdecode, fun hdecides => ?_⟩
  rcases hdecides.raises _ hdecode with ⟨message, hmessage⟩
  cases hmessage

end Inferential
