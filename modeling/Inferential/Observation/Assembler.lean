import Inferential.Proto

/-!
# Assembler — decoding and validating observations
-/

namespace Inferential

variable {ν : Type}

structure SlotInfo where
  key : String
  dtype : String
  shape : List Int
  byteOffset : Nat
  byteLength : Nat
  timestampNs : Nat
  encoding : String
  deriving DecidableEq, Repr

structure DecodedObservation (ν : Type) where
  clientId : String
  modelId : String
  timestampNs : Nat
  urgency : ν
  priority : Nat
  stepsRemaining : Option Nat
  slots : List SlotInfo
  envelope : Bytes
  payload : Bytes
  receivedAt : Rat
  stalenessMs : Rat

/-! ## Slots -/

/-- The loop body of `validate_slots`. -/
def validateSlot (payloadSize : Nat) (slot : SlotInfo) : Except PyError Unit :=
  let stop := slot.byteOffset + slot.byteLength
  if payloadSize < stop then
    .error (.observationError (s!"Slot '{slot.key}' byte range [{slot.byteOffset}:{stop}) " ++
      s!"exceeds payload size {payloadSize}"))
  else if slot.byteLength = 0 then
    .error (.observationError s!"Slot '{slot.key}' has zero byte_length")
  else
    .ok ()

def validateSlots : List SlotInfo → Nat → Except PyError Unit
  | [], _ => .ok ()
  | slot :: slots, payloadSize =>
      match validateSlot payloadSize slot with
      | .error e => .error e
      | .ok () => validateSlots slots payloadSize

/-- The slot of a tensor: its dtype is looked up before its encoding. -/
def slotInfo (s : Tensor) : Except PyError SlotInfo :=
  match dtypeToNumpy s.dtype with
  | .error e => .error e
  | .ok dtype =>
      -- an unspecified encoding means raw bytes
      match (if s.encoding ≠ .unspecified then encodingToString s.encoding else .ok "raw") with
      | .error e => .error e
      | .ok encoding =>
          .ok {
            key := s.key
            dtype := dtype.str
            shape := s.shape
            byteOffset := s.byteOffset
            byteLength := s.byteLength
            timestampNs := s.timestampNs
            encoding := encoding }

def slotInfos : List Tensor → Except PyError (List SlotInfo)
  | [] => .ok []
  | s :: tensors =>
      match slotInfo s with
      | .error e => .error e
      | .ok slot =>
          match slotInfos tensors with
          | .error e => .error e
          | .ok slots => .ok (slot :: slots)

/-! ## Decoding -/

/-- `ObservationAssembler.decode`; `nowNs` is its clock reading.  The temporal alignment check only
logs. -/
def decode (pb : Protobuf ν) (nowNs : Int) (envelope payload : Bytes) (receivedAt : Rat) :
    Except PyError (DecodedObservation ν) :=
  match pb.parseObservation envelope with
  | .error e => .error (.observationError s!"Failed to decode protobuf envelope: {e}")
  | .ok obs =>
      match obs.client with
      | none => .error (.observationError "Missing client in observation")
      | some clientId =>
          -- proto3 gives an unset id as the empty string
          if clientId = "" then
            .error (.observationError "Missing client in observation")
          else if obs.modelId = "" then
            .error (.observationError "Missing model_id in observation")
          else
            match slotInfos obs.tensors with
            | .error e => .error e
            | .ok slots =>
                match validateSlots slots payload.length with
                | .error e => .error e
                | .ok () =>
                    .ok {
                      clientId := clientId
                      modelId := obs.modelId
                      timestampNs := obs.timestampNs
                      urgency := obs.urgency
                      priority := obs.priority
                      stepsRemaining := obs.stepsRemaining
                      slots := slots
                      envelope := envelope
                      payload := payload
                      receivedAt := receivedAt
                      stalenessMs :=
                        if 0 < obs.timestampNs then ((nowNs - obs.timestampNs : Int) : Rat) / 1000000
                        else 0 }

/-! ## What an accepted observation satisfies -/

theorem validateSlot_ok_iff {payloadSize : Nat} {slot : SlotInfo} :
    validateSlot payloadSize slot = .ok () ↔
      slot.byteOffset + slot.byteLength ≤ payloadSize ∧ slot.byteLength ≠ 0 := by
  unfold validateSlot
  dsimp only
  split
  · next hrange => simp [Nat.not_le.mpr hrange]
  · next hrange =>
      split
      · next hzero => simp [hzero]
      · next hzero => simp [Nat.not_lt.mp hrange, hzero]

theorem validateSlots_ok_iff {slots : List SlotInfo} {payloadSize : Nat} :
    validateSlots slots payloadSize = .ok () ↔
      ∀ slot ∈ slots, slot.byteOffset + slot.byteLength ≤ payloadSize ∧ slot.byteLength ≠ 0 := by
  induction slots with
  | nil => simp [validateSlots]
  | cons slot slots ih =>
      rw [List.forall_mem_cons, ← ih, ← validateSlot_ok_iff, validateSlots]
      cases validateSlot payloadSize slot with
      | error e => simp
      | ok u => simp

/-- The slot keeps the range of its tensor, whose dtype is known. -/
theorem slotInfo_ok {s : Tensor} {slot : SlotInfo} (h : slotInfo s = .ok slot) :
    slot.byteOffset = s.byteOffset ∧ slot.byteLength = s.byteLength ∧
      ∃ dtype, dtypeToNumpy s.dtype = .ok dtype := by
  unfold slotInfo at h
  split at h
  · simp at h
  · next dtype hdtype =>
      split at h
      · simp at h
      · simp only [Except.ok.injEq] at h
        subst h
        exact ⟨rfl, rfl, dtype, hdtype⟩

theorem slotInfos_ok {tensors : List Tensor} {slots : List SlotInfo}
    (h : slotInfos tensors = .ok slots) :
    ∀ s ∈ tensors, ∃ slot ∈ slots, slotInfo s = .ok slot := by
  induction tensors generalizing slots with
  | nil => simp
  | cons s tensors ih =>
      unfold slotInfos at h
      split at h
      · simp at h
      · next slot hslot =>
          split at h
          · simp at h
          · next rest hrest =>
              simp only [Except.ok.injEq] at h
              subst h
              intro s' hs'
              rcases List.mem_cons.mp hs' with rfl | hs'
              · exact ⟨slot, List.mem_cons_self, hslot⟩
              · obtain ⟨slot', hslot', heq⟩ := ih hrest s' hs'
                exact ⟨slot', List.mem_cons_of_mem slot hslot', heq⟩

/-- The tensors of an accepted observation have known dtypes and lie inside the payload. -/
theorem decode_ok {pb : Protobuf ν} {nowNs : Int} {envelope payload : Bytes} {receivedAt : Rat}
    {decoded : DecodedObservation ν}
    (h : decode pb nowNs envelope payload receivedAt = .ok decoded) :
    ∃ obs, pb.parseObservation envelope = .ok obs ∧
      ∀ s ∈ obs.tensors, s.byteOffset + s.byteLength ≤ payload.length ∧ s.byteLength ≠ 0 ∧
        ∃ dtype, dtypeToNumpy s.dtype = .ok dtype := by
  unfold decode at h
  -- the branches of `decode` in order; each but the last one raises
  split at h
  · simp at h
  · next obs hparse =>
      refine ⟨obs, hparse, ?_⟩
      split at h
      · simp at h
      · split at h
        · simp at h
        · split at h
          · simp at h
          · split at h
            · simp at h
            · next slots hslots =>
                split at h
                · simp at h
                · next hvalid =>
                    intro s hs
                    obtain ⟨slot, hmem, hslot⟩ := slotInfos_ok hslots s hs
                    obtain ⟨hoffset, hlength, hdtype⟩ := slotInfo_ok hslot
                    obtain ⟨hrange, hnonzero⟩ := validateSlots_ok_iff.mp hvalid slot hmem
                    rw [hoffset, hlength] at hrange
                    rw [hlength] at hnonzero
                    exact ⟨hrange, hnonzero, hdtype⟩

/-- The client and the model of a decoded observation are those of the message. -/
theorem decode_reads {pb : Protobuf ν} {nowNs : Int} {envelope payload : Bytes} {receivedAt : Rat}
    {decoded : DecodedObservation ν} {obs : Observation ν}
    (h : decode pb nowNs envelope payload receivedAt = .ok decoded)
    (hparse : pb.parseObservation envelope = .ok obs) :
    obs.client = some decoded.clientId ∧ obs.modelId = decoded.modelId := by
  unfold decode at h
  simp only [hparse] at h
  split at h
  · cases h
  · next clientId hclient =>
      split at h
      · cases h
      · split at h
        · cases h
        · split at h
          · cases h
          · split at h
            · cases h
            · cases h
              exact ⟨hclient, rfl⟩

/-! ## Why an observation is rejected -/

theorem validateSlots_error {slots : List SlotInfo} {payloadSize : Nat} {e : PyError}
    (h : validateSlots slots payloadSize = .error e) :
    ∃ slot ∈ slots, validateSlot payloadSize slot = .error e := by
  induction slots with
  | nil => simp [validateSlots] at h
  | cons slot slots ih =>
      unfold validateSlots at h
      split at h
      · next hslot => exact ⟨slot, List.mem_cons_self, hslot.trans h⟩
      · rcases ih h with ⟨slot', hslot', herror⟩
        exact ⟨slot', List.mem_cons_of_mem slot hslot', herror⟩

theorem slotInfos_error {tensors : List Tensor} {e : PyError} (h : slotInfos tensors = .error e) :
    ∃ s ∈ tensors, slotInfo s = .error e := by
  induction tensors with
  | nil => simp [slotInfos] at h
  | cons s tensors ih =>
      unfold slotInfos at h
      split at h
      · next hslot =>
          rcases Except.error.inj h with rfl
          exact ⟨s, List.mem_cons_self, hslot⟩
      · split at h
        · next hrest =>
            rcases ih (hrest.trans h) with ⟨s', hs', herror⟩
            exact ⟨s', List.mem_cons_of_mem s hs', herror⟩
        · cases h

/-- Every slot is the slot of a tensor. -/
theorem mem_slotInfos {tensors : List Tensor} {slots : List SlotInfo}
    (h : slotInfos tensors = .ok slots) {slot : SlotInfo} (hslot : slot ∈ slots) :
    ∃ s ∈ tensors, slotInfo s = .ok slot := by
  induction tensors generalizing slots with
  | nil =>
      simp only [slotInfos, Except.ok.injEq] at h
      simp [← h] at hslot
  | cons s tensors ih =>
      unfold slotInfos at h
      split at h
      · cases h
      · next first hfirst =>
          split at h
          · cases h
          · next rest hrest =>
              rcases Except.ok.inj h with rfl
              rcases List.mem_cons.mp hslot with rfl | hlater
              · exact ⟨s, List.mem_cons_self, hfirst⟩
              · rcases ih hrest hlater with ⟨s', hs', heq⟩
                exact ⟨s', List.mem_cons_of_mem s hs', heq⟩

/-- The slot of a raw tensor of a known dtype. -/
theorem slotInfo_raw {s : Tensor} {dtype : NpDtype} (hdtype : dtypeToNumpy s.dtype = .ok dtype)
    (hencoding : s.encoding = .raw) :
    ∃ slot, slotInfo s = .ok slot ∧ slot.key = s.key := by
  simp [slotInfo, hdtype, hencoding, encodingToString]

/-- An observation that names its client and its model, and whose tensors are raw, of known dtypes
and inside the payload, is only rejected for a tensor without bytes. -/
theorem decode_error {pb : Protobuf ν} {nowNs : Int} {envelope payload : Bytes} {receivedAt : Rat}
    {obs : Observation ν} (hparse : pb.parseObservation envelope = .ok obs) {clientId : String}
    (hclient : obs.client = some clientId) (hnonempty : clientId ≠ "") (hmodel : obs.modelId ≠ "")
    (htensors : ∀ s ∈ obs.tensors, (∃ dtype, dtypeToNumpy s.dtype = .ok dtype) ∧
      s.encoding = .raw ∧ s.byteOffset + s.byteLength ≤ payload.length) {e : PyError}
    (h : decode pb nowNs envelope payload receivedAt = .error e) :
    ∃ s ∈ obs.tensors, s.byteLength = 0 ∧
      e = .observationError s!"Slot '{s.key}' has zero byte_length" := by
  simp only [decode, hparse, hclient, if_neg hnonempty, if_neg hmodel] at h
  split at h
  · next hslots =>
      rcases slotInfos_error hslots with ⟨s, hs, herror⟩
      rcases htensors s hs with ⟨⟨dtype, hdtype⟩, hencoding, -⟩
      rcases slotInfo_raw hdtype hencoding with ⟨slot, hok, -⟩
      simp [hok] at herror
  · next slots hslots =>
      split at h
      · next hvalid =>
          rcases Except.error.inj h with rfl
          rcases validateSlots_error hvalid with ⟨slot, hslot, herror⟩
          rcases mem_slotInfos hslots hslot with ⟨s, hs, hinfo⟩
          rcases htensors s hs with ⟨⟨dtype, hdtype⟩, hencoding, hrange⟩
          rcases slotInfo_ok hinfo with ⟨hoffset, hlength, -⟩
          rcases slotInfo_raw hdtype hencoding with ⟨slot', hinfo', hkey⟩
          rcases Except.ok.inj (hinfo.symm.trans hinfo') with rfl
          have hinside : ¬ payload.length < slot.byteOffset + slot.byteLength := by
            rw [hoffset, hlength]
            exact Nat.not_lt.mpr hrange
          simp only [validateSlot, if_neg hinside] at herror
          split at herror
          · next hzero =>
              refine ⟨s, hs, hlength ▸ hzero, ?_⟩
              rw [← hkey]
              exact (Except.error.inj herror).symm
          · cases herror
      · cases h

end Inferential
