import Inferential.Client.Transport
import Inferential.Layout.Tiling
import Inferential.Observation.Assembler

/-!
# Builders — the encoders of the three languages

The `send` of the Rust and C++ builders, beside `_build_observation` and `_build_result`.  Each
threads an offset next to a growing payload; all of them lay the entries end to end, so that the
same entries become the same payload and the same descriptors.
-/

namespace Inferential

open PyStd Layout

def Tensor.range (t : Tensor) : Range := ⟨t.byteOffset, t.byteLength⟩

/-- What a descriptor says, but for its timestamp. -/
def Tensor.fields (t : Tensor) : String × DType × List Int × Nat × Nat × Encoding :=
  (t.key, t.dtype, t.shape, t.byteOffset, t.byteLength, t.encoding)

def SlotInfo.range (s : SlotInfo) : Range := ⟨s.byteOffset, s.byteLength⟩

namespace Client

variable {ν Py Obj : Type}

/-! ## Entries -/

/-- `TensorEntry` -/
structure TensorEntry where
  key : String
  data : Bytes
  dtype : DType
  shape : List Int
  deriving DecidableEq

/-- The descriptor of an entry at `offset`. -/
def TensorEntry.describe (timestampNs offset : Nat) (entry : TensorEntry) : Tensor where
  key := entry.key
  dtype := entry.dtype
  shape := entry.shape
  byteOffset := offset
  byteLength := entry.data.length
  timestampNs := timestampNs
  encoding := .raw

/-- The descriptors of entries that are laid end to end. -/
def describeFrom (timestampNs : Nat) : Nat → List TensorEntry → List Tensor
  | _, [] => []
  | offset, entry :: entries =>
      entry.describe timestampNs offset ::
        describeFrom timestampNs (offset + entry.data.length) entries

def payloadOf (entries : List TensorEntry) : Bytes := (entries.map TensorEntry.data).flatten

/-! ## The native builders -/

/-- `ObservationBuilder`, and `AsyncObservationBuilder`. -/
structure ObservationBuilder (ν : Type) where
  clientId : String
  modelId : String
  urgency : ν
  /-- An `int` in C++; a `u32` in Rust, where that of a handle is an `i32`. -/
  priority : Int
  stepsRemaining : Option Nat := none
  tensors : List TensorEntry := []
  metadata : List (String × String) := []

/-- The conversion of an integer to `uint32`, which wraps. -/
def asUint32 (n : Int) : Nat := (n % 2 ^ 32).toNat

/-- What the loop of `send` holds. -/
structure Packing where
  payload : Bytes := []
  tensorDescs : List Tensor := []
  offset : UInt64 := 0

/-- One turn of the loop; `none` when the payload would be longer than a buffer can be. -/
def Packing.push (maxSize : UInt64) (ts : Nat) (entry : TensorEntry) (p : Packing) :
    Option Packing :=
  if maxSize.toNat < p.payload.length + entry.data.length then none
  else
    let length := entry.data.length.toUInt64
    some {
      payload := p.payload ++ entry.data
      tensorDescs := p.tensorDescs ++ [{
        key := entry.key
        dtype := entry.dtype
        shape := entry.shape
        byteOffset := p.offset.toNat
        byteLength := length.toNat
        timestampNs := ts
        encoding := .raw }]
      offset := p.offset + length }

def Packing.pushAll (maxSize : UInt64) (ts : Nat) :
    List TensorEntry → Packing → Option Packing
  | [], p => some p
  | entry :: entries, p =>
      match p.push maxSize ts entry with
      | none => none
      | some p' => pushAll maxSize ts entries p'

namespace ObservationBuilder

/-- The message and the payload that `send` hands to the connection. -/
def sendWith (maxSize : UInt64) (ts : Nat) (b : ObservationBuilder ν) :
    Option (Observation ν × Bytes) :=
  match Packing.pushAll maxSize ts b.tensors {} with
  | none => none
  | some p =>
      some ({
        client := some b.clientId
        timestampNs := ts
        urgency := b.urgency
        tensors := p.tensorDescs
        modelId := b.modelId
        stepsRemaining := b.stepsRemaining
        metadata := b.metadata.foldl (fun d kv => d.set kv.1 kv.2) Dict.empty
        priority := asUint32 b.priority }, p.payload)

/-- `isize::MAX`, the length that no `Vec` exceeds. -/
def isizeMax : UInt64 := 0x7fffffffffffffff

/-- The `send` of Rust's `ObservationBuilder`. -/
def send (ts : Nat) (b : ObservationBuilder ν) : Option (Observation ν × Bytes) :=
  b.sendWith isizeMax ts

/-- The `send` of `AsyncObservationBuilder`. -/
def sendAsync (ts : Nat) (b : ObservationBuilder ν) : Option (Observation ν × Bytes) :=
  b.sendWith isizeMax ts

/-- The `send` of C++, whose payload is a `std::string` of at most `maxSize` bytes. -/
def sendCpp (maxSize : UInt64) (ts : Nat) (b : ObservationBuilder ν) :
    Option (Observation ν × Bytes) :=
  b.sendWith maxSize ts

end ObservationBuilder

/-! ## What an encoder must do -/

/-- The descriptors are those of the entries, and tile the payload with their bytes. -/
structure LaidOut (entries : List TensorEntry) (tensors : List Tensor) (payload : Bytes) :
    Prop where
  named : tensors.map (fun t => (t.key, t.dtype, t.shape, t.encoding)) =
    entries.map fun e => (e.key, e.dtype, e.shape, Encoding.raw)
  tiles : Tiles payload (tensors.map Tensor.range) (entries.map TensorEntry.data)

theorem describeFrom_ranges (ts offset : Nat) (entries : List TensorEntry) :
    (describeFrom ts offset entries).map Tensor.range =
      rangesFrom offset (entries.map TensorEntry.data) := by
  induction entries generalizing offset with
  | nil => rfl
  | cons entry entries ih =>
      have hrest := ih (offset + entry.data.length)
      simp only [describeFrom, List.map_cons, rangesFrom, hrest]
      rfl

theorem describeFrom_named (ts offset : Nat) (entries : List TensorEntry) :
    (describeFrom ts offset entries).map (fun t => (t.key, t.dtype, t.shape, t.encoding)) =
      entries.map fun e => (e.key, e.dtype, e.shape, Encoding.raw) := by
  induction entries generalizing offset with
  | nil => rfl
  | cons entry entries ih =>
      have hrest := ih (offset + entry.data.length)
      simp only [describeFrom, List.map_cons, hrest]
      rfl

theorem describe_laidOut (ts : Nat) (entries : List TensorEntry) :
    LaidOut entries (describeFrom ts 0 entries) (payloadOf entries) where
  named := describeFrom_named ts 0 entries
  tiles := by
    rw [describeFrom_ranges]
    exact rangesFrom_tiles _

namespace LaidOut

variable {entries : List TensorEntry} {tensors tensors' : List Tensor} {payload payload' : Bytes}

/-- The descriptors of non-empty entries are accepted. -/
theorem accepted (h : LaidOut entries tensors payload) (hnonempty : ∀ e ∈ entries, e.data ≠ [])
    {slots : List SlotInfo} (hslots : slots.map SlotInfo.range = tensors.map Tensor.range) :
    validateSlots slots payload.length = .ok () := by
  apply validateSlots_ok_iff.mpr
  intro slot hslot
  have hrange : slot.range ∈ tensors.map Tensor.range := by
    rw [← hslots]
    exact List.mem_map_of_mem hslot
  have hstop : slot.range.stop ≤ payload.length := h.tiles.stop_le hrange
  refine ⟨hstop, fun hzero => ?_⟩
  -- what is cut there is the data of an entry
  have hcut : slot.range.cut payload ∈ entries.map TensorEntry.data := by
    rw [← h.tiles.cut]
    exact List.mem_map_of_mem (f := fun r => r.cut payload) hrange
  rcases List.mem_map.mp hcut with ⟨e, he, hdata⟩
  apply hnonempty e he
  rw [hdata, Range.cut, SlotInfo.range, hzero, List.take_zero]

/-- The entries determine the payload and the descriptors. -/
theorem agree (h : LaidOut entries tensors payload) (h' : LaidOut entries tensors' payload') :
    payload = payload' ∧ tensors.map Tensor.fields = tensors'.map Tensor.fields := by
  rcases h.tiles.unique with ⟨hpayload, hranges⟩
  rcases h'.tiles.unique with ⟨hpayload', hranges'⟩
  refine ⟨hpayload.trans hpayload'.symm, ?_⟩
  have hfields : ∀ ts : List Tensor, ts.map Tensor.fields =
      ((ts.map fun t => (t.key, t.dtype, t.shape, t.encoding)).zip (ts.map Tensor.range)).map
        fun x => (x.1.1, x.1.2.1, x.1.2.2.1, x.2.offset, x.2.length, x.1.2.2.2) := by
    intro ts
    rw [List.zip_map', List.map_map]
    rfl
  rw [hfields, hfields, h.named, h'.named, hranges, hranges']

end LaidOut

/-! ## The Python encoders -/

/-- The entry of an array, when its dtype has a number. -/
def arrayEntry (key : String) (a : NdArray) : Option TensorEntry :=
  match dtypeFromNumpy a.dtype with
  | .error _ => none
  | .ok dtype =>
      some { key := key, data := a.data, dtype := dtype, shape := a.shape.map Int.ofNat }

/-- The arrays among keyword arguments; the other arguments are no tensors. -/
def argumentEntries : List (String × Argument Py) → Option (List TensorEntry)
  | [] => some []
  | (key, .array a) :: kwargs =>
      match arrayEntry key a, argumentEntries kwargs with
      | some entry, some entries => some (entry :: entries)
      | _, _ => none
  | _ :: kwargs => argumentEntries kwargs

/-- What a model's result holds, as arrays: all values of a dictionary that are not strings, or the
one value as the actions. -/
def itemEntries (np : Numpy Obj) : List (Option String × (String ⊕ Obj)) →
    Option (List TensorEntry)
  | [] => some []
  | (none, _) :: _ => none
  | (some _, .inl _) :: items => itemEntries np items
  | (some key, .inr value) :: items =>
      match np.asarray value with
      | .error _ => none
      | .ok a =>
          match arrayEntry key a, itemEntries np items with
          | some entry, some entries => some (entry :: entries)
          | _, _ => none

def resultEntries (np : Numpy Obj) : RawResult Obj → Option (List TensorEntry)
  | .dict items => itemEntries np items
  | .other value => itemEntries np [(some "actions", .inr value)]

/-- The entries were appended to what was collected. -/
structure Appended (ts : Nat) (c : Collected) (entries : List TensorEntry) (c' : Collected) :
    Prop where
  tensors : c'.tensors = c.tensors ++ describeFrom ts c.payload.length entries
  payload : c'.payload = c.payload ++ payloadOf entries

namespace Appended

variable {ts : Nat} {c c₁ c' : Collected} {entry : TensorEntry} {entries : List TensorEntry}

theorem refl (ts : Nat) (c : Collected) : Appended ts c [] c where
  tensors := by simp [describeFrom]
  payload := by simp [payloadOf]

theorem of_eq (h : Appended ts c₁ entries c') (htensors : c₁.tensors = c.tensors)
    (hpayload : c₁.payload = c.payload) : Appended ts c entries c' where
  tensors := by rw [h.tensors, htensors, hpayload]
  payload := by rw [h.payload, hpayload]

theorem cons (h : Appended ts c₁ entries c')
    (htensors : c₁.tensors = c.tensors ++ [entry.describe ts c.payload.length])
    (hpayload : c₁.payload = c.payload ++ entry.data) :
    Appended ts c (entry :: entries) c' where
  tensors := by
    rw [h.tensors, htensors, hpayload, List.length_append]
    simp [describeFrom]
  payload := by
    rw [h.payload, hpayload]
    simp [payloadOf]

theorem laidOut (h : Appended ts {} entries c') : LaidOut entries c'.tensors c'.payload := by
  rw [h.tensors, h.payload]
  exact describe_laidOut ts entries

end Appended

theorem arrayEntry_eq {key : String} {a : NdArray} {dtype : DType}
    (h : dtypeFromNumpy a.dtype = .ok dtype) :
    arrayEntry key a =
      some { key := key, data := a.data, dtype := dtype, shape := a.shape.map Int.ofNat } := by
  simp only [arrayEntry, h]

/-- The loop of `_build_observation`, when it does not raise. -/
theorem appendArguments_appended {ts : Nat} {kwargs : List (String × Argument Py)}
    {c c' : Collected} (h : appendArguments ts kwargs c = .ok c') :
    ∃ entries, argumentEntries kwargs = some entries ∧ Appended ts c entries c' := by
  induction kwargs generalizing c with
  | nil =>
      rcases Except.ok.inj h with rfl
      exact ⟨[], rfl, .refl ts c⟩
  | cons kwarg kwargs ih =>
      rcases kwarg with ⟨key, value⟩
      simp only [appendArguments] at h
      split at h
      · cases h
      · next c₁ hone =>
          rcases ih h with ⟨entries, hentries, happended⟩
          cases value with
          | array a =>
              simp only [appendArgument] at hone
              split at hone
              · cases hone
              · next dtype hdtype =>
                  rcases Except.ok.inj hone with rfl
                  refine ⟨⟨key, a.data, dtype, a.shape.map Int.ofNat⟩ :: entries, ?_,
                    happended.cons rfl rfl⟩
                  simp only [argumentEntries, arrayEntry_eq hdtype, hentries]
          -- no other argument is a tensor
          | text s =>
              rcases Except.ok.inj hone with rfl
              exact ⟨entries, hentries, happended.of_eq rfl rfl⟩
          | other value =>
              rcases Except.ok.inj hone with rfl
              exact ⟨entries, hentries, happended⟩

theorem appendArray_appended {np : Numpy Obj} {key : String} {value : Obj} {c c₁ : Collected}
    (h : appendArray np key value c = .ok c₁) :
    ∃ a entry, np.asarray value = .ok a ∧ arrayEntry key a = some entry ∧
      c₁.tensors = c.tensors ++ [entry.describe 0 c.payload.length] ∧
      c₁.payload = c.payload ++ entry.data := by
  unfold appendArray at h
  split at h
  · cases h
  · next a ha =>
      unfold ndarrayToTensor at h
      split at h
      · cases h
      · next tensor data htensor =>
          split at htensor
          · cases htensor
          · next dtype hdtype =>
              rcases Prod.mk.inj (Except.ok.inj htensor) with ⟨rfl, rfl⟩
              rcases Except.ok.inj h with rfl
              exact ⟨a, _, ha, arrayEntry_eq hdtype, rfl, rfl⟩

/-- The loop of `_build_result`, when it does not raise. -/
theorem appendItems_appended {pb : Protobuf ν} {np : Numpy Obj}
    {items : List (Option String × (String ⊕ Obj))} {c c' : Collected}
    (h : appendItems pb np items c = .ok c') :
    ∃ entries, itemEntries np items = some entries ∧ Appended 0 c entries c' := by
  induction items generalizing c with
  | nil =>
      rcases Except.ok.inj h with rfl
      exact ⟨[], rfl, .refl 0 c⟩
  | cons item items ih =>
      rcases item with ⟨_ | key, text | value⟩
      · cases h
      · simp only [appendItems] at h
        split at h <;> cases h
      · simp only [appendItems] at h
        rcases ih h with ⟨entries, hentries, happended⟩
        exact ⟨entries, hentries, happended.of_eq rfl rfl⟩
      · simp only [appendItems] at h
        split at h
        · cases h
        · next c₁ hone =>
            rcases ih h with ⟨entries, hentries, happended⟩
            rcases appendArray_appended hone with ⟨a, entry, ha, hentry, htensors, hpayload⟩
            refine ⟨entry :: entries, ?_, happended.cons htensors hpayload⟩
            simp only [itemEntries, ha, hentry, hentries]

theorem collect_appended {pb : Protobuf ν} {np : Numpy Obj} {raw : RawResult Obj} {c : Collected}
    (h : collect pb np raw = .ok c) :
    ∃ entries, resultEntries np raw = some entries ∧ Appended 0 {} entries c := by
  cases raw with
  | dict items => exact appendItems_appended h
  | other value =>
      rcases appendArray_appended h with ⟨a, entry, ha, hentry, htensors, hpayload⟩
      refine ⟨[entry], ?_, (Appended.refl 0 c).cons htensors hpayload⟩
      simp only [resultEntries, itemEntries, ha, hentry]

/-! ## The native loops -/

/-- As long as the payload fits into a buffer, the offset is its length. -/
theorem Packing.push_some {maxSize : UInt64} {ts : Nat} {entry : TensorEntry} {p p₁ : Packing}
    (hoffset : p.offset.toNat = p.payload.length) (h : p.push maxSize ts entry = some p₁) :
    p₁.offset.toNat = p₁.payload.length ∧
      p₁.tensorDescs = p.tensorDescs ++ [entry.describe ts p.payload.length] ∧
      p₁.payload = p.payload ++ entry.data := by
  unfold Packing.push at h
  split at h
  · cases h
  · next hfits =>
      rcases Option.some.inj h with rfl
      have hmax : maxSize.toNat < 2 ^ 64 := maxSize.toNat_lt
      have hlength : entry.data.length.toUInt64.toNat = entry.data.length := by
        rw [Nat.toUInt64_eq, UInt64.toNat_ofNat']
        apply Nat.mod_eq_of_lt
        omega
      refine ⟨?_, ?_, rfl⟩
      · simp only [UInt64.toNat_add, hoffset, hlength, List.length_append]
        apply Nat.mod_eq_of_lt
        omega
      · simp only [hlength, hoffset]
        rfl

theorem Packing.pushAll_some {maxSize : UInt64} {ts : Nat} {entries : List TensorEntry}
    {p p' : Packing} (hoffset : p.offset.toNat = p.payload.length)
    (h : Packing.pushAll maxSize ts entries p = some p') :
    Appended ts { tensors := p.tensorDescs, payload := p.payload } entries
      { tensors := p'.tensorDescs, payload := p'.payload } := by
  induction entries generalizing p with
  | nil =>
      rcases Option.some.inj h with rfl
      exact .refl ts _
  | cons entry entries ih =>
      simp only [Packing.pushAll] at h
      split at h
      · cases h
      · next p₁ hpush =>
          rcases Packing.push_some hoffset hpush with ⟨hoffset₁, htensors, hpayload⟩
          exact (ih hoffset₁ h).cons htensors hpayload

/-- The loop gets through exactly when the whole payload fits. -/
theorem Packing.pushAll_isSome_iff {maxSize : UInt64} {ts : Nat} {entries : List TensorEntry}
    {p : Packing} (hfits : p.payload.length ≤ maxSize.toNat) :
    (Packing.pushAll maxSize ts entries p).isSome ↔
      p.payload.length + (payloadOf entries).length ≤ maxSize.toNat := by
  induction entries generalizing p with
  | nil => simp [Packing.pushAll, payloadOf, hfits]
  | cons entry entries ih =>
      have htotal : (payloadOf (entry :: entries)).length =
          entry.data.length + (payloadOf entries).length := by simp [payloadOf]
      simp only [Packing.pushAll, Packing.push]
      by_cases hlong : maxSize.toNat < p.payload.length + entry.data.length
      · simp only [if_pos hlong, htotal]
        simp
        omega
      · simp only [if_neg hlong]
        rw [ih (by simpa using hlong), htotal]
        simp [Nat.add_assoc]

namespace ObservationBuilder

theorem sendWith_laidOut {maxSize : UInt64} {ts : Nat} {b : ObservationBuilder ν}
    {obs : Observation ν} {payload : Bytes} (h : b.sendWith maxSize ts = some (obs, payload)) :
    LaidOut b.tensors obs.tensors payload := by
  unfold sendWith at h
  split at h
  · cases h
  · next p hp =>
      rcases Prod.mk.inj (Option.some.inj h) with ⟨rfl, rfl⟩
      exact (Packing.pushAll_some (p := {}) rfl hp).laidOut

theorem sendWith_isSome_iff {maxSize : UInt64} {ts : Nat} {b : ObservationBuilder ν} :
    (b.sendWith maxSize ts).isSome ↔ (payloadOf b.tensors).length ≤ maxSize.toNat := by
  have hloop : (Packing.pushAll maxSize ts b.tensors {}).isSome ↔ _ :=
    Packing.pushAll_isSome_iff (Nat.zero_le maxSize.toNat)
  simp only [List.length_nil, Nat.zero_add] at hloop
  rw [← hloop, sendWith]
  cases Packing.pushAll maxSize ts b.tensors {} <;> rfl

end ObservationBuilder

/-! ## All encoders -/

theorem observationMessage_laidOut {cpb : ClientProtobuf ν Py} {o : Outgoing Py}
    {obs : Observation ν} {payload : Bytes} (h : observationMessage cpb o = .ok (obs, payload)) :
    ∃ entries, argumentEntries o.kwargs.items = some entries ∧
      LaidOut entries obs.tensors payload := by
  rcases observationMessage_collects h with ⟨c, hc, rfl, -, -, htensors, -⟩
  rcases appendArguments_appended hc with ⟨entries, hentries, happended⟩
  rw [htensors]
  exact ⟨entries, hentries, happended.laidOut⟩

theorem buildResult_laidOut {pb : Protobuf ν} {np : Numpy Obj} {stamp : CallStamp}
    {req : InferenceRequest ν} {raw : RawResult Obj} {result : DispatchResult}
    (h : buildResult pb np stamp req raw = .ok result) :
    ∃ c entries, result.envelope = pb.serializeResponse (responseMessage stamp req c) ∧
      resultEntries np raw = some entries ∧ LaidOut entries c.tensors result.payload := by
  unfold buildResult at h
  split at h
  · cases h
  · next c hc =>
      rcases Except.ok.inj h with rfl
      rcases collect_appended hc with ⟨entries, hentries, happended⟩
      exact ⟨c, entries, rfl, hentries, happended.laidOut⟩

/-- Every encoder lays its entries end to end, the native ones as long as the payload fits into a
buffer; so descriptors of non-empty entries are accepted, and the same entries become the same
payload and the same descriptors everywhere. -/
theorem encoders_lay_out :
    (∀ (cpb : ClientProtobuf ν Py) (o : Outgoing Py) (obs : Observation ν) (payload : Bytes),
      observationMessage cpb o = .ok (obs, payload) →
        ∃ entries, argumentEntries o.kwargs.items = some entries ∧
          LaidOut entries obs.tensors payload) ∧
    (∀ (pb : Protobuf ν) (np : Numpy Obj) (stamp : CallStamp) (req : InferenceRequest ν)
        (raw : RawResult Obj) (result : DispatchResult),
      buildResult pb np stamp req raw = .ok result →
        ∃ c entries, result.envelope = pb.serializeResponse (responseMessage stamp req c) ∧
          resultEntries np raw = some entries ∧
          LaidOut entries (responseMessage stamp req c).tensors result.payload) ∧
    (∀ (b : ObservationBuilder ν) (ts : Nat) (maxSize : UInt64),
      ∀ send ∈ [b.send ts, b.sendAsync ts, b.sendCpp maxSize ts], ∀ obs payload,
        send = some (obs, payload) → LaidOut b.tensors obs.tensors payload) ∧
    (∀ (b : ObservationBuilder ν) (ts : Nat) (maxSize : UInt64),
      ((b.send ts).isSome ↔
        (payloadOf b.tensors).length ≤ ObservationBuilder.isizeMax.toNat) ∧
      ((b.sendAsync ts).isSome ↔
        (payloadOf b.tensors).length ≤ ObservationBuilder.isizeMax.toNat) ∧
      ((b.sendCpp maxSize ts).isSome ↔ (payloadOf b.tensors).length ≤ maxSize.toNat)) ∧
    (∀ (entries : List TensorEntry) (tensors : List Tensor) (payload : Bytes),
      LaidOut entries tensors payload →
        ((∀ e ∈ entries, e.data ≠ []) → ∀ slots : List SlotInfo,
          slots.map SlotInfo.range = tensors.map Tensor.range →
            validateSlots slots payload.length = .ok ()) ∧
        ∀ tensors' payload', LaidOut entries tensors' payload' →
          payload = payload' ∧ tensors.map Tensor.fields = tensors'.map Tensor.fields) := by
  refine ⟨?_, ?_, ?_, ?_, ?_⟩
  · intro cpb o obs payload h
    exact observationMessage_laidOut h
  · intro pb np stamp req raw result h
    exact buildResult_laidOut h
  · intro b ts maxSize send hsend obs payload h
    -- the three are one loop, for two sizes of a buffer
    simp only [List.mem_cons, List.not_mem_nil, or_false] at hsend
    rcases hsend with rfl | rfl | rfl <;> exact ObservationBuilder.sendWith_laidOut h
  · intro b ts maxSize
    exact ⟨ObservationBuilder.sendWith_isSome_iff, ObservationBuilder.sendWith_isSome_iff,
      ObservationBuilder.sendWith_isSome_iff⟩
  · intro entries tensors payload h
    exact ⟨fun hnonempty slots hslots => h.accepted hnonempty hslots,
      fun tensors' payload' h' => h.agree h'⟩

/-- An empty entry in the middle takes no room. -/
example :
    let entries := [⟨"a", [1, 2], .uint8, [2]⟩, ⟨"b", [], .uint8, [0]⟩, ⟨"c", [3], .uint8, [1]⟩];
    (describeFrom 0 0 entries).map Tensor.range = [⟨0, 2⟩, ⟨2, 0⟩, ⟨2, 1⟩] ∧
      payloadOf entries = [1, 2, 3] := by decide

end Client
end Inferential
