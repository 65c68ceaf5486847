import Inferential.Client.Builders
import Inferential.Dispatch.Base
import Inferential.Observation.Rejection

/-!
# Observations — what the server makes of a native client's observation

The builders of the Rust and C++ clients check nothing: a key may come twice, and bytes, dtype and
shape need not fit together.  The server accepts what has bytes and a dtype; what the model is given,
and whether there is anything to give, depends on each entry alone.
-/

namespace Inferential

open PyStd Layout

namespace Client

variable {ν Obj : Type}

/-! ## Entries -/

/-- The bytes are a whole number of elements, as many as the shape holds. -/
def TensorEntry.Fits (infers : Int → Bool) (e : TensorEntry) (d : NpDtype) : Prop :=
  d.itemsize ∣ e.data.length ∧ ShapeFits infers e.shape (e.data.length / d.itemsize)

instance (infers : Int → Bool) (e : TensorEntry) (d : NpDtype) : Decidable (e.Fits infers d) :=
  inferInstanceAs (Decidable (_ ∧ _))

/-- The array that a model is given for an entry, if it can be made. -/
def TensorEntry.array (infers : Int → Bool) (e : TensorEntry) : Option NdArray :=
  match dtypeToNumpy e.dtype with
  | .error _ => none
  | .ok d =>
      if e.Fits infers d then
        some ⟨d, inferShape infers e.shape (e.data.length / d.itemsize), e.data⟩
      else none

/-- The descriptor is that of the entry, and cuts its bytes out of the payload. -/
structure Describes (payload : Bytes) (tensor : Tensor) (e : TensorEntry) : Prop where
  key : tensor.key = e.key
  dtype : tensor.dtype = e.dtype
  shape : tensor.shape = e.shape
  encoding : tensor.encoding = .raw
  bytes : tensorBytes payload tensor = e.data
  inside : tensor.byteOffset + tensor.byteLength ≤ payload.length
  length : tensor.byteLength = e.data.length

theorem LaidOut.describes {entries : List TensorEntry} {tensors : List Tensor} {payload : Bytes}
    (h : LaidOut entries tensors payload) : List.Forall₂ (Describes payload) tensors entries := by
  have hcut : tensors.map (tensorBytes payload) = entries.map TensorEntry.data := by
    rw [← h.tiles.cut, List.map_map]
    rfl
  have hlength : tensors.length = entries.length := by
    simpa using congrArg List.length h.named
  refine List.forall₂_iff_get.mpr ⟨hlength, fun i hi hi' => ?_⟩
  -- descriptor by descriptor
  have hnamed := congrArg (fun l => l[i]?) h.named
  have hbytes := congrArg (fun l => l[i]?) hcut
  simp only [List.getElem?_map, List.getElem?_eq_getElem hi, List.getElem?_eq_getElem hi',
    Option.map_some, Option.some.injEq, Prod.mk.injEq] at hnamed hbytes
  rcases hnamed with ⟨hkey, hdtype, hshape, hencoding⟩
  have hinside : (tensors.get ⟨i, hi⟩).range.stop ≤ payload.length :=
    h.tiles.stop_le (List.mem_map_of_mem (List.getElem_mem hi))
  have hcutLength := Range.cut_length hinside
  have hdata : (tensors.get ⟨i, hi⟩).range.cut payload = (entries.get ⟨i, hi'⟩).data := hbytes
  rw [hdata] at hcutLength
  exact ⟨hkey, hdtype, hshape, hencoding, hbytes, hinside, hcutLength.symm⟩

/-- A tensor is loaded exactly when its entry can be made an array, and as this array. -/
theorem Describes.load {np : Numpy Obj} (hnp : np.Documented) {payload : Bytes} {tensor : Tensor}
    {e : TensorEntry} (h : Describes payload tensor e) (a : NdArray) :
    loadTensor np payload tensor = .ok a ↔ e.array np.infers = some a := by
  unfold loadTensor TensorEntry.array
  rw [h.dtype, h.bytes, h.shape]
  cases hdtype : dtypeToNumpy e.dtype with
  | error err => simp
  | ok d =>
      by_cases hdvd : d.itemsize ∣ e.data.length
      · simp only [hnp.frombuffer_ok (itemsize_pos hdtype) hdvd]
        by_cases hshape : ShapeFits np.infers e.shape (e.data.length / d.itemsize)
        · have hok := hnp.reshape_ok ⟨d, [e.data.length / d.itemsize], e.data⟩ e.shape
            (by simpa [NdArray.size] using hshape)
          have hfits : e.Fits np.infers d := ⟨hdvd, hshape⟩
          simp [hok, hfits, NdArray.size]
        · rcases hnp.reshape_raises ⟨d, [e.data.length / d.itemsize], e.data⟩ e.shape
            (by simpa [NdArray.size] using hshape) with ⟨err, herr⟩
          have hnot : ¬ e.Fits np.infers d := fun hfits => hshape hfits.2
          simp [herr, hnot]
      · rcases hnp.frombuffer_raises hdvd with ⟨err, herr⟩
        have hnot : ¬ e.Fits np.infers d := fun hfits => hdvd hfits.1
        simp [herr, hnot]

/-- The last entry of a key is the one that the model is given. -/
def lastArray (infers : Int → Bool) (entries : List TensorEntry) (k : String) : Option ObsValue :=
  (entries.filter fun e => e.key = k).getLast?.bind fun e => (e.array infers).map .array

theorem lastArray_cons {infers : Int → Bool} {e : TensorEntry} {entries : List TensorEntry}
    (hall : ∀ e ∈ entries, (e.array infers).isSome) (k : String) :
    lastArray infers (e :: entries) k =
      (lastArray infers entries k).or (if e.key = k then (e.array infers).map .array else none) := by
  unfold lastArray
  by_cases hk : e.key = k
  · rw [List.filter_cons_of_pos (by simpa using hk), List.getLast?_cons, if_pos hk]
    cases hlast : (entries.filter fun e => e.key = k).getLast? with
    | none => rfl
    | some last =>
        have hmem := List.mem_of_mem_filter (List.mem_of_getLast? hlast)
        rcases Option.isSome_iff_exists.mp (hall last hmem) with ⟨a, ha⟩
        simp [ha]
  · rw [List.filter_cons_of_neg (by simpa using hk), if_neg hk, Option.or_none]

/-- All entries become arrays, or the loading raises. -/
theorem loadTensors_entries {np : Numpy Obj} (hnp : np.Documented) {payload : Bytes}
    {tensors : List Tensor} {entries : List TensorEntry}
    (h : List.Forall₂ (Describes payload) tensors entries) (result : Dict String ObsValue) :
    ((∃ result', loadTensors np payload tensors result = .ok result') ↔
        ∀ e ∈ entries, (e.array np.infers).isSome) ∧
      ∀ result', loadTensors np payload tensors result = .ok result' →
        ∀ k, result'.get? k = (lastArray np.infers entries k).or (result.get? k) := by
  induction h generalizing result with
  | nil =>
      refine ⟨by simp [loadTensors], ?_⟩
      rintro result' ⟨rfl⟩ k
      rfl
  | @cons tensor e tensors entries hone _ ih =>
      rw [List.forall_mem_cons]
      cases hload : loadTensor np payload tensor with
      | error err =>
          have hnone : ¬ (e.array np.infers).isSome := by
            intro hsome
            rcases Option.isSome_iff_exists.mp hsome with ⟨a, ha⟩
            rw [(hone.load hnp a).mpr ha] at hload
            cases hload
          simp [loadTensors, hload, hnone]
      | ok a =>
          have ha : e.array np.infers = some a := (hone.load hnp a).mp hload
          rcases ih (result.set tensor.key (.array a)) with ⟨hok, hget⟩
          simp only [loadTensors, hload, ha, Option.isSome_some, true_and]
          refine ⟨hok, fun result' hresult k => ?_⟩
          rw [hget result' hresult, lastArray_cons (hok.mp ⟨result', hresult⟩), hone.key, ha,
            Dict.get?_set]
          cases lastArray np.infers entries k with
          | some v => rfl
          | none =>
              by_cases hk : k = e.key
              · simp [hk]
              · simp [hk, Ne.symm hk]

/-! ## The observation -/

/-- The generated code of the server parses the message that the client has encoded; the entries of
a map come in any order. -/
structure ObservationDecodes (pb : Protobuf ν) (encode : Observation ν → Bytes)
    (obs parsed : Observation ν) : Prop where
  parse : pb.parseObservation (encode obs) = .ok parsed
  client : parsed.client = obs.client
  urgency : parsed.urgency = obs.urgency
  tensors : parsed.tensors = obs.tensors
  modelId : parsed.modelId = obs.modelId
  stepsRemaining : parsed.stepsRemaining = obs.stepsRemaining
  metadata : ∀ k, parsed.metadata.get? k = obs.metadata.get? k
  priority : parsed.priority = obs.priority

/-- The builder names its client and its model, and every tensor has bytes and a dtype. -/
structure ObservationBuilder.Admissible (b : ObservationBuilder ν) : Prop where
  clientId : b.clientId ≠ ""
  modelId : b.modelId ≠ ""
  tensors : ∀ e ∈ b.tensors, KnownDType e.dtype ∧ e.data ≠ []

/-- What the model is given under a key: the last metadata, or else the last tensor. -/
def ObservationBuilder.given (infers : Int → Bool) (b : ObservationBuilder ν) (k : String) :
    Option ObsValue :=
  ((b.metadata.filter fun kv => kv.1 = k).getLast?.map fun kv => .text kv.2).or
    (lastArray infers b.tensors k)

/-- What the server does with the observation of a builder. -/
structure HandedOver (pb : Protobuf ν) (np : Numpy Obj) (b : ObservationBuilder ν)
    (envelope payload : Bytes) : Prop where
  accepted : ∀ nowNs receivedAt,
    (∃ decoded, decode pb nowNs envelope payload receivedAt = .ok decoded) ↔ b.Admissible
  fields : ∀ nowNs receivedAt decoded, decode pb nowNs envelope payload receivedAt = .ok decoded →
    decoded.clientId = b.clientId ∧ decoded.modelId = b.modelId ∧ decoded.urgency = b.urgency ∧
      decoded.stepsRemaining = b.stepsRemaining ∧ decoded.priority = asUint32 b.priority
  rebuilt : ∀ req : InferenceRequest ν, req.envelope = envelope → req.payload = payload →
    ((∃ result, reconstructNumpy pb np req = .ok result) ↔
      ∀ e ∈ b.tensors, (e.array np.infers).isSome)
  given : ∀ req : InferenceRequest ν, req.envelope = envelope → req.payload = payload →
    ∀ result, reconstructNumpy pb np req = .ok result → ∀ k, result.get? k = b.given np.infers k

section Handed

variable {pb : Protobuf ν} {np : Numpy Obj} {b : ObservationBuilder ν} {obs parsed : Observation ν}
  {payload : Bytes}

/-- The tensors that the entries became are acceptable exactly when the entries are. -/
theorem describes_acceptable {tensors : List Tensor} {entries : List TensorEntry}
    (h : List.Forall₂ (Describes payload) tensors entries) :
    (∀ t ∈ tensors, Convertible t ∧ InRange payload.length t) ↔
      ∀ e ∈ entries, KnownDType e.dtype ∧ e.data ≠ [] := by
  induction h with
  | nil => simp
  | @cons tensor e tensors entries hone _ ih =>
      rw [List.forall_mem_cons, List.forall_mem_cons, ih]
      refine and_congr_left' ⟨?_, ?_⟩
      · rintro ⟨hconvertible, hrange⟩
        refine ⟨hone.dtype ▸ hconvertible.dtype, ?_⟩
        have hpos : 0 < e.data.length := hone.length ▸ hrange.nonempty
        exact List.ne_nil_of_length_pos hpos
      · rintro ⟨hdtype, hdata⟩
        have hpos : 0 < tensor.byteLength := hone.length ▸ List.length_pos_iff.mpr hdata
        refine ⟨⟨hone.dtype ▸ hdtype, ?_⟩, hpos, hone.inside⟩
        rw [hone.encoding]
        decide

/-- What `decode` copies from the message. -/
theorem decode_copies {nowNs : Int} {envelope : Bytes} {receivedAt : Rat}
    {decoded : DecodedObservation ν}
    (h : decode pb nowNs envelope payload receivedAt = .ok decoded)
    (hparse : pb.parseObservation envelope = .ok obs) :
    decoded.urgency = obs.urgency ∧ decoded.stepsRemaining = obs.stepsRemaining ∧
      decoded.priority = obs.priority := by
  unfold decode at h
  simp only [hparse] at h
  split at h
  · cases h
  · split at h
    · cases h
    · split at h
      · cases h
      · split at h
        · cases h
        · split at h
          · cases h
          · rcases Except.ok.inj h with rfl
            exact ⟨rfl, rfl, rfl⟩

/-- The message that `send` builds repeats the builder. -/
theorem ObservationBuilder.sendWith_fields {maxSize : UInt64} {ts : Nat}
    (h : b.sendWith maxSize ts = some (obs, payload)) :
    obs.client = some b.clientId ∧ obs.modelId = b.modelId ∧ obs.urgency = b.urgency ∧
      obs.stepsRemaining = b.stepsRemaining ∧ obs.priority = asUint32 b.priority ∧
      obs.metadata = b.metadata.foldl (fun d kv => d.set kv.1 kv.2) Dict.empty := by
  unfold ObservationBuilder.sendWith at h
  split at h
  · cases h
  · rcases Prod.mk.inj (Option.some.inj h) with ⟨rfl, rfl⟩
    exact ⟨rfl, rfl, rfl, rfl, rfl, rfl⟩

/-- An observation is accepted exactly when its builder is admissible. -/
theorem accepted_iff {maxSize : UInt64} {ts : Nat}
    (h : b.sendWith maxSize ts = some (obs, payload)) {encode : Observation ν → Bytes}
    (hdecodes : ObservationDecodes pb encode obs parsed) (nowNs : Int) (receivedAt : Rat) :
    (∃ decoded, decode pb nowNs (encode obs) payload receivedAt = .ok decoded) ↔
      b.Admissible := by
  rcases ObservationBuilder.sendWith_fields h with ⟨hclient, hmodel, -, -, -, -⟩
  have htensors := describes_acceptable (ObservationBuilder.sendWith_laidOut h).describes
  have hnamed : Named parsed ↔ b.clientId ≠ "" ∧ b.modelId ≠ "" := by
    constructor
    · rintro ⟨⟨clientId, hsome, hid⟩, hmodelId⟩
      rw [hdecodes.client, hclient] at hsome
      rw [hdecodes.modelId, hmodel] at hmodelId
      exact ⟨Option.some.inj hsome ▸ hid, hmodelId⟩
    · rintro ⟨hid, hmodelId⟩
      refine ⟨⟨b.clientId, hdecodes.client.trans hclient, hid⟩, ?_⟩
      rw [hdecodes.modelId, hmodel]
      exact hmodelId
  have hsame : ∀ obs', pb.parseObservation (encode obs) = .ok obs' → obs' = parsed :=
    fun obs' hparse => Except.ok.inj (hparse.symm.trans hdecodes.parse)
  rw [← hdecodes.tensors] at htensors
  rcases decode_cases pb nowNs (encode obs) payload receivedAt with
    ⟨obs', decoded, hdecode, hparse, hnames, hgood, -⟩ | ⟨message, hdecode, hrejected⟩ |
      ⟨obs', message, hdecode, hparse, -, hbad⟩
  · rcases hsame obs' hparse with rfl
    refine iff_of_true ⟨decoded, hdecode⟩ ?_
    exact ⟨(hnamed.mp hnames).1, (hnamed.mp hnames).2, htensors.mp hgood⟩
  · refine iff_of_false (by simp [hdecode]) fun hadmissible => ?_
    have hnames := hnamed.mpr ⟨hadmissible.clientId, hadmissible.modelId⟩
    refine (hrejected parsed hdecodes.parse hnames).2 fun s hs => ?_
    exact (htensors.mpr hadmissible.tensors s hs).2
  · rcases hsame obs' hparse with rfl
    refine iff_of_false (by simp [hdecode]) fun hadmissible => ?_
    exact hbad fun s hs => (htensors.mpr hadmissible.tensors s hs).1

/-- The metadata are written over the tensors. -/
theorem reconstruct_given {maxSize : UInt64} {ts : Nat}
    (h : b.sendWith maxSize ts = some (obs, payload)) (hnp : np.Documented)
    {encode : Observation ν → Bytes} (hdecodes : ObservationDecodes pb encode obs parsed)
    {req : InferenceRequest ν} (henvelope : req.envelope = encode obs)
    (hpayload : req.payload = payload) :
    ((∃ result, reconstructNumpy pb np req = .ok result) ↔
        ∀ e ∈ b.tensors, (e.array np.infers).isSome) ∧
      ∀ result, reconstructNumpy pb np req = .ok result → ∀ k, result.get? k = b.given np.infers k := by
  rcases loadTensors_entries hnp (ObservationBuilder.sendWith_laidOut h).describes Dict.empty with
    ⟨hok, hget⟩
  have hmetadata : ∀ k, parsed.metadata.get? k =
      ((b.metadata.filter fun kv => kv.1 = k).getLast?.map fun kv => kv.2) := by
    intro k
    rcases ObservationBuilder.sendWith_fields h with ⟨-, -, -, -, -, hset⟩
    rw [hdecodes.metadata, hset, Dict.get?_foldl_last]
    simp
  unfold reconstructNumpy
  simp only [henvelope, hpayload, hdecodes.parse, hdecodes.tensors]
  cases hload : loadTensors np payload obs.tensors Dict.empty with
  | error err =>
      rw [hload] at hok
      exact ⟨by simpa using hok, by simp⟩
  | ok result =>
      refine ⟨iff_of_true ⟨_, rfl⟩ (hok.mp ⟨result, hload⟩), ?_⟩
      rintro _ ⟨rfl⟩ k
      have hlookup : parsed.metadata.items.lookup k = _ := hmetadata k
      rw [Dict.get?_foldl_set _ parsed.metadata.nodup, hlookup, hget result hload, Option.map_map,
        ObservationBuilder.given]
      simp [Function.comp_def]

/-- What the native builders send is accepted exactly when they name their client and their model
and every tensor has bytes and a dtype, whatever the keys, the shapes and the lengths.  The model is
given the last metadata of a key, or else its last tensor; it is given nothing exactly when some
entry, even one that is overwritten, is no array. -/
theorem observation_handed_over {maxSize : UInt64} {ts : Nat}
    (h : b.sendWith maxSize ts = some (obs, payload)) (hnp : np.Documented)
    {encode : Observation ν → Bytes} (hdecodes : ObservationDecodes pb encode obs parsed) :
    HandedOver pb np b (encode obs) payload where
  accepted := accepted_iff h hdecodes
  fields := by
    intro nowNs receivedAt decoded hdecode
    rcases ObservationBuilder.sendWith_fields h with
      ⟨hclient, hmodel, hurgency, hsteps, hpriority, -⟩
    rcases decode_reads hdecode hdecodes.parse with ⟨hid, hmodelId⟩
    rcases decode_copies hdecode hdecodes.parse with ⟨hurgency', hsteps', hpriority'⟩
    rw [hdecodes.client, hclient] at hid
    refine ⟨(Option.some.inj hid).symm, ?_, ?_, ?_, ?_⟩
    · rw [← hmodelId, hdecodes.modelId, hmodel]
    · rw [hurgency', hdecodes.urgency, hurgency]
    · rw [hsteps', hdecodes.stepsRemaining, hsteps]
    · rw [hpriority', hdecodes.priority, hpriority]
  rebuilt := fun _ henvelope hpayload => (reconstruct_given h hnp hdecodes henvelope hpayload).1
  given := fun _ henvelope hpayload => (reconstruct_given h hnp hdecodes henvelope hpayload).2

end Handed

/-! ### A key that comes twice -/

/-- The joints are sent twice, and a task. -/
def twiceBuilder : ObservationBuilder Rat where
  clientId := "robot-01"
  modelId := "policy"
  urgency := 0
  priority := 1
  tensors := [⟨"joints", [1, 2], .uint8, [2]⟩, ⟨"joints", [3, 4, 5], .uint8, [-1]⟩]
  metadata := [("task", "pick"), ("task", "place")]

def twiceObservation : Observation Rat :=
  { plainObservation with
    tensors := [⟨"joints", .uint8, [2], 0, 2, 0, .raw⟩, ⟨"joints", .uint8, [-1], 2, 3, 0, .raw⟩]
    metadata := Dict.empty.set "task" "place" }

theorem twiceBuilder_handed_over :
    twiceBuilder.send 0 = some (twiceObservation, [1, 2, 3, 4, 5]) ∧
      HandedOver (.ofMessages [twiceObservation]) Numpy.reference twiceBuilder
        (Wire.observation twiceObservation) [1, 2, 3, 4, 5] ∧
      twiceBuilder.Admissible ∧
      twiceBuilder.given Numpy.reference.infers "joints" = some (.array ⟨⟨"uint8", "|u1", 1⟩, [3], [3, 4, 5]⟩) ∧
      twiceBuilder.given Numpy.reference.infers "task" = some (.text "place") := by
  have hsend : twiceBuilder.send 0 = some (twiceObservation, [1, 2, 3, 4, 5]) := rfl
  have hdecodes : ObservationDecodes (.ofMessages [twiceObservation]) Wire.observation
      twiceObservation twiceObservation :=
    ⟨by simp [Protobuf.ofMessages], rfl, rfl, rfl, rfl, rfl, fun _ => rfl, rfl⟩
  refine ⟨hsend, observation_handed_over hsend Numpy.reference_documented hdecodes, ?_, rfl, rfl⟩
  exact ⟨by decide, by decide, by decide⟩

end Client
end Inferential
