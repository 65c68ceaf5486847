import Inferential.Client.Native
import Inferential.Dispatch.Base

/-!
# Bounds — how the native clients cut a payload

The test `start + len <= payload.len()` of the three `get_result`, with the sum as the machine forms
it.  It keeps every read inside the payload, except for a sum that wraps to a number that passes.
-/

namespace Inferential

open PyStd

namespace Client
namespace Native

/-! ## One tensor -/

/-- `start + len` on a target of 64 bits; `none` when a Rust build with overflow checks panics. -/
def addUsize (checked : Bool) (a b : UInt64) : Option UInt64 :=
  if checked = true ∧ 2 ^ 64 ≤ a.toNat + b.toNat then none else some (a + b)

/-- The elements from `start` up to `stop`; `none` when that is no range of the payload, where Rust
panics and C++ reads outside. -/
def sliceRange (payload : Bytes) (start stop : UInt64) : Option Bytes :=
  if start.toNat ≤ stop.toNat ∧ stop.toNat ≤ payload.length then
    some ((payload.take stop.toNat).drop start.toNat)
  else none

/-- The data of a tensor in Rust. -/
def readRust (checked : Bool) (payload : Bytes) (tensor : Tensor) : Option Bytes :=
  let start := tensor.byteOffset.toUInt64
  let len := tensor.byteLength.toUInt64
  match addUsize checked start len with
  | none => none
  | some stop => if stop.toNat ≤ payload.length then sliceRange payload start stop else some []

/-- The data of a tensor in C++, where the sum always wraps. -/
def readCpp (payload : Bytes) (tensor : Tensor) : Option Bytes :=
  let start := tensor.byteOffset.toUInt64
  let len := tensor.byteLength.toUInt64
  if (start + len).toNat ≤ payload.length then sliceRange payload start (start + len) else some []

/-! ## One response -/

/-- `Model::get_result` in Rust. -/
def getResult (checked : Bool) (resp : ModelResponse) (payload : Bytes) :
    Option (Dict String TensorData) :=
  getResultWith (readRust checked payload) resp

/-- `AsyncModel::get_result` -/
def getResultAsync (checked : Bool) (resp : ModelResponse) (payload : Bytes) :
    Option (Dict String TensorData) :=
  getResultWith (readRust checked payload) resp

/-- `Model::get_result` in C++. -/
def getResultCpp (resp : ModelResponse) (payload : Bytes) : Option (Dict String TensorData) :=
  getResultWith (readCpp payload) resp

/-- The bytes of a range inside the payload, and none of another. -/
def exactData (payload : Bytes) (tensor : Tensor) : Bytes :=
  if tensor.byteOffset + tensor.byteLength ≤ payload.length then tensorBytes payload tensor else []

/-! ## Where the sum wraps -/

/-- The range is given by two fields of type `uint64`. -/
structure Wire64 (tensor : Tensor) : Prop where
  byteOffset : tensor.byteOffset < 2 ^ 64
  byteLength : tensor.byteLength < 2 ^ 64

theorem toNat_toUInt64 {n : Nat} (h : n < 2 ^ 64) : n.toUInt64.toNat = n := by
  rw [Nat.toUInt64_eq, UInt64.toNat_ofNat']
  exact Nat.mod_eq_of_lt h

theorem sliceRange_exact {payload : Bytes} {tensor : Tensor} {start stop : UInt64}
    (hstart : start.toNat = tensor.byteOffset)
    (hstop : stop.toNat = tensor.byteOffset + tensor.byteLength)
    (hinside : stop.toNat ≤ payload.length) :
    sliceRange payload start stop = some (tensorBytes payload tensor) := by
  have hle : start.toNat ≤ stop.toNat := by omega
  rw [sliceRange, if_pos ⟨hle, hinside⟩, List.drop_take, hstop, hstart, tensorBytes,
    Nat.add_sub_cancel_left]

/-- A wrapped sum is below the start, so no slice is left of it. -/
theorem sliceRange_wrapped {payload : Bytes} {start stop : UInt64}
    (h : stop.toNat < start.toNat) : sliceRange payload start stop = none := by
  rw [sliceRange, if_neg]
  omega

theorem readCpp_eq (payload : Bytes) (tensor : Tensor) :
    readCpp payload tensor = readRust false payload tensor := by
  simp [readCpp, readRust, addUsize]

/-- The read in Rust fails exactly when the sum overflows, and is exact otherwise. -/
theorem readRust_eq (checked : Bool) (payload : Bytes) {tensor : Tensor} (hwire : Wire64 tensor) :
    readRust checked payload tensor =
      if Overflows checked payload tensor then none else some (exactData payload tensor) := by
  have hstart := toNat_toUInt64 hwire.byteOffset
  have hlen := toNat_toUInt64 hwire.byteLength
  have hstop : (tensor.byteOffset.toUInt64 + tensor.byteLength.toUInt64).toNat =
      (tensor.byteOffset + tensor.byteLength) % 2 ^ 64 := by
    rw [UInt64.toNat_add, hstart, hlen]
  have hlong := hwire.byteLength
  unfold readRust addUsize
  dsimp only
  rw [hstart, hlen]
  by_cases hwraps : 2 ^ 64 ≤ tensor.byteOffset + tensor.byteLength
  · by_cases hchecked : checked = true
    · have hoverflow : Overflows checked payload tensor := ⟨hwraps, .inl hchecked⟩
      rw [if_pos ⟨hchecked, hwraps⟩, if_pos hoverflow]
    · rw [if_neg fun h => hchecked h.1]
      dsimp only
      by_cases hpasses : (tensor.byteOffset + tensor.byteLength) % 2 ^ 64 ≤ payload.length
      · -- the test passes, and the slice starts after its end
        have hoverflow : Overflows checked payload tensor := ⟨hwraps, .inr hpasses⟩
        rw [if_pos hoverflow, if_pos (hstop ▸ hpasses)]
        apply sliceRange_wrapped
        omega
      · have hexact : ¬ Overflows checked payload tensor := by
          rintro ⟨-, hyes | hpass⟩
          · exact hchecked hyes
          · exact hpasses hpass
        have hout : ¬ tensor.byteOffset + tensor.byteLength ≤ payload.length := by
          have hmod := Nat.mod_le (tensor.byteOffset + tensor.byteLength) (2 ^ 64)
          omega
        rw [if_neg hexact, if_neg (hstop ▸ hpasses), exactData, if_neg hout]
  · have hsum : (tensor.byteOffset + tensor.byteLength) % 2 ^ 64 =
        tensor.byteOffset + tensor.byteLength := Nat.mod_eq_of_lt (Nat.not_le.mp hwraps)
    rw [hsum] at hstop
    rw [if_neg fun h => hwraps h.2, if_neg fun h => hwraps h.1, exactData]
    dsimp only
    rw [hstop]
    by_cases hinside : tensor.byteOffset + tensor.byteLength ≤ payload.length
    · rw [if_pos hinside, if_pos hinside]
      exact sliceRange_exact hstart hstop (hstop ▸ hinside)
    · rw [if_neg hinside, if_neg hinside]

/-! ## Where a response is read exactly -/

/-- What `get_result` is to return: the tensors that it reads, with exactly their bytes. -/
def exactOutput (resp : ModelResponse) (payload : Bytes) : Dict String TensorData :=
  let fixed := (Dict.empty.set "response_id" (.ofString "response_id" resp.responseId)).set
    "model_id" (.ofString "model_id" resp.modelId)
  let read := (resp.tensors.filter Present).foldl (fun output tensor =>
    output.set tensor.key
      { key := tensor.key
        data := exactData payload tensor
        shape := tensor.shape
        dtype := tensor.dtype }) fixed
  resp.metadata.items.foldl (fun output kv => output.set kv.1 (.ofString kv.1 kv.2)) read

/-- The loop depends on the reads of the tensors that are present. -/
theorem insertRead_congr {read read' : Tensor → Option Bytes} {tensors : List Tensor}
    (h : ∀ tensor ∈ tensors, Present tensor → read tensor = read' tensor)
    (output : Dict String TensorData) :
    insertRead read tensors output = insertRead read' tensors output := by
  induction tensors generalizing output with
  | nil => rfl
  | cons tensor tensors ih =>
      rcases List.forall_mem_cons.mp h with ⟨hone, hrest⟩
      by_cases hpresent : Present tensor
      · simp only [insertRead, if_pos hpresent, hone hpresent]
        cases read' tensor with
        | none => rfl
        | some data => exact ih hrest _
      · simpa only [insertRead, if_neg hpresent] using ih hrest output

theorem insertRead_exact (payload : Bytes) (tensors : List Tensor)
    (output : Dict String TensorData) :
    insertRead (fun tensor => some (exactData payload tensor)) tensors output =
      some ((tensors.filter Present).foldl (fun output tensor => output.set tensor.key
        { key := tensor.key
          data := exactData payload tensor
          shape := tensor.shape
          dtype := tensor.dtype }) output) := by
  induction tensors generalizing output with
  | nil => rfl
  | cons tensor tensors ih =>
      by_cases hpresent : Present tensor
      · simp [insertRead, hpresent, ih]
      · simp [insertRead, hpresent, ih]

/-- A reader that fails where the sum overflows and is exact elsewhere gives the exact output
exactly when no tensor that is present overflows. -/
theorem getResultWith_iff {checked : Bool} {payload : Bytes} {read : Tensor → Option Bytes}
    {resp : ModelResponse}
    (hread : ∀ tensor ∈ resp.tensors, read tensor =
      if Overflows checked payload tensor then none else some (exactData payload tensor)) :
    getResultWith read resp = some (exactOutput resp payload) ↔
      ∀ tensor ∈ resp.tensors, Present tensor → ¬ Overflows checked payload tensor := by
  constructor
  · intro hresult tensor htensor hpresent hoverflow
    have hsome : (getResultWith read resp).isSome := by
      rw [hresult]
      rfl
    rw [getResultWith, Option.isSome_map, insertRead_isSome_iff] at hsome
    have hone := hsome tensor htensor hpresent
    rw [hread tensor htensor, if_pos hoverflow] at hone
    cases hone
  · intro hall
    have hsame : ∀ tensor ∈ resp.tensors, Present tensor →
        read tensor = some (exactData payload tensor) := by
      intro tensor htensor hpresent
      rw [hread tensor htensor, if_neg (hall tensor htensor hpresent)]
    rw [getResultWith, insertRead_congr hsame, insertRead_exact]
    rfl

theorem sliceOf_exact {checked : Bool} {payload : Bytes} {tensor : Tensor}
    (h : ¬ Overflows checked payload tensor) : sliceOf payload tensor = exactData payload tensor := by
  have hmod := Nat.mod_le (tensor.byteOffset + tensor.byteLength) (2 ^ 64)
  by_cases hwraps : 2 ^ 64 ≤ tensor.byteOffset + tensor.byteLength
  · have hpass : ¬ (tensor.byteOffset + tensor.byteLength) % 2 ^ 64 ≤ payload.length :=
      fun hpass => h ⟨hwraps, .inr hpass⟩
    have hout : ¬ tensor.byteOffset + tensor.byteLength ≤ payload.length := by omega
    rw [sliceOf, exactData, if_neg hpass, if_neg hout]
  · rw [sliceOf, exactData, Nat.mod_eq_of_lt (Nat.not_le.mp hwraps)]
    rfl

/-- The model of the connection reads a response as the machine does. -/
theorem getResult_eq_outputOf (checked : Bool) {resp : ModelResponse} (payload : Bytes)
    (hwire : ∀ tensor ∈ resp.tensors, Wire64 tensor) :
    getResult checked resp payload = outputOf checked resp payload := by
  rw [getResult, outputOf, getResultWith, getResultWith, insertRead_congr]
  intro tensor htensor _
  rw [readRust_eq checked payload (hwire tensor htensor), readOf]
  by_cases hoverflow : Overflows checked payload tensor
  · rw [if_pos hoverflow, if_pos hoverflow]
  · rw [if_neg hoverflow, if_neg hoverflow, sliceOf_exact hoverflow]

/-- Every tensor that is read gets exactly its bytes, or none when they are not in the payload, and
nothing panics, exactly when no such tensor has a sum of offset and length from 2^64 on which wraps
to a number inside the payload or is formed with overflow checks. -/
theorem get_result_exact_iff (checked : Bool) (resp : ModelResponse) (payload : Bytes)
    (hwire : ∀ tensor ∈ resp.tensors, Wire64 tensor) :
    (getResult checked resp payload = some (exactOutput resp payload) ↔
      ∀ tensor ∈ resp.tensors, Present tensor → ¬ Overflows checked payload tensor) ∧
    (getResultAsync checked resp payload = some (exactOutput resp payload) ↔
      ∀ tensor ∈ resp.tensors, Present tensor → ¬ Overflows checked payload tensor) ∧
    (getResultCpp resp payload = some (exactOutput resp payload) ↔
      ∀ tensor ∈ resp.tensors, Present tensor → ¬ Overflows false payload tensor) := by
  have hrust : ∀ checked, ∀ tensor ∈ resp.tensors, readRust checked payload tensor =
      if Overflows checked payload tensor then none else some (exactData payload tensor) :=
    fun checked tensor htensor => readRust_eq checked payload (hwire tensor htensor)
  refine ⟨getResultWith_iff (hrust checked), getResultWith_iff (hrust checked), ?_⟩
  apply getResultWith_iff
  intro tensor htensor
  rw [readCpp_eq, hrust false tensor htensor]

/-- Four bytes from four below 2^64 on. -/
def wrappingResponse : ModelResponse :=
  { plainResponse "policy" "1" with
    tensors := [⟨"actions", .float32, [1], 2 ^ 64 - 4, 4, 0, .raw⟩] }

/-- With an empty payload nothing should be read, and no client gets through. -/
theorem wrappingResponse_faults :
    (∀ tensor ∈ wrappingResponse.tensors, Wire64 tensor ∧ exactData [] tensor = []) ∧
      (∀ checked, getResult checked wrappingResponse [] = none ∧
        getResultAsync checked wrappingResponse [] = none) ∧
      getResultCpp wrappingResponse [] = none := by
  refine ⟨?_, ?_, rfl⟩
  · intro tensor htensor
    rcases List.mem_singleton.mp htensor with rfl
    exact ⟨⟨by decide, by decide⟩, rfl⟩
  · intro checked
    cases checked <;> exact ⟨rfl, rfl⟩

/-- A tensor inside the payload and one far behind it. -/
def plainTensors : ModelResponse :=
  { plainResponse "policy" "1" with
    tensors := [⟨"actions", .float32, [1], 0, 4, 0, .raw⟩, ⟨"values", .float32, [1], 4, 4, 0, .raw⟩] }

theorem get_result_exact_plain :
    getResult true plainTensors [1, 2, 3, 4] = some (exactOutput plainTensors [1, 2, 3, 4]) ∧
      getResultCpp plainTensors [1, 2, 3, 4] = some (exactOutput plainTensors [1, 2, 3, 4]) := by
  have hwire : ∀ tensor ∈ plainTensors.tensors, Wire64 tensor := by
    intro tensor htensor
    rcases List.mem_pair.mp htensor with rfl | rfl
    · exact ⟨by decide, by decide⟩
    · exact ⟨by decide, by decide⟩
  have hiff := get_result_exact_iff true plainTensors [1, 2, 3, 4] hwire
  exact ⟨hiff.1.mpr (by decide), hiff.2.2.mpr (by decide)⟩

end Native
end Client
end Inferential
