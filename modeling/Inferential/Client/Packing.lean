import Inferential.Client.Codec

/-!
# Packing — arrays laid end to end in a payload

Both encoders append the bytes of an array to the payload and describe them by a tensor, both
decoders cut them out again.  What an encoder collects is described by the value of each key, and
what a decoder gives is that value, read in the byte order of the machine.
-/

namespace Inferential

open PyStd

variable {ν Obj : Type}

/-! ## Arrays -/

/-- The dtype that an array is read with at the other end. -/
def NpDtype.asRead (d : NpDtype) : NpDtype :=
  match dtypeFromNumpy d with
  | .error _ => d
  | .ok tag =>
      match dtypeToNumpy tag with
      | .error _ => d
      | .ok native => native

/-- The array that is read at the other end. -/
def NdArray.asRead (a : NdArray) : NdArray := { a with dtype := a.dtype.asRead }

def ObsValue.asRead : ObsValue → ObsValue
  | .array a => .array a.asRead
  | .text s => .text s

/-- What numpy keeps for every array: it has not too many dimensions and the bytes of its elements,
and the name of its dtype determines their size. -/
structure NdArray.WellFormed (a : NdArray) : Prop where
  ranked : a.shape.length ≤ maxDims
  sized : a.data.length = a.size * a.dtype.itemsize
  named : ∀ tag native, dtypeFromNumpy a.dtype = .ok tag → dtypeToNumpy tag = .ok native →
    native.itemsize = a.dtype.itemsize

/-- Every row of the one table has a row in the other, which is not the default and is in the byte
order of the machine. -/
theorem dtype_roundtrip {d : NpDtype} {tag : DType} (h : dtypeFromNumpy d = .ok tag) :
    ∃ native, dtypeToNumpy tag = .ok native ∧ tag.number ≠ 0 ∧
      native.str.toList.head? ≠ some '>' := by
  unfold dtypeFromNumpy at h
  repeat' split at h
  -- the seven rows of the table, then no row
  all_goals first
    | rcases Except.ok.inj h with rfl
      exact ⟨_, rfl, by decide, by decide⟩
    | cases h

theorem asRead_dtype {d : NpDtype} {tag : DType} (h : dtypeFromNumpy d = .ok tag) :
    dtypeToNumpy tag = .ok d.asRead ∧ d.asRead.str.toList.head? ≠ some '>' := by
  rcases dtype_roundtrip h with ⟨native, hnative, -, horder⟩
  have hread : d.asRead = native := by simp [NpDtype.asRead, h, hnative]
  rw [hread]
  exact ⟨hnative, horder⟩

theorem NdArray.WellFormed.itemsize_pos {a : NdArray} (hwf : a.WellFormed) {tag : DType}
    (h : dtypeFromNumpy a.dtype = .ok tag) : 0 < a.dtype.itemsize := by
  rcases dtype_roundtrip h with ⟨native, hnative, -, -⟩
  rw [← hwf.named tag native h hnative]
  exact Inferential.itemsize_pos hnative

/-- The bytes of an array with a known dtype are none exactly when it has no elements. -/
theorem data_eq_nil_iff {a : NdArray} (hwf : a.WellFormed) {tag : DType}
    (h : dtypeFromNumpy a.dtype = .ok tag) : a.data = [] ↔ a.size = 0 := by
  have hpos := hwf.itemsize_pos h
  rw [← List.length_eq_zero_iff, hwf.sized, Nat.mul_eq_zero]
  exact or_iff_left hpos.ne'

/-- An array survives exactly when its byte order does not matter. -/
theorem sameValues_asRead_iff {a : NdArray} (hwf : a.WellFormed) {tag : DType}
    (h : dtypeFromNumpy a.dtype = .ok tag) : a.SameValues a.asRead ↔ a.OrderFree := by
  rcases asRead_dtype h with ⟨hnative, horder⟩
  have hraw : ∀ i, a.asRead.element i = a.rawElement i := by
    intro i
    have hitemsize : a.dtype.asRead.itemsize = a.dtype.itemsize := hwf.named tag _ h hnative
    have hlittle : ¬ a.asRead.BigEndian := horder
    rw [NdArray.element, if_neg hlittle]
    simp [NdArray.rawElement, NdArray.asRead, hitemsize]
  constructor
  · rintro ⟨-, hsame⟩ hbig i hi
    have hi' := hsame i hi
    rw [hraw] at hi'
    simpa [NdArray.element, hbig] using hi'
  · intro hfree
    refine ⟨rfl, fun i hi => ?_⟩
    rw [hraw]
    by_cases hbig : a.BigEndian
    · simpa [NdArray.element, hbig] using hfree hbig i hi
    · simp [NdArray.element, hbig]

/-! ## Shapes -/

theorem knownSize_ofNat (shape : List Nat) : knownSize (shape.map Int.ofNat) = shape.prod := by
  have hall : (shape.map Int.ofNat).filter (fun d => 0 ≤ d) = shape.map Int.ofNat := by
    apply List.filter_eq_self.mpr
    simp
  have hid : Int.toNat ∘ Int.ofNat = id := rfl
  rw [knownSize, hall, List.map_map, hid, List.map_id]

theorem inferShape_ofNat {infers : Int → Bool} (hneg : ∀ {d}, infers d = true → d < 0)
    (shape : List Nat) (size : Nat) : inferShape infers (shape.map Int.ofNat) size = shape := by
  unfold inferShape
  rw [List.map_map]
  apply List.map_id''
  intro d
  have hknown : ¬ infers (Int.ofNat d) = true := by
    intro h
    exact absurd (hneg h) (Int.not_lt.mpr (Int.natCast_nonneg d))
  exact if_neg hknown

/-! ## Tensors -/

/-- The tensor describes the array, whose bytes are in the payload. -/
structure Holds (payload : Bytes) (a : NdArray) (tensor : Tensor) : Prop where
  dtype : dtypeFromNumpy a.dtype = .ok tensor.dtype
  shape : tensor.shape = a.shape.map Int.ofNat
  byteLength : tensor.byteLength = a.data.length
  range : tensor.byteOffset + tensor.byteLength ≤ payload.length
  bytes : tensorBytes payload tensor = a.data
  encoding : tensor.encoding = .raw

/-- A payload that grows still holds what it held. -/
theorem Holds.append {payload : Bytes} {a : NdArray} {tensor : Tensor} (h : Holds payload a tensor)
    (more : Bytes) : Holds (payload ++ more) a tensor where
  dtype := h.dtype
  shape := h.shape
  byteLength := h.byteLength
  range := by simpa using Nat.le_trans h.range (Nat.le_add_right _ more.length)
  bytes := by
    have hrange := h.range
    have hoffset : tensor.byteOffset ≤ payload.length := by omega
    have hlength : tensor.byteLength ≤ (payload.drop tensor.byteOffset).length := by
      rw [List.length_drop]
      omega
    rw [← h.bytes, tensorBytes, tensorBytes, List.drop_append_of_le_length hoffset,
      List.take_append_of_le_length hlength]
  encoding := h.encoding

/-- The array that was appended last. -/
theorem Holds.last {payload : Bytes} {a : NdArray} {tensor : Tensor}
    (hdtype : dtypeFromNumpy a.dtype = .ok tensor.dtype)
    (hshape : tensor.shape = a.shape.map Int.ofNat) (hoffset : tensor.byteOffset = payload.length)
    (hlength : tensor.byteLength = a.data.length) (hencoding : tensor.encoding = .raw) :
    Holds (payload ++ a.data) a tensor where
  dtype := hdtype
  shape := hshape
  byteLength := hlength
  range := by simp [hoffset, hlength]
  bytes := by simp [tensorBytes, hoffset, hlength]
  encoding := hencoding

theorem loadTensor_holds {np : Numpy Obj} (hnp : np.Documented) {payload : Bytes} {a : NdArray}
    {tensor : Tensor} (hwf : a.WellFormed) (h : Holds payload a tensor) :
    loadTensor np payload tensor = .ok a.asRead := by
  have hpos := hwf.itemsize_pos h.dtype
  rcases asRead_dtype h.dtype with ⟨hnative, -⟩
  have hitemsize : a.dtype.asRead.itemsize = a.dtype.itemsize := hwf.named _ _ h.dtype hnative
  have hcount : a.data.length / a.dtype.asRead.itemsize = a.size := by
    rw [hitemsize, hwf.sized]
    exact Nat.mul_div_cancel _ hpos
  have hbuffer : np.frombuffer a.data a.dtype.asRead = .ok ⟨a.dtype.asRead, [a.size], a.data⟩ := by
    have hdvd : a.dtype.asRead.itemsize ∣ a.data.length := by
      rw [hitemsize, hwf.sized]
      exact Nat.dvd_mul_left _ _
    rw [hnp.frombuffer_ok (by omega) hdvd, hcount]
  have hfits : ShapeFits np.infers (a.shape.map Int.ofNat) [a.size].prod := by
    refine ⟨by simpa using hwf.ranked, .inl ⟨by simp, ?_⟩⟩
    rw [knownSize_ofNat]
    simp [NdArray.size]
  have hreshape := hnp.reshape_ok ⟨a.dtype.asRead, [a.size], a.data⟩ _ hfits
  simp only [loadTensor, hnative, h.bytes, hbuffer, h.shape, hreshape,
    inferShape_ofNat hnp.infers_neg]
  rfl

/-! ## What an encoder collects -/

/-- The collected tensors and metadata are those of the values of the keys. -/
structure Keeps (look : String → Option ObsValue) (c : Collected) : Prop where
  holds : ∀ tensor ∈ c.tensors, ∃ a, look tensor.key = some (.array a) ∧ Holds c.payload a tensor
  present : ∀ k a, look k = some (.array a) → ∃ tensor ∈ c.tensors, tensor.key = k
  metadata : ∀ k s, c.metadata.get? k = some s ↔ look k = some (.text s)

namespace Keeps

variable {look : String → Option ObsValue} {c : Collected} {k : String}

/-- The tensors of a key all hold the array of the key. -/
theorem holds_array (h : Keeps look c) {tensor : Tensor} (htensor : tensor ∈ c.tensors)
    {a : NdArray} (hlook : look tensor.key = some (.array a)) : Holds c.payload a tensor := by
  rcases h.holds tensor htensor with ⟨a', hlook', hholds⟩
  rcases ObsValue.array.inj (Option.some.inj (hlook.symm.trans hlook')) with rfl
  exact hholds

/-- An array is held by a tensor of its key. -/
theorem exists_holds (h : Keeps look c) {a : NdArray} (hlook : look k = some (.array a)) :
    ∃ tensor ∈ c.tensors, tensor.key = k ∧ Holds c.payload a tensor := by
  rcases h.present k a hlook with ⟨tensor, htensor, rfl⟩
  exact ⟨tensor, htensor, rfl, h.holds_array htensor hlook⟩

/-- A key without a string has no metadata. -/
theorem metadata_eq_none (h : Keeps look c) (hlook : ∀ s, look k ≠ some (.text s)) :
    c.metadata.get? k = none := by
  apply Option.eq_none_iff_forall_ne_some.mpr
  intro s hs
  exact hlook s ((h.metadata k s).mp hs)

/-- A key without an array has no tensor. -/
theorem key_ne (h : Keeps look c) (hlook : ∀ a, look k ≠ some (.array a)) :
    ∀ tensor ∈ c.tensors, tensor.key ≠ k := by
  rintro tensor htensor rfl
  rcases h.holds tensor htensor with ⟨a, ha, -⟩
  exact hlook a ha

theorem empty : Keeps (fun _ => none) {} where
  holds := by simp
  present := by simp
  metadata := by simp

theorem array (h : Keeps look c) (hnew : look k = none) {a : NdArray} {tensor : Tensor}
    (hkey : tensor.key = k) (hlast : Holds (c.payload ++ a.data) a tensor) :
    Keeps (Function.update look k (some (.array a)))
      { c with tensors := c.tensors ++ [tensor], payload := c.payload ++ a.data } where
  holds := by
    intro tensor' htensor'
    rcases List.mem_append.mp htensor' with hold | hnow
    · rcases h.holds tensor' hold with ⟨a', hlook, hholds⟩
      have hne : tensor'.key ≠ k := by
        intro heq
        simp [heq, hnew] at hlook
      exact ⟨a', by rw [Function.update_of_ne hne, hlook], hholds.append a.data⟩
    · rw [List.mem_singleton.mp hnow]
      exact ⟨a, by rw [hkey, Function.update_self], hlast⟩
  present := by
    intro k' a' hlook
    by_cases hk : k' = k
    · exact ⟨tensor, by simp, hkey.trans hk.symm⟩
    · rw [Function.update_of_ne hk] at hlook
      rcases h.present k' a' hlook with ⟨tensor', htensor', hkey'⟩
      exact ⟨tensor', List.mem_append_left _ htensor', hkey'⟩
  metadata := by
    intro k' s
    by_cases hk : k' = k
    · subst hk
      have hnone := h.metadata k' s
      simpa [hnew] using hnone
    · rw [Function.update_of_ne hk]
      exact h.metadata k' s

theorem text (h : Keeps look c) (hnew : look k = none) (s : String) :
    Keeps (Function.update look k (some (.text s))) { c with metadata := c.metadata.set k s } where
  holds := by
    intro tensor htensor
    rcases h.holds tensor htensor with ⟨a, hlook, hholds⟩
    have hne : tensor.key ≠ k := by
      intro heq
      simp [heq, hnew] at hlook
    exact ⟨a, by rw [Function.update_of_ne hne, hlook], hholds⟩
  present := by
    intro k' a hlook
    by_cases hk : k' = k
    · simp [hk] at hlook
    · rw [Function.update_of_ne hk] at hlook
      exact h.present k' a hlook
  metadata := by
    intro k' s'
    rw [Dict.get?_set]
    by_cases hk : k' = k
    · simp [hk]
    · rw [if_neg hk, Function.update_of_ne hk]
      exact h.metadata k' s'

end Keeps

/-- A loop that appends item by item. -/
def collectAll {β : Type} (append : String → β → Collected → Except PyError Collected) :
    List (String × β) → Collected → Except PyError Collected
  | [], c => .ok c
  | (key, value) :: items, c =>
      match append key value c with
      | .error e => .error e
      | .ok c' => collectAll append items c'

/-- A turn with a new key keeps its value, if it has one. -/
def Appends {β : Type} (append : String → β → Collected → Except PyError Collected)
    (value : β → Option ObsValue) : Prop :=
  ∀ (look : String → Option ObsValue) (c c' : Collected) (k : String) (v : β), Keeps look c →
    look k = none → append k v c = .ok c' → Keeps (Function.update look k (value v)) c'

/-- The loop keeps the values of its items, whose keys are new. -/
theorem collectAll_keeps {β : Type} {append : String → β → Collected → Except PyError Collected}
    {value : β → Option ObsValue} (happend : Appends append value) {items : List (String × β)}
    {look : String → Option ObsValue} {c c' : Collected} (hnd : (items.map Prod.fst).Nodup)
    (hnew : ∀ k ∈ items.map Prod.fst, look k = none) (h : Keeps look c)
    (hall : collectAll append items c = .ok c') :
    Keeps (fun k => ((items.lookup k).bind value).or (look k)) c' := by
  induction items generalizing look c with
  | nil =>
      simp only [collectAll, Except.ok.injEq] at hall
      subst hall
      simpa using h
  | cons item items ih =>
      rcases item with ⟨key, v⟩
      rcases List.nodup_cons.mp hnd with ⟨hkey, hrest⟩
      have hfirst : look key = none := hnew key (by simp)
      simp only [collectAll] at hall
      cases hone : append key v c with
      | error e => simp [hone] at hall
      | ok c₁ =>
          simp only [hone] at hall
          have hlater : ∀ k ∈ items.map Prod.fst, Function.update look key (value v) k = none := by
            intro k hk
            have hne : k ≠ key := fun heq => hkey (heq ▸ hk)
            rw [Function.update_of_ne hne]
            exact hnew k (List.mem_cons_of_mem _ hk)
          have hkeeps := ih hrest hlater (happend _ _ _ _ _ h hfirst hone) hall
          -- the same values, key by key
          convert hkeeps using 2 with k
          by_cases hk : k = key
          · have hnone : items.lookup k = none := Dict.lookup_eq_none.mpr (hk ▸ hkey)
            subst hk
            simp [hnone, hfirst]
          · have hbeq : (k == key) = false := by simpa using hk
            simp [List.lookup_cons, hbeq, Function.update_of_ne hk]

/-- From nothing, for the items of a dictionary. -/
theorem collectAll_dict {β : Type} {append : String → β → Collected → Except PyError Collected}
    {value : β → Option ObsValue} (happend : Appends append value) {d : Dict String β}
    {c : Collected} (hall : collectAll append d.items {} = .ok c) :
    Keeps (fun k => (d.get? k).bind value) c := by
  have hkeeps := collectAll_keeps happend d.nodup (fun _ _ => rfl) .empty hall
  simpa [Dict.get?] using hkeeps

/-- A loop gets through when every turn does. -/
theorem collectAll_ok {β : Type} {append : String → β → Collected → Except PyError Collected}
    {items : List (String × β)}
    (hok : ∀ kv ∈ items, ∀ c, ∃ c', append kv.1 kv.2 c = .ok c') (c : Collected) :
    ∃ c', collectAll append items c = .ok c' := by
  induction items generalizing c with
  | nil => exact ⟨c, rfl⟩
  | cons item items ih =>
      rcases List.forall_mem_cons.mp hok with ⟨hone, hrest⟩
      rcases hone c with ⟨c₁, hc₁⟩
      simpa only [collectAll, hc₁] using ih hrest c₁

end Inferential
