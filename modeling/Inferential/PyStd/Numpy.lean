import Inferential.Scheduler.Request
import Mathlib.Algebra.BigOperators.Group.List.Basic

/-!
# Numpy — the array operations the server relies on

An array is its dtype, its shape and its elements as bytes in C order.  The operations are a
parameter; `Documented` says of them what the numpy documentation does, and `reference` is an
implementation of that documentation.
-/

namespace Inferential

/-- The parts of `np.dtype` that are read. -/
structure NpDtype where
  name : String
  str : String
  itemsize : Nat
  deriving DecidableEq, Repr

structure NdArray where
  dtype : NpDtype
  shape : List Nat
  data : Bytes
  deriving DecidableEq, Repr

namespace NdArray

/-- The number of elements. -/
def size (a : NdArray) : Nat := a.shape.prod

/-- The bytes of an element, as `tobytes` gives them. -/
def rawElement (a : NdArray) (i : Nat) : Bytes :=
  (a.data.drop (i * a.dtype.itemsize)).take a.dtype.itemsize

/-- `dtype.str` starts with the byte order; `|` stands for one-byte elements. -/
def BigEndian (a : NdArray) : Prop := a.dtype.str.toList.head? = some '>'

instance (a : NdArray) : Decidable a.BigEndian := inferInstanceAs (Decidable (_ = _))

/-- The value of an element: its bytes, the least significant first. -/
def element (a : NdArray) (i : Nat) : Bytes :=
  if a.BigEndian then (a.rawElement i).reverse else a.rawElement i

/-- The same shape, and the same value at every position in C order. -/
def SameValues (a b : NdArray) : Prop := a.shape = b.shape ∧ ∀ i < a.size, a.element i = b.element i

/-- The bytes are those of the same array in the byte order of the machine, which is little-endian:
every element of a big-endian array reads the same from both ends. -/
def OrderFree (a : NdArray) : Prop :=
  a.BigEndian → ∀ i < a.size, (a.rawElement i).reverse = a.rawElement i

end NdArray

/-! ## Shapes -/

/-- `NPY_MAXDIMS` -/
def maxDims : Nat := 64

/-- The product of the dimensions that are given. -/
def knownSize (shape : List Int) : Nat := ((shape.filter fun d => 0 ≤ d).map Int.toNat).prod

/-- `size` elements can be put into the shape: the dimensions multiply to `size`, or one of them is
to be inferred and can be inferred from the others. -/
def ShapeFits (infers : Int → Bool) (shape : List Int) (size : Nat) : Prop :=
  shape.length ≤ maxDims ∧
    ((∀ d ∈ shape, 0 ≤ d) ∧ knownSize shape = size ∨
      shape.countP infers = 1 ∧ (∀ d ∈ shape, infers d = true ∨ 0 ≤ d) ∧ knownSize shape ≠ 0 ∧
        knownSize shape ∣ size)

instance (infers : Int → Bool) (shape : List Int) (size : Nat) :
    Decidable (ShapeFits infers shape size) := inferInstanceAs (Decidable (_ ∧ _))

/-- The shape with the inferred dimension filled in. -/
def inferShape (infers : Int → Bool) (shape : List Int) (size : Nat) : List Nat :=
  -- at most one dimension is inferred
  shape.map fun d => if infers d then size / knownSize shape else d.toNat

/-! ## The operations -/

/-- `Obj` are the Python objects that `np.asarray` is applied to. -/
structure Numpy (Obj : Type) where
  frombuffer : Bytes → NpDtype → Except PyError NdArray
  reshape : NdArray → List Int → Except PyError NdArray
  asarray : Obj → Except PyError NdArray
  /-- The dimensions that `reshape` infers: -1, and other negative ones in some versions. -/
  infers : Int → Bool

namespace Numpy

/-- A buffer is read as a whole number of elements, and an array is only put into a shape that its
number of elements fits. -/
structure Documented {Obj : Type} (np : Numpy Obj) : Prop where
  frombuffer_ok {data : Bytes} {dtype : NpDtype} : 0 < dtype.itemsize →
    dtype.itemsize ∣ data.length →
      np.frombuffer data dtype = .ok ⟨dtype, [data.length / dtype.itemsize], data⟩
  frombuffer_raises {data : Bytes} {dtype : NpDtype} : ¬ dtype.itemsize ∣ data.length →
    ∃ e, np.frombuffer data dtype = .error e
  reshape_ok (a : NdArray) (shape : List Int) : ShapeFits np.infers shape a.size →
    np.reshape a shape = .ok { a with shape := inferShape np.infers shape a.size }
  reshape_raises (a : NdArray) (shape : List Int) : ¬ ShapeFits np.infers shape a.size →
    ∃ e, np.reshape a shape = .error e
  infers_neg_one : np.infers (-1) = true
  infers_neg {d : Int} : np.infers d = true → d < 0

/-- The documented operations, on objects that are arrays already. -/
def reference : Numpy NdArray where
  frombuffer data dtype :=
    if dtype.itemsize ∣ data.length then
      .ok ⟨dtype, [data.length / dtype.itemsize], data⟩
    else
      .error (.valueError "buffer size must be a multiple of element size")
  reshape a shape :=
    if ShapeFits (· == -1) shape a.size then
      .ok { a with shape := inferShape (· == -1) shape a.size }
    else
      .error (.valueError s!"cannot reshape array of size {a.size} into shape {shape}")
  asarray a := .ok a
  infers := (· == -1)

theorem reference_documented : reference.Documented where
  frombuffer_ok _ h := if_pos h
  frombuffer_raises h := ⟨_, if_neg h⟩
  reshape_ok _ _ h := if_pos h
  reshape_raises _ _ h := ⟨_, if_neg h⟩
  infers_neg_one := rfl
  infers_neg h := by
    rw [eq_of_beq h]
    decide

end Numpy
end Inferential
