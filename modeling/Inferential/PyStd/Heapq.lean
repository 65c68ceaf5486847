import Mathlib.Data.List.Pairwise
import Mathlib.Data.List.Sort
import Mathlib.Order.Defs.Unbundled
import Mathlib.Tactic.Common

/-!
# Heapq — binary heaps in a list, after Python's `heapq`

The order is given by a Boolean `lt`, the `__lt__` of the elements.  The array code of CPython keeps
the moving element in a variable and writes it once at the end; here every move is a swap, which
leaves the same list.

* `heappush`, `heappop`, `heapify` and the two sifts they are made of;
* `IsHeap`: no element is before its parent;
* each operation permutes the elements it is given and ends in a heap;
* `ranked`: the elements in the order in which a heap hands them out.
-/

namespace PyStd
namespace Heapq

variable {α : Type*}

/-! ## The sifts -/

/-- `(pos - 1) >> 1` -/
def parent (pos : Nat) : Nat := (pos - 1) / 2

theorem parent_lt {pos : Nat} (h : 0 < pos) : parent pos < pos := by
  unfold parent
  omega

theorem parent_le (pos : Nat) : parent pos ≤ pos := by
  unfold parent
  omega

/-- `_siftdown(heap, startpos, pos)`: the element at `pos` moves towards `startpos` while it is
before its parent. -/
def siftdown (lt : α → α → Bool) (startpos : Nat) : Nat → Array α → Nat → Array α
  | 0, heap, _ => heap
  | fuel + 1, heap, pos =>
      if h : startpos < pos ∧ pos < heap.size then
        have hp : parent pos < heap.size := lt_of_le_of_lt (parent_le pos) h.2
        if lt heap[pos] heap[parent pos] then
          siftdown lt startpos fuel (heap.swap pos (parent pos)) (parent pos)
        else
          heap
      else
        heap

/-- The child that `_siftup` moves up: the left one only if it is strictly before the right one. -/
def childpos (lt : α → α → Bool) (heap : Array α) (pos : Nat) (h : 2 * pos + 1 < heap.size) : Nat :=
  if hr : 2 * pos + 2 < heap.size then
    if lt heap[2 * pos + 1] heap[2 * pos + 2] then 2 * pos + 1 else 2 * pos + 2
  else
    2 * pos + 1

theorem childpos_lt (lt : α → α → Bool) (heap : Array α) (pos : Nat) (h : 2 * pos + 1 < heap.size) :
    childpos lt heap pos h < heap.size := by
  unfold childpos
  split
  · split <;> omega
  · exact h

theorem childpos_eq (lt : α → α → Bool) (heap : Array α) (pos : Nat) (h : 2 * pos + 1 < heap.size) :
    childpos lt heap pos h = 2 * pos + 1 ∨ childpos lt heap pos h = 2 * pos + 2 := by
  unfold childpos
  split
  · split <;> omega
  · exact Or.inl rfl

/-- The first loop of `_siftup`: the smaller child moves up until the element reaches a leaf. -/
def descend (lt : α → α → Bool) : Nat → Array α → Nat → Array α × Nat
  | 0, heap, pos => (heap, pos)
  | fuel + 1, heap, pos =>
      if h : 2 * pos + 1 < heap.size then
        have hc := childpos_lt lt heap pos h
        have hp : pos < heap.size := by omega
        descend lt fuel (heap.swap pos (childpos lt heap pos h)) (childpos lt heap pos h)
      else
        (heap, pos)

/-- `_siftup(heap, pos)` -/
def siftup (lt : α → α → Bool) (heap : Array α) (pos : Nat) : Array α :=
  let (heap', pos') := descend lt heap.size heap pos
  siftdown lt pos heap'.size heap' pos'

/-- `for i in reversed(range(n)): _siftup(x, i)` -/
def siftupAll (lt : α → α → Bool) : Nat → Array α → Array α
  | 0, heap => heap
  | n + 1, heap => siftupAll lt n (siftup lt heap n)

/-! ## The interface -/

def heappush (lt : α → α → Bool) (heap : List α) (item : α) : List α :=
  (siftdown lt 0 heap.length (heap.toArray.push item) heap.length).toList

/-- `none` is the `IndexError` of an empty heap. -/
def heappop (lt : α → α → Bool) (heap : List α) : Option (α × List α) :=
  match heap with
  | [] => none
  | [lastelt] => some (lastelt, [])
  | returnitem :: next :: rest =>
      -- the last element takes the place of the root and sinks from there
      let lastelt := (next :: rest).getLast (List.cons_ne_nil next rest)
      some (returnitem,
        (siftup lt (lastelt :: (next :: rest).dropLast).toArray 0).toList)

def heapify (lt : α → α → Bool) (heap : List α) : List α :=
  (siftupAll lt (heap.length / 2) heap.toArray).toList

/-! ## The elements stay the same -/

@[simp] theorem siftdown_size (lt : α → α → Bool) (startpos fuel : Nat) (heap : Array α) (pos : Nat) :
    (siftdown lt startpos fuel heap pos).size = heap.size := by
  induction fuel generalizing heap pos with
  | zero => rfl
  | succ fuel ih =>
      unfold siftdown
      split
      · dsimp only
        split
        · rw [ih, Array.size_swap]
        · rfl
      · rfl

theorem siftdown_perm (lt : α → α → Bool) (startpos fuel : Nat) (heap : Array α) (pos : Nat) :
    (siftdown lt startpos fuel heap pos).Perm heap := by
  induction fuel generalizing heap pos with
  | zero => exact Array.Perm.refl _
  | succ fuel ih =>
      unfold siftdown
      split
      · dsimp only
        split
        · exact (ih _ _).trans (Array.swap_perm _ _)
        · exact Array.Perm.refl _
      · exact Array.Perm.refl _

@[simp] theorem descend_size (lt : α → α → Bool) (fuel : Nat) (heap : Array α) (pos : Nat) :
    (descend lt fuel heap pos).1.size = heap.size := by
  induction fuel generalizing heap pos with
  | zero => rfl
  | succ fuel ih =>
      unfold descend
      split
      · dsimp only
        rw [ih, Array.size_swap]
      · rfl

theorem descend_perm (lt : α → α → Bool) (fuel : Nat) (heap : Array α) (pos : Nat) :
    (descend lt fuel heap pos).1.Perm heap := by
  induction fuel generalizing heap pos with
  | zero => exact Array.Perm.refl _
  | succ fuel ih =>
      unfold descend
      split
      · exact (ih _ _).trans (Array.swap_perm _ _)
      · exact Array.Perm.refl _

@[simp] theorem siftup_size (lt : α → α → Bool) (heap : Array α) (pos : Nat) :
    (siftup lt heap pos).size = heap.size := by
  simp [siftup]

theorem siftup_perm (lt : α → α → Bool) (heap : Array α) (pos : Nat) :
    (siftup lt heap pos).Perm heap :=
  (siftdown_perm lt pos _ _ _).trans (descend_perm lt _ heap pos)

@[simp] theorem siftupAll_size (lt : α → α → Bool) (n : Nat) (heap : Array α) :
    (siftupAll lt n heap).size = heap.size := by
  induction n generalizing heap with
  | zero => rfl
  | succ n ih => rw [siftupAll, ih, siftup_size]

theorem siftupAll_perm (lt : α → α → Bool) (n : Nat) (heap : Array α) :
    (siftupAll lt n heap).Perm heap := by
  induction n generalizing heap with
  | zero => exact Array.Perm.refl _
  | succ n ih => exact (ih _).trans (siftup_perm lt heap n)

theorem heappush_perm (lt : α → α → Bool) (heap : List α) (item : α) :
    (heappush lt heap item).Perm (item :: heap) := by
  have h := (siftdown_perm lt 0 heap.length (heap.toArray.push item) heap.length).toList
  have happend : (heap.toArray.push item).toList = heap ++ [item] := by simp
  rw [happend] at h
  exact h.trans (List.perm_append_singleton item heap)

theorem heappop_perm {lt : α → α → Bool} {heap rest : List α} {item : α}
    (h : heappop lt heap = some (item, rest)) : heap.Perm (item :: rest) := by
  match heap, h with
  | [lastelt], h =>
      simp only [heappop, Option.some.injEq, Prod.mk.injEq] at h
      rw [← h.1, ← h.2]
  | first :: next :: tail, h =>
      simp only [heappop, Option.some.injEq, Prod.mk.injEq] at h
      obtain ⟨hitem, hrest⟩ := h
      have hsift := (siftup_perm lt ((next :: tail).getLast (List.cons_ne_nil next tail) ::
        (next :: tail).dropLast).toArray 0).toList
      have hlast : ((next :: tail).getLast (List.cons_ne_nil next tail) ::
          (next :: tail).dropLast).Perm (next :: tail) := by
        have hsplit := List.dropLast_append_getLast (List.cons_ne_nil next tail)
        exact (List.perm_append_singleton _ _).symm.trans (List.Perm.of_eq hsplit)
      rw [← hitem, ← hrest]
      exact List.Perm.cons _ (hsift.trans hlast).symm

theorem heapify_perm (lt : α → α → Bool) (heap : List α) : (heapify lt heap).Perm heap :=
  (siftupAll_perm lt (heap.length / 2) heap.toArray).toList

@[simp] theorem heapify_length (lt : α → α → Bool) (heap : List α) :
    (heapify lt heap).length = heap.length :=
  (heapify_perm lt heap).length_eq

@[simp] theorem heapify_nil (lt : α → α → Bool) : heapify lt ([] : List α) = [] := by
  simp [heapify, siftupAll]

@[simp] theorem heappush_length (lt : α → α → Bool) (heap : List α) (item : α) :
    (heappush lt heap item).length = heap.length + 1 :=
  (heappush_perm lt heap item).length_eq

theorem heappush_ne_nil (lt : α → α → Bool) (heap : List α) (item : α) :
    heappush lt heap item ≠ [] := by
  intro h
  simpa [h] using heappush_length lt heap item

theorem heappop_eq_none {lt : α → α → Bool} {heap : List α} :
    heappop lt heap = none ↔ heap = [] := by
  match heap with
  | [] => simp [heappop]
  | [_] => simp [heappop]
  | _ :: _ :: _ => simp [heappop]

/-- `heap[0]` is what `heappop` returns. -/
theorem heappop_head {lt : α → α → Bool} {first item : α} {tail rest : List α}
    (h : heappop lt (first :: tail) = some (item, rest)) : item = first := by
  cases tail with
  | nil =>
      simp only [heappop, Option.some.injEq, Prod.mk.injEq] at h
      exact h.1.symm
  | cons next tail =>
      simp only [heappop, Option.some.injEq, Prod.mk.injEq] at h
      exact h.1.symm

/-! ## The order of a heap -/

/-- `i` lies in the subtree under `root`. -/
inductive Below (root : Nat) : Nat → Prop
  | refl : Below root root
  | child {i : Nat} (hpos : 0 < i) (h : Below root (parent i)) : Below root i

theorem Below.le {root i : Nat} (h : Below root i) : root ≤ i := by
  induction h with
  | refl => exact Nat.le_refl root
  | child hpos _ ih => exact ih.trans (Nat.le_of_lt (parent_lt hpos))

theorem Below.of_parent {root i c : Nat} (h : Below root i) (hpos : 0 < c) (hc : parent c = i) :
    Below root c := by
  subst hc
  exact Below.child hpos h

theorem below_zero (i : Nat) : Below 0 i := by
  induction i using Nat.strong_induction_on with
  | _ i ih =>
      by_cases hi : i = 0
      · subst hi
        exact Below.refl
      · have hpos := Nat.pos_of_ne_zero hi
        exact Below.child hpos (ih (parent i) (parent_lt hpos))

/-- Going up from a proper descendant of `root` stays below `root`. -/
theorem Below.parent {root i : Nat} (h : Below root i) (hne : root < i) :
    Below root (parent i) := by
  cases h with
  | refl => exact absurd hne (Nat.lt_irrefl _)
  | child _ h => exact h

/-- The element at `i` is not before the one at `j`. -/
def NotBefore (lt : α → α → Bool) (heap : Array α) (i j : Nat) : Prop :=
  ∀ (hi : i < heap.size) (hj : j < heap.size), lt heap[i] heap[j] = false

/-- No element of the subtrees under the positions from `start` on is before its parent. -/
def HeapFrom (lt : α → α → Bool) (start : Nat) (heap : Array α) : Prop :=
  ∀ i, i < heap.size → 0 < i → start ≤ parent i → NotBefore lt heap i (parent i)

/-- The heap invariant: no element is before its parent. -/
def IsHeap (lt : α → α → Bool) (heap : List α) : Prop :=
  HeapFrom lt 0 heap.toArray

/-- Only the pair of `pos` and its parent may be out of order. -/
structure UpReady (lt : α → α → Bool) (start : Nat) (heap : Array α) (pos : Nat) : Prop where
  below : Below start pos
  valid : pos < heap.size
  except : ∀ i, i < heap.size → 0 < i → start ≤ parent i → i ≠ pos →
    NotBefore lt heap i (parent i)
  grand : ∀ i, i < heap.size → 0 < i → parent i = pos → start < pos →
    NotBefore lt heap i (parent pos)

/-- Only the pairs that `pos` belongs to may be out of order. -/
structure DownReady (lt : α → α → Bool) (start : Nat) (heap : Array α) (pos : Nat) : Prop where
  below : Below start pos
  valid : pos < heap.size
  except : ∀ i, i < heap.size → 0 < i → start ≤ parent i → i ≠ pos → parent i ≠ pos →
    NotBefore lt heap i (parent i)
  grand : ∀ i, i < heap.size → 0 < i → parent i = pos → start < pos →
    NotBefore lt heap i (parent pos)

section Order

variable {lt : α → α → Bool} [IsStrictWeakOrder α (fun a b => lt a b = true)]

theorem lt_asymm {a b : α} (h : lt a b = true) : lt b a = false := by
  by_contra hba
  have hba' : lt b a = true := by simpa using hba
  have haa : lt a a = true := IsTrans.trans (r := fun a b => lt a b = true) a b a h hba'
  exact Std.Irrefl.irrefl (r := fun a b => lt a b = true) a haa

theorem lt_self (a : α) : lt a a = false := by
  simpa using Std.Irrefl.irrefl (r := fun a b => lt a b = true) a

/-- Not being before is transitive. -/
theorem not_lt_trans {a b c : α} (hab : lt a b = false) (hbc : lt b c = false) : lt a c = false := by
  by_contra hac
  have hac' : lt a c = true := by simpa using hac
  have hcb : ¬ lt c b = true := by
    intro hcb
    have : lt a b = true := IsTrans.trans (r := fun a b => lt a b = true) a c b hac' hcb
    simp [hab] at this
  have hba : ¬ lt b a = true := by
    intro hba
    have : lt b c = true := IsTrans.trans (r := fun a b => lt a b = true) b a c hba hac'
    simp [hbc] at this
  have hincomp := @IsStrictWeakOrder.incomp_trans α (fun a b => lt a b = true) _ a b c
    ⟨by simp [hab], hba⟩ ⟨by simp [hbc], hcb⟩
  exact hincomp.1 hac'

end Order

/-! ## The sifts restore the order -/

section Sift

variable {lt : α → α → Bool}

theorem UpReady.done {start : Nat} {heap : Array α} (h : UpReady lt start heap start) :
    HeapFrom lt start heap := by
  intro i hi hpos hstart
  have hne : i ≠ start := by
    have := parent_lt hpos
    omega
  exact h.except i hi hpos hstart hne

theorem UpReady.stop {start pos : Nat} {heap : Array α} (h : UpReady lt start heap pos)
    (hle : NotBefore lt heap pos (parent pos)) : HeapFrom lt start heap := by
  intro i hi hpos hstart
  by_cases heq : i = pos
  · subst heq
    exact hle
  · exact h.except i hi hpos hstart heq

theorem DownReady.swap {start pos c : Nat} {heap : Array α} (h : DownReady lt start heap pos)
    (hpv : pos < heap.size) (hcv : c < heap.size) (hc0 : 0 < c) (hcp : parent c = pos)
    (hfirst : ∀ i, 0 < i → parent i = pos → NotBefore lt heap i c) :
    DownReady lt start (heap.swap pos c) c := by
  have hpc : pos < c := by
    rw [← hcp]
    exact parent_lt hc0
  refine ⟨h.below.of_parent hc0 hcp, by simpa using hcv, ?_, ?_⟩
  · intro i hi hi0 hstart hne hpne _ _
    rw [Array.size_swap] at hi
    have hpi := parent_lt hi0
    by_cases hip : i = pos
    · subst hip
      have := h.grand c hcv hc0 hcp (by omega) hcv (by omega)
      simpa [Array.getElem_swap, hpne, hpi.ne] using this
    · by_cases hpar : parent i = pos
      · have := hfirst i hi0 hpar hi hcv
        simpa [Array.getElem_swap, hip, hne, hpar] using this
      · have := h.except i hi hi0 hstart hip hpar hi (by omega)
        simpa [Array.getElem_swap, hip, hne, hpar, hpne] using this
  · intro i hi hi0 hpar hstart _ _
    rw [Array.size_swap] at hi
    have hpi := parent_lt hi0
    have hip : i ≠ pos := by omega
    have hic : i ≠ c := by omega
    have hstart' : start ≤ c := by omega
    have := h.except i hi hi0 (by omega) hip (by omega) hi (by omega)
    simp only [hpar] at this
    simpa [Array.getElem_swap, hip, hic, hcp] using this

variable [IsStrictWeakOrder α (fun a b => lt a b = true)]

theorem NotBefore.trans {heap : Array α} {i j k : Nat} (hj : j < heap.size)
    (hij : NotBefore lt heap i j) (hjk : NotBefore lt heap j k) : NotBefore lt heap i k :=
  fun hi hk => not_lt_trans (hij hi hj) (hjk hj hk)

theorem UpReady.swap {start pos : Nat} {heap : Array α} (h : UpReady lt start heap pos)
    (hpos : start < pos) (hv : pos < heap.size) (hpv : parent pos < heap.size)
    (hlt : lt heap[pos] heap[parent pos] = true) :
    UpReady lt start (heap.swap pos (parent pos)) (parent pos) := by
  have hpp : parent pos < pos := parent_lt (by omega)
  have hbelow : Below start (parent pos) := h.below.parent hpos
  have hup : NotBefore lt heap (parent pos) pos := fun _ _ => lt_asymm hlt
  refine ⟨hbelow, by simpa using hpv, ?_, ?_⟩
  · intro i hi hi0 hstart hne _ _
    rw [Array.size_swap] at hi
    have hpi := parent_lt hi0
    by_cases hip : i = pos
    · subst hip
      simpa [Array.getElem_swap, hpp.ne] using hup hpv hv
    · by_cases hpar : parent i = pos
      · have hg := h.grand i hi hi0 hpar hpos hi hpv
        simpa [Array.getElem_swap, hip, hne, hpar] using hg
      · have he := h.except i hi hi0 hstart hip
        by_cases hparp : parent i = parent pos
        · rw [hparp] at he
          have := he.trans hpv hup hi hv
          simpa [Array.getElem_swap, hip, hne, hparp, hpp.ne] using this
        · have := he hi (by omega)
          simpa [Array.getElem_swap, hip, hne, hpar, hparp] using this
  · intro i hi hi0 hpar hstart _ _
    rw [Array.size_swap] at hi
    have hpi := parent_lt hi0
    have hppp := parent_lt (show 0 < parent pos by omega)
    have hgrand := h.except (parent pos) hpv (by omega) (hbelow.parent hstart).le (by omega)
    have hne : parent (parent pos) ≠ pos := by omega
    by_cases hip : i = pos
    · subst hip
      have := hgrand hpv (by omega)
      simpa [Array.getElem_swap, hne, hppp.ne] using this
    · have he := h.except i hi hi0 (by omega) hip
      rw [hpar] at he
      have hip' : i ≠ parent pos := by omega
      have := he.trans hpv hgrand hi (by omega)
      simpa [Array.getElem_swap, hne, hip', hip, hppp.ne] using this

theorem siftdown_heapFrom {start : Nat} (fuel : Nat) {heap : Array α} {pos : Nat}
    (hfuel : pos ≤ fuel) (h : UpReady lt start heap pos) :
    HeapFrom lt start (siftdown lt start fuel heap pos) := by
  -- the position at least halves in every turn, so `pos` turns are enough
  induction fuel generalizing heap pos with
  | zero =>
      have hstart : start = pos := by
        have := h.below.le
        omega
      subst hstart
      exact h.done
  | succ fuel ih =>
      unfold siftdown
      split
      · next hrange =>
          dsimp only
          split
          · next hlt =>
              have hpp := parent_lt (show 0 < pos by omega)
              exact ih (by omega) (h.swap hrange.1 hrange.2 _ hlt)
          · next hlt => exact h.stop (fun _ _ => by simpa using hlt)
      · next hrange =>
          have hstart : start = pos := by
            have := h.below.le
            have := h.valid
            omega
          subst hstart
          exact h.done

theorem childpos_parent (lt : α → α → Bool) (heap : Array α) (pos : Nat)
    (h : 2 * pos + 1 < heap.size) : parent (childpos lt heap pos h) = pos := by
  rcases childpos_eq lt heap pos h with hc | hc <;> rw [hc] <;> unfold parent <;> omega

/-- No child is before the one that moves up. -/
theorem childpos_first (heap : Array α) (pos : Nat) (h : 2 * pos + 1 < heap.size) {i : Nat}
    (hi0 : 0 < i) (hpar : parent i = pos) : NotBefore lt heap i (childpos lt heap pos h) := by
  intro hi _
  have hcase : i = 2 * pos + 1 ∨ i = 2 * pos + 2 := by
    unfold parent at hpar
    omega
  unfold childpos
  split
  · next hr =>
      split
      · next hlt =>
          rcases hcase with rfl | rfl
          · exact lt_self _
          · exact lt_asymm hlt
      · next hlt =>
          rcases hcase with rfl | rfl
          · simpa using hlt
          · exact lt_self _
  · next hr =>
      rcases hcase with rfl | rfl
      · exact lt_self _
      · omega

theorem descend_upReady {start : Nat} (fuel : Nat) {heap : Array α} {pos : Nat}
    (hfuel : heap.size ≤ pos + fuel) (h : DownReady lt start heap pos) :
    UpReady lt start (descend lt fuel heap pos).1 (descend lt fuel heap pos).2 := by
  induction fuel generalizing heap pos with
  | zero =>
      have := h.valid
      omega
  | succ fuel ih =>
      unfold descend
      split
      · next hc =>
          have hlt : pos < childpos lt heap pos hc := by
            rcases childpos_eq lt heap pos hc with hc | hc <;> omega
          have hfirst : ∀ i, 0 < i → parent i = pos →
              NotBefore lt heap i (childpos lt heap pos hc) :=
            fun i hi hpar => childpos_first heap pos hc hi hpar
          exact ih (by rw [Array.size_swap]; omega)
            (h.swap _ (childpos_lt lt heap pos hc) (by omega) (childpos_parent lt heap pos hc) hfirst)
      · next hc =>
          -- `pos` is a leaf: no element has it as its parent
          have hleaf : ∀ i, i < heap.size → 0 < i → parent i ≠ pos := by
            intro i hi hi0 hpar
            unfold parent at hpar
            omega
          exact ⟨h.below, h.valid,
            fun i hi hi0 hstart hne => h.except i hi hi0 hstart hne (hleaf i hi hi0),
            fun i hi hi0 hpar => absurd hpar (hleaf i hi hi0)⟩

theorem siftup_heapFrom {heap : Array α} {pos : Nat} (hv : pos < heap.size)
    (h : HeapFrom lt (pos + 1) heap) : HeapFrom lt pos (siftup lt heap pos) := by
  -- only the pairs of the root of this subtree can be out of order when the loop starts
  have hdown : DownReady lt pos heap pos := by
    refine ⟨Below.refl, hv, ?_, ?_⟩
    · intro i hi hi0 hstart _ hpne
      exact h i hi hi0 (by omega)
    · intro i _ _ _ hlt
      exact absurd hlt (Nat.lt_irrefl pos)
  have hup := descend_upReady heap.size (by omega) hdown
  have hsize := hup.valid
  exact siftdown_heapFrom _ (Nat.le_of_lt hsize) hup

theorem siftupAll_heapFrom (n : Nat) {heap : Array α} (hn : n ≤ heap.size)
    (h : HeapFrom lt n heap) : HeapFrom lt 0 (siftupAll lt n heap) := by
  -- the subtrees from `n` on are heaps already; each turn adds the one under `n - 1`
  induction n generalizing heap with
  | zero => exact h
  | succ n ih =>
      have hsift := siftup_heapFrom (by omega) h
      exact ih (by rw [siftup_size]; omega) hsift

end Sift

/-! ## The interface keeps the heap invariant -/

section Interface

variable {lt : α → α → Bool}

theorem isHeap_nil : IsHeap lt ([] : List α) := by
  intro i hi
  simp at hi

variable [IsStrictWeakOrder α (fun a b => lt a b = true)]

theorem heappush_isHeap {heap : List α} (h : IsHeap lt heap) (item : α) :
    IsHeap lt (heappush lt heap item) := by
  -- the new element is the last one and has no child
  have hready : UpReady lt 0 (heap.toArray.push item) heap.length := by
    refine ⟨?_, by simp, ?_, ?_⟩
    · exact below_zero heap.length
    · intro i hi hi0 hstart hne hi' hp'
      have hil : i < heap.length := by
        simp only [Array.size_push, List.size_toArray] at hi
        omega
      have hpi := parent_lt hi0
      have := h i (by simpa using hil) hi0 hstart (by simpa using hil) (by simp; omega)
      simpa [Array.getElem_push, hil, show parent i < heap.length by omega] using this
    · intro i hi hi0 hpar
      have hpi := parent_lt hi0
      simp only [Array.size_push, List.size_toArray] at hi
      omega
  exact siftdown_heapFrom heap.length (Nat.le_refl _) hready

theorem heapify_isHeap (heap : List α) : IsHeap lt (heapify lt heap) := by
  -- the second half of the array are leaves, so the loop starts from a heap
  have hleaf : HeapFrom lt (heap.length / 2) heap.toArray := by
    intro i hi _ hstart
    simp only [List.size_toArray] at hi
    unfold parent at hstart
    omega
  exact siftupAll_heapFrom _ (by simp; omega) hleaf

/-- Overwriting the root with the last element and dropping that one leaves the others in place. -/
theorem getElem_replaceHead {first : α} {tail : List α} (hne : tail ≠ []) {i : Nat} (hi0 : 0 < i)
    (hi : i < tail.length) (hi' : i < (tail.getLast hne :: tail.dropLast).length)
    (hi'' : i < (first :: tail).length) :
    (tail.getLast hne :: tail.dropLast)[i] = (first :: tail)[i] := by
  obtain ⟨j, rfl⟩ := Nat.exists_eq_succ_of_ne_zero (Nat.pos_iff_ne_zero.mp hi0)
  simp

theorem heappop_isHeap {heap rest : List α} {item : α} (h : IsHeap lt heap)
    (hpop : heappop lt heap = some (item, rest)) : IsHeap lt rest := by
  match heap, hpop with
  | [lastelt], hpop =>
      simp only [heappop, Option.some.injEq, Prod.mk.injEq] at hpop
      rw [← hpop.2]
      exact isHeap_nil
  | first :: next :: tail, hpop =>
      simp only [heappop, Option.some.injEq, Prod.mk.injEq] at hpop
      rw [← hpop.2]
      -- the root has no parent, so replacing it leaves every other pair in order
      refine siftup_heapFrom (by simp) ?_
      intro i hi hi0 hstart hi' hp'
      have hlen : i < (next :: tail).length := by simpa using hi
      have hpi := parent_lt hi0
      have hp0 : 0 < parent i := by omega
      have := h i (by simp at hlen ⊢; omega) hi0 (Nat.zero_le _) (by simp at hlen ⊢; omega)
        (by simp at hlen ⊢; omega)
      simp only [List.getElem_toArray] at this ⊢
      rw [getElem_replaceHead _ hi0 hlen, getElem_replaceHead _ hp0 (by omega)]
      exact this

/-- The first element of a heap is not after any other. -/
theorem IsHeap.head_first {first : α} {tail : List α} (h : IsHeap lt (first :: tail)) :
    ∀ x ∈ first :: tail, lt x first = false := by
  -- going up from `i` never meets an earlier element, and it ends at the root
  have hroot : ∀ i (hi : i < (first :: tail).length), lt (first :: tail)[i] first = false := by
    intro i
    induction i using Nat.strong_induction_on with
    | _ i ih =>
        intro hi
        by_cases hi0 : i = 0
        · subst hi0
          exact lt_self first
        · have hpi := parent_lt (Nat.pos_of_ne_zero hi0)
          have hpar := ih (parent i) hpi (by omega)
          have hup := h i (by simpa using hi) (Nat.pos_of_ne_zero hi0) (Nat.zero_le _)
            (by simpa using hi) (by simp at hi ⊢; omega)
          simp only [List.getElem_toArray] at hup
          exact not_lt_trans hup hpar
  intro x hx
  obtain ⟨i, hi, rfl⟩ := List.getElem_of_mem hx
  exact hroot i hi

/-- `heappop` returns an element that no other one is before. -/
theorem heappop_first {heap rest : List α} {item : α} (h : IsHeap lt heap)
    (hpop : heappop lt heap = some (item, rest)) : ∀ x ∈ heap, lt x item = false := by
  cases heap with
  | nil => simp [heappop] at hpop
  | cons first tail =>
      rw [heappop_head hpop]
      exact h.head_first

end Interface

/-! ## The order in which a heap hands out its elements -/

/-- The elements in the order of `lt`. -/
def ranked (lt : α → α → Bool) (heap : List α) : List α :=
  heap.insertionSort (fun a b => lt b a = false)

/-- Of any two elements one is strictly before the other. -/
def Separated (lt : α → α → Bool) (heap : List α) : Prop :=
  heap.Pairwise (fun a b => lt a b = true ∨ lt b a = true)

section Ranked

variable {lt : α → α → Bool}

theorem ranked_perm (lt : α → α → Bool) (heap : List α) : (ranked lt heap).Perm heap :=
  List.perm_insertionSort _ heap

@[simp] theorem ranked_length (lt : α → α → Bool) (heap : List α) :
    (ranked lt heap).length = heap.length :=
  (ranked_perm lt heap).length_eq

@[simp] theorem mem_ranked {heap : List α} {x : α} : x ∈ ranked lt heap ↔ x ∈ heap :=
  (ranked_perm lt heap).mem_iff

@[simp] theorem ranked_eq_nil {heap : List α} : ranked lt heap = [] ↔ heap = [] := by
  rw [← List.length_eq_zero_iff, ranked_length, List.length_eq_zero_iff]

theorem Separated.perm {heap heap' : List α} (h : Separated lt heap) (hp : heap.Perm heap') :
    Separated lt heap' :=
  List.Pairwise.perm h hp (fun hab => hab.symm)

theorem Separated.sublist {heap heap' : List α} (h : Separated lt heap)
    (hs : heap'.Sublist heap) : Separated lt heap' :=
  List.Pairwise.sublist hs h

theorem Separated.eq_of_level {heap : List α} (h : Separated lt heap) {a b : α} (ha : a ∈ heap)
    (hb : b ∈ heap) (hab : lt a b = false) (hba : lt b a = false) : a = b := by
  by_contra hne
  have hsymm : Std.Symm (fun a b : α => lt a b = true ∨ lt b a = true) := ⟨fun _ _ h => h.symm⟩
  rcases List.Pairwise.forall h ha hb hne with hlt | hlt
  · simp [hab] at hlt
  · simp [hba] at hlt

variable [IsStrictWeakOrder α (fun a b => lt a b = true)]

theorem ranked_pairwise (heap : List α) :
    (ranked lt heap).Pairwise (fun a b => lt b a = false) := by
  have htotal : Std.Total (fun a b => lt b a = false) := by
    constructor
    intro a b
    by_cases hlt : lt a b = true
    · exact Or.inl (lt_asymm hlt)
    · exact Or.inr (by simpa using hlt)
  have htrans : IsTrans α (fun a b => lt b a = false) := ⟨fun a b c hab hbc => not_lt_trans hbc hab⟩
  exact List.pairwise_insertionSort _ heap

/-- Where no two elements are level, the ranking is strict. -/
theorem Separated.ranked {heap : List α} (h : Separated lt heap) :
    (ranked lt heap).Pairwise (fun a b => lt a b = true) := by
  have hsep := h.perm (ranked_perm lt heap).symm
  refine (hsep.and (ranked_pairwise heap)).imp fun {a b} hab => ?_
  rcases hab.1 with hlt | hgt
  · exact hlt
  · simp [hab.2] at hgt

/-- A list in order is the ranking of each of its permutations. -/
theorem ranked_eq_of_perm {heap sorted : List α} (hsep : Separated lt heap)
    (hp : sorted.Perm heap) (hsorted : sorted.Pairwise (fun a b => lt b a = false)) :
    ranked lt heap = sorted := by
  have hperm : (ranked lt heap).Perm sorted := (ranked_perm lt heap).trans hp.symm
  refine hperm.eq_of_pairwise ?_ (ranked_pairwise heap) hsorted
  intro a b ha hb hab hba
  exact hsep.eq_of_level (mem_ranked.mp ha) (hp.mem_iff.mp hb) hba hab

theorem ranked_congr {heap heap' : List α} (hsep : Separated lt heap) (hp : heap.Perm heap') :
    ranked lt heap = ranked lt heap' :=
  ranked_eq_of_perm hsep ((ranked_perm lt heap').trans hp.symm) (ranked_pairwise heap')

theorem ranked_heappush {heap : List α} {item : α} (hsep : Separated lt (item :: heap)) :
    ranked lt (heappush lt heap item) =
      (ranked lt heap).orderedInsert (fun a b => lt b a = false) item := by
  have hpush := heappush_perm lt heap item
  exact ranked_congr (hsep.perm hpush.symm) hpush

/-- `heappop` takes the head of the ranking and leaves its tail. -/
theorem ranked_heappop {heap rest : List α} {item : α} (h : IsHeap lt heap)
    (hsep : Separated lt heap) (hpop : heappop lt heap = some (item, rest)) :
    ranked lt heap = item :: ranked lt rest := by
  have hperm := heappop_perm hpop
  have hfirst := heappop_first h hpop
  refine ranked_eq_of_perm hsep ?_ ?_
  · exact ((ranked_perm lt rest).cons item).trans hperm.symm
  · refine List.pairwise_cons.mpr ⟨?_, ranked_pairwise rest⟩
    intro x hx
    have hxr : x ∈ rest := mem_ranked.mp hx
    exact hfirst x (hperm.mem_iff.mpr (List.mem_cons_of_mem item hxr))

theorem ranked_filter {heap : List α} (hsep : Separated lt heap) (keep : α → Bool) :
    ranked lt (heap.filter keep) = (ranked lt heap).filter keep :=
  ranked_eq_of_perm (hsep.sublist List.filter_sublist) ((ranked_perm lt heap).filter keep)
    ((ranked_pairwise heap).filter keep)

/-- Taking one element out of a heap takes it out of the ranking. -/
theorem ranked_remove {heap rest : List α} {item : α} (hsep : Separated lt heap)
    (hp : heap.Perm (item :: rest)) :
    ∃ before after, ranked lt heap = before ++ item :: after ∧
      ranked lt rest = before ++ after := by
  have hmem : item ∈ ranked lt heap := mem_ranked.mpr (hp.mem_iff.mpr List.mem_cons_self)
  obtain ⟨before, after, hsplit⟩ := List.append_of_mem hmem
  refine ⟨before, after, hsplit, ?_⟩
  have hsub : (before ++ after).Sublist (ranked lt heap) := by
    rw [hsplit]
    exact (List.Sublist.refl before).append (List.sublist_cons_self item after)
  have hrest : (before ++ after).Perm rest := by
    have hcons : (item :: (before ++ after)).Perm (item :: rest) := by
      calc
        (item :: (before ++ after)).Perm (before ++ item :: after) := List.perm_middle.symm
        _ = ranked lt heap := hsplit.symm
        List.Perm _ heap := ranked_perm lt heap
        List.Perm _ (item :: rest) := hp
    exact hcons.cons_inv
  have hsep' : Separated lt rest :=
    (hsep.perm hp).sublist (List.sublist_cons_self item rest)
  exact ranked_eq_of_perm hsep' hrest ((ranked_pairwise heap).sublist hsub)

/-- Taking several out leaves the others in their order. -/
theorem ranked_sublist {heap gone rest : List α} (hsep : Separated lt heap)
    (hp : heap.Perm (gone ++ rest)) : (ranked lt rest).Sublist (ranked lt heap) := by
  induction gone generalizing heap with
  | nil => simp [ranked_congr hsep hp]
  | cons item gone ih =>
      have hp' : heap.Perm (item :: (gone ++ rest)) := hp
      obtain ⟨before, after, hsplit, hrest⟩ := ranked_remove hsep hp'
      have hsep' : Separated lt (gone ++ rest) :=
        (hsep.perm hp').sublist (List.sublist_cons_self item (gone ++ rest))
      have hsub : (ranked lt (gone ++ rest)).Sublist (ranked lt heap) := by
        rw [hsplit, hrest]
        exact (List.Sublist.refl before).append (List.sublist_cons_self item after)
      exact (ih hsep' (List.Perm.refl _)).trans hsub

/-- A push leaves the ranking of the other elements alone. -/
theorem ranked_heappush_filter {heap : List α} {item : α} (hsep : Separated lt (item :: heap))
    {keep : α → Bool} (hitem : keep item = false) :
    (ranked lt (heappush lt heap item)).filter keep = (ranked lt heap).filter keep := by
  have hpush := heappush_perm lt heap item
  have hsep' := hsep.perm hpush.symm
  have hfilter : ((heappush lt heap item).filter keep).Perm (heap.filter keep) := by
    simpa [hitem] using hpush.filter keep
  calc
    (ranked lt (heappush lt heap item)).filter keep
        = ranked lt ((heappush lt heap item).filter keep) := (ranked_filter hsep' keep).symm
    _ = ranked lt (heap.filter keep) := ranked_congr (hsep'.sublist List.filter_sublist) hfilter
    _ = (ranked lt heap).filter keep :=
        ranked_filter (hsep.sublist (List.sublist_cons_self item heap)) keep

end Ranked

end Heapq
end PyStd
