import Inferential.PyStd.Heapq

/-!
# HeapqMap — heaps under another name

The operations of `heapq` only look at their elements through `lt`.  A function that carries one
order to another therefore carries what the operations do with it.
-/

namespace PyStd
namespace Heapq

variable {α β : Type*} {lt : α → α → Bool} {lt' : β → β → Bool} {f : α → β}

theorem map_swap (f : α → β) (heap : Array α) (i j : Nat) (hi : i < heap.size)
    (hj : j < heap.size) :
    (heap.swap i j).map f = (heap.map f).swap i j (by simpa using hi) (by simpa using hj) := by
  apply Array.ext
  · simp
  · intro k _ _
    simp only [Array.getElem_map, Array.getElem_swap]
    split_ifs <;> rfl

/-- `f` carries the order of its arguments over. -/
def Carries (lt : α → α → Bool) (lt' : β → β → Bool) (f : α → β) : Prop :=
  ∀ a b, lt' (f a) (f b) = lt a b

namespace Carries

theorem siftdown (h : Carries lt lt' f) (startpos fuel : Nat) (heap : Array α) (pos : Nat) :
    Heapq.siftdown lt' startpos fuel (heap.map f) pos =
      (Heapq.siftdown lt startpos fuel heap pos).map f := by
  induction fuel generalizing heap pos with
  | zero => rfl
  | succ fuel ih =>
      simp only [Heapq.siftdown, Array.size_map]
      split
      · next hpos =>
          have hp : parent pos < heap.size := lt_of_le_of_lt (parent_le pos) hpos.2
          simp only [Array.getElem_map, h heap[pos] heap[parent pos]]
          split
          · simpa only [map_swap f heap pos (parent pos) hpos.2 hp] using
              ih (heap.swap pos (parent pos) hpos.2 hp) (parent pos)
          · rfl
      · rfl

theorem childpos (h : Carries lt lt' f) (heap : Array α) (pos : Nat)
    (hc : 2 * pos + 1 < heap.size) (hc' : 2 * pos + 1 < (heap.map f).size) :
    Heapq.childpos lt' (heap.map f) pos hc' = Heapq.childpos lt heap pos hc := by
  simp only [Heapq.childpos, Array.size_map, Array.getElem_map]
  split
  · next hr => simp only [h heap[2 * pos + 1] heap[2 * pos + 2]]
  · rfl

theorem descend (h : Carries lt lt' f) (fuel : Nat) (heap : Array α) (pos : Nat) :
    Heapq.descend lt' fuel (heap.map f) pos =
      ((Heapq.descend lt fuel heap pos).1.map f, (Heapq.descend lt fuel heap pos).2) := by
  induction fuel generalizing heap pos with
  | zero => rfl
  | succ fuel ih =>
      by_cases hc : 2 * pos + 1 < heap.size
      · have hc' : 2 * pos + 1 < (heap.map f).size := by simpa using hc
        have hp : pos < heap.size := by omega
        have hchild := childpos_lt lt heap pos hc
        have hstep := ih (heap.swap pos (Heapq.childpos lt heap pos hc) hp hchild)
          (Heapq.childpos lt heap pos hc)
        simp only [map_swap f heap pos _ hp hchild] at hstep
        simp only [Heapq.descend, hc, hc', dite_true, h.childpos heap pos hc hc']
        exact hstep
      · have hc' : ¬ 2 * pos + 1 < (heap.map f).size := by simpa using hc
        simp only [Heapq.descend, hc, hc', dite_false]

theorem siftup (h : Carries lt lt' f) (heap : Array α) (pos : Nat) :
    Heapq.siftup lt' (heap.map f) pos = (Heapq.siftup lt heap pos).map f := by
  simp only [Heapq.siftup, Array.size_map, h.descend, h.siftdown]

theorem siftupAll (h : Carries lt lt' f) (n : Nat) (heap : Array α) :
    Heapq.siftupAll lt' n (heap.map f) = (Heapq.siftupAll lt n heap).map f := by
  induction n generalizing heap with
  | zero => rfl
  | succ n ih => simp only [Heapq.siftupAll, h.siftup, ih]

theorem heappush (h : Carries lt lt' f) (heap : List α) (item : α) :
    Heapq.heappush lt' (heap.map f) (f item) = (Heapq.heappush lt heap item).map f := by
  have hsift := h.siftdown 0 heap.length (heap.toArray.push item) heap.length
  simp only [Array.map_push, List.map_toArray] at hsift
  simp only [Heapq.heappush, List.length_map, hsift, Array.toList_map]

theorem heappop (h : Carries lt lt' f) (heap : List α) :
    Heapq.heappop lt' (heap.map f) =
      (Heapq.heappop lt heap).map fun popped => (f popped.1, popped.2.map f) := by
  match heap with
  | [] => rfl
  | [_] => rfl
  | first :: next :: rest =>
      have hsift := h.siftup
        ((next :: rest).getLast (List.cons_ne_nil next rest) :: (next :: rest).dropLast).toArray 0
      have hlast : (f next :: rest.map f).getLast (List.cons_ne_nil _ _) =
          f ((next :: rest).getLast (List.cons_ne_nil next rest)) := by
        simpa only [List.map_cons] using
          List.getLast_map (f := f) (l := next :: rest) (h := by simp)
      simp only [List.map_toArray, List.map_cons, List.map_dropLast] at hsift
      simp only [Heapq.heappop, List.map_cons, Option.map_some, ← Array.toList_map, ← hsift, hlast]

theorem heapify (h : Carries lt lt' f) (heap : List α) :
    Heapq.heapify lt' (heap.map f) = (Heapq.heapify lt heap).map f := by
  have hsift := h.siftupAll (heap.length / 2) heap.toArray
  simp only [List.map_toArray] at hsift
  simp only [Heapq.heapify, List.length_map, hsift, Array.toList_map]

end Carries

/-! ## Two orders on one heap -/

/-- The orders do not differ on the elements that satisfy `P`. -/
def Agree (P : α → Prop) (lt lt' : α → α → Bool) : Prop := ∀ a b, P a → P b → lt' a b = lt a b

namespace Agree

variable {P : α → Prop} {lt lt' : α → α → Bool} {heap : List α}

theorem symm (h : Agree P lt lt') : Agree P lt' lt := fun a b ha hb => (h a b ha hb).symm

/-- Both orders are carried over from the elements that satisfy `P`. -/
theorem carries (h : Agree P lt lt') :
    Carries (fun a b : { x // P x } => lt a b) lt' Subtype.val :=
  fun a b => h a b a.2 b.2

theorem carries_self (P : α → Prop) (lt : α → α → Bool) :
    Carries (fun a b : { x // P x } => lt a b) lt Subtype.val :=
  fun _ _ => rfl

theorem heappush (h : Agree P lt lt') (hheap : ∀ x ∈ heap, P x) {item : α} (hitem : P item) :
    Heapq.heappush lt' heap item = Heapq.heappush lt heap item := by
  have hlt' := h.carries.heappush (heap.attachWith P hheap) ⟨item, hitem⟩
  have hlt := (carries_self P lt).heappush (heap.attachWith P hheap) ⟨item, hitem⟩
  simp only [List.attachWith_map_subtype_val] at hlt hlt'
  exact hlt'.trans hlt.symm

theorem heappop (h : Agree P lt lt') (hheap : ∀ x ∈ heap, P x) :
    Heapq.heappop lt' heap = Heapq.heappop lt heap := by
  have hlt' := h.carries.heappop (heap.attachWith P hheap)
  have hlt := (carries_self P lt).heappop (heap.attachWith P hheap)
  simp only [List.attachWith_map_subtype_val] at hlt hlt'
  exact hlt'.trans hlt.symm

theorem heapify (h : Agree P lt lt') (hheap : ∀ x ∈ heap, P x) :
    Heapq.heapify lt' heap = Heapq.heapify lt heap := by
  have hlt' := h.carries.heapify (heap.attachWith P hheap)
  have hlt := (carries_self P lt).heapify (heap.attachWith P hheap)
  simp only [List.attachWith_map_subtype_val] at hlt hlt'
  exact hlt'.trans hlt.symm

end Agree

/-- The ranking of elements that were renamed without a change of their order. -/
theorem ranked_map [IsStrictWeakOrder α (fun a b => lt a b = true)]
    [IsStrictWeakOrder β (fun a b => lt' a b = true)] {heap : List α} (hsep : Separated lt heap)
    (h : ∀ a ∈ heap, ∀ b ∈ heap, lt' (f a) (f b) = lt a b) :
    ranked lt' (heap.map f) = (ranked lt heap).map f := by
  have hsep' : Separated lt' (heap.map f) := by
    unfold Separated
    rw [List.pairwise_map]
    refine hsep.imp_of_mem ?_
    intro a b ha hb hab
    rw [h a ha b hb, h b hb a ha]
    exact hab
  refine ranked_eq_of_perm hsep' ((ranked_perm lt heap).map f) ?_
  rw [List.pairwise_map]
  refine (ranked_pairwise heap).imp_of_mem ?_
  intro a b ha hb hba
  rw [h b (mem_ranked.mp hb) a (mem_ranked.mp ha)]
  exact hba

end Heapq
end PyStd
