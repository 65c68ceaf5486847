import Inferential.Machine.Departures
import Inferential.PyStd.HeapqMap

/-!
# Queueing — what a call can do to one queue

A queue is a deque or a heap.  `Works` lists what a call may do to it; that no element is made up,
that a heap stays a heap and that the old elements keep their order is then proved once, for
whatever structure the queues are part of.
-/

namespace Machine

open PyStd PyStd.Heapq

variable {α : Type*} {lt : α → α → Bool} {new : α → Prop}

/-- How a queue is kept. -/
inductive Discipline
  | fifo
  | heap
  deriving DecidableEq

/-- A call takes the first queue to the second one and gives out the elements in between.  What it
puts in satisfies `new`. -/
inductive Works (lt : α → α → Bool) (new : α → Prop) :
    Discipline → List α → List α → List α → Prop
  | keep (d : Discipline) (queue : List α) : Works lt new d queue [] queue
  | append (queue : List α) {x : α} (hx : new x) : Works lt new .fifo queue [] (queue ++ [x])
  | front (n : Nat) (queue : List α) : Works lt new .fifo queue (queue.take n) (queue.drop n)
  | lose {queue rest : List α} (h : rest.Sublist queue) : Works lt new .fifo queue [] rest
  | push (queue : List α) {x : α} (hx : new x) : Works lt new .heap queue [] (heappush lt queue x)
  | pop {queue rest : List α} {x : α} (h : heappop lt queue = some (x, rest)) :
      Works lt new .heap queue [x] rest
  | rebuild {queue gone rest : List α} (h : queue.Perm (gone ++ rest)) :
      Works lt new .heap queue [] (heapify lt rest)

/-- A call gives out the first elements of a queue. -/
inductive Gives (lt : α → α → Bool) : Discipline → List α → List α → List α → Prop
  | keep (d : Discipline) (queue : List α) : Gives lt d queue [] queue
  | front (n : Nat) (queue : List α) : Gives lt .fifo queue (queue.take n) (queue.drop n)
  | pop {queue rest : List α} {x : α} (h : heappop lt queue = some (x, rest)) :
      Gives lt .heap queue [x] rest

/-- A loop takes the elements that are not kept out of a queue.  A heap is rebuilt then, and left
alone when nothing was taken out. -/
inductive Sweeps (lt : α → α → Bool) (keep : α → Bool) : Discipline → List α → List α → Prop
  | filter (queue : List α) : Sweeps lt keep .fifo queue (queue.filter keep)
  | unchanged {queue : List α} (h : ∀ x ∈ queue, keep x = true) : Sweeps lt keep .heap queue queue
  | rebuild (queue : List α) : Sweeps lt keep .heap queue (heapify lt (queue.filter keep))

/-- The elements in the order in which the queue gives them out. -/
def line (lt : α → α → Bool) : Discipline → List α → List α
  | .fifo, queue => queue
  | .heap, queue => ranked lt queue

theorem line_perm (lt : α → α → Bool) (d : Discipline) (queue : List α) :
    (line lt d queue).Perm queue := by
  cases d with
  | fifo => exact List.Perm.refl _
  | heap => exact ranked_perm lt queue

@[simp] theorem mem_line {d : Discipline} {queue : List α} {x : α} :
    x ∈ line lt d queue ↔ x ∈ queue :=
  (line_perm lt d queue).mem_iff

/-- The elements are numbered in turn, and no number below `n` is still to be given. -/
structure Numbered (number : α → Nat) (n : Nat) (queue : List α) : Prop where
  fresh : ∀ x ∈ queue, number x < n
  distinct : (queue.map number).Nodup

namespace Works

variable {d : Discipline} {queue out queue' : List α}

theorem mono {new' : α → Prop} (h : Works lt new d queue out queue')
    (hnew : ∀ x, new x → new' x) : Works lt new' d queue out queue' := by
  cases h with
  | keep => exact .keep d queue
  | append queue hx => exact .append queue (hnew _ hx)
  | front n queue => exact .front n queue
  | lose h => exact .lose h
  | push queue hx => exact .push queue (hnew _ hx)
  | pop h => exact .pop h
  | rebuild h => exact .rebuild h

/-- A call lets elements out, or puts one in. -/
theorem perm_cases (h : Works lt new d queue out queue') :
    (∃ gone, queue.Perm (out ++ gone ++ queue')) ∨
      out = [] ∧ ∃ x, new x ∧ queue'.Perm (x :: queue) := by
  cases h with
  | keep => exact Or.inl ⟨[], by simp⟩
  | append queue hx => exact Or.inr ⟨rfl, _, hx, List.perm_append_singleton _ _⟩
  | front n queue => exact Or.inl ⟨[], by simp⟩
  | lose h =>
      rcases h.exists_perm_append with ⟨gone, hperm⟩
      exact Or.inl ⟨gone, by simpa using hperm.trans List.perm_append_comm⟩
  | push queue hx => exact Or.inr ⟨rfl, _, hx, heappush_perm _ _ _⟩
  | pop h => exact Or.inl ⟨[], by simpa using heappop_perm h⟩
  | @rebuild _ gone rest h =>
      refine Or.inl ⟨gone, ?_⟩
      simpa using h.trans ((heapify_perm lt rest).symm.append_left gone)

/-- Nothing is made up. -/
theorem mem (h : Works lt new d queue out queue') {x : α} (hx : x ∈ out ++ queue') :
    x ∈ queue ∨ new x := by
  rcases h.perm_cases with ⟨gone, hperm⟩ | ⟨rfl, y, hy, hperm⟩
  · left
    apply hperm.mem_iff.mpr
    rcases List.mem_append.mp hx with hout | hrest
    · exact List.mem_append_left _ (List.mem_append_left _ hout)
    · exact List.mem_append_right _ hrest
  · rcases List.mem_cons.mp (hperm.mem_iff.mp hx) with rfl | hold
    · exact Or.inr hy
    · exact Or.inl hold

theorem numbered {number : α → Nat} {n n' : Nat} (h : Works lt new d queue out queue')
    (hqueue : Numbered number n queue) (hle : n ≤ n')
    (hnew : ∀ x, new x → n ≤ number x ∧ number x < n') : Numbered number n' queue' := by
  rcases h.perm_cases with ⟨gone, hperm⟩ | ⟨-, y, hy, hperm⟩
  · constructor
    · intro x hx
      have hmem : x ∈ queue := hperm.mem_iff.mpr (List.mem_append_right _ hx)
      exact (hqueue.fresh x hmem).trans_le hle
    · have hnodup := (hperm.map number).nodup_iff.mp hqueue.distinct
      rw [List.map_append] at hnodup
      exact (List.nodup_append.mp hnodup).2.1
  · rcases hnew y hy with ⟨hge, hlt⟩
    constructor
    · intro x hx
      rcases List.mem_cons.mp (hperm.mem_iff.mp hx) with rfl | hold
      · exact hlt
      · exact (hqueue.fresh x hold).trans_le hle
    · refine (hperm.map number).nodup_iff.mpr (List.nodup_cons.mpr ⟨?_, hqueue.distinct⟩)
      -- the number of the new element is not given yet
      intro hmem
      rcases List.mem_map.mp hmem with ⟨x, hx, hsame⟩
      have hbelow := hqueue.fresh x hx
      omega

/-- A deque gives out its front, and only lets elements join behind. -/
theorem fifo_sublist (h : Works lt new .fifo queue out queue') {came : List α}
    (hnew : ∀ x, new x → came = [x]) : (out ++ queue').Sublist (queue ++ came) := by
  cases h with
  | keep => exact List.sublist_append_left queue came
  | append queue hx => rw [hnew _ hx, List.nil_append]
  | front n queue =>
      rw [List.take_append_drop]
      exact List.sublist_append_left queue came
  | lose h => exact h.trans (List.sublist_append_left queue came)

/-- An order that does not differ on what is queued works in the same way. -/
theorem congr {lt' : α → α → Bool} {P : α → Prop} (h : Works lt new d queue out queue')
    (hlt : Agree P lt lt') (hqueue : ∀ x ∈ queue, P x) (hnew : ∀ x, new x → P x) :
    Works lt' new d queue out queue' := by
  cases h with
  | keep => exact .keep d queue
  | append queue hx => exact .append queue hx
  | front n queue => exact .front n queue
  | lose h => exact .lose h
  | push queue hx =>
      rw [← hlt.heappush hqueue (hnew _ hx)]
      exact .push queue hx
  | pop h => exact .pop ((hlt.heappop hqueue).trans h)
  | @rebuild _ gone rest h =>
      have hrest : ∀ x ∈ rest, P x := fun x hx =>
        hqueue x (h.mem_iff.mpr (List.mem_append_right gone hx))
      rw [← hlt.heapify hrest]
      exact .rebuild h

theorem isHeap [IsStrictWeakOrder α (fun a b => lt a b = true)]
    (h : Works lt new .heap queue out queue') (hheap : IsHeap lt queue) : IsHeap lt queue' := by
  cases h with
  | keep => exact hheap
  | push queue hx => exact heappush_isHeap hheap _
  | pop h => exact heappop_isHeap hheap h
  | rebuild h => exact heapify_isHeap _

/-- The elements that go out and those that stay keep their places among the old ones. -/
theorem inOrder (h : Works lt new d queue out queue')
    (horder : d = .heap → IsStrictWeakOrder α (fun a b => lt a b = true))
    (hheap : d = .heap → IsHeap lt queue)
    (hsep : d = .heap → Separated lt queue) (hsep' : d = .heap → Separated lt queue')
    {old : α → Bool} (hold : ∀ x, new x → old x = false) :
    InOrder old (line lt d queue) out (line lt d queue') := by
  cases h with
  | keep => exact .of_filter_eq rfl
  | append queue hx => exact .of_filter_eq (by simp [line, hold _ hx])
  | front n queue => exact .of_sublist (by simp [line])
  | lose h => exact .of_sublist h
  | @push _ x hx =>
      have := horder rfl
      have hpush := heappush_perm lt queue x
      exact .of_filter_eq (ranked_heappush_filter ((hsep' rfl).perm hpush) (hold _ hx))
  | pop h =>
      have := horder rfl
      have hrank := ranked_heappop (hheap rfl) (hsep rfl) h
      exact .of_sublist (by simp [line, hrank])
  | @rebuild _ gone rest h =>
      have := horder rfl
      have hgone : queue.Perm (gone ++ heapify lt rest) :=
        h.trans ((heapify_perm lt rest).symm.append_left gone)
      exact .of_sublist (ranked_sublist (hsep rfl) hgone)

end Works

namespace Gives

variable {d : Discipline} {queue out queue' : List α}

theorem works (h : Gives lt d queue out queue') : Works lt new d queue out queue' := by
  cases h with
  | keep => exact .keep d queue
  | front n queue => exact .front n queue
  | pop h => exact .pop h

theorem perm (h : Gives lt d queue out queue') : queue.Perm (out ++ queue') := by
  cases h with
  | keep => exact List.Perm.refl _
  | front n queue => rw [List.take_append_drop]
  | pop h => exact heappop_perm h

/-- What goes out stood first. -/
theorem line_eq (h : Gives lt d queue out queue')
    (horder : d = .heap → IsStrictWeakOrder α (fun a b => lt a b = true))
    (hheap : d = .heap → IsHeap lt queue) (hsep : d = .heap → Separated lt queue) :
    line lt d queue = out ++ line lt d queue' := by
  cases h with
  | keep => rfl
  | front n queue => exact (List.take_append_drop n queue).symm
  | pop h =>
      have := horder rfl
      exact ranked_heappop (hheap rfl) (hsep rfl) h

end Gives

namespace Sweeps

variable {d : Discipline} {keep : α → Bool} {queue queue' : List α}

/-- The two ways to write down the result in the source. -/
theorem of_ite (keep : α → Bool) (queue : List α) {p : Prop} [Decidable p]
    (hp : ¬ p → (queue.filter keep).length = queue.length ∨ queue.filter keep = []) :
    Sweeps lt keep .heap queue
      (if p then heapify lt (queue.filter keep) else queue.filter keep) := by
  split
  · exact .rebuild queue
  · next hnot =>
      rcases hp hnot with hall | hnil
      · have hself : queue.filter keep = queue := List.filter_sublist.eq_of_length hall
        have hkeep := List.filter_eq_self.mp hself
        rw [hself]
        exact .unchanged hkeep
      · have hrebuilt : Sweeps lt keep .heap queue (heapify lt (queue.filter keep)) :=
          .rebuild queue
        rwa [hnil, heapify_nil, ← hnil] at hrebuilt

/-- The heap is rebuilt when it has become shorter. -/
theorem of_shorter (keep : α → Bool) (queue : List α) :
    Sweeps lt keep .heap queue
      (if (queue.filter keep).length < queue.length then heapify lt (queue.filter keep)
        else queue.filter keep) := by
  refine of_ite keep queue fun hnot => .inl ?_
  exact le_antisymm (List.length_filter_le keep queue) (not_lt.mp hnot)

theorem perm (h : Sweeps lt keep d queue queue') : queue'.Perm (queue.filter keep) := by
  cases h with
  | filter => exact List.Perm.refl _
  | unchanged h =>
      rw [List.filter_eq_self.mpr h]
  | rebuild => exact heapify_perm lt _

theorem works (h : Sweeps lt keep d queue queue') : Works lt new d queue [] queue' := by
  cases h with
  | filter => exact .lose List.filter_sublist
  | unchanged => exact .keep .heap queue
  | rebuild =>
      have hperm := List.filter_append_perm keep queue
      exact .rebuild (hperm.symm.trans List.perm_append_comm)

/-- The elements that stay keep their order. -/
theorem line_eq (h : Sweeps lt keep d queue queue')
    (horder : d = .heap → IsStrictWeakOrder α (fun a b => lt a b = true))
    (hsep : d = .heap → Separated lt queue) :
    line lt d queue' = (line lt d queue).filter keep := by
  have hperm := h.perm
  cases d with
  | fifo =>
      cases h
      rfl
  | heap =>
      have := horder rfl
      have hsep' := hsep rfl
      calc
        ranked lt queue' = ranked lt (queue.filter keep) :=
          (ranked_congr (hsep'.sublist List.filter_sublist) hperm.symm).symm
        _ = (ranked lt queue).filter keep := ranked_filter hsep' keep

end Sweeps
end Machine
