import Inferential.Machine.Departures
import Inferential.PyStd.HeapqMap
import Inferential.Scheduler.Atomicity
import Inferential.Scheduler.FirstModel

/-!
# HeapOrder — the order in which the two heap schedulers hand out

`deadline_aware` hands out one heap, `model_deadline` a heap for each model.  Both are read here as a
list in the order of `next_batch`, and every call is said by what it does to this list: a push adds
the new request somewhere, everything else takes requests out and leaves the others as they stand.
-/

namespace Inferential

open PyStd PyStd.Heapq Machine

variable {ν : Type} [Score ν]

/-! ## One heap -/

namespace DeadlineAwareScheduler

/-- The heap order, and no counter given twice. -/
structure Sound (s : DeadlineAwareScheduler ν) : Prop where
  heap : IsHeap InferenceRequest.lt s.queue
  fresh : ∀ r ∈ s.queue, r.counter < s.counter
  distinct : (s.queue.map InferenceRequest.counter).Nodup

theorem init_sound (config : SchedulingConfig ν) : Sound (init config) where
  heap := isHeap_nil
  fresh := by simp [init]
  distinct := by simp [init]

/-- Requests are taken out. -/
theorem Sound.remove {s : DeadlineAwareScheduler ν} (h : Sound s)
    {gone queue : List (InferenceRequest ν)} (hperm : s.queue.Perm (gone ++ queue))
    (hheap : IsHeap InferenceRequest.lt queue) : Sound { s with queue := queue } where
  heap := hheap
  fresh r hr := h.fresh r (hperm.mem_iff.mpr (List.mem_append_right gone hr))
  distinct := by
    have hnodup := (hperm.map InferenceRequest.counter).nodup_iff.mp h.distinct
    simp only [List.map_append] at hnodup
    exact (List.nodup_append.mp hnodup).2.1

/-- The eviction takes the oldest request out and rebuilds the heap. -/
theorem dropOldest_perm {s : DeadlineAwareScheduler ν} (hne : s.queue ≠ []) :
    ∃ oldest, s.queue[oldestIdx s.queue]? = some oldest ∧
      (∀ r ∈ s.queue, oldest.receivedAt ≤ r.receivedAt) ∧
      s.queue.Perm (oldest :: s.dropOldest.queue) := by
  have hidx := oldestIdx_lt hne
  refine ⟨s.queue[oldestIdx s.queue], List.getElem?_eq_getElem hidx, oldestIdx_le hidx, ?_⟩
  calc
    s.queue.Perm (s.queue[oldestIdx s.queue] :: s.queue.eraseIdx (oldestIdx s.queue)) :=
      (List.getElem_cons_eraseIdx_perm hidx).symm
    List.Perm _ (s.queue[oldestIdx s.queue] :: s.dropOldest.queue) :=
      (heapify_perm _ _).symm.cons _

variable [LawfulBEq ν] [IsStrictTotalOrder ν (· < ·)]

theorem Sound.separated {s : DeadlineAwareScheduler ν} (h : Sound s) :
    Separated InferenceRequest.lt s.queue :=
  (List.pairwise_map.mp h.distinct).imp fun hne => InferenceRequest.lt_or_lt_of_counter_ne hne

theorem Sound.dropOldest {s : DeadlineAwareScheduler ν} (h : Sound s) (hne : s.queue ≠ []) :
    Sound s.dropOldest := by
  rcases dropOldest_perm hne with ⟨oldest, -, -, hperm⟩
  have hperm' : s.queue.Perm ([oldest] ++ s.dropOldest.queue) := hperm
  exact h.remove hperm' (heapify_isHeap _)

theorem Sound.resubmit {s : DeadlineAwareScheduler ν} (h : Sound s) (m : Moment ν)
    (r : InferenceRequest ν) :
    Sound (s.resubmit m r).state ∧ s.counter ≤ (s.resubmit m r).state.counter ∧
      ∀ old : InferenceRequest ν → Bool, (∀ x, old x = true → x.counter < s.counter) →
        (ranked InferenceRequest.lt (s.resubmit m r).state.queue).filter old =
          (ranked InferenceRequest.lt s.queue).filter old := by
  unfold DeadlineAwareScheduler.resubmit
  cases hscore : s.computeScore m r with
  | error e => exact ⟨h, Nat.le_refl _, fun _ _ => rfl⟩
  | ok score =>
      have hpush := heappush_perm InferenceRequest.lt s.queue (r.stamp score s.counter)
      have hsound : Sound { s with
          counter := s.counter + 1
          queue := heappush InferenceRequest.lt s.queue (r.stamp score s.counter) } := by
        refine ⟨heappush_isHeap h.heap _, ?_, ?_⟩
        · intro x hx
          rcases List.mem_cons.mp (hpush.mem_iff.mp hx) with rfl | hold
          · exact Nat.lt_succ_self s.counter
          · exact Nat.lt_succ_of_lt (h.fresh x hold)
        · have hnodup : ((r.stamp score s.counter :: s.queue).map
              InferenceRequest.counter).Nodup := by
            refine List.nodup_cons.mpr ⟨fun hmem => ?_, h.distinct⟩
            rcases List.mem_map.mp hmem with ⟨x, hx, hcounter⟩
            exact absurd (h.fresh x hx) (by simp [hcounter])
          exact (hpush.map InferenceRequest.counter).nodup_iff.mpr hnodup
      refine ⟨hsound, Nat.le_succ _, fun old hold => ?_⟩
      apply ranked_heappush_filter (hsound.separated.perm hpush)
      -- the new request has a counter that no old one has
      cases hnew : old (r.stamp score s.counter) with
      | false => rfl
      | true => exact absurd (hold _ hnew) (by simp)

theorem Sound.submit {s : DeadlineAwareScheduler ν} (h : Sound s) (m : Moment ν)
    (r : InferenceRequest ν) : Sound (s.submit m r).state := by
  unfold DeadlineAwareScheduler.submit
  split
  · next hfull =>
      split
      · exact ((h.dropOldest (queue_ne_nil hfull)).resubmit m r).1
      · exact h
  · exact (h.resubmit m r).1

theorem Sound.nextBatch {s : DeadlineAwareScheduler ν} (h : Sound s) :
    Sound s.nextBatch.2 ∧ s.nextBatch.2.counter = s.counter ∧
      (ranked InferenceRequest.lt s.queue = [] ∧ s.nextBatch = ([], s) ∨
        ∃ x, s.nextBatch.1 = [x] ∧ ranked InferenceRequest.lt s.queue =
          x :: ranked InferenceRequest.lt s.nextBatch.2.queue) := by
  rcases nextBatch_cases s with ⟨hnil, heq⟩ | ⟨x, queue, hpop, heq⟩
  · simp [heq, hnil, h, ranked]
  · have hperm : s.queue.Perm ([x] ++ queue) := heappop_perm hpop
    rw [heq]
    exact ⟨h.remove hperm (heappop_isHeap h.heap hpop), rfl,
      .inr ⟨x, rfl, ranked_heappop h.heap h.separated hpop⟩⟩

theorem Sound.tick {s : DeadlineAwareScheduler ν} (h : Sound s)
    (clock : InferenceRequest ν → Rat) :
    Sound (s.tick clock).2 ∧ (s.tick clock).2.counter = s.counter ∧
      (ranked InferenceRequest.lt (s.tick clock).2.queue).Sublist
        (ranked InferenceRequest.lt s.queue) := by
  have hperm : s.queue.Perm
      ((s.queue.filter fun r => isExpired (clock r) s.config.requestTtlMs r) ++
        (s.tick clock).2.queue) :=
    (List.filter_append_perm _ s.queue).symm.trans ((tick_queue clock s).symm.append_left _)
  have hheap : IsHeap InferenceRequest.lt (s.tick clock).2.queue := by
    unfold DeadlineAwareScheduler.tick
    dsimp only
    split
    · next hnone =>
        -- nothing expired, so the list is the old heap
        have hall : (s.queue.filter fun r => !isExpired (clock r) s.config.requestTtlMs r) =
            s.queue := by
          apply List.filter_sublist.eq_of_length_le
          omega
        rw [hall]
        exact h.heap
    · exact heapify_isHeap _
  exact ⟨h.remove hperm hheap, rfl, ranked_sublist h.separated hperm⟩

end DeadlineAwareScheduler

/-! ## A heap for each model -/

namespace ModelDeadlineScheduler

/-- The heaps of the other models stand before and after that of the model, whatever becomes of
it. -/
theorem drainOrder_split {s : ModelDeadlineScheduler ν} (h : Inv s) (modelId : String) :
    ∃ before after,
      s.drainOrder = before ++ ranked InferenceRequest.lt (s.heapOf modelId) ++ after ∧
      (∀ heap (s' : ModelDeadlineScheduler ν), s'.queues = s.putHeap modelId heap →
        s'.drainOrder = before ++ ranked InferenceRequest.lt heap ++ after) ∧
      ∀ x ∈ before ++ after, x.modelId ≠ modelId := by
  -- what stands around the heap belongs to other keys of the dictionary
  have hother : ∀ x ∈ ((s.queues.erase modelId).values.map (ranked InferenceRequest.lt)).flatten,
      x.modelId ≠ modelId := by
    intro x hx
    rcases List.mem_flatten.mp hx with ⟨l, hl, hxl⟩
    rcases List.mem_map.mp hl with ⟨heap, hheap, rfl⟩
    rcases List.mem_map.mp hheap with ⟨item, hitem, rfl⟩
    rcases List.mem_filter.mp hitem with ⟨hmem, hkey⟩
    have hx' : x ∈ s.heapOf item.1 := by
      rw [heapOf_item hmem]
      exact mem_ranked.mp hxl
    rw [h.own item.1 x hx']
    simpa using hkey
  cases hget : s.queues.get? modelId with
  | none =>
      have herase : (s.queues.erase modelId).items = s.queues.items := by
        simp only [Dict.erase, List.filter_eq_self]
        intro item hitem
        have hne : item.1 ≠ modelId := by
          rintro rfl
          exact Dict.get?_eq_none.mp hget (List.mem_map_of_mem hitem)
        simpa using hne
      refine ⟨s.drainOrder, [], ?_, ?_, ?_⟩
      · simp [heapOf, Dict.listAt, hget, ranked]
      · intro heap s' hqueues
        by_cases hnil : heap = []
        · simp [drainOrder, hqueues, putHeap, hnil, Dict.values, herase, ranked]
        · simp [drainOrder, hqueues, putHeap, hnil, Dict.values, Dict.set_items_new hget]
      · simpa [drainOrder, Dict.values, herase] using hother
  | some old =>
      rcases Dict.get?_split hget with ⟨before, after, hitems, hset, herase⟩
      refine ⟨((before.map Prod.snd).map (ranked InferenceRequest.lt)).flatten,
        ((after.map Prod.snd).map (ranked InferenceRequest.lt)).flatten, ?_, ?_, ?_⟩
      · simp [drainOrder, Dict.values, hitems, heapOf, Dict.listAt, hget]
      · intro heap s' hqueues
        by_cases hnil : heap = []
        · simp [drainOrder, hqueues, putHeap, hnil, Dict.values, herase, ranked]
        · simp [drainOrder, hqueues, putHeap, hnil, Dict.values, hset]
      · simpa [Dict.values, herase] using hother

/-- The requests of one model are handed out as its heap does it. -/
theorem drainOrder_filter {s : ModelDeadlineScheduler ν} (h : Inv s) (modelId : String) :
    s.drainOrder.filter (fun x => x.modelId = modelId) =
      ranked InferenceRequest.lt (s.heapOf modelId) := by
  rcases drainOrder_split h modelId with ⟨before, after, horder, -, hother⟩
  have hbefore : before.filter (fun x => x.modelId = modelId) = [] := by
    apply List.filter_eq_nil_iff.mpr
    intro x hx
    simpa using hother x (List.mem_append_left after hx)
  have hafter : after.filter (fun x => x.modelId = modelId) = [] := by
    apply List.filter_eq_nil_iff.mpr
    intro x hx
    simpa using hother x (List.mem_append_right before hx)
  have hheap : (ranked InferenceRequest.lt (s.heapOf modelId)).filter
      (fun x => x.modelId = modelId) = ranked InferenceRequest.lt (s.heapOf modelId) := by
    apply List.filter_eq_self.mpr
    intro x hx
    simpa using h.own modelId x (mem_ranked.mp hx)
  simp [horder, hbefore, hafter, hheap]

theorem drainOrder_perm (s : ModelDeadlineScheduler ν) : s.drainOrder.Perm s.stored := by
  simp only [drainOrder, stored, Dict.flatten]
  induction s.queues.values with
  | nil => simp
  | cons heap heaps ih =>
      simp only [List.map_cons, List.flatten_cons]
      exact (ranked_perm InferenceRequest.lt heap).append ih

/-- A model's heap is replaced by what is left of it. -/
theorem Sound.remove {s : ModelDeadlineScheduler ν} (h : Sound s) {modelId : String}
    {item : InferenceRequest ν} {heap : List (InferenceRequest ν)}
    (hperm : (s.heapOf modelId).Perm (item :: heap)) (hheap : IsHeap InferenceRequest.lt heap) :
    Sound { s with queues := s.putHeap modelId heap, total := s.total - 1 } :=
  ⟨remove_inv h.toInv hperm, heap_putHeap h modelId hheap⟩

variable [LawfulBEq ν] [IsStrictTotalOrder ν (· < ·)]

theorem Sound.dropOldest {s : ModelDeadlineScheduler ν} (h : Sound s) (hne : s.stored ≠ []) :
    Sound s.dropOldest.2 ∧ s.dropOldest.2.counter = s.counter ∧
      s.dropOldest.2.drainOrder.Sublist s.drainOrder ∧
      ∃ oldest, s.dropOldest.1 = some oldest ∧
        (∀ r ∈ s.stored, oldest.receivedAt ≤ r.receivedAt) ∧
        s.stored.Perm (oldest :: s.dropOldest.2.stored) := by
  rcases dropOldest_spec hne with ⟨modelId, oldest, rest, hperm, hmin, heq⟩
  have hperm' : (s.heapOf modelId).Perm (oldest :: heapify InferenceRequest.lt rest) :=
    hperm.trans ((heapify_perm _ rest).symm.cons oldest)
  have hgone : (s.heapOf modelId).Perm ([oldest] ++ heapify InferenceRequest.lt rest) := hperm'
  rcases drainOrder_split h.toInv modelId with ⟨before, after, horder, hput, -⟩
  have hsub := ranked_sublist (h.toInv.separated modelId) hgone
  rw [heq]
  refine ⟨h.remove hperm' (heapify_isHeap rest), rfl, ?_, oldest, rfl, hmin, putHeap_remove hperm'⟩
  rw [horder, hput _ _ rfl]
  exact ((List.Sublist.refl before).append hsub).append (List.Sublist.refl after)

theorem Sound.resubmit {s : ModelDeadlineScheduler ν} (h : Sound s) (m : Moment ν)
    (r : InferenceRequest ν) :
    Sound (s.resubmit m r).state ∧ s.counter ≤ (s.resubmit m r).state.counter ∧
      ∀ old : InferenceRequest ν → Bool, (∀ x, old x = true → x.counter < s.counter) →
        (s.resubmit m r).state.drainOrder.filter old = s.drainOrder.filter old := by
  have hsound : Sound (s.resubmit m r).state := (push_refines h).1
  refine ⟨hsound, ?_⟩
  unfold ModelDeadlineScheduler.resubmit ModelDeadlineScheduler.push at hsound ⊢
  cases hscore : s.computeScore m r with
  | error e => exact ⟨Nat.le_refl _, fun _ _ => rfl⟩
  | ok score =>
      simp only [hscore] at hsound ⊢
      refine ⟨Nat.le_succ _, fun old hold => ?_⟩
      rcases drainOrder_split h.toInv r.modelId with ⟨before, after, horder, hput, -⟩
      have hsep := hsound.toInv.separated r.modelId
      simp only [heapOf, InferenceRequest.stamp_modelId, Dict.listAt_set, if_true] at hsep
      -- the new request has a counter that no old one has
      have hnew : old (r.stamp score s.counter) = false := by
        cases hnew : old (r.stamp score s.counter) with
        | false => rfl
        | true => exact absurd (hold _ hnew) (by simp)
      have hfilter := ranked_heappush_filter (hsep.perm (heappush_perm _ _ _)) hnew
      have hqueues : s.queues.set r.modelId
          (heappush InferenceRequest.lt (s.heapOf r.modelId) (r.stamp score s.counter)) =
          s.putHeap r.modelId
            (heappush InferenceRequest.lt (s.heapOf r.modelId) (r.stamp score s.counter)) := by
        simp [putHeap, heappush_ne_nil]
      rw [hput _ _ hqueues, horder]
      simp only [List.filter_append, heapOf, hfilter]

theorem Sound.nextBatchForModel {s : ModelDeadlineScheduler ν} (h : Sound s) (modelId : String) :
    Sound (s.nextBatchForModel modelId).2 ∧
      (s.nextBatchForModel modelId).2.counter = s.counter ∧
      (ranked InferenceRequest.lt (s.heapOf modelId) = [] ∧
          s.nextBatchForModel modelId = ([], s) ∨
        ∃ x, (s.nextBatchForModel modelId).1 = [x] ∧
          ranked InferenceRequest.lt (s.heapOf modelId) =
            x :: ranked InferenceRequest.lt ((s.nextBatchForModel modelId).2.heapOf modelId)) ∧
      (s.nextBatchForModel modelId).2.drainOrder.Sublist s.drainOrder := by
  rcases nextBatchForModel_spec modelId s with ⟨hnil, heq⟩ | ⟨x, heap, hpop, heq⟩
  · rw [heq]
    exact ⟨h, rfl, .inl ⟨by simp [hnil], rfl⟩, List.Sublist.refl _⟩
  · have hrank := ranked_heappop (h.heap modelId) (h.toInv.separated modelId) hpop
    rcases drainOrder_split h.toInv modelId with ⟨before, after, horder, hput, -⟩
    rw [heq]
    refine ⟨h.remove (heappop_perm hpop) (heappop_isHeap (h.heap modelId) hpop), rfl,
      .inr ⟨x, rfl, ?_⟩, ?_⟩
    · simpa [heapOf, putHeap_listAt] using hrank
    · rw [horder, hput _ _ rfl, hrank]
      exact ((List.Sublist.refl before).append (List.sublist_cons_self x _)).append
        (List.Sublist.refl after)

/-- Among the requests of one model, the batch of any model keeps the order. -/
theorem Sound.nextBatchForModel_inOrder {s : ModelDeadlineScheduler ν} (h : Sound s)
    (modelId modelId' : String) {old : InferenceRequest ν → Bool}
    (hold : ∀ x, old x = true → x.modelId = modelId') :
    InOrder old s.drainOrder (s.nextBatchForModel modelId).1
      (s.nextBatchForModel modelId).2.drainOrder := by
  rcases h.nextBatchForModel modelId with ⟨hsound', -, ⟨-, heq⟩ | ⟨x, hout, hrank⟩, hsub⟩
  · simp [heq, InOrder]
  · have hmem : x ∈ ranked InferenceRequest.lt (s.heapOf modelId) := by
      rw [hrank]
      exact List.mem_cons_self
    have hx : x.modelId = modelId := h.own modelId x (mem_ranked.mp hmem)
    by_cases hmodel : modelId' = modelId
    · -- the old requests are all in the heap that is asked
      have hlane : ∀ {s' : ModelDeadlineScheduler ν}, Inv s' → s'.drainOrder.filter old =
          (ranked InferenceRequest.lt (s'.heapOf modelId)).filter old := by
        intro s' hinv'
        rw [← drainOrder_filter hinv' modelId, List.filter_filter]
        apply List.filter_congr
        intro y _
        cases hy : old y with
        | false => rfl
        | true => simp [hold y hy, hmodel]
      simp [InOrder, hout, List.filter_cons, hlane h.toInv, hlane hsound'.toInv, hrank]
    · -- the request that leaves is not an old one
      have hnot : old x = false := by
        cases hy : old x with
        | false => rfl
        | true => exact absurd ((hold x hy).symm.trans hx) hmodel
      simpa [InOrder, hout, hnot] using hsub.filter old

/-- A sweep filters the order. -/
theorem sweep_drainOrder {s : ModelDeadlineScheduler ν} (h : Sound s)
    (keep : InferenceRequest ν → Bool) :
    (s.sweep keep).2.drainOrder = s.drainOrder.filter keep := by
  have hitems : ∀ item ∈ s.queues.items,
      ranked InferenceRequest.lt (sweepHeap keep item.2) =
        (ranked InferenceRequest.lt item.2).filter keep := by
    intro item hitem
    have hsep := h.toInv.separated item.1
    rw [heapOf_item hitem] at hsep
    rw [← ranked_filter hsep]
    exact (ranked_congr (hsep.sublist List.filter_sublist) (sweepHeap_perm keep _).symm).symm
  simp only [drainOrder, sweep, Dict.values, Dict.filterValues, Dict.mapValues]
  revert hitems
  induction s.queues.items with
  | nil => simp
  | cons item items ih =>
      intro hitems
      have hrest := ih fun item' hitem' => hitems item' (List.mem_cons_of_mem item hitem')
      have hitem := hitems item List.mem_cons_self
      simp only [List.map_cons, List.flatten_cons, List.filter_append, ← hitem, ← hrest]
      -- a heap that became empty is deleted, and has nothing to hand out
      by_cases hnil : sweepHeap keep item.2 = []
      · simp [hnil, ranked]
      · simp [hnil]

theorem Sound.sweep {s : ModelDeadlineScheduler ν} (h : Sound s)
    (keep : InferenceRequest ν → Bool) :
    Sound (s.sweep keep).2 ∧ (s.sweep keep).2.counter = s.counter ∧
      (s.sweep keep).2.drainOrder.Sublist s.drainOrder := by
  refine ⟨(sweep_refines h keep).1, rfl, ?_⟩
  simp only [sweep_drainOrder h, List.filter_sublist]

end ModelDeadlineScheduler
end Inferential
