import Inferential.Scheduler.SortedLists

/-!
# FirstModel — which model `next_batch` serves

The inherited `next_batch` of a model-aware scheduler asks the first model of `models()`, which lists
the models in the order of the dictionary: a model keeps its place as long as it has requests, and
gets the last place when it has some again.  Draining with `next_batch` alone therefore empties one
model after the other.
-/

namespace Inferential

open PyStd PyStd.Heapq

variable {ν : Type} [Score ν]

namespace ModelDeadlineScheduler

/-! ## Draining -/

/-- The requests that `n` calls of `next_batch` return. -/
def drain : Nat → ModelDeadlineScheduler ν → List (InferenceRequest ν)
  | 0, _ => []
  | n + 1, s => s.nextBatch.1 ++ drain n s.nextBatch.2

/-- The heaps in the order of the dictionary, each in the order in which it hands out. -/
def drainOrder (s : ModelDeadlineScheduler ν) : List (InferenceRequest ν) :=
  (s.queues.values.map (ranked InferenceRequest.lt)).flatten

/-- One request is returned, and no queued request of any model has a higher score. -/
def ServesBest (s : ModelDeadlineScheduler ν) : Prop :=
  ∃ r ∈ s.stored, s.nextBatch.1 = [r] ∧ ∀ r' ∈ s.stored, ¬ r.score < r'.score

/-- The first model of `models()` holds a request that no queued request exceeds. -/
def FirstModelLeads (s : ModelDeadlineScheduler ν) : Prop :=
  ∃ modelId rest, s.models = modelId :: rest ∧
    ∃ r ∈ s.heapOf modelId, ∀ r' ∈ s.stored, ¬ r.score < r'.score

/-- No request of a model exceeds a request of a model that is listed before it. -/
def ModelsDescend (s : ModelDeadlineScheduler ν) : Prop :=
  s.models.Pairwise fun first second =>
    ∀ r ∈ s.heapOf first, ∀ r' ∈ s.heapOf second, ¬ r.score < r'.score

/-! ## The order of the dictionary -/

/-- Without empty heaps, every key of the dictionary is listed. -/
theorem Inv.models_eq {s : ModelDeadlineScheduler ν} (h : Inv s) : s.models = s.queues.keys := by
  have hall : s.queues.items.filter (fun item => !item.2.isEmpty) = s.queues.items := by
    simp only [List.filter_eq_self]
    intro item hitem
    have hne : item.2 ≠ [] := by
      intro hnil
      apply h.nonempty item.1
      exact Dict.get?_eq_some.mpr (hnil ▸ hitem)
    simpa using hne
  simp only [models, hall, Dict.keys]

/-- The heap of an item is found under its key. -/
theorem heapOf_item {s : ModelDeadlineScheduler ν} {item : String × List (InferenceRequest ν)}
    (hitem : item ∈ s.queues.items) : s.heapOf item.1 = item.2 := by
  have hget : s.queues.get? item.1 = some item.2 := Dict.get?_eq_some.mpr hitem
  simp [heapOf, Dict.listAt, hget]

/-- Replacing the heap of the first model leaves it first, or deletes it. -/
theorem putHeap_items {s : ModelDeadlineScheduler ν} {modelId : String}
    {heap heap' : List (InferenceRequest ν)}
    {items : List (String × List (InferenceRequest ν))}
    (hitems : s.queues.items = (modelId, heap) :: items) :
    (s.putHeap modelId heap').items =
      if heap' = [] then items else (modelId, heap') :: items := by
  have hnodup := s.queues.nodup
  simp only [hitems, List.map_cons, List.nodup_cons] at hnodup
  by_cases hnil : heap' = []
  · -- no other item has this key
    have hother : ∀ kv ∈ items, kv.1 ≠ modelId := by
      rintro kv hkv rfl
      exact hnodup.1 (List.mem_map_of_mem hkv)
    simpa [putHeap, hnil, Dict.erase, hitems] using hother
  · simp [putHeap, hnil, Dict.set, hitems, Dict.assign]

/-- The first model that is listed gives up the request. -/
theorem nextBatch_first {s : ModelDeadlineScheduler ν} {modelId : String} {rest : List String}
    (hmodels : s.models = modelId :: rest) :
    ∃ r heap, heappop InferenceRequest.lt (s.heapOf modelId) = some (r, heap) ∧
      s.nextBatch = ([r], { s with queues := s.putHeap modelId heap, total := s.total - 1 }) := by
  have hne : s.heapOf modelId ≠ [] := by
    apply mem_models.mp
    simp [hmodels]
  rcases nextBatchForModel_spec modelId s with ⟨hnil, -⟩ | ⟨r, heap, hpop, hnext⟩
  · exact absurd hnil hne
  · exact ⟨r, heap, hpop, by simp [nextBatch, hmodels, firstBatch, hnext]⟩

variable [LawfulBEq ν] [IsStrictTotalOrder ν (· < ·)]

/-- `next_batch` takes the head of the drain order. -/
theorem nextBatch_drainOrder {s : ModelDeadlineScheduler ν} (h : Sound s) :
    (s.drainOrder = [] ∧ s.nextBatch = ([], s)) ∨
    ∃ r, s.nextBatch.1 = [r] ∧ s.drainOrder = r :: s.nextBatch.2.drainOrder := by
  cases hitems : s.queues.items with
  | nil =>
      refine Or.inl ⟨?_, ?_⟩
      · simp [drainOrder, Dict.values, hitems]
      · simp [nextBatch, models, hitems, firstBatch]
  | cons item items =>
      rcases item with ⟨modelId, heap⟩
      have hmem : (modelId, heap) ∈ s.queues.items := by simp [hitems]
      have hheap : s.heapOf modelId = heap := heapOf_item hmem
      have hmodels : s.models = modelId :: items.map Prod.fst := by
        simp [h.toInv.models_eq, Dict.keys, hitems]
      rcases nextBatch_first hmodels with ⟨r, rest, hpop, hnext⟩
      have hrank : ranked InferenceRequest.lt heap = r :: ranked InferenceRequest.lt rest :=
        hheap ▸ ranked_heappop (h.heap modelId) (h.toInv.separated modelId) hpop
      refine Or.inr ⟨r, by simp [hnext], ?_⟩
      -- the rest of the heap stays in front; an empty rest contributes nothing
      simp only [drainOrder, Dict.values, hitems, hnext, putHeap_items hitems,
        List.map_cons, List.flatten_cons, hrank, List.cons_append, List.cons.injEq, true_and]
      split
      · next hnil => simp [hnil, ranked]
      · simp

/-- Draining gives out the drain order. -/
theorem drain_eq_take {s : ModelDeadlineScheduler ν} (h : Sound s) (n : Nat) :
    drain n s = s.drainOrder.take n := by
  induction n generalizing s with
  | zero => simp [drain]
  | succ n ih =>
      have hsound : Sound s.nextBatch.2 := (nextBatch_refines h).1
      rcases nextBatch_drainOrder h with ⟨hnil, hbatch⟩ | ⟨r, hbatch, hcons⟩
      · have hrest := ih h
        simp only [hnil, List.take_nil] at hrest
        simp [drain, hbatch, hnil, hrest]
      · simp [drain, hbatch, hcons, ih hsound]

/-- Each heap is handed out by non-increasing scores, so only the order of the models matters. -/
theorem drainOrder_descends {s : ModelDeadlineScheduler ν} (h : Sound s) :
    s.drainOrder.Pairwise (fun r r' => ¬ r.score < r'.score) ↔ ModelsDescend s := by
  have hirrefl : ∀ x : ν, ¬ x < x := Std.Irrefl.irrefl (r := fun x y : ν => x < y)
  have hwithin : ∀ l ∈ s.queues.values.map (ranked InferenceRequest.lt),
      l.Pairwise (fun r r' => ¬ r.score < r'.score) := by
    intro l hl
    rcases List.mem_map.mp hl with ⟨heap, hheap, rfl⟩
    rcases List.mem_map.mp hheap with ⟨item, hitem, rfl⟩
    have hsorted := view_sorted h item.1
    simp only [view, heapOf_item hitem] at hsorted
    refine hsorted.imp ?_
    rintro r r' (hlt | ⟨heq, -⟩) hgt
    · exact hirrefl _ (IsTrans.trans (r := fun x y : ν => x < y) _ _ _ hlt hgt)
    · exact hirrefl _ (heq ▸ hgt)
  have hbetween : ModelsDescend s ↔ s.queues.items.Pairwise fun item item' =>
      ∀ r ∈ item.2, ∀ r' ∈ item'.2, ¬ r.score < r'.score := by
    simp only [ModelsDescend, h.toInv.models_eq, Dict.keys, List.pairwise_map]
    apply List.Pairwise.iff_of_mem
    intro item item' hitem hitem'
    simp only [heapOf_item hitem, heapOf_item hitem']
  simp only [drainOrder, List.pairwise_flatten, hbetween, Dict.values, List.pairwise_map,
    mem_ranked]
  exact and_iff_right hwithin

/-- The popped request is the best of its heap, so it is the best of all exactly when its heap holds
one that is. -/
theorem servesBest_iff {s : ModelDeadlineScheduler ν} (h : Sound s) :
    ServesBest s ↔ FirstModelLeads s := by
  constructor
  · rintro ⟨r, hr, hbatch, hmax⟩
    cases hmodels : s.models with
    | nil => simp [nextBatch, hmodels, firstBatch] at hbatch
    | cons modelId rest =>
        rcases nextBatch_first hmodels with ⟨r', heap, hpop, hnext⟩
        simp only [hnext, List.cons.injEq, and_true] at hbatch
        subst hbatch
        have hmem : r' ∈ s.heapOf modelId := (heappop_perm hpop).mem_iff.mpr List.mem_cons_self
        exact ⟨modelId, rest, hmodels, r', hmem, hmax⟩
  · rintro ⟨modelId, rest, hmodels, best, hbest, hmax⟩
    rcases nextBatch_first hmodels with ⟨r, heap, hpop, hnext⟩
    have hmem : r ∈ s.heapOf modelId := (heappop_perm hpop).mem_iff.mpr List.mem_cons_self
    have hfirst : ¬ r.score < best.score := by
      intro hlt
      have hnot := heappop_first (h.heap modelId) hpop best hbest
      simp [InferenceRequest.lt_iff.mpr (Or.inl hlt)] at hnot
    refine ⟨r, mem_stored.mpr ⟨modelId, hmem⟩, by simp [hnext], ?_⟩
    intro r' hr' hlt
    -- the popped request is level with the best one
    rcases Std.Trichotomous.rel_or_eq_or_rel_swap (r := fun x y : ν => x < y)
      (a := best.score) (b := r.score) with hbelow | heq | habove
    · exact hmax r' hr' (IsTrans.trans (r := fun x y : ν => x < y) _ _ _ hbelow hlt)
    · exact hmax r' hr' (heq ▸ hlt)
    · exact hfirst habove

/-! ## What `next_batch` serves -/

/-- After every run of calls, `next_batch` serves a request with the highest score of all models
exactly when the model that is listed first holds one, and draining gives non-increasing scores
exactly when the models are listed by their scores. -/
theorem nextBatch_best_iff (config : SchedulingConfig ν) (policy : Option String)
    (cs : List (Call ν)) :
    let s := (({ init config with policy := policy } : ModelDeadlineScheduler ν).calls cs).2
    (ServesBest s ↔ FirstModelLeads s) ∧
      ((∀ n, (drain n s).Pairwise fun r r' => ¬ r.score < r'.score) ↔ ModelsDescend s) := by
  intro s
  have hsound : Sound s := (calls_refines (init_sound config policy) cs).1
  refine ⟨servesBest_iff hsound, ?_⟩
  apply Iff.trans _ (drainOrder_descends hsound)
  constructor
  · intro h
    have hall := h s.drainOrder.length
    simpa [drain_eq_take hsound] using hall
  · intro h n
    simpa [drain_eq_take hsound] using h.sublist (List.take_sublist n s.drainOrder)

instance (s : ModelDeadlineScheduler Rat) : Decidable (ServesBest s) :=
  inferInstanceAs (Decidable (∃ r ∈ s.stored, _ ∧ ∀ r' ∈ s.stored, _))

/-- Requests of two models, the later one with the higher score, and the earlier model served. -/
def twoModels : ModelDeadlineScheduler Rat :=
  (({ init plainConfig.scheduling with policy := none } : ModelDeadlineScheduler Rat).calls
    [.submit { now := 0, policy := fun _ _ => .ok 0 } (plainRequest "a" "telemetry" 0 0),
      .submit { now := 0, policy := fun _ _ => .ok 0 }
        { plainRequest "b" "policy" 0 1 with urgency := 1 }]).2

theorem nextBatch_best_twoModels :
    (ServesBest twoModels ↔ FirstModelLeads twoModels) ∧
      ((∀ n, (drain n twoModels).Pairwise fun r r' => ¬ r.score < r'.score) ↔
        ModelsDescend twoModels) :=
  nextBatch_best_iff plainConfig.scheduling none _

/-- The urgent request waits, and the scores of the drained requests rise from 9 to 34. -/
theorem urgent_request_passed_over :
    twoModels.stored ≠ [] ∧ ¬ ServesBest twoModels ∧
      (drain 2 twoModels).map (fun r => (r.modelId, r.score)) =
        [("telemetry", 9), ("policy", 34)] := by
  refine ⟨?_, ?_, ?_⟩ <;> decide +kernel

end ModelDeadlineScheduler
end Inferential
