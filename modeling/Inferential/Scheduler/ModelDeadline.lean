import Inferential.PyStd.Heapq
import Inferential.Scheduler.Accounting

/-!
# ModelDeadline — the per-model deadline-aware scheduler

Requests go into one heap per `model_id`; each heap is ordered by the score that the request had
when it was queued.  The module ends with what every operation does to the heaps, seen as a
function from model ids to heaps, and with the invariant that all of them keep.
-/

namespace Inferential

open PyStd PyStd.Heapq

variable {ν : Type} [Score ν]

structure ModelDeadlineScheduler (ν : Type) [Score ν] where
  config : SchedulingConfig ν
  queues : Dict String (List (InferenceRequest ν)) := Dict.empty
  counter : Nat := 0
  total : Int := 0
  policy : Option String := none

namespace ModelDeadlineScheduler

/-! ## The operations -/

/-- `__init__` -/
def init (config : SchedulingConfig ν) : ModelDeadlineScheduler ν := { config := config }

/-- `use_policy`: the name must be registered. -/
def usePolicy (registered : String → Bool) (policyName : String) (s : ModelDeadlineScheduler ν) :
    Except PyError (ModelDeadlineScheduler ν) :=
  if registered policyName then
    .ok { s with policy := some policyName }
  else
    .error (.valueError s!"Unknown policy '{policyName}'")

def computeScore (s : ModelDeadlineScheduler ν) (m : Moment ν) (r : InferenceRequest ν) :
    Except PyError ν :=
  scoreWith s.policy s.config.modelDeadline m r

/-- A heap that became empty is deleted. -/
def putHeap (s : ModelDeadlineScheduler ν) (modelId : String) (heap : List (InferenceRequest ν)) :
    Dict String (List (InferenceRequest ν)) :=
  if heap.isEmpty then s.queues.erase modelId else s.queues.set modelId heap

/-- The requests in the order in which `_drop_oldest` visits them. -/
def visited (s : ModelDeadlineScheduler ν) : List (String × InferenceRequest ν) :=
  s.queues.items.flatMap fun item => item.2.map fun r => (item.1, r)

/-- `_drop_oldest`, with the request it takes out. -/
def dropOldest (s : ModelDeadlineScheduler ν) :
    Option (InferenceRequest ν) × ModelDeadlineScheduler ν :=
  match oldestKey s.visited with
  | none => (none, s)
  | some (_, oldestModel) =>
      let heap := s.queues.listAt oldestModel
      let rest := overwritePop heap (oldestIdx heap)
      (heap[oldestIdx heap]?,
        { s with
          queues := s.putHeap oldestModel (heapify InferenceRequest.lt rest)
          total := s.total - 1 })

/-- The part of `submit` and `resubmit` that scores the request and pushes it. -/
def push (m : Moment ν) (request : InferenceRequest ν) (s : ModelDeadlineScheduler ν) :
    Except PyError (ModelDeadlineScheduler ν) :=
  match s.computeScore m request with
  | .error e => .error e
  | .ok score =>
      let request := request.stamp score s.counter
      let heap := s.queues.listAt request.modelId
      .ok { s with
        counter := s.counter + 1
        queues := s.queues.set request.modelId (heappush InferenceRequest.lt heap request)
        total := s.total + 1 }

def resubmit (m : Moment ν) (request : InferenceRequest ν) (s : ModelDeadlineScheduler ν) :
    Submitted (ModelDeadlineScheduler ν) ν :=
  match s.push m request with
  | .error e => { state := s, raised := some e }
  | .ok s' => { state := s' }

def submit (m : Moment ν) (request : InferenceRequest ν) (s : ModelDeadlineScheduler ν) :
    Submitted (ModelDeadlineScheduler ν) ν :=
  if s.config.maxQueueSize ≤ s.total then
    match s.config.overflowPolicy with
    | .dropOldest =>
        -- the eviction happens before the new request is scored
        let (dropped, s') := s.dropOldest
        { s'.resubmit m request with dropped := dropped }
    | .rejectNewest => { state := s, raised := some (.queueFullError request.clientId) }
  else
    s.resubmit m request

def models (s : ModelDeadlineScheduler ν) : List String :=
  (s.queues.items.filter fun item => !item.2.isEmpty).map Prod.fst

def nextBatchForModel (modelId : String) (s : ModelDeadlineScheduler ν) :
    List (InferenceRequest ν) × ModelDeadlineScheduler ν :=
  match heappop InferenceRequest.lt (s.queues.listAt modelId) with
  | none => ([], s)
  | some (item, heap) =>
      ([item], { s with queues := s.putHeap modelId heap, total := s.total - 1 })

def queueLenForModel (modelId : String) (s : ModelDeadlineScheduler ν) : Nat :=
  (s.queues.listAt modelId).length

instance : ModelAwareScheduler (ModelDeadlineScheduler ν) ν where
  nextBatchForModel := nextBatchForModel
  models := models
  queueLenForModel := queueLenForModel

/-- `next_batch`, inherited -/
def nextBatch (s : ModelDeadlineScheduler ν) :
    List (InferenceRequest ν) × ModelDeadlineScheduler ν :=
  firstBatch nextBatchForModel s.models s

/-- A heap without the requests that are not kept; it is only rebuilt when something was removed. -/
def sweepHeap (keep : InferenceRequest ν → Bool) (heap : List (InferenceRequest ν)) :
    List (InferenceRequest ν) :=
  let kept := heap.filter keep
  if kept.length < heap.length ∧ kept ≠ [] then heapify InferenceRequest.lt kept else kept

/-- The common loop of `tick` and `on_client_disconnected`, with the number of removed requests. -/
def sweep (keep : InferenceRequest ν → Bool) (s : ModelDeadlineScheduler ν) :
    Nat × ModelDeadlineScheduler ν :=
  let removed := (s.queues.values.map fun heap => heap.length - (heap.filter keep).length).sum
  (removed,
    { s with
      queues := (s.queues.mapValues (sweepHeap keep)).filterValues fun heap => !heap.isEmpty
      total := s.total - removed })

def tick (clock : InferenceRequest ν → Rat) (s : ModelDeadlineScheduler ν) :
    Nat × ModelDeadlineScheduler ν :=
  s.sweep fun r => !isExpired (clock r) s.config.requestTtlMs r

def onClientDisconnected (clientId : String) (s : ModelDeadlineScheduler ν) :
    ModelDeadlineScheduler ν :=
  (s.sweep fun r => r.clientId ≠ clientId).2

def queueLen (s : ModelDeadlineScheduler ν) : Int := s.total

instance : Scheduler (ModelDeadlineScheduler ν) ν where
  submit := submit
  resubmit := resubmit
  nextBatch _ := nextBatch
  tick := tick
  onClientConnected _ s := s
  onClientDisconnected := onClientDisconnected
  queueLen := queueLen

/-! ## The invariant -/

/-- All queued requests. -/
def stored (s : ModelDeadlineScheduler ν) : List (InferenceRequest ν) := s.queues.flatten

/-- The heap of a model. -/
def heapOf (s : ModelDeadlineScheduler ν) (modelId : String) : List (InferenceRequest ν) :=
  s.queues.listAt modelId

structure Inv (s : ModelDeadlineScheduler ν) : Prop where
  total_eq : s.total = (s.stored.length : Int)
  nonempty : ∀ modelId, s.queues.get? modelId ≠ some []
  own : ∀ modelId, ∀ r ∈ s.heapOf modelId, r.modelId = modelId
  fresh : ∀ r ∈ s.stored, r.counter < s.counter
  distinct : (s.stored.map InferenceRequest.counter).Nodup

theorem init_inv (config : SchedulingConfig ν) (policy : Option String) :
    Inv { init config with policy := policy } where
  total_eq := rfl
  nonempty := by simp [init]
  own := by simp [init, heapOf]
  fresh := by simp [init, stored]
  distinct := by simp [init, stored]

theorem mem_stored {s : ModelDeadlineScheduler ν} {r : InferenceRequest ν} :
    r ∈ s.stored ↔ ∃ modelId, r ∈ s.heapOf modelId :=
  Dict.mem_flatten

/-- The invariant after an operation that puts the requests of `added` in and takes others out. -/
theorem Inv.of_perm {s s' : ModelDeadlineScheduler ν} (h : Inv s)
    (removed added : List (InferenceRequest ν))
    (hperm : (s'.stored ++ removed).Perm (s.stored ++ added))
    (htotal : s'.total = s.total + (added.length : Int) - (removed.length : Int))
    (hnonempty : ∀ modelId, s'.queues.get? modelId ≠ some [])
    (hown : ∀ modelId, ∀ r ∈ s'.heapOf modelId, r ∈ s.heapOf modelId ∨ r ∈ added ∧
      r.modelId = modelId)
    (hcounter : s.counter ≤ s'.counter)
    (hfresh : ∀ r ∈ added, s.counter ≤ r.counter ∧ r.counter < s'.counter)
    (hadded : (added.map InferenceRequest.counter).Nodup) : Inv s' where
  total_eq := by
    have hlen := hperm.length_eq
    rw [List.length_append, List.length_append] at hlen
    rw [htotal, h.total_eq]
    omega
  nonempty := hnonempty
  own := by
    intro modelId r hr
    rcases hown modelId r hr with hold | ⟨-, hnew⟩
    · exact h.own modelId r hold
    · exact hnew
  fresh := by
    intro r hr
    rcases List.mem_append.mp (hperm.mem_iff.mp (List.mem_append_left removed hr)) with hold | hnew
    · exact (h.fresh r hold).trans_le hcounter
    · exact (hfresh r hnew).2
  distinct := by
    -- new counters are not below `s.counter`, so no stored request has one of them
    have hnd : ((s.stored ++ added).map InferenceRequest.counter).Nodup := by
      rw [List.map_append, List.nodup_append]
      refine ⟨h.distinct, hadded, ?_⟩
      intro a ha b hb heq
      obtain ⟨r, hr, rfl⟩ := List.mem_map.mp ha
      obtain ⟨r', hr', rfl⟩ := List.mem_map.mp hb
      have := h.fresh r hr
      have := (hfresh r' hr').1
      omega
    have hnd' := (hperm.map InferenceRequest.counter).nodup_iff.mpr hnd
    rw [List.map_append] at hnd'
    exact (List.nodup_append.mp hnd').1

/-! ## What each operation does to the heaps -/

theorem putHeap_listAt (s : ModelDeadlineScheduler ν) (modelId modelId' : String)
    (heap : List (InferenceRequest ν)) :
    (s.putHeap modelId heap).listAt modelId' =
      if modelId' = modelId then heap else s.heapOf modelId' := by
  unfold putHeap
  split
  · next hempty =>
      rw [Dict.listAt_erase, List.isEmpty_iff.mp hempty]
      rfl
  · rw [Dict.listAt_set]
    rfl

theorem putHeap_perm (s : ModelDeadlineScheduler ν) (modelId : String)
    (heap : List (InferenceRequest ν)) :
    ((s.putHeap modelId heap).flatten ++ s.heapOf modelId).Perm (s.stored ++ heap) := by
  unfold putHeap
  split
  · next hempty =>
      rw [List.isEmpty_iff.mp hempty, List.append_nil]
      exact Dict.flatten_erase_perm s.queues modelId
  · exact Dict.flatten_set_perm s.queues modelId heap

theorem putHeap_nonempty {s : ModelDeadlineScheduler ν}
    (h : ∀ modelId, s.queues.get? modelId ≠ some []) (modelId : String)
    (heap : List (InferenceRequest ν)) (modelId' : String) :
    (s.putHeap modelId heap).get? modelId' ≠ some [] := by
  unfold putHeap
  split
  · rw [Dict.get?_erase]
    split
    · simp
    · exact h modelId'
  · next hne =>
      rw [Dict.get?_set]
      split
      · intro heq
        simp [Option.some.inj heq] at hne
      · exact h modelId'

/-- Replacing the heap of a model by one without `item`. -/
theorem putHeap_remove {s : ModelDeadlineScheduler ν} {modelId : String}
    {item : InferenceRequest ν} {heap : List (InferenceRequest ν)}
    (h : (s.heapOf modelId).Perm (item :: heap)) :
    s.stored.Perm (item :: (s.putHeap modelId heap).flatten) := by
  have hput := putHeap_perm s modelId heap
  have hcons : (s.stored ++ heap).Perm ((item :: (s.putHeap modelId heap).flatten) ++ heap) := by
    calc
      (s.stored ++ heap).Perm ((s.putHeap modelId heap).flatten ++ s.heapOf modelId) := hput.symm
      List.Perm _ ((s.putHeap modelId heap).flatten ++ item :: heap) := h.append_left _
      List.Perm _ (item :: (s.putHeap modelId heap).flatten ++ heap) := List.perm_middle
  -- the new heap is on both sides and cancels
  exact (List.perm_append_right_iff heap).mp hcons

/-- A successful push stamps the request and adds it to the heap of its model. -/
theorem push_spec {m : Moment ν} {r : InferenceRequest ν} {s s' : ModelDeadlineScheduler ν}
    (h : s.push m r = .ok s') :
    ∃ score, s.computeScore m r = .ok score ∧
      s'.config = s.config ∧ s'.policy = s.policy ∧
      s'.counter = s.counter + 1 ∧ s'.total = s.total + 1 ∧
      s'.stored.Perm (r.stamp score s.counter :: s.stored) ∧
      (∀ modelId, s'.heapOf modelId =
        if modelId = r.modelId then
          heappush InferenceRequest.lt (s.heapOf modelId) (r.stamp score s.counter)
        else s.heapOf modelId) ∧
      (∀ modelId, s'.queues.get? modelId = some [] → s.queues.get? modelId = some []) := by
  unfold push at h
  cases hscore : s.computeScore m r with
  | error e => simp [hscore] at h
  | ok score =>
      simp only [hscore, InferenceRequest.stamp_modelId, Except.ok.injEq] at h
      subst h
      refine ⟨score, rfl, rfl, rfl, rfl, rfl, ?_, ?_, ?_⟩
      · exact Dict.flatten_set_cons (heappush_perm InferenceRequest.lt _ _)
      · intro modelId
        simp only [heapOf, Dict.listAt_set]
        split
        · next heq => rw [heq]
        · rfl
      · intro modelId hget
        rw [Dict.get?_set] at hget
        split at hget
        · exact absurd (Option.some.inj hget) (heappush_ne_nil _ _ _)
        · exact hget

theorem push_inv {m : Moment ν} {r : InferenceRequest ν} {s s' : ModelDeadlineScheduler ν}
    (hinv : Inv s) (h : s.push m r = .ok s') : Inv s' := by
  obtain ⟨score, -, -, -, hcounter, htotal, hperm, hheap, hget⟩ := push_spec h
  refine hinv.of_perm [] [r.stamp score s.counter] ?_ ?_ ?_ ?_ ?_ ?_ ?_
  · rw [List.append_nil]
    exact hperm.trans (List.perm_append_singleton _ _).symm
  · simp [htotal]
  · exact fun modelId hnil => hinv.nonempty modelId (hget modelId hnil)
  · intro modelId r' hr'
    rw [hheap] at hr'
    split at hr'
    · next heq =>
        rcases List.mem_cons.mp ((heappush_perm _ _ _).mem_iff.mp hr') with rfl | hold
        · exact Or.inr ⟨List.mem_singleton_self _, heq.symm⟩
        · exact Or.inl hold
    · exact Or.inl hr'
  · omega
  · simp [hcounter]
  · simp

/-- A model's heap gives up its first request. -/
theorem nextBatchForModel_spec (modelId : String) (s : ModelDeadlineScheduler ν) :
    (s.heapOf modelId = [] ∧ s.nextBatchForModel modelId = ([], s)) ∨
    ∃ item heap, heappop InferenceRequest.lt (s.heapOf modelId) = some (item, heap) ∧
      s.nextBatchForModel modelId =
        ([item], { s with queues := s.putHeap modelId heap, total := s.total - 1 }) := by
  unfold nextBatchForModel
  cases hpop : heappop InferenceRequest.lt (s.queues.listAt modelId) with
  | none => exact Or.inl ⟨heappop_eq_none.mp hpop, rfl⟩
  | some popped => exact Or.inr ⟨popped.1, popped.2, hpop, rfl⟩

/-- Taking `item` out of the heap of a model keeps the invariant. -/
theorem remove_inv {s : ModelDeadlineScheduler ν} (hinv : Inv s) {modelId : String}
    {item : InferenceRequest ν} {heap : List (InferenceRequest ν)}
    (hperm : (s.heapOf modelId).Perm (item :: heap)) :
    Inv { s with queues := s.putHeap modelId heap, total := s.total - 1 } := by
  refine hinv.of_perm [item] [] ?_ ?_ ?_ ?_ ?_ ?_ ?_
  · rw [List.append_nil]
    exact (List.perm_append_singleton _ _).trans (putHeap_remove hperm).symm
  · simp
  · exact putHeap_nonempty hinv.nonempty modelId heap
  -- what is left in any heap was in it before
  · intro modelId' r hr
    simp only [heapOf, putHeap_listAt] at hr
    split at hr
    · next heq =>
        rw [heq]
        exact Or.inl (hperm.mem_iff.mpr (List.mem_cons_of_mem item hr))
    · exact Or.inl hr
  · exact Nat.le_refl _
  · simp
  · simp

theorem nextBatchForModel_inv (modelId : String) {s : ModelDeadlineScheduler ν} (hinv : Inv s) :
    Inv (s.nextBatchForModel modelId).2 := by
  rcases nextBatchForModel_spec modelId s with ⟨-, heq⟩ | ⟨item, heap, hpop, heq⟩
  · rw [heq]
    exact hinv
  · rw [heq]
    exact remove_inv hinv (heappop_perm hpop)

theorem mem_visited {s : ModelDeadlineScheduler ν} {c : String × InferenceRequest ν} :
    c ∈ s.visited ↔ c.2 ∈ s.heapOf c.1 := by
  obtain ⟨modelId, r⟩ := c
  simp only [visited, List.mem_flatMap, List.mem_map, Prod.mk.injEq, heapOf, Dict.listAt]
  constructor
  · rintro ⟨item, hitem, r', hr', rfl, rfl⟩
    have hget : s.queues.get? item.1 = some item.2 := Dict.get?_eq_some.mpr hitem
    simpa [hget] using hr'
  · intro hr
    cases hget : s.queues.get? modelId with
    | none => simp [hget] at hr
    | some heap =>
        rw [hget] at hr
        exact ⟨(modelId, heap), Dict.get?_eq_some.mp hget, r, hr, rfl, rfl⟩

/-- Eviction takes out one request, and none arrived before it. -/
theorem dropOldest_spec {s : ModelDeadlineScheduler ν} (hne : s.stored ≠ []) :
    ∃ modelId item rest, (s.heapOf modelId).Perm (item :: rest) ∧
      (∀ r ∈ s.stored, item.receivedAt ≤ r.receivedAt) ∧
      s.dropOldest = (some item,
        { s with
          queues := s.putHeap modelId (heapify InferenceRequest.lt rest)
          total := s.total - 1 }) := by
  cases hkey : oldestKey s.visited with
  | none =>
      -- a queued request would have been visited
      exfalso
      obtain ⟨r, hr⟩ := List.exists_mem_of_ne_nil _ hne
      obtain ⟨modelId, hmem⟩ := mem_stored.mp hr
      have : (modelId, r) ∈ s.visited := mem_visited.mpr hmem
      rw [oldestKey_eq_none.mp hkey] at this
      simp at this
  | some o =>
      obtain ⟨t, modelId⟩ := o
      obtain ⟨⟨oldest, holdest, ht⟩, hmin⟩ := oldestKey_eq_some hkey
      have hmem : oldest ∈ s.heapOf modelId := mem_visited.mp holdest
      -- the heap of the oldest request is not empty, so `min(range(len(heap)))` is defined
      have hidx := oldestIdx_lt (List.ne_nil_of_mem hmem)
      refine ⟨modelId, (s.heapOf modelId)[oldestIdx (s.heapOf modelId)],
        overwritePop (s.heapOf modelId) (oldestIdx (s.heapOf modelId)),
        overwritePop_perm hidx, ?_, ?_⟩
      · intro r hr
        obtain ⟨modelId', hr'⟩ := mem_stored.mp hr
        have hfirst := oldestIdx_le hidx oldest hmem
        have hall := hmin (modelId', r) (mem_visited.mpr hr')
        exact hfirst.trans (ht ▸ hall)
      · have hsome := List.getElem?_eq_getElem hidx
        simp only [heapOf] at hsome
        simp only [dropOldest, hkey, hsome, heapOf]

theorem dropOldest_empty {s : ModelDeadlineScheduler ν} (h : s.stored = []) :
    s.dropOldest = (none, s) := by
  have hkey : oldestKey s.visited = none := by
    rw [oldestKey_eq_none, List.eq_nil_iff_forall_not_mem]
    intro c hc
    have : c.2 ∈ s.stored := mem_stored.mpr ⟨c.1, mem_visited.mp hc⟩
    simp [h] at this
  simp [dropOldest, hkey]

theorem dropOldest_inv {s : ModelDeadlineScheduler ν} (hinv : Inv s) : Inv s.dropOldest.2 := by
  by_cases hne : s.stored = []
  · rw [dropOldest_empty hne]
    exact hinv
  · obtain ⟨modelId, item, rest, hperm, -, heq⟩ := dropOldest_spec hne
    rw [heq]
    exact remove_inv hinv (hperm.trans ((heapify_perm _ rest).symm.cons item))

/-- Eviction only takes out. -/
theorem dropOldest_subset {s : ModelDeadlineScheduler ν} {r : InferenceRequest ν}
    (h : r ∈ s.dropOldest.2.stored) : r ∈ s.stored := by
  by_cases hne : s.stored = []
  · rwa [dropOldest_empty hne] at h
  · obtain ⟨modelId, item, rest, hperm, -, heq⟩ := dropOldest_spec hne
    rw [heq] at h
    have hrebuilt := hperm.trans ((heapify_perm InferenceRequest.lt rest).symm.cons item)
    exact (putHeap_remove hrebuilt).mem_iff.mpr (List.mem_cons_of_mem item h)

theorem sweepHeap_perm (keep : InferenceRequest ν → Bool) (heap : List (InferenceRequest ν)) :
    (sweepHeap keep heap).Perm (heap.filter keep) := by
  unfold sweepHeap
  dsimp only
  split
  · exact heapify_perm _ _
  · exact List.Perm.refl _

theorem sweep_heapOf (keep : InferenceRequest ν → Bool) (s : ModelDeadlineScheduler ν)
    (modelId : String) : (s.sweep keep).2.heapOf modelId = sweepHeap keep (s.heapOf modelId) := by
  simp only [sweep, heapOf]
  rw [Dict.listAt_filterValues, Dict.listAt_mapValues (by simp [sweepHeap])]

theorem sweep_stored (keep : InferenceRequest ν → Bool) (s : ModelDeadlineScheduler ν) :
    (s.sweep keep).2.stored.Perm (s.stored.filter keep) := by
  simp only [sweep, stored]
  rw [Dict.flatten_filterValues, ← Dict.flatten_mapValues_filter]
  exact Dict.flatten_mapValues_perm s.queues (fun _ => sweepHeap_perm keep _)

/-- The count is the number of requests that are not kept. -/
theorem sweep_count (keep : InferenceRequest ν → Bool) (s : ModelDeadlineScheduler ν) :
    (s.sweep keep).1 = (s.stored.filter fun r => !keep r).length :=
  Dict.sum_removed keep s.queues

theorem sweep_inv (keep : InferenceRequest ν → Bool) {s : ModelDeadlineScheduler ν}
    (hinv : Inv s) : Inv (s.sweep keep).2 := by
  have hsplit := List.filter_append_perm keep s.stored
  refine hinv.of_perm (s.stored.filter fun r => !keep r) []
    ?_ ?_ ?_ ?_ (Nat.le_refl _) (by simp) (by simp)
  · rw [List.append_nil]
    exact ((sweep_stored keep s).append_right _).trans hsplit
  · rw [← sweep_count]
    simp [sweep]
  -- the heaps that became empty are deleted at the end of the loop
  · intro modelId hget
    simp only [sweep, Dict.get?_filterValues, Option.filter_eq_some_iff] at hget
    simp at hget
  · intro modelId r hr
    rw [sweep_heapOf] at hr
    exact Or.inl (List.mem_of_mem_filter ((sweepHeap_perm keep _).mem_iff.mp hr))

/-! ## Accounting -/

theorem mem_models {s : ModelDeadlineScheduler ν} {modelId : String} :
    modelId ∈ s.models ↔ s.heapOf modelId ≠ [] := by
  simp only [models, List.mem_map, List.mem_filter, heapOf, Dict.listAt]
  constructor
  · rintro ⟨item, ⟨hitem, hne⟩, rfl⟩
    have hget : s.queues.get? item.1 = some item.2 := Dict.get?_eq_some.mpr hitem
    simpa [hget] using hne
  · intro hne
    cases hget : s.queues.get? modelId with
    | none => simp [hget] at hne
    | some heap =>
        refine ⟨(modelId, heap), ⟨Dict.get?_eq_some.mp hget, ?_⟩, rfl⟩
        simpa [hget] using hne

/-- The inherited `next_batch` asks the first model that has requests. -/
theorem nextBatch_spec (s : ModelDeadlineScheduler ν) :
    (s.stored = [] ∧ s.nextBatch = ([], s)) ∨
    ∃ modelId, s.heapOf modelId ≠ [] ∧ s.nextBatch = s.nextBatchForModel modelId := by
  unfold nextBatch
  cases hmodels : s.models with
  | nil =>
      refine Or.inl ⟨?_, rfl⟩
      rw [List.eq_nil_iff_forall_not_mem]
      intro r hr
      obtain ⟨modelId, hmem⟩ := mem_stored.mp hr
      have : modelId ∈ s.models := mem_models.mpr (List.ne_nil_of_mem hmem)
      simp [hmodels] at this
  | cons modelId rest =>
      -- `models` lists only models with requests, so the loop ends at the first one
      have hne : s.heapOf modelId ≠ [] := mem_models.mp (by simp [hmodels])
      refine Or.inr ⟨modelId, hne, ?_⟩
      rcases nextBatchForModel_spec modelId s with ⟨hnil, -⟩ | ⟨item, heap, -, heq⟩
      · exact absurd hnil hne
      · simp [firstBatch, heq]

theorem dropOldest_frame (s : ModelDeadlineScheduler ν) :
    s.dropOldest.2.config = s.config ∧ s.dropOldest.2.policy = s.policy := by
  unfold dropOldest
  split <;> exact ⟨rfl, rfl⟩

theorem resubmit_frame (m : Moment ν) (r : InferenceRequest ν) (s : ModelDeadlineScheduler ν) :
    (s.resubmit m r).state.config = s.config ∧ (s.resubmit m r).state.policy = s.policy := by
  unfold resubmit
  cases hpush : s.push m r with
  | error e => exact ⟨rfl, rfl⟩
  | ok s' =>
      obtain ⟨_, -, hconfig, hpolicy, -⟩ := push_spec hpush
      exact ⟨hconfig, hpolicy⟩

theorem nextBatchForModel_frame (modelId : String) (s : ModelDeadlineScheduler ν) :
    (s.nextBatchForModel modelId).2.config = s.config ∧
      (s.nextBatchForModel modelId).2.policy = s.policy := by
  rcases nextBatchForModel_spec modelId s with ⟨-, heq⟩ | ⟨_, _, -, heq⟩ <;> rw [heq] <;>
    exact ⟨rfl, rfl⟩

/-- A batch of one model leaves the heaps. -/
theorem nextBatchForModel_stored (modelId : String) (s : ModelDeadlineScheduler ν) :
    s.stored.Perm ((s.nextBatchForModel modelId).1 ++ (s.nextBatchForModel modelId).2.stored) := by
  rcases nextBatchForModel_spec modelId s with ⟨-, heq⟩ | ⟨item, heap, hpop, heq⟩
  · simp [heq]
  · rw [heq]
    exact putHeap_remove (heappop_perm hpop)

instance : AccountedScheduler (ModelDeadlineScheduler ν) ν where
  config := config
  stored := stored
  leaves _ clientId r := r.clientId = clientId
  Inv := Inv
  queueLen_eq hinv := hinv.total_eq
  submit_room m r s hroom := if_neg (not_le.mpr hroom)
  submit_reject m r s hfull hpolicy := by
    have hfull' : (s.config.maxQueueSize : Int) ≤ s.total := hfull
    simp [Scheduler.submit, submit, hfull', hpolicy]
  submit_evict m r s hinv hfull hpolicy := by
    have hfull' : (s.config.maxQueueSize : Int) ≤ s.total := hfull
    have htotal : TotalExact s.total s.stored := hinv.total_eq
    have hne : s.stored ≠ [] := htotal.ne_nil s.config.maxQueueSize_ge hfull'
    obtain ⟨modelId, item, rest, hperm, -, heq⟩ := dropOldest_spec hne
    have hrebuilt := hperm.trans ((heapify_perm InferenceRequest.lt rest).symm.cons item)
    refine ⟨item, s.dropOldest.2, dropOldest_inv hinv, (dropOldest_frame s).1, ?_, ?_⟩
    · rw [heq]
      exact putHeap_remove hrebuilt
    · simp [Scheduler.submit, Scheduler.resubmit, submit, hfull', hpolicy, heq]
  resubmit_spec m r s hinv := by
    refine ⟨?_, (resubmit_frame m r s).1, ?_⟩
    · simp only [Scheduler.resubmit, resubmit]
      cases hpush : s.push m r with
      | error e => exact hinv
      | ok s' => exact push_inv hinv hpush
    · simp only [Scheduler.resubmit, resubmit]
      cases hpush : s.push m r with
      | error e => exact ⟨rfl, by simp, fun _ => rfl⟩
      | ok s' =>
          obtain ⟨score, -, -, -, -, -, hperm, -⟩ := push_spec hpush
          exact ⟨rfl, fun _ => ⟨_, InferenceRequest.unstamped_stamp r score s.counter, hperm⟩,
            by simp⟩
  nextBatch_spec now s hinv := by
    rcases nextBatch_spec s with ⟨-, heq⟩ | ⟨modelId, -, heq⟩
    · simpa [Scheduler.nextBatch, heq] using hinv
    · simp only [Scheduler.nextBatch, heq]
      exact ⟨nextBatchForModel_inv modelId hinv, (nextBatchForModel_frame modelId s).1,
        nextBatchForModel_stored modelId s⟩
  tick_spec clock s hinv := by
    have hcount := sweep_count (fun r => !isExpired (clock r) s.config.requestTtlMs r) s
    simp only [Bool.not_not] at hcount
    exact ⟨sweep_inv _ hinv, rfl, sweep_stored _ s, hcount⟩
  connected_spec _ s hinv := ⟨hinv, rfl, List.Perm.refl _⟩
  disconnected_spec clientId s hinv := by
    refine ⟨sweep_inv _ hinv, rfl, ?_⟩
    simpa [Scheduler.onClientDisconnected, onClientDisconnected] using
      sweep_stored (fun r => r.clientId ≠ clientId) s

end ModelDeadlineScheduler
end Inferential
