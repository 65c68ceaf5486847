import Inferential.Scheduler.ModelDeadline

/-!
# SortedLists — the model-deadline scheduler refines a map of sorted lists

What the scheduler is for, without heaps: a map from model ids to lists of requests sorted by score
(highest first) and then by insertion counter.  `SpecStep` says what each call may do to such a map
and what it answers.  The heaps of `ModelDeadlineScheduler` implement it: every run of calls answers
as a run of the specification does, and `view` leads from its states to those of the specification.
-/

namespace Inferential

open PyStd PyStd.Heapq

variable {ν : Type} [Score ν]

/-! ## Calls and the specification -/

namespace ModelDeadlineScheduler

inductive Call (ν : Type)
  | submit (m : Moment ν) (request : InferenceRequest ν)
  | resubmit (m : Moment ν) (request : InferenceRequest ν)
  | nextBatchForModel (modelId : String)
  | nextBatch
  | tick (clock : InferenceRequest ν → Rat)
  | onClientDisconnected (clientId : String)

inductive Reply (ν : Type)
  | returned
  | raised (e : PyError)
  | batch (requests : List (InferenceRequest ν))
  | expired (count : Nat)

/-- The answer to a `submit` or `resubmit`. -/
def Reply.ofSubmitted {σ : Type} (o : Submitted σ ν) : Reply ν :=
  match o.raised with
  | none => .returned
  | some e => .raised e

def call (s : ModelDeadlineScheduler ν) : Call ν → Reply ν × ModelDeadlineScheduler ν
  | .submit m r => (.ofSubmitted (s.submit m r), (s.submit m r).state)
  | .resubmit m r => (.ofSubmitted (s.resubmit m r), (s.resubmit m r).state)
  | .nextBatchForModel modelId =>
      (.batch (s.nextBatchForModel modelId).1, (s.nextBatchForModel modelId).2)
  | .nextBatch => (.batch s.nextBatch.1, s.nextBatch.2)
  | .tick clock => (.expired (s.tick clock).1, (s.tick clock).2)
  | .onClientDisconnected clientId => (.returned, s.onClientDisconnected clientId)

/-- A run of calls, with all answers. -/
def calls (s : ModelDeadlineScheduler ν) : List (Call ν) → List (Reply ν) × ModelDeadlineScheduler ν
  | [] => ([], s)
  | c :: cs =>
      let (reply, s') := s.call c
      let (replies, s'') := s'.calls cs
      (reply :: replies, s'')

end ModelDeadlineScheduler

open ModelDeadlineScheduler (Call Reply)

/-- The abstract scheduler. -/
structure SortedLists (ν : Type) where
  lists : String → List (InferenceRequest ν)
  counter : Nat

namespace SortedLists

def empty : SortedLists ν := ⟨fun _ => [], 0⟩

/-- Of the requests in the lists, `count` satisfy `p`. -/
def Counts (a : SortedLists ν) (p : InferenceRequest ν → Bool) (count : Nat) : Prop :=
  ∃ found : List (InferenceRequest ν), found.Nodup ∧ found.length = count ∧
    ∀ r, r ∈ found ↔ p r = true ∧ ∃ modelId, r ∈ a.lists modelId

/-- Sorted insertion into the list of the request's model. -/
def insert (a : SortedLists ν) (r : InferenceRequest ν) : SortedLists ν where
  lists := Function.update a.lists r.modelId
    ((a.lists r.modelId).orderedInsert (fun x y => y.lt x = false) r)
  counter := a.counter + 1

/-- The list of one model without one of its requests. -/
def drop (a : SortedLists ν) (modelId : String) (rest : List (InferenceRequest ν)) :
    SortedLists ν :=
  { a with lists := Function.update a.lists modelId rest }

/-- The lists without the requests that are not kept. -/
def keepOnly (a : SortedLists ν) (keep : InferenceRequest ν → Bool) : SortedLists ν :=
  { a with lists := fun modelId => (a.lists modelId).filter keep }

/-- Exactly one request leaves, and none arrived before it. -/
inductive Evicts (a : SortedLists ν) : SortedLists ν → Prop
  | intro (modelId : String) (before after : List (InferenceRequest ν))
      (oldest : InferenceRequest ν)
      (hlist : a.lists modelId = before ++ oldest :: after)
      (hmin : ∀ modelId', ∀ r ∈ a.lists modelId', oldest.receivedAt ≤ r.receivedAt) :
      Evicts a (a.drop modelId (before ++ after))

section Steps

variable (config : SchedulingConfig ν) (policy : Option String)

/-- The request is scored and inserted, or the scoring raises. -/
inductive Enqueues (m : Moment ν) (r : InferenceRequest ν) (a : SortedLists ν) :
    Reply ν → SortedLists ν → Prop
  | scored {score : ν} (hscore : scoreWith policy config.modelDeadline m r = .ok score) :
      Enqueues m r a .returned (a.insert (r.stamp score a.counter))
  | failed {e : PyError} (hscore : scoreWith policy config.modelDeadline m r = .error e) :
      Enqueues m r a (.raised e) a

/-- What a call may do and answer. -/
inductive SpecStep : SortedLists ν → Call ν → Reply ν → SortedLists ν → Prop
  | submit {a a' : SortedLists ν} {m : Moment ν} {r : InferenceRequest ν} {reply : Reply ν}
      {size : Nat} (hsize : a.Counts (fun _ => true) size) (hroom : size < config.maxQueueSize)
      (henqueue : Enqueues config policy m r a reply a') :
      SpecStep a (.submit m r) reply a'
  | reject {a : SortedLists ν} {m : Moment ν} {r : InferenceRequest ν} {size : Nat}
      (hsize : a.Counts (fun _ => true) size) (hfull : config.maxQueueSize ≤ size)
      (hpolicy : config.overflowPolicy = .rejectNewest) :
      SpecStep a (.submit m r) (.raised (.queueFullError r.clientId)) a
  | evict {a a₁ a' : SortedLists ν} {m : Moment ν} {r : InferenceRequest ν} {reply : Reply ν}
      {size : Nat} (hsize : a.Counts (fun _ => true) size) (hfull : config.maxQueueSize ≤ size)
      (hpolicy : config.overflowPolicy = .dropOldest)
      (hevict : Evicts a a₁) (henqueue : Enqueues config policy m r a₁ reply a') :
      SpecStep a (.submit m r) reply a'
  | resubmit {a a' : SortedLists ν} {m : Moment ν} {r : InferenceRequest ν} {reply : Reply ν}
      (henqueue : Enqueues config policy m r a reply a') : SpecStep a (.resubmit m r) reply a'
  | nextNone {a : SortedLists ν} {modelId : String} (hlist : a.lists modelId = []) :
      SpecStep a (.nextBatchForModel modelId) (.batch []) a
  | nextHead {a : SortedLists ν} {modelId : String} {head : InferenceRequest ν}
      {rest : List (InferenceRequest ν)} (hlist : a.lists modelId = head :: rest) :
      SpecStep a (.nextBatchForModel modelId) (.batch [head]) (a.drop modelId rest)
  | drained {a : SortedLists ν} (hlists : ∀ modelId, a.lists modelId = []) :
      SpecStep a .nextBatch (.batch []) a
  | drainHead {a : SortedLists ν} {modelId : String} {head : InferenceRequest ν}
      {rest : List (InferenceRequest ν)} (hlist : a.lists modelId = head :: rest) :
      SpecStep a .nextBatch (.batch [head]) (a.drop modelId rest)
  | tick {a : SortedLists ν} {clock : InferenceRequest ν → Rat} {count : Nat}
      (hcount : a.Counts (fun r => isExpired (clock r) config.requestTtlMs r) count) :
      SpecStep a (.tick clock) (.expired count)
        (a.keepOnly fun r => !isExpired (clock r) config.requestTtlMs r)
  | disconnect {a : SortedLists ν} {clientId : String} :
      SpecStep a (.onClientDisconnected clientId) .returned
        (a.keepOnly fun r => r.clientId ≠ clientId)

/-- A run of the specification. -/
inductive SpecRun : SortedLists ν → List (Call ν) → List (Reply ν) → SortedLists ν → Prop
  | nil (a : SortedLists ν) : SpecRun a [] [] a
  | cons {a a' a'' : SortedLists ν} {c : Call ν} {cs : List (Call ν)} {reply : Reply ν}
      {replies : List (Reply ν)} (hstep : SpecStep config policy a c reply a')
      (hrun : SpecRun a' cs replies a'') : SpecRun a (c :: cs) (reply :: replies) a''

end Steps
end SortedLists

/-! ## The view of the heaps -/

namespace ModelDeadlineScheduler

open SortedLists

/-- The sorted lists that the heaps stand for. -/
def view (s : ModelDeadlineScheduler ν) : SortedLists ν where
  lists modelId := ranked InferenceRequest.lt (s.heapOf modelId)
  counter := s.counter

/-- The invariant together with the heap order. -/
structure Sound (s : ModelDeadlineScheduler ν) : Prop extends Inv s where
  heap : ∀ modelId, IsHeap InferenceRequest.lt (s.heapOf modelId)

theorem view_init (config : SchedulingConfig ν) (policy : Option String) :
    view { init config with policy := policy } = SortedLists.empty := by
  simp [view, init, heapOf, ranked, SortedLists.empty]

theorem init_sound (config : SchedulingConfig ν) (policy : Option String) :
    Sound { init config with policy := policy } where
  toInv := init_inv config policy
  heap _ := isHeap_nil

/-- The queued requests that satisfy `p`, counted in the lists. -/
theorem Inv.counts {s : ModelDeadlineScheduler ν} (h : Inv s) (p : InferenceRequest ν → Bool) :
    (view s).Counts p (s.stored.filter p).length := by
  refine ⟨s.stored.filter p, (List.Nodup.of_map _ h.distinct).filter p, rfl, ?_⟩
  intro r
  simp only [List.mem_filter, mem_stored, view, mem_ranked]
  exact and_comm

/-- Replacing the heap of a model replaces its list. -/
theorem view_putHeap (s : ModelDeadlineScheduler ν) (modelId : String)
    (heap : List (InferenceRequest ν)) :
    view { s with queues := s.putHeap modelId heap, total := s.total - 1 } =
      (view s).drop modelId (ranked InferenceRequest.lt heap) := by
  simp only [view, SortedLists.drop, heapOf, SortedLists.mk.injEq, and_true]
  funext modelId'
  rw [putHeap_listAt, Function.update_apply]
  split <;> rfl

theorem heap_putHeap {s : ModelDeadlineScheduler ν} (h : Sound s) (modelId : String)
    {heap : List (InferenceRequest ν)} (hheap : IsHeap InferenceRequest.lt heap)
    (modelId' : String) :
    IsHeap InferenceRequest.lt ((s.putHeap modelId heap).listAt modelId') := by
  rw [putHeap_listAt]
  split
  · exact hheap
  · exact h.heap modelId'

theorem submit_frame (m : Moment ν) (r : InferenceRequest ν) (s : ModelDeadlineScheduler ν) :
    (s.submit m r).state.config = s.config ∧ (s.submit m r).state.policy = s.policy := by
  unfold submit
  split
  · split
    · obtain ⟨hconfig, hpolicy⟩ := resubmit_frame m r s.dropOldest.2
      obtain ⟨hconfig', hpolicy'⟩ := dropOldest_frame s
      exact ⟨hconfig.trans hconfig', hpolicy.trans hpolicy'⟩
    · exact ⟨rfl, rfl⟩
  · exact resubmit_frame m r s

/-- No call changes the configuration or the policy. -/
theorem call_frame (s : ModelDeadlineScheduler ν) (c : Call ν) :
    (s.call c).2.config = s.config ∧ (s.call c).2.policy = s.policy := by
  cases c with
  | submit m r => exact submit_frame m r s
  | resubmit m r => exact resubmit_frame m r s
  | nextBatchForModel modelId => exact nextBatchForModel_frame modelId s
  | nextBatch =>
      rcases nextBatch_spec s with ⟨-, heq⟩ | ⟨modelId, -, heq⟩
      · rw [call, heq]
        exact ⟨rfl, rfl⟩
      · rw [call, heq]
        exact nextBatchForModel_frame modelId s
  | tick clock => exact ⟨rfl, rfl⟩
  | onClientDisconnected clientId => exact ⟨rfl, rfl⟩

variable [LawfulBEq ν] [IsStrictTotalOrder ν (· < ·)]

theorem Inv.separated {s : ModelDeadlineScheduler ν} (h : Inv s) (modelId : String) :
    Separated InferenceRequest.lt (s.heapOf modelId) := by
  have hsub : ((s.heapOf modelId).map InferenceRequest.counter).Nodup :=
    h.distinct.sublist ((Dict.listAt_sublist_flatten s.queues modelId).map _)
  have hpair := List.pairwise_map.mp hsub
  exact hpair.imp (fun hne => InferenceRequest.lt_or_lt_of_counter_ne hne)

theorem push_refines {m : Moment ν} {r : InferenceRequest ν} {s : ModelDeadlineScheduler ν}
    (h : Sound s) :
    Sound (s.resubmit m r).state ∧
      Enqueues s.config s.policy m r (view s) (.ofSubmitted (s.resubmit m r))
        (view (s.resubmit m r).state) := by
  unfold resubmit
  cases hpush : s.push m r with
  | error e =>
      -- scoring raised before anything was written
      refine ⟨h, Enqueues.failed ?_⟩
      unfold push at hpush
      cases hscore : s.computeScore m r with
      | error e' =>
          simp only [hscore, Except.error.injEq] at hpush
          rw [← hpush]
          exact hscore
      | ok score => simp [hscore] at hpush
  | ok s' =>
      have hinv := push_inv h.toInv hpush
      obtain ⟨score, hscore, -, -, hcounter, -, -, hheap, -⟩ := push_spec hpush
      -- only the list of the request's model changes, by a sorted insertion
      have hview : view s' = (view s).insert (r.stamp score s.counter) := by
        simp only [view, SortedLists.insert, InferenceRequest.stamp_modelId, SortedLists.mk.injEq]
        refine ⟨?_, hcounter⟩
        funext modelId
        rw [Function.update_apply, hheap]
        split
        · next heq =>
            subst heq
            refine ranked_heappush ((hinv.separated r.modelId).perm ?_)
            rw [hheap, if_pos rfl]
            exact heappush_perm _ _ _
        · rfl
      refine ⟨⟨hinv, ?_⟩, ?_⟩
      · intro modelId
        dsimp only
        rw [hheap]
        split
        · exact heappush_isHeap (h.heap modelId) _
        · exact h.heap modelId
      · simp only [Reply.ofSubmitted, hview]
        exact Enqueues.scored hscore

theorem remove_refines {s : ModelDeadlineScheduler ν} (h : Sound s) {modelId : String}
    {item : InferenceRequest ν} {heap : List (InferenceRequest ν)}
    (hpop : heappop InferenceRequest.lt (s.heapOf modelId) = some (item, heap)) :
    Sound { s with queues := s.putHeap modelId heap, total := s.total - 1 } ∧
      (view s).lists modelId = item :: ranked InferenceRequest.lt heap ∧
      view { s with queues := s.putHeap modelId heap, total := s.total - 1 } =
        (view s).drop modelId (ranked InferenceRequest.lt heap) := by
  have hperm := heappop_perm hpop
  refine ⟨⟨remove_inv h.toInv hperm, ?_⟩, ?_, view_putHeap s modelId heap⟩
  · exact heap_putHeap h modelId (heappop_isHeap (h.heap modelId) hpop)
  · exact ranked_heappop (h.heap modelId) (h.toInv.separated modelId) hpop

theorem dropOldest_refines {s : ModelDeadlineScheduler ν} (h : Sound s) (hne : s.stored ≠ []) :
    Sound s.dropOldest.2 ∧ Evicts (view s) (view s.dropOldest.2) := by
  obtain ⟨modelId, item, rest, hperm, hmin, heq⟩ := dropOldest_spec hne
  rw [heq]
  -- the heap is rebuilt after the eviction, which only permutes it
  have hperm' : (s.heapOf modelId).Perm (item :: heapify InferenceRequest.lt rest) :=
    hperm.trans ((heapify_perm _ rest).symm.cons item)
  obtain ⟨before, after, hsplit, hrest⟩ := ranked_remove (h.toInv.separated modelId) hperm'
  refine ⟨⟨remove_inv h.toInv hperm', ?_⟩, ?_⟩
  · exact heap_putHeap h modelId (heapify_isHeap rest)
  · dsimp only
    rw [view_putHeap, hrest]
    refine Evicts.intro modelId before after item hsplit ?_
    intro modelId' r hr
    exact hmin r (mem_stored.mpr ⟨modelId', mem_ranked.mp hr⟩)

theorem submit_refines {m : Moment ν} {r : InferenceRequest ν} {s : ModelDeadlineScheduler ν}
    (h : Sound s) :
    Sound (s.submit m r).state ∧
      SpecStep s.config s.policy (view s) (.submit m r) (.ofSubmitted (s.submit m r))
        (view (s.submit m r).state) := by
  have htotal := h.total_eq
  have hsize : (view s).Counts (fun _ => true) s.stored.length := by
    simpa using h.toInv.counts (fun _ => true)
  unfold submit
  by_cases hfull : (s.config.maxQueueSize : Int) ≤ s.total
  · have hfull' : s.config.maxQueueSize ≤ s.stored.length := by omega
    -- a full queue holds at least one request, so an eviction finds one
    have hne : s.stored ≠ [] := by
      intro hnil
      have := s.config.maxQueueSize_ge
      simp [hnil] at htotal
      omega
    rw [if_pos hfull]
    cases hpolicy : s.config.overflowPolicy with
    | dropOldest =>
        obtain ⟨hsound, hevict⟩ := dropOldest_refines h hne
        obtain ⟨_, _, _, _, _, heq⟩ := dropOldest_spec hne
        have hconfig : s.dropOldest.2.config = s.config := by rw [heq]
        have hpol : s.dropOldest.2.policy = s.policy := by rw [heq]
        obtain ⟨hsound', henqueue⟩ := push_refines (m := m) (r := r) hsound
        rw [hconfig, hpol] at henqueue
        exact ⟨hsound', SpecStep.evict hsize hfull' hpolicy hevict henqueue⟩
    | rejectNewest => exact ⟨h, SpecStep.reject hsize hfull' hpolicy⟩
  · rw [if_neg hfull]
    obtain ⟨hsound', henqueue⟩ := push_refines (m := m) (r := r) h
    exact ⟨hsound', SpecStep.submit hsize (by omega) henqueue⟩

theorem nextBatchForModel_refines {s : ModelDeadlineScheduler ν} (h : Sound s) (modelId : String) :
    Sound (s.nextBatchForModel modelId).2 ∧
      SpecStep s.config s.policy (view s) (.nextBatchForModel modelId)
        (.batch (s.nextBatchForModel modelId).1) (view (s.nextBatchForModel modelId).2) := by
  rcases nextBatchForModel_spec modelId s with ⟨hnil, heq⟩ | ⟨item, heap, hpop, heq⟩
  · rw [heq]
    exact ⟨h, SpecStep.nextNone (by simp [view, hnil])⟩
  · obtain ⟨hsound, hlist, hview⟩ := remove_refines h hpop
    rw [heq]
    refine ⟨hsound, ?_⟩
    rw [hview]
    exact SpecStep.nextHead hlist

theorem nextBatch_refines {s : ModelDeadlineScheduler ν} (h : Sound s) :
    Sound s.nextBatch.2 ∧
      SpecStep s.config s.policy (view s) .nextBatch (.batch s.nextBatch.1) (view s.nextBatch.2) := by
  rcases nextBatch_spec s with ⟨hnil, heq⟩ | ⟨modelId, hne, heq⟩
  · rw [heq]
    refine ⟨h, SpecStep.drained ?_⟩
    intro modelId
    rw [view, ranked_eq_nil, List.eq_nil_iff_forall_not_mem]
    intro r hr
    have : r ∈ s.stored := mem_stored.mpr ⟨modelId, hr⟩
    simp [hnil] at this
  -- the model that is asked has requests, so its heap gives one up
  · rcases nextBatchForModel_spec modelId s with ⟨hnil, -⟩ | ⟨item, heap, hpop, hbatch⟩
    · exact absurd hnil hne
    · obtain ⟨hsound, hlist, hview⟩ := remove_refines h hpop
      rw [heq, hbatch]
      refine ⟨hsound, ?_⟩
      rw [hview]
      exact SpecStep.drainHead hlist

theorem sweep_refines {s : ModelDeadlineScheduler ν} (h : Sound s)
    (keep : InferenceRequest ν → Bool) :
    Sound (s.sweep keep).2 ∧ view (s.sweep keep).2 = (view s).keepOnly keep := by
  refine ⟨⟨sweep_inv keep h.toInv, ?_⟩, ?_⟩
  · intro modelId
    rw [sweep_heapOf]
    unfold sweepHeap
    dsimp only
    split
    · exact heapify_isHeap _
    · next hno =>
        -- the heap was not rebuilt: either it is empty or nothing left it
        by_cases hnil : (s.heapOf modelId).filter keep = []
        · rw [hnil]
          exact isHeap_nil
        · -- nothing was removed, so the heap is the old one
          have hle := List.length_filter_le keep (s.heapOf modelId)
          have hall : (s.heapOf modelId).filter keep = s.heapOf modelId := by
            refine List.filter_sublist.eq_of_length ?_
            by_contra hne
            exact hno ⟨by omega, hnil⟩
          rw [hall]
          exact h.heap modelId
  · simp only [view, SortedLists.keepOnly, SortedLists.mk.injEq]
    refine ⟨?_, rfl⟩
    funext modelId
    rw [sweep_heapOf, ← ranked_filter (h.toInv.separated modelId)]
    have hsep : Separated InferenceRequest.lt ((s.heapOf modelId).filter keep) :=
      (h.toInv.separated modelId).sublist List.filter_sublist
    exact (ranked_congr hsep (sweepHeap_perm keep _).symm).symm

/-- One call is one step of the specification. -/
theorem call_refines {s : ModelDeadlineScheduler ν} (h : Sound s) (c : Call ν) :
    Sound (s.call c).2 ∧ SpecStep s.config s.policy (view s) c (s.call c).1 (view (s.call c).2) := by
  cases c with
  | submit m r => exact submit_refines h
  | resubmit m r =>
      obtain ⟨hsound, henqueue⟩ := push_refines (m := m) (r := r) h
      exact ⟨hsound, SpecStep.resubmit henqueue⟩
  | nextBatchForModel modelId => exact nextBatchForModel_refines h modelId
  | nextBatch => exact nextBatch_refines h
  | tick clock =>
      obtain ⟨hsound, hview⟩ :=
        sweep_refines h (fun r => !isExpired (clock r) s.config.requestTtlMs r)
      have hcount := h.toInv.counts (fun r => isExpired (clock r) s.config.requestTtlMs r)
      refine ⟨hsound, ?_⟩
      simp only [call, tick, hview, sweep_count, Bool.not_not]
      exact SpecStep.tick hcount
  | onClientDisconnected clientId =>
      obtain ⟨hsound, hview⟩ := sweep_refines h (fun r => r.clientId ≠ clientId)
      refine ⟨hsound, ?_⟩
      simp only [call, onClientDisconnected, hview]
      exact SpecStep.disconnect

/-- Runs of calls are runs of the specification. -/
theorem calls_refines {s : ModelDeadlineScheduler ν} (h : Sound s) (cs : List (Call ν)) :
    Sound (s.calls cs).2 ∧
      SpecRun s.config s.policy (view s) cs (s.calls cs).1 (view (s.calls cs).2) := by
  -- each call starts from the state that the view of the last one describes
  induction cs generalizing s with
  | nil => exact ⟨h, SpecRun.nil _⟩
  | cons c cs ih =>
      obtain ⟨hsound, hstep⟩ := call_refines h c
      obtain ⟨hconfig, hpolicy⟩ := call_frame s c
      obtain ⟨hsound', hrun⟩ := ih hsound
      rw [hconfig, hpolicy] at hrun
      exact ⟨hsound', SpecRun.cons hstep hrun⟩

/-! ## What can be read off a state -/

/-- The answers of the queries and the shape of the heaps, in terms of the sorted lists. -/
structure Represents (s : ModelDeadlineScheduler ν) (a : SortedLists ν) : Prop where
  contents : ∀ modelId, (a.lists modelId).Perm (s.heapOf modelId)
  sorted : ∀ modelId, (a.lists modelId).Pairwise fun x y =>
    y.score < x.score ∨ x.score = y.score ∧ x.counter < y.counter
  queueLenForModel : ∀ modelId, s.queueLenForModel modelId = (a.lists modelId).length
  queueLen : s.queueLen = ((s.models.map fun modelId => (a.lists modelId).length).sum : Nat)
  models : ∀ modelId, modelId ∈ s.models ↔ a.lists modelId ≠ []
  modelsNodup : s.models.Nodup
  total : s.total = ((s.queues.values.map List.length).sum : Nat)
  noEmptyHeap : ∀ heap ∈ s.queues.values, heap ≠ []
  own : ∀ item ∈ s.queues.items, ∀ r ∈ item.2, r.modelId = item.1
  heapOrdered : ∀ heap ∈ s.queues.values, IsHeap InferenceRequest.lt heap

theorem view_sorted {s : ModelDeadlineScheduler ν} (h : Sound s) (modelId : String) :
    ((view s).lists modelId).Pairwise fun x y =>
      y.score < x.score ∨ x.score = y.score ∧ x.counter < y.counter := by
  have hsep : Separated InferenceRequest.lt ((view s).lists modelId) :=
    (h.toInv.separated modelId).perm (ranked_perm _ _).symm
  have hpair : ((view s).lists modelId).Pairwise (fun x y => y.lt x = false) := ranked_pairwise _
  -- no two counters are equal, so being level with each other is excluded
  refine (hsep.and hpair).imp ?_
  rintro x y ⟨hstrict | hstrict, hle⟩
  · exact InferenceRequest.lt_iff.mp hstrict
  · rw [hstrict] at hle
    simp at hle

theorem Sound.represents {s : ModelDeadlineScheduler ν} (h : Sound s) :
    Represents s (view s) where
  contents modelId := ranked_perm _ _
  sorted := view_sorted h
  queueLenForModel modelId := (ranked_length _ _).symm
  queueLen := by
    have hsum : (s.models.map fun modelId => ((view s).lists modelId).length).sum =
        s.stored.length := by
      have hfun : ∀ modelId, ((view s).lists modelId).length = (s.queues.listAt modelId).length :=
        fun modelId => ranked_length _ _
      simp only [hfun]
      exact Dict.sum_length_listAt s.queues
    simp only [ModelDeadlineScheduler.queueLen, hsum]
    exact h.total_eq
  models modelId := by
    rw [mem_models]
    simp [view]
  modelsNodup := s.queues.nodup.sublist (List.filter_sublist.map Prod.fst)
  total := by
    have hlen : s.stored.length = (s.queues.values.map List.length).sum := List.length_flatten
    rw [← hlen]
    exact h.total_eq
  noEmptyHeap heap hheap := by
    obtain ⟨item, hitem, rfl⟩ := List.mem_map.mp hheap
    intro hnil
    refine h.nonempty item.1 ?_
    rw [Dict.get?_eq_some, ← hnil]
    exact hitem
  own item hitem r hr := by
    refine h.own item.1 r ?_
    have hget : s.queues.get? item.1 = some item.2 := Dict.get?_eq_some.mpr hitem
    simpa [heapOf, Dict.listAt, hget] using hr
  heapOrdered heap hheap := by
    obtain ⟨item, hitem, rfl⟩ := List.mem_map.mp hheap
    have hget : s.queues.get? item.1 = some item.2 := Dict.get?_eq_some.mpr hitem
    simpa [heapOf, Dict.listAt, hget] using h.heap item.1

/-- For every sequence of calls the scheduler answers as a map of sorted lists does, and its heaps
hold exactly those lists. -/
theorem refines_sortedLists (config : SchedulingConfig ν) (policy : Option String)
    (cs : List (Call ν)) :
    let s := ({ init config with policy := policy } : ModelDeadlineScheduler ν).calls cs
    SpecRun config policy SortedLists.empty cs s.1 (view s.2) ∧ Represents s.2 (view s.2) := by
  intro s
  obtain ⟨hsound, hrun⟩ := calls_refines (init_sound config policy) cs
  rw [view_init] at hrun
  exact ⟨hrun, hsound.represents⟩

/-- A full queue of two, an eviction across models, a retry and a TTL sweep. -/
theorem refines_sortedLists_overflow :
    let config : SchedulingConfig Rat :=
      { plainConfig.scheduling with maxQueueSize := 2, maxQueueSize_ge := by decide }
    let at_ (now : Rat) : Moment Rat := { now := now, policy := fun _ _ => .ok 0 }
    let cs : List (Call Rat) :=
      [.submit (at_ 1) (plainRequest "a" "policy" 1 0),
        .submit (at_ 2) (plainRequest "b" "telemetry" 2 1),
        .submit (at_ 3) (plainRequest "a" "policy" 3 2),
        .resubmit (at_ 4) (plainRequest "a" "policy" 1 3),
        .tick (fun _ => 7), .nextBatch]
    let s := ({ init config with policy := none } : ModelDeadlineScheduler Rat).calls cs
    SpecRun config none SortedLists.empty cs s.1 (view s.2) ∧ Represents s.2 (view s.2) :=
  refines_sortedLists _ _ _

end ModelDeadlineScheduler
end Inferential
