import Inferential.Machine.Unwinding
import Inferential.PyStd.HeapqMap
import Inferential.Scheduler.SortedLists

/-!
# ModelIsolation — what other models cannot change

All models of a `ModelDeadlineScheduler` share one counter, one total and one dictionary.  A run is
compared with the run of the calls that concern one model: the heap of this model is the same in
both up to the numbers of its requests, and the numbers are in the same order.
-/

namespace Inferential

open PyStd PyStd.Heapq

variable {ν : Type} [Score ν]

/-- The request without its insertion number. -/
def InferenceRequest.unnumbered (r : InferenceRequest ν) : InferenceRequest ν := r.stamp r.score 0

namespace ModelDeadlineScheduler

/-! ## Calls -/

/-- The calls of the pipelined server.  A sweep reads the clock for each request it tests, whatever
the number of the request is. -/
inductive ModelCall (ν : Type)
  | submit (m : Moment ν) (request : InferenceRequest ν)
  | resubmit (m : Moment ν) (request : InferenceRequest ν)
  | nextBatchForModel (modelId : String)
  | tick (clock : InferenceRequest ν → Rat)
  | onClientDisconnected (clientId : String)

def ModelCall.toCall : ModelCall ν → Call ν
  | .submit m r => .submit m r
  | .resubmit m r => .resubmit m r
  | .nextBatchForModel modelId => .nextBatchForModel modelId
  | .tick clock => .tick fun r => clock r.unnumbered
  | .onClientDisconnected clientId => .onClientDisconnected clientId

/-- Ticks and disconnections concern every model. -/
def ModelCall.concerns (modelId : String) : ModelCall ν → Bool
  | .submit _ r => r.modelId = modelId
  | .resubmit _ r => r.modelId = modelId
  | .nextBatchForModel modelId' => modelId' = modelId
  | .tick _ => true
  | .onClientDisconnected _ => true

def serve (s : ModelDeadlineScheduler ν) (c : ModelCall ν) : Reply ν × ModelDeadlineScheduler ν :=
  s.call c.toCall

/-- A request is submitted only below the maximal queue size. -/
def HasRoom (s : ModelDeadlineScheduler ν) : ModelCall ν → Prop
  | .submit _ _ => s.queueLen < s.config.maxQueueSize
  | _ => True

instance (s : ModelDeadlineScheduler ν) : ∀ c : ModelCall ν, Decidable (s.HasRoom c)
  | .submit _ _ => inferInstanceAs (Decidable (s.queueLen < s.config.maxQueueSize))
  | .resubmit _ _ => isTrue trivial
  | .nextBatchForModel _ => isTrue trivial
  | .tick _ => isTrue trivial
  | .onClientDisconnected _ => isTrue trivial

/-- The same answer, up to the numbers of the requests; a tick counts the requests of all models. -/
inductive Reply.Agrees : Reply ν → Reply ν → Prop
  | returned : Agrees .returned .returned
  | raised (e : PyError) : Agrees (.raised e) (.raised e)
  | batch {batch batch' : List (InferenceRequest ν)}
      (h : batch.map InferenceRequest.unnumbered = batch'.map InferenceRequest.unnumbered) :
      Agrees (.batch batch) (.batch batch')
  | expired (count count' : Nat) : Agrees (.expired count) (.expired count')

/-! ## Renumbering -/

/-- The request under another number. -/
def renumber (g : Nat → Nat) (r : InferenceRequest ν) : InferenceRequest ν :=
  r.stamp r.score (g r.counter)

omit [Score ν] in
@[simp] theorem renumber_unnumbered (g : Nat → Nat) (r : InferenceRequest ν) :
    (renumber g r).unnumbered = r.unnumbered := rfl

/-- Numbers only matter by their order. -/
theorem renumber_carries {g : Nat → Nat} (hg : StrictMono g) :
    Carries (InferenceRequest.lt (ν := ν)) InferenceRequest.lt (renumber g) := by
  intro a b
  simp only [InferenceRequest.lt, renumber, InferenceRequest.stamp_score,
    InferenceRequest.stamp_counter]
  by_cases hscore : (a.score != b.score) = true
  · simp only [hscore, if_true]
    rfl
  · simp only [hscore, Bool.false_eq_true, if_false]
    exact decide_eq_decide.mpr hg.lt_iff_lt

theorem heappush_renumber {g : Nat → Nat} (hg : StrictMono g)
    (heap : List (InferenceRequest ν)) (r : InferenceRequest ν) :
    heappush InferenceRequest.lt (heap.map (renumber g)) (renumber g r) =
      (heappush InferenceRequest.lt heap r).map (renumber g) :=
  (renumber_carries hg).heappush heap r

theorem sweepHeap_renumber {g : Nat → Nat} (hg : StrictMono g)
    {keep : InferenceRequest ν → Bool} (hkeep : ∀ r, keep (renumber g r) = keep r)
    (heap : List (InferenceRequest ν)) :
    sweepHeap keep (heap.map (renumber g)) = (sweepHeap keep heap).map (renumber g) := by
  have hfilter : (heap.map (renumber g)).filter keep = (heap.filter keep).map (renumber g) := by
    have hcomp : keep ∘ renumber g = keep := funext hkeep
    simp only [List.filter_map, hcomp]
  simp only [sweepHeap, hfilter, List.length_map, List.map_eq_nil_iff, ne_eq]
  split
  · exact (renumber_carries hg).heapify _
  · rfl

/-! ## The two runs -/

/-- The second state is that of the run with the calls of one model only. -/
structure Alike (modelId : String) (s s' : ModelDeadlineScheduler ν) : Prop where
  inv : Inv s
  inv' : Inv s'
  config : s'.config = s.config
  policy : s'.policy = s.policy
  only : ∀ r ∈ s'.stored, r.modelId = modelId
  heap : ∃ g : Nat → Nat, StrictMono g ∧ (∀ n < s'.counter, g n < s.counter) ∧
    s.heapOf modelId = (s'.heapOf modelId).map (renumber g)

namespace Alike

variable {modelId : String} {s s' : ModelDeadlineScheduler ν}

/-- The second queue is not longer. -/
theorem total_le (h : Alike modelId s s') : s'.total ≤ s.total := by
  rcases h.heap with ⟨g, -, -, hheap⟩
  have hsub : s'.stored ⊆ s'.heapOf modelId := by
    intro r hr
    rcases mem_stored.mp hr with ⟨modelId', hmem⟩
    have hmodel := h.inv'.own modelId' r hmem
    exact (h.only r hr) ▸ hmodel ▸ hmem
  have hnodup : s'.stored.Nodup := List.Nodup.of_map _ h.inv'.distinct
  have hlength : (s'.heapOf modelId).length = (s.heapOf modelId).length := by simp [hheap]
  have hle : (s.heapOf modelId).length ≤ s.stored.length :=
    (Dict.listAt_sublist_flatten s.queues modelId).length_le
  have hle' : s'.stored.length ≤ (s'.heapOf modelId).length :=
    (List.subperm_of_subset hnodup hsub).length_le
  have htotal := h.inv.total_eq
  have htotal' := h.inv'.total_eq
  omega

/-- A call of another model leaves the heap of this one alone. -/
theorem skip (h : Alike modelId s s') {t : ModelDeadlineScheduler ν} (hinv : Inv t)
    (hconfig : t.config = s.config) (hpolicy : t.policy = s.policy)
    (hcounter : s.counter ≤ t.counter) (hheap : t.heapOf modelId = s.heapOf modelId) :
    Alike modelId t s' := by
  rcases h.heap with ⟨g, hg, hbelow, heq⟩
  refine ⟨hinv, h.inv', ?_, ?_, h.only, g, hg, ?_, hheap.trans heq⟩
  · simp [hconfig, h.config]
  · simp [hpolicy, h.policy]
  · intro n hn
    exact (hbelow n hn).trans_le hcounter

/-- A call that both runs make takes requests out of both heaps alike. -/
theorem remove (h : Alike modelId s s') {t t' : ModelDeadlineScheduler ν} (hinv : Inv t)
    (hinv' : Inv t') (hconfig : t.config = s.config) (hconfig' : t'.config = s'.config)
    (hpolicy : t.policy = s.policy) (hpolicy' : t'.policy = s'.policy)
    (hcounter : t.counter = s.counter) (hcounter' : t'.counter = s'.counter)
    (honly : ∀ r ∈ t'.stored, r ∈ s'.stored)
    (hheap : ∀ g : Nat → Nat, StrictMono g →
      s.heapOf modelId = (s'.heapOf modelId).map (renumber g) →
        t.heapOf modelId = (t'.heapOf modelId).map (renumber g)) :
    Alike modelId t t' := by
  rcases h.heap with ⟨g, hg, hbelow, heq⟩
  refine ⟨hinv, hinv', ?_, ?_, ?_, g, hg, ?_, hheap g hg heq⟩
  · simp [hconfig, hconfig', h.config]
  · simp [hpolicy, hpolicy', h.policy]
  · intro r hr
    exact h.only r (honly r hr)
  · simpa [hcounter, hcounter'] using hbelow

/-- The numbers of a run that goes on with one more request of the model. -/
def continueWith (g : Nat → Nat) (own all : Nat) (n : Nat) : Nat :=
  if n < own then g n else all + (n - own)

theorem continueWith_strictMono {g : Nat → Nat} (hg : StrictMono g) {own all : Nat}
    (hbelow : ∀ n < own, g n < all) : StrictMono (continueWith g own all) := by
  intro a b hab
  simp only [continueWith]
  by_cases hb : b < own
  · have ha : a < own := hab.trans hb
    simpa [ha, hb] using hg hab
  · by_cases ha : a < own
    · have hlow := hbelow a ha
      simp only [ha, hb, if_true, if_false]
      omega
    · simp only [ha, hb, if_false]
      omega

/-- A request of the model is queued in both runs, or its scoring raises in both. -/
theorem push (h : Alike modelId s s') (m : Moment ν) {r : InferenceRequest ν}
    (hr : r.modelId = modelId) :
    Reply.Agrees (.ofSubmitted (s.resubmit m r)) (.ofSubmitted (s'.resubmit m r)) ∧
      Alike modelId (s.resubmit m r).state (s'.resubmit m r).state := by
  have hsame : s'.computeScore m r = s.computeScore m r := by
    simp [computeScore, h.config, h.policy]
  cases hpush : s.push m r with
  | error e =>
      have hpush' : s'.push m r = .error e := by
        cases hscore : s.computeScore m r with
        | error e' => simpa [ModelDeadlineScheduler.push, hsame, hscore] using hpush
        | ok score => simp [ModelDeadlineScheduler.push, hscore] at hpush
      simp only [resubmit, hpush, hpush', Reply.ofSubmitted]
      exact ⟨.raised e, h⟩
  | ok t =>
      rcases push_spec hpush with ⟨score, hscore, hconfig, hpolicy, hcounter, -, -, hheap, -⟩
      obtain ⟨t', hpush'⟩ : ∃ t', s'.push m r = .ok t' := by
        simp [ModelDeadlineScheduler.push, hsame, hscore]
      rcases push_spec hpush' with
        ⟨score', hscore', hconfig', hpolicy', hcounter', -, hperm', hheap', -⟩
      have hequal : score' = score := by
        rw [hsame, hscore] at hscore'
        exact (Except.ok.inj hscore').symm
      subst hequal
      simp only [resubmit, hpush, hpush', Reply.ofSubmitted]
      refine ⟨.returned, push_inv h.inv hpush, push_inv h.inv' hpush', ?_, ?_, ?_, ?_⟩
      · simp [hconfig, hconfig', h.config]
      · simp [hpolicy, hpolicy', h.policy]
      · intro q hq
        rcases List.mem_cons.mp (hperm'.mem_iff.mp hq) with rfl | hold
        · exact hr
        · exact h.only q hold
      -- the old numbers stay, and the new request gets the two counters
      · rcases h.heap with ⟨g, hg, hbelow, heq⟩
        have hmono := continueWith_strictMono hg hbelow
        refine ⟨continueWith g s'.counter s.counter, hmono, ?_, ?_⟩
        · intro n hn
          simp only [continueWith, hcounter]
          split
          · next hlt => exact (hbelow n hlt).trans (Nat.lt_succ_self _)
          · omega
        · have hold : (s'.heapOf modelId).map (renumber g) =
              (s'.heapOf modelId).map (renumber (continueWith g s'.counter s.counter)) := by
            apply List.map_congr_left
            intro q hq
            have hfresh := h.inv'.fresh q (mem_stored.mpr ⟨modelId, hq⟩)
            simp [renumber, continueWith, hfresh]
          have hnew : r.stamp score' s.counter =
              renumber (continueWith g s'.counter s.counter) (r.stamp score' s'.counter) := by
            simp [renumber, continueWith, InferenceRequest.stamp]
          simp only [hheap, hheap', hr, if_true, heq, hold, hnew]
          exact heappush_renumber hmono _ _

/-- Both runs take the same request out of the heap of the model. -/
theorem nextBatchForModel (h : Alike modelId s s') :
    (s.nextBatchForModel modelId).1.map InferenceRequest.unnumbered =
        (s'.nextBatchForModel modelId).1.map InferenceRequest.unnumbered ∧
      Alike modelId (s.nextBatchForModel modelId).2 (s'.nextBatchForModel modelId).2 := by
  rcases nextBatchForModel_spec modelId s' with ⟨hnil', heq'⟩ | ⟨item', rest', hpop', heq'⟩
  · have hnil : s.heapOf modelId = [] := by
      rcases h.heap with ⟨g, -, -, hheap⟩
      simp [hheap, hnil']
    rcases nextBatchForModel_spec modelId s with ⟨-, heq⟩ | ⟨item, rest, hpop, -⟩
    · simp only [heq, heq', List.map_nil, true_and]
      exact h
    · simp [hnil, heappop] at hpop
  · -- whatever the renumbering is, it carries the popped request and the rest over
    have hpops : ∀ g : Nat → Nat, StrictMono g →
        s.heapOf modelId = (s'.heapOf modelId).map (renumber g) →
          heappop InferenceRequest.lt (s.heapOf modelId) =
            some (renumber g item', rest'.map (renumber g)) := by
      intro g hg hheap
      simp [hheap, (renumber_carries hg).heappop, hpop']
    rcases h.heap with ⟨g, hg, -, hheap⟩
    rcases nextBatchForModel_spec modelId s with ⟨hnil, -⟩ | ⟨item, rest, hpop, heq⟩
    · have hsome := hpops g hg hheap
      simp [hnil, heappop] at hsome
    · have hsame := hpop.symm.trans (hpops g hg hheap)
      simp only [Option.some.injEq, Prod.mk.injEq] at hsame
      simp only [heq, heq']
      refine ⟨by simp [hsame.1], ?_⟩
      refine h.remove (remove_inv h.inv (heappop_perm hpop))
        (remove_inv h.inv' (heappop_perm hpop')) rfl rfl rfl rfl rfl rfl ?_ ?_
      · intro r hr
        exact (putHeap_remove (heappop_perm hpop')).mem_iff.mpr (List.mem_cons_of_mem item' hr)
      · intro g' hg' hheap'
        have hsame' := hpop.symm.trans (hpops g' hg' hheap')
        simp only [Option.some.injEq, Prod.mk.injEq] at hsame'
        simp [heapOf, putHeap_listAt, hsame'.2]

/-- A sweep keeps the same requests of both heaps. -/
theorem sweep (h : Alike modelId s s') (keep : InferenceRequest ν → Bool)
    (hkeep : ∀ g r, keep (renumber g r) = keep r) :
    Alike modelId (s.sweep keep).2 (s'.sweep keep).2 := by
  refine h.remove (sweep_inv keep h.inv) (sweep_inv keep h.inv') rfl rfl rfl rfl rfl rfl ?_ ?_
  · intro r hr
    exact List.mem_of_mem_filter ((sweep_stored keep s').mem_iff.mp hr)
  · intro g hg heq
    simp only [sweep_heapOf, heq]
    exact sweepHeap_renumber hg (hkeep g) _

end Alike

/-! ## Isolation -/

theorem serve_frame (s : ModelDeadlineScheduler ν) (c : ModelCall ν) :
    (s.serve c).2.config = s.config ∧ (s.serve c).2.policy = s.policy := call_frame s c.toCall

theorem submit_of_room {m : Moment ν} {r : InferenceRequest ν} {s : ModelDeadlineScheduler ν}
    (hroom : s.queueLen < s.config.maxQueueSize) : s.submit m r = s.resubmit m r :=
  if_neg (not_le.mpr hroom)

/-- A call of another model does not touch the heap of this one. -/
theorem serve_skip {modelId : String} {s s' : ModelDeadlineScheduler ν} {c : ModelCall ν}
    (h : Alike modelId s s') (hroom : s.HasRoom c) (hother : c.concerns modelId = false) :
    Alike modelId (s.serve c).2 s' := by
  rcases serve_frame s c with ⟨hconfig, hpolicy⟩
  -- pushing to another heap
  have hpush : ∀ (m : Moment ν) (r : InferenceRequest ν), r.modelId ≠ modelId →
      Alike modelId (s.resubmit m r).state s' := by
    intro m r hne
    simp only [resubmit]
    cases hpush : s.push m r with
    | error e => exact h
    | ok t =>
        rcases push_spec hpush with ⟨_, -, hconfig, hpolicy, hcounter, -, -, hheap, -⟩
        refine h.skip (push_inv h.inv hpush) hconfig hpolicy ?_ ?_
        · simp [hcounter]
        · simp [hheap, hne.symm]
  cases c with
  | submit m r =>
      have hne : r.modelId ≠ modelId := by simpa [ModelCall.concerns] using hother
      simpa [serve, ModelCall.toCall, call, submit_of_room hroom] using hpush m r hne
  | resubmit m r =>
      have hne : r.modelId ≠ modelId := by simpa [ModelCall.concerns] using hother
      exact hpush m r hne
  | nextBatchForModel modelId' =>
      have hne : modelId' ≠ modelId := by simpa [ModelCall.concerns] using hother
      rcases nextBatchForModel_spec modelId' s with ⟨-, heq⟩ | ⟨item, rest, hpop, heq⟩
      · simpa [serve, ModelCall.toCall, call, heq] using h
      · simp only [serve, ModelCall.toCall, call, heq]
        refine h.skip (remove_inv h.inv (heappop_perm hpop)) rfl rfl (Nat.le_refl _) ?_
        simp [heapOf, putHeap_listAt, hne.symm]
  | tick clock => simp [ModelCall.concerns] at hother
  | onClientDisconnected clientId => simp [ModelCall.concerns] at hother

/-- A call that concerns the model has the same answer and the same effect on its heap. -/
theorem serve_both {modelId : String} {s s' : ModelDeadlineScheduler ν} {c : ModelCall ν}
    (h : Alike modelId s s') (hroom : s.HasRoom c) (hconcerns : c.concerns modelId = true) :
    Reply.Agrees (s.serve c).1 (s'.serve c).1 ∧ Alike modelId (s.serve c).2 (s'.serve c).2 := by
  cases c with
  | submit m r =>
      have hmodel : r.modelId = modelId := by simpa [ModelCall.concerns] using hconcerns
      -- the shorter queue has room as well
      have hroom' : s'.queueLen < s'.config.maxQueueSize := by
        have hle := h.total_le
        have hlt : s.total < s.config.maxQueueSize := hroom
        simp only [queueLen, h.config]
        omega
      simpa only [serve, ModelCall.toCall, call, submit_of_room hroom, submit_of_room hroom'] using
        h.push m hmodel
  | resubmit m r =>
      have hmodel : r.modelId = modelId := by simpa [ModelCall.concerns] using hconcerns
      exact h.push m hmodel
  | nextBatchForModel modelId' =>
      have hmodel : modelId' = modelId := by simpa [ModelCall.concerns] using hconcerns
      subst hmodel
      rcases h.nextBatchForModel with ⟨hbatch, hnext⟩
      exact ⟨.batch hbatch, hnext⟩
  | tick clock =>
      have hsweep := h.sweep
        (fun r => !isExpired (clock r.unnumbered) s.config.requestTtlMs r) (by
          intro g r
          rfl)
      simp only [serve, ModelCall.toCall, call, ModelDeadlineScheduler.tick, h.config]
      exact ⟨.expired _ _, hsweep⟩
  | onClientDisconnected clientId =>
      have hsweep := h.sweep (fun r => r.clientId ≠ clientId) (by
        intro g r
        rfl)
      exact ⟨.returned, hsweep⟩

theorem init_alike (config : SchedulingConfig ν) (policy : Option String) (modelId : String) :
    Alike modelId { init config with policy := policy } { init config with policy := policy } where
  inv := init_inv config policy
  inv' := init_inv config policy
  config := rfl
  policy := rfl
  only := by simp [init, stored]
  heap := ⟨id, strictMono_id, by simp [init], by simp [init, heapOf]⟩

/-- As long as there is room at every `submit`, the calls that concern a model are answered as in the
run without the others, and the queue of the model is as long. -/
theorem model_isolated (config : SchedulingConfig ν) (policy : Option String)
    (cs : List (ModelCall ν)) (modelId : String)
    (hroom : Machine.Follows serve HasRoom { init config with policy := policy } cs) :
    let s : ModelDeadlineScheduler ν := { init config with policy := policy }
    let all := Machine.run serve s cs
    let own := Machine.run serve s (cs.filter (ModelCall.concerns modelId))
    List.Forall₂ Reply.Agrees (Machine.outputsTo serve (ModelCall.concerns modelId) s cs) own.1 ∧
      all.2.queueLenForModel modelId = own.2.queueLenForModel modelId := by
  intro s all own
  have hunwinds : Machine.Unwinds (serve (ν := ν)) HasRoom (ModelCall.concerns modelId)
      (Alike modelId) Reply.Agrees := ⟨serve_skip, serve_both⟩
  rcases hunwinds.run (init_alike config policy modelId) hroom with ⟨hreplies, hend⟩
  refine ⟨hreplies, ?_⟩
  rcases hend.heap with ⟨g, -, -, hheap⟩
  have hlength := congrArg List.length hheap
  simp only [List.length_map] at hlength
  exact hlength

/-- A request of another model comes in between, and is asked for first. -/
theorem model_isolated_interleaved :
    let at_ (now : Rat) : Moment Rat := { now := now, policy := fun _ _ => .ok 0 }
    let s : ModelDeadlineScheduler Rat := { init plainConfig.scheduling with policy := none }
    let cs : List (ModelCall Rat) :=
      [.submit (at_ 0) (plainRequest "a" "telemetry" 0 0),
        .submit (at_ 1) (plainRequest "b" "policy" 1 1), .nextBatchForModel "telemetry",
        .resubmit (at_ 2) (plainRequest "a" "policy" 0 2), .nextBatchForModel "policy"]
    let all := Machine.run serve s cs
    let own := Machine.run serve s (cs.filter (ModelCall.concerns "policy"))
    List.Forall₂ Reply.Agrees (Machine.outputsTo serve (ModelCall.concerns "policy") s cs) own.1 ∧
      all.2.queueLenForModel "policy" = own.2.queueLenForModel "policy" :=
  model_isolated _ _ _ _ (by decide +kernel)

end ModelDeadlineScheduler
end Inferential
