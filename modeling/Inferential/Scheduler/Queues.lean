import Inferential.Machine.Queueing
import Inferential.Scheduler.TierEviction

/-!
# Queues — the queues inside a scheduler

Each scheduler keeps its requests in one heap, or in a heap or a deque for each client, model or
tier.  `Acts` says what a call does to all of them; every call of every scheduler is described by
it, and the facts about single queues then hold of whole schedulers.
-/

namespace Inferential

open PyStd PyStd.Heapq Machine

variable {ν : Type} [Score ν]

/-- Which of its queues a scheduler keeps a request in. -/
inductive QueueKey
  | whole
  | client (clientId : String)
  | model (modelId : String)
  | tier (tier : Nat)
  deriving DecidableEq

namespace AnyScheduler

/-! ## The queues -/

def discipline : AnyScheduler ν → Discipline
  | .deadlineAware _ => .heap
  | .modelDeadline _ => .heap
  | .tieredDeadline _ => .heap
  | .batchOptimized _ => .fifo
  | .priorityTiered _ => .fifo
  | .roundRobin _ => .fifo

/-- A queue as its container has it; a heap in the order of its list. -/
def held : AnyScheduler ν → QueueKey → List (InferenceRequest ν)
  | .deadlineAware s, .whole => s.queue
  | .modelDeadline s, .model modelId => s.heapOf modelId
  | .tieredDeadline s, .tier tier => s.tiers.getD tier []
  | .batchOptimized s, .model modelId => s.queueOf modelId
  | .priorityTiered s, .tier tier => s.tiers.getD tier []
  | .roundRobin s, .client clientId => s.queues.listAt clientId
  | _, _ => []

/-- The queue that a request joins. -/
def queueKey (r : InferenceRequest ν) : AnyScheduler ν → QueueKey
  | .deadlineAware _ => .whole
  | .modelDeadline _ => .model r.modelId
  | .tieredDeadline s => .tier (s.tierOf r)
  | .batchOptimized _ => .model r.modelId
  | .priorityTiered s => .tier (s.tierOf r)
  | .roundRobin _ => .client r.clientId

/-- `_counter`, where requests are numbered. -/
def ticket : AnyScheduler ν → Nat
  | .deadlineAware s => s.counter
  | .modelDeadline s => s.counter
  | .tieredDeadline s => s.counter
  | _ => 0

/-- `_compute_score`, where requests are scored. -/
def computeScore (m : Moment ν) (r : InferenceRequest ν) : AnyScheduler ν → Except PyError ν
  | .deadlineAware s => s.computeScore m r
  | .modelDeadline s => s.computeScore m r
  | .tieredDeadline s => s.computeScore m r
  | _ => .ok r.score

/-- The request as it is queued: the heaps stamp it. -/
def Enqueues (s : AnyScheduler ν) (m : Moment ν) (r x : InferenceRequest ν) : Prop :=
  match s.discipline with
  | .fifo => x = r
  | .heap => ∃ score, s.computeScore m r = .ok score ∧ x = r.stamp score s.ticket

/-- The elements of the queue, in the order in which they leave it. -/
def queueAt (s : AnyScheduler ν) (key : QueueKey) : List (InferenceRequest ν) :=
  line InferenceRequest.lt s.discipline (s.held key)

/-- The queues hold all requests. -/
theorem mem_stored {s : AnyScheduler ν} {x : InferenceRequest ν} :
    x ∈ s.stored ↔ ∃ key, x ∈ s.held key := by
  constructor
  · intro hx
    cases s with
    | deadlineAware s => exact ⟨.whole, hx⟩
    | modelDeadline s =>
        rcases Dict.mem_flatten.mp hx with ⟨modelId, hmem⟩
        exact ⟨.model modelId, hmem⟩
    | tieredDeadline s =>
        rcases Tiers.mem_flatten.mp hx with ⟨tier, hmem⟩
        exact ⟨.tier tier, hmem⟩
    | batchOptimized s =>
        rcases Dict.mem_flatten.mp hx with ⟨modelId, hmem⟩
        exact ⟨.model modelId, hmem⟩
    | priorityTiered s =>
        rcases Tiers.mem_flatten.mp hx with ⟨tier, hmem⟩
        exact ⟨.tier tier, hmem⟩
    | roundRobin s =>
        rcases Dict.mem_flatten.mp hx with ⟨clientId, hmem⟩
        exact ⟨.client clientId, hmem⟩
  · rintro ⟨key, hx⟩
    unfold held at hx
    split at hx
    · exact hx
    · exact Dict.mem_flatten.mpr ⟨_, hx⟩
    · exact Tiers.mem_flatten.mpr ⟨_, hx⟩
    · exact Dict.mem_flatten.mpr ⟨_, hx⟩
    · exact Tiers.mem_flatten.mpr ⟨_, hx⟩
    · exact Dict.mem_flatten.mpr ⟨_, hx⟩
    · cases hx

/-- Every queue holds requests that joined it. -/
def Own (s : AnyScheduler ν) : Prop := ∀ key, ∀ x ∈ s.held key, s.queueKey x = key

/-! ## What a call does to them -/

/-- A call that puts in what satisfies `new`, and gives out `out`. -/
structure Acts (new : InferenceRequest ν → Prop) (s s' : AnyScheduler ν)
    (out : List (InferenceRequest ν)) : Prop where
  discipline : s'.discipline = s.discipline
  queueKey : ∀ r, s'.queueKey r = s.queueKey r
  ticket : s.ticket ≤ s'.ticket
  stamped : s.discipline = .heap → ∀ x, new x → s.ticket ≤ x.counter ∧ x.counter < s'.ticket
  works : ∀ key, Works InferenceRequest.lt (fun x => new x ∧ s.queueKey x = key) s.discipline
    (s.held key) (out.filter fun x => s.queueKey x = key) (s'.held key)

/-- A call that gives out the first requests of a queue. -/
structure GivesFirst (s s' : AnyScheduler ν) (out : List (InferenceRequest ν)) : Prop where
  discipline : s'.discipline = s.discipline
  queueKey : ∀ r, s'.queueKey r = s.queueKey r
  ticket : s'.ticket = s.ticket
  gives : ∀ key, Gives InferenceRequest.lt s.discipline (s.held key)
    (out.filter fun x => s.queueKey x = key) (s'.held key)

/-- A loop over all queues. -/
structure SweepsAll (keep : InferenceRequest ν → Bool) (s s' : AnyScheduler ν) : Prop where
  discipline : s'.discipline = s.discipline
  queueKey : ∀ r, s'.queueKey r = s.queueKey r
  ticket : s'.ticket = s.ticket
  sweeps : ∀ key, Sweeps InferenceRequest.lt keep s.discipline (s.held key) (s'.held key)

/-- Requests of one queue. -/
theorem filter_key_eq {s : AnyScheduler ν} {key : QueueKey} {out : List (InferenceRequest ν)}
    (hkey : ∀ x ∈ out, s.queueKey x = key) : out.filter (fun x => s.queueKey x = key) = out :=
  List.filter_eq_self.mpr fun x hx => by simpa using hkey x hx

theorem filter_key_ne {s : AnyScheduler ν} {key key' : QueueKey} {out : List (InferenceRequest ν)}
    (hkey : ∀ x ∈ out, s.queueKey x = key) (hne : key' ≠ key) :
    out.filter (fun x => s.queueKey x = key') = [] := by
  apply List.filter_eq_nil_iff.mpr
  intro x hx
  simpa [hkey x hx] using Ne.symm hne

/-- The call only works on the queue `key`. -/
theorem Acts.at {new : InferenceRequest ν → Prop} {s s' : AnyScheduler ν}
    {out : List (InferenceRequest ν)} (key : QueueKey) (hown : s.Own)
    (hdiscipline : s'.discipline = s.discipline) (hqueueKey : ∀ r, s'.queueKey r = s.queueKey r)
    (hticket : s.ticket ≤ s'.ticket)
    (hstamped : s.discipline = .heap → ∀ x, new x → s.ticket ≤ x.counter ∧ x.counter < s'.ticket)
    (hworks : Works InferenceRequest.lt (fun x => new x ∧ s.queueKey x = key) s.discipline
      (s.held key) out (s'.held key))
    (hother : ∀ key', key' ≠ key → s'.held key' = s.held key') : Acts new s s' out where
  discipline := hdiscipline
  queueKey := hqueueKey
  ticket := hticket
  stamped := hstamped
  works key' := by
    -- what goes out was in the queue
    have hkey : ∀ x ∈ out, s.queueKey x = key := by
      intro x hx
      rcases hworks.mem (List.mem_append_left _ hx) with hold | ⟨-, hnew⟩
      · exact hown key x hold
      · exact hnew
    by_cases heq : key' = key
    · subst heq
      rw [filter_key_eq hkey]
      exact hworks
    · rw [filter_key_ne hkey heq, hother key' heq]
      exact .keep _ _

theorem Acts.mono {new new' : InferenceRequest ν → Prop} {s s' : AnyScheduler ν}
    {out : List (InferenceRequest ν)} (h : Acts new s s' out) (hfifo : s.discipline ≠ .heap)
    (hnew : ∀ x, new x → new' x) : Acts new' s s' out where
  discipline := h.discipline
  queueKey := h.queueKey
  ticket := h.ticket
  stamped hheap := absurd hheap hfifo
  works key := (h.works key).mono fun x hx => ⟨hnew x hx.1, hx.2⟩

/-- A call that changes no queue. -/
theorem Acts.of_held {new : InferenceRequest ν → Prop} {s s' : AnyScheduler ν}
    (hdiscipline : s'.discipline = s.discipline) (hqueueKey : ∀ r, s'.queueKey r = s.queueKey r)
    (hticket : s'.ticket = s.ticket)
    (hnew : s.discipline = .heap → ∀ x, ¬ new x) (hheld : ∀ key, s'.held key = s.held key) :
    Acts new s s' [] where
  discipline := hdiscipline
  queueKey := hqueueKey
  ticket := hticket.ge
  stamped hheap x hx := absurd hx (hnew hheap x)
  works key := by
    rw [hheld key]
    exact .keep _ _

theorem SweepsAll.acts {keep : InferenceRequest ν → Bool} {s s' : AnyScheduler ν}
    (h : SweepsAll keep s s') : Acts (fun _ => False) s s' [] where
  discipline := h.discipline
  queueKey := h.queueKey
  ticket := h.ticket.ge
  stamped _ _ hx := absurd hx id
  works key := (h.sweeps key).works

/-- A call that takes requests out of the queue `key`. -/
theorem Acts.remove {s s' : AnyScheduler ν} {out : List (InferenceRequest ν)} (key : QueueKey)
    (hown : s.Own) (hdiscipline : s'.discipline = s.discipline)
    (hqueueKey : ∀ r, s'.queueKey r = s.queueKey r) (hticket : s'.ticket = s.ticket)
    (hworks : Works InferenceRequest.lt (fun _ => False) s.discipline (s.held key) out
      (s'.held key))
    (hother : ∀ key', key' ≠ key → s'.held key' = s.held key') :
    Acts (fun _ => False) s s' out :=
  .at key hown hdiscipline hqueueKey hticket.ge (fun _ _ hx => absurd hx id)
    (hworks.mono fun _ hx => absurd hx id) hother

theorem GivesFirst.acts {s s' : AnyScheduler ν} {out : List (InferenceRequest ν)}
    (h : GivesFirst s s' out) : Acts (fun _ => False) s s' out where
  discipline := h.discipline
  queueKey := h.queueKey
  ticket := h.ticket.ge
  stamped _ _ hx := absurd hx id
  works key := (h.gives key).works

theorem GivesFirst.of_held {s s' : AnyScheduler ν} (hdiscipline : s'.discipline = s.discipline)
    (hqueueKey : ∀ r, s'.queueKey r = s.queueKey r) (hticket : s'.ticket = s.ticket)
    (hheld : ∀ key, s'.held key = s.held key) : GivesFirst s s' [] where
  discipline := hdiscipline
  queueKey := hqueueKey
  ticket := hticket
  gives key := by
    rw [hheld key]
    exact .keep _ _

theorem GivesFirst.refl (s : AnyScheduler ν) : GivesFirst s s [] :=
  .of_held rfl (fun _ => rfl) rfl fun _ => rfl

/-- The call only works on the queue `key`. -/
theorem GivesFirst.at {s s' : AnyScheduler ν} {out : List (InferenceRequest ν)} (key : QueueKey)
    (hown : s.Own) (hdiscipline : s'.discipline = s.discipline)
    (hqueueKey : ∀ r, s'.queueKey r = s.queueKey r) (hticket : s'.ticket = s.ticket)
    (hgives : Gives InferenceRequest.lt s.discipline (s.held key) out (s'.held key))
    (hother : ∀ key', key' ≠ key → s'.held key' = s.held key') : GivesFirst s s' out where
  discipline := hdiscipline
  queueKey := hqueueKey
  ticket := hticket
  gives key' := by
    have hkey : ∀ x ∈ out, s.queueKey x = key := fun x hx =>
      hown key x (hgives.perm.mem_iff.mpr (List.mem_append_left _ hx))
    by_cases heq : key' = key
    · subst heq
      rw [filter_key_eq hkey]
      exact hgives
    · rw [filter_key_ne hkey heq, hother key' heq]
      exact .keep _ _

/-- A call that leaves the scheduler as it is. -/
theorem Acts.refl (new : InferenceRequest ν → Prop) (s : AnyScheduler ν)
    (hnew : s.discipline = .heap → ∀ x, ¬ new x) : Acts new s s [] :=
  .of_held rfl (fun _ => rfl) rfl hnew fun _ => rfl

/-! ### `deadline_aware` -/

section DeadlineAware

variable {s : DeadlineAwareScheduler ν}

theorem deadlineAware_held (s s' : DeadlineAwareScheduler ν) (key : QueueKey)
    (hne : key ≠ .whole) : held (.deadlineAware s') key = held (.deadlineAware s) key := by
  cases key with
  | whole => exact absurd rfl hne
  | _ => rfl

theorem deadlineAware_resubmit (m : Moment ν) (r : InferenceRequest ν)
    (hown : (deadlineAware s).Own) :
    Acts (fun x => (s.resubmit m r).raised = none ∧ (deadlineAware s).Enqueues m r x)
      (.deadlineAware s) (.deadlineAware (s.resubmit m r).state) [] := by
  unfold DeadlineAwareScheduler.resubmit
  cases hscore : s.computeScore m r with
  | error e => exact .refl _ _ (by simp)
  | ok score =>
      refine .at .whole hown rfl (fun _ => rfl) (Nat.le_succ _) ?_ ?_
        (deadlineAware_held _ _)
      · rintro - x ⟨-, score', -, rfl⟩
        exact ⟨Nat.le_refl _, Nat.lt_succ_self _⟩
      · exact .push _ ⟨⟨rfl, score, hscore, rfl⟩, rfl⟩

theorem deadlineAware_dropOldest (hown : (deadlineAware s).Own) (hne : s.queue ≠ []) :
    Acts (fun _ => False) (.deadlineAware s) (.deadlineAware s.dropOldest) [] := by
  have hidx := oldestIdx_lt hne
  have hperm : s.queue.Perm ([s.queue[oldestIdx s.queue]] ++ s.queue.eraseIdx (oldestIdx s.queue)) :=
    (List.getElem_cons_eraseIdx_perm hidx).symm
  exact .remove .whole hown rfl (fun _ => rfl) rfl (.rebuild hperm)
    (deadlineAware_held _ _)

theorem deadlineAware_nextBatch (hown : (deadlineAware s).Own) :
    GivesFirst (.deadlineAware s) (.deadlineAware s.nextBatch.2) s.nextBatch.1 := by
  rcases s.nextBatch_cases with ⟨-, heq⟩ | ⟨x, queue, hpop, heq⟩
  · rw [heq]
    exact .refl _
  · rw [heq]
    exact .at .whole hown rfl (fun _ => rfl) rfl (.pop hpop)
      (deadlineAware_held _ _)

theorem deadlineAware_tick (clock : InferenceRequest ν → Rat) :
    SweepsAll (fun r => !isExpired (clock r) s.config.requestTtlMs r) (.deadlineAware s)
      (.deadlineAware (s.tick clock).2) where
  discipline := rfl
  queueKey _ := rfl
  ticket := rfl
  sweeps key := by
    cases key with
    | whole =>
        have hqueue : (s.tick clock).2.queue =
            if (s.queue.filter fun r => !isExpired (clock r) s.config.requestTtlMs r).length <
                s.queue.length then
              heapify InferenceRequest.lt
                (s.queue.filter fun r => !isExpired (clock r) s.config.requestTtlMs r)
            else s.queue.filter fun r => !isExpired (clock r) s.config.requestTtlMs r := by
          simp only [DeadlineAwareScheduler.tick, Nat.sub_eq_zero_iff_le, ← not_lt, ite_not]
        show Sweeps _ _ .heap s.queue (s.tick clock).2.queue
        rw [hqueue]
        exact .of_shorter _ _
    | _ => exact .unchanged (by simp [held])

end DeadlineAware

/-! ### `model_deadline` -/

section ModelDeadline

variable {s : ModelDeadlineScheduler ν}

theorem modelDeadline_held {s s' : ModelDeadlineScheduler ν} {modelId : String}
    (h : ∀ modelId', modelId' ≠ modelId → s'.heapOf modelId' = s.heapOf modelId') (key : QueueKey)
    (hne : key ≠ .model modelId) : held (.modelDeadline s') key = held (.modelDeadline s) key := by
  cases key with
  | model modelId' => exact h modelId' (fun heq => hne (congrArg QueueKey.model heq))
  | _ => rfl

theorem modelDeadline_putHeap (modelId : String) (heap : List (InferenceRequest ν)) (total : Int)
    (modelId' : String) (hne : modelId' ≠ modelId) :
    ({ s with queues := s.putHeap modelId heap, total := total } :
      ModelDeadlineScheduler ν).heapOf modelId' = s.heapOf modelId' := by
  simp only [ModelDeadlineScheduler.heapOf, ModelDeadlineScheduler.putHeap_listAt, if_neg hne]

theorem modelDeadline_resubmit (m : Moment ν) (r : InferenceRequest ν)
    (hown : (modelDeadline s).Own) :
    Acts (fun x => (s.resubmit m r).raised = none ∧ (modelDeadline s).Enqueues m r x)
      (.modelDeadline s) (.modelDeadline (s.resubmit m r).state) [] := by
  unfold ModelDeadlineScheduler.resubmit
  cases hpush : s.push m r with
  | error e => exact .refl _ _ (by simp)
  | ok s' =>
      rcases ModelDeadlineScheduler.push_spec hpush with
        ⟨score, hscore, -, -, hcounter, -, -, hheap, -⟩
      have hticket : (modelDeadline s').ticket = s.counter + 1 := hcounter
      refine .at (.model r.modelId) hown rfl (fun _ => rfl) (hticket ▸ Nat.le_succ s.counter) ?_ ?_
        (modelDeadline_held fun modelId hne => by rw [hheap, if_neg hne])
      · rintro - x ⟨-, score', -, rfl⟩
        exact ⟨Nat.le_refl _, hticket ▸ Nat.lt_succ_self s.counter⟩
      · have hwork : s'.heapOf r.modelId = heappush InferenceRequest.lt (s.heapOf r.modelId)
            (r.stamp score s.counter) := by
          rw [hheap, if_pos rfl]
        show Works _ _ .heap (s.heapOf r.modelId) [] (s'.heapOf r.modelId)
        rw [hwork]
        exact .push _ ⟨⟨rfl, score, hscore, rfl⟩, rfl⟩

theorem modelDeadline_dropOldest (hown : (modelDeadline s).Own) (hne : s.stored ≠ []) :
    Acts (fun _ => False) (.modelDeadline s) (.modelDeadline s.dropOldest.2) [] := by
  rcases ModelDeadlineScheduler.dropOldest_spec hne with ⟨modelId, item, rest, hperm, -, heq⟩
  have hgone : (s.heapOf modelId).Perm ([item] ++ rest) := hperm
  rw [heq]
  refine .remove (.model modelId) hown rfl (fun _ => rfl) rfl ?_
    (modelDeadline_held (modelDeadline_putHeap modelId _ _))
  have hwork : (s.putHeap modelId (heapify InferenceRequest.lt rest)).listAt modelId =
      heapify InferenceRequest.lt rest := by
    rw [ModelDeadlineScheduler.putHeap_listAt, if_pos rfl]
  show Works _ _ .heap (s.heapOf modelId) [] ((s.putHeap modelId _).listAt modelId)
  rw [hwork]
  exact .rebuild hgone

theorem modelDeadline_nextBatchForModel (modelId : String) (hown : (modelDeadline s).Own) :
    GivesFirst (.modelDeadline s) (.modelDeadline (s.nextBatchForModel modelId).2)
      (s.nextBatchForModel modelId).1 := by
  rcases ModelDeadlineScheduler.nextBatchForModel_spec modelId s with
    ⟨-, heq⟩ | ⟨item, heap, hpop, heq⟩
  · rw [heq]
    exact .refl _
  · rw [heq]
    refine .at (.model modelId) hown rfl (fun _ => rfl) rfl ?_
      (modelDeadline_held (modelDeadline_putHeap modelId _ _))
    have hwork : (s.putHeap modelId heap).listAt modelId = heap := by
      rw [ModelDeadlineScheduler.putHeap_listAt, if_pos rfl]
    show Gives _ .heap (s.heapOf modelId) [item] ((s.putHeap modelId heap).listAt modelId)
    rw [hwork]
    exact .pop hpop

theorem modelDeadline_nextBatch (hown : (modelDeadline s).Own) :
    GivesFirst (.modelDeadline s) (.modelDeadline s.nextBatch.2) s.nextBatch.1 := by
  rcases ModelDeadlineScheduler.nextBatch_spec s with ⟨-, heq⟩ | ⟨modelId, -, heq⟩
  · rw [heq]
    exact .refl _
  · rw [heq]
    exact modelDeadline_nextBatchForModel modelId hown

theorem modelDeadline_sweep (keep : InferenceRequest ν → Bool) :
    SweepsAll keep (.modelDeadline s) (.modelDeadline (s.sweep keep).2) where
  discipline := rfl
  queueKey _ := rfl
  ticket := rfl
  sweeps key := by
    cases key with
    | model modelId =>
        show Sweeps _ _ .heap (s.heapOf modelId) ((s.sweep keep).2.heapOf modelId)
        rw [ModelDeadlineScheduler.sweep_heapOf]
        refine .of_ite _ _ fun hnot => ?_
        by_cases hnil : (s.heapOf modelId).filter keep = []
        · exact .inr hnil
        · have hge := not_lt.mp fun hlt => hnot ⟨hlt, hnil⟩
          exact .inl (le_antisymm (List.length_filter_le _ _) hge)
    | _ => exact .unchanged (by simp [held])

end ModelDeadline

/-! ### `tiered_deadline` -/

section TieredDeadline

variable {s : TieredDeadlineScheduler ν}

theorem tieredDeadline_held {s s' : TieredDeadlineScheduler ν} {tier : Nat}
    {heap : List (InferenceRequest ν)} (htier : tier < s.tiers.length)
    (h : s'.tiers = s.tiers.set tier heap) (key : QueueKey) (hne : key ≠ .tier tier) :
    held (.tieredDeadline s') key = held (.tieredDeadline s) key := by
  cases key with
  | tier tier' =>
      have hne' : tier' ≠ tier := fun heq => hne (congrArg QueueKey.tier heq)
      simp only [held, h, Tiers.getD_set htier, if_neg hne']
  | _ => rfl

theorem tieredDeadline_resubmit (m : Moment ν) (r : InferenceRequest ν)
    (hown : (tieredDeadline s).Own) :
    Acts (fun x => (s.resubmit m r).raised = none ∧ (tieredDeadline s).Enqueues m r x)
      (.tieredDeadline s) (.tieredDeadline (s.resubmit m r).state) [] := by
  have htier := s.tierOf_lt r
  unfold TieredDeadlineScheduler.resubmit
  dsimp only
  cases hscore : s.computeScore m r with
  | error e => exact .refl _ _ (by simp)
  | ok score =>
      refine .at (.tier (s.tierOf r)) hown rfl (fun _ => rfl) (Nat.le_succ _) ?_ ?_
        (tieredDeadline_held htier rfl)
      · rintro - x ⟨-, score', -, rfl⟩
        exact ⟨Nat.le_refl _, Nat.lt_succ_self _⟩
      · show Works _ _ .heap (s.tiers.getD (s.tierOf r) []) []
          ((s.tiers.set (s.tierOf r) _).getD (s.tierOf r) [])
        rw [Tiers.getD_set htier, if_pos rfl]
        exact .push _ ⟨⟨rfl, score, hscore, rfl⟩, rfl⟩

theorem tieredDeadline_dropFromLowestTier (hown : (tieredDeadline s).Own) :
    Acts (fun _ => False) (.tieredDeadline s) (.tieredDeadline s.dropFromLowestTier.2) [] := by
  unfold TieredDeadlineScheduler.dropFromLowestTier
  split
  · exact .refl _ _ (fun _ _ => id)
  · next oldest tiers hlast =>
      rcases Tiers.takeLast_set TieredDeadlineScheduler.takeOldest_takes hlast with
        ⟨tier, heap, htier, htake, rfl⟩
      refine .remove (.tier tier) hown rfl (fun _ => rfl) rfl ?_ (tieredDeadline_held htier rfl)
      simp only [held, Tiers.getD_set htier, if_true]
      have hne : s.tiers.getD tier [] ≠ [] := by
        intro hnil
        rw [TieredDeadlineScheduler.takeOldest_takes.none_iff.mpr hnil] at htake
        cases htake
      -- the rest of the tier is rebuilt
      unfold TieredDeadlineScheduler.takeOldest at htake
      have hidx := oldestIdx_lt hne
      simp only [List.getElem?_eq_getElem hidx, Option.some.injEq, Prod.mk.injEq] at htake
      rw [← htake.2]
      have hgone : (s.tiers.getD tier []).Perm ([(s.tiers.getD tier [])[oldestIdx _]] ++
          overwritePop (s.tiers.getD tier []) (oldestIdx (s.tiers.getD tier []))) :=
        overwritePop_perm hidx
      exact .rebuild hgone

theorem tieredDeadline_nextBatchForTier (tier : Nat) (hown : (tieredDeadline s).Own) :
    GivesFirst (.tieredDeadline s) (.tieredDeadline (s.nextBatchForTier tier).2)
      (s.nextBatchForTier tier).1 := by
  unfold TieredDeadlineScheduler.nextBatchForTier
  cases hpop : heappop InferenceRequest.lt (s.tiers.getD tier []) with
  | none => exact .refl _
  | some popped =>
      rcases popped with ⟨item, heap⟩
      have htier := TieredDeadlineScheduler.tier_lt_of_heappop hpop
      refine .at (.tier tier) hown rfl (fun _ => rfl) rfl ?_ (tieredDeadline_held htier rfl)
      simp only [held, Tiers.getD_set htier, if_true]
      exact .pop hpop

/-- The tiers are asked one after the other, and one of them gives a request or none does. -/
theorem tieredDeadline_nextBatch (hown : (tieredDeadline s).Own) :
    GivesFirst (.tieredDeadline s) (.tieredDeadline s.nextBatch.2) s.nextBatch.1 := by
  rcases s.nextBatch_asks with ⟨-, heq⟩ | ⟨tier, -, -, heq⟩
  · rw [heq]
    exact .refl _
  · rw [heq]
    exact tieredDeadline_nextBatchForTier tier hown

theorem tieredDeadline_sweep (keep : InferenceRequest ν → Bool) :
    SweepsAll keep (.tieredDeadline s) (.tieredDeadline (s.sweep keep).2) where
  discipline := rfl
  queueKey _ := rfl
  ticket := rfl
  sweeps key := by
    cases key with
    | tier tier =>
        have htier : (s.sweep keep).2.tiers.getD tier [] =
            TieredDeadlineScheduler.sweepTier keep (s.tiers.getD tier []) :=
          Tiers.getD_map (by simp [TieredDeadlineScheduler.sweepTier]) s.tiers tier
        show Sweeps _ _ .heap (s.tiers.getD tier []) ((s.sweep keep).2.tiers.getD tier [])
        rw [htier]
        exact .of_shorter _ _
    | _ => exact .unchanged (by simp [held])

end TieredDeadline

/-! ### `batch_optimized` -/

section BatchOptimized

variable {s : BatchOptimizedScheduler ν}

theorem batchOptimized_held {s s' : BatchOptimizedScheduler ν} {modelId : String}
    {queue : List (InferenceRequest ν)} (h : s'.byModel = s.byModel.set modelId queue)
    (key : QueueKey) (hne : key ≠ .model modelId) :
    held (.batchOptimized s') key = held (.batchOptimized s) key := by
  cases key with
  | model modelId' =>
      have hne' : modelId' ≠ modelId := fun heq => hne (congrArg QueueKey.model heq)
      simp only [held, BatchOptimizedScheduler.queueOf, h, Dict.listAt_set, if_neg hne']
  | _ => rfl

theorem batchOptimized_resubmit (now : Rat) (r : InferenceRequest ν)
    (hown : (batchOptimized s).Own) :
    Acts (fun x => x = r) (.batchOptimized s) (.batchOptimized (s.resubmit now r).state) [] := by
  refine .at (.model r.modelId) hown rfl (fun _ => rfl) (Nat.le_refl _) nofun ?_
    (batchOptimized_held rfl)
  show Works _ _ .fifo (s.queueOf r.modelId) []
    ((s.byModel.set r.modelId (s.queueOf r.modelId ++ [r])).listAt r.modelId)
  rw [Dict.listAt_set, if_pos rfl]
  exact .append _ ⟨rfl, rfl⟩

theorem batchOptimized_dropOldest (hown : (batchOptimized s).Own) :
    Acts (fun _ => False) (.batchOptimized s) (.batchOptimized s.dropOldest.2) [] := by
  unfold BatchOptimizedScheduler.dropOldest
  cases hfront : oldestFront s.byModel with
  | none => exact .refl _ _ nofun
  | some found =>
      rcases found with ⟨modelId, front, rest⟩
      have hlist : s.queueOf modelId = front :: rest := oldestFront_listAt hfront
      refine .remove (.model modelId) hown rfl (fun _ => rfl) rfl ?_ (batchOptimized_held rfl)
      show Works _ _ .fifo (s.queueOf modelId) [] ((s.byModel.set modelId rest).listAt modelId)
      rw [Dict.listAt_set, if_pos rfl, hlist]
      exact .lose (List.sublist_cons_self front rest)

theorem batchOptimized_nextBatch (now : Rat) (hown : (batchOptimized s).Own) :
    GivesFirst (.batchOptimized s) (.batchOptimized (s.nextBatch now).2)
      (s.nextBatch now).1 := by
  have hkept : ∀ r, queueKey r (.batchOptimized (s.nextBatch now).2) =
      queueKey r (.batchOptimized s) := fun _ => rfl
  rcases s.nextBatch_cases now with heq | ⟨modelId, -, hbatch, hqueues, -, -⟩
  · rw [heq]
    exact .refl _
  · refine .at (.model modelId) hown rfl hkept rfl ?_ (batchOptimized_held hqueues)
    show Gives _ .fifo (s.queueOf modelId) (s.nextBatch now).1
      ((s.nextBatch now).2.byModel.listAt modelId)
    rw [hqueues, Dict.listAt_set, if_pos rfl, hbatch]
    exact .front s.maxBatch (s.queueOf modelId)

theorem batchOptimized_sweep (keep : InferenceRequest ν → Bool) {s' : BatchOptimizedScheduler ν}
    (h : s'.byModel = s.byModel.mapValues fun queue => queue.filter keep) :
    SweepsAll keep (.batchOptimized s) (.batchOptimized s') where
  discipline := rfl
  queueKey _ := rfl
  ticket := rfl
  sweeps key := by
    cases key with
    | model modelId =>
        show Sweeps _ _ .fifo (s.queueOf modelId) (s'.byModel.listAt modelId)
        rw [h, Dict.listAt_mapValues List.filter_nil]
        exact .filter _
    | _ => exact .filter []

end BatchOptimized

/-! ### `priority_tiered` -/

section PriorityTiered

variable {s : PriorityTieredScheduler ν}

theorem priorityTiered_held {s s' : PriorityTieredScheduler ν} {tier : Nat}
    {queue : List (InferenceRequest ν)} (htier : tier < s.tiers.length)
    (h : s'.tiers = s.tiers.set tier queue) (key : QueueKey) (hne : key ≠ .tier tier) :
    held (.priorityTiered s') key = held (.priorityTiered s) key := by
  cases key with
  | tier tier' =>
      have hne' : tier' ≠ tier := fun heq => hne (congrArg QueueKey.tier heq)
      simp only [held, h, Tiers.getD_set htier, if_neg hne']
  | _ => rfl

theorem priorityTiered_resubmit (r : InferenceRequest ν) (hown : (priorityTiered s).Own) :
    Acts (fun x => x = r) (.priorityTiered s) (.priorityTiered (s.resubmit r).state) [] := by
  have htier := s.tierOf_lt r
  refine .at (.tier (s.tierOf r)) hown rfl (fun _ => rfl) (Nat.le_refl _) nofun ?_
    (priorityTiered_held htier rfl)
  show Works _ _ .fifo (s.tiers.getD (s.tierOf r) []) []
    ((s.tiers.set (s.tierOf r) _).getD (s.tierOf r) [])
  rw [Tiers.getD_set htier, if_pos rfl]
  exact .append _ ⟨rfl, rfl⟩

theorem priorityTiered_dropOldest (hown : (priorityTiered s).Own) :
    Acts (fun _ => False) (.priorityTiered s) (.priorityTiered s.dropOldest.2) [] := by
  unfold PriorityTieredScheduler.dropOldest
  split
  · exact .refl _ _ nofun
  · next dropped tiers hlast =>
      rcases Tiers.takeLast_set Tiers.popleft_takes hlast with ⟨tier, queue, htier, htake, rfl⟩
      refine .remove (.tier tier) hown rfl (fun _ => rfl) rfl ?_ (priorityTiered_held htier rfl)
      show Works _ _ .fifo (s.tiers.getD tier []) [] ((s.tiers.set tier queue).getD tier [])
      rw [Tiers.getD_set htier, if_pos rfl, Tiers.popleft_some htake]
      exact .lose (List.sublist_cons_self dropped queue)

theorem priorityTiered_nextBatch (hown : (priorityTiered s).Own) :
    GivesFirst (.priorityTiered s) (.priorityTiered s.nextBatch.2) s.nextBatch.1 := by
  unfold PriorityTieredScheduler.nextBatch
  split
  · exact .refl _
  · next request tiers hfirst =>
      rcases Tiers.takeFirst_set Tiers.popleft_takes hfirst with ⟨tier, queue, htier, htake, rfl⟩
      refine .at (.tier tier) hown rfl (fun _ => rfl) rfl ?_ (priorityTiered_held htier rfl)
      show Gives _ .fifo (s.tiers.getD tier []) [request] ((s.tiers.set tier queue).getD tier [])
      rw [Tiers.getD_set htier, if_pos rfl, Tiers.popleft_some htake]
      exact .front 1 (request :: queue)

theorem priorityTiered_sweep (keep : InferenceRequest ν → Bool) :
    SweepsAll keep (.priorityTiered s) (.priorityTiered (s.sweep keep).2) where
  discipline := rfl
  queueKey _ := rfl
  ticket := rfl
  sweeps key := by
    cases key with
    | tier tier =>
        have htier : (s.sweep keep).2.tiers.getD tier [] = (s.tiers.getD tier []).filter keep :=
          Tiers.getD_map List.filter_nil s.tiers tier
        show Sweeps _ _ .fifo (s.tiers.getD tier []) ((s.sweep keep).2.tiers.getD tier [])
        rw [htier]
        exact .filter _
    | _ => exact .filter []

end PriorityTiered

/-! ### `round_robin` -/

section RoundRobin

variable {s : RoundRobinScheduler ν}

theorem roundRobin_held {s s' : RoundRobinScheduler ν} {clientId : String}
    (h : ∀ clientId', clientId' ≠ clientId →
      s'.queues.listAt clientId' = s.queues.listAt clientId')
    (key : QueueKey) (hne : key ≠ .client clientId) :
    held (.roundRobin s') key = held (.roundRobin s) key := by
  cases key with
  | client clientId' => exact h clientId' (fun heq => hne (congrArg QueueKey.client heq))
  | _ => rfl

theorem roundRobin_set (clientId : String) (queue : List (InferenceRequest ν))
    (clientId' : String) (hne : clientId' ≠ clientId) :
    (s.queues.set clientId queue).listAt clientId' = s.queues.listAt clientId' := by
  rw [Dict.listAt_set, if_neg hne]

theorem roundRobin_resubmit (r : InferenceRequest ν) (hown : (roundRobin s).Own) :
    Acts (fun x => x = r) (.roundRobin s) (.roundRobin (s.resubmit r).state) [] := by
  refine .at (.client r.clientId) hown rfl (fun _ => rfl) (Nat.le_refl _) nofun ?_
    (roundRobin_held (roundRobin_set r.clientId _))
  show Works _ _ .fifo (s.queues.listAt r.clientId) []
    ((s.queues.set r.clientId (s.queues.listAt r.clientId ++ [r])).listAt r.clientId)
  rw [Dict.listAt_set, if_pos rfl]
  exact .append _ ⟨rfl, rfl⟩

theorem roundRobin_dropOldest (hown : (roundRobin s).Own) :
    Acts (fun _ => False) (.roundRobin s) (.roundRobin s.dropOldest.2) [] := by
  unfold RoundRobinScheduler.dropOldest
  cases hfront : oldestFront s.queues with
  | none => exact .refl _ _ nofun
  | some found =>
      rcases found with ⟨clientId, front, rest⟩
      have hlist := oldestFront_listAt hfront
      refine .remove (.client clientId) hown rfl (fun _ => rfl) rfl ?_
        (roundRobin_held (roundRobin_set clientId rest))
      show Works _ _ .fifo (s.queues.listAt clientId) []
        ((s.queues.set clientId rest).listAt clientId)
      rw [Dict.listAt_set, if_pos rfl, hlist]
      exact .lose (List.sublist_cons_self front rest)

theorem roundRobin_nextBatch (hown : (roundRobin s).Own) :
    GivesFirst (.roundRobin s) (.roundRobin s.nextBatch.2) s.nextBatch.1 := by
  rcases s.nextBatch_served with ⟨hnone, hsame⟩ | ⟨request, clientId, queue, hout, hbefore, hafter,
    hother⟩
  · rw [hnone]
    refine .of_held rfl (fun _ => rfl) rfl fun key => ?_
    cases key with
    | client clientId => exact hsame clientId
    | _ => rfl
  · rw [hout]
    refine .at (.client clientId) hown rfl (fun _ => rfl) rfl ?_ (roundRobin_held hother)
    show Gives _ .fifo (s.queues.listAt clientId) [request] (s.nextBatch.2.queues.listAt clientId)
    rw [hbefore, hafter]
    exact .front 1 (request :: queue)

theorem roundRobin_tick (clock : InferenceRequest ν → Rat) :
    SweepsAll (fun r => !isExpired (clock r) s.config.requestTtlMs r) (.roundRobin s)
      (.roundRobin (s.tick clock).2) where
  discipline := rfl
  queueKey _ := rfl
  ticket := rfl
  sweeps key := by
    cases key with
    | client clientId =>
        have hheld : (s.tick clock).2.queues.listAt clientId = (s.queues.listAt clientId).filter
            fun r => !isExpired (clock r) s.config.requestTtlMs r :=
          Dict.listAt_mapValues List.filter_nil s.queues clientId
        show Sweeps _ _ .fifo (s.queues.listAt clientId) ((s.tick clock).2.queues.listAt clientId)
        rw [hheld]
        exact .filter _
    | _ => exact .filter []

theorem roundRobin_connected (clientId : String) :
    Acts (fun _ => False) (.roundRobin s) (.roundRobin (s.onClientConnected clientId)) [] := by
  unfold RoundRobinScheduler.onClientConnected
  split
  · exact .refl _ _ fun _ _ => id
  · next hnew =>
      refine .of_held rfl (fun _ => rfl) rfl (fun _ _ => id) fun key => ?_
      cases key with
      | client clientId' =>
          have hnone : s.queues.get? clientId = none := by simpa [Dict.contains] using hnew
          show (s.queues.set clientId []).listAt clientId' = s.queues.listAt clientId'
          rw [Dict.listAt_set]
          split
          · next heq => simp [heq, Dict.listAt, hnone]
          · rfl
      | _ => rfl

theorem roundRobin_disconnected (clientId : String) (hown : (roundRobin s).Own) :
    SweepsAll (fun r => r.clientId ≠ clientId) (.roundRobin s)
      (.roundRobin (s.onClientDisconnected clientId)) where
  discipline := by
    unfold RoundRobinScheduler.onClientDisconnected
    split <;> rfl
  queueKey _ := by
    unfold RoundRobinScheduler.onClientDisconnected
    split <;> rfl
  ticket := by
    unfold RoundRobinScheduler.onClientDisconnected
    split <;> rfl
  sweeps key := by
    cases key with
    | client clientId' =>
        have hkey : ∀ x ∈ s.queues.listAt clientId', x.clientId = clientId' := by
          intro x hx
          simpa [queueKey] using hown (.client clientId') x hx
        -- the deque of the client goes, and the others hold requests of other clients
        have hheld : (s.onClientDisconnected clientId).queues.listAt clientId' =
            (s.queues.listAt clientId').filter fun r => r.clientId ≠ clientId := by
          have herased : (s.onClientDisconnected clientId).queues.listAt clientId' =
              if clientId' = clientId then [] else s.queues.listAt clientId' := by
            unfold RoundRobinScheduler.onClientDisconnected
            split
            · exact Dict.listAt_erase s.queues clientId clientId'
            · next hnew =>
                have hnone : s.queues.get? clientId = none := by simpa [Dict.contains] using hnew
                split
                · next heq => simp [heq, Dict.listAt, hnone]
                · rfl
          rw [herased]
          split
          · next heq =>
              refine (List.filter_eq_nil_iff.mpr fun x hx => ?_).symm
              simp [hkey x hx, heq]
          · next hne =>
              refine (List.filter_eq_self.mpr fun x hx => ?_).symm
              simp [hkey x hx, hne]
        show Sweeps _ _ .fifo (s.queues.listAt clientId')
          ((s.onClientDisconnected clientId).queues.listAt clientId')
        rw [hheld]
        exact .filter _
    | _ => exact .filter []

end RoundRobin

/-! ## Every scheduler -/

section Calls

variable {s : AnyScheduler ν}

theorem resubmit_acts (m : Moment ν) (r : InferenceRequest ν) (hown : s.Own) :
    Acts (fun x => (Scheduler.resubmit m r s).raised = none ∧ s.Enqueues m r x) s
      (Scheduler.resubmit m r s).state [] := by
  cases s with
  | deadlineAware s => exact deadlineAware_resubmit m r hown
  | modelDeadline s => exact modelDeadline_resubmit m r hown
  | tieredDeadline s => exact tieredDeadline_resubmit m r hown
  | batchOptimized s => exact (batchOptimized_resubmit m.now r hown).mono nofun fun _ h => ⟨rfl, h⟩
  | priorityTiered s => exact (priorityTiered_resubmit r hown).mono nofun fun _ h => ⟨rfl, h⟩
  | roundRobin s => exact (roundRobin_resubmit r hown).mono nofun fun _ h => ⟨rfl, h⟩

theorem dropOldest_acts (hown : s.Own) (hne : s.stored ≠ []) :
    Acts (fun _ => False) s s.dropOldest.2 [] := by
  cases s with
  | deadlineAware s => exact deadlineAware_dropOldest hown hne
  | modelDeadline s => exact modelDeadline_dropOldest hown hne
  | tieredDeadline s => exact tieredDeadline_dropFromLowestTier hown
  | batchOptimized s => exact batchOptimized_dropOldest hown
  | priorityTiered s => exact priorityTiered_dropOldest hown
  | roundRobin s => exact roundRobin_dropOldest hown

theorem nextBatch_gives (now : Rat) (hown : s.Own) :
    GivesFirst s (Scheduler.nextBatch now s).2 (Scheduler.nextBatch now s).1 := by
  cases s with
  | deadlineAware s => exact deadlineAware_nextBatch hown
  | modelDeadline s => exact modelDeadline_nextBatch hown
  | tieredDeadline s => exact tieredDeadline_nextBatch hown
  | batchOptimized s => exact batchOptimized_nextBatch now hown
  | priorityTiered s => exact priorityTiered_nextBatch hown
  | roundRobin s => exact roundRobin_nextBatch hown

theorem tick_sweeps (clock : InferenceRequest ν → Rat) (s : AnyScheduler ν) :
    SweepsAll (fun r => !isExpired (clock r) s.config.requestTtlMs r) s
      (Scheduler.tick clock s).2 := by
  cases s with
  | deadlineAware s => exact deadlineAware_tick clock
  | modelDeadline s => exact modelDeadline_sweep _
  | tieredDeadline s => exact tieredDeadline_sweep _
  | batchOptimized s => exact batchOptimized_sweep _ rfl
  | priorityTiered s => exact priorityTiered_sweep _
  | roundRobin s => exact roundRobin_tick clock

theorem connected_acts (clientId : String) (s : AnyScheduler ν) :
    Acts (fun _ => False) s (Scheduler.onClientConnected clientId s) [] := by
  cases s with
  | roundRobin s => exact roundRobin_connected clientId
  | _ => exact .refl _ _ fun _ _ => id

/-- The name under which the scheduler is registered. -/
def strategy : AnyScheduler ν → String
  | .batchOptimized _ => "batch_optimized"
  | .deadlineAware _ => "deadline_aware"
  | .modelDeadline _ => "model_deadline"
  | .priorityTiered _ => "priority_tiered"
  | .roundRobin _ => "round_robin"
  | .tieredDeadline _ => "tiered_deadline"

/-- `deadline_aware` inherits the callback, which does nothing. -/
theorem disconnected_sweeps (clientId : String) (hown : s.Own) :
    (∃ t, s = .deadlineAware t ∧ Scheduler.onClientDisconnected clientId s = s) ∨
      s.strategy ≠ "deadline_aware" ∧
        SweepsAll (fun r => r.clientId ≠ clientId) s
          (Scheduler.onClientDisconnected clientId s) := by
  cases s with
  | deadlineAware s => exact .inl ⟨s, rfl, rfl⟩
  | modelDeadline s => exact .inr ⟨by simp [strategy], modelDeadline_sweep _⟩
  | tieredDeadline s => exact .inr ⟨by simp [strategy], tieredDeadline_sweep _⟩
  | batchOptimized s => exact .inr ⟨by simp [strategy], batchOptimized_sweep _ rfl⟩
  | priorityTiered s => exact .inr ⟨by simp [strategy], priorityTiered_sweep _⟩
  | roundRobin s => exact .inr ⟨by simp [strategy], roundRobin_disconnected clientId hown⟩

theorem leaves_eq (h : s.strategy ≠ "deadline_aware") (clientId : String)
    (r : InferenceRequest ν) : s.leaves clientId r = decide (r.clientId = clientId) := by
  cases s with
  | deadlineAware s => exact absurd rfl h
  | _ => rfl

theorem nextBatchForModel_gives (modelId : String) (hown : s.Own) :
    GivesFirst s (s.nextBatchForModel modelId).2 (s.nextBatchForModel modelId).1 := by
  cases s with
  | modelDeadline s => exact modelDeadline_nextBatchForModel modelId hown
  | _ => exact .refl _

theorem usePolicy_acts {registered : String → Bool} {policyName : String} {s' : AnyScheduler ν}
    (h : s.usePolicy registered policyName = .ok s') : Acts (fun _ => False) s s' [] := by
  rcases usePolicy_cases h with ⟨t, rfl, rfl⟩ | ⟨t, rfl, rfl⟩ | ⟨t, rfl, rfl⟩ | rfl
  · exact .of_held rfl (fun _ => rfl) rfl (fun _ _ => id) fun key => by cases key <;> rfl
  · exact .of_held rfl (fun _ => rfl) rfl (fun _ _ => id) fun key => by cases key <;> rfl
  · exact .of_held rfl (fun _ => rfl) rfl (fun _ _ => id) fun key => by cases key <;> rfl
  · exact .refl _ _ fun _ _ => id

end Calls

end AnyScheduler
end Inferential
