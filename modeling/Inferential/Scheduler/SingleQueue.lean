import Inferential.Machine.Unwinding
import Inferential.Scheduler.SortedLists
import Inferential.Scheduler.Strategies

/-!
# SingleQueue — a scheduler with one queue

What a caller sees of a scheduler, and the scheduler that has one queue only: served in the order of
arrival, or by the score that the requests have when they are queued.
-/

namespace Inferential

open PyStd PyStd.Heapq Machine
open ModelDeadlineScheduler (Reply)

variable {ν : Type}

/-! ## What a caller sees -/

section Calls

variable {σ : Type} [Scheduler σ ν]

/-- The answer to a call, and `queue_len()` after it. -/
def Scheduler.call (s : σ) : SchedulerCall ν → (Reply ν × Int) × σ
  | .submit m r =>
      let o := Scheduler.submit m r s
      ((.ofSubmitted o, Scheduler.queueLen o.state), o.state)
  | .resubmit m r =>
      let o := Scheduler.resubmit m r s
      ((.ofSubmitted o, Scheduler.queueLen o.state), o.state)
  | .nextBatch now =>
      let next := Scheduler.nextBatch now s
      ((.batch next.1, Scheduler.queueLen next.2), next.2)
  | .tick clock =>
      let next := Scheduler.tick clock s
      ((.expired next.1, Scheduler.queueLen next.2), next.2)
  | .onClientConnected clientId =>
      let s' := Scheduler.onClientConnected clientId s
      ((.returned, Scheduler.queueLen s'), s')
  | .onClientDisconnected clientId =>
      let s' := Scheduler.onClientDisconnected clientId s
      ((.returned, Scheduler.queueLen s'), s')

/-- Everything that the calls answer. -/
def Scheduler.replies (s : σ) (cs : List (SchedulerCall ν)) : List (Reply ν × Int) :=
  (Machine.run Scheduler.call s cs).1

end Calls

/-- A request that the call queues satisfies `p`. -/
def SchedulerCall.Queues (p : InferenceRequest ν → Prop) : SchedulerCall ν → Prop
  | .submit _ r => p r
  | .resubmit _ r => p r
  | _ => True

/-- The same answer, and states that stay related. -/
structure SubmittedAlike {σ τ : Type} (related : σ → τ → Prop) (o : Submitted σ ν)
    (o' : Submitted τ ν) : Prop where
  raised : o.raised = o'.raised
  state : related o.state o'.state

/-- The schedulers do the same as long as the calls are `taken`. -/
structure Shadows {σ τ : Type} [Scheduler σ ν] [Scheduler τ ν]
    (taken : σ → SchedulerCall ν → Prop) (related : σ → τ → Prop) : Prop where
  queueLen {s : σ} {t : τ} : related s t → Scheduler.queueLen s = Scheduler.queueLen t
  submit {s : σ} {t : τ} (m : Moment ν) (r : InferenceRequest ν) : related s t →
    taken s (.submit m r) →
      SubmittedAlike related (Scheduler.submit m r s) (Scheduler.submit m r t)
  resubmit {s : σ} {t : τ} (m : Moment ν) (r : InferenceRequest ν) : related s t →
    taken s (.resubmit m r) →
      SubmittedAlike related (Scheduler.resubmit m r s) (Scheduler.resubmit m r t)
  nextBatch {s : σ} {t : τ} (now : Rat) : related s t →
    (Scheduler.nextBatch now s).1 = (Scheduler.nextBatch now t).1 ∧
      related (Scheduler.nextBatch now s).2 (Scheduler.nextBatch now t).2
  tick {s : σ} {t : τ} (clock : InferenceRequest ν → Rat) : related s t →
    (Scheduler.tick clock s).1 = (Scheduler.tick clock t).1 ∧
      related (Scheduler.tick clock s).2 (Scheduler.tick clock t).2
  connected {s : σ} {t : τ} (clientId : String) : related s t →
    related (Scheduler.onClientConnected clientId s) (Scheduler.onClientConnected clientId t)
  disconnected {s : σ} {t : τ} (clientId : String) : related s t →
    taken s (.onClientDisconnected clientId) →
      related (Scheduler.onClientDisconnected clientId s)
        (Scheduler.onClientDisconnected clientId t)

section Shadowing

variable {σ τ : Type} [Scheduler σ ν] [Scheduler τ ν] {taken : σ → SchedulerCall ν → Prop}
  {related : σ → τ → Prop}

omit [Scheduler σ ν] [Scheduler τ ν] in
theorem SubmittedAlike.reply {o : Submitted σ ν} {o' : Submitted τ ν}
    (h : SubmittedAlike related o o') : Reply.ofSubmitted o = Reply.ofSubmitted o' := by
  simp only [Reply.ofSubmitted, h.raised]

theorem Shadows.mirrors (h : Shadows taken related) :
    Mirrors (Scheduler.call (σ := σ)) (Scheduler.call (σ := τ)) taken related := by
  intro s t c hrelated htaken
  cases c with
  | submit m r =>
      have halike := h.submit m r hrelated htaken
      exact ⟨by simp [Scheduler.call, halike.reply, h.queueLen halike.state], halike.state⟩
  | resubmit m r =>
      have halike := h.resubmit m r hrelated htaken
      exact ⟨by simp [Scheduler.call, halike.reply, h.queueLen halike.state], halike.state⟩
  | nextBatch now =>
      rcases h.nextBatch now hrelated with ⟨hbatch, hnext⟩
      exact ⟨by simp [Scheduler.call, hbatch, h.queueLen hnext], hnext⟩
  | tick clock =>
      rcases h.tick clock hrelated with ⟨hexpired, hnext⟩
      exact ⟨by simp [Scheduler.call, hexpired, h.queueLen hnext], hnext⟩
  | onClientConnected clientId =>
      have hnext := h.connected clientId hrelated
      exact ⟨by simp [Scheduler.call, h.queueLen hnext], hnext⟩
  | onClientDisconnected clientId =>
      have hnext := h.disconnected clientId hrelated htaken
      exact ⟨by simp [Scheduler.call, h.queueLen hnext], hnext⟩

theorem Shadows.replies (h : Shadows taken related) {s : σ} {t : τ} (hrelated : related s t)
    {cs : List (SchedulerCall ν)} (htaken : Follows Scheduler.call taken s cs) :
    Scheduler.replies s cs = Scheduler.replies t cs :=
  h.mirrors.run hrelated htaken

end Shadowing

/-! ## The queue -/

variable [Score ν]

/-- How a single queue is kept. -/
structure Handling (ν : Type) where
  /-- The request as it is queued under this number, or the exception that scoring it raises. -/
  enter : Moment ν → Nat → InferenceRequest ν → Except PyError (InferenceRequest ν)
  push : List (InferenceRequest ν) → InferenceRequest ν → List (InferenceRequest ν)
  pop : List (InferenceRequest ν) → Option (InferenceRequest ν × List (InferenceRequest ν))
  evict : List (InferenceRequest ν) → Option (InferenceRequest ν × List (InferenceRequest ν))
  /-- What is done after some requests were taken out. -/
  rebuild : List (InferenceRequest ν) → List (InferenceRequest ν)

namespace Handling

/-- First in, first out; the first is also the one that overflow drops. -/
def fifo : Handling ν where
  enter _ _ r := .ok r
  push queue r := queue ++ [r]
  pop := Tiers.popleft
  evict := Tiers.popleft
  rebuild queue := queue

/-- A heap of the scores that the requests have when they are queued. -/
def scored (policy : Option String) (weights : DeadlineAwareConfig ν) : Handling ν where
  enter m number r := (scoreWith policy weights m r).map fun score => r.stamp score number
  push := heappush InferenceRequest.lt
  pop := heappop InferenceRequest.lt
  evict := TieredDeadlineScheduler.takeOldest
  rebuild := heapify InferenceRequest.lt

end Handling

/-- Overflow handling, which is the same everywhere: the oldest request is dropped before the new
one is queued, or the new one is refused. -/
def submitWith {σ : Type} (config : SchedulingConfig ν) (queueLen : Int)
    (dropOldest : σ → Option (InferenceRequest ν) × σ) (enqueue : σ → Submitted σ ν)
    (clientId : String) (s : σ) : Submitted σ ν :=
  if config.maxQueueSize ≤ queueLen then
    match config.overflowPolicy with
    -- the new request is queued even if none could be dropped
    | .dropOldest => { enqueue (dropOldest s).2 with dropped := (dropOldest s).1 }
    | .rejectNewest => { state := s, raised := some (.queueFullError clientId) }
  else
    enqueue s

theorem SubmittedAlike.submitWith {σ τ : Type} {related : σ → τ → Prop}
    {config config' : SchedulingConfig ν} {queueLen queueLen' : Int}
    {dropOldest : σ → Option (InferenceRequest ν) × σ}
    {dropOldest' : τ → Option (InferenceRequest ν) × τ} {enqueue : σ → Submitted σ ν}
    {enqueue' : τ → Submitted τ ν} {s : σ} {t : τ} (hrelated : related s t)
    (hconfig : config = config') (hqueueLen : queueLen = queueLen') (clientId : String)
    (hdrop : config.maxQueueSize ≤ queueLen → config.overflowPolicy = .dropOldest →
      related (dropOldest s).2 (dropOldest' t).2)
    (henqueue : ∀ s t, related s t → SubmittedAlike related (enqueue s) (enqueue' t)) :
    SubmittedAlike related (submitWith config queueLen dropOldest enqueue clientId s)
      (submitWith config' queueLen' dropOldest' enqueue' clientId t) := by
  subst hconfig
  subst hqueueLen
  unfold Inferential.submitWith
  split
  · next hfull =>
    cases hpolicy : config.overflowPolicy with
    | dropOldest =>
        have halike := henqueue _ _ (hdrop hfull hpolicy)
        exact ⟨halike.raised, halike.state⟩
    | rejectNewest => exact ⟨rfl, hrelated⟩
  · exact henqueue s t hrelated

structure SingleQueue (ν : Type) [Score ν] where
  config : SchedulingConfig ν
  handling : Handling ν
  queue : List (InferenceRequest ν) := []
  counter : Nat := 0

namespace SingleQueue

def resubmit (m : Moment ν) (request : InferenceRequest ν) (s : SingleQueue ν) :
    Submitted (SingleQueue ν) ν :=
  match s.handling.enter m s.counter request with
  | .error e => { state := s, raised := some e }
  | .ok queued =>
      { state := { s with queue := s.handling.push s.queue queued, counter := s.counter + 1 } }

def dropOldest (s : SingleQueue ν) : Option (InferenceRequest ν) × SingleQueue ν :=
  match s.handling.evict s.queue with
  | none => (none, s)
  | some (oldest, queue) => (some oldest, { s with queue := queue })

def submit (m : Moment ν) (request : InferenceRequest ν) (s : SingleQueue ν) :
    Submitted (SingleQueue ν) ν :=
  submitWith s.config s.queue.length dropOldest (resubmit m request) request.clientId s

def nextBatch (s : SingleQueue ν) : List (InferenceRequest ν) × SingleQueue ν :=
  match s.handling.pop s.queue with
  | none => ([], s)
  | some (request, queue) => ([request], { s with queue := queue })

def sweep (keep : InferenceRequest ν → Bool) (s : SingleQueue ν) : Nat × SingleQueue ν :=
  let kept := s.queue.filter keep
  let removed := s.queue.length - kept.length
  (removed, { s with queue := if removed = 0 then kept else s.handling.rebuild kept })

instance : Scheduler (SingleQueue ν) ν where
  submit := submit
  resubmit := resubmit
  nextBatch _ := nextBatch
  tick clock s := s.sweep fun r => !isExpired (clock r) s.config.requestTtlMs r
  onClientConnected _ s := s
  onClientDisconnected clientId s := (s.sweep fun r => r.clientId ≠ clientId).2
  queueLen s := s.queue.length

section Fifo

variable {s : SingleQueue ν}

theorem resubmit_fifo (h : s.handling = .fifo) (m : Moment ν) (r : InferenceRequest ν) :
    s.resubmit m r =
      { state := { s with queue := s.queue ++ [r], counter := s.counter + 1 } } := by
  cases s
  cases h
  rfl

theorem dropOldest_fifo (h : s.handling = .fifo) :
    s.dropOldest.2 = { s with queue := s.queue.tail } := by
  rcases s with ⟨config, handling, queue, counter⟩
  cases h
  cases queue <;> rfl

theorem nextBatch_fifo (h : s.handling = .fifo) :
    s.nextBatch = (s.queue.take 1, { s with queue := s.queue.tail }) := by
  rcases s with ⟨config, handling, queue, counter⟩
  cases h
  cases queue <;> rfl

theorem sweep_fifo (h : s.handling = .fifo) (keep : InferenceRequest ν → Bool) :
    s.sweep keep =
      (s.queue.length - (s.queue.filter keep).length, { s with queue := s.queue.filter keep }) := by
  rcases s with ⟨config, handling, queue, counter⟩
  cases h
  simp [sweep]

end Fifo

section Scored

variable {s : SingleQueue ν} {policy : Option String} {weights : DeadlineAwareConfig ν}

theorem resubmit_scored (h : s.handling = .scored policy weights) (m : Moment ν)
    (r : InferenceRequest ν) :
    s.resubmit m r =
      match scoreWith policy weights m r with
      | .error e => { state := s, raised := some e }
      | .ok score =>
          { state := { s with
              queue := heappush InferenceRequest.lt s.queue (r.stamp score s.counter)
              counter := s.counter + 1 } } := by
  cases s
  cases h
  cases hscore : scoreWith policy weights m r <;>
    simp [resubmit, hscore, Except.map]

theorem dropOldest_scored (h : s.handling = .scored policy weights) :
    s.dropOldest.2 =
      match TieredDeadlineScheduler.takeOldest s.queue with
      | none => s
      | some (_, queue) => { s with queue := queue } := by
  rcases s with ⟨config, handling, queue, counter⟩
  cases h
  cases htake : TieredDeadlineScheduler.takeOldest queue <;>
    simp [dropOldest, htake]

theorem nextBatch_scored (h : s.handling = .scored policy weights) :
    s.nextBatch =
      match heappop InferenceRequest.lt s.queue with
      | none => ([], s)
      | some (request, queue) => ([request], { s with queue := queue }) := by
  cases s
  cases h
  rfl

theorem sweepTier_eq (keep : InferenceRequest ν → Bool) (heap : List (InferenceRequest ν)) :
    TieredDeadlineScheduler.sweepTier keep heap =
      if heap.length - (heap.filter keep).length = 0 then heap.filter keep
      else heapify InferenceRequest.lt (heap.filter keep) := by
  have hle := List.length_filter_le keep heap
  unfold TieredDeadlineScheduler.sweepTier
  by_cases hall : (heap.filter keep).length < heap.length
  · rw [if_pos hall, if_neg (by omega)]
  · rw [if_neg hall, if_pos (by omega)]

theorem sweep_scored (h : s.handling = .scored policy weights) (keep : InferenceRequest ν → Bool) :
    s.sweep keep =
      (s.queue.length - (s.queue.filter keep).length,
        { s with queue := TieredDeadlineScheduler.sweepTier keep s.queue }) := by
  rcases s with ⟨config, handling, queue, counter⟩
  cases h
  rw [sweepTier_eq]
  rfl

end Scored

end SingleQueue

end Inferential
