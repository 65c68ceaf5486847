import Inferential.Scheduler.SingleQueue

/-!
# ArrivalLines — three strategies that serve in the order of arrival

`round_robin` has a line for each client, `batch_optimized` one for each model and `priority_tiered`
one for each tier.  When all requests stand in one of these lines, each of the three is a single
queue, served first in, first out.
-/

namespace Inferential

open PyStd Machine

variable {ν : Type} [Score ν]

/-! ## One tier -/

namespace PriorityTieredScheduler

/-- The only tier is the queue. -/
structure OneTier (s : PriorityTieredScheduler ν) (q : SingleQueue ν) : Prop where
  handling : q.handling = .fifo
  config : s.config = q.config
  total : s.total = (q.queue.length : Int)
  tiers : s.tiers = [q.queue]

namespace OneTier

variable {s : PriorityTieredScheduler ν} {q : SingleQueue ν}

theorem tierOf (h : OneTier s q) (r : InferenceRequest ν) : s.tierOf r = 0 := by
  have hlength := s.tiers_length
  rw [h.tiers] at hlength
  simp [PriorityTieredScheduler.tierOf, tierFor, ← hlength]

theorem resubmit (h : OneTier s q) (m : Moment ν) (r : InferenceRequest ν) :
    SubmittedAlike OneTier (s.resubmit r) (q.resubmit m r) := by
  rw [SingleQueue.resubmit_fifo h.handling]
  refine ⟨rfl, ⟨h.handling, h.config, ?_, ?_⟩⟩
  · simp [PriorityTieredScheduler.resubmit, h.total]
  · simp [PriorityTieredScheduler.resubmit, h.tierOf, h.tiers]

theorem leave (h : OneTier s q) {r : InferenceRequest ν} {rest : List (InferenceRequest ν)}
    (hqueue : q.queue = r :: rest)
    (hlength : [rest].length = s.config.priorityTiered.numTiers) :
    OneTier { s with tiers := [rest], total := s.total - 1, tiers_length := hlength }
      { q with queue := rest } where
  handling := h.handling
  config := h.config
  total := by simp [h.total, hqueue]
  tiers := rfl

theorem dropOldest (h : OneTier s q) : OneTier s.dropOldest.2 q.dropOldest.2 := by
  rw [SingleQueue.dropOldest_fifo h.handling]
  unfold PriorityTieredScheduler.dropOldest
  split
  · next hnone =>
      rw [h.tiers, Tiers.takeLast_singleton, Option.map_eq_none_iff] at hnone
      have hnil := Tiers.popleft_takes.none_iff.mp hnone
      exact ⟨h.handling, h.config, by simp [h.total, hnil], by simp [h.tiers, hnil]⟩
  · next oldest tiers hsome =>
      rw [h.tiers, Tiers.takeLast_singleton] at hsome
      rcases Option.map_eq_some_iff.mp hsome with ⟨⟨r, rest⟩, hpop, htaken⟩
      cases htaken
      have hqueue := Tiers.popleft_some hpop
      simpa [hqueue] using h.leave hqueue _

theorem nextBatch (h : OneTier s q) :
    s.nextBatch.1 = q.nextBatch.1 ∧ OneTier s.nextBatch.2 q.nextBatch.2 := by
  rw [SingleQueue.nextBatch_fifo h.handling]
  unfold PriorityTieredScheduler.nextBatch
  split
  · next hnone =>
      rw [h.tiers, Tiers.takeFirst_singleton, Option.map_eq_none_iff] at hnone
      have hnil := Tiers.popleft_takes.none_iff.mp hnone
      exact ⟨by simp [hnil], h.handling, h.config, by simp [h.total, hnil], by simp [h.tiers, hnil]⟩
  · next request tiers hsome =>
      rw [h.tiers, Tiers.takeFirst_singleton] at hsome
      rcases Option.map_eq_some_iff.mp hsome with ⟨⟨r, rest⟩, hpop, htaken⟩
      cases htaken
      have hqueue := Tiers.popleft_some hpop
      exact ⟨by simp [hqueue], by simpa [hqueue] using h.leave hqueue _⟩

theorem sweep (h : OneTier s q) (keep : InferenceRequest ν → Bool) :
    (s.sweep keep).1 = (q.sweep keep).1 ∧ OneTier (s.sweep keep).2 (q.sweep keep).2 := by
  rw [SingleQueue.sweep_fifo h.handling]
  have hle := List.length_filter_le keep q.queue
  refine ⟨by simp [PriorityTieredScheduler.sweep, h.tiers], h.handling, h.config, ?_, ?_⟩
  · simp only [PriorityTieredScheduler.sweep, h.tiers, h.total, List.map_cons, List.map_nil,
      List.sum_cons, List.sum_nil]
    omega
  · simp [PriorityTieredScheduler.sweep, h.tiers]

end OneTier

theorem shadows_oneTier : Shadows (ν := ν) (fun _ _ => True) OneTier where
  queueLen h := h.total
  submit m r h _ :=
    SubmittedAlike.submitWith h h.config h.total r.clientId (fun _ _ => h.dropOldest)
      fun _ _ h => h.resubmit m r
  resubmit m r h _ := h.resubmit m r
  nextBatch _ h := h.nextBatch
  tick clock h := by
    simpa only [Scheduler.tick, tick, h.config] using h.sweep _
  connected _ h := h
  disconnected clientId h _ := (h.sweep _).2

end PriorityTieredScheduler

/-! ## One client -/

section Fronts

variable {queues : Dict String (List (InferenceRequest ν))} {key : String}
  {queue : List (InferenceRequest ν)}

omit [Score ν] in
theorem lone_oldestFront_none (h : queues.Lone key queue) (hfront : oldestFront queues = none) :
    queue = [] := by
  by_contra hne
  have hflat : queues.flatten ≠ [] := by
    intro hflat
    have hperm := h.flatten
    rw [hflat] at hperm
    exact hne hperm.nil_eq.symm
  rcases oldestFront_spec hflat with ⟨_, _, _, hsome, -⟩
  simp [hsome] at hfront

omit [Score ν] in
theorem lone_oldestFront (h : queues.Lone key queue) {key' : String} {front : InferenceRequest ν}
    {rest : List (InferenceRequest ν)} (hfront : oldestFront queues = some (key', front, rest)) :
    key' = key ∧ queue = front :: rest := by
  have hlist := oldestFront_listAt hfront
  have hkey : key' = key := h.of_mem (x := front) (by simp [hlist])
  subst hkey
  exact ⟨rfl, h.listAt.symm.trans hlist⟩

end Fronts

namespace RoundRobinScheduler

/-- The queue of the only client is the queue; other clients may be connected. -/
structure OneClient (clientId : String) (s : RoundRobinScheduler ν) (q : SingleQueue ν) : Prop where
  handling : q.handling = .fifo
  config : s.config = q.config
  total : s.total = (q.queue.length : Int)
  lone : s.queues.Lone clientId q.queue
  own : ∀ r ∈ q.queue, r.clientId = clientId

namespace OneClient

variable {clientId : String} {s : RoundRobinScheduler ν} {q : SingleQueue ν}

theorem resubmit (h : OneClient clientId s q) (m : Moment ν) {r : InferenceRequest ν}
    (hr : r.clientId = clientId) :
    SubmittedAlike (OneClient clientId) (s.resubmit r) (q.resubmit m r) := by
  rw [SingleQueue.resubmit_fifo h.handling]
  refine ⟨rfl, ⟨h.handling, h.config, ?_, ?_, ?_⟩⟩
  · simp [RoundRobinScheduler.resubmit, h.total]
  · simp only [RoundRobinScheduler.resubmit, hr, h.lone.listAt]
    exact h.lone.set _
  · exact List.forall_mem_append.mpr ⟨h.own, by simpa using hr⟩

/-- The first request leaves. -/
theorem leave (h : OneClient clientId s q) {r : InferenceRequest ν}
    {rest : List (InferenceRequest ν)} (hqueue : q.queue = r :: rest)
    {queues : Dict String (List (InferenceRequest ν))} (hlone : queues.Lone clientId rest) :
    OneClient clientId { s with queues := queues, total := s.total - 1 }
      { q with queue := rest } where
  handling := h.handling
  config := h.config
  total := by simp [h.total, hqueue]
  lone := hlone
  own x hx := h.own x (by simp [hqueue, hx])

theorem dropOldest (h : OneClient clientId s q) :
    OneClient clientId s.dropOldest.2 q.dropOldest.2 := by
  rw [SingleQueue.dropOldest_fifo h.handling]
  unfold RoundRobinScheduler.dropOldest
  cases hfront : oldestFront s.queues with
  | none =>
      -- nothing to drop, neither here nor there
      have hnil := lone_oldestFront_none h.lone hfront
      exact ⟨h.handling, h.config, by simp [h.total, hnil], by simpa [hnil] using h.lone,
        by simp [hnil]⟩
  | some found =>
      rcases found with ⟨key, front, rest⟩
      rcases lone_oldestFront h.lone hfront with ⟨rfl, hqueue⟩
      simpa [hqueue] using h.leave hqueue (h.lone.set rest)

theorem nextBatch (h : OneClient clientId s q) :
    s.nextBatch.1 = q.nextBatch.1 ∧ OneClient clientId s.nextBatch.2 q.nextBatch.2 := by
  rw [SingleQueue.nextBatch_fifo h.handling]
  unfold RoundRobinScheduler.nextBatch
  by_cases hzero : s.total = 0
  · have hnil : q.queue = [] := by simpa [h.total] using hzero
    rw [if_pos hzero]
    exact ⟨by simp [hnil], h.handling, h.config, by simp [hzero, hnil],
      by simpa [hnil] using h.lone, by simp [hnil]⟩
  · rw [if_neg hzero]
    split
    · next queues hrotate =>
        -- the rotation visits every client, the only one with requests too
        rcases rotate_none (Nat.le_refl _) hrotate with ⟨hempty, -⟩
        rw [List.take_of_length_le (Nat.le_refl _)] at hempty
        have hnil : q.queue = [] := h.lone.eq_nil hempty
        simp [h.total, hnil] at hzero
    · next request queues hrotate =>
        -- the client that is served goes to the end, with the rest of its queue
        rcases rotate_split hrotate with ⟨before, key, rest, after, hitems, -, hitems'⟩
        have hget : s.queues.get? key = some (request :: rest) :=
          Dict.get?_eq_some.mpr (by simp [hitems])
        have hlist : s.queues.listAt key = request :: rest := by simp [Dict.listAt, hget]
        have hkey : key = clientId := h.lone.of_mem (x := request) (by simp [hlist])
        subst hkey
        have hqueue : q.queue = request :: rest := h.lone.listAt.symm.trans hlist
        have hlone : queues.Lone key rest := by
          refine h.lone.of_items (by simp [hitems']) fun kv hkv => ?_
          simp only [hitems', List.mem_append, List.mem_singleton] at hkv
          simp only [hitems, List.mem_append, List.mem_cons]
          tauto
        exact ⟨by simp [hqueue], by simpa [hqueue] using h.leave hqueue hlone⟩

theorem tick (h : OneClient clientId s q) (clock : InferenceRequest ν → Rat) :
    (Scheduler.tick clock s).1 = (Scheduler.tick clock q).1 ∧
      OneClient clientId (Scheduler.tick clock s).2 (Scheduler.tick clock q).2 := by
  have hremoved := h.lone.sum_removed fun r => !isExpired (clock r) q.config.requestTtlMs r
  have hle := List.length_filter_le (fun r => !isExpired (clock r) q.config.requestTtlMs r) q.queue
  simp only [Scheduler.tick, SingleQueue.sweep_fifo h.handling, RoundRobinScheduler.tick, h.config,
    hremoved]
  refine ⟨trivial, h.handling, rfl, ?_, h.lone.mapValues rfl, ?_⟩
  · simp only [h.total]
    omega
  · exact fun r hr => h.own r (List.mem_of_mem_filter hr)

theorem connected (h : OneClient clientId s q) (other : String) :
    OneClient clientId (s.onClientConnected other) q := by
  unfold onClientConnected
  cases hget : s.queues.get? other with
  | some queue => simpa [Dict.contains, hget] using h
  | none =>
      simp only [Dict.contains, hget]
      exact ⟨h.handling, h.config, h.total, h.lone.set_new hget, h.own⟩

theorem disconnected (h : OneClient clientId s q) (other : String) :
    OneClient clientId (s.onClientDisconnected other) (Scheduler.onClientDisconnected other q) := by
  show OneClient clientId _ (q.sweep fun r => r.clientId ≠ other).2
  rw [SingleQueue.sweep_fifo h.handling]
  unfold onClientDisconnected
  by_cases hsame : other = clientId
  -- the only client takes everything with it
  · subst hsame
    have hnone : q.queue.filter (fun r => r.clientId ≠ other) = [] :=
      List.filter_eq_nil_iff.mpr fun r hr => by simp [h.own r hr]
    simp only [hnone]
    split
    · exact ⟨h.handling, h.config, by simp [h.total, h.lone.listAt], h.lone.erase, by simp⟩
    · next habsent =>
        have hget : s.queues.get? other = none := by simpa [Dict.contains] using habsent
        have hnil : q.queue = [] := by rw [← h.lone.listAt, Dict.listAt, hget]; rfl
        exact ⟨h.handling, h.config, by simp [h.total, hnil], by simpa [hnil] using h.lone, by simp⟩
  -- another one has no requests
  · have hall : q.queue.filter (fun r => r.clientId ≠ other) = q.queue :=
      List.filter_eq_self.mpr fun r hr => by simpa [h.own r hr] using Ne.symm hsame
    have hnil : s.queues.listAt other = [] := by simpa [hsame] using h.lone other
    simp only [hall]
    split
    · exact ⟨h.handling, h.config, by simp [h.total, hnil], h.lone.erase_other hsame, h.own⟩
    · exact h

end OneClient

theorem shadows_oneClient (clientId : String) :
    Shadows (ν := ν) (fun _ => SchedulerCall.Queues fun r => r.clientId = clientId)
      (OneClient clientId) where
  queueLen h := h.total
  submit m r h hr :=
    SubmittedAlike.submitWith h h.config h.total r.clientId (fun _ _ => h.dropOldest)
      fun _ _ h => h.resubmit m hr
  resubmit m _ h hr := h.resubmit m hr
  nextBatch _ h := h.nextBatch
  tick clock h := h.tick clock
  connected other h := h.connected other
  disconnected other h _ := h.disconnected other

end RoundRobinScheduler

/-! ## One model, one by one -/

namespace BatchOptimizedScheduler

/-- The queue of the only model is the queue, and a batch is one request; the timers do not
matter. -/
structure OneByOne (modelId : String) (s : BatchOptimizedScheduler ν) (q : SingleQueue ν) :
    Prop where
  handling : q.handling = .fifo
  config : s.config = q.config
  single : s.config.batchOptimized.maxBatchSize = 1
  total : s.total = (q.queue.length : Int)
  lone : s.byModel.Lone modelId q.queue

namespace OneByOne

variable {modelId : String} {s : BatchOptimizedScheduler ν} {q : SingleQueue ν}

theorem resubmit (h : OneByOne modelId s q) (m : Moment ν) {r : InferenceRequest ν}
    (hr : r.modelId = modelId) :
    SubmittedAlike (OneByOne modelId) (s.resubmit m.now r) (q.resubmit m r) := by
  rw [SingleQueue.resubmit_fifo h.handling]
  refine ⟨rfl, ⟨h.handling, h.config, h.single, ?_, ?_⟩⟩
  · simp [BatchOptimizedScheduler.resubmit, h.total]
  · simp only [BatchOptimizedScheduler.resubmit, hr, h.lone.listAt]
    exact h.lone.set _

theorem leave (h : OneByOne modelId s q) {r : InferenceRequest ν}
    {rest : List (InferenceRequest ν)} (hqueue : q.queue = r :: rest)
    (timers : Dict String Rat) :
    OneByOne modelId
      { s with byModel := s.byModel.set modelId rest, firstArrival := timers, total := s.total - 1 }
      { q with queue := rest } where
  handling := h.handling
  config := h.config
  single := h.single
  total := by simp [h.total, hqueue]
  lone := h.lone.set rest

theorem dropOldest (h : OneByOne modelId s q) :
    OneByOne modelId s.dropOldest.2 q.dropOldest.2 := by
  rw [SingleQueue.dropOldest_fifo h.handling]
  unfold BatchOptimizedScheduler.dropOldest
  cases hfront : oldestFront s.byModel with
  | none =>
      have hnil := lone_oldestFront_none h.lone hfront
      exact ⟨h.handling, h.config, h.single, by simp [h.total, hnil], by simpa [hnil] using h.lone⟩
  | some found =>
      rcases found with ⟨key, front, rest⟩
      rcases lone_oldestFront h.lone hfront with ⟨rfl, hqueue⟩
      simpa [hqueue] using h.leave hqueue _

theorem nextBatch (h : OneByOne modelId s q) (now : Rat) :
    (s.nextBatch now).1 = q.nextBatch.1 ∧ OneByOne modelId (s.nextBatch now).2 q.nextBatch.2 := by
  have hmax : s.maxBatch = 1 := h.single
  rw [SingleQueue.nextBatch_fifo h.handling]
  unfold BatchOptimizedScheduler.nextBatch
  cases hfind : s.byModel.items.find? (s.ready now) with
  | none =>
      have hnil : q.queue = [] := by
        -- with batches of one, a queue that holds a request is ready
        refine h.lone.eq_nil fun ⟨key, queue⟩ hitem => ?_
        have hready := List.find?_eq_none.mp hfind _ hitem
        cases queue with
        | nil => rfl
        | cons r rest => simp [ready, hmax] at hready
      exact ⟨by simp [hnil], h.handling, h.config, h.single, by simp [h.total, hnil],
        by simpa [hnil] using h.lone⟩
  | some item =>
      rcases item with ⟨key, queue⟩
      have hready : s.ready now (key, queue) = true := List.find?_some hfind
      have hget : s.byModel.get? key = some queue :=
        Dict.get?_eq_some.mpr (List.mem_of_find?_eq_some hfind)
      have hlist : s.byModel.listAt key = queue := by simp [Dict.listAt, hget]
      cases queue with
      | nil => simp [ready] at hready
      | cons r rest =>
          have hkey : key = modelId := h.lone.of_mem (x := r) (by simp [hlist])
          subst hkey
          have hqueue : q.queue = r :: rest := h.lone.listAt.symm.trans hlist
          refine ⟨by simp [hmax, hqueue], ?_⟩
          simpa [hmax, hqueue] using h.leave hqueue _

theorem sweep (h : OneByOne modelId s q) (keep : InferenceRequest ν → Bool) :
    (s.sweep keep).1 = (q.sweep keep).1 ∧ OneByOne modelId (s.sweep keep).2 (q.sweep keep).2 := by
  have hle := List.length_filter_le keep q.queue
  rw [SingleQueue.sweep_fifo h.handling]
  simp only [BatchOptimizedScheduler.sweep, h.lone.sum_removed]
  refine ⟨trivial, h.handling, h.config, h.single, ?_, h.lone.mapValues rfl⟩
  simp only [h.total]
  omega

theorem tick (h : OneByOne modelId s q) (clock : InferenceRequest ν → Rat) :
    (Scheduler.tick clock s).1 = (Scheduler.tick clock q).1 ∧
      OneByOne modelId (Scheduler.tick clock s).2 (Scheduler.tick clock q).2 := by
  rcases h.sweep fun r => !isExpired (clock r) q.config.requestTtlMs r with ⟨hcount, hswept⟩
  simp only [Scheduler.tick, BatchOptimizedScheduler.tick, h.config]
  exact ⟨hcount, hswept.handling, hswept.config, hswept.single, hswept.total, hswept.lone⟩

end OneByOne

theorem shadows_oneByOne (modelId : String) :
    Shadows (ν := ν) (fun _ => SchedulerCall.Queues fun r => r.modelId = modelId)
      (OneByOne modelId) where
  queueLen h := h.total
  submit m r h hr :=
    SubmittedAlike.submitWith h h.config h.total r.clientId (fun _ _ => h.dropOldest)
      fun _ _ h => h.resubmit m hr
  resubmit m _ h hr := h.resubmit m hr
  nextBatch now h := h.nextBatch now
  tick clock h := h.tick clock
  connected _ h := h
  disconnected _ h _ := (h.sweep _).2

end BatchOptimizedScheduler

end Inferential
