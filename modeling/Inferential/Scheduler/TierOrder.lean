import Inferential.Scheduler.FifoOrder
import Inferential.Scheduler.Sweeps

/-!
# TierOrder — the order in which the tiers are emptied

`next_batch` empties the highest tier first, each tier in the order of its queue: the order of
arrival for `priority_tiered`, the order of the scores for `tiered_deadline`.
-/

namespace Inferential

open PyStd PyStd.Heapq Machine

variable {ν : Type} [Score ν]

namespace AnyScheduler

/-- The queues of the tiers in a row, the highest tier first. -/
def tierOrder (s : AnyScheduler ν) : List (InferenceRequest ν) :=
  (List.range s.tiers.length).flatMap fun tier => s.queueAt (.tier tier)

theorem ByTier.queueKey {s : AnyScheduler ν} (hs : s.ByTier) (r : InferenceRequest ν) :
    s.queueKey r = .tier (s.tierOf r) := by
  cases hs <;> rfl

theorem ByTier.held {s : AnyScheduler ν} (hs : s.ByTier) (tier : Nat) :
    s.held (.tier tier) = s.tiers.getD tier [] := by
  cases hs <;> rfl

theorem ByTier.tierOf_lt {s : AnyScheduler ν} (hs : s.ByTier) (r : InferenceRequest ν) :
    s.tierOf r < s.tiers.length := by
  cases hs with
  | priorityTiered s => exact s.tierOf_lt r
  | tieredDeadline s => exact s.tierOf_lt r

theorem ByTier.length_tiers {s : AnyScheduler ν} (hs : s.ByTier) :
    s.tiers.length = s.config.priorityTiered.numTiers := by
  cases hs with
  | priorityTiered s => exact s.tiers_length
  | tieredDeadline s => exact s.tiers_length

theorem ByTier.tierOrder_perm {s : AnyScheduler ν} (hs : s.ByTier) :
    s.tierOrder.Perm s.stored := by
  rw [← tiers_flatten hs, Tiers.flatten_eq_flatMap]
  apply List.Perm.flatMap_left
  intro tier _
  rw [← hs.held]
  exact line_perm _ _ _

theorem InTiers.queueAt {s : AnyScheduler ν} (h : s.InTiers) (hs : s.ByTier) (tier : Nat) :
    ∀ x ∈ s.queueAt (.tier tier), s.tierOf x = tier := by
  intro x hx
  have hheld := mem_line.mp hx
  rw [hs.held] at hheld
  exact h tier x hheld

/-- There is one request in a batch, and none only when none is queued. -/
theorem ByTier.nextBatch_cases (now : Rat) {s : AnyScheduler ν} (hs : s.ByTier) (hinv : s.Inv) :
    (s.stored = [] ∧ Scheduler.nextBatch now s = ([], s)) ∨
      ∃ x s', Scheduler.nextBatch now s = ([x], s') ∧ s'.ByTier ∧ x ∈ s.stored := by
  cases hs with
  | priorityTiered s =>
      have hself : Scheduler.nextBatch now (AnyScheduler.priorityTiered s) =
          s.nextBatch.map id .priorityTiered := rfl
      rw [hself]
      rcases PriorityTieredScheduler.nextBatch_cases hinv with ⟨hnil, heq⟩ | ⟨x, s', heq, -, -, hperm⟩
      · exact .inl ⟨hnil, by simp [heq]⟩
      · exact .inr ⟨x, .priorityTiered s', by simp [heq], .priorityTiered s',
          hperm.mem_iff.mpr List.mem_cons_self⟩
  | tieredDeadline s =>
      have hself : Scheduler.nextBatch now (AnyScheduler.tieredDeadline s) =
          s.nextBatch.map id .tieredDeadline := rfl
      rw [hself]
      rcases s.nextBatch_cases with ⟨hnil, heq⟩ | ⟨x, s', heq, -, -, hperm⟩
      · exact .inl ⟨hnil, by simp [heq]⟩
      · exact .inr ⟨x, .tieredDeadline s', by simp [heq], .tieredDeadline s',
          hperm.mem_iff.mpr List.mem_cons_self⟩

/-- `next_batch` gives out the head of the tiers in a row. -/
theorem Ordered.nextBatch_tierOrder (now : Rat) {s : AnyScheduler ν} (h : s.Ordered)
    (hs : s.ByTier) (hinv : s.Inv) (htiers : s.InTiers) :
    (s.tierOrder = [] ∧ Scheduler.nextBatch now s = ([], s)) ∨
      ∃ x, (Scheduler.nextBatch now s).1 = [x] ∧
        s.tierOrder = x :: (Scheduler.nextBatch now s).2.tierOrder := by
  have hgives := nextBatch_gives now h.own
  rcases hs.nextBatch_cases now hinv with ⟨hnil, heq⟩ | ⟨x, s', heq, hs', hx⟩
  · refine .inl ⟨?_, heq⟩
    have hperm := hs.tierOrder_perm
    rw [hnil] at hperm
    exact hperm.eq_nil
  · have hhighest := (nextBatch_inTiers now htiers).2 hs
    have hinv' : AccountedScheduler.Inv s := hinv
    have hconfig : (Scheduler.nextBatch now s).2.config = s.config :=
      (AccountedScheduler.nextBatch_spec now hinv').2.1
    rw [heq] at hgives hhighest hconfig ⊢
    refine .inr ⟨x, rfl, ?_⟩
    have hlength : s'.tiers.length = s.tiers.length := by
      rw [hs'.length_tiers, hs.length_tiers]
      exact congrArg (fun config => config.priorityTiered.numTiers) hconfig
    -- what a tier had is what it gave out and what it has
    have htier : ∀ tier, s.queueAt (.tier tier) =
        [x].filter (fun x => s.tierOf x = tier) ++ s'.queueAt (.tier tier) := by
      intro tier
      have hline := (hgives.gives (.tier tier)).line_eq (fun hheap => (h.total hheap).weakOrder)
        (fun hheap => h.heap hheap _) fun hheap => h.separated hheap _
      simp only [hs.queueKey, QueueKey.tier.injEq] at hline
      simp only [queueAt, hgives.discipline]
      exact hline
    unfold tierOrder
    rw [hlength]
    refine Tiers.flatMap_head (hs.tierOf_lt x) (fun tier hlt => ?_) ?_ fun tier hlt => ?_
    · -- no request of a higher tier is queued
      have hempty : s.queueAt (.tier tier) = [] := by
        apply List.eq_nil_iff_forall_not_mem.mpr
        intro y hy
        have hle : s.tierOf x ≤ s.tierOf y :=
          hhighest x (List.mem_singleton_self x) y (mem_stored.mpr ⟨_, mem_line.mp hy⟩)
        rw [htiers.queueAt hs tier y hy] at hle
        exact absurd hlt (not_lt.mpr hle)
      have hsame := htier tier
      rw [hempty] at hsame
      exact ⟨hempty, (List.append_eq_nil_iff.mp hsame.symm).2⟩
    · simpa using htier (s.tierOf x)
    · simpa [hlt.ne] using htier tier

theorem emptied_eq_tierOrder {s : AnyScheduler ν} (h : s.Ordered) (hs : s.ByTier)
    (hinv : s.Inv) (htiers : s.InTiers) : s.emptied = s.tierOrder := by
  have htake := unload_eq_take tierOrder
    (fun s' : AnyScheduler ν => s'.Ordered ∧ s'.ByTier ∧ s'.Inv ∧ s'.InTiers)
    (fun s' ⟨h', hs', hinv', htiers'⟩ => by
      have hnext : (Scheduler.nextBatch 0 s').2.ByTier := by
        rcases hs'.nextBatch_cases 0 hinv' with ⟨-, heq⟩ | ⟨x, s'', heq, hs'', -⟩
        · rw [heq]
          exact hs'
        · rw [heq]
          exact hs''
      exact ⟨⟨(nextBatch_gives 0 h'.own).acts.ordered h', hnext,
        turn_inv (.later (.call (.nextBatch 0))) hinv', (nextBatch_inTiers 0 htiers').1⟩,
        h'.nextBatch_tierOrder 0 hs' hinv' htiers'⟩)
    ⟨h, hs, hinv, htiers⟩ s.stored.length
  rw [emptied, htake, ← hs.tierOrder_perm.length_eq, List.take_length]

/-- What the row has of one tier is the queue of the tier. -/
theorem ByTier.filter_tierOrder {s : AnyScheduler ν} (hs : s.ByTier) (htiers : s.InTiers)
    (tier : Nat) : s.tierOrder.filter (fun x => s.tierOf x = tier) = s.queueAt (.tier tier) := by
  have hother : ∀ i, i ≠ tier → (s.queueAt (.tier i)).filter (fun x => s.tierOf x = tier) = [] := by
    intro i hi
    apply List.filter_eq_nil_iff.mpr
    intro x hx
    simpa [htiers.queueAt hs i x hx] using hi
  have hself : (s.queueAt (.tier tier)).filter (fun x => s.tierOf x = tier) =
      s.queueAt (.tier tier) :=
    List.filter_eq_self.mpr fun x hx => by simpa using htiers.queueAt hs tier x hx
  rw [tierOrder, List.filter_flatMap, Tiers.flatMap_single hother, hself]
  split
  · rfl
  · next hout =>
      have hheld : s.held (.tier tier) = [] := by
        rw [hs.held]
        simp [not_lt.mp hout]
      have hperm := line_perm InferenceRequest.lt s.discipline (s.held (.tier tier))
      rw [hheld] at hperm
      simpa [queueAt, hheld] using hperm.eq_nil.symm

/-! ## Emptying by tier -/

/-- `next_batch` gives out all that is queued, by clamped priority, and the heap of a tier by score
and counter. -/
structure DrainsByTier (s : AnyScheduler ν) : Prop where
  all : s.emptied.Perm s.stored
  sorted : s.emptied.Pairwise fun x y => s.tierOf x < s.tierOf y ∨ s.tierOf x = s.tierOf y ∧
    (s.discipline = .heap → y.score < x.score ∨ x.score = y.score ∧ x.counter < y.counter)
  clamped : ∀ r, s.tierOf r = min r.priority (s.config.priorityTiered.numTiers - 1)
  inRange : ∀ r, s.tierOf r < s.tiers.length

/-- What has been returned of a tier, and then what emptying it gives, is in the order in which it
was enqueued. -/
def KeepsArrivals (s : AnyScheduler ν) (l : Ledger ν) : Prop :=
  ∀ tier, ((l.returned ++ s.emptied).filter fun x => s.tierOf x = tier).Sublist
    (l.enqueued.filter fun x => s.tierOf x = tier)

theorem Ordered.drainsByTier {s : AnyScheduler ν} (h : s.Ordered) (hs : s.ByTier) (hinv : s.Inv)
    (htiers : s.InTiers) : s.DrainsByTier := by
  have hempty := emptied_eq_tierOrder h hs hinv htiers
  refine ⟨?_, ?_, fun _ => rfl, hs.tierOf_lt⟩
  · rw [hempty]
    exact hs.tierOrder_perm
  · rw [hempty]
    apply List.pairwise_flatMap.mpr
    constructor
    · intro tier _
      -- within a tier the heap decides
      have hlane : (s.queueAt (.tier tier)).Pairwise fun x y => s.discipline = .heap →
          y.score < x.score ∨ x.score = y.score ∧ x.counter < y.counter := by
        unfold queueAt
        cases hd : s.discipline with
        | fifo => exact List.pairwise_of_forall fun _ _ => nofun
        | heap =>
            have := (h.total hd).lawful
            have := (h.total hd).total
            have hranked := (h.separated hd (.tier tier)).ranked
            exact hranked.imp fun hlt _ => InferenceRequest.lt_iff.mp hlt
      refine hlane.imp_of_mem fun hx hy hlt => ?_
      exact .inr ⟨(htiers.queueAt hs tier _ hx).trans (htiers.queueAt hs tier _ hy).symm, hlt⟩
    · refine List.pairwise_lt_range.imp fun {i j} hlt x hx y hy => ?_
      refine .inl ?_
      rw [htiers.queueAt hs i x hx, htiers.queueAt hs j y hy]
      exact hlt

theorem Fifo.keepsArrivals {s : AnyScheduler ν} {l : Ledger ν} (hfifo : s.Fifo l)
    (hd : s.discipline = .fifo) (h : s.Ordered) (hs : s.ByTier) (hinv : s.Inv)
    (htiers : s.InTiers) : s.KeepsArrivals l := by
  intro tier
  have hkey := hfifo (.tier tier)
  have hqueue : s.queueAt (.tier tier) = s.held (.tier tier) := by
    unfold queueAt
    rw [hd]
    rfl
  simp only [hs.queueKey, QueueKey.tier.injEq] at hkey
  rw [emptied_eq_tierOrder h hs hinv htiers, List.filter_append, hs.filter_tierOrder htiers, hqueue]
  exact hkey

/-- In every reachable state, `next_batch` empties the tiers strictly in their order: within a tier
by score and counter for `tiered_deadline`, where the scores are totally ordered, and in the order of
arrival for `priority_tiered`. -/
theorem drain_strict_tiers (config : SchedulingConfig ν) :
    (∀ s : AnyScheduler ν, Reachable config s → s.ByTier →
      (s.discipline = .heap → TotalScores ν) → s.DrainsByTier) ∧
    ∀ (s : PriorityTieredScheduler ν) (cs : List (SchedulerCall ν)),
      createScheduler config = .ok (.priorityTiered s) →
        (accountedRun (AnyScheduler.priorityTiered s) {} cs).1.KeepsArrivals
          (accountedRun (AnyScheduler.priorityTiered s) {} cs).2 := by
  constructor
  · intro s hreach hs htotal
    exact (hreach.ordered htotal).drainsByTier hs hreach.inv hreach.inTiers
  · intro s cs hcreate
    have hreach := (Reachable.create hcreate).accountedRun {} cs
    have hfifo := createScheduler_fifo hcreate rfl cs
    have hstrategy := hreach.strategy_eq.trans (Reachable.create hcreate).strategy_eq.symm
    generalize accountedRun (AnyScheduler.priorityTiered s) {} cs = run at *
    rcases run with ⟨s', l⟩
    cases s' with
    | priorityTiered s' =>
        -- the deques of the tiers do not compare scores
        exact hfifo.keepsArrivals rfl (hreach.ordered nofun) (.priorityTiered s') hreach.inv
          hreach.inTiers
    | _ => simp [strategy] at hstrategy

/-- Of two requests, the second is in the higher tier. -/
theorem drain_strict_tiers_mixed :
    (let s := queuedAt 1 0 (.tieredDeadline (.init (tieredSlots "tiered_deadline")));
      s.DrainsByTier ∧ s.emptied.map InferenceRequest.priority = [0, 1]) ∧
    (let run := accountedRun
        (AnyScheduler.priorityTiered (.init (tieredSlots "priority_tiered"))) {}
      [submitPrioritized 0 1, submitPrioritized 1 0];
      run.1.KeepsArrivals run.2 ∧ run.1.emptied = [prioritized 1 0, prioritized 0 1]) := by
  refine ⟨⟨?_, by decide +kernel⟩, ?_, by decide +kernel⟩
  · exact (drain_strict_tiers (tieredSlots "tiered_deadline")).1 _ (queuedAt_reachable rfl 1 0)
      (.tieredDeadline _) fun _ => totalScores
  · exact (drain_strict_tiers (tieredSlots "priority_tiered")).2 _ _ rfl

end AnyScheduler
end Inferential
