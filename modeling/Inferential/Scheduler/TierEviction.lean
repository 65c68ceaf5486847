import Inferential.Scheduler.Atomicity

/-!
# TierEviction — which tier an eviction hits

Every queued request of `priority_tiered` and `tiered_deadline` is in the tier of its priority.  The
eviction takes from the lowest tier that is not empty, whatever the tier of the new request is, and
`next_batch` takes from the highest.
-/

namespace Inferential

open PyStd PyStd.Heapq

variable {ν : Type} [Score ν]

/-! ## The two schedulers -/

namespace PriorityTieredScheduler

theorem resubmit_placed (r : InferenceRequest ν) {s : PriorityTieredScheduler ν}
    (h : Tiers.Placed s.tierOf s.tiers) : Tiers.Placed s.tierOf (s.resubmit r).state.tiers := by
  refine h.set fun x hx => ?_
  rcases List.mem_append.mp hx with hqueued | hnew
  · exact h (s.tierOf r) x hqueued
  · rw [List.mem_singleton.mp hnew]

/-- The eviction, tier by tier. -/
theorem dropOldest_placed {s : PriorityTieredScheduler ν} (h : Tiers.Placed s.tierOf s.tiers) :
    s.dropOldest.2.config = s.config ∧ Tiers.Placed s.tierOf s.dropOldest.2.tiers ∧
      ∀ dropped, s.dropOldest.1 = some dropped →
        dropped ∈ s.stored ∧ ∀ x ∈ s.stored, s.tierOf x ≤ s.tierOf dropped := by
  unfold dropOldest
  split
  · exact ⟨rfl, h, nofun⟩
  · next lowest tiers hlast =>
      rcases h.takeLast Tiers.popleft_takes hlast with ⟨hplaced, hlowest⟩
      refine ⟨rfl, hplaced, fun dropped hdropped => ?_⟩
      cases hdropped
      exact hlowest

theorem nextBatch_placed {s : PriorityTieredScheduler ν} (h : Tiers.Placed s.tierOf s.tiers) :
    s.nextBatch.2.config = s.config ∧ Tiers.Placed s.tierOf s.nextBatch.2.tiers ∧
      ∀ request ∈ s.nextBatch.1, ∀ x ∈ s.stored, s.tierOf request ≤ s.tierOf x := by
  unfold nextBatch
  split
  · exact ⟨rfl, h, by simp⟩
  · next first tiers hfirst =>
      rcases h.takeFirst Tiers.popleft_takes hfirst with ⟨hplaced, hhighest⟩
      refine ⟨rfl, hplaced, fun request hrequest => ?_⟩
      rw [List.mem_singleton.mp hrequest]
      exact hhighest

end PriorityTieredScheduler

namespace TieredDeadlineScheduler

/-- The stamp of a request does not touch its priority. -/
theorem resubmit_placed (m : Moment ν) (r : InferenceRequest ν) {s : TieredDeadlineScheduler ν}
    (h : Tiers.Placed s.tierOf s.tiers) :
    (s.resubmit m r).state.config = s.config ∧
      Tiers.Placed s.tierOf (s.resubmit m r).state.tiers := by
  unfold resubmit
  dsimp only
  cases s.computeScore m r with
  | error e => exact ⟨rfl, h⟩
  | ok score =>
      refine ⟨rfl, h.set fun x hx => ?_⟩
      have hperm := heappush_perm InferenceRequest.lt (s.tiers.getD (s.tierOf r) [])
        (r.stamp score s.counter)
      rcases List.mem_cons.mp (hperm.mem_iff.mp hx) with rfl | hqueued
      · rfl
      · exact h (s.tierOf r) x hqueued

theorem dropFromLowestTier_placed {s : TieredDeadlineScheduler ν}
    (h : Tiers.Placed s.tierOf s.tiers) :
    s.dropFromLowestTier.2.config = s.config ∧
      Tiers.Placed s.tierOf s.dropFromLowestTier.2.tiers ∧
      ∀ dropped, s.dropFromLowestTier.1 = some dropped →
        dropped ∈ s.stored ∧ ∀ x ∈ s.stored, s.tierOf x ≤ s.tierOf dropped := by
  unfold dropFromLowestTier
  split
  · exact ⟨rfl, h, nofun⟩
  · next lowest tiers hlast =>
      rcases h.takeLast takeOldest_takes hlast with ⟨hplaced, hlowest⟩
      refine ⟨rfl, hplaced, fun dropped hdropped => ?_⟩
      cases hdropped
      exact hlowest

theorem nextBatchForTier_placed (tier : Nat) {s : TieredDeadlineScheduler ν}
    (h : Tiers.Placed s.tierOf s.tiers) :
    (s.nextBatchForTier tier).2.config = s.config ∧
      Tiers.Placed s.tierOf (s.nextBatchForTier tier).2.tiers ∧
      ∀ request ∈ (s.nextBatchForTier tier).1, s.tierOf request = tier := by
  unfold nextBatchForTier
  cases hpop : heappop InferenceRequest.lt (s.tiers.getD tier []) with
  | none => exact ⟨rfl, h, by simp⟩
  | some popped =>
      rcases popped with ⟨item, heap⟩
      have hperm := heappop_perm hpop
      refine ⟨rfl, h.set fun x hx => ?_, fun request hrequest => ?_⟩
      · exact h tier x (hperm.mem_iff.mpr (List.mem_cons_of_mem item hx))
      · rw [List.mem_singleton.mp hrequest]
        exact h tier item (hperm.mem_iff.mpr List.mem_cons_self)

/-- The tiers are asked from the highest down. -/
theorem nextBatch_placed {s : TieredDeadlineScheduler ν} (h : Tiers.Placed s.tierOf s.tiers) :
    s.nextBatch.2.config = s.config ∧ Tiers.Placed s.tierOf s.nextBatch.2.tiers ∧
      ∀ request ∈ s.nextBatch.1, ∀ x ∈ s.stored, s.tierOf request ≤ s.tierOf x := by
  rcases s.nextBatch_asks with ⟨-, heq⟩ | ⟨tier, hbefore, -, heq⟩
  · rw [heq]
    exact ⟨rfl, h, by simp⟩
  · rcases nextBatchForTier_placed tier h with ⟨hconfig, hplaced, hown⟩
    rw [heq]
    refine ⟨hconfig, hplaced, fun request hrequest x hx => ?_⟩
    rw [hown request hrequest]
    by_contra hlt
    -- a request of a higher tier would have been found first
    have hx' := h.mem_getD hx
    rw [hbefore _ (not_le.mp hlt)] at hx'
    cases hx'

end TieredDeadlineScheduler

namespace AnyScheduler

/-- The schedulers that keep a queue for each tier. -/
inductive ByTier : AnyScheduler ν → Prop
  | priorityTiered (s : PriorityTieredScheduler ν) : ByTier (.priorityTiered s)
  | tieredDeadline (s : TieredDeadlineScheduler ν) : ByTier (.tieredDeadline s)

/-- The queues of the tiers, and none where there are no tiers. -/
def tiers : AnyScheduler ν → List (List (InferenceRequest ν))
  | .priorityTiered s => s.tiers
  | .tieredDeadline s => s.tiers
  | _ => []

def tierOf (s : AnyScheduler ν) (r : InferenceRequest ν) : Nat :=
  tierFor s.config.priorityTiered.numTiers r.priority

/-- Every queued request is in its tier. -/
def InTiers (s : AnyScheduler ν) : Prop := Tiers.Placed s.tierOf s.tiers

theorem tiers_flatten {s : AnyScheduler ν} (hs : s.ByTier) : s.tiers.flatten = s.stored := by
  cases hs <;> rfl

theorem inTiers_nil {s : AnyScheduler ν} (h : s.tiers = []) : s.InTiers := by
  unfold InTiers
  rw [h]
  exact Tiers.Placed.replicate _ 0

/-- With the configuration the tiers stay the same. -/
theorem inTiers_of_placed (s : AnyScheduler ν) {s' : AnyScheduler ν}
    (hconfig : s'.config = s.config) (h : Tiers.Placed s.tierOf s'.tiers) : s'.InTiers := by
  have htier : s'.tierOf = s.tierOf := by
    funext r
    simp only [tierOf, hconfig]
  unfold InTiers
  rw [htier]
  exact h

/-! ## Every call -/

theorem resubmit_inTiers (m : Moment ν) (r : InferenceRequest ν) {s : AnyScheduler ν}
    (h : s.InTiers) : (Scheduler.resubmit m r s).state.InTiers := by
  cases s with
  | priorityTiered s =>
      have hplaced := PriorityTieredScheduler.resubmit_placed r h
      exact inTiers_of_placed (.priorityTiered s) rfl hplaced
  | tieredDeadline s =>
      rcases TieredDeadlineScheduler.resubmit_placed m r h with ⟨hconfig, hplaced⟩
      exact inTiers_of_placed (.tieredDeadline s) hconfig hplaced
  | _ => exact inTiers_nil rfl

/-- The eviction takes from the lowest tier that is not empty. -/
theorem dropOldest_inTiers {s : AnyScheduler ν} (h : s.InTiers) :
    s.dropOldest.2.InTiers ∧ (s.ByTier → ∀ dropped, s.dropOldest.1 = some dropped →
      dropped ∈ s.stored ∧ ∀ x ∈ s.stored, s.tierOf x ≤ s.tierOf dropped) := by
  cases s with
  | priorityTiered s =>
      rcases PriorityTieredScheduler.dropOldest_placed h with ⟨hconfig, hplaced, hlowest⟩
      exact ⟨inTiers_of_placed (.priorityTiered s) hconfig hplaced, fun _ => hlowest⟩
  | tieredDeadline s =>
      rcases TieredDeadlineScheduler.dropFromLowestTier_placed h with ⟨hconfig, hplaced, hlowest⟩
      exact ⟨inTiers_of_placed (.tieredDeadline s) hconfig hplaced, fun _ => hlowest⟩
  | _ => exact ⟨inTiers_nil rfl, nofun⟩

theorem submit_inTiers (m : Moment ν) (r : InferenceRequest ν) {s : AnyScheduler ν}
    (h : s.InTiers) : (Scheduler.submit m r s).state.InTiers := by
  rcases submit_cases m r s with ⟨-, ho⟩ | ⟨-, -, ho⟩ | ⟨-, -, ho⟩
  · rw [ho]
    exact resubmit_inTiers m r h
  · rw [ho]
    exact h
  · rw [ho]
    exact resubmit_inTiers m r (dropOldest_inTiers h).1

/-- Requests are taken out of their tiers, and none changes its tier. -/
theorem sweep_inTiers {s s' : AnyScheduler ν} (h : s.InTiers) (hconfig : s'.config = s.config)
    {f : List (InferenceRequest ν) → List (InferenceRequest ν)}
    {keep : InferenceRequest ν → Bool} (hf : ∀ queue, (f queue).Perm (queue.filter keep))
    (htiers : s'.tiers = s.tiers.map f) : s'.InTiers := by
  refine inTiers_of_placed s hconfig ?_
  rw [htiers]
  exact h.map fun queue x hx => List.mem_of_mem_filter ((hf queue).mem_iff.mp hx)

/-- The next batch is of the highest tier that is not empty. -/
theorem nextBatch_inTiers (now : Rat) {s : AnyScheduler ν} (h : s.InTiers) :
    (Scheduler.nextBatch now s).2.InTiers ∧ (s.ByTier → ∀ request ∈ (Scheduler.nextBatch now s).1,
      ∀ x ∈ s.stored, s.tierOf request ≤ s.tierOf x) := by
  cases s with
  | priorityTiered s =>
      rcases PriorityTieredScheduler.nextBatch_placed h with ⟨hconfig, hplaced, hhighest⟩
      exact ⟨inTiers_of_placed (.priorityTiered s) hconfig hplaced, fun _ => hhighest⟩
  | tieredDeadline s =>
      rcases TieredDeadlineScheduler.nextBatch_placed h with ⟨hconfig, hplaced, hhighest⟩
      exact ⟨inTiers_of_placed (.tieredDeadline s) hconfig hplaced, fun _ => hhighest⟩
  | _ => exact ⟨inTiers_nil rfl, nofun⟩

theorem accountedCall_inTiers {s : AnyScheduler ν} (h : s.InTiers) (l : Ledger ν)
    (c : SchedulerCall ν) : (accountedCall s l c).1.InTiers := by
  cases c with
  | submit m r => exact submit_inTiers m r h
  | resubmit m r => exact resubmit_inTiers m r h
  | nextBatch now => exact (nextBatch_inTiers now h).1
  | tick clock =>
      cases s with
      | priorityTiered s => exact sweep_inTiers h rfl (fun _ => List.Perm.refl _) rfl
      | tieredDeadline s =>
          exact sweep_inTiers h rfl (TieredDeadlineScheduler.sweepTier_perm _) rfl
      | _ => exact inTiers_nil rfl
  | onClientConnected clientId =>
      cases s with
      | priorityTiered s => exact h
      | tieredDeadline s => exact h
      | _ => exact inTiers_nil rfl
  | onClientDisconnected clientId =>
      cases s with
      | priorityTiered s => exact sweep_inTiers h rfl (fun _ => List.Perm.refl _) rfl
      | tieredDeadline s =>
          exact sweep_inTiers h rfl (TieredDeadlineScheduler.sweepTier_perm _) rfl
      | _ => exact inTiers_nil rfl

theorem Reachable.inTiers {config : SchedulingConfig ν} {s : AnyScheduler ν}
    (h : Reachable config s) : s.InTiers := by
  induction h with
  | create h =>
      rcases createScheduler_cases h with ⟨-, rfl⟩ | ⟨-, rfl⟩ | ⟨-, rfl⟩ | ⟨-, rfl⟩ | ⟨-, rfl⟩ |
        ⟨-, rfl⟩
      · exact inTiers_nil rfl
      · exact inTiers_nil rfl
      · exact inTiers_nil rfl
      · exact Tiers.Placed.replicate _ _
      · exact inTiers_nil rfl
      · exact Tiers.Placed.replicate _ _
  | usePolicy registered policyName _ heq ih =>
      rcases usePolicy_cases heq with ⟨t, rfl, rfl⟩ | ⟨t, rfl, rfl⟩ | ⟨t, rfl, rfl⟩ | rfl
      · exact inTiers_nil rfl
      · exact inTiers_nil rfl
      · exact ih
      · exact ih
  | call l c _ ih => exact accountedCall_inTiers ih l c
  | @nextBatchForModel s modelId _ ih =>
      cases s with
      | modelDeadline s => exact inTiers_nil rfl
      | _ => exact ih
  | @nextBatchForTier s tier _ ih =>
      rcases TieredDeadlineScheduler.nextBatchForTier_placed tier ih with ⟨hconfig, hplaced, -⟩
      exact inTiers_of_placed (.tieredDeadline s) hconfig hplaced

/-! ## Overflow -/

/-- In every reachable state, what a submission evicts is in the lowest tier that is not empty.  So
its tier is at most as high as the one of the new request exactly when some queued request is in
the tier of the new request or in a lower one. -/
theorem overflow_lowest_tier (config : SchedulingConfig ν) (s : AnyScheduler ν)
    (hreach : Reachable config s) (hs : s.ByTier) (m : Moment ν) (r dropped : InferenceRequest ν)
    (hdropped : (Scheduler.submit m r s).dropped = some dropped) :
    dropped ∈ s.tiers.getD (s.tierOf dropped) [] ∧
      (∀ x ∈ s.stored, s.tierOf x ≤ s.tierOf dropped) ∧
      (s.tierOf r ≤ s.tierOf dropped ↔ ∃ x ∈ s.stored, s.tierOf r ≤ s.tierOf x) := by
  have htiers := hreach.inTiers
  -- a request is only dropped from a full queue
  have hne : (Scheduler.submit m r s).dropped ≠ none := by simp [hdropped]
  rcases (submit_losses m r hreach.inv).1 hne with ⟨hfull, hpolicy⟩
  rw [submit_full m r hfull hpolicy] at hdropped
  rcases (dropOldest_inTiers htiers).2 hs dropped hdropped with ⟨hmem, hlowest⟩
  refine ⟨?_, hlowest, ?_⟩
  · rw [← tiers_flatten hs] at hmem
    exact htiers.mem_getD hmem
  · constructor
    · intro hle
      exact ⟨dropped, hmem, hle⟩
    · rintro ⟨x, hx, hle⟩
      exact hle.trans (hlowest x hx)

/-! ### Two places -/

def tieredSlots (strategy : String) : SchedulingConfig Rat :=
  { plainConfig.scheduling with
    strategy := strategy
    maxQueueSize := 2
    maxQueueSize_ge := Nat.two_pos }

/-- The `n`th request, which arrives at `n`. -/
def prioritized (n priority : Nat) : InferenceRequest Rat :=
  { plainRequest "a" "policy" n n with priority := priority }

def submitPrioritized (n priority : Nat) : SchedulerCall Rat :=
  .submit (momentAt n) (prioritized n priority)

/-- Two requests of these priorities are queued. -/
def queuedAt (first second : Nat) (s : AnyScheduler Rat) : AnyScheduler Rat :=
  (accountedRun s {} [submitPrioritized 0 first, submitPrioritized 1 second]).1

theorem queuedAt_reachable {config : SchedulingConfig Rat} {s : AnyScheduler Rat}
    (hs : createScheduler config = .ok s) (first second : Nat) :
    Reachable config (queuedAt first second s) :=
  .call _ _ (.call _ _ (.create hs))

/-- A request of the highest priority takes the place of one of the middle tier. -/
theorem overflow_lowest_tier_middle :
    let s := queuedAt 0 1 (.priorityTiered (.init (tieredSlots "priority_tiered")))
    (Scheduler.submit (momentAt 2) (prioritized 2 0) s).dropped = some (prioritized 1 1) ∧
      prioritized 1 1 ∈ s.tiers.getD (s.tierOf (prioritized 1 1)) [] ∧
      (∀ x ∈ s.stored, s.tierOf x ≤ s.tierOf (prioritized 1 1)) ∧
      (s.tierOf (prioritized 2 0) ≤ s.tierOf (prioritized 1 1) ↔
        ∃ x ∈ s.stored, s.tierOf (prioritized 2 0) ≤ s.tierOf x) := by
  intro s
  have hdropped : (Scheduler.submit (momentAt 2) (prioritized 2 0) s).dropped =
      some (prioritized 1 1) := by decide +kernel
  exact ⟨hdropped, overflow_lowest_tier (tieredSlots "priority_tiered") s
    (queuedAt_reachable rfl 0 1) (.priorityTiered _) _ _ _ hdropped⟩

/-- The higher tier is the one of the request that is evicted. -/
def Inverts (m : Moment Rat) (r : InferenceRequest Rat) (s : AnyScheduler Rat) : Prop :=
  ∃ dropped ∈ (Scheduler.submit m r s).dropped, s.tierOf dropped < s.tierOf r

instance (m : Moment Rat) (r : InferenceRequest Rat) (s : AnyScheduler Rat) :
    Decidable (s.Inverts m r) :=
  inferInstanceAs (Decidable (∃ _ ∈ _, _))

/-- A request of the lowest tier takes the place of one of the highest. -/
theorem overflow_inverts_priority :
    (let s := queuedAt 0 0 (.priorityTiered (.init (tieredSlots "priority_tiered")));
      Reachable (tieredSlots "priority_tiered") s ∧ s.Full ∧
        s.config.overflowPolicy = .dropOldest ∧ Inverts (momentAt 2) (prioritized 2 2) s) ∧
    (let s := queuedAt 0 0 (.tieredDeadline (.init (tieredSlots "tiered_deadline")));
      Reachable (tieredSlots "tiered_deadline") s ∧ s.Full ∧
        s.config.overflowPolicy = .dropOldest ∧ Inverts (momentAt 2) (prioritized 2 2) s) := by
  constructor
  · intro s
    have hfull : (2 : Int) ≤ s.queueLen := by decide +kernel
    exact ⟨queuedAt_reachable rfl 0 0, hfull, rfl, by decide +kernel⟩
  · intro s
    have hfull : (2 : Int) ≤ s.queueLen := by decide +kernel
    exact ⟨queuedAt_reachable rfl 0 0, hfull, rfl, by decide +kernel⟩

end AnyScheduler
end Inferential
