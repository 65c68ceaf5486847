import Inferential.PyStd.Heapq
import Inferential.PyStd.Tiers
import Inferential.Scheduler.Accounting

/-!
# TieredDeadline — one heap per priority tier

Requests never wait behind a lower tier; within a tier the heap orders them by their score.
-/

namespace Inferential

open PyStd PyStd.Heapq

variable {ν : Type} [Score ν]

/-- `_tier_for` of both tiered schedulers: priority 0 is the highest, tier 0. -/
def tierFor (numTiers priority : Nat) : Nat := min priority (numTiers - 1)

theorem tierFor_lt {numTiers : Nat} (h : 1 ≤ numTiers) (priority : Nat) :
    tierFor numTiers priority < numTiers := by
  unfold tierFor
  omega

theorem freshTiers_length (config : SchedulingConfig ν) :
    (List.replicate config.priorityTiered.numTiers ([] : List (InferenceRequest ν))).length =
      config.priorityTiered.numTiers := List.length_replicate

structure TieredDeadlineScheduler (ν : Type) [Score ν] where
  config : SchedulingConfig ν
  tiers : List (List (InferenceRequest ν))
  counter : Nat := 0
  total : Int := 0
  policy : Option String := none
  tiers_length : tiers.length = config.priorityTiered.numTiers

namespace TieredDeadlineScheduler

/-! ## The operations -/

/-- `__init__` -/
def init (config : SchedulingConfig ν) : TieredDeadlineScheduler ν where
  config := config
  tiers := List.replicate config.priorityTiered.numTiers []
  tiers_length := freshTiers_length config

def usePolicy (registered : String → Bool) (policyName : String) (s : TieredDeadlineScheduler ν) :
    Except PyError (TieredDeadlineScheduler ν) :=
  if registered policyName then
    .ok { s with policy := some policyName }
  else
    .error (.valueError s!"Unknown policy '{policyName}'")

def computeScore (s : TieredDeadlineScheduler ν) (m : Moment ν) (r : InferenceRequest ν) :
    Except PyError ν :=
  scoreWith s.policy s.config.deadlineAware m r

def numTiers (s : TieredDeadlineScheduler ν) : Nat := s.config.priorityTiered.numTiers

def tierOf (s : TieredDeadlineScheduler ν) (r : InferenceRequest ν) : Nat :=
  tierFor s.numTiers r.priority

def resubmit (m : Moment ν) (request : InferenceRequest ν) (s : TieredDeadlineScheduler ν) :
    Submitted (TieredDeadlineScheduler ν) ν :=
  let tier := s.tierOf request
  match s.computeScore m request with
  | .error e => { state := s, raised := some e }
  | .ok score =>
      let heap := s.tiers.getD tier []
      { state := { s with
          counter := s.counter + 1
          tiers := s.tiers.set tier (heappush InferenceRequest.lt heap (request.stamp score s.counter))
          total := s.total + 1
          tiers_length := by simp [s.tiers_length] } }

/-- The oldest request of a heap is overwritten by the last one, and the heap is rebuilt. -/
def takeOldest (heap : List (InferenceRequest ν)) :
    Option (InferenceRequest ν × List (InferenceRequest ν)) :=
  match heap[oldestIdx heap]? with
  | none => none
  | some oldest => some (oldest, heapify InferenceRequest.lt (overwritePop heap (oldestIdx heap)))

theorem takeOldest_takes : Tiers.Takes (takeOldest (ν := ν)) where
  none_iff {heap} := by
    by_cases hnil : heap = []
    · simp [takeOldest, hnil]
    · have hidx := oldestIdx_lt hnil
      simp [takeOldest, hidx, hnil]
  perm {heap rest oldest} h := by
    have hne : heap ≠ [] := by
      intro hnil
      simp [takeOldest, hnil] at h
    -- `min` of a non-empty range is an index into the heap
    have hidx := oldestIdx_lt hne
    simp only [takeOldest, List.getElem?_eq_getElem hidx, Option.some.injEq, Prod.mk.injEq] at h
    obtain ⟨rfl, rfl⟩ := h
    exact (overwritePop_perm hidx).trans ((heapify_perm _ _).symm.cons _)

/-- `_drop_from_lowest_tier`, with the request it takes out. -/
def dropFromLowestTier (s : TieredDeadlineScheduler ν) :
    Option (InferenceRequest ν) × TieredDeadlineScheduler ν :=
  match h : Tiers.takeLast takeOldest s.tiers with
  | none => (none, s)
  | some (oldest, tiers) =>
      (some oldest, { s with
        tiers := tiers
        total := s.total - 1
        tiers_length := (Tiers.takeLast_some takeOldest_takes h).1.trans s.tiers_length })

def submit (m : Moment ν) (request : InferenceRequest ν) (s : TieredDeadlineScheduler ν) :
    Submitted (TieredDeadlineScheduler ν) ν :=
  if s.config.maxQueueSize ≤ s.total then
    match s.config.overflowPolicy with
    | .dropOldest =>
        -- the eviction happens before the new request is scored
        let (dropped, s') := s.dropFromLowestTier
        { s'.resubmit m request with dropped := dropped }
    | .rejectNewest => { state := s, raised := some (.queueFullError request.clientId) }
  else
    s.resubmit m request

def nextBatchForTier (tier : Nat) (s : TieredDeadlineScheduler ν) :
    List (InferenceRequest ν) × TieredDeadlineScheduler ν :=
  match heappop InferenceRequest.lt (s.tiers.getD tier []) with
  | none => ([], s)
  | some (item, heap) =>
      ([item], { s with
        tiers := s.tiers.set tier heap
        total := s.total - 1
        tiers_length := by simp [s.tiers_length] })

def queueLenForTier (tier : Nat) (s : TieredDeadlineScheduler ν) : Nat :=
  (s.tiers.getD tier []).length

def nextBatch (s : TieredDeadlineScheduler ν) :
    List (InferenceRequest ν) × TieredDeadlineScheduler ν :=
  firstBatch nextBatchForTier (List.range s.numTiers) s

/-- A tier without the requests that are not kept; it is only rebuilt when something was removed. -/
def sweepTier (keep : InferenceRequest ν → Bool) (heap : List (InferenceRequest ν)) :
    List (InferenceRequest ν) :=
  let kept := heap.filter keep
  if kept.length < heap.length then heapify InferenceRequest.lt kept else kept

/-- The common loop of `tick` and `on_client_disconnected`, with the number of removed requests. -/
def sweep (keep : InferenceRequest ν → Bool) (s : TieredDeadlineScheduler ν) :
    Nat × TieredDeadlineScheduler ν :=
  let removed := (s.tiers.map fun heap => heap.length - (sweepTier keep heap).length).sum
  (removed, { s with
    tiers := s.tiers.map (sweepTier keep)
    total := s.total - removed
    tiers_length := by simp [s.tiers_length] })

def tick (clock : InferenceRequest ν → Rat) (s : TieredDeadlineScheduler ν) :
    Nat × TieredDeadlineScheduler ν :=
  s.sweep fun r => !isExpired (clock r) s.config.requestTtlMs r

def onClientDisconnected (clientId : String) (s : TieredDeadlineScheduler ν) :
    TieredDeadlineScheduler ν :=
  (s.sweep fun r => r.clientId ≠ clientId).2

instance : Scheduler (TieredDeadlineScheduler ν) ν where
  submit := submit
  resubmit := resubmit
  nextBatch _ := nextBatch
  tick := tick
  onClientConnected _ s := s
  onClientDisconnected := onClientDisconnected
  queueLen s := s.total

/-! ## Accounting -/

/-- All queued requests. -/
def stored (s : TieredDeadlineScheduler ν) : List (InferenceRequest ν) := s.tiers.flatten

def Inv (s : TieredDeadlineScheduler ν) : Prop := TotalExact s.total s.stored

theorem init_stored (config : SchedulingConfig ν) : (init config).stored = [] := by
  simp [init, stored]

theorem init_inv (config : SchedulingConfig ν) (policy : Option String) :
    Inv { init config with policy := policy } := by
  simp [Inv, TotalExact, init, stored]

theorem tierOf_lt (s : TieredDeadlineScheduler ν) (r : InferenceRequest ν) :
    s.tierOf r < s.tiers.length := by
  rw [s.tiers_length]
  exact tierFor_lt s.config.priorityTiered.numTiers_ge r.priority

theorem resubmit_spec (m : Moment ν) (r : InferenceRequest ν) {s : TieredDeadlineScheduler ν}
    (hinv : Inv s) :
    Inv (s.resubmit m r).state ∧ (s.resubmit m r).state.config = s.config ∧
      Requeues stored r s (s.resubmit m r) := by
  unfold resubmit
  dsimp only
  cases hscore : s.computeScore m r with
  | error e => exact ⟨hinv, rfl, rfl, by simp, fun _ => rfl⟩
  | ok score =>
      have hpush := heappush_perm InferenceRequest.lt (s.tiers.getD (s.tierOf r) [])
        (r.stamp score s.counter)
      have hperm := Tiers.flatten_set_cons (s.tierOf_lt r) hpush
      refine ⟨hinv.add hperm, rfl, rfl, fun _ => ?_, by simp⟩
      exact ⟨r.stamp score s.counter, InferenceRequest.unstamped_stamp r score s.counter, hperm⟩

theorem dropFromLowestTier_spec {s : TieredDeadlineScheduler ν} (hinv : Inv s)
    (hne : s.stored ≠ []) :
    ∃ oldest s', s.dropFromLowestTier = (some oldest, s') ∧ Inv s' ∧ s'.config = s.config ∧
      s.stored.Perm (oldest :: s'.stored) := by
  unfold dropFromLowestTier
  split
  · next hnone => exact absurd ((Tiers.takeLast_none takeOldest_takes).mp hnone) hne
  · next oldest tiers hsome =>
      obtain ⟨-, hperm⟩ := Tiers.takeLast_some takeOldest_takes hsome
      exact ⟨oldest, _, rfl, hinv.remove hperm, rfl, hperm⟩

/-- A tier that gives up a request exists. -/
theorem tier_lt_of_heappop {tier : Nat} {s : TieredDeadlineScheduler ν}
    {popped : InferenceRequest ν × List (InferenceRequest ν)}
    (hpop : heappop InferenceRequest.lt (s.tiers.getD tier []) = some popped) :
    tier < s.tiers.length := by
  by_contra hge
  have hnil : s.tiers.getD tier [] = [] := by simp [not_lt.mp hge]
  rw [heappop_eq_none.mpr hnil] at hpop
  cases hpop

/-- A tier gives up its first request. -/
theorem nextBatchForTier_spec (tier : Nat) (s : TieredDeadlineScheduler ν) :
    (s.tiers.getD tier [] = [] ∧ s.nextBatchForTier tier = ([], s)) ∨
    ∃ item s', s.nextBatchForTier tier = ([item], s') ∧ s'.config = s.config ∧
      s'.total = s.total - 1 ∧ s.stored.Perm (item :: s'.stored) := by
  unfold nextBatchForTier
  cases hpop : heappop InferenceRequest.lt (s.tiers.getD tier []) with
  | none => exact Or.inl ⟨heappop_eq_none.mp hpop, rfl⟩
  | some popped =>
      obtain ⟨item, heap⟩ := popped
      exact Or.inr ⟨item, _, rfl, rfl, rfl,
        Tiers.flatten_set_drop (tier_lt_of_heappop hpop) (heappop_perm hpop)⟩

/-- Only an empty tier gives up nothing, and then nothing changes. -/
theorem nextBatchForTier_nil {tier : Nat} {s : TieredDeadlineScheduler ν}
    (h : (s.nextBatchForTier tier).1 = []) :
    s.tiers.getD tier [] = [] ∧ (s.nextBatchForTier tier).2 = s := by
  rcases s.nextBatchForTier_spec tier with ⟨hempty, heq⟩ | ⟨item, s', heq, -⟩
  · exact ⟨hempty, by rw [heq]⟩
  · simp [heq] at h

/-- The tiers are asked from the highest down, until one gives up a request. -/
theorem nextBatch_asks (s : TieredDeadlineScheduler ν) :
    ((∀ tier < s.tiers.length, s.tiers.getD tier [] = []) ∧ s.nextBatch = ([], s)) ∨
    ∃ tier, (∀ tier' < tier, s.tiers.getD tier' [] = []) ∧ (s.nextBatchForTier tier).1 ≠ [] ∧
      s.nextBatch = s.nextBatchForTier tier := by
  have hlength : s.numTiers = s.tiers.length := s.tiers_length.symm
  have hempty : ∀ tier, (s.nextBatchForTier tier).1 = [] → (s.nextBatchForTier tier).2 = s :=
    fun tier hnil => (nextBatchForTier_nil hnil).2
  rcases firstBatch_spec hempty (List.range s.numTiers) with
    ⟨hall, heq⟩ | ⟨before, tier, after, hrange, hbefore, hne, heq⟩
  · refine Or.inl ⟨fun tier htier => ?_, heq⟩
    exact (nextBatchForTier_nil (hall tier (by rwa [List.mem_range, hlength]))).1
  · refine Or.inr ⟨tier, fun tier' hlt => ?_, hne, heq⟩
    have htier : tier ∈ List.range s.numTiers := by simp [hrange]
    have hlt' : tier' < s.numTiers := hlt.trans (List.mem_range.mp htier)
    exact (nextBatchForTier_nil (hbefore tier' (Tiers.mem_before hrange hlt hlt'))).1

theorem nextBatch_cases (s : TieredDeadlineScheduler ν) :
    (s.stored = [] ∧ s.nextBatch = ([], s)) ∨
    ∃ item s', s.nextBatch = ([item], s') ∧ s'.config = s.config ∧ s'.total = s.total - 1 ∧
      s.stored.Perm (item :: s'.stored) := by
  rcases s.nextBatch_asks with ⟨hempty, heq⟩ | ⟨tier, -, hne, heq⟩
  · refine Or.inl ⟨?_, heq⟩
    have htiers : ∀ heap ∈ s.tiers, heap = [] := by
      intro heap hheap
      obtain ⟨i, hi, rfl⟩ := List.mem_iff_getElem.mp hheap
      simpa [hi] using hempty i hi
    simpa [stored] using htiers
  · rcases s.nextBatchForTier_spec tier with ⟨-, heq'⟩ | ⟨item, s', heq', hrest⟩
    · simp [heq'] at hne
    · exact Or.inr ⟨item, s', heq.trans heq', hrest⟩

theorem sweepTier_perm (keep : InferenceRequest ν → Bool) (heap : List (InferenceRequest ν)) :
    (sweepTier keep heap).Perm (heap.filter keep) := by
  unfold sweepTier
  dsimp only
  split
  · exact heapify_perm _ _
  · exact List.Perm.refl _

theorem sweep_spec (keep : InferenceRequest ν → Bool) {s : TieredDeadlineScheduler ν}
    (hinv : Inv s) :
    Inv (s.sweep keep).2 ∧ (s.sweep keep).2.config = s.config ∧
      (s.sweep keep).2.stored.Perm (s.stored.filter keep) ∧
      (s.sweep keep).1 = (s.stored.filter fun r => !keep r).length := by
  have hperm : (s.sweep keep).2.stored.Perm (s.stored.filter keep) :=
    Tiers.flatten_map_filter (sweepTier_perm keep) s.tiers
  have hcount : (s.sweep keep).1 = (s.stored.filter fun r => !keep r).length :=
    Tiers.sum_removed (sweepTier_perm keep) s.tiers
  exact ⟨hinv.sweep hperm hcount, rfl, hperm, hcount⟩

instance : AccountedScheduler (TieredDeadlineScheduler ν) ν where
  config := config
  stored := stored
  leaves _ clientId r := r.clientId = clientId
  Inv := Inv
  queueLen_eq hinv := hinv
  submit_room m r s hroom := if_neg (not_le.mpr hroom)
  submit_reject m r s hfull hpolicy := by
    have hfull' : (s.config.maxQueueSize : Int) ≤ s.total := hfull
    simp [Scheduler.submit, submit, hfull', hpolicy]
  submit_evict m r s hinv hfull hpolicy := by
    have hfull' : (s.config.maxQueueSize : Int) ≤ s.total := hfull
    have hne : s.stored ≠ [] := hinv.ne_nil s.config.maxQueueSize_ge hfull'
    obtain ⟨oldest, s', heq, hinv', hconfig, hperm⟩ := dropFromLowestTier_spec hinv hne
    refine ⟨oldest, s', hinv', hconfig, hperm, ?_⟩
    simp [Scheduler.submit, Scheduler.resubmit, submit, hfull', hpolicy, heq]
  resubmit_spec m r s hinv := resubmit_spec m r hinv
  nextBatch_spec now s hinv := by
    rcases nextBatch_cases s with ⟨hnil, heq⟩ | ⟨item, s', heq, hconfig, htotal, hperm⟩
    · simpa [Scheduler.nextBatch, heq] using hinv
    · have hinv' : Inv s' := by
        unfold Inv
        rw [htotal]
        exact hinv.remove hperm
      simpa [Scheduler.nextBatch, heq] using ⟨hinv', hconfig, hperm⟩
  tick_spec clock s hinv := by
    have hspec := sweep_spec (fun r => !isExpired (clock r) s.config.requestTtlMs r) hinv
    simpa [Scheduler.tick, tick] using hspec
  connected_spec _ s hinv := ⟨hinv, rfl, List.Perm.refl _⟩
  disconnected_spec clientId s hinv := by
    obtain ⟨hinv', hconfig, hperm, -⟩ := sweep_spec (fun r => r.clientId ≠ clientId) hinv
    refine ⟨hinv', hconfig, ?_⟩
    simpa [Scheduler.onClientDisconnected, onClientDisconnected] using hperm

/-- Only empty tiers give an empty batch. -/
theorem nextBatch_eq_nil (s : TieredDeadlineScheduler ν) : s.nextBatch.1 = [] ↔ s.stored = [] := by
  rcases nextBatch_cases s with ⟨hnil, heq⟩ | ⟨item, s', heq, -, -, hperm⟩
  · simp [heq, hnil]
  · have hne : s.stored ≠ [] := by
      intro hnil
      simp [hnil] at hperm
    simp [heq, hne]

end TieredDeadlineScheduler
end Inferential
