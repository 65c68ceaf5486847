import Inferential.Scheduler.TieredDeadline

/-!
# PriorityTiered — one FIFO queue per priority tier
-/

namespace Inferential

open PyStd

variable {ν : Type} [Score ν]

structure PriorityTieredScheduler (ν : Type) [Score ν] where
  config : SchedulingConfig ν
  tiers : List (List (InferenceRequest ν))
  total : Int := 0
  tiers_length : tiers.length = config.priorityTiered.numTiers

namespace PriorityTieredScheduler

/-! ## The operations -/

/-- `__init__` -/
def init (config : SchedulingConfig ν) : PriorityTieredScheduler ν where
  config := config
  tiers := List.replicate config.priorityTiered.numTiers []
  tiers_length := freshTiers_length config

def tierOf (s : PriorityTieredScheduler ν) (r : InferenceRequest ν) : Nat :=
  tierFor s.config.priorityTiered.numTiers r.priority

def resubmit (request : InferenceRequest ν) (s : PriorityTieredScheduler ν) :
    Submitted (PriorityTieredScheduler ν) ν :=
  let tier := s.tierOf request
  { state := { s with
      tiers := s.tiers.set tier (s.tiers.getD tier [] ++ [request])
      total := s.total + 1
      tiers_length := by simp [s.tiers_length] } }

/-- `_drop_oldest`: the front of the lowest-priority tier that is not empty. -/
def dropOldest (s : PriorityTieredScheduler ν) :
    Option (InferenceRequest ν) × PriorityTieredScheduler ν :=
  match h : Tiers.takeLast Tiers.popleft s.tiers with
  | none => (none, s)
  | some (dropped, tiers) =>
      (some dropped, { s with
        tiers := tiers
        total := s.total - 1
        tiers_length := (Tiers.takeLast_some Tiers.popleft_takes h).1.trans s.tiers_length })

def submit (request : InferenceRequest ν) (s : PriorityTieredScheduler ν) :
    Submitted (PriorityTieredScheduler ν) ν :=
  if s.config.maxQueueSize ≤ s.total then
    match s.config.overflowPolicy with
    | .dropOldest =>
        -- the eviction happens before the new request is queued
        let (dropped, s') := s.dropOldest
        { s'.resubmit request with dropped := dropped }
    | .rejectNewest => { state := s, raised := some (.queueFullError request.clientId) }
  else
    s.resubmit request

/-- Strict priority: the front of the highest tier that is not empty. -/
def nextBatch (s : PriorityTieredScheduler ν) :
    List (InferenceRequest ν) × PriorityTieredScheduler ν :=
  match h : Tiers.takeFirst Tiers.popleft s.tiers with
  | none => ([], s)
  | some (request, tiers) =>
      ([request], { s with
        tiers := tiers
        total := s.total - 1
        tiers_length := (Tiers.takeFirst_some Tiers.popleft_takes h).1.trans s.tiers_length })

/-- The common loop of `tick` and `on_client_disconnected`, with the number of removed requests. -/
def sweep (keep : InferenceRequest ν → Bool) (s : PriorityTieredScheduler ν) :
    Nat × PriorityTieredScheduler ν :=
  let removed := (s.tiers.map fun tier => tier.length - (tier.filter keep).length).sum
  (removed, { s with
    tiers := s.tiers.map fun tier => tier.filter keep
    total := s.total - removed
    tiers_length := by simp [s.tiers_length] })

def tick (clock : InferenceRequest ν → Rat) (s : PriorityTieredScheduler ν) :
    Nat × PriorityTieredScheduler ν :=
  s.sweep fun r => !isExpired (clock r) s.config.requestTtlMs r

def onClientDisconnected (clientId : String) (s : PriorityTieredScheduler ν) :
    PriorityTieredScheduler ν :=
  (s.sweep fun r => r.clientId ≠ clientId).2

instance : Scheduler (PriorityTieredScheduler ν) ν where
  submit _ := submit
  resubmit _ := resubmit
  nextBatch _ := nextBatch
  tick := tick
  onClientConnected _ s := s
  onClientDisconnected := onClientDisconnected
  queueLen s := s.total

/-! ## Accounting -/

/-- All queued requests. -/
def stored (s : PriorityTieredScheduler ν) : List (InferenceRequest ν) := s.tiers.flatten

def Inv (s : PriorityTieredScheduler ν) : Prop := TotalExact s.total s.stored

theorem init_stored (config : SchedulingConfig ν) : (init config).stored = [] := by
  simp [init, stored]

theorem init_inv (config : SchedulingConfig ν) : Inv (init config) := by
  simp [Inv, TotalExact, init, stored]

theorem tierOf_lt (s : PriorityTieredScheduler ν) (r : InferenceRequest ν) :
    s.tierOf r < s.tiers.length := by
  rw [s.tiers_length]
  exact tierFor_lt s.config.priorityTiered.numTiers_ge r.priority

theorem resubmit_stored (r : InferenceRequest ν) (s : PriorityTieredScheduler ν) :
    (s.resubmit r).state.stored.Perm (r :: s.stored) :=
  Tiers.flatten_set_cons (s.tierOf_lt r) (List.perm_append_singleton r _)

theorem dropOldest_spec {s : PriorityTieredScheduler ν} (hinv : Inv s) (hne : s.stored ≠ []) :
    ∃ oldest s', s.dropOldest = (some oldest, s') ∧ Inv s' ∧ s'.config = s.config ∧
      s.stored.Perm (oldest :: s'.stored) := by
  unfold dropOldest
  split
  · next hnone => exact absurd ((Tiers.takeLast_none Tiers.popleft_takes).mp hnone) hne
  · next oldest tiers hsome =>
      obtain ⟨-, hperm⟩ := Tiers.takeLast_some Tiers.popleft_takes hsome
      exact ⟨oldest, _, rfl, hinv.remove hperm, rfl, hperm⟩

theorem nextBatch_cases {s : PriorityTieredScheduler ν} (hinv : Inv s) :
    (s.stored = [] ∧ s.nextBatch = ([], s)) ∨
    ∃ request s', s.nextBatch = ([request], s') ∧ Inv s' ∧ s'.config = s.config ∧
      s.stored.Perm (request :: s'.stored) := by
  unfold nextBatch
  split
  · next hnone => exact Or.inl ⟨(Tiers.takeFirst_none Tiers.popleft_takes).mp hnone, rfl⟩
  · next request tiers hsome =>
      obtain ⟨-, hperm⟩ := Tiers.takeFirst_some Tiers.popleft_takes hsome
      exact Or.inr ⟨request, _, rfl, hinv.remove hperm, rfl, hperm⟩

theorem sweep_spec (keep : InferenceRequest ν → Bool) {s : PriorityTieredScheduler ν}
    (hinv : Inv s) :
    Inv (s.sweep keep).2 ∧ (s.sweep keep).2.config = s.config ∧
      (s.sweep keep).2.stored.Perm (s.stored.filter keep) ∧
      (s.sweep keep).1 = (s.stored.filter fun r => !keep r).length := by
  have hperm : (s.sweep keep).2.stored.Perm (s.stored.filter keep) :=
    Tiers.flatten_map_filter (fun tier => List.Perm.refl (tier.filter keep)) s.tiers
  have hcount : (s.sweep keep).1 = (s.stored.filter fun r => !keep r).length :=
    Tiers.sum_removed (fun tier => List.Perm.refl (tier.filter keep)) s.tiers
  exact ⟨hinv.sweep hperm hcount, rfl, hperm, hcount⟩

instance : AccountedScheduler (PriorityTieredScheduler ν) ν where
  config := config
  stored := stored
  leaves _ clientId r := r.clientId = clientId
  Inv := Inv
  queueLen_eq hinv := hinv
  submit_room m r s hroom := if_neg (not_le.mpr hroom)
  submit_reject m r s hfull hpolicy := by
    have hfull' : (s.config.maxQueueSize : Int) ≤ s.total := hfull
    simp [Scheduler.submit, submit, hfull', hpolicy]
  submit_evict m r s hinv hfull hpolicy := by
    have hfull' : (s.config.maxQueueSize : Int) ≤ s.total := hfull
    have hne : s.stored ≠ [] := hinv.ne_nil s.config.maxQueueSize_ge hfull'
    obtain ⟨oldest, s', heq, hinv', hconfig, hperm⟩ := dropOldest_spec hinv hne
    refine ⟨oldest, s', hinv', hconfig, hperm, ?_⟩
    simp [Scheduler.submit, Scheduler.resubmit, submit, hfull', hpolicy, heq]
  resubmit_spec m r s hinv := by
    have hperm := s.resubmit_stored r
    refine ⟨hinv.add hperm, rfl, rfl, fun _ => ⟨r, rfl, hperm⟩, fun hraised => ?_⟩
    exact absurd rfl hraised
  nextBatch_spec now s hinv := by
    rcases nextBatch_cases hinv with ⟨hnil, heq⟩ | ⟨request, s', heq, hinv', hconfig, hperm⟩
    · simpa [Scheduler.nextBatch, heq] using hinv
    · simpa [Scheduler.nextBatch, heq] using ⟨hinv', hconfig, hperm⟩
  tick_spec clock s hinv := by
    have hspec := sweep_spec (fun r => !isExpired (clock r) s.config.requestTtlMs r) hinv
    simpa [Scheduler.tick, tick] using hspec
  connected_spec _ s hinv := ⟨hinv, rfl, List.Perm.refl _⟩
  disconnected_spec clientId s hinv := by
    obtain ⟨hinv', hconfig, hperm, -⟩ := sweep_spec (fun r => r.clientId ≠ clientId) hinv
    refine ⟨hinv', hconfig, ?_⟩
    simpa [Scheduler.onClientDisconnected, onClientDisconnected] using hperm

/-- Only empty tiers give an empty batch. -/
theorem nextBatch_eq_nil {s : PriorityTieredScheduler ν} (hinv : Inv s) :
    s.nextBatch.1 = [] ↔ s.stored = [] := by
  rcases nextBatch_cases hinv with ⟨hnil, heq⟩ | ⟨request, s', heq, -, -, hperm⟩
  · simp [heq, hnil]
  · have hne : s.stored ≠ [] := by
      intro hnil
      simp [hnil] at hperm
    simp [heq, hne]

end PriorityTieredScheduler
end Inferential
