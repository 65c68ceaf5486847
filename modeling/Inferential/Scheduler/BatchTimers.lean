import Inferential.Machine.Guarded
import Inferential.Machine.TimedQueue
import Inferential.Scheduler.BatchOptimized
import Mathlib.Tactic.Linarith

/-!
# BatchTimers — how long requests wait for a batch

`batch_optimized` flushes a queue that is not full when its one timer has run out.  Beside the
scheduler runs an account of the times at which the queued requests were enqueued and the batches
were taken; it says what the timer means for single requests.
-/

namespace Inferential

open PyStd Machine

variable {ν : Type} [Score ν]

namespace BatchOptimizedScheduler

/-- A wait from `since` to `now` is `max_wait_ms` or longer. -/
def Waited (maxWaitMs since now : Rat) : Prop := maxWaitMs ≤ (now - since) * 1000

instance (maxWaitMs since now : Rat) : Decidable (Waited maxWaitMs since now) :=
  inferInstanceAs (Decidable (_ ≤ _))

theorem Waited.mono {maxWaitMs since since' now now' : Rat} (h : Waited maxWaitMs since' now)
    (hsince : since ≤ since') (hnow : now ≤ now') : Waited maxWaitMs since now' := by
  have hle : (now - since') * 1000 ≤ (now' - since) * 1000 := by linarith
  exact le_trans h hle

/-! ## What the calls do to the timers -/

theorem resubmit_firstArrival (now : Rat) (r : InferenceRequest ν) (s : BatchOptimizedScheduler ν)
    (modelId : String) :
    (s.resubmit now r).state.firstArrival.get? modelId =
      if modelId = r.modelId then (s.firstArrival.get? modelId).or (some now)
      else s.firstArrival.get? modelId := by
  simp only [resubmit]
  by_cases hruns : s.firstArrival.contains r.modelId = true
  · rw [if_pos hruns]
    split
    · next heq =>
        rcases Option.isSome_iff_exists.mp hruns with ⟨first, hfirst⟩
        rw [heq, hfirst]
        rfl
    · rfl
  · rw [if_neg hruns, Dict.get?_set]
    split
    · next heq =>
        have hnone : s.firstArrival.get? r.modelId = none := by simpa [Dict.contains] using hruns
        rw [heq, hnone]
        rfl
    · rfl

omit [Score ν] in
/-- A timer that is started again, or stopped where nothing is left. -/
theorem get?_rearm (timers : Dict String Rat) (modelId modelId' : String)
    (rest : List (InferenceRequest ν)) (next : Dict String Rat) :
    (if rest.isEmpty then timers.erase modelId else next).get? modelId' =
      if modelId' = modelId then if rest.isEmpty then none else next.get? modelId
      else if rest.isEmpty then timers.get? modelId' else next.get? modelId' := by
  cases rest with
  | nil => simp only [List.isEmpty_nil, if_true, Dict.get?_erase]
  | cons x rest =>
      simp only [List.isEmpty_cons, Bool.false_eq_true, if_false]
      split
      · next heq => rw [heq]
      · rfl

theorem tick_firstArrival (clock : InferenceRequest ν → Rat) (s : BatchOptimizedScheduler ν)
    (modelId : String) :
    (s.tick clock).2.firstArrival.get? modelId =
      if modelId ∈ s.byModel.keys ∧ (s.tick clock).2.queueOf modelId = [] then none
      else s.firstArrival.get? modelId := by
  have hget : (s.tick clock).2.firstArrival.get? modelId =
      if ((s.tick clock).2.byModel.get? modelId).any List.isEmpty then none
      else s.firstArrival.get? modelId := Dict.get?_foldl_erase _ _ _ _
  have hkeys : (s.tick clock).2.byModel.keys = s.byModel.keys := Dict.keys_mapValues _ _
  have hiff : ((s.tick clock).2.byModel.get? modelId).any List.isEmpty = true ↔
      modelId ∈ s.byModel.keys ∧ (s.tick clock).2.queueOf modelId = [] := by
    rw [← hkeys, Dict.mem_keys, queueOf, Dict.listAt]
    cases (s.tick clock).2.byModel.get? modelId <;> simp
  rw [hget]
  simp only [hiff]

theorem sweep_queueOf (keep : InferenceRequest ν → Bool) (s : BatchOptimizedScheduler ν)
    (modelId : String) :
    (s.sweep keep).2.queueOf modelId = (s.queueOf modelId).filter keep :=
  Dict.listAt_mapValues (List.filter_nil (p := keep)) s.byModel modelId

/-- The model that `next_batch` flushes. -/
def flushes (now : Rat) (s : BatchOptimizedScheduler ν) : Option String :=
  (s.byModel.items.find? (s.ready now)).map Prod.fst

theorem flushes_eq_none {now : Rat} {s : BatchOptimizedScheduler ν} (h : s.flushes now = none) :
    s.nextBatch now = ([], s) ∧ ∀ modelId, s.ready now (modelId, s.queueOf modelId) = false := by
  have hfind : s.byModel.items.find? (s.ready now) = none := Option.map_eq_none_iff.mp h
  refine ⟨by simp [nextBatch, hfind], fun modelId => ?_⟩
  cases hget : s.byModel.get? modelId with
  | none => simp [ready, queueOf, Dict.listAt, hget]
  | some queue =>
      have hnot := List.find?_eq_none.mp hfind (modelId, queue) (Dict.get?_eq_some.mp hget)
      simpa [queueOf, Dict.listAt, hget] using hnot

theorem flushes_eq_some {now : Rat} {s : BatchOptimizedScheduler ν} {modelId : String}
    (h : s.flushes now = some modelId) :
    s.ready now (modelId, s.queueOf modelId) = true ∧
      (s.nextBatch now).1 = (s.queueOf modelId).take s.maxBatch ∧
      (s.nextBatch now).2.byModel = s.byModel.set modelId ((s.queueOf modelId).drop s.maxBatch) ∧
      (s.nextBatch now).2.firstArrival =
        if ((s.queueOf modelId).drop s.maxBatch).isEmpty then s.firstArrival.erase modelId
        else s.firstArrival.set modelId now := by
  rcases Option.map_eq_some_iff.mp h with ⟨⟨modelId', queue⟩, hfind, rfl⟩
  have hget : s.byModel.get? modelId' = some queue :=
    Dict.get?_eq_some.mpr (List.mem_of_find?_eq_some hfind)
  have hqueue : s.queueOf modelId' = queue := by simp [queueOf, Dict.listAt, hget]
  have hready := List.find?_some hfind
  rw [hqueue]
  refine ⟨hready, ?_, ?_, ?_⟩ <;> simp [nextBatch, hfind]

/-! ## The account -/

/-- The scheduler with the account of each model's queue, and the last clock reading that a timer or
a batch went by. -/
structure Waiting (ν : Type) [Score ν] where
  scheduler : BatchOptimizedScheduler ν
  lanes : String → TimedQueue (InferenceRequest ν) Rat := fun _ => {}
  clock : Rat

namespace Waiting

def init (config : SchedulingConfig ν) (start : Rat) : Waiting ν where
  scheduler := .init config
  clock := start

/-! ## The calls -/

def enqueue (now : Rat) (r : InferenceRequest ν) (w : Waiting ν) : Waiting ν where
  scheduler := (w.scheduler.resubmit now r).state
  lanes := Function.update w.lanes r.modelId ((w.lanes r.modelId).push now r)
  clock := now

def evict (w : Waiting ν) : Waiting ν :=
  match oldestFront w.scheduler.byModel with
  | none => w
  | some (modelId, _, _) =>
      let lane := w.lanes modelId
      { w with
        scheduler := w.scheduler.dropOldest.2
        lanes := Function.update w.lanes modelId (lane.shrink lane.queue.tail) }

def flush (now : Rat) (w : Waiting ν) : Waiting ν where
  scheduler := (w.scheduler.nextBatch now).2
  lanes :=
    match w.scheduler.flushes now with
    | none => w.lanes
    | some modelId =>
        Function.update w.lanes modelId ((w.lanes modelId).flush now w.scheduler.maxBatch)
  clock := now

/-- The requests of a lane that survive a `tick`. -/
def unexpired (clock : InferenceRequest ν → Rat) (modelId : String) (w : Waiting ν) :
    List (InferenceRequest ν × Rat) :=
  (w.lanes modelId).queue.filter fun e =>
    !isExpired (clock e.1) w.scheduler.config.requestTtlMs e.1

def expire (clock : InferenceRequest ν → Rat) (w : Waiting ν) : Waiting ν :=
  { w with
    scheduler := (w.scheduler.tick clock).2
    lanes := fun modelId => (w.lanes modelId).shrink (w.unexpired clock modelId) }

/-- The requests of a lane that are not from the client. -/
def others (clientId modelId : String) (w : Waiting ν) : List (InferenceRequest ν × Rat) :=
  (w.lanes modelId).queue.filter fun e => e.1.clientId ≠ clientId

def disconnect (clientId : String) (w : Waiting ν) : Waiting ν :=
  { w with
    scheduler := w.scheduler.onClientDisconnected clientId
    lanes := fun modelId => (w.lanes modelId).leave (w.others clientId modelId) }

def submit (m : Moment ν) (r : InferenceRequest ν) (w : Waiting ν) : Waiting ν :=
  if w.scheduler.config.maxQueueSize ≤ w.scheduler.total then
    match w.scheduler.config.overflowPolicy with
    | .dropOldest => w.evict.enqueue m.now r
    | .rejectNewest => { w with clock := m.now }
  else
    w.enqueue m.now r

def step (w : Waiting ν) : SchedulerCall ν → Waiting ν
  | .submit m r => w.submit m r
  | .resubmit m r => w.enqueue m.now r
  | .nextBatch now => w.flush now
  | .tick clock => w.expire clock
  | .onClientConnected _ => w
  | .onClientDisconnected clientId => w.disconnect clientId

theorem submit_room {w : Waiting ν} (h : w.scheduler.total < w.scheduler.config.maxQueueSize)
    (m : Moment ν) (r : InferenceRequest ν) : w.submit m r = w.enqueue m.now r :=
  if_neg (not_le.mpr h)

theorem evict_scheduler (w : Waiting ν) : w.evict.scheduler = w.scheduler.dropOldest.2 := by
  unfold evict dropOldest
  split <;> simp_all

theorem submit_scheduler (m : Moment ν) (r : InferenceRequest ν) (w : Waiting ν) :
    (w.submit m r).scheduler = (w.scheduler.submit m.now r).state := by
  unfold submit BatchOptimizedScheduler.submit
  split
  · cases w.scheduler.config.overflowPolicy with
    | dropOldest => simp only [enqueue, evict_scheduler]
    | rejectNewest => rfl
  · rfl

/-- The account does not touch the scheduler. -/
theorem step_scheduler (w : Waiting ν) (c : SchedulerCall ν) :
    (w.step c).scheduler = (accountedCall w.scheduler {} c).1 := by
  cases c with
  | submit m r => exact submit_scheduler m r w
  | _ => rfl

/-- The lanes hold the queues and the timers of the scheduler. -/
structure Tracks (w : Waiting ν) : Prop where
  queue : ∀ modelId, (w.lanes modelId).queue.map Prod.fst = w.scheduler.queueOf modelId
  timer : ∀ modelId, (w.lanes modelId).timer = w.scheduler.firstArrival.get? modelId
  known : ∀ modelId, w.scheduler.firstArrival.get? modelId ≠ none →
    modelId ∈ w.scheduler.byModel.keys

namespace Tracks

theorem init (config : SchedulingConfig ν) (start : Rat) : (Waiting.init config start).Tracks where
  queue _ := rfl
  timer _ := rfl
  known _ h := absurd rfl h

theorem enqueue {w : Waiting ν} (h : w.Tracks) (now : Rat) (r : InferenceRequest ν) :
    (w.enqueue now r).Tracks where
  queue modelId := by
    simp only [Waiting.enqueue, resubmit, queueOf, Function.update_apply, Dict.listAt_set]
    split
    · next heq =>
        have hqueue := h.queue r.modelId
        simp only [queueOf] at hqueue
        simp [TimedQueue.push, hqueue]
    · exact h.queue modelId
  timer modelId := by
    have htimer := h.timer modelId
    simp only [Waiting.enqueue, resubmit_firstArrival, Function.update_apply]
    split
    · next heq =>
        subst heq
        simp [TimedQueue.push, htimer]
    · exact htimer
  known modelId hne := by
    simp only [Waiting.enqueue, resubmit_firstArrival] at hne
    refine Dict.mem_keys_set.mpr ?_
    by_cases heq : modelId = r.modelId
    · exact .inl heq
    · rw [if_neg heq] at hne
      exact .inr (h.known modelId hne)

theorem evict {w : Waiting ν} (h : w.Tracks) : w.evict.Tracks := by
  cases hfront : oldestFront w.scheduler.byModel with
  | none =>
      have hsame : w.evict = w := by simp [Waiting.evict, hfront]
      rw [hsame]
      exact h
  | some found =>
      rcases found with ⟨oldestModel, dropped, rest⟩
      have hlist := oldestFront_listAt hfront
      have hrest : (w.lanes oldestModel).queue.tail.map Prod.fst = rest := by
        have hqueue := h.queue oldestModel
        rw [queueOf, hlist] at hqueue
        rw [List.map_tail, hqueue, List.tail_cons]
      have hempty : (w.lanes oldestModel).queue.tail.isEmpty = rest.isEmpty := by
        rw [← hrest, List.isEmpty_map]
      simp only [Waiting.evict, hfront, dropOldest]
      refine ⟨fun modelId => ?_, fun modelId => ?_, fun modelId hne => ?_⟩
      · simp only [Function.update_apply, queueOf, Dict.listAt_set]
        split
        · exact hrest
        · exact h.queue modelId
      · simp only [Function.update_apply, get?_rearm]
        split
        · simp only [TimedQueue.shrink, hempty, h.timer]
        · rw [h.timer]
          split <;> rfl
      · refine Dict.mem_keys_set.mpr ?_
        by_cases heq : modelId = oldestModel
        · exact .inl heq
        · rw [get?_rearm, if_neg heq] at hne
          refine .inr (h.known modelId ?_)
          split at hne <;> exact hne

theorem flush {w : Waiting ν} (h : w.Tracks) (now : Rat) : (w.flush now).Tracks := by
  cases hflush : w.scheduler.flushes now with
  | none =>
      have hsame : w.flush now = { w with clock := now } := by
        simp [Waiting.flush, hflush, (flushes_eq_none hflush).1]
      rw [hsame]
      exact ⟨h.queue, h.timer, h.known⟩
  | some flushed =>
      rcases flushes_eq_some hflush with ⟨-, -, hqueues, htimers⟩
      have hdrop : ((w.lanes flushed).queue.drop w.scheduler.maxBatch).map Prod.fst =
          (w.scheduler.queueOf flushed).drop w.scheduler.maxBatch := by
        rw [List.map_drop, h.queue]
      have hempty : ((w.lanes flushed).queue.drop w.scheduler.maxBatch).isEmpty =
          ((w.scheduler.queueOf flushed).drop w.scheduler.maxBatch).isEmpty := by
        rw [← hdrop, List.isEmpty_map]
      simp only [Waiting.flush, hflush]
      refine ⟨fun modelId => ?_, fun modelId => ?_, fun modelId hne => ?_⟩
      · simp only [Function.update_apply, queueOf, hqueues, Dict.listAt_set]
        split
        · exact hdrop
        · exact h.queue modelId
      · simp only [Function.update_apply, htimers, get?_rearm]
        split
        · simp only [TimedQueue.flush, hempty, Dict.get?_set_self]
        · next hother => simp only [h.timer, Dict.get?_set_other _ _ hother, ite_self]
      · simp only at hne ⊢
        rw [hqueues]
        refine Dict.mem_keys_set.mpr ?_
        by_cases heq : modelId = flushed
        · exact .inl heq
        · rw [htimers, get?_rearm, if_neg heq, Dict.get?_set_other _ _ heq, ite_self] at hne
          exact .inr (h.known modelId hne)

theorem expire {w : Waiting ν} (h : w.Tracks) (clock : InferenceRequest ν → Rat) :
    (w.expire clock).Tracks := by
  have hqueue : ∀ modelId, (w.unexpired clock modelId).map Prod.fst =
      (w.scheduler.tick clock).2.queueOf modelId := by
    intro modelId
    have hsweep : (w.scheduler.tick clock).2.queueOf modelId = _ :=
      w.scheduler.sweep_queueOf _ modelId
    rw [hsweep, ← h.queue, List.filter_map]
    rfl
  refine ⟨hqueue, fun modelId => ?_, fun modelId hne => ?_⟩
  · have hempty : (w.unexpired clock modelId).isEmpty = true ↔
        (w.scheduler.tick clock).2.queueOf modelId = [] := by
      rw [← hqueue, List.map_eq_nil_iff, List.isEmpty_iff]
    simp only [Waiting.expire, TimedQueue.shrink, tick_firstArrival, hempty, h.timer]
    by_cases hknown : modelId ∈ w.scheduler.byModel.keys
    · simp only [hknown, true_and]
    · -- a model that is not known has no timer
      have hnone : w.scheduler.firstArrival.get? modelId = none := by
        by_contra hne
        exact hknown (h.known modelId hne)
      simp only [hnone, ite_self]
  · simp only [Waiting.expire, tick_firstArrival] at hne
    have hkeys : (w.scheduler.tick clock).2.byModel.keys = w.scheduler.byModel.keys :=
      Dict.keys_mapValues _ _
    have hne' : w.scheduler.firstArrival.get? modelId ≠ none := by
      split at hne
      · exact absurd rfl hne
      · exact hne
    exact hkeys ▸ h.known modelId hne'

theorem disconnect {w : Waiting ν} (h : w.Tracks) (clientId : String) :
    (w.disconnect clientId).Tracks where
  queue modelId := by
    have hsweep : (w.scheduler.onClientDisconnected clientId).queueOf modelId = _ :=
      w.scheduler.sweep_queueOf _ modelId
    show (w.others clientId modelId).map Prod.fst =
      (w.scheduler.onClientDisconnected clientId).queueOf modelId
    rw [hsweep, ← h.queue, List.filter_map]
    rfl
  timer := h.timer
  known modelId hne := by
    have hkeys : (w.scheduler.onClientDisconnected clientId).byModel.keys =
        w.scheduler.byModel.keys := Dict.keys_mapValues _ _
    exact hkeys ▸ h.known modelId hne

theorem submit {w : Waiting ν} (h : w.Tracks) (m : Moment ν) (r : InferenceRequest ν) :
    (w.submit m r).Tracks := by
  unfold Waiting.submit
  split
  · cases w.scheduler.config.overflowPolicy with
    | dropOldest => exact h.evict.enqueue m.now r
    | rejectNewest => exact ⟨h.queue, h.timer, h.known⟩
  · exact h.enqueue m.now r

theorem step {w : Waiting ν} (h : w.Tracks) (c : SchedulerCall ν) : (w.step c).Tracks := by
  cases c with
  | submit m r => exact h.submit m r
  | resubmit m r => exact h.enqueue m.now r
  | nextBatch now => exact h.flush now
  | tick clock => exact h.expire clock
  | onClientConnected clientId => exact h
  | onClientDisconnected clientId => exact h.disconnect clientId

end Tracks

/-! ## Runs -/

/-- The clock does not go back; `tick` may read it several times and changes no timer by it. -/
def InTime (w : Waiting ν) : SchedulerCall ν → Prop
  | .submit m _ => w.clock ≤ m.now
  | .resubmit m _ => w.clock ≤ m.now
  | .nextBatch now => w.clock ≤ now
  | _ => True

instance InTime.decidable (w : Waiting ν) : ∀ c, Decidable (w.InTime c)
  | .submit m _ => inferInstanceAs (Decidable (w.clock ≤ m.now))
  | .resubmit m _ => inferInstanceAs (Decidable (w.clock ≤ m.now))
  | .nextBatch now => inferInstanceAs (Decidable (w.clock ≤ now))
  | .tick _ => isTrue trivial
  | .onClientConnected _ => isTrue trivial
  | .onClientDisconnected _ => isTrue trivial

/-- A submission to the full queue evicts a request. -/
def Evicts (w : Waiting ν) : Prop :=
  (w.scheduler.config.maxQueueSize : Int) ≤ w.scheduler.total ∧
    w.scheduler.config.overflowPolicy = .dropOldest

/-- `P` holds of every lane that an eviction, an expiry or a disconnection leaves. -/
def Leaves (P : String → Rat → TimedQueue (InferenceRequest ν) Rat → Prop) (w : Waiting ν) :
    SchedulerCall ν → Prop
  | .submit m _ => w.Evicts → ∀ found ∈ oldestFront w.scheduler.byModel,
      P found.1 m.now ((w.lanes found.1).shrink (w.lanes found.1).queue.tail)
  | .tick clock =>
      ∀ modelId, P modelId w.clock ((w.lanes modelId).shrink (w.unexpired clock modelId))
  | .onClientDisconnected clientId =>
      ∀ modelId, P modelId w.clock ((w.lanes modelId).leave (w.others clientId modelId))
  | _ => True

/-- A law of the lanes that new requests and batches keep. -/
structure LaneLaw (n : Nat) (P : String → Rat → TimedQueue (InferenceRequest ν) Rat → Prop) :
    Prop where
  mono {modelId : String} {t t' : Rat} {lane : TimedQueue (InferenceRequest ν) Rat} :
    P modelId t lane → t ≤ t' → P modelId t' lane
  push {t now : Rat} {lane : TimedQueue (InferenceRequest ν) Rat} (r : InferenceRequest ν) :
    P r.modelId t lane → t ≤ now → P r.modelId now (lane.push now r)
  flush {modelId : String} {t now : Rat} {lane : TimedQueue (InferenceRequest ν) Rat} :
    P modelId t lane → t ≤ now → P modelId now (lane.flush now n)

section Law

variable {P : String → Rat → TimedQueue (InferenceRequest ν) Rat → Prop} {w : Waiting ν}

theorem LaneLaw.enqueue {n : Nat} (hlaw : LaneLaw n P) {t now : Rat} (h : ∀ m, P m t (w.lanes m))
    (hle : t ≤ now) (r : InferenceRequest ν) : ∀ m, P m now ((w.enqueue now r).lanes m) := by
  refine (Function.forall_update_iff _ fun m lane => P m now lane).mpr ⟨?_, fun m _ => ?_⟩
  · exact hlaw.push r (h r.modelId) hle
  · exact hlaw.mono (h m) hle

/-- One call keeps the law, if what it leaves does. -/
theorem LaneLaw.step (hlaw : LaneLaw w.scheduler.maxBatch P) (h : ∀ m, P m w.clock (w.lanes m))
    {c : SchedulerCall ν} (htime : w.InTime c) (hleaves : w.Leaves P c) :
    ∀ m, P m (w.step c).clock ((w.step c).lanes m) := by
  cases c with
  | submit m r =>
      show ∀ modelId, P modelId (w.submit m r).clock ((w.submit m r).lanes modelId)
      unfold submit
      split
      · next hfull =>
          cases hpolicy : w.scheduler.config.overflowPolicy with
          | dropOldest =>
              refine hlaw.enqueue (t := m.now) ?_ (le_refl _) r
              unfold evict
              split
              · exact fun modelId => hlaw.mono (h modelId) htime
              · next modelId _ _ hfront =>
                  have hleft := hleaves ⟨hfull, hpolicy⟩ _ hfront
                  exact (Function.forall_update_iff _ fun modelId lane => P modelId m.now lane).mpr
                    ⟨hleft, fun modelId _ => hlaw.mono (h modelId) htime⟩
          | rejectNewest => exact fun modelId => hlaw.mono (h modelId) htime
      · exact hlaw.enqueue h htime r
  | resubmit m r => exact hlaw.enqueue h htime r
  | nextBatch now =>
      show ∀ modelId, P modelId now ((w.flush now).lanes modelId)
      cases hflush : w.scheduler.flushes now with
      | none =>
          have hlanes : (w.flush now).lanes = w.lanes := by simp [Waiting.flush, hflush]
          rw [hlanes]
          exact fun modelId => hlaw.mono (h modelId) htime
      | some flushed =>
          have hlanes : (w.flush now).lanes = Function.update w.lanes flushed
              ((w.lanes flushed).flush now w.scheduler.maxBatch) := by
            simp [Waiting.flush, hflush]
          rw [hlanes]
          exact (Function.forall_update_iff _ fun modelId lane => P modelId now lane).mpr
            ⟨hlaw.flush (h flushed) htime, fun modelId _ => hlaw.mono (h modelId) htime⟩
  | tick clock => exact hleaves
  | onClientConnected clientId => exact h
  | onClientDisconnected clientId => exact hleaves

end Law

theorem step_config (w : Waiting ν) (c : SchedulerCall ν) :
    (w.step c).scheduler.config = w.scheduler.config := by
  have hdrop : w.scheduler.dropOldest.2.config = w.scheduler.config := by
    unfold dropOldest
    split <;> rfl
  rw [step_scheduler]
  cases c with
  | submit m r =>
      show (w.scheduler.submit m.now r).state.config = w.scheduler.config
      unfold BatchOptimizedScheduler.submit
      split
      · cases w.scheduler.config.overflowPolicy with
        | dropOldest => exact hdrop
        | rejectNewest => rfl
      · rfl
  | nextBatch now =>
      show (w.scheduler.nextBatch now).2.config = w.scheduler.config
      unfold nextBatch
      split <;> rfl
  | _ => rfl

theorem run_scheduler (w : Waiting ν) (l : Ledger ν) (cs : List (SchedulerCall ν)) :
    (cs.foldl step w).scheduler = (accountedRun w.scheduler l cs).1 := by
  induction cs generalizing w l with
  | nil => rfl
  | cons c cs ih =>
      have hledger : (accountedCall w.scheduler l c).1 = (accountedCall w.scheduler {} c).1 := by
        cases c <;> rfl
      rw [List.foldl_cons, ih _ (accountedCall w.scheduler l c).2, step_scheduler, accountedRun,
        hledger]

/-! ## How long a request waits -/

/-- The timer of the lane is not late, and the lane holds requests for its model. -/
structure TimelyLane (modelId : String) (now : Rat) (lane : TimedQueue (InferenceRequest ν) Rat) :
    Prop where
  timely : lane.Timely now
  own : ∀ e ∈ lane.queue, e.1.modelId = modelId

namespace TimelyLane

omit [Score ν] in
theorem law (n : Nat) :
    LaneLaw n (TimelyLane : _ → _ → TimedQueue (InferenceRequest ν) Rat → Prop) where
  mono h hle := ⟨h.timely.mono hle, h.own⟩
  push r h hle := by
    refine ⟨h.timely.push hle r, fun e he => ?_⟩
    rcases List.mem_append.mp he with hold | hnew
    · exact h.own e hold
    · rw [List.mem_singleton.mp hnew]
  flush h hle := ⟨h.timely.flush hle n, fun e he => h.own e (List.mem_of_mem_drop he)⟩

section Leaving

variable {modelId : String} {now : Rat} {lane : TimedQueue (InferenceRequest ν) Rat}
  {rest : List (InferenceRequest ν × Rat)}

omit [Score ν] in
theorem shrink (h : TimelyLane modelId now lane) (hsub : ∀ e ∈ rest, e ∈ lane.queue) :
    TimelyLane modelId now (lane.shrink rest) :=
  ⟨h.timely.shrink hsub, fun e he => h.own e (hsub e he)⟩

omit [Score ν] in
theorem leave (h : TimelyLane modelId now lane) (hsub : ∀ e ∈ rest, e ∈ lane.queue) :
    TimelyLane modelId now (lane.leave rest) :=
  ⟨h.timely.leave hsub, fun e he => h.own e (hsub e he)⟩

end Leaving

/-- The timer is not made late by requests that leave. -/
theorem leaves {w : Waiting ν} (h : ∀ m, TimelyLane m w.clock (w.lanes m)) {c : SchedulerCall ν}
    (htime : w.InTime c) : w.Leaves TimelyLane c := by
  cases c with
  | submit m r =>
      intro _ found _
      have hlane := (law 0).mono (h found.1) htime
      exact hlane.shrink fun e => List.mem_of_mem_tail
  | tick clock =>
      intro modelId
      exact (h modelId).shrink fun e => List.mem_of_mem_filter
  | onClientDisconnected clientId =>
      intro modelId
      exact (h modelId).leave fun e => List.mem_of_mem_filter
  | _ => trivial

end TimelyLane

/-- What holds in every run in time. -/
structure Sound (config : SchedulingConfig ν) (w : Waiting ν) : Prop where
  config_eq : w.scheduler.config = config
  tracks : w.Tracks
  lanes : ∀ modelId, TimelyLane modelId w.clock (w.lanes modelId)

namespace Sound

theorem init (config : SchedulingConfig ν) (start : Rat) : (Waiting.init config start).Sound config where
  config_eq := rfl
  tracks := .init config start
  lanes _ := ⟨.empty start, nofun⟩

theorem step {config : SchedulingConfig ν} {w : Waiting ν} (h : w.Sound config)
    {c : SchedulerCall ν} (htime : w.InTime c) : (w.step c).Sound config where
  config_eq := (w.step_config c).trans h.config_eq
  tracks := h.tracks.step c
  lanes := (TimelyLane.law _).step h.lanes htime (TimelyLane.leaves h.lanes htime)

theorem run {config : SchedulingConfig ν} {w : Waiting ν} (h : w.Sound config)
    {cs : List (SchedulerCall ν)} (htime : Along Waiting.step InTime w cs) :
    (cs.foldl Waiting.step w).Sound config := by
  induction cs generalizing w with
  | nil => exact h
  | cons c cs ih => exact ih (h.step htime.1) htime.2

end Sound

/-- A queue is ready when it is full or its timer has run out. -/
theorem ready_iff {now : Rat} {s : BatchOptimizedScheduler ν} {modelId : String} :
    s.ready now (modelId, s.queueOf modelId) = true ↔ s.queueOf modelId ≠ [] ∧
      (s.maxBatch ≤ (s.queueOf modelId).length ∨ Waited s.config.batchOptimized.maxWaitMs
        ((s.firstArrival.get? modelId).getD now) now) := by
  simp [ready, Waited]

/-- A queue that is ready makes a batch, of this model or of another. -/
theorem nextBatch_ne_nil {now : Rat} {s : BatchOptimizedScheduler ν} {modelId : String}
    (h : s.ready now (modelId, s.queueOf modelId) = true) : (s.nextBatch now).1 ≠ [] := by
  cases hflush : s.flushes now with
  | none =>
      have hnot := (flushes_eq_none hflush).2 modelId
      rw [h] at hnot
      cases hnot
  | some flushed =>
      rcases flushes_eq_some hflush with ⟨hready, hbatch, -, -⟩
      have hne := (ready_iff.mp hready).1
      have hmax : s.maxBatch ≠ 0 := Nat.ne_of_gt s.config.batchOptimized.maxBatchSize_ge
      rw [hbatch]
      simp [List.take_eq_nil_iff, hne, hmax]

/-- In every run in time: where a request was enqueued `max_wait_ms` ago or earlier, and the last
batch was taken from its queue as long ago, `next_batch` returns a batch. -/
theorem wait_bounded (config : SchedulingConfig ν) (start : Rat) (cs : List (SchedulerCall ν))
    (htime : Along step InTime (init config start) cs) :
    let w := cs.foldl step (init config start)
    w.scheduler = (accountedRun (BatchOptimizedScheduler.init config) {} cs).1 ∧
      (∀ modelId, (w.lanes modelId).queue.map Prod.fst = w.scheduler.queueOf modelId) ∧
      ∀ t, w.clock ≤ t → ∀ modelId, ∀ e ∈ (w.lanes modelId).queue,
        Waited config.batchOptimized.maxWaitMs e.2 t →
          (∀ last ∈ (w.lanes modelId).flushed, Waited config.batchOptimized.maxWaitMs last t) →
            (w.scheduler.nextBatch t).1 ≠ [] := by
  intro w
  have hsound : w.Sound config := (Sound.init config start).run htime
  refine ⟨run_scheduler _ {} cs, hsound.tracks.queue, ?_⟩
  intro t _ modelId e he hlong hlast
  rcases (hsound.lanes modelId).timely.runs_out Waited.mono he hlong hlast with
    ⟨first, htimer, hout⟩
  have hready : w.scheduler.ready t (modelId, w.scheduler.queueOf modelId) = true := by
    refine ready_iff.mpr ⟨?_, .inr ?_⟩
    · rw [← hsound.tracks.queue]
      exact List.ne_nil_of_mem (List.mem_map_of_mem he)
    · rw [← hsound.tracks.timer, htimer, hsound.config_eq]
      exact hout
  exact nextBatch_ne_nil hready

/-! ### Batches of two -/

/-- Two requests make a batch, and a wait is 10 ms. -/
def pairs : SchedulingConfig Rat :=
  { plainConfig.scheduling with
    strategy := "batch_optimized"
    batchOptimized := { plainConfig.scheduling.batchOptimized with
      maxBatchSize := 2
      maxBatchSize_ge := Nat.two_pos } }

/-- A client submits its request at the time `ms`. -/
def submitMs (clientId : String) (ms : Rat) : SchedulerCall Rat :=
  .submit { now := ms / 1000, policy := fun _ _ => .ok 0 }
    (plainRequest clientId "policy" (ms / 1000) 0)

/-- The third of three requests, 10 ms after it came and 10 ms after the batch of the others. -/
theorem wait_bounded_third :
    let w := [submitMs "a" 0, submitMs "b" 0, submitMs "c" 0, .nextBatch 0].foldl step
      (init pairs 0)
    (w.scheduler.nextBatch (10 / 1000)).1 ≠ [] := by
  intro w
  have hbound := wait_bounded pairs 0
    [submitMs "a" 0, submitMs "b" 0, submitMs "c" 0, .nextBatch 0] (by decide +kernel)
  exact hbound.2.2 (10 / 1000) (by decide +kernel) "policy"
    (plainRequest "c" "policy" (0 / 1000) 0, 0 / 1000) (by decide +kernel) (by decide +kernel)
    (by decide +kernel)

/-- Where a request was enqueued `max_wait_ms` ago or earlier, `next_batch` returns a batch. -/
def BoundsWait (w : Waiting ν) : Prop :=
  ∀ t, w.clock ≤ t → ∀ modelId, ∀ e ∈ (w.lanes modelId).queue,
    Waited w.scheduler.config.batchOptimized.maxWaitMs e.2 t → (w.scheduler.nextBatch t).1 ≠ []

/-- After a batch at 9 ms, the third request still waits at 10 ms. -/
theorem partial_flush_restarts_wait :
    let cs := [submitMs "a" 0, submitMs "b" 0, submitMs "c" 0, .nextBatch (9 / 1000)]
    Along step InTime (init pairs 0) cs ∧ ¬ BoundsWait (cs.foldl step (init pairs 0)) := by
  intro cs
  refine ⟨by decide +kernel, fun hbounds => ?_⟩
  refine hbounds (10 / 1000) (by decide +kernel) "policy"
    (plainRequest "c" "policy" (0 / 1000) 0, 0 / 1000) (by decide +kernel) (by decide +kernel) ?_
  decide +kernel

/-! ## Batches that come too early -/

/-- The timers run for the queues that are not empty, and a batch is taken from a queue only when it
is full or one of its requests has waited long enough. -/
structure Prompt (w : Waiting ν) : Prop where
  timers : ∀ modelId, w.scheduler.firstArrival.contains modelId = true ↔
    w.scheduler.queueOf modelId ≠ []
  batches : ∀ t, w.clock ≤ t → ∀ r ∈ (w.scheduler.nextBatch t).1,
    w.scheduler.maxBatch ≤ (w.scheduler.queueOf r.modelId).length ∨
      ∃ e ∈ (w.lanes r.modelId).queue, Waited w.scheduler.config.batchOptimized.maxWaitMs e.2 t

/-- The requests that stay in a queue justify its timer. -/
def Justifies (now : Rat) (modelId : String) (rest : List (InferenceRequest ν × Rat))
    (w : Waiting ν) : Prop :=
  TimedQueue.Justified (Waited w.scheduler.config.batchOptimized.maxWaitMs) w.scheduler.maxBatch now
    (w.lanes modelId).timer rest

/-- Evictions, expiries and disconnections leave requests that justify the timers, and
disconnections take the last request from no queue. -/
def KeepsTimers (w : Waiting ν) : SchedulerCall ν → Prop
  | .submit m _ => w.Evicts → ∀ found ∈ oldestFront w.scheduler.byModel,
      w.Justifies m.now found.1 (w.lanes found.1).queue.tail
  | .tick clock => ∀ modelId, w.Justifies w.clock modelId (w.unexpired clock modelId)
  | .onClientDisconnected clientId => ∀ modelId,
      (w.others clientId modelId = [] → (w.lanes modelId).queue = []) ∧
        w.Justifies w.clock modelId (w.others clientId modelId)
  | _ => True

/-- The timer of the lane is neither late nor early. -/
structure ExactLane (maxWaitMs : Rat) (n : Nat) (modelId : String) (now : Rat)
    (lane : TimedQueue (InferenceRequest ν) Rat) : Prop extends TimelyLane modelId now lane where
  inStep : lane.InStep
  justified : TimedQueue.Justified (Waited maxWaitMs) n now lane.timer lane.queue

namespace ExactLane

omit [Score ν] in
theorem law (maxWaitMs : Rat) (n : Nat) : LaneLaw n
    (ExactLane maxWaitMs n : _ → _ → TimedQueue (InferenceRequest ν) Rat → Prop) where
  mono h hle := ⟨(TimelyLane.law n).mono h.toTimelyLane hle, h.inStep,
    h.justified.mono Waited.mono hle⟩
  push r h hle := ⟨(TimelyLane.law n).push r h.toTimelyLane hle, .push _ _ _,
    h.justified.push Waited.mono h.inStep hle r⟩
  flush h hle := ⟨(TimelyLane.law n).flush h.toTimelyLane hle, .flush _ _ _,
    .flush h.timely hle n⟩

theorem leaves {w : Waiting ν} {maxWaitMs : Rat}
    (hwait : w.scheduler.config.batchOptimized.maxWaitMs = maxWaitMs)
    (h : ∀ m, ExactLane maxWaitMs w.scheduler.maxBatch m w.clock (w.lanes m))
    {c : SchedulerCall ν} (htime : w.InTime c) (hkeeps : w.KeepsTimers c) :
    w.Leaves (ExactLane maxWaitMs w.scheduler.maxBatch) c := by
  subst hwait
  have htimely := TimelyLane.leaves (fun m => (h m).toTimelyLane) htime
  cases c with
  | submit m r =>
      intro hevicts found hfound
      exact ⟨htimely hevicts found hfound, (h found.1).inStep.shrink fun e => List.mem_of_mem_tail,
        .shrink (hkeeps hevicts found hfound)⟩
  | tick clock =>
      intro modelId
      exact ⟨htimely modelId, (h modelId).inStep.shrink fun e => List.mem_of_mem_filter,
        .shrink (hkeeps modelId)⟩
  | onClientDisconnected clientId =>
      intro modelId
      rcases hkeeps modelId with ⟨hempty, hjustified⟩
      have hiff : w.others clientId modelId = [] ↔ (w.lanes modelId).queue = [] :=
        ⟨hempty, fun hnil => by simp [others, hnil]⟩
      exact ⟨htimely modelId, (h modelId).inStep.leave hiff, hjustified⟩
  | _ => trivial

end ExactLane

/-- What holds in every run that keeps the timers. -/
structure Exact (config : SchedulingConfig ν) (w : Waiting ν) : Prop extends Sound config w where
  exact : ∀ modelId, ExactLane config.batchOptimized.maxWaitMs config.batchOptimized.maxBatchSize
    modelId w.clock (w.lanes modelId)

namespace Exact

variable {config : SchedulingConfig ν} {w : Waiting ν}

theorem init (config : SchedulingConfig ν) (start : Rat) :
    (Waiting.init config start).Exact config where
  toSound := .init config start
  exact modelId := ⟨(Sound.init config start).lanes modelId, by simp [TimedQueue.InStep, Waiting.init],
    .inl rfl⟩

theorem step (h : w.Exact config) {c : SchedulerCall ν} (htime : w.InTime c)
    (hkeeps : w.KeepsTimers c) : (w.step c).Exact config where
  toSound := h.toSound.step htime
  exact := by
    have hconfig := h.config_eq
    subst hconfig
    exact (ExactLane.law _ _).step h.exact htime (ExactLane.leaves rfl h.exact htime hkeeps)

theorem prompt (h : w.Exact config) : w.Prompt where
  timers modelId := by
    have hstep := (h.exact modelId).inStep
    unfold TimedQueue.InStep at hstep
    rw [h.tracks.timer] at hstep
    rw [Dict.contains, hstep, ← h.tracks.queue, Ne, Ne, List.map_eq_nil_iff]
  batches t ht r hr := by
    cases hflush : w.scheduler.flushes t with
    | none =>
        rw [(flushes_eq_none hflush).1] at hr
        cases hr
    | some flushed =>
        rcases flushes_eq_some hflush with ⟨hready, hbatch, -, -⟩
        rcases ready_iff.mp hready with ⟨hne, hwhy⟩
        rw [hbatch] at hr
        have hlane := h.exact flushed
        have hown : r.modelId = flushed := by
          have hmem := List.mem_of_mem_take hr
          rw [← h.tracks.queue] at hmem
          rcases List.mem_map.mp hmem with ⟨e, he, rfl⟩
          exact hlane.own e he
        rw [hown]
        rcases hwhy with hfull | hout
        · exact .inl hfull
        · have hqueue : (w.lanes flushed).queue ≠ [] := by
            rw [← h.tracks.queue] at hne
            exact fun hnil => hne (by rw [hnil]; rfl)
          have hlong := hlane.justified.prompt Waited.mono hqueue ht fun first hfirst => by
            rw [h.tracks.timer] at hfirst
            rw [hfirst, h.config_eq] at hout
            exact hout
          rw [← h.tracks.queue, List.length_map, maxBatch, h.config_eq]
          exact hlong

end Exact

/-- In every run in time whose calls keep the timers, no batch is taken too early and the timers run
for the queues that are not empty, in every state. -/
theorem prompt_throughout (config : SchedulingConfig ν) (start : Rat)
    (cs : List (SchedulerCall ν))
    (hcalls : Along step (fun w c => w.InTime c ∧ w.KeepsTimers c) (init config start) cs) :
    Throughout step (fun w => w.Tracks ∧ w.Prompt) (init config start) cs ∧
      (cs.foldl step (init config start)).scheduler =
        (accountedRun (BatchOptimizedScheduler.init config) {} cs).1 := by
  refine ⟨?_, run_scheduler _ {} cs⟩
  exact throughout_of_inv (Exact config) (fun w c h hc => h.step hc.1 hc.2)
    (fun w h => ⟨h.tracks, h.prompt⟩) (.init config start) hcalls

/-- The request of `b` leaves, and the timer is that of `a`. -/
theorem prompt_throughout_two :
    let cs := [submitMs "a" 0, submitMs "b" 5, .onClientDisconnected "b", .nextBatch (10 / 1000)]
    Throughout step (fun w => w.Tracks ∧ w.Prompt) (init pairs 0) cs ∧
      (cs.foldl step (init pairs 0)).scheduler =
        (accountedRun (BatchOptimizedScheduler.init pairs) {} cs).1 := by
  intro cs
  refine prompt_throughout pairs 0 cs ⟨⟨by decide +kernel, nofun⟩, ⟨by decide +kernel, nofun⟩,
    ⟨trivial, fun modelId => ?_⟩, ⟨by decide +kernel, trivial⟩, trivial⟩
  by_cases hmodel : modelId = "policy"
  · subst hmodel
    refine ⟨by decide +kernel, .inr (.inr ?_)⟩
    refine ⟨(plainRequest "a" "policy" (0 / 1000) 0, 0 / 1000), by decide +kernel, .inl ?_⟩
    exact ⟨0 / 1000, by decide +kernel, le_refl _⟩
  · have hfirst : (init pairs 0).step (submitMs "a" 0) =
        (init pairs 0).enqueue (0 / 1000) (plainRequest "a" "policy" (0 / 1000) 0) :=
      submit_room (by decide +kernel) _ _
    have hsecond : ((init pairs 0).step (submitMs "a" 0)).step (submitMs "b" 5) =
        ((init pairs 0).step (submitMs "a" 0)).enqueue (5 / 1000)
          (plainRequest "b" "policy" (5 / 1000) 0) :=
      submit_room (by decide +kernel) _ _
    -- no other model has a request
    have hlane : (((init pairs 0).step (submitMs "a" 0)).step (submitMs "b" 5)).lanes modelId =
        {} := by
      rw [hsecond, hfirst]
      simp [enqueue, init, plainRequest, hmodel]
    unfold others Justifies
    rw [hlane]
    exact ⟨fun _ => rfl, .inl rfl⟩

/-- When the last request of a queue leaves with its client, the timer stays.  The next request is
flushed by it after 1 ms, and so is one that stands behind a request that leaves. -/
theorem stale_timer_flushes_early :
    let left := [submitMs "a" 0, .onClientDisconnected "a"]
    let next := [submitMs "a" 0, .onClientDisconnected "a", submitMs "b" 9]
    let behind := [submitMs "a" 0, submitMs "b" 9, .onClientDisconnected "a"]
    let w (cs : List (SchedulerCall Rat)) := cs.foldl step (init pairs 0)
    let flushed (cs : List (SchedulerCall Rat)) :=
      ((w cs).scheduler.nextBatch (10 / 1000)).1.map InferenceRequest.clientId
    (Along step InTime (init pairs 0) left ∧ (w left).scheduler.queueOf "policy" = [] ∧
      (w left).scheduler.firstArrival.contains "policy" = true ∧ ¬ (w left).Prompt) ∧
    (Along step InTime (init pairs 0) next ∧ flushed next = ["b"] ∧ ¬ (w next).Prompt) ∧
    Along step InTime (init pairs 0) behind ∧ flushed behind = ["b"] ∧ ¬ (w behind).Prompt := by
  intro left next behind w flushed
  refine ⟨⟨by decide +kernel, by decide +kernel, by decide +kernel, fun h => ?_⟩,
    ⟨by decide +kernel, by decide +kernel, fun h => ?_⟩,
    by decide +kernel, by decide +kernel, fun h => ?_⟩
  · have hempty : (w left).scheduler.queueOf "policy" = [] := by decide +kernel
    exact (h.timers "policy").mp (by decide +kernel) hempty
  · have hnext := h.batches (10 / 1000) (by decide +kernel)
      (plainRequest "b" "policy" (9 / 1000) 0) (by decide +kernel)
    revert hnext
    decide +kernel
  · have hnext := h.batches (10 / 1000) (by decide +kernel)
      (plainRequest "b" "policy" (9 / 1000) 0) (by decide +kernel)
    revert hnext
    decide +kernel

end Waiting
end BatchOptimizedScheduler
end Inferential
