import Inferential.Scheduler.FifoOrder
import Inferential.Scheduler.ScoreOrder

/-!
# Sweeps — expiry and disconnection

`tick` takes the expired requests out of every queue, `on_client_disconnected` those of one client.
Both leave the other requests in their order, those of a heap while the scores are totally ordered;
beside a NaN the heap may be rebuilt into another order.  One scheduler has no
`on_client_disconnected` of its own and inherits one that does nothing.
-/

namespace Inferential

open PyStd PyStd.Heapq Machine

variable {ν : Type} [Score ν]

namespace AnyScheduler

theorem Reachable.strategy_eq {config : SchedulingConfig ν} {s : AnyScheduler ν}
    (h : Reachable config s) : s.strategy = config.strategy := by
  induction h with
  | create h =>
      rcases createScheduler_cases h with ⟨hname, rfl⟩ | ⟨hname, rfl⟩ | ⟨hname, rfl⟩ |
        ⟨hname, rfl⟩ | ⟨hname, rfl⟩ | ⟨hname, rfl⟩ <;> exact hname.symm
  | usePolicy registered policyName _ h ih =>
      rcases usePolicy_cases h with ⟨t, rfl, rfl⟩ | ⟨t, rfl, rfl⟩ | ⟨t, rfl, rfl⟩ | rfl <;> exact ih
  | @call s l c _ ih =>
      refine Eq.trans ?_ ih
      cases s <;> cases c <;> rfl
  | @nextBatchForModel s modelId _ ih =>
      refine Eq.trans ?_ ih
      cases s <;> rfl
  | nextBatchForTier tier _ ih => exact ih

/-! ## A sweep -/

theorem SweepsAll.queueAt_eq {keep : InferenceRequest ν → Bool} {s s' : AnyScheduler ν}
    (h : SweepsAll keep s s') (hs : s.Ordered) (key : QueueKey) :
    s'.queueAt key = (s.queueAt key).filter keep := by
  unfold queueAt
  rw [h.discipline]
  exact (h.sweeps key).line_eq (fun hheap => (hs.total hheap).weakOrder)
    fun hheap => hs.separated hheap key

/-- With or without the sweep, the requests of a queue that it keeps leave in the same order. -/
theorem SweepsAll.leavesAs {keep : InferenceRequest ν → Bool} {s s' : AnyScheduler ν}
    (h : SweepsAll keep s s') (hs : s.Ordered) (hinv : s.Inv) (hinv' : s'.Inv) (key : QueueKey) :
    s'.queueAt key = (s.queueAt key).filter keep ∧ s.LeavesAs (s'.queueAt key) ∧
      s'.LeavesAs (s'.queueAt key) := by
  have hline := h.queueAt_eq hs key
  have hkept := (h.acts.ordered hs).leavesAs hinv' key fun _ => true
  rw [List.filter_eq_self.mpr fun _ _ => rfl] at hkept
  refine ⟨hline, ?_, hkept⟩
  rw [hline]
  exact hs.leavesAs hinv key keep

/-! ## Expiry -/

/-- In every reachable state, `tick` at one clock reading takes out exactly the requests whose age is
above the TTL, counts them, and finds none when it is called again; and what survives of a queue
leaves it in the same order as without the `tick`, a heap under totally ordered scores. -/
theorem tick_exact (config : SchedulingConfig ν) (s : AnyScheduler ν) (hs : Reachable config s)
    (now : Rat) :
    let survives := fun r : InferenceRequest ν =>
      !decide (config.requestTtlMs < (now - r.receivedAt) * 1000)
    let ticked := Scheduler.tick (fun _ => now) s
    let again := Scheduler.tick (fun _ => now) ticked.2
    ticked.2.stored.Perm (s.stored.filter survives) ∧
      ticked.1 = (s.stored.filter fun r => !survives r).length ∧
      ticked.2.queueLen = s.queueLen - (ticked.1 : Int) ∧
      again.1 = 0 ∧ again.2.stored.Perm ticked.2.stored ∧
      ((s.discipline = .heap → TotalScores ν) → ∀ key,
        ticked.2.queueAt key = (s.queueAt key).filter survives ∧
          s.LeavesAs (ticked.2.queueAt key) ∧ ticked.2.LeavesAs (ticked.2.queueAt key)) := by
  intro survives ticked again
  have hinv : AccountedScheduler.Inv s := hs.inv
  have hconfig := hs.config_eq
  subst hconfig
  rcases AccountedScheduler.tick_spec (fun _ => now) hinv with ⟨hinv', hconfig', hperm, hcount⟩
  rcases AccountedScheduler.tick_spec (fun _ => now) hinv' with ⟨-, -, hperm', hcount'⟩
  rw [hconfig'] at hperm' hcount'
  have hstored : ticked.2.stored.Perm (s.stored.filter survives) := hperm
  have hexpired : ticked.1 = (s.stored.filter fun r => !survives r).length := by
    simp only [survives, Bool.not_not]
    exact hcount
  -- nothing that survived has expired
  have halive : ∀ r ∈ ticked.2.stored, survives r = true := fun r hr =>
    (List.mem_filter.mp (hstored.mem_iff.mp hr)).2
  refine ⟨hstored, hexpired, ?_, ?_, ?_, ?_⟩
  · have hbefore : s.queueLen = (s.stored.length : Int) := AccountedScheduler.queueLen_eq hinv
    have hafter : ticked.2.queueLen = (ticked.2.stored.length : Int) :=
      AccountedScheduler.queueLen_eq hinv'
    have hsplit := List.length_eq_length_filter_add (l := s.stored) survives
    have hlength := hstored.length_eq
    omega
  · have hagain : again.1 = (ticked.2.stored.filter fun r => !survives r).length := by
      simp only [survives, Bool.not_not]
      exact hcount'
    rw [hagain, List.filter_eq_nil_iff.mpr fun r hr => by simp [halive r hr]]
    rfl
  · have hagain : again.2.stored.Perm (ticked.2.stored.filter survives) := hperm'
    rwa [List.filter_eq_self.mpr halive] at hagain
  · intro htotal
    exact (tick_sweeps (fun _ => now) s).leavesAs (hs.ordered htotal) hs.inv hinv'

/-- Of two requests, the first is too old at the time of the `tick`. -/
theorem tick_exact_pair :
    (let s := afterCalls [submitAt 0 "e" "policy", submitAt 4 "x" "policy"];
      let ticked := Scheduler.tick (fun _ => (6 : Rat)) s
      ticked.2.stored.map InferenceRequest.clientId = ["x"] ∧ ticked.1 = 1 ∧
        (Scheduler.tick (fun _ => (6 : Rat)) ticked.2).1 = 0 ∧
        s.LeavesAs (ticked.2.queueAt (.model "policy"))) := by
  have hs := afterCalls_reachable [submitAt 0 "e" "policy", submitAt 4 "x" "policy"]
  rcases tick_exact threeSlots _ hs 6 with ⟨-, -, -, hagain, -, horder⟩
  have hleaves := horder (fun _ => totalScores) (.model "policy")
  exact ⟨by decide +kernel, by decide +kernel, hagain, hleaves.2.1⟩

/-- The observation with this urgency is submitted when it arrives. -/
def submitUrgentAt (urgency : PyFloat) (arrival : Rat) (objId : Nat) : SchedulerCall PyFloat :=
  .submit ⟨arrival, fun _ _ => .ok (.fin 0)⟩
    (Server.buildRequest urgentConfig
      { identity := [1], envelope := urgentEnvelope urgency, payload := [], receivedAt := arrival }
      (urgentDecoded urgency) 0 objId)

/-- The scores are 34, NaN, 9 and 59, and the first request arrived earlier. -/
def nanHeap : AnyScheduler PyFloat :=
  (accountedRun (.deadlineAware (.init urgentConfig.scheduling)) {}
    [submitUrgentAt (.fin 1) 0 0, submitUrgentAt .nan 4 1, submitUrgentAt (.fin 0) 4 2,
      submitUrgentAt (.fin 2) 4 3]).1

/-- A run in which the whole queue leaves tells its order. -/
theorem LeavesAs.eq_left {s : AnyScheduler ν} {queue l : List (InferenceRequest ν)}
    (h : s.LeavesAs queue) {cs : List (Turn ν)} (hcalls : cs.flatMap Turn.enqueued = [])
    (hleft : l.Sublist (gives turn s cs).1) (hmem : ∀ x ∈ l, x ∈ queue)
    (hlength : l.length = queue.length) : l = queue := by
  refine (h cs l hleft fun x hx => ⟨hmem x hx, ?_⟩).eq_of_length hlength
  rw [hcalls]
  exact fun e he => nomatch he

/-- Beside a NaN the heap is rebuilt into another order: without the `tick` the survivors leave as
59, NaN, 9, and after it as 59, 9, NaN. -/
theorem nan_tick_reorders :
    let urgencies : List PyFloat := [.fin 1, .nan, .fin 0, .fin 2]
    let ticked := (Scheduler.tick (fun _ => (6 : Rat)) nanHeap).2
    let empty : List (Turn PyFloat) := List.replicate 4 (.later (.call (.nextBatch 6)))
    (∀ urgency ∈ urgencies, decode (urgentMessages urgencies) 0 (urgentEnvelope urgency) [] 0 =
      .ok (urgentDecoded urgency)) ∧
    Reachable urgentConfig.scheduling nanHeap ∧
    (gives turn nanHeap empty).1.map InferenceRequest.objId = [0, 3, 1, 2] ∧
    (gives turn ticked empty).1.map InferenceRequest.objId = [3, 2, 1] ∧
    ¬ ∃ queue, queue.Perm ticked.stored ∧ nanHeap.LeavesAs queue ∧ ticked.LeavesAs queue := by
  intro urgencies ticked empty
  refine ⟨?_, ?_, by decide +kernel, by decide +kernel, ?_⟩
  · intro urgency hmem
    simp only [urgencies, List.mem_cons, List.not_mem_nil, or_false] at hmem
    rcases hmem with rfl | rfl | rfl | rfl <;> rfl
  · exact (Reachable.create rfl).accountedRun {} _
  · rintro ⟨queue, hperm, hbefore, hafter⟩
    have hnone : empty.flatMap Turn.enqueued = [] := by decide +kernel
    -- without the `tick` the one that would expire leaves first, and then the survivors
    have hkept : ∀ x ∈ (gives turn nanHeap empty).1.drop 1, x ∈ ticked.stored := by decide +kernel
    have hlength : ((gives turn nanHeap empty).1.drop 1).length = ticked.stored.length := by
      decide +kernel
    have hout := hbefore.eq_left hnone (List.drop_sublist 1 _)
      (fun x hx => hperm.mem_iff.mpr (hkept x hx)) (hlength.trans hperm.length_eq.symm)
    have hkept' : ∀ x ∈ (gives turn ticked empty).1, x ∈ ticked.stored := by decide +kernel
    have hlength' : (gives turn ticked empty).1.length = ticked.stored.length := by decide +kernel
    have hout' := hafter.eq_left hnone (List.Sublist.refl _)
      (fun x hx => hperm.mem_iff.mpr (hkept' x hx)) (hlength'.trans hperm.length_eq.symm)
    have hsame := congrArg (List.map InferenceRequest.objId) (hout.trans hout'.symm)
    exact absurd hsame (by decide +kernel)

/-! ## Disconnection -/

/-- What disconnecting a client is to do: its requests are gone, and nothing else changes. -/
structure TakesOut (clientId : String) (s s' : AnyScheduler ν) : Prop where
  gone : ∀ r ∈ s'.stored, r.clientId ≠ clientId
  others : s'.stored.Perm (s.stored.filter fun r => r.clientId ≠ clientId)
  order : ∀ key, s'.queueAt key = (s.queueAt key).filter (fun r => r.clientId ≠ clientId) ∧
    s.LeavesAs (s'.queueAt key) ∧ s'.LeavesAs (s'.queueAt key)
  queueLen : s'.queueLen =
    s.queueLen - ((s.stored.filter fun r => r.clientId = clientId).length : Int)

/-- A client without requests leaves everything as it is. -/
theorem TakesOut.of_absent {config : SchedulingConfig ν} {s : AnyScheduler ν}
    (hs : Reachable config s) (htotal : s.discipline = .heap → TotalScores ν) {clientId : String}
    (hnone : ∀ r ∈ s.stored, r.clientId ≠ clientId) : TakesOut clientId s s := by
  have hkeep : ∀ l : List (InferenceRequest ν), (∀ r ∈ l, r ∈ s.stored) →
      l.filter (fun r => r.clientId ≠ clientId) = l := fun l hl =>
    List.filter_eq_self.mpr fun r hr => by simpa using hnone r (hl r hr)
  have hqueue : ∀ key, ∀ r ∈ s.queueAt key, r ∈ s.stored := fun key r hr =>
    mem_stored.mpr ⟨key, mem_line.mp hr⟩
  refine ⟨hnone, ?_, fun key => ?_, ?_⟩
  · rw [hkeep _ fun _ => id]
  · have hleaves := (hs.ordered htotal).leavesAs hs.inv key fun r => r.clientId ≠ clientId
    rw [hkeep _ (hqueue key)] at hleaves ⊢
    exact ⟨rfl, hleaves, hleaves⟩
  · rw [List.filter_eq_nil_iff.mpr fun r hr => by simpa using hnone r hr]
    simp

/-- In every reachable state, disconnecting a client takes out exactly its requests, unless the
scheduler is `deadline_aware` and the client has requests queued; where requests are in heaps, the
scores are totally ordered. -/
theorem disconnected_takesOut_iff (config : SchedulingConfig ν) (s : AnyScheduler ν)
    (hs : Reachable config s) (htotal : s.discipline = .heap → TotalScores ν) (clientId : String) :
    TakesOut clientId s (Scheduler.onClientDisconnected clientId s) ↔
      config.strategy ≠ "deadline_aware" ∨ ∀ r ∈ s.stored, r.clientId ≠ clientId := by
  have hinv : AccountedScheduler.Inv s := hs.inv
  have hlength : s.queueLen = (s.stored.length : Int) := AccountedScheduler.queueLen_eq hinv
  rcases disconnected_sweeps clientId hs.kept.own with ⟨t, rfl, hsame⟩ | ⟨hother, hsweeps⟩
  · rw [hsame]
    have hstrategy : config.strategy = "deadline_aware" := hs.strategy_eq.symm
    constructor
    · exact fun htakes => .inr htakes.gone
    · rintro (hother | hnone)
      · exact absurd hstrategy hother
      · exact .of_absent hs htotal hnone
  · refine iff_of_true ?_ (.inl (hs.strategy_eq ▸ hother))
    rcases AccountedScheduler.disconnected_spec clientId hinv with ⟨hinv', -, hperm⟩
    have hstored : (Scheduler.onClientDisconnected clientId s).stored.Perm
        (s.stored.filter fun r => r.clientId ≠ clientId) := by
      refine hperm.trans (List.Perm.of_eq (List.filter_congr fun r _ => ?_))
      simp [AccountedScheduler.leaves, leaves_eq hother]
    refine ⟨fun r hr => ?_, hstored, hsweeps.leavesAs (hs.ordered htotal) hs.inv hinv', ?_⟩
    · simpa using (List.mem_filter.mp (hstored.mem_iff.mp hr)).2
    · have hlength' : (Scheduler.onClientDisconnected clientId s).queueLen =
          ((Scheduler.onClientDisconnected clientId s).stored.length : Int) :=
        AccountedScheduler.queueLen_eq hinv'
      have hsplit := List.length_eq_length_filter_add (l := s.stored)
        fun r => decide (r.clientId = clientId)
      have hfewer := hstored.length_eq
      simp only [ne_eq, decide_not] at hfewer
      omega

/-- Under `model_deadline`, the requests of one of two clients. -/
theorem disconnected_takesOut_pair :
    (let s := afterCalls [submitAt 0 "e" "policy", submitAt 4 "x" "policy"];
      TakesOut "e" s (Scheduler.onClientDisconnected "e" s)) := by
  have hs := afterCalls_reachable [submitAt 0 "e" "policy", submitAt 4 "x" "policy"]
  exact (disconnected_takesOut_iff threeSlots _ hs (fun _ => totalScores) "e").mpr (.inl (by decide))

/-- Under `deadline_aware`, the only request is still queued when its client has disconnected. -/
theorem deadlineAware_keeps_disconnected :
    Reachable oneSlot occupied ∧ occupied.strategy = "deadline_aware" ∧
      (Scheduler.onClientDisconnected "a" occupied).stored.map InferenceRequest.clientId = ["a"] ∧
      ¬ TakesOut "a" occupied (Scheduler.onClientDisconnected "a" occupied) := by
  have hclient : (Scheduler.onClientDisconnected "a" occupied).stored.map
      InferenceRequest.clientId = ["a"] := by decide +kernel
  refine ⟨occupied_reachable, rfl, hclient, fun htakes => ?_⟩
  rcases List.map_eq_singleton_iff.mp hclient with ⟨r, hstored, hr⟩
  exact htakes.gone r (by simp [hstored]) hr

end AnyScheduler
end Inferential
