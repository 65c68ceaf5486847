import Inferential.Machine.Guarded
import Inferential.Scheduler.Atomicity

/-!
# DequeEviction — which request the deque schedulers evict

`round_robin` and `batch_optimized` compare the fronts of their deques.  That finds an oldest
request as long as one stands at the front of its deque.  New requests arrive in the order of time,
so only a retry, which is appended like a new request, can stand behind younger ones.
-/

namespace Inferential

open PyStd Machine

variable {ν : Type} [Score ν]

/-! ## Fronts -/

/-- A request that arrived before all others stands at the front of its deque. -/
def OldestAtFront (deques : Dict String (List (InferenceRequest ν))) : Prop :=
  ∃ key front rest, deques.listAt key = front :: rest ∧
    ∀ x ∈ deques.flatten, front.receivedAt ≤ x.receivedAt

/-- The deques are in the order of arrival. -/
def ArrivalSorted (deques : Dict String (List (InferenceRequest ν))) : Prop :=
  ∀ key, (deques.listAt key).Pairwise fun x y => x.receivedAt ≤ y.receivedAt

omit [Score ν] in
/-- No front arrived before the one that is chosen. -/
theorem oldestFront_le {deques : Dict String (List (InferenceRequest ν))} {key : String}
    {front : InferenceRequest ν} {rest : List (InferenceRequest ν)}
    (h : oldestFront deques = some (key, front, rest)) {key' : String}
    {front' : InferenceRequest ν} {rest' : List (InferenceRequest ν)}
    (h' : deques.listAt key' = front' :: rest') : front.receivedAt ≤ front'.receivedAt := by
  have hget : ∀ {key front rest}, deques.listAt key = front :: rest →
      deques.get? key = some (front :: rest) := by
    intro key front rest hlist
    cases hget : deques.get? key with
    | none => simp [Dict.listAt, hget] at hlist
    | some deque => simpa [Dict.listAt, hget] using hlist
  have hlist := oldestFront_listAt h
  unfold oldestFront at h
  split at h
  · cases h
  · next t key₁ hkey =>
      rcases oldestKey_eq_some hkey with ⟨⟨r, hr, ht⟩, hmin⟩
      have hkey₁ : key₁ = key := by
        split at h
        · cases h
        · simp only [Option.some.injEq, Prod.mk.injEq] at h
          exact h.1
      -- the front of the chosen key is the one that was compared
      rcases mem_fronts.mp (hkey₁ ▸ hr) with ⟨rest₁, hr'⟩
      have hsame : r = front := by
        have hboth := (hget hlist).symm.trans hr'
        simp only [Option.some.injEq, List.cons.injEq] at hboth
        exact hboth.1.symm
      have hle := hmin (key', front') (mem_fronts.mpr ⟨rest', hget h'⟩)
      rw [← hsame, ht]
      exact hle

omit [Score ν] in
/-- The chosen front is an oldest request exactly when some front is. -/
theorem oldestFront_oldest_iff {deques : Dict String (List (InferenceRequest ν))} {key : String}
    {front : InferenceRequest ν} {rest : List (InferenceRequest ν)}
    (h : oldestFront deques = some (key, front, rest)) :
    (∀ x ∈ deques.flatten, front.receivedAt ≤ x.receivedAt) ↔ OldestAtFront deques := by
  constructor
  · intro hall
    exact ⟨key, front, rest, oldestFront_listAt h, hall⟩
  · rintro ⟨key', front', rest', hlist, hall⟩ x hx
    exact (oldestFront_le h hlist).trans (hall x hx)

omit [Score ν] in
theorem ArrivalSorted.oldestAtFront {deques : Dict String (List (InferenceRequest ν))}
    (h : ArrivalSorted deques) (hne : deques.flatten ≠ []) : OldestAtFront deques := by
  rcases oldestFront_spec hne with ⟨key, front, rest, hfront, hlist⟩
  refine ⟨key, front, rest, hlist, fun x hx => ?_⟩
  rcases Dict.mem_flatten.mp hx with ⟨key', hmem⟩
  cases hdeque : deques.listAt key' with
  | nil => simp [hdeque] at hmem
  | cons front' rest' =>
      have hsorted := h key'
      rw [hdeque] at hsorted hmem
      have hfirst : front'.receivedAt ≤ x.receivedAt := by
        rcases List.mem_cons.mp hmem with rfl | hrest
        · exact le_refl _
        · exact (List.pairwise_cons.mp hsorted).1 x hrest
      exact (oldestFront_le hfront hdeque).trans hfirst

omit [Score ν] in
theorem ArrivalSorted.sublist {deques deques' : Dict String (List (InferenceRequest ν))}
    (h : ArrivalSorted deques)
    (hsub : ∀ key, (deques'.listAt key).Sublist (deques.listAt key)) : ArrivalSorted deques' :=
  fun key => (h key).sublist (hsub key)

omit [Score ν] in
/-- A request that is not older than the last one of a deque may join it. -/
theorem ArrivalSorted.join {deques deques' : Dict String (List (InferenceRequest ν))}
    (h : ArrivalSorted deques) {key : String} {r : InferenceRequest ν}
    (hjoin : ∀ key', deques'.listAt key' =
      if key' = key then deques.listAt key' ++ [r] else deques.listAt key')
    (hlast : ∀ x ∈ (deques.listAt key).getLast?, x.receivedAt ≤ r.receivedAt) :
    ArrivalSorted deques' := by
  intro key'
  rw [hjoin]
  split
  · next heq =>
      subst heq
      refine List.pairwise_append.mpr ⟨h key', List.pairwise_singleton _ _, ?_⟩
      intro x hx y hy
      rw [List.mem_singleton.mp hy]
      -- the last request of the deque is between the two
      have hne : deques.listAt key' ≠ [] := List.ne_nil_of_mem hx
      have hsplit := List.dropLast_append_getLast hne
      have hlast' := hlast _ (List.getLast?_eq_some_getLast hne)
      have hsorted := h key'
      rw [← hsplit] at hsorted hx
      rcases List.mem_append.mp hx with hinit | hend
      · exact ((List.pairwise_append.mp hsorted).2.2 x hinit _ (List.mem_singleton_self _)).trans
          hlast'
      · rw [List.mem_singleton.mp hend]
        exact hlast'
  · exact h key'

omit [Score ν] in
theorem filter_listAt (deques : Dict String (List (InferenceRequest ν)))
    (keep : InferenceRequest ν → Bool) (key : String) :
    ((deques.mapValues fun deque => deque.filter keep).listAt key).Sublist (deques.listAt key) := by
  rw [Dict.listAt_mapValues (List.filter_nil (p := keep))]
  exact List.filter_sublist

/-- The client that is served loses its first request, the others keep theirs. -/
theorem RoundRobinScheduler.nextBatch_queues (s : RoundRobinScheduler ν) (clientId : String) :
    (s.nextBatch.2.queues.listAt clientId).Sublist (s.queues.listAt clientId) := by
  unfold nextBatch
  split
  · exact List.Sublist.refl _
  · split
    · next queues hrotate =>
        have hperm := (rotate_none (Nat.le_refl _) hrotate).2
        simp only [Dict.listAt, Dict.get?_perm hperm, List.Sublist.refl]
    · next request queues hrotate =>
        rcases rotate_some hrotate with ⟨served, queue, others, hperm, hperm'⟩
        dsimp only
        cases hget : queues.get? clientId with
        | none => simp [Dict.listAt, hget]
        | some l =>
            have hitem := hperm'.mem_iff.mp (Dict.get?_eq_some.mp hget)
            rcases List.mem_cons.mp hitem with heq | hother
            · rcases Prod.mk.inj heq with ⟨rfl, rfl⟩
              have hold : s.queues.get? clientId = some (request :: l) :=
                Dict.get?_eq_some.mpr (hperm.mem_iff.mpr List.mem_cons_self)
              simp [Dict.listAt, hget, hold]
            · have hold : s.queues.get? clientId = some l :=
                Dict.get?_eq_some.mpr (hperm.mem_iff.mpr (List.mem_cons_of_mem _ hother))
              simp [Dict.listAt, hget, hold]

namespace AnyScheduler

/-! ## The two schedulers -/

/-- The schedulers that keep deques and compare their fronts. -/
inductive ByDeque : AnyScheduler ν → Prop
  | roundRobin (s : RoundRobinScheduler ν) : ByDeque (.roundRobin s)
  | batchOptimized (s : BatchOptimizedScheduler ν) : ByDeque (.batchOptimized s)

instance : ∀ s : AnyScheduler ν, Decidable s.ByDeque
  | .roundRobin s => isTrue (.roundRobin s)
  | .batchOptimized s => isTrue (.batchOptimized s)
  | .deadlineAware _ => isFalse nofun
  | .modelDeadline _ => isFalse nofun
  | .priorityTiered _ => isFalse nofun
  | .tieredDeadline _ => isFalse nofun

/-- The deques of the clients, or those of the models. -/
def deques : AnyScheduler ν → Dict String (List (InferenceRequest ν))
  | .roundRobin s => s.queues
  | .batchOptimized s => s.byModel
  | _ => Dict.empty

/-- The key of the deque that the request joins. -/
def dequeKey (r : InferenceRequest ν) : AnyScheduler ν → String
  | .roundRobin _ => r.clientId
  | _ => r.modelId

/-- A call that lets requests out keeps the others in their deques. -/
structure Drains (s s' : AnyScheduler ν) : Prop where
  byDeque : s'.ByDeque
  sublist : ∀ key, (s'.deques.listAt key).Sublist (s.deques.listAt key)

/-- A call that lets a request in appends it to its deque. -/
structure Joins (r : InferenceRequest ν) (s s' : AnyScheduler ν) : Prop where
  byDeque : s'.ByDeque
  append : ∀ key, s'.deques.listAt key =
    if key = s.dequeKey r then s.deques.listAt key ++ [r] else s.deques.listAt key

theorem deques_flatten {s : AnyScheduler ν} (hs : s.ByDeque) : s.deques.flatten = s.stored := by
  cases hs <;> rfl

theorem Drains.refl {s : AnyScheduler ν} (hs : s.ByDeque) : Drains s s :=
  ⟨hs, fun _ => List.Sublist.refl _⟩

theorem resubmit_joins (m : Moment ν) (r : InferenceRequest ν) {s : AnyScheduler ν}
    (hs : s.ByDeque) : Joins r s (Scheduler.resubmit m r s).state := by
  cases hs with
  | roundRobin s => exact ⟨.roundRobin _, fun key => s.queues.listAt_append r.clientId key r⟩
  | batchOptimized s =>
      exact ⟨.batchOptimized _, fun key => s.byModel.listAt_append r.modelId key r⟩

/-- The eviction takes the chosen front. -/
theorem dropOldest_front {s : AnyScheduler ν} (hs : s.ByDeque) (hne : s.stored ≠ []) :
    ∃ key front rest, oldestFront s.deques = some (key, front, rest) ∧
      s.dropOldest.1 = some front ∧ Drains s s.dropOldest.2 ∧
      ∀ r, s.dropOldest.2.dequeKey r = s.dequeKey r := by
  rw [← deques_flatten hs] at hne
  rcases oldestFront_spec hne with ⟨key, front, rest, hfront, hlist⟩
  have hsub : ∀ key', ((s.deques.set key rest).listAt key').Sublist (s.deques.listAt key') := by
    intro key'
    rw [Dict.listAt_set]
    split
    · next heq =>
        rw [heq, hlist]
        exact List.sublist_cons_self front rest
    · exact List.Sublist.refl _
  refine ⟨key, front, rest, hfront, ?_⟩
  cases hs with
  | roundRobin s =>
      have heq : s.dropOldest = (some front, { s with
          queues := s.queues.set key rest
          total := s.total - 1 }) := by
        have hfront' : oldestFront s.queues = some (key, front, rest) := hfront
        simp only [RoundRobinScheduler.dropOldest, hfront']
      simp only [dropOldest, heq, Prod.map]
      exact ⟨rfl, ⟨.roundRobin _, hsub⟩, fun _ => rfl⟩
  | batchOptimized s =>
      have heq : s.dropOldest = (some front, { s with
          byModel := s.byModel.set key rest
          firstArrival := if rest.isEmpty then s.firstArrival.erase key else s.firstArrival
          total := s.total - 1 }) := by
        have hfront' : oldestFront s.byModel = some (key, front, rest) := hfront
        simp only [BatchOptimizedScheduler.dropOldest, hfront']
      simp only [dropOldest, heq, Prod.map]
      exact ⟨rfl, ⟨.batchOptimized _, hsub⟩, fun _ => rfl⟩

theorem nextBatch_drains (now : Rat) {s : AnyScheduler ν} (hs : s.ByDeque) :
    Drains s (Scheduler.nextBatch now s).2 := by
  cases hs with
  | roundRobin s => exact ⟨.roundRobin _, s.nextBatch_queues⟩
  | batchOptimized s =>
      refine ⟨.batchOptimized _, fun key => ?_⟩
      show ((s.nextBatch now).2.byModel.listAt key).Sublist (s.byModel.listAt key)
      rcases s.nextBatch_cases now with heq | ⟨modelId, -, -, hqueues, -, -⟩
      · rw [heq]
      · rw [hqueues, Dict.listAt_set]
        split
        · next hkey =>
            subst hkey
            exact List.drop_sublist _ _
        · exact List.Sublist.refl _

theorem tick_drains (clock : InferenceRequest ν → Rat) {s : AnyScheduler ν} (hs : s.ByDeque) :
    Drains s (Scheduler.tick clock s).2 := by
  cases hs with
  | roundRobin s => exact ⟨.roundRobin _, filter_listAt s.queues _⟩
  | batchOptimized s => exact ⟨.batchOptimized _, filter_listAt s.byModel _⟩

/-- A new client gets an empty deque. -/
theorem connected_drains (clientId : String) {s : AnyScheduler ν} (hs : s.ByDeque) :
    Drains s (Scheduler.onClientConnected clientId s) := by
  cases hs with
  | batchOptimized s => exact .refl (.batchOptimized s)
  | roundRobin s =>
      refine ⟨.roundRobin _, fun key => ?_⟩
      show ((s.onClientConnected clientId).queues.listAt key).Sublist (s.queues.listAt key)
      unfold RoundRobinScheduler.onClientConnected
      split
      · exact List.Sublist.refl _
      · rw [Dict.listAt_set]
        split
        · exact List.nil_sublist _
        · exact List.Sublist.refl _

theorem disconnected_drains (clientId : String) {s : AnyScheduler ν} (hs : s.ByDeque) :
    Drains s (Scheduler.onClientDisconnected clientId s) := by
  cases hs with
  | batchOptimized s => exact ⟨.batchOptimized _, filter_listAt s.byModel _⟩
  | roundRobin s =>
      refine ⟨.roundRobin _, fun key => ?_⟩
      show ((s.onClientDisconnected clientId).queues.listAt key).Sublist (s.queues.listAt key)
      unfold RoundRobinScheduler.onClientDisconnected
      split
      · rw [Dict.listAt_erase]
        split
        · exact List.nil_sublist _
        · exact List.Sublist.refl _
      · exact List.Sublist.refl _

/-! ## Runs -/

/-- A run with its ledger. -/
def ledgered (b : AnyScheduler ν × Ledger ν) (c : SchedulerCall ν) : AnyScheduler ν × Ledger ν :=
  accountedCall b.1 b.2 c

/-- The arrival times of the submitted requests. -/
def arrivals (cs : List (SchedulerCall ν)) : List Rat :=
  cs.filterMap fun c =>
    match c with
    | .submit _ r => some r.receivedAt
    | _ => none

/-- Only requests that were returned before are resubmitted; a retry is counted in them. -/
def Retries (b : AnyScheduler ν × Ledger ν) : SchedulerCall ν → Prop
  | .resubmit _ r => ∃ returned ∈ b.2.returned, r = { returned with retryCount := r.retryCount }
  | _ => True

/-- What the submission evicts arrived before all other queued requests. -/
def EvictsOldest (b : AnyScheduler ν × Ledger ν) : SchedulerCall ν → Prop
  | .submit m r => ∀ oldest, (Scheduler.submit m r b.1).dropped = some oldest →
      ∀ x ∈ b.1.stored, oldest.receivedAt ≤ x.receivedAt
  | _ => True

/-- When a submission finds the queue full, an oldest request stands at the front of its deque. -/
def FindsOldest (b : AnyScheduler ν × Ledger ν) : SchedulerCall ν → Prop
  | .submit _ _ => b.1.Full → OldestAtFront b.1.deques
  | _ => True

/-- A request that is resubmitted is not older than the last one of the deque that it joins. -/
def RetriesLast (b : AnyScheduler ν × Ledger ν) : SchedulerCall ν → Prop
  | .resubmit _ r => ∀ x ∈ (b.1.deques.listAt (b.1.dequeKey r)).getLast?,
      x.receivedAt ≤ r.receivedAt
  | _ => True

/-- The deque schedulers under `drop_oldest`. -/
structure DropsFronts (s : AnyScheduler ν) : Prop where
  byDeque : s.ByDeque
  inv : s.Inv
  policy : s.config.overflowPolicy = .dropOldest

namespace DropsFronts

variable {s : AnyScheduler ν}

/-- A submission lets one front out of a full queue, and appends the new request. -/
theorem submit_joins (h : DropsFronts s) (m : Moment ν) (r : InferenceRequest ν) :
    ∃ d, Drains s d ∧ d.dequeKey r = s.dequeKey r ∧ Joins r d (Scheduler.submit m r s).state := by
  by_cases hfull : s.Full
  · rcases dropOldest_front h.byDeque (hfull.stored_ne_nil h.inv) with
      ⟨-, -, -, -, -, hdrain, hkey⟩
    refine ⟨s.dropOldest.2, hdrain, hkey r, ?_⟩
    rw [submit_full m r hfull h.policy]
    exact resubmit_joins m r hdrain.byDeque
  · have ho : Scheduler.submit m r s = Scheduler.resubmit m r s :=
      AccountedScheduler.submit_room m r (not_le.mp hfull)
    rw [ho]
    exact ⟨s, .refl h.byDeque, rfl, resubmit_joins m r h.byDeque⟩

theorem call (h : DropsFronts s) (l : Ledger ν) (c : SchedulerCall ν) :
    DropsFronts (accountedCall s l c).1 := by
  have hinv : AccountedScheduler.Inv s := h.inv
  have hbyDeque : (accountedCall s l c).1.ByDeque := by
    cases c with
    | submit m r =>
        rcases h.submit_joins m r with ⟨d, -, -, hjoins⟩
        exact hjoins.byDeque
    | resubmit m r => exact (resubmit_joins m r h.byDeque).byDeque
    | nextBatch now => exact (nextBatch_drains now h.byDeque).byDeque
    | tick clock => exact (tick_drains clock h.byDeque).byDeque
    | onClientConnected clientId => exact (connected_drains clientId h.byDeque).byDeque
    | onClientDisconnected clientId => exact (disconnected_drains clientId h.byDeque).byDeque
  rcases accountedCall_kept hinv l c with ⟨hinv', hconfig⟩
  refine ⟨hbyDeque, hinv', ?_⟩
  have hconfig' : (accountedCall s l c).1.config = s.config := hconfig
  rw [hconfig']
  exact h.policy

/-- A submission evicts an oldest request exactly when it finds one at a front. -/
theorem evictsOldest_iff (h : DropsFronts s) (l : Ledger ν) (c : SchedulerCall ν) :
    EvictsOldest (s, l) c ↔ FindsOldest (s, l) c := by
  cases c with
  | submit m r =>
      by_cases hfull : s.Full
      · rcases dropOldest_front h.byDeque (hfull.stored_ne_nil h.inv) with
          ⟨key, front, rest, hfront, hdropped, -, -⟩
        have ho : (Scheduler.submit m r s).dropped = some front := by
          rw [submit_full m r hfull h.policy]
          exact hdropped
        have hiff := oldestFront_oldest_iff hfront
        rw [deques_flatten h.byDeque] at hiff
        simpa [EvictsOldest, FindsOldest, ho, hfull] using hiff
      · have hinv : AccountedScheduler.Inv s := h.inv
        have ho : Scheduler.submit m r s = Scheduler.resubmit m r s :=
          AccountedScheduler.submit_room m r (not_le.mp hfull)
        have hnone := (AccountedScheduler.resubmit_spec m r hinv).2.2.dropped
        simp [EvictsOldest, FindsOldest, ho, hnone, hfull]
  | resubmit m r => exact Iff.rfl
  | nextBatch now => exact Iff.rfl
  | tick clock => exact Iff.rfl
  | onClientConnected clientId => exact Iff.rfl
  | onClientDisconnected clientId => exact Iff.rfl

end DropsFronts

/-- Along a run the evictions are of oldest requests exactly when they are found at fronts. -/
theorem findsOldest_guards :
    Guards (ledgered (ν := ν)) (fun b => DropsFronts b.1) FindsOldest EvictsOldest where
  keeps h _ := h.call _ _
  holds h hfinds := (h.evictsOldest_iff _ _).mpr hfinds
  needs h hevicts := (h.evictsOldest_iff _ _).mp hevicts

/-! ### Retries that join in order -/

/-- The deques are in the order of arrival, and no request that came by arrived after one that is
still to come. -/
structure InTime (cs : List (SchedulerCall ν)) (b : AnyScheduler ν × Ledger ν) : Prop where
  sorted : ArrivalSorted b.1.deques
  queued : ∀ key, ∀ x ∈ b.1.deques.listAt key, ∀ t ∈ arrivals cs, x.receivedAt ≤ t
  returned : ∀ x ∈ b.2.returned, ∀ t ∈ arrivals cs, x.receivedAt ≤ t

namespace InTime

variable {s s' : AnyScheduler ν} {l l' : Ledger ν} {cs : List (SchedulerCall ν)}

/-- What arrived before all that is to come arrived before all but the next one. -/
theorem tail {b : AnyScheduler ν × Ledger ν} {c : SchedulerCall ν} (h : InTime (c :: cs) b) :
    InTime cs b where
  sorted := h.sorted
  queued key x hx t ht :=
    h.queued key x hx t (((List.sublist_cons_self c cs).filterMap _).subset ht)
  returned x hx t ht := h.returned x hx t (((List.sublist_cons_self c cs).filterMap _).subset ht)

theorem drains (h : InTime cs (s, l)) (hdrains : Drains s s')
    (hreturned : ∀ x ∈ l'.returned, x ∈ l.returned ∨ ∃ key, x ∈ s.deques.listAt key) :
    InTime cs (s', l') where
  sorted := h.sorted.sublist hdrains.sublist
  queued key x hx := h.queued key x ((hdrains.sublist key).subset hx)
  returned x hx := by
    rcases hreturned x hx with hold | ⟨key, hqueued⟩
    · exact h.returned x hold
    · exact h.queued key x hqueued

theorem joins (h : InTime cs (s, l)) {r : InferenceRequest ν} (hjoins : Joins r s s')
    (hlast : ∀ x ∈ (s.deques.listAt (s.dequeKey r)).getLast?, x.receivedAt ≤ r.receivedAt)
    (hr : ∀ t ∈ arrivals cs, r.receivedAt ≤ t) (hreturned : l'.returned = l.returned) :
    InTime cs (s', l') where
  sorted := h.sorted.join hjoins.append hlast
  queued key x hx := by
    rw [hjoins.append] at hx
    split at hx
    · rcases List.mem_append.mp hx with hold | hnew
      · exact h.queued key x hold
      · exact (List.mem_singleton.mp hnew) ▸ hr
    · exact h.queued key x hx
  returned := hreturned ▸ h.returned

/-- One call of a run in which requests arrive in the order of time and retries join in order. -/
theorem call {c : SchedulerCall ν} (hs : DropsFronts s) (h : InTime (c :: cs) (s, l))
    (htime : (arrivals (c :: cs)).Pairwise (· ≤ ·)) (hretries : Retries (s, l) c)
    (hlast : RetriesLast (s, l) c) : InTime cs (ledgered (s, l) c) := by
  cases c with
  | submit m r =>
      have hfirst : r.receivedAt ∈ arrivals (.submit m r :: cs) := List.mem_cons_self
      have hafter := h.tail
      rcases hs.submit_joins m r with ⟨d, hdrains, hkey, hjoins⟩
      have hdrained : InTime cs (d, l) := hafter.drains hdrains fun x hx => .inl hx
      refine hdrained.joins hjoins ?_ (List.pairwise_cons.mp htime).1 rfl
      -- whatever is queued arrived before
      intro x hx
      have hqueued := (hdrains.sublist _).subset (List.mem_of_getLast? hx)
      exact h.queued _ x hqueued _ hfirst
  | resubmit m r =>
      rcases hretries with ⟨returned, hreturned, heq⟩
      have hr : r.receivedAt = returned.receivedAt := by
        rw [heq]
      have hafter := h.tail
      exact hafter.joins (resubmit_joins m r hs.byDeque) hlast
        (fun t ht => hr ▸ h.returned returned hreturned t ht) rfl
  | nextBatch now =>
      have hafter := h.tail
      have hinv : AccountedScheduler.Inv s := hs.inv
      have hperm : s.stored.Perm
          ((Scheduler.nextBatch now s).1 ++ (Scheduler.nextBatch now s).2.stored) :=
        (AccountedScheduler.nextBatch_spec now hinv).2.2
      refine hafter.drains (nextBatch_drains now hs.byDeque) fun x hx => ?_
      rcases List.mem_append.mp hx with hold | hbatch
      · exact .inl hold
      · have hstored := hperm.mem_iff.mpr (List.mem_append_left _ hbatch)
        rw [← deques_flatten hs.byDeque] at hstored
        exact .inr (Dict.mem_flatten.mp hstored)
  | tick clock =>
      have hafter := h.tail
      exact hafter.drains (tick_drains clock hs.byDeque) fun x hx => .inl hx
  | onClientConnected clientId =>
      have hafter := h.tail
      exact hafter.drains (connected_drains clientId hs.byDeque) fun x hx => .inl hx
  | onClientDisconnected clientId =>
      have hafter := h.tail
      exact hafter.drains (disconnected_drains clientId hs.byDeque) fun x hx => .inl hx

/-- Then every submission finds an oldest request at a front. -/
theorem along_findsOldest (hs : DropsFronts s) (h : InTime cs (s, l))
    (htime : (arrivals cs).Pairwise (· ≤ ·)) (hretries : Along ledgered Retries (s, l) cs)
    (hlast : Along ledgered RetriesLast (s, l) cs) : Along ledgered FindsOldest (s, l) cs := by
  induction cs generalizing s l with
  | nil => trivial
  | cons c cs ih =>
      have htail := htime.sublist ((List.sublist_cons_self c cs).filterMap _)
      refine ⟨?_, ih (hs.call l c) (h.call hs htime hretries.1 hlast.1) htail hretries.2 hlast.2⟩
      cases c with
      | submit m r =>
          intro hfull
          have hne := hfull.stored_ne_nil hs.inv
          rw [← deques_flatten hs.byDeque] at hne
          exact h.sorted.oldestAtFront hne
      | resubmit m r => trivial
      | nextBatch now => trivial
      | tick clock => trivial
      | onClientConnected clientId => trivial
      | onClientDisconnected clientId => trivial

end InTime

/-- For every run of a new deque scheduler: its evictions are of oldest requests exactly when each
submission that finds the queue full finds an oldest request at the front of a deque; and when new
requests arrive in the order of time, this is so in every run in which no retry is older than the
last request of the deque that it joins. -/
theorem evictions_oldest_iff (config : SchedulingConfig ν) (s : AnyScheduler ν)
    (hcreate : createScheduler config = .ok s) (hs : s.ByDeque)
    (hpolicy : config.overflowPolicy = .dropOldest) (cs : List (SchedulerCall ν)) :
    (Along ledgered EvictsOldest (s, {}) cs ↔ Along ledgered FindsOldest (s, {}) cs) ∧
      ((arrivals cs).Pairwise (· ≤ ·) → Along ledgered Retries (s, {}) cs →
        Along ledgered RetriesLast (s, {}) cs → Along ledgered EvictsOldest (s, {}) cs) := by
  rcases createScheduler_fresh hcreate with ⟨hinv, hstored⟩
  have hconfig : s.config = config := by
    rcases createScheduler_cases hcreate with
      ⟨-, rfl⟩ | ⟨-, rfl⟩ | ⟨-, rfl⟩ | ⟨-, rfl⟩ | ⟨-, rfl⟩ | ⟨-, rfl⟩ <;> rfl
  have hdrops : DropsFronts s := ⟨hs, hinv, hconfig ▸ hpolicy⟩
  have hiff : Along ledgered EvictsOldest (s, {}) cs ↔ Along ledgered FindsOldest (s, {}) cs :=
    findsOldest_guards.along_iff hdrops
  refine ⟨hiff, fun htime hretries hlast => hiff.mpr ?_⟩
  have hnil : ∀ key, s.deques.listAt key = [] := by
    intro key
    have hsub := Dict.listAt_sublist_flatten s.deques key
    rw [deques_flatten hs, hstored] at hsub
    exact List.sublist_nil.mp hsub
  have hstart : InTime cs (s, {}) := by
    refine ⟨fun key => ?_, fun key x hx => ?_, fun x hx => ?_⟩
    · simp [hnil key]
    · simp [hnil key] at hx
    · cases hx
  exact hstart.along_findsOldest hdrops htime hretries hlast

/-! ### Two places -/

/-- Two places, and batches of one request. -/
def twoSlots (strategy : String) : SchedulingConfig Rat :=
  { plainConfig.scheduling with
    strategy := strategy
    maxQueueSize := 2
    maxQueueSize_ge := Nat.two_pos
    batchOptimized := { plainConfig.scheduling.batchOptimized with
      maxBatchSize := 1
      maxBatchSize_ge := Nat.one_pos } }

/-- The `n`th request, which arrives at `n`. -/
def nth (n : Nat) : InferenceRequest Rat := plainRequest "a" "policy" n n

def submitNth (n : Nat) : SchedulerCall Rat := .submit (momentAt n) (nth n)

/-- The first request is retried before the second one arrives. -/
def retriedFirst : List (SchedulerCall Rat) :=
  [submitNth 0, .nextBatch 0, .resubmit (momentAt 0) (nth 0), submitNth 1, submitNth 2]

/-- The first request is retried while the second one waits. -/
def retriedBehind : List (SchedulerCall Rat) :=
  [submitNth 0, submitNth 1, .nextBatch 1, .resubmit (momentAt 1) (nth 0), submitNth 2]

theorem retriedFirst_evictsOldest :
    Along ledgered EvictsOldest (.roundRobin (.init (twoSlots "round_robin")), {})
      retriedFirst := by
  refine (evictions_oldest_iff (twoSlots "round_robin") _ rfl (.roundRobin _) rfl retriedFirst).2
    (by decide +kernel) ?_ ?_
  · exact ⟨trivial, trivial, ⟨nth 0, by decide +kernel, rfl⟩, trivial, trivial, trivial⟩
  · refine ⟨trivial, trivial, ?_, trivial, trivial, trivial⟩
    intro x hx
    cases hx

/-- In the run the requests arrive in the order of time and only returned ones are retried, and some
eviction is not of the oldest request. -/
structure EvictsYounger (s : AnyScheduler Rat) (cs : List (SchedulerCall Rat)) : Prop where
  inTime : (arrivals cs).Pairwise (· ≤ ·)
  retries : Along ledgered Retries (s, {}) cs
  younger : ¬ Along ledgered EvictsOldest (s, {}) cs

/-- In this run the scheduler returns the first request, and evicts the second one later. -/
theorem evictsYounger_retriedBehind {s : AnyScheduler Rat}
    (hreturned : nth 0 ∈ (accountedRun s {} (retriedBehind.take 3)).2.returned)
    (hdropped : (Scheduler.submit (momentAt 2) (nth 2)
      (accountedRun s {} (retriedBehind.take 4)).1).dropped = some (nth 1))
    (hstored : nth 0 ∈ (accountedRun s {} (retriedBehind.take 4)).1.stored) :
    EvictsYounger s retriedBehind := by
  refine ⟨by decide +kernel, ⟨trivial, trivial, trivial, ⟨nth 0, hreturned, rfl⟩, trivial, trivial⟩,
    ?_⟩
  intro h
  have hle : (nth 1).receivedAt ≤ (nth 0).receivedAt :=
    h.2.2.2.2.1 (nth 1) hdropped (nth 0) hstored
  exact absurd hle (by decide +kernel)

/-- The retry is older than the request in front of it, which is evicted. -/
theorem retriedBehind_evictsYounger :
    EvictsYounger (.roundRobin (.init (twoSlots "round_robin"))) retriedBehind ∧
      EvictsYounger (.batchOptimized (.init (twoSlots "batch_optimized"))) retriedBehind := by
  constructor
  · exact evictsYounger_retriedBehind (by decide +kernel) (by decide +kernel) (by decide +kernel)
  · exact evictsYounger_retriedBehind (by decide +kernel) (by decide +kernel) (by decide +kernel)

end AnyScheduler
end Inferential
