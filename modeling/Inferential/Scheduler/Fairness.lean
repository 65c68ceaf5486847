import Inferential.Machine.Rotation
import Inferential.Scheduler.FifoOrder
import Inferential.Scheduler.Sweeps

/-!
# Fairness — clients of `round_robin` are served in turn

`next_batch` takes the first client that has a request and puts it, with the ones it passed over, at
the end of the dictionary.  No other call changes the order of the clients that stay.
-/

namespace Inferential

open PyStd Machine

variable {ν : Type} [Score ν]

namespace RoundRobinScheduler

/-! ## The order of the clients -/

/-- Two clients that have requests take turns. -/
theorem nextBatch_takesTurn {s : RoundRobinScheduler ν} (hinv : Inv s) {c d : String}
    (hc : s.queues.listAt c ≠ []) :
    TakesTurn c d s.queues.keys (s.nextBatch.1.map InferenceRequest.clientId)
      s.nextBatch.2.queues.keys := by
  unfold nextBatch
  split
  · exact .of_sublist (List.Sublist.refl _)
  · split
    · next queues hrotate =>
        -- the loop would have found the request of `c`
        have hempty := (rotate_none (Nat.le_refl _) hrotate).1
        rw [List.take_of_length_le (Nat.le_refl _)] at hempty
        refine absurd ?_ hc
        unfold Dict.listAt
        cases hget : s.queues.get? c with
        | none => rfl
        | some queue => exact hempty (c, queue) (Dict.get?_eq_some.mp hget)
    · next request queues hrotate =>
        rcases rotate_split hrotate with ⟨before, clientId, queue, after, hitems, hbefore, hitems'⟩
        have hkeys : s.queues.keys =
            before.map Prod.fst ++ clientId :: after.map Prod.fst := by simp [Dict.keys, hitems]
        have hkeys' : queues.keys =
            after.map Prod.fst ++ before.map Prod.fst ++ [clientId] := by simp [Dict.keys, hitems']
        have hserved : request.clientId = clientId :=
          hinv.own (clientId, request :: queue) (by simp [hitems]) request List.mem_cons_self
        -- a client that is passed over has no request
        have hnot : c ∉ before.map Prod.fst := by
          intro hmem
          rcases List.mem_map.mp hmem with ⟨item, hitem, rfl⟩
          have hget : s.queues.get? item.1 = some item.2 :=
            Dict.get?_eq_some.mpr (by simp [hitems, hitem])
          simp [Dict.listAt, hget, hbefore item hitem] at hc
        have hnodup : s.queues.keys.Nodup := s.queues.nodup
        rw [hkeys] at hnodup
        intro hahead
        rw [hkeys] at hahead
        simp only [List.map_cons, List.map_nil, hserved, hkeys']
        rcases hahead.rotate hnodup hnot with ⟨rfl, hbehind⟩ | ⟨hnc, hnd, hkept⟩
        · exact .inr ⟨by simp [ofPair], hbehind⟩
        · exact .inl ⟨by simp [ofPair, hnc, hnd], hkept⟩

theorem resubmit_keys (r : InferenceRequest ν) (s : RoundRobinScheduler ν) :
    s.queues.keys.Sublist (s.resubmit r).state.queues.keys :=
  Dict.keys_sublist_set _ _ _

theorem dropOldest_keys (s : RoundRobinScheduler ν) :
    s.queues.keys.Sublist s.dropOldest.2.queues.keys := by
  unfold dropOldest
  split
  · exact List.Sublist.refl _
  · exact Dict.keys_sublist_set _ _ _

/-- New clients come last. -/
theorem submit_keys (r : InferenceRequest ν) (s : RoundRobinScheduler ν) :
    s.queues.keys.Sublist (s.submit r).state.queues.keys := by
  unfold submit
  split
  · cases s.config.overflowPolicy with
    | dropOldest => exact s.dropOldest_keys.trans (resubmit_keys r _)
    | rejectNewest => exact List.Sublist.refl _
  · exact resubmit_keys r s

theorem onClientConnected_keys (clientId : String) (s : RoundRobinScheduler ν) :
    s.queues.keys.Sublist (s.onClientConnected clientId).queues.keys := by
  unfold onClientConnected
  split
  · exact List.Sublist.refl _
  · exact Dict.keys_sublist_set _ _ _

theorem onClientDisconnected_keys (clientId : String) (s : RoundRobinScheduler ν) :
    (s.queues.keys.filter fun k => k ≠ clientId).Sublist
      (s.onClientDisconnected clientId).queues.keys := by
  unfold onClientDisconnected
  split
  · rw [Dict.keys_erase]
  · exact List.filter_sublist

end RoundRobinScheduler

namespace AnyScheduler

/-- The clients of `round_robin` in the order of its dictionary. -/
def clients : AnyScheduler ν → List String
  | .roundRobin s => s.queues.keys
  | _ => []

/-- Both clients have a request when a batch is taken, and neither disconnects. -/
def Contend (c d : String) (s : AnyScheduler ν) : Turn ν → Prop
  | .later (.call (.nextBatch _)) => s.held (.client c) ≠ [] ∧ s.held (.client d) ≠ []
  | .later (.call (.onClientDisconnected clientId)) => clientId ≠ c ∧ clientId ≠ d
  | _ => True

theorem Contend.symm {c d : String} {s : AnyScheduler ν} {t : Turn ν} (h : s.Contend c d t) :
    s.Contend d c t := by
  unfold Contend at *
  split
  · exact And.symm h
  · exact And.symm h
  · trivial

/-- Other calls return nothing and keep the order of the clients. -/
theorem turn_clients (t : Turn ν) (s : RoundRobinScheduler ν) :
    (∃ now, t = .later (.call (.nextBatch now))) ∨
    (∃ clientId, t = .later (.call (.onClientDisconnected clientId))) ∨
    (turn (.roundRobin s) t).1 = [] ∧
      s.queues.keys.Sublist (turn (.roundRobin s) t).2.clients := by
  have hself : s.queues.keys.Sublist s.queues.keys := List.Sublist.refl _
  cases t with
  | nextBatchForTier tier => exact .inr (.inr ⟨rfl, hself⟩)
  | later t =>
      cases t with
      | nextBatchForModel modelId => exact .inr (.inr ⟨rfl, hself⟩)
      | usePolicy registered policyName => exact .inr (.inr ⟨rfl, hself⟩)
      | call t =>
          cases t with
          | nextBatch now => exact .inl ⟨now, rfl⟩
          | onClientDisconnected clientId => exact .inr (.inl ⟨clientId, rfl⟩)
          | submit m r => exact .inr (.inr ⟨rfl, RoundRobinScheduler.submit_keys r s⟩)
          | resubmit m r => exact .inr (.inr ⟨rfl, RoundRobinScheduler.resubmit_keys r s⟩)
          | onClientConnected clientId =>
              exact .inr (.inr ⟨rfl, RoundRobinScheduler.onClientConnected_keys clientId s⟩)
          | tick clock =>
              refine .inr (.inr ⟨rfl, ?_⟩)
              show s.queues.keys.Sublist (Dict.mapValues _ s.queues).keys
              rw [Dict.keys_mapValues]

theorem turn_takesTurn {c d : String} {s : RoundRobinScheduler ν} (hinv : s.Inv) {t : Turn ν}
    (h : Contend c d (.roundRobin s) t) :
    TakesTurn c d s.queues.keys ((turn (.roundRobin s) t).1.map InferenceRequest.clientId)
      (turn (.roundRobin s) t).2.clients := by
  rcases turn_clients t s with ⟨now, rfl⟩ | ⟨clientId, rfl⟩ | ⟨hout, hkeys⟩
  · exact RoundRobinScheduler.nextBatch_takesTurn hinv h.1
  · intro hahead
    refine .inl ⟨rfl, ?_⟩
    refine (hahead.filter ?_ ?_).mono (RoundRobinScheduler.onClientDisconnected_keys clientId s)
    · simpa using h.1.symm
    · simpa using h.2.symm
  · rw [hout]
    exact .of_sublist hkeys

/-- Before a batch is taken, both clients are in the dictionary. -/
theorem Contend.early {c d : String} {s : RoundRobinScheduler ν} {t : Turn ν}
    (h : Contend c d (.roundRobin s) t) (hnot : ¬ (c ∈ s.queues.keys ∧ d ∈ s.queues.keys)) :
    (turn (.roundRobin s) t).1 = [] := by
  have hmem : ∀ clientId, s.queues.listAt clientId ≠ [] → clientId ∈ s.queues.keys := by
    intro clientId hne
    by_contra hnone
    exact hne (by simp [Dict.listAt, Dict.get?_eq_none.mpr hnone])
  rcases turn_clients t s with ⟨now, rfl⟩ | ⟨clientId, rfl⟩ | ⟨hout, -⟩
  · exact absurd ⟨hmem c h.1, hmem d h.2⟩ hnot
  · rfl
  · exact hout

theorem turn_roundRobin (t : Turn ν) (s : RoundRobinScheduler ν) :
    ∃ s', (turn (.roundRobin s) t).2 = .roundRobin s' := by
  cases t with
  | nextBatchForTier tier => exact ⟨s, rfl⟩
  | later t =>
      cases t with
      | nextBatchForModel modelId => exact ⟨s, rfl⟩
      | usePolicy registered policyName => exact ⟨s, rfl⟩
      | call t => cases t <;> exact ⟨_, rfl⟩

theorem gives_takesTurns {c d : String} (hne : c ≠ d) {s : RoundRobinScheduler ν} (hinv : s.Inv)
    {interval : List (Turn ν)}
    (h : Along (fun s t => (turn s t).2) (Contend c d) (.roundRobin s) interval) :
    let served := (gives turn (.roundRobin s) interval).1.map InferenceRequest.clientId
    Alternating c d (ofPair c d served) ∨ Alternating d c (ofPair c d served) := by
  refine gives_turns InferenceRequest.clientId clients
    (fun s => ∃ s', s = .roundRobin s' ∧ s'.Inv) (Contend c d) hne ?_ ?_ ⟨s, rfl, hinv⟩ h
  · rintro _ t ⟨s, rfl, hinv⟩ hcontend
    refine ⟨?_, turn_takesTurn hinv hcontend, turn_takesTurn hinv hcontend.symm⟩
    rcases turn_roundRobin t s with ⟨s', hs'⟩
    have hinv' : (turn (.roundRobin s) t).2.Inv := turn_inv t hinv
    rw [hs'] at hinv'
    exact ⟨s', hs', hinv'⟩
  · rintro _ t ⟨s, rfl, hinv⟩ hcontend hnot
    rw [hcontend.early hnot]
    rfl

/-- The requests that `round_robin` returns in an interval are of the two clients alternately, if
both have one whenever a batch is taken and stay connected; and in every run the requests of one
client are returned in the order in which they were enqueued. -/
theorem roundRobin_fair (config : SchedulingConfig ν) :
    (∀ s : RoundRobinScheduler ν, Reachable config (.roundRobin s) →
      ∀ (c d : String) (interval : List (Turn ν)), c ≠ d →
        Along (fun s t => (turn s t).2) (Contend c d) (.roundRobin s) interval →
          let served := (gives turn (.roundRobin s) interval).1.map InferenceRequest.clientId
          (Alternating c d (ofPair c d served) ∨ Alternating d c (ofPair c d served)) ∧
            served.count c ≤ served.count d + 1 ∧ served.count d ≤ served.count c + 1) ∧
    ∀ (s : RoundRobinScheduler ν) (cs : List (SchedulerCall ν)) (clientId : String),
      createScheduler config = .ok (.roundRobin s) →
        let l := (accountedRun (AnyScheduler.roundRobin s) {} cs).2
        (l.returned.filter fun r => r.clientId = clientId).Sublist
          (l.enqueued.filter fun r => r.clientId = clientId) := by
  constructor
  · intro s hreach c d interval hne halong served
    have hturns := gives_takesTurns hne hreach.inv halong
    refine ⟨hturns, ?_⟩
    rw [← count_ofPair_left c d served, ← count_ofPair_right c d served]
    rcases hturns with hturns | hturns
    · rcases hturns.count_le hne with ⟨hle, hge⟩
      exact ⟨hge, hle.trans (Nat.le_succ _)⟩
    · rcases hturns.count_le hne.symm with ⟨hle, hge⟩
      exact ⟨hle.trans (Nat.le_succ _), hge⟩
  · intro s cs clientId hcreate l
    have hreach := (Reachable.create hcreate).accountedRun {} cs
    have hstrategy := hreach.strategy_eq.trans (Reachable.create hcreate).strategy_eq.symm
    have hfifo := createScheduler_fifo hcreate rfl cs (.client clientId)
    have hkey : ∀ r, (accountedRun (AnyScheduler.roundRobin s) {} cs).1.queueKey r =
        .client r.clientId := by
      intro r
      generalize accountedRun (AnyScheduler.roundRobin s) {} cs = run at hstrategy
      rcases run with ⟨s', l⟩
      cases s' with
      | roundRobin s' => rfl
      | _ => simp [strategy] at hstrategy
    simp only [hkey, QueueKey.client.injEq] at hfifo
    exact (List.sublist_append_left _ _).trans hfifo

def fourTurns : SchedulingConfig Rat :=
  { plainConfig.scheduling with strategy := "round_robin" }

/-- Two requests of `a` and two of `b` are queued. -/
def fourQueued : RoundRobinScheduler Rat :=
  let submitted (clientId : String) (n : Nat) (s : RoundRobinScheduler Rat) :=
    (s.submit (plainRequest clientId "policy" n n)).state
  submitted "b" 3 (submitted "b" 2 (submitted "a" 1 (submitted "a" 0 (.init fourTurns))))

/-- Three batches go to `a`, `b` and `a`. -/
theorem roundRobin_fair_four :
    let submitted (clientId : String) (n : Nat) : SchedulerCall Rat :=
      .submit (momentAt n) (plainRequest clientId "policy" n n)
    let cs := [submitted "a" 0, submitted "a" 1, submitted "b" 2, submitted "b" 3]
    let next : Turn Rat := .later (.call (.nextBatch 4))
    let served := (gives turn (.roundRobin fourQueued) [next, next, next]).1.map
      InferenceRequest.clientId
    let batches : List (SchedulerCall Rat) := [.nextBatch 4, .nextBatch 4]
    let l := (accountedRun (AnyScheduler.roundRobin (.init fourTurns)) {} (cs ++ batches)).2
    served = ["a", "b", "a"] ∧
      ((Alternating "a" "b" (ofPair "a" "b" served) ∨ Alternating "b" "a" (ofPair "a" "b" served)) ∧
        served.count "a" ≤ served.count "b" + 1 ∧ served.count "b" ≤ served.count "a" + 1) ∧
      (l.returned.filter fun r => r.clientId = "a").Sublist
        (l.enqueued.filter fun r => r.clientId = "a") := by
  intro submitted cs next served batches l
  have hinit : Reachable fourTurns (.roundRobin (.init fourTurns)) := .create rfl
  have hreach : Reachable fourTurns (.roundRobin fourQueued) := hinit.accountedRun {} cs
  refine ⟨by decide +kernel, ?_, (roundRobin_fair fourTurns).2 (.init fourTurns) _ "a" rfl⟩
  exact (roundRobin_fair fourTurns).1 fourQueued hreach "a" "b" [next, next, next] (by decide)
    ⟨⟨by decide +kernel, by decide +kernel⟩, ⟨by decide +kernel, by decide +kernel⟩,
      ⟨by decide +kernel, by decide +kernel⟩, trivial⟩

end AnyScheduler
end Inferential
