import Inferential.Scheduler.QueueOrder

/-!
# FifoOrder — deques give requests out in the order in which they were enqueued
-/

namespace Inferential

open Machine

variable {ν : Type} [Score ν]

namespace AnyScheduler

/-- Of each queue, the requests that it has given out and then those that it holds, in the order in
which they were enqueued. -/
def Fifo (s : AnyScheduler ν) (l : Ledger ν) : Prop :=
  ∀ key, (l.returned.filter (fun x => s.queueKey x = key) ++ s.held key).Sublist
    (l.enqueued.filter fun x => s.queueKey x = key)

/-- A call that enqueues the requests of `came`, one at most. -/
theorem Fifo.acts {new : InferenceRequest ν → Prop} {s s' : AnyScheduler ν} {l l' : Ledger ν}
    {out came : List (InferenceRequest ν)} (h : s.Fifo l) (hfifo : s.discipline = .fifo)
    (hact : Acts new s s' out) (hnew : ∀ x, new x → came = [x])
    (hreturned : l'.returned = l.returned ++ out) (henqueued : l'.enqueued = l.enqueued ++ came) :
    s'.Fifo l' := by
  intro key
  have hkey : ∀ l : List (InferenceRequest ν),
      l.filter (fun x => s'.queueKey x = key) = l.filter fun x => s.queueKey x = key := fun l =>
    List.filter_congr fun x _ => by rw [hact.queueKey]
  have hwork := hact.works key
  rw [hfifo] at hwork
  have hstep : (out.filter (fun x => s.queueKey x = key) ++ s'.held key).Sublist
      (s.held key ++ came.filter fun x => s.queueKey x = key) := by
    refine hwork.fifo_sublist fun x hx => ?_
    simp [hnew x hx.1, hx.2]
  rw [hreturned, henqueued, hkey, hkey, List.filter_append, List.filter_append, List.append_assoc]
  calc
    List.Sublist _ (l.returned.filter (fun x => s.queueKey x = key) ++
        (s.held key ++ came.filter fun x => s.queueKey x = key)) := hstep.append_left _
    List.Sublist _ ((l.returned.filter (fun x => s.queueKey x = key) ++ s.held key) ++
        came.filter fun x => s.queueKey x = key) := by rw [List.append_assoc]
    List.Sublist _ (l.enqueued.filter (fun x => s.queueKey x = key) ++
        came.filter fun x => s.queueKey x = key) := (h key).append_right _

/-- A deque takes every request. -/
theorem resubmit_fifo (m : Moment ν) (r : InferenceRequest ν) {s : AnyScheduler ν}
    (hfifo : s.discipline = .fifo) : (Scheduler.resubmit m r s).raised = none := by
  cases s with
  | batchOptimized s => rfl
  | priorityTiered s => rfl
  | roundRobin s => rfl
  | _ => cases hfifo

theorem Enqueues.eq_of_fifo {s : AnyScheduler ν} {m : Moment ν} {r x : InferenceRequest ν}
    (hfifo : s.discipline = .fifo) (h : s.Enqueues m r x) : x = r := by
  unfold Enqueues at h
  rw [hfifo] at h
  exact h

theorem Fifo.resubmit {s : AnyScheduler ν} {l : Ledger ν} (h : s.Fifo l)
    (hfifo : s.discipline = .fifo) (hown : s.Own) (m : Moment ν) (r : InferenceRequest ν)
    {o : Submitted (AnyScheduler ν) ν} (hstate : o.state = (Scheduler.resubmit m r s).state)
    (hraised : o.raised = (Scheduler.resubmit m r s).raised) :
    o.state.Fifo (l.enqueue r o) := by
  rw [hstate]
  refine h.acts hfifo (resubmit_acts m r hown)
    (fun x hx => by rw [hx.2.eq_of_fifo hfifo]) (List.append_nil _).symm ?_
  simp [Ledger.enqueue, hraised, resubmit_fifo m r hfifo]

/-- Every call keeps the order. -/
theorem accountedCall_fifo {s : AnyScheduler ν} {l : Ledger ν} (h : s.Fifo l)
    (hfifo : s.discipline = .fifo) (hinv : s.Inv) (hown : s.Own) (c : SchedulerCall ν) :
    (accountedCall s l c).1.Fifo (accountedCall s l c).2 := by
  cases c with
  | submit m r =>
      show (Scheduler.submit m r s).state.Fifo
        { l.enqueue r (Scheduler.submit m r s) with submits := l.submits + 1 }
      rcases submit_cases m r s with ⟨-, ho⟩ | ⟨-, -, ho⟩ | ⟨hfull, -, ho⟩
      · rw [ho]
        exact h.resubmit hfifo hown m r rfl rfl
      · -- a refused request is not enqueued
        rw [ho]
        exact h
      · have hdrop := dropOldest_acts hown (hfull.stored_ne_nil hinv)
        have hkept : s.dropOldest.2.Fifo l :=
          h.acts hfifo hdrop nofun (List.append_nil _).symm (List.append_nil _).symm
        rw [ho]
        exact hkept.resubmit (hdrop.discipline.trans hfifo) (hdrop.own hown) m r rfl rfl
  | resubmit m r => exact h.resubmit hfifo hown m r rfl rfl
  | nextBatch now =>
      exact h.acts hfifo (nextBatch_gives now hown).acts nofun rfl (List.append_nil _).symm
  | tick clock =>
      exact h.acts hfifo (tick_sweeps clock s).acts nofun (List.append_nil _).symm
        (List.append_nil _).symm
  | onClientConnected clientId =>
      exact h.acts hfifo (connected_acts clientId s) nofun (List.append_nil _).symm
        (List.append_nil _).symm
  | onClientDisconnected clientId =>
      rcases disconnected_sweeps clientId hown with ⟨t, rfl, -⟩ | ⟨-, hsweeps⟩
      · cases hfifo
      · exact h.acts hfifo hsweeps.acts nofun (List.append_nil _).symm (List.append_nil _).symm

theorem accountedRun_fifo {s : AnyScheduler ν} {l : Ledger ν} (h : s.Fifo l)
    (hfifo : s.discipline = .fifo) (hinv : s.Inv) (hown : s.Own) (cs : List (SchedulerCall ν)) :
    (accountedRun s l cs).1.Fifo (accountedRun s l cs).2 := by
  induction cs generalizing s l with
  | nil => exact h
  | cons c cs ih =>
      rcases turn_acts (.later (.call c)) hinv hown with ⟨s₁, new, hdrop, hact, -⟩
      have hstate : (accountedCall s l c).1 = (s.turn (.later (.call c))).2 :=
        accountedCall_state s l c
      refine ih (accountedCall_fifo h hfifo hinv hown c) ?_ ?_ ?_
      · rw [hstate, hact.discipline, hdrop.discipline]
        exact hfifo
      · rw [hstate]
        exact turn_inv _ hinv
      · rw [hstate]
        exact hact.own (hdrop.own hown)

theorem Reachable.accountedRun {config : SchedulingConfig ν} {s : AnyScheduler ν}
    (h : Reachable config s) (l : Ledger ν) (cs : List (SchedulerCall ν)) :
    Reachable config (accountedRun s l cs).1 := by
  induction cs generalizing s l with
  | nil => exact h
  | cons c cs ih => exact ih (h.call l c) _

/-- From the start, a deque scheduler gives out the requests of a queue in the order in which they
were enqueued, and those it still holds come after them. -/
theorem createScheduler_fifo {config : SchedulingConfig ν} {s : AnyScheduler ν}
    (h : createScheduler config = .ok s) (hfifo : s.discipline = .fifo)
    (cs : List (SchedulerCall ν)) : (accountedRun s {} cs).1.Fifo (accountedRun s {} cs).2 := by
  have hempty : s.Fifo {} := fun key => by simp [createScheduler_held h key]
  exact accountedRun_fifo hempty hfifo (createScheduler_fresh h).1 (createScheduler_kept h).own cs

end AnyScheduler
end Inferential
