import Inferential.Machine.Simulation
import Inferential.Server.Frames

/-!
# Hints — waking a loop only saves it time

The event of a model ends the wait of its loop, which the timeout would end too.  Whatever a server
does with events and predictive wakes, it can do without them: loops that only time out take the
same requests in the same order.
-/

namespace Inferential

open PyStd Machine

variable {ν : Type} [Score ν]

def ModelLoop.asleep (loop : ModelLoop) : ModelLoop := { loop with event := false }

namespace Server

/-- All events forgotten. -/
def asleep (s : Server ν) : Server ν := { s with loops := s.loops.map ModelLoop.asleep }

/-- The predictive wake loop wakes loops, and a loop is woken by its event. -/
def Action.Wakes : Action ν → Prop
  | .predictiveWake _ => True
  | .loopResume _ woken => woken = true
  | _ => False

/-- A step that is more than the end of a wait. -/
def Action.visible : Action ν → Option (Action ν)
  | .predictiveWake _ => none
  | .loopResume _ _ => none
  | a => some a

section Steps

variable {config : InferentialConfig ν} {pb : Protobuf ν} {s : Server ν}

/-! ## Loops -/

theorem asleep_loop (i : Nat) : s.asleep.loops[i]? = s.loops[i]?.map ModelLoop.asleep :=
  List.getElem?_map ..

/-- What is done to a loop does not depend on its event. -/
theorem modify_asleep (loops : List ModelLoop) (i : Nat) {f g : ModelLoop → ModelLoop}
    (hfg : ∀ loop, (g loop.asleep).asleep = (f loop).asleep) :
    ((loops.map ModelLoop.asleep).modify i g).map ModelLoop.asleep =
      (loops.modify i f).map ModelLoop.asleep := by
  refine List.ext_getElem? fun j => ?_
  simp only [List.getElem?_map, List.getElem?_modify]
  cases loops[j]? with
  | none => rfl
  | some loop =>
      by_cases hj : i = j
      · simp [hj, hfg]
      · simp [hj, ModelLoop.asleep]

theorem asleep_congr {t : Server ν} (hsame : t = { s with loops := t.loops })
    (hloops : t.loops.map ModelLoop.asleep = s.loops.map ModelLoop.asleep) :
    t.asleep = s.asleep := by
  rw [hsame]
  simp only [asleep, hloops]

theorem updateLoop_asleep (i : Nat) {f g : ModelLoop → ModelLoop}
    (hfg : ∀ loop, (g loop.asleep).asleep = (f loop).asleep) :
    (s.asleep.updateLoop i g).asleep = (s.updateLoop i f).asleep :=
  asleep_congr rfl (modify_asleep s.loops i hfg)

/-- Nothing but the event of a loop changes. -/
theorem updateLoop_hidden (i : Nat) {f : ModelLoop → ModelLoop}
    (hf : ∀ loop, (f loop).asleep = loop.asleep) : (s.updateLoop i f).asleep = s.asleep := by
  refine asleep_congr rfl (List.ext_getElem? fun j => ?_)
  simp only [updateLoop, List.getElem?_map, List.getElem?_modify]
  cases s.loops[j]? with
  | none => rfl
  | some loop => by_cases hj : i = j <;> simp [hj, hf]

theorem asleep_scheduler : s.asleep.scheduler = s.scheduler := rfl

theorem asleep_tasks : s.asleep.tasks = s.tasks := rfl

theorem setEvent_asleep (modelId : String) : (s.setEvent modelId).asleep = s.asleep := by
  unfold setEvent
  split
  · rfl
  · exact updateLoop_hidden _ fun _ => rfl

theorem predictiveWake_asleep (now : String → Rat) :
    (s.predictiveWake config now).asleep = s.asleep :=
  predictiveWake_rel config (fun s s' => s'.asleep = s.asleep) (fun _ => rfl)
    (fun _ _ _ h h' => h'.trans h) (fun _ modelId => setEvent_asleep modelId) now s

theorem asleep_asleep : s.asleep.asleep = s.asleep := by
  simp only [asleep, List.map_map]
  rfl

theorem asleep_of_eq {t : Server ν} (h : t = s.asleep) : t.asleep = s.asleep := by
  rw [h, asleep_asleep]

/-! ## Steps that do not look at the loops -/

theorem track_asleep (msg : IncomingObservation) (decoded : DecodedObservation ν) (tracked : Rat) :
    s.asleep.track msg decoded tracked = (s.track msg decoded tracked).asleep := by
  unfold track
  cases hnew : (s.clients.onObservation decoded.clientId decoded.modelId).1 with
  | false => simp only [asleep, hnew]; rfl
  | true => simp only [asleep, hnew]; rfl

theorem checkClient_asleep (now : Rat) (clientId : String) :
    s.asleep.checkClient config now clientId = (s.checkClient config now clientId).asleep := by
  unfold checkClient
  have hsilent : s.asleep.isSilent config now clientId = s.isSilent config now clientId := rfl
  rw [hsilent]
  split <;> rfl

theorem tick_asleep (expiry : InferenceRequest ν → Rat) (now : String → Rat) :
    s.asleep.tick config expiry now = (s.tick config expiry now).asleep := by
  have hchecks : ∀ (clientIds : List String) (s : Server ν),
      clientIds.foldl (fun s clientId => s.checkClient config (now clientId) clientId) s.asleep =
        (clientIds.foldl (fun s clientId => s.checkClient config (now clientId) clientId)
          s).asleep := by
    intro clientIds s
    exact List.foldl_hom asleep fun s clientId => checkClient_asleep (now clientId) clientId
  have hexpired : (Scheduler.tick expiry s.asleep.scheduler).1 =
      (Scheduler.tick expiry s.scheduler).1 := rfl
  unfold tick
  by_cases hnone : (Scheduler.tick expiry s.scheduler).1 = 0
  · simp only [hexpired, hnone, if_true]
    refine Eq.trans ?_ (hchecks _ _)
    rfl
  · simp only [hexpired, hnone, if_false]
    refine Eq.trans ?_ (hchecks _ _)
    rfl

theorem useScheduler_asleep (registered : String → Bool) (strategy : String)
    (policy : Option String) (weights : Option (DeadlineAwareConfig ν)) :
    (s.asleep.useScheduler config registered strategy policy weights).2 =
      (s.useScheduler config registered strategy policy weights).2.asleep := by
  unfold useScheduler
  cases createScheduler (swapConfig config.scheduling strategy weights) with
  | error e => rfl
  | ok scheduler =>
      cases policy with
      | none => rfl
      | some policyName =>
          dsimp only
          cases scheduler.usePolicy registered policyName <;> rfl

theorem legacyTop_asleep (first : Rat) (clock : Nat → Rat) (dispatchTime : Rat) :
    s.asleep.legacyTop config first clock dispatchTime =
      (s.legacyTop config first clock dispatchTime).asleep := by
  cases hlegacy : s.legacy with
  | top =>
      simp only [legacyTop, asleep, hlegacy]
      split
      · simp [hlegacy]
      · split <;> simp [record, recordAll, log]
  | _ => simp [legacyTop, asleep, hlegacy]

theorem legacyReturned_asleep (result : Except PyError (List DispatchResult)) :
    s.asleep.legacyReturned result = (s.legacyReturned result).asleep := by
  cases hlegacy : s.legacy with
  | dispatching batch =>
      simp only [legacyReturned, asleep, hlegacy]
      cases result <;> rfl
  | _ => simp [legacyReturned, asleep, hlegacy]

theorem legacyResult_asleep (issuedAt now : Rat) (m : Moment ν) :
    s.asleep.legacyResult config issuedAt now m =
      (s.legacyResult config issuedAt now m).asleep := by
  cases hlegacy : s.legacy with
  | processing batch results =>
      cases results with
      | nil => simp only [legacyResult, asleep, hlegacy]
      | cons result results =>
          simp only [legacyResult, asleep, hlegacy]
          split
          · rfl
          · split
            · split <;> rfl
            · rfl
  | _ => simp [legacyResult, asleep, hlegacy]

theorem legacySent_asleep (outcome : SendOutcome) :
    s.asleep.legacySent outcome = (s.legacySent outcome).asleep := by
  cases hlegacy : s.legacy with
  | sending batch result results =>
      simp only [legacySent, asleep, hlegacy]
      cases outcome <;> rfl
  | _ => simp [legacySent, asleep, hlegacy]

/-! ## Steps that change the loops -/

/-- The loop of a model is started asleep. -/
theorem ensureModelDispatch_asleep (modelId : String) :
    s.asleep.ensureModelDispatch config modelId =
      (s.ensureModelDispatch config modelId).asleep := by
  unfold ensureModelDispatch
  cases hknown : s.modelEvents.contains modelId with
  | true => simp [asleep, hknown]
  | false => simp [asleep, ModelLoop.asleep, hknown]

theorem submitRequest_asleep (m : Moment ν) (request : InferenceRequest ν) :
    (s.asleep.submitRequest config m request).asleep =
      (s.submitRequest config m request).asleep := by
  have hsubmit : Scheduler.submit m request s.asleep.scheduler =
      Scheduler.submit m request s.scheduler := rfl
  unfold submitRequest
  cases hraised : (Scheduler.submit m request s.scheduler).raised with
  | some e => cases e <;> simp only [hsubmit, hraised] <;> exact asleep_of_eq rfl
  | none =>
      simp only [hsubmit, hraised]
      split
      · rw [setEvent_asleep, setEvent_asleep]
        refine asleep_of_eq (Eq.trans ?_ (ensureModelDispatch_asleep _))
        rfl
      · exact asleep_of_eq rfl

theorem receive_asleep (msg : IncomingObservation) (clock : ReceiveClock) (m : Moment ν) :
    (s.asleep.receive config pb msg clock m).asleep =
      (s.receive config pb msg clock m).asleep := by
  unfold receive
  split
  · exact asleep_of_eq rfl
  · exact asleep_of_eq rfl
  · next decoded _ =>
      dsimp only
      rw [track_asleep]
      refine Eq.trans ?_ (submitRequest_asleep m _)
      rfl

theorem loopAcquire_asleep (i : Nat) :
    (s.asleep.loopAcquire i).asleep = (s.loopAcquire i).asleep := by
  unfold loopAcquire
  rw [asleep_loop]
  cases s.loops[i]? with
  | none => exact asleep_asleep
  | some loop =>
      dsimp only [Option.map_some, ModelLoop.asleep]
      split
      · exact updateLoop_asleep i fun _ => rfl
      · exact asleep_asleep

theorem loopRelease_asleep (i : Nat) (pc : LoopPc) :
    (s.asleep.loopRelease i pc).asleep = (s.loopRelease i pc).asleep := by
  unfold loopRelease
  exact updateLoop_asleep i fun _ => rfl

theorem loopProceed_asleep (i : Nat) (now : Rat) :
    (s.asleep.loopProceed i now).asleep = (s.loopProceed i now).asleep := by
  unfold loopProceed
  rw [asleep_loop]
  cases s.loops[i]? with
  | none => exact asleep_asleep
  | some loop =>
      dsimp only [Option.map_some, ModelLoop.asleep]
      rw [asleep_scheduler]
      by_cases hpc : loop.pc = .holding
      · simp only [hpc, if_true]
        by_cases haware : s.scheduler.isModelAware = true
        · simp only [haware, if_true]
          cases (s.scheduler.nextBatchForModel loop.modelId).1 with
          | nil =>
              refine Eq.trans ?_ (loopRelease_asleep i .waiting)
              rfl
          | cons request requests =>
              exact asleep_congr rfl (modify_asleep s.loops i fun _ => rfl)
        · simp only [haware]
          exact loopRelease_asleep i .sleeping
      · simp only [hpc, if_false]
        exact asleep_asleep

theorem finishTask_asleep (i : Nat) (task : DispatchTask ν) :
    (s.asleep.finishTask i task).asleep = (s.finishTask i task).asleep :=
  asleep_congr rfl (modify_asleep s.loops task.loop fun _ => rfl)

theorem taskStart_asleep (i : Nat) : s.asleep.taskStart i = (s.taskStart i).asleep := by
  unfold taskStart
  rw [asleep_tasks]
  cases s.tasks[i]? with
  | none => rfl
  | some task =>
      cases hpc : task.pc with
      | created =>
          simp only [hpc]
          rfl
      | _ => simp only [hpc]

theorem taskReturned_asleep (i : Nat) (result : Except PyError (List DispatchResult)) :
    (s.asleep.taskReturned i result).asleep = (s.taskReturned i result).asleep := by
  unfold taskReturned
  rw [asleep_tasks]
  cases s.tasks[i]? with
  | none => exact asleep_asleep
  | some task =>
      cases hpc : task.pc with
      | dispatching =>
          simp only [hpc]
          cases result with
          | error e => exact finishTask_asleep i task
          | ok results => exact asleep_of_eq rfl
      | _ => simp only [hpc]; exact asleep_asleep

theorem taskResult_asleep (i : Nat) (issuedAt now : Rat) (m : Moment ν) :
    (s.asleep.taskResult config i issuedAt now m).asleep =
      (s.taskResult config i issuedAt now m).asleep := by
  unfold taskResult
  rw [asleep_tasks]
  cases s.tasks[i]? with
  | none => exact asleep_asleep
  | some task =>
      cases hpc : task.pc with
      | processing results =>
          cases results with
          | nil =>
              simp only [hpc]
              exact finishTask_asleep i task
          | cons result results =>
              simp only [hpc]
              split
              · exact asleep_of_eq rfl
              · split
                · rw [asleep_scheduler]
                  cases (Scheduler.resubmit m (retried task.request) s.scheduler).raised with
                  | some e => exact asleep_congr rfl (modify_asleep s.loops task.loop fun _ => rfl)
                  | none => exact asleep_of_eq rfl
                · exact asleep_of_eq rfl
      | _ => simp only [hpc]; exact asleep_asleep

theorem taskSent_asleep (i : Nat) (outcome : SendOutcome) :
    (s.asleep.taskSent i outcome).asleep = (s.taskSent i outcome).asleep := by
  unfold taskSent
  rw [asleep_tasks]
  cases s.tasks[i]? with
  | none => exact asleep_asleep
  | some task =>
      cases hpc : task.pc with
      | sending result results =>
          simp only [hpc]
          cases outcome with
          | sent => exact asleep_of_eq rfl
          | zmqError message => exact asleep_of_eq rfl
          | raised message => exact finishTask_asleep i task
      | _ => simp only [hpc]; exact asleep_asleep

/-! ## The end of a wait -/

theorem loopResume_asleep (i : Nat) :
    (s.asleep.loopResume i false).asleep = (s.loopResume i false).asleep := by
  unfold loopResume
  rw [asleep_loop]
  cases s.loops[i]? with
  | none => exact asleep_asleep
  | some loop =>
      cases hpc : loop.pc <;> simp only [Option.map_some, ModelLoop.asleep, hpc]
      · exact asleep_asleep
      · exact asleep_asleep
      · exact updateLoop_asleep i fun _ => rfl
      · exact updateLoop_asleep i fun _ => rfl

/-- A loop that is woken goes where its timeout would have taken it. -/
theorem loopResume_woken (i : Nat) :
    (s.loopResume i true).asleep = (s.loopResume i false).asleep ∨ s.loopResume i true = s := by
  unfold loopResume
  cases hloop : s.loops[i]? with
  | none => exact .inr rfl
  | some loop =>
      cases hpc : loop.pc with
      | waiting =>
          cases hevent : loop.event with
          | true =>
              simp only [hpc, hevent, if_true]
              -- both go where a sleeping loop would go
              let acquiring (loop : ModelLoop) : ModelLoop := { loop with pc := .acquiring }
              exact .inl ((updateLoop_asleep (g := acquiring) i fun _ => rfl).symm.trans
                (updateLoop_asleep i fun _ => rfl))
          | false => exact .inr (by simp [hpc, hevent])
      | _ => simp [hpc]

/-! ## All steps -/

/-- A step that wakes nobody goes the same way when all events are forgotten. -/
theorem step_asleep {a : Action ν} (ha : ¬ a.Wakes) :
    (step config pb s.asleep a).asleep = (step config pb s a).asleep := by
  cases a with
  | receive msg clock m => exact receive_asleep msg clock m
  | tick expiry now => exact asleep_of_eq (tick_asleep expiry now)
  | predictiveWake now => exact absurd trivial ha
  | useScheduler registered strategy policy weights =>
      exact asleep_of_eq (useScheduler_asleep registered strategy policy weights)
  | legacyTop first clock dispatchTime =>
      exact asleep_of_eq (legacyTop_asleep first clock dispatchTime)
  | legacyReturned result => exact asleep_of_eq (legacyReturned_asleep result)
  | legacyResult issuedAt now m => exact asleep_of_eq (legacyResult_asleep issuedAt now m)
  | legacySent outcome => exact asleep_of_eq (legacySent_asleep outcome)
  | loopAcquire i => exact loopAcquire_asleep i
  | loopProceed i now => exact loopProceed_asleep i now
  | loopResume i woken =>
      cases woken with
      | true => exact absurd rfl ha
      | false => exact loopResume_asleep i
  | taskStart i => exact asleep_of_eq (taskStart_asleep i)
  | taskReturned i result => exact taskReturned_asleep i result
  | taskResult i issuedAt now m => exact taskResult_asleep i issuedAt now m
  | taskSent i outcome => exact taskSent_asleep i outcome

end Steps

/-! ## Runs -/

section Runs

variable (config : InferentialConfig ν) (pb : Protobuf ν)

/-- A wake is answered by nothing, or by a timeout. -/
theorem timeouts_simulate : Simulates (step config pb) (step config pb) Action.visible
    Action.visible (fun _ _ => True) (fun _ a => ¬ a.Wakes) fun s t => t.asleep = s.asleep := by
  intro s t a hrel _
  by_cases ha : a.Wakes
  · cases a with
    | predictiveWake now =>
        exact ⟨[], trivial, rfl, hrel.trans (predictiveWake_asleep now).symm⟩
    | loopResume i woken =>
        cases ha
        rcases loopResume_woken (s := s) i with hlike | hstill
        · refine ⟨[.loopResume i false], ⟨by simp [Action.Wakes], trivial⟩, rfl, ?_⟩
          calc
            (t.loopResume i false).asleep = (t.asleep.loopResume i false).asleep :=
              (loopResume_asleep i).symm
            _ = (s.asleep.loopResume i false).asleep := by rw [hrel]
            _ = (s.loopResume i false).asleep := loopResume_asleep i
            _ = (s.loopResume i true).asleep := hlike.symm
        · refine ⟨[], trivial, rfl, hrel.trans ?_⟩
          exact congrArg asleep hstill.symm
    | _ => exact absurd ha id
  · refine ⟨[a], ⟨ha, trivial⟩, ?_, ?_⟩
    · cases a <;> rfl
    · calc
        (step config pb t a).asleep = (step config pb t.asleep a).asleep := (step_asleep ha).symm
        _ = (step config pb s.asleep a).asleep := by rw [hrel]
        _ = (step config pb s a).asleep := step_asleep ha

/-- For every run there is one without wakes, predictive or by an event, that takes the same steps
in the same order but for the ends of the waits, and that ends in the same state but for the
events: waking a loop changes neither what is dispatched nor what is answered. -/
theorem wakes_are_hints (s₀ : Server ν) (actions : List (Action ν)) :
    ∃ actions', (∀ a ∈ actions', ¬ a.Wakes) ∧
      actions'.filterMap Action.visible = actions.filterMap Action.visible ∧
      (run config pb s₀ actions').asleep = (run config pb s₀ actions).asleep := by
  have hall : Along (step config pb) (fun _ _ => True) s₀ actions :=
    along_forall.mpr fun _ _ => trivial
  rcases (timeouts_simulate config pb).run (s := s₀) (t := s₀) rfl hall with
    ⟨actions', htimeouts, hvisible, hend⟩
  exact ⟨actions', along_forall.mp htimeouts, hvisible, hend⟩

end Runs
end Server
end Inferential
