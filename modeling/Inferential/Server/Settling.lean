import Inferential.Scheduler.Readiness
import Inferential.Server.Drain
import Inferential.Server.Holdings

/-!
# Settling — the single loop gets its work done

While the single loop owns the queue, whichever scheduler it is, every request that has arrived is
answered, given up or dropped: each life ends, timers run out, and a loop that turns takes what is
there.
-/

namespace Inferential

open PyStd Machine

variable {ν : Type}

/-! ## What is left of the lives -/

/-- The number of steps that the life of a request at this place can still take. -/
def Place.eventsLeft (maxRetries : Nat) (p : Place) : Nat :=
  let retries := 4 * (maxRetries - p.retryCount)
  match p.stage with
  | .fresh => retries + 4
  | .queued => retries + 4
  | .taken => retries + 3
  | .dispatching => retries + 2
  | .returned _ => retries + 1
  | .responded => retries

namespace FlowState

def eventsLeft (maxRetries : Nat) (v : FlowState ν) : Nat :=
  total (Place.eventsLeft maxRetries) v.roster

def eventsSeen (v : FlowState ν) : Nat := (lives v.history).length

def admitted (v : FlowState ν) : Nat := (v.history.filterMap Event.admission).length

end FlowState

/-- Unless a request is admitted, what has happened was still to come, and nobody appears. -/
structure Spends (maxRetries : Nat) (v v' : FlowState ν) : Prop where
  admitted : v.admitted ≤ v'.admitted
  seen : v.eventsSeen ≤ v'.eventsSeen
  left : v'.admitted = v.admitted →
    v'.eventsLeft maxRetries + v'.eventsSeen ≤ v.eventsLeft maxRetries + v.eventsSeen
  empty : v'.admitted = v.admitted → v.roster = [] → v'.roster = []

section Spending

variable {maxRetries : Nat} {leaky : Prop} {v v' v'' : FlowState ν}

theorem Advance.spends {p p' : Place} {e : Event ν} (h : Advance maxRetries p e p') :
    p'.eventsLeft maxRetries + 1 ≤ p.eventsLeft maxRetries := by
  cases h with
  | taken owner hstage hid => simp [Place.eventsLeft, hstage]
  | dispatched hstage => simp [Place.eventsLeft, hstage]
  | returned success hstage => simp [Place.eventsLeft, hstage]
  | requeued hstage hretry =>
      simp only [Place.eventsLeft, hstage]
      omega
  | responded hstage => simp [Place.eventsLeft, hstage]

theorem Event.admission_of_life {e : Event ν} (h : e.life = none) : e.admission = none := by
  cases e with
  | accepted r => cases h
  | _ => rfl

namespace Spends

theorem trans (h : Spends maxRetries v v') (h' : Spends maxRetries v' v'') :
    Spends maxRetries v v'' := by
  have hmiddle : v''.admitted = v.admitted →
      v'.admitted = v.admitted ∧ v''.admitted = v'.admitted := by
    have hfirst := h.admitted
    have hsecond := h'.admitted
    omega
  refine ⟨h.admitted.trans h'.admitted, h.seen.trans h'.seen, ?_, ?_⟩
  · intro hsame
    exact (h'.left (hmiddle hsame).2).trans (h.left (hmiddle hsame).1)
  · intro hsame hempty
    exact h'.empty (hmiddle hsame).2 (h.empty (hmiddle hsame).1 hempty)

/-- Events that are no part of a life, while requests may leave. -/
theorem leave {gone : List Place} {events : List (Event ν)}
    (hroster : v.roster.Perm (gone ++ v'.roster)) (hhistory : v'.history = v.history ++ events)
    (hevents : ∀ e ∈ events, e.life = none) : Spends maxRetries v v' := by
  have hseen : v'.eventsSeen = v.eventsSeen := by
    simp [FlowState.eventsSeen, hhistory, lives_append, lives_eq_nil hevents]
  have hadmitted : v'.admitted = v.admitted := by
    have hnone : events.filterMap Event.admission = [] :=
      List.filterMap_eq_nil_iff.mpr fun e he => Event.admission_of_life (hevents e he)
    simp [FlowState.admitted, hhistory, hnone]
  refine ⟨hadmitted.ge, hseen.ge, fun _ => ?_, ?_⟩
  · unfold FlowState.eventsLeft
    rw [hseen, total_perm _ hroster, total_append]
    omega
  · intro _ hempty
    rw [hempty] at hroster
    exact (List.append_eq_nil_iff.mp hroster.symm.eq_nil).2

end Spends

theorem Move.spends (h : Move maxRetries leaky v v') : Spends maxRetries v v' := by
  cases h with
  | accept r hid hretry hroster hhistory hmetrics hnext =>
      have hadmitted : v'.admitted = v.admitted + 1 := by
        simp [FlowState.admitted, hhistory, Event.admission]
      refine ⟨by omega, ?_, by omega, by omega⟩
      simp [FlowState.eventsSeen, hhistory, lives_append]
  | enqueue p rest hstage hfrom hto hhistory hmetrics hnext =>
      have hsame : Place.eventsLeft maxRetries { p with stage := .queued } =
          p.eventsLeft maxRetries := by simp [Place.eventsLeft, hstage]
      refine ⟨by simp [FlowState.admitted, hhistory], by simp [FlowState.eventsSeen, hhistory],
        fun _ => ?_, ?_⟩
      · unfold FlowState.eventsLeft FlowState.eventsSeen
        rw [total_perm _ hfrom, total_perm _ hto, hhistory, total_cons, total_cons, hsame]
      · intro _ hempty
        rw [hempty] at hfrom
        cases hfrom.symm.eq_nil
  | advance p p' e rest points hadvance hpoints hfrom hto hhistory hmetrics hnext =>
      rcases hadvance.life with ⟨-, -, harrived, -, -, l, hlife, -⟩
      have hadmission : e.admission = none := by
        cases e with
        | accepted r => cases harrived
        | _ => rfl
      have hadmitted : v'.admitted = v.admitted := by
        simp [FlowState.admitted, hhistory, hadmission]
      have hseen : v'.eventsSeen = v.eventsSeen + 1 := by
        simp [FlowState.eventsSeen, hhistory, lives, hlife]
      refine ⟨hadmitted.ge, by omega, fun _ => ?_, ?_⟩
      · have hspent := hadvance.spends
        unfold FlowState.eventsLeft
        rw [hseen, total_perm _ hfrom, total_perm _ hto, total_cons, total_cons]
        omega
      · intro _ hempty
        rw [hempty] at hfrom
        cases hfrom.symm.eq_nil
  | leave gone events points hevents hcount hroster hhistory hmetrics hnext =>
      exact .leave hroster hhistory hevents
  | lose hleaky gone hroster hhistory hmetrics hnext =>
      exact .leave hroster (hhistory.trans (List.append_nil _).symm) (by simp)

theorem Flows.spends (h : Flows maxRetries leaky v v') : Spends maxRetries v v' := by
  induction h with
  | refl => exact ⟨le_refl _, le_refl _, fun _ => le_refl _, fun _ hempty => hempty⟩
  | tail _ hmove ih => exact ih.trans hmove.spends

end Spending

/-! ## How far the coroutines are from their ends -/

def LegacyLoop.stepsLeft : LegacyLoop ν → Nat
  | .top => 0
  | .dispatching _ => 2
  | .processing _ results => 2 * results.length + 1
  | .sending _ _ results => 2 * results.length + 2
  | .dead => 0

def DispatchTask.stepsLeft (task : DispatchTask ν) : Nat :=
  match task.pc with
  | .created => 3
  | .dispatching => 2
  | .processing results => 2 * results.length + 1
  | .sending _ results => 2 * results.length + 2

namespace Server

variable [Score ν]

def stepsLeft (s : Server ν) : Nat := s.legacy.stepsLeft + total DispatchTask.stepsLeft s.tasks

def unsettled (config : InferentialConfig ν) (s : Server ν) : Nat ×ₗ Nat ×ₗ Nat :=
  rank₃ (s.view.eventsLeft (maxRetries config)) s.stepsLeft 0

/-! ### Steps that go on -/

/-- A step of a request on its way, of a coroutine that stands where the step begins. -/
def GoesOn (s : Server ν) : Action ν → Prop
  | .legacyReturned _ => ∃ batch, s.legacy = .dispatching batch
  | .legacyResult _ _ _ => ∃ batch results, s.legacy = .processing batch results
  | .legacySent _ => ∃ batch result results, s.legacy = .sending batch result results
  | .taskStart i => ∃ task, s.tasks[i]? = some task ∧ task.pc = .created
  | .taskReturned i _ => ∃ task, s.tasks[i]? = some task ∧ task.pc = .dispatching
  | .taskResult i _ _ _ => ∃ task results, s.tasks[i]? = some task ∧ task.pc = .processing results
  | .taskSent i _ => ∃ task result results, s.tasks[i]? = some task ∧
      task.pc = .sending result results
  | _ => False

/-- The single loop takes a batch. -/
def Takes (s : Server ν) : Action ν → Prop
  | .legacyTop first _ _ => s.legacy = .top ∧ (Scheduler.nextBatch first s.scheduler).1 ≠ []
  | _ => False

/-- At `t` or later the single loop looks for a batch while something is queued. -/
def Looks (t : Rat) (s : Server ν) : Action ν → Prop
  | .legacyTop first _ _ => s.legacy = .top ∧ stored s.scheduler ≠ [] ∧ t ≤ first
  | _ => False

def Advances (s : Server ν) (a : Action ν) : Prop := s.GoesOn a ∨ s.Takes a

def Turns (t : Rat) (s : Server ν) (a : Action ν) : Prop := s.GoesOn a ∨ s.Looks t a

/-- The steps that a coroutine takes only from one place. -/
def Action.Resumes : Action ν → Prop
  | .legacyReturned _ => True
  | .legacyResult _ _ _ => True
  | .legacySent _ => True
  | .taskStart _ => True
  | .taskReturned _ _ => True
  | .taskResult _ _ _ _ => True
  | .taskSent _ _ => True
  | _ => False

section Steps

variable {config : InferentialConfig ν} {pb : Protobuf ν} {s s' : Server ν}

/-- A coroutine that stands elsewhere changes nothing. -/
theorem step_still {a : Action ν} (ha : a.Resumes) (hstands : ¬ s.GoesOn a) :
    step config pb s a = s := by
  cases a with
  | legacyReturned result =>
      show s.legacyReturned result = s
      unfold legacyReturned
      split
      · next hlegacy => exact absurd ⟨_, hlegacy⟩ hstands
      · rfl
  | legacyResult issuedAt now m =>
      show s.legacyResult config issuedAt now m = s
      unfold legacyResult
      split
      · next hlegacy => exact absurd ⟨_, _, hlegacy⟩ hstands
      · next hlegacy => exact absurd ⟨_, _, hlegacy⟩ hstands
      · rfl
  | legacySent outcome =>
      show s.legacySent outcome = s
      unfold legacySent
      split
      · next hlegacy => exact absurd ⟨_, _, _, hlegacy⟩ hstands
      · rfl
  | taskStart i =>
      show s.taskStart i = s
      unfold taskStart
      split
      · rfl
      · next htask =>
          split
          · next hpc => exact absurd ⟨_, htask, hpc⟩ hstands
          · rfl
  | taskReturned i result =>
      show s.taskReturned i result = s
      unfold taskReturned
      split
      · rfl
      · next htask =>
          split
          · next hpc => exact absurd ⟨_, htask, hpc⟩ hstands
          · rfl
  | taskResult i issuedAt now m =>
      show s.taskResult config i issuedAt now m = s
      unfold taskResult
      split
      · rfl
      · next htask =>
          split
          · next hpc => exact absurd ⟨_, _, htask, hpc⟩ hstands
          · next hpc => exact absurd ⟨_, _, htask, hpc⟩ hstands
          · rfl
  | taskSent i outcome =>
      show s.taskSent i outcome = s
      unfold taskSent
      split
      · rfl
      · next htask =>
          split
          · next hpc => exact absurd ⟨_, _, _, htask, hpc⟩ hstands
          · rfl
  | _ => exact absurd ha id

/-- A life went on, or no coroutine got farther from its end; `own` says that one got nearer. -/
def Nearer (own : Prop) (s s' : Server ν) : Prop :=
  s.view.eventsSeen < s'.view.eventsSeen ∨
    s'.stepsLeft ≤ s.stepsLeft ∧ (own → s'.stepsLeft < s.stepsLeft)

namespace Nearer

variable {own : Prop}

theorem of_lt (h : s'.stepsLeft < s.stepsLeft) : Nearer own s s' :=
  .inr ⟨Nat.le_of_lt h, fun _ => h⟩

theorem same (hown : ¬ own) (hlegacy : s'.legacy = s.legacy) (htasks : s'.tasks = s.tasks) :
    Nearer own s s' := by
  have hsteps : s'.stepsLeft = s.stepsLeft := by simp [stepsLeft, hlegacy, htasks]
  exact .inr ⟨hsteps.le, fun h => absurd h hown⟩

/-- An event of a life is logged. -/
theorem seen {events : List (Event ν)} (hhistory : s'.history = s.history ++ events)
    {e : Event ν} (he : e ∈ events) (hlife : e.life ≠ none) : Nearer own s s' := by
  have hmore : lives events ≠ [] := fun hnil => hlife (List.filterMap_eq_nil_iff.mp hnil e he)
  have hpos := List.length_pos_iff.mpr hmore
  apply Or.inl
  simp only [FlowState.eventsSeen, view, hhistory, lives_append, List.length_append]
  omega

end Nearer

/-! ### The tasks -/

variable {i : Nat} {task : DispatchTask ν}

theorem stepsLeft_setTask (htask : s.tasks[i]? = some task) {next : DispatchTask ν}
    (hlegacy : s'.legacy = s.legacy) (htasks : s'.tasks = s.tasks.set i next)
    (hlt : next.stepsLeft < task.stepsLeft) : s'.stepsLeft < s.stepsLeft := by
  have hset := total_set DispatchTask.stepsLeft htask next
  simp only [stepsLeft, hlegacy, htasks]
  omega

theorem stepsLeft_finishTask (htask : s.tasks[i]? = some task) (hlegacy : s'.legacy = s.legacy)
    (htasks : s'.tasks = s.tasks.eraseIdx i) : s'.stepsLeft < s.stepsLeft := by
  have hpos : 0 < task.stepsLeft := by
    unfold DispatchTask.stepsLeft
    split <;> omega
  have herase := total_eraseIdx DispatchTask.stepsLeft htask
  simp only [stepsLeft, hlegacy, htasks]
  omega

theorem stepsLeft_task (htask : s.tasks[i]? = some task) : 0 < s.stepsLeft := by
  have hfinished : stepsLeft { s with tasks := s.tasks.eraseIdx i } < s.stepsLeft :=
    stepsLeft_finishTask htask rfl rfl
  exact Nat.zero_lt_of_lt hfinished

theorem taskReturned_nearer {own : Prop} (htask : s.tasks[i]? = some task)
    (hpc : task.pc = .dispatching) (result : Except PyError (List DispatchResult)) :
    Nearer own s (s.taskReturned i result) := by
  unfold taskReturned
  simp only [htask, hpc]
  split
  · exact .of_lt (stepsLeft_finishTask htask rfl rfl)
  · next results =>
      cases results with
      | nil =>
          refine .of_lt (stepsLeft_setTask htask rfl rfl ?_)
          simp [DispatchTask.stepsLeft, hpc]
      | cons result results =>
          exact .seen rfl (List.mem_map_of_mem List.mem_cons_self) (by simp [Event.life])

theorem taskResult_stepsLeft (htask : s.tasks[i]? = some task) {results : List DispatchResult}
    (hpc : task.pc = .processing results) (issuedAt now : Rat) (m : Moment ν) :
    (s.taskResult config i issuedAt now m).stepsLeft < s.stepsLeft := by
  unfold taskResult
  simp only [htask, hpc]
  cases results with
  | nil => exact stepsLeft_finishTask htask rfl rfl
  | cons result results =>
      have hsteps : task.stepsLeft = 2 * results.length + 3 := by
        simp only [DispatchTask.stepsLeft, hpc, List.length_cons]
        omega
      dsimp only
      split
      · refine stepsLeft_setTask htask rfl rfl ?_
        rw [hsteps]
        simp [DispatchTask.stepsLeft]
      · split
        · split
          · exact stepsLeft_finishTask htask rfl rfl
          · refine stepsLeft_setTask htask rfl rfl ?_
            rw [hsteps]
            simp [DispatchTask.stepsLeft]
        · refine stepsLeft_setTask htask rfl rfl ?_
          rw [hsteps]
          simp [DispatchTask.stepsLeft]

theorem taskSent_stepsLeft (htask : s.tasks[i]? = some task) {result : DispatchResult}
    {results : List DispatchResult} (hpc : task.pc = .sending result results)
    (outcome : SendOutcome) : (s.taskSent i outcome).stepsLeft < s.stepsLeft := by
  have hnext : DispatchTask.stepsLeft { task with pc := .processing results } < task.stepsLeft := by
    simp [DispatchTask.stepsLeft, hpc]
  unfold taskSent
  simp only [htask, hpc]
  cases outcome with
  | sent => exact stepsLeft_setTask htask rfl rfl hnext
  | zmqError message => exact stepsLeft_setTask htask rfl rfl hnext
  | raised message => exact stepsLeft_finishTask htask rfl rfl

/-! ### The single loop -/

theorem stepsLeft_legacy (htasks : s'.tasks = s.tasks)
    (hlt : s'.legacy.stepsLeft < s.legacy.stepsLeft) : s'.stepsLeft < s.stepsLeft := by
  unfold stepsLeft
  rw [htasks]
  omega

theorem legacyReturned_nearer {own : Prop} {batch : List (InferenceRequest ν)}
    (hlegacy : s.legacy = .dispatching batch) (result : Except PyError (List DispatchResult)) :
    Nearer own s (s.legacyReturned result) := by
  unfold legacyReturned
  simp only [hlegacy]
  split
  · refine .of_lt (stepsLeft_legacy rfl ?_)
    simp [hlegacy, LegacyLoop.stepsLeft]
  · next results =>
      cases results with
      | nil =>
          refine .of_lt (stepsLeft_legacy rfl ?_)
          simp [hlegacy, LegacyLoop.stepsLeft]
      | cons result results =>
          exact .seen rfl (List.mem_map_of_mem List.mem_cons_self) (by simp [Event.life])

theorem legacyResult_stepsLeft {batch : List (InferenceRequest ν)} {results : List DispatchResult}
    (hlegacy : s.legacy = .processing batch results) (issuedAt now : Rat) (m : Moment ν) :
    (s.legacyResult config issuedAt now m).stepsLeft < s.stepsLeft := by
  unfold legacyResult
  simp only [hlegacy]
  cases results with
  | nil =>
      refine stepsLeft_legacy rfl ?_
      simp [hlegacy, LegacyLoop.stepsLeft]
  | cons result results =>
      have hsteps : s.legacy.stepsLeft = 2 * results.length + 3 := by
        simp only [hlegacy, LegacyLoop.stepsLeft, List.length_cons]
        omega
      dsimp only
      split
      · refine stepsLeft_legacy rfl ?_
        rw [hsteps]
        simp [LegacyLoop.stepsLeft]
      · split
        · split
          · refine stepsLeft_legacy rfl ?_
            rw [hsteps]
            simp [LegacyLoop.stepsLeft]
          · refine stepsLeft_legacy rfl ?_
            rw [hsteps]
            simp [LegacyLoop.stepsLeft]
        · refine stepsLeft_legacy rfl ?_
          rw [hsteps]
          simp [LegacyLoop.stepsLeft]

theorem legacySent_stepsLeft {batch : List (InferenceRequest ν)} {result : DispatchResult}
    {results : List DispatchResult} (hlegacy : s.legacy = .sending batch result results)
    (outcome : SendOutcome) : (s.legacySent outcome).stepsLeft < s.stepsLeft := by
  unfold legacySent
  simp only [hlegacy]
  cases outcome with
  | sent =>
      refine stepsLeft_legacy rfl ?_
      simp [hlegacy, LegacyLoop.stepsLeft]
  | zmqError message =>
      refine stepsLeft_legacy rfl ?_
      simp [hlegacy, LegacyLoop.stepsLeft]
  | raised message =>
      refine stepsLeft_legacy rfl ?_
      simp [hlegacy, LegacyLoop.stepsLeft]

/-- Collecting more keeps what the first call returned. -/
theorem collectBatch_ne_nil (maxConcurrent : Nat) {first : Rat} (clock : Nat → Rat)
    {scheduler : AnyScheduler ν} (hfirst : (Scheduler.nextBatch first scheduler).1 ≠ []) :
    (collectBatch maxConcurrent first clock scheduler).1 ≠ [] := by
  have hmore : ∀ (fuel : Nat) (batch : List (InferenceRequest ν)) (q : AnyScheduler ν),
      batch ≠ [] → (collectMore maxConcurrent clock fuel batch q).1 ≠ [] := by
    intro fuel
    induction fuel with
    | zero => exact fun _ _ hne => hne
    | succ fuel ih =>
        intro batch q hne
        unfold collectMore
        split
        · dsimp only
          split
          · exact hne
          · exact ih _ _ (List.append_ne_nil_of_left_ne_nil hne _)
        · exact hne
  unfold collectBatch
  dsimp only
  split
  · exact hfirst
  · exact hmore _ _ _ hfirst

theorem legacyTop_nearer
    (howns : (config.scheduling.pipelineDispatch.enabled && s.scheduler.isModelAware) = false)
    (first : Rat) (clock : Nat → Rat) (dispatchTime : Rat) :
    Nearer (s.Takes (.legacyTop first clock dispatchTime)) s
      (s.legacyTop config first clock dispatchTime) := by
  unfold legacyTop
  split
  · next htop =>
      simp only [howns, Bool.false_eq_true, if_false]
      split
      · next hempty =>
          refine .same ?_ rfl rfl
          intro hown
          exact collectBatch_ne_nil _ clock hown.2 (List.isEmpty_iff.mp hempty)
      · next hbatch =>
          rcases List.exists_mem_of_ne_nil _ (by simpa using hbatch) with ⟨r, hr⟩
          exact .seen rfl (List.mem_append_left _ (List.mem_map_of_mem hr)) (by simp [Event.life])
  · next hother => exact .same (fun hown => hother hown.1) rfl rfl

/-- A model loop that takes a request logs it. -/
theorem loopProceed_nearer {own : Prop} (hown : ¬ own) (i : Nat) (now : Rat) :
    Nearer own s (s.loopProceed i now) := by
  unfold loopProceed
  split
  · exact .same hown rfl rfl
  · split
    · split
      · dsimp only
        split
        · exact .same hown rfl rfl
        · exact .seen rfl (List.mem_singleton_self _) (by simp [Event.life])
      · exact .same hown rfl rfl
    · exact .same hown rfl rfl

/-! ### All steps -/

theorem GoesOn.nearer {own : Prop} {a : Action ν} (h : s.GoesOn a) :
    Nearer own s (step config pb s a) := by
  cases a with
  | legacyReturned result =>
      rcases h with ⟨batch, hlegacy⟩
      exact legacyReturned_nearer hlegacy result
  | legacyResult issuedAt now m =>
      rcases h with ⟨batch, results, hlegacy⟩
      exact .of_lt (legacyResult_stepsLeft hlegacy issuedAt now m)
  | legacySent outcome =>
      rcases h with ⟨batch, result, results, hlegacy⟩
      exact .of_lt (legacySent_stepsLeft hlegacy outcome)
  | taskStart i =>
      rcases h with ⟨task, htask, hpc⟩
      show Nearer own s (s.taskStart i)
      unfold taskStart
      simp only [htask, hpc]
      exact .seen rfl (List.mem_singleton_self _) (by simp [Event.life])
  | taskReturned i result =>
      rcases h with ⟨task, htask, hpc⟩
      exact taskReturned_nearer htask hpc result
  | taskResult i issuedAt now m =>
      rcases h with ⟨task, results, htask, hpc⟩
      exact .of_lt (taskResult_stepsLeft htask hpc issuedAt now m)
  | taskSent i outcome =>
      rcases h with ⟨task, result, results, htask, hpc⟩
      exact .of_lt (taskSent_stepsLeft htask hpc outcome)
  | _ => exact absurd h id

theorem GoesOn.stepsLeft_pos {a : Action ν} (h : s.GoesOn a) : 0 < s.stepsLeft := by
  have hlegacy : ∀ {left : Nat}, s.legacy.stepsLeft = left + 1 → 0 < s.stepsLeft := by
    intro left hleft
    simp [stepsLeft, hleft]
  cases a with
  | legacyReturned result =>
      rcases h with ⟨batch, hpc⟩
      exact hlegacy (congrArg LegacyLoop.stepsLeft hpc)
  | legacyResult issuedAt now m =>
      rcases h with ⟨batch, results, hpc⟩
      exact hlegacy (congrArg LegacyLoop.stepsLeft hpc)
  | legacySent outcome =>
      rcases h with ⟨batch, result, results, hpc⟩
      exact hlegacy (congrArg LegacyLoop.stepsLeft hpc)
  | taskStart i =>
      rcases h with ⟨task, htask, -⟩
      exact stepsLeft_task htask
  | taskReturned i result =>
      rcases h with ⟨task, htask, -⟩
      exact stepsLeft_task htask
  | taskResult i issuedAt now m =>
      rcases h with ⟨task, -, htask, -⟩
      exact stepsLeft_task htask
  | taskSent i outcome =>
      rcases h with ⟨task, -, -, htask, -⟩
      exact stepsLeft_task htask
  | _ => exact absurd h id

/-- A step from outside, or of the loop of a model. -/
theorem Nearer.frame {a : Action ν} (hresumes : ¬ a.Resumes) (htop : ¬ s.Takes a)
    (hlegacy : s'.legacy = s.legacy) (htasks : s'.tasks = s.tasks) :
    Nearer (s.Advances a) s s' := by
  refine .same ?_ hlegacy htasks
  rintro (hgoes | htakes)
  · cases a <;> first | exact hgoes | exact hresumes trivial
  · exact htop htakes

theorem step_nearer (a : Action ν) (hquiet : ∀ modelId, ¬ Arrives pb modelId a)
    (howns : (config.scheduling.pipelineDispatch.enabled && s.scheduler.isModelAware) = false) :
    Nearer (s.Advances a) s (step config pb s a) := by
  by_cases hresumes : a.Resumes
  · by_cases hstands : s.GoesOn a
    · exact hstands.nearer
    · rw [step_still hresumes hstands]
      refine .same ?_ rfl rfl
      rintro (hgoes | htakes)
      · exact hstands hgoes
      · cases a <;> first | exact htakes | exact hresumes
  cases a with
  | receive msg clock m =>
      show Nearer _ s (s.receive config pb msg clock m)
      cases hdecode : decode pb clock.nowNs msg.envelope msg.payload msg.receivedAt with
      | ok decoded => exact absurd ⟨decoded, hdecode, rfl⟩ (hquiet decoded.modelId)
      | error e =>
          rcases receive_rejected_frame config pb clock hdecode m s with ⟨_, hreceive⟩
          rw [hreceive]
          exact .frame hresumes id rfl rfl
  | tick expiry now =>
      rcases tick_frame config expiry now s with ⟨_, _, _, hframe⟩
      exact .frame hresumes id ((congrArg legacy hframe).trans rfl)
        ((congrArg tasks hframe).trans rfl)
  | predictiveWake now =>
      rcases predictiveWake_frame config now s with ⟨_, hframe⟩
      exact .frame hresumes id ((congrArg legacy hframe).trans rfl)
        ((congrArg tasks hframe).trans rfl)
  | useScheduler registered strategy policy weights =>
      rcases useScheduler_frame config registered strategy policy weights s with ⟨_, hframe⟩
      exact .frame hresumes id ((congrArg legacy hframe).trans rfl)
        ((congrArg tasks hframe).trans rfl)
  | legacyTop first clock dispatchTime =>
      rcases legacyTop_nearer howns first clock dispatchTime with hseen | ⟨hle, hlt⟩
      · exact .inl hseen
      · exact .inr ⟨hle, fun h => hlt (h.resolve_left id)⟩
  | loopAcquire i =>
      rcases loopAcquire_frame i s with ⟨_, hframe⟩
      exact .frame hresumes id ((congrArg legacy hframe).trans rfl)
        ((congrArg tasks hframe).trans rfl)
  | loopProceed i now => exact loopProceed_nearer (by rintro (h | h) <;> exact h) i now
  | loopResume i woken =>
      rcases loopResume_frame i woken s with ⟨_, hframe⟩
      exact .frame hresumes id ((congrArg legacy hframe).trans rfl)
        ((congrArg tasks hframe).trans rfl)
  | _ => exact absurd trivial hresumes

theorem step_admitted (a : Action ν) (hquiet : ∀ modelId, ¬ Arrives pb modelId a) :
    (step config pb s a).view.admitted = s.view.admitted := by
  apply congrArg List.length
  by_cases hreceive : a.IsReceive
  · cases a with
    | receive msg clock m =>
        cases hdecode : decode pb clock.nowNs msg.envelope msg.payload msg.receivedAt with
        | ok decoded => exact absurd ⟨decoded, hdecode, rfl⟩ (hquiet decoded.modelId)
        | error e => exact receive_refuses hdecode m
    | _ => exact absurd hreceive id
  · exact step_accepts hreceive

/-- No step gives the server more to do, and each that advances leaves less. -/
theorem unsettled_step (h : Delivering config s) (a : Action ν) (hanswered : WellAnswered s a)
    (hquiet : ∀ modelId, ¬ Arrives pb modelId a)
    (howns : (config.scheduling.pipelineDispatch.enabled && s.scheduler.isModelAware) = false) :
    unsettled config (step config pb s a) ≤ unsettled config s ∧
      (s.Advances a → unsettled config (step config pb s a) < unsettled config s) := by
  have hspends := (step_flows config pb a h.wired h.sound hanswered).2.spends
  have hleft := hspends.left (step_admitted a hquiet)
  rcases step_nearer a hquiet howns with hseen | ⟨hle, hlt⟩
  · have hfewer : (step config pb s a).view.eventsLeft (maxRetries config) <
        s.view.eventsLeft (maxRetries config) := by omega
    exact ⟨(rank₃_lt_first hfewer).le, fun _ => rank₃_lt_first hfewer⟩
  · have hfewer : (step config pb s a).view.eventsLeft (maxRetries config) ≤
        s.view.eventsLeft (maxRetries config) := by
      have hseen := hspends.seen
      omega
    exact ⟨rank₃_le hfewer hle (le_refl 0), fun hown => rank₃_lt_second hfewer (hlt hown)⟩

end Steps
end Server

/-! ## Timers -/

variable [Score ν]

theorem Called.armed {q q' : AnyScheduler ν} (h : Called q q') (harmed : q.Armed) : q'.Armed := by
  induction h with
  | start => exact harmed
  | submit m r _ ih => exact ih.submit m r
  | resubmit m r _ ih => exact ih.resubmit m r
  | nextBatch now _ ih => exact ih.nextBatch now
  | nextBatchForModel modelId _ ih => exact ih.nextBatchForModel modelId
  | tick clock _ ih => exact ih.tick clock
  | connected clientId _ ih => exact ih.connected clientId
  | disconnected clientId _ ih => exact ih.disconnected clientId

namespace Server

section Timers

variable {config : InferentialConfig ν} {pb : Protobuf ν} {s : Server ν} {t : Rat}

/-- A scheduler that is swapped in has nothing to wait for. -/
theorem useScheduler_timers (config : InferentialConfig ν) (s : Server ν)
    (registered : String → Bool) (strategy : String)
    (policy : Option String) (weights : Option (DeadlineAwareConfig ν)) :
    let s' := (s.useScheduler config registered strategy policy weights).2
    s'.scheduler = s.scheduler ∨ s'.scheduler.Armed ∧ ∀ t, s'.scheduler.RunOut t := by
  unfold useScheduler
  split
  · exact .inl rfl
  · next scheduler hcreate =>
      rcases AnyScheduler.createScheduler_armed hcreate with ⟨harmed, hout⟩
      apply Or.inr
      split
      · exact ⟨harmed, hout⟩
      · split
        · exact ⟨harmed, hout⟩
        · next huse => exact ⟨harmed.usePolicy huse, fun t => (hout t).usePolicy huse⟩

theorem step_armed (a : Action ν) (harmed : s.scheduler.Armed) :
    (step config pb s a).scheduler.Armed := by
  cases a with
  | useScheduler registered strategy policy weights =>
      show (s.useScheduler config registered strategy policy weights).2.scheduler.Armed
      rcases useScheduler_timers config s registered strategy policy weights with
        hsame | ⟨hfresh, -⟩
      · rw [hsame]
        exact harmed
      · exact hfresh
  | _ => exact (step_called config pb s (by simp [Action.IsSwap])).armed harmed

theorem tick_runOut (expiry : InferenceRequest ν → Rat) (now : String → Rat)
    (hout : s.scheduler.RunOut t) : (s.tick config expiry now).scheduler.RunOut t := by
  have hchecks : ∀ (clientIds : List String) (s : Server ν), s.scheduler.RunOut t →
      (clientIds.foldl (fun s clientId => s.checkClient config (now clientId) clientId)
        s).scheduler.RunOut t := by
    intro clientIds
    induction clientIds with
    | nil => exact fun _ hout => hout
    | cons clientId clientIds ih =>
        intro s hout
        refine ih _ ?_
        show (s.checkClient config (now clientId) clientId).scheduler.RunOut t
        unfold checkClient
        split
        · exact hout.disconnected clientId
        · exact hout
  unfold tick
  dsimp only
  split <;> exact hchecks _ _ (hout.tick expiry)

/-- A turn that takes nothing. -/
theorem legacyTop_runOut {first : Rat} {clock : Nat → Rat} {dispatchTime : Rat}
    (hnone : ¬ s.Takes (.legacyTop first clock dispatchTime)) (hout : s.scheduler.RunOut t) :
    (s.legacyTop config first clock dispatchTime).scheduler.RunOut t := by
  unfold legacyTop
  split
  · next htop =>
      have hnil : (Scheduler.nextBatch first s.scheduler).1 = [] := by
        by_contra hne
        exact hnone ⟨htop, hne⟩
      split
      · exact hout
      · simpa [collectBatch, hnil] using hout.nextBatch_nil hnil
  · exact hout

/-- Timers are started only when something is queued or taken. -/
theorem step_runOut (a : Action ν) (hquiet : ∀ modelId, ¬ Arrives pb modelId a)
    (hidle : ¬ s.Advances a) (hout : s.scheduler.RunOut t) :
    (step config pb s a).scheduler.RunOut t := by
  by_cases hresumes : a.Resumes
  · rw [step_still hresumes fun hgoes => hidle (.inl hgoes)]
    exact hout
  cases a with
  | receive msg clock m =>
      show (s.receive config pb msg clock m).scheduler.RunOut t
      cases hdecode : decode pb clock.nowNs msg.envelope msg.payload msg.receivedAt with
      | ok decoded => exact absurd ⟨decoded, hdecode, rfl⟩ (hquiet decoded.modelId)
      | error e =>
          rcases receive_rejected_frame config pb clock hdecode m s with ⟨_, hreceive⟩
          rw [hreceive]
          exact hout
  | tick expiry now => exact tick_runOut expiry now hout
  | useScheduler registered strategy policy weights =>
      show (s.useScheduler config registered strategy policy weights).2.scheduler.RunOut t
      rcases useScheduler_timers config s registered strategy policy weights with
        hsame | ⟨-, hfresh⟩
      · rw [hsame]
        exact hout
      · exact hfresh t
  | legacyTop first clock dispatchTime =>
      exact legacyTop_runOut (fun htakes => hidle (.inr htakes)) hout
  | legacyReturned _ => exact absurd trivial hresumes
  | legacyResult _ _ _ => exact absurd trivial hresumes
  | legacySent _ => exact absurd trivial hresumes
  | taskStart _ => exact absurd trivial hresumes
  | taskReturned _ _ => exact absurd trivial hresumes
  | taskResult _ _ _ _ => exact absurd trivial hresumes
  | taskSent _ _ => exact absurd trivial hresumes
  | predictiveWake now =>
      rcases predictiveWake_frame config now s with ⟨_, hframe⟩
      exact ((congrArg scheduler hframe).trans rfl) ▸ hout
  | loopAcquire i =>
      rcases loopAcquire_frame i s with ⟨_, hframe⟩
      exact ((congrArg scheduler hframe).trans rfl) ▸ hout
  | loopResume i woken =>
      rcases loopResume_frame i woken s with ⟨_, hframe⟩
      exact ((congrArg scheduler hframe).trans rfl) ▸ hout
  | loopProceed i now =>
      show (s.loopProceed i now).scheduler.RunOut t
      unfold loopProceed
      split
      · exact hout
      · next loop _ =>
          split
          · split
            · dsimp only
              split
              · exact hout.nextBatchForModel loop.modelId
              · exact hout.nextBatchForModel loop.modelId
            · exact hout
          · exact hout

end Timers

/-! ## Settled servers -/

/-- The single loop has died, or no request is left anywhere. -/
def Settled (s : Server ν) : Prop := s.legacy = .dead ∨ s.roster = []

section Settled

variable {config : InferentialConfig ν} {pb : Protobuf ν} {s : Server ν}

theorem task_goesOn {i : Nat} {task : DispatchTask ν} (htask : s.tasks[i]? = some task) :
    ∃ a, s.GoesOn a := by
  cases hpc : task.pc with
  | created => exact ⟨.taskStart i, task, htask, hpc⟩
  | dispatching => exact ⟨.taskReturned i (.ok []), task, htask, hpc⟩
  | processing results =>
      exact ⟨.taskResult i 0 0 ⟨0, fun _ _ => .error .zeroDivisionError⟩, task, results, htask, hpc⟩
  | sending result results => exact ⟨.taskSent i .sent, task, result, results, htask, hpc⟩

/-- While a request is left, somebody can go on. -/
theorem exists_advances (hinv : AccountedScheduler.Inv s.scheduler) (harmed : s.scheduler.Armed)
    (hunsettled : ¬ s.Settled) : ∃ a, s.Advances a := by
  cases hlegacy : s.legacy with
  | dead => exact absurd (.inl hlegacy) hunsettled
  | dispatching batch => exact ⟨.legacyReturned (.ok []), .inl ⟨batch, hlegacy⟩⟩
  | processing batch results =>
      exact ⟨.legacyResult 0 0 ⟨0, fun _ _ => .error .zeroDivisionError⟩,
        .inl ⟨batch, results, hlegacy⟩⟩
  | sending batch result results =>
      exact ⟨.legacySent .sent, .inl ⟨batch, result, results, hlegacy⟩⟩
  | top =>
      by_cases hstored : stored s.scheduler = []
      · cases htasks : s.tasks with
        | nil =>
            apply absurd _ hunsettled
            apply Or.inr
            simp [roster, flights, places, hstored, hlegacy, htasks, LegacyLoop.flights]
        | cons task tasks =>
            have htask : s.tasks[0]? = some task := by simp [htasks]
            rcases task_goesOn htask with ⟨a, ha⟩
            exact ⟨a, .inl ha⟩
      · rcases s.scheduler.exists_runOut with ⟨t, hout⟩
        exact ⟨.legacyTop t (fun _ => t) t, .inr ⟨hlegacy,
          AnyScheduler.nextBatch_of_runOut hinv harmed hout hstored⟩⟩

theorem step_dead (a : Action ν) (hquiet : ∀ modelId, ¬ Arrives pb modelId a)
    (hdead : s.legacy = .dead) : (step config pb s a).legacy = .dead := by
  by_cases hother : ¬ a.IsReceive ∧ ¬ a.IsLegacy
  · rcases other_frame config pb s hother.1 hother.2 with ⟨_, _, _, _, _, _, h⟩
    exact ((congrArg legacy h).trans rfl).trans hdead
  cases a with
  | receive msg clock m =>
      show (s.receive config pb msg clock m).legacy = .dead
      cases hdecode : decode pb clock.nowNs msg.envelope msg.payload msg.receivedAt with
      | ok decoded => exact absurd ⟨decoded, hdecode, rfl⟩ (hquiet decoded.modelId)
      | error e =>
          rcases receive_rejected_frame config pb clock hdecode m s with ⟨_, hreceive⟩
          rw [hreceive]
          exact hdead
  | legacyTop first clock dispatchTime => simp [step, legacyTop, hdead]
  | legacyReturned result => simp [step, legacyReturned, hdead]
  | legacyResult issuedAt now m => simp [step, legacyResult, hdead]
  | legacySent outcome => simp [step, legacySent, hdead]
  | _ => exact absurd ⟨id, id⟩ hother

theorem Settled.step (h : s.Settled) (hdelivering : Delivering config s) (a : Action ν)
    (hanswered : WellAnswered s a) (hquiet : ∀ modelId, ¬ Arrives pb modelId a) :
    (step config pb s a).Settled := by
  rcases h with hdead | hempty
  · exact .inl (step_dead a hquiet hdead)
  · have hspends :=
      (step_flows config pb a hdelivering.wired hdelivering.sound hanswered).2.spends
    exact .inr (hspends.empty (step_admitted a hquiet) hempty)

end Settled

/-! ## Runs -/

section Runs

variable (config : InferentialConfig ν) (pb : Protobuf ν)

/-- The single loop, as long as it owns the queue and nothing arrives. -/
theorem settling_ranked :
    Ranked (step config pb) (fun s => Delivering config s ∧ s.scheduler.Armed)
      (fun s a => WellAnswered s a ∧ (∀ modelId, ¬ Arrives pb modelId a) ∧
        (config.scheduling.pipelineDispatch.enabled && s.scheduler.isModelAware) = false)
      Advances Settled (unsettled config) where
  keeps := fun _ a hinv hallowed => ⟨hinv.1.step hallowed.1, step_armed a hinv.2⟩
  possible := fun _ _ hinv _ hunsettled =>
    exists_advances hinv.1.wired.scheduler hinv.2 hunsettled
  le := fun _ a hinv hallowed _ =>
    (unsettled_step hinv.1 a hallowed.1 hallowed.2.1 hallowed.2.2).1
  lt := fun _ a hinv hallowed _ =>
    (unsettled_step hinv.1 a hallowed.1 hallowed.2.1 hallowed.2.2).2

variable {config pb} {s₀ : Server ν} {schedule : Nat → Action ν} {start : Nat}

theorem init_armed {s : Server ν} (hinit : init config = .ok s) : s.scheduler.Armed := by
  unfold init at hinit
  split at hinit
  · cases hinit
  · next scheduler hcreate =>
      cases hinit
      exact (AnyScheduler.createScheduler_armed hcreate).1

theorem Advances.turns {s : Server ν} {a : Action ν} (h : s.Advances a)
    (hinv : AccountedScheduler.Inv s.scheduler) (t : Rat) : ∃ a, s.Turns t a := by
  rcases h with hgoes | htakes
  · exact ⟨a, .inl hgoes⟩
  · cases a with
    | legacyTop first clock dispatchTime =>
        refine ⟨.legacyTop t clock dispatchTime, .inr ⟨htakes.1, ?_, le_refl t⟩⟩
        intro hnil
        rcases AccountedScheduler.nextBatch_spec first hinv with ⟨-, -, hperm⟩
        rw [hnil] at hperm
        exact htakes.2 (List.append_eq_nil_iff.mp hperm.symm.eq_nil).1
    | _ => exact absurd htakes id

/-- A loop that turns late enough takes a batch, because no timer is started before it does. -/
theorem turns_advance
    (hinv : ∀ n ≥ start, Delivering config (trace (step config pb) s₀ schedule n) ∧
      (trace (step config pb) s₀ schedule n).scheduler.Armed)
    (hquiet : ∀ n ≥ start, ∀ modelId, ¬ Arrives pb modelId (schedule n))
    (hfair : ∀ t, WeaklyFair (step config pb) (Turns t) s₀ schedule) :
    WeaklyFair (step config pb) Advances s₀ schedule := by
  intro n hpossible
  by_contra hnever
  push Not at hnever
  have hlater : ∀ {k}, max n start ≤ k → n ≤ k ∧ start ≤ k := fun hk =>
    ⟨(le_max_left n start).trans hk, (le_max_right n start).trans hk⟩
  rcases (trace (step config pb) s₀ schedule (max n start)).scheduler.exists_runOut with ⟨t, ht⟩
  -- the timers that run at that time are the last ones
  have hkeeps : ∀ (s : Server ν) (a : Action ν), s.scheduler.RunOut t →
      (∀ modelId, ¬ Arrives pb modelId a) ∧ ¬ s.Advances a →
        (step config pb s a).scheduler.RunOut t :=
    fun s a hout hallowed => step_runOut a hallowed.1 hallowed.2 hout
  have hout := trace_keeps hkeeps ht fun k hk =>
    ⟨hquiet k (hlater hk).2, hnever k (hlater hk).1⟩
  rcases hfair t (max n start) (fun k hk => by
    rcases hpossible k (hlater hk).1 with ⟨a, ha⟩
    exact ha.turns (hinv k (hlater hk).2).1.wired.scheduler t) with ⟨k, hk, hturns⟩
  rcases hturns with hgoes | hlooks
  · exact hnever k (hlater hk).1 (.inl hgoes)
  · apply hnever k (hlater hk).1
    cases ha : schedule k with
    | legacyTop first clock dispatchTime =>
        rw [ha] at hlooks
        rcases hlooks with ⟨htop, hstored, hle⟩
        rcases hinv k (hlater hk).2 with ⟨hdelivering, harmed⟩
        exact .inr ⟨htop, AnyScheduler.nextBatch_of_runOut hdelivering.wired.scheduler harmed
          ((hout k hk).mono hle) hstored⟩
    | _ =>
        rw [ha] at hlooks
        exact absurd hlooks id

/-- In every infinite run in which the single loop owns the queue from some time on, and nothing
arrives any more, nothing is left of any request at last, unless the loop has died: whichever
scheduler it is, whatever the dispatcher and the network make of the requests, if the coroutines
are not kept from going on for ever and the clock of the loop passes every time. -/
theorem single_loop_settles (config : InferentialConfig ν) (pb : Protobuf ν) (s₀ : Server ν)
    (hinit : init config = .ok s₀) (schedule : Nat → Action ν)
    (hanswered : ∀ n, WellAnswered (trace (step config pb) s₀ schedule n) (schedule n))
    (hfair : ∀ t, WeaklyFair (step config pb) (Turns t) s₀ schedule) (start : Nat)
    (hquiet : ∀ n ≥ start, ∀ modelId, ¬ Arrives pb modelId (schedule n))
    (howns : ∀ n ≥ start, (config.scheduling.pipelineDispatch.enabled &&
      (trace (step config pb) s₀ schedule n).scheduler.isModelAware) = false) :
    ∃ n ≥ start, ∀ k ≥ n, (trace (step config pb) s₀ schedule k).Settled := by
  have hkeeps : ∀ (s : Server ν) (a : Action ν), Delivering config s ∧ s.scheduler.Armed →
      WellAnswered s a → Delivering config (step config pb s a) ∧
        (step config pb s a).scheduler.Armed :=
    fun s a h ha => ⟨h.1.step ha, step_armed a h.2⟩
  have hinv : ∀ n ≥ 0, Delivering config (trace (step config pb) s₀ schedule n) ∧
      (trace (step config pb) s₀ schedule n).scheduler.Armed :=
    trace_keeps hkeeps ⟨init_delivering hinit, init_armed hinit⟩ fun n _ => hanswered n
  have hadvance := turns_advance (fun n _ => hinv n (Nat.zero_le n)) hquiet hfair
  rcases (settling_ranked config pb).eventually (hinv start (Nat.zero_le start))
    (fun n hn => ⟨hanswered n, hquiet n hn, howns n hn⟩) hadvance with ⟨n, hn, hsettled⟩
  refine ⟨n, hn, fun k hk => ?_⟩
  -- from then on nothing comes back
  induction k, hk using Nat.le_induction with
  | base => exact hsettled
  | succ k hk ih =>
      exact ih.step (hinv k (Nat.zero_le k)).1 _ (hanswered k) (hquiet k (hn.trans hk))

end Runs

/-! ### A turn that comes too early -/

def timedConfig : InferentialConfig Rat :=
  { plainConfig with scheduling := { plainConfig.scheduling with strategy := "batch_optimized" } }

def timedServer : Server Rat :=
  { plainServer with scheduler := .batchOptimized (.init timedConfig.scheduling) }

def answerResult : DispatchResult := { failedResult with success := true, error := none }

/-- The first turn is too early for the batch, and the second gets it answered. -/
def turns : List (Action Rat) :=
  [arriveAt 0 0, .legacyTop 0 (fun _ => 0) 0, .legacyTop 1 (fun _ => 1) 1,
    .legacyReturned (.ok [answerResult]), .legacyResult 1 1 (plainMoment 1), .legacySent .sent,
    .legacyResult 1 1 (plainMoment 1)]

def afterTurns (n : Nat) : Action Rat := turns.getD n (.legacySent .sent)

def turnState (n : Nat) : Server Rat :=
  trace (step timedConfig plainMessages) timedServer afterTurns n

theorem turnState_rest (n : Nat) : (turnState (7 + n)).stepsLeft = 0 ∧
    stored (turnState (7 + n)).scheduler = [] := by
  induction n with
  | zero =>
      have hlength : (turnState 7).stepsLeft = 0 ∧ (stored (turnState 7).scheduler).length = 0 := by
        decide +kernel
      exact ⟨hlength.1, List.length_eq_zero_iff.mp hlength.2⟩
  | succ n ih =>
      have hnext : turnState (7 + (n + 1)) = turnState (7 + n) := by
        have haction : afterTurns (7 + n) = .legacySent .sent := by
          rw [Nat.add_comm]
          rfl
        have hstands : ¬ (turnState (7 + n)).GoesOn (.legacySent .sent) := by
          intro hgoes
          exact absurd hgoes.stepsLeft_pos (by simp [ih.1])
        calc
          turnState (7 + (n + 1))
              = step timedConfig plainMessages (turnState (7 + n)) (afterTurns (7 + n)) := rfl
          _ = step timedConfig plainMessages (turnState (7 + n)) (.legacySent .sent) := by
            rw [haction]
          _ = turnState (7 + n) := step_still trivial hstands
      rw [hnext]
      exact ih

theorem turns_answered (n : Nat) : WellAnswered (turnState n) (afterTurns n) := by
  match n with
  | 0 | 1 | 2 => trivial
  | 3 =>
      intro batch hbatch
      -- the batch that the loop waits for is the one request of object 0
      have hids : ((turnState 3).legacy.flights.map fun f => (f.2.objId, f.2.identity)) =
          [(0, [1])] := by decide +kernel
      rw [hbatch, LegacyLoop.flights, List.map_map] at hids
      exact List.Perm.of_eq hids.symm
  | 4 | 5 | 6 => trivial
  | n + 7 => trivial

/-- When the turns are over, there is nothing to turn to. -/
theorem turns_fair (t : Rat) :
    WeaklyFair (step timedConfig plainMessages) (Turns t) timedServer afterTurns := by
  intro n hpossible
  rcases hpossible (7 + n) (Nat.le_add_left n 7) with ⟨a, hgoes | hlooks⟩
  · exact absurd (turnState_rest n).1 hgoes.stepsLeft_pos.ne'
  · cases a with
    | legacyTop first clock dispatchTime => exact absurd (turnState_rest n).2 hlooks.2.1
    | _ => exact absurd hlooks id

theorem turns_settle :
    let trace := trace (step timedConfig plainMessages) timedServer afterTurns
    (trace 2).roster.map Place.stage = [.queued] ∧ ∃ n ≥ 1, ∀ k ≥ n, (trace k).Settled := by
  refine ⟨by decide +kernel, single_loop_settles timedConfig plainMessages timedServer rfl
    afterTurns turns_answered turns_fair 1 ?_ fun _ _ => rfl⟩
  intro n hn modelId
  match n with
  | 0 => cases hn
  | 1 | 2 | 3 | 4 | 5 | 6 => exact id
  | n + 7 => exact id

end Server
end Inferential
