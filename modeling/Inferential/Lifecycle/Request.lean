import Inferential.Lifecycle.Automaton

/-!
# Request — the life cycle of an inference request

What may happen to one request object, in which order: it is taken out of the queue and dispatched,
a failed attempt may be queued again as long as retries are left, and a successful one is answered.
-/

namespace Inferential

open Lifecycle

inductive LifeState
  | absent
  | idle (retries : Nat)
  | taken (retries : Nat)
  | dispatching (retries : Nat)
  | returned (retries : Nat) (success : Bool)
  | responded (retries : Nat)
  deriving DecidableEq, Repr

inductive LifeEvent
  | accepted
  | taken
  | dispatched
  | returned (success : Bool)
  | requeued
  | responded
  deriving DecidableEq, Repr

def LifeState.next (maxRetries : Nat) : LifeState → LifeEvent → Option LifeState
  | .absent, .accepted => some (.idle 0)
  | .idle n, .taken => some (.taken n)
  | .taken n, .dispatched => some (.dispatching n)
  | .dispatching n, .returned success => some (.returned n success)
  -- a failed attempt is queued again only while retries are left
  | .returned n false, .requeued => if n < maxRetries then some (.idle (n + 1)) else none
  | .returned n true, .responded => some (.responded n)
  | _, _ => none

def requestLife (maxRetries : Nat) : Automaton LifeState LifeEvent where
  start := .absent
  next := LifeState.next maxRetries

namespace LifeState

def retries : LifeState → Nat
  | .absent => 0
  | .idle n => n
  | .taken n => n
  | .dispatching n => n
  | .returned n _ => n
  | .responded n => n

/-- The attempts that have been started. -/
def attempts : LifeState → Nat
  | .dispatching n => n + 1
  | .returned n _ => n + 1
  | .responded n => n + 1
  | s => s.retries

def responses : LifeState → Nat
  | .responded _ => 1
  | _ => 0

end LifeState

/-! ## What a life amounts to -/

/-- The counts of a life, read off the state that it has led to. -/
structure LifeCounts (maxRetries : Nat) (word : List LifeEvent) (s : LifeState) : Prop where
  dispatched : word.count .dispatched = s.attempts
  requeued : word.count .requeued = s.retries
  responded : word.count .responded = s.responses
  retries_le : s.retries ≤ maxRetries

theorem lifeCounts {maxRetries : Nat} {word : List LifeEvent} {s : LifeState}
    (h : (requestLife maxRetries).after word = some s) : LifeCounts maxRetries word s := by
  refine (requestLife maxRetries).after_keeps ⟨rfl, rfl, rfl, Nat.zero_le _⟩ ?_ h
  intro word s e s' hcounts hnext
  obtain ⟨hdispatched, hrequeued, hresponded, hle⟩ := hcounts
  -- one case for each event that the state accepts
  have hcases : ∀ s e, LifeState.next maxRetries s e = some s' →
      s'.attempts = s.attempts + (if e = .dispatched then 1 else 0) ∧
      s'.retries = s.retries + (if e = .requeued then 1 else 0) ∧
      s'.responses = s.responses + (if e = .responded then 1 else 0) ∧
      (s.retries ≤ maxRetries → s'.retries ≤ maxRetries) := by
    intro s e
    fun_cases LifeState.next maxRetries s e
    case case5 n hlt =>
      rintro ⟨⟩
      exact ⟨rfl, rfl, rfl, fun _ => hlt⟩
    case case6 => simp
    case case8 => simp
    all_goals
      rintro ⟨⟩
      exact ⟨rfl, rfl, rfl, fun hle => hle⟩
  obtain ⟨hattempts, hretries, hresponses, hbound⟩ := hcases s e hnext
  refine ⟨?_, ?_, ?_, hbound hle⟩
  · rw [List.count_append, List.count_singleton, hdispatched, hattempts]
    simp [beq_iff_eq]
  · rw [List.count_append, List.count_singleton, hrequeued, hretries]
    simp [beq_iff_eq]
  · rw [List.count_append, List.count_singleton, hresponded, hresponses]
    simp [beq_iff_eq]

theorem LifeState.attempts_le (s : LifeState) : s.attempts ≤ s.retries + 1 := by
  cases s <;> simp [attempts, retries]

theorem LifeState.responses_le (s : LifeState) : s.responses ≤ 1 := by
  cases s <;> simp [responses]

/-- A life that has seen a success goes on with the response, or not at all. -/
theorem life_after_success {maxRetries : Nat} {before rest : List LifeEvent}
    (h : ((requestLife maxRetries).after (before ++ .returned true :: rest)).isSome) :
    LifeEvent.dispatched ∉ rest := by
  rw [List.append_cons] at h
  obtain ⟨s, hs, hrest⟩ := (requestLife maxRetries).after_append h
  rw [Automaton.after_append_singleton] at hs
  obtain ⟨s₀, -, hnext⟩ := Option.bind_eq_some_iff.mp hs
  -- only one state is entered by a success
  obtain ⟨n, rfl⟩ : ∃ n, s = .returned n true := by
    cases s₀ <;> simp [requestLife, LifeState.next] at hnext
    exact ⟨_, hnext.symm⟩
  rw [← hrest] at h
  intro hmem
  cases rest with
  | nil => simp at hmem
  | cons e rest =>
      cases e <;> simp [requestLife, LifeState.next] at h
      -- the event was the response, and nothing follows it
      cases rest with
      | nil => simp at hmem
      | cons e rest => simp [LifeState.next] at h

end Inferential
