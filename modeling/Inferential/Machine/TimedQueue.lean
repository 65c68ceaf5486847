import Mathlib.Order.Lattice
import Mathlib.Tactic.Common

/-!
# TimedQueue — one timer for all elements of a queue

Elements come to a queue one after the other and leave it in batches or singly.  One timer stands
for all of them: the first element starts it, a batch that leaves elements behind starts it again,
and it should be gone when the queue is empty.  What the timer says about single elements depends
on how they leave.
-/

namespace Machine

variable {α τ : Type*}

/-- A queue of elements, each with the time at which it came, the timer, and the time of the last
batch. -/
structure TimedQueue (α τ : Type*) where
  queue : List (α × τ) := []
  timer : Option τ := none
  flushed : Option τ := none

namespace TimedQueue

/-- A timer that runs is not started again. -/
def push (now : τ) (x : α) (q : TimedQueue α τ) : TimedQueue α τ :=
  { q with queue := q.queue ++ [(x, now)], timer := q.timer.or (some now) }

/-- Single elements leave, and the timer is stopped when none is left. -/
def shrink (rest : List (α × τ)) (q : TimedQueue α τ) : TimedQueue α τ :=
  { q with queue := rest, timer := if rest.isEmpty then none else q.timer }

/-- Single elements leave, and the timer is forgotten. -/
def leave (rest : List (α × τ)) (q : TimedQueue α τ) : TimedQueue α τ := { q with queue := rest }

/-- A batch leaves. -/
def flush (now : τ) (n : Nat) (q : TimedQueue α τ) : TimedQueue α τ where
  queue := q.queue.drop n
  timer := if (q.queue.drop n).isEmpty then none else some now
  flushed := some now

variable {now now' t : τ} {x : α} {n : Nat} {rest : List (α × τ)} {q : TimedQueue α τ}

/-! ## The timer is in step -/

/-- The timer runs for a queue that is not empty, and for no other. -/
def InStep (q : TimedQueue α τ) : Prop := q.timer.isSome = true ↔ q.queue ≠ []

namespace InStep

theorem push (now : τ) (x : α) (q : TimedQueue α τ) : (q.push now x).InStep := by
  cases htimer : q.timer <;> simp [InStep, TimedQueue.push, htimer]

theorem shrink (h : q.InStep) (hsub : ∀ e ∈ rest, e ∈ q.queue) : (q.shrink rest).InStep := by
  by_cases hrest : rest = []
  · simp [InStep, TimedQueue.shrink, hrest]
  · rcases List.exists_mem_of_ne_nil rest hrest with ⟨e, he⟩
    have htimer : q.timer.isSome = true := h.mpr (List.ne_nil_of_mem (hsub e he))
    simpa [InStep, TimedQueue.shrink, hrest] using htimer

/-- The timer is only forgotten when the last element leaves. -/
theorem leave (h : q.InStep) (hempty : rest = [] ↔ q.queue = []) : (q.leave rest).InStep :=
  h.trans (not_congr hempty).symm

theorem flush (now : τ) (n : Nat) (q : TimedQueue α τ) : (q.flush now n).InStep := by
  by_cases hdrop : q.queue.drop n = [] <;> simp [InStep, TimedQueue.flush, hdrop]

end InStep

/-! ## The timer is not late -/

variable [LinearOrder τ]

/-- The timer of a queue that is not empty runs, and it was started before each element came or at
the last batch. -/
structure Timely (now : τ) (q : TimedQueue α τ) : Prop where
  came : ∀ e ∈ q.queue, e.2 ≤ now
  started : ∀ first ∈ q.timer, first ≤ now
  taken : ∀ last ∈ q.flushed, last ≤ now
  runs : q.queue ≠ [] → ∃ first, q.timer = some first ∧
    ∀ e ∈ q.queue, first ≤ e.2 ∨ ∃ last ∈ q.flushed, first ≤ last

namespace Timely

theorem empty (now : τ) : Timely now ({} : TimedQueue α τ) := by
  constructor <;> simp

theorem mono (h : Timely now q) (hle : now ≤ now') : Timely now' q where
  came e he := le_trans (h.came e he) hle
  started first hfirst := le_trans (h.started first hfirst) hle
  taken last hlast := le_trans (h.taken last hlast) hle
  runs := h.runs

theorem push (h : Timely now q) (hle : now ≤ now') (x : α) : Timely now' (q.push now' x) := by
  have h' := h.mono hle
  have hcame : ∀ e ∈ (q.push now' x).queue, e.2 ≤ now' := by
    intro e he
    rcases List.mem_append.mp he with hold | hnew
    · exact h'.came e hold
    · rw [List.mem_singleton.mp hnew]
  cases htimer : q.timer with
  | some first =>
      have htimer' : (q.push now' x).timer = some first := by simp [TimedQueue.push, htimer]
      refine ⟨hcame, ?_, h'.taken, fun _ => ⟨first, htimer', fun e he => ?_⟩⟩
      · rw [htimer', ← htimer]
        exact h'.started
      · rcases List.mem_append.mp he with hold | hnew
        · rcases h.runs (List.ne_nil_of_mem hold) with ⟨first', heq, hbound⟩
          rw [htimer, Option.some.injEq] at heq
          subst heq
          exact hbound e hold
        · rw [List.mem_singleton.mp hnew]
          exact .inl (h'.started first (by simp [htimer]))
  | none =>
      -- without a timer the queue was empty
      have hnil : q.queue = [] := by
        by_contra hne
        rcases h.runs hne with ⟨first, heq, -⟩
        simp [htimer] at heq
      have htimer' : (q.push now' x).timer = some now' := by simp [TimedQueue.push, htimer]
      refine ⟨hcame, ?_, h'.taken, fun _ => ⟨now', htimer', fun e he => ?_⟩⟩
      · rw [htimer']
        simp
      · have heq : e = (x, now') := by simpa [TimedQueue.push, hnil] using he
        rw [heq]
        exact .inl (le_refl now')

theorem leave (h : Timely now q) (hsub : ∀ e ∈ rest, e ∈ q.queue) : Timely now (q.leave rest) where
  came e he := h.came e (hsub e he)
  started := h.started
  taken := h.taken
  runs hne := by
    rcases List.exists_mem_of_ne_nil rest hne with ⟨e, he⟩
    rcases h.runs (List.ne_nil_of_mem (hsub e he)) with ⟨first, htimer, hbound⟩
    exact ⟨first, htimer, fun e he => hbound e (hsub e he)⟩

theorem shrink (h : Timely now q) (hsub : ∀ e ∈ rest, e ∈ q.queue) :
    Timely now (q.shrink rest) := by
  have hleft := h.leave hsub
  by_cases hrest : rest = []
  · subst hrest
    exact ⟨hleft.came, by simp [TimedQueue.shrink], hleft.taken, by simp [TimedQueue.shrink]⟩
  · have heq : q.shrink rest = q.leave rest := by simp [TimedQueue.shrink, TimedQueue.leave, hrest]
    rw [heq]
    exact hleft

theorem flush (h : Timely now q) (hle : now ≤ now') (n : Nat) : Timely now' (q.flush now' n) := by
  have hcame : ∀ e ∈ q.queue.drop n, e.2 ≤ now' := fun e he =>
    le_trans (h.came e (List.mem_of_mem_drop he)) hle
  refine ⟨hcame, ?_, by simp [TimedQueue.flush], fun hne => ?_⟩
  · intro first hfirst
    simp only [TimedQueue.flush, Option.mem_def] at hfirst
    split at hfirst
    · cases hfirst
    · rw [← Option.some.inj hfirst]
  · have hdrop : q.queue.drop n ≠ [] := hne
    exact ⟨now', by simp [TimedQueue.flush, hdrop], fun e _ => .inr ⟨now', rfl, le_refl now'⟩⟩

/-- Where an element has waited long enough, and as long since the last batch, the timer has run
out. -/
theorem runs_out {waited : τ → τ → Prop}
    (hwaited : ∀ {a b t t'}, waited b t → a ≤ b → t ≤ t' → waited a t') (h : Timely now q)
    {e : α × τ} (he : e ∈ q.queue) (hlong : waited e.2 t) (hlast : ∀ last ∈ q.flushed, waited last t) :
    ∃ first, q.timer = some first ∧ waited first t := by
  rcases h.runs (List.ne_nil_of_mem he) with ⟨first, htimer, hbound⟩
  refine ⟨first, htimer, ?_⟩
  rcases hbound e he with hle | ⟨last, hmem, hle⟩
  · exact hwaited hlong hle (le_refl t)
  · exact hwaited (hlast last hmem) hle (le_refl t)

end Timely

/-! ## The timer is not early -/

/-- Some element has waited since the timer was started or long enough, or there is a full batch of
`n` elements. -/
def Justified (waited : τ → τ → Prop) (n : Nat) (now : τ) (timer : Option τ)
    (queue : List (α × τ)) : Prop :=
  queue = [] ∨ n ≤ queue.length ∨
    ∃ e ∈ queue, (∃ first ∈ timer, e.2 ≤ first) ∨ waited e.2 now

namespace Justified

variable {waited : τ → τ → Prop}
  (hwaited : ∀ {a b t t'}, waited b t → a ≤ b → t ≤ t' → waited a t')

include hwaited

theorem mono {timer : Option τ} {queue : List (α × τ)} (h : Justified waited n now timer queue)
    (hle : now ≤ now') : Justified waited n now' timer queue := by
  rcases h with hnil | hfull | ⟨e, he, hstarted | hlong⟩
  · exact .inl hnil
  · exact .inr (.inl hfull)
  · exact .inr (.inr ⟨e, he, .inl hstarted⟩)
  · exact .inr (.inr ⟨e, he, .inr (hwaited hlong (le_refl _) hle)⟩)

theorem push (h : Justified waited n now q.timer q.queue) (hstep : q.InStep) (hle : now ≤ now')
    (x : α) : Justified waited n now' (q.push now' x).timer (q.push now' x).queue := by
  cases htimer : q.timer with
  | none =>
      -- the new element has started the timer
      refine .inr (.inr ⟨(x, now'), by simp [TimedQueue.push], .inl ⟨now', ?_, le_refl now'⟩⟩)
      simp [TimedQueue.push, htimer]
  | some first =>
      have hne : q.queue ≠ [] := hstep.mp (by simp [htimer])
      have htimer' : (q.push now' x).timer = q.timer := by simp [TimedQueue.push, htimer]
      rw [htimer']
      rcases h.mono hwaited hle with hnil | hfull | ⟨e, he, hwhy⟩
      · exact absurd hnil hne
      · refine .inr (.inl ?_)
        simp only [TimedQueue.push, List.length_append]
        exact Nat.le_add_right_of_le hfull
      · exact .inr (.inr ⟨e, List.mem_append_left _ he, hwhy⟩)

omit hwaited in
theorem shrink (h : Justified waited n now q.timer rest) :
    Justified waited n now (q.shrink rest).timer (q.shrink rest).queue := by
  by_cases hrest : rest = []
  · exact .inl hrest
  · simpa [TimedQueue.shrink, hrest] using h

omit hwaited in
/-- What a batch leaves behind came before the timer was started again. -/
theorem flush (h : Timely now q) (hle : now ≤ now') (k : Nat) :
    Justified waited n now' (q.flush now' k).timer (q.flush now' k).queue := by
  by_cases hdrop : q.queue.drop k = []
  · exact .inl hdrop
  · rcases List.exists_mem_of_ne_nil _ hdrop with ⟨e, he⟩
    refine .inr (.inr ⟨e, he, .inl ⟨now', by simp [TimedQueue.flush, hdrop], ?_⟩⟩)
    exact le_trans (h.came e (List.mem_of_mem_drop he)) hle

/-- A timer that has run out is right about some element, or the batch is full. -/
theorem prompt {timer : Option τ} {queue : List (α × τ)} (h : Justified waited n now timer queue)
    (hne : queue ≠ []) (hle : now ≤ t) (hout : ∀ first ∈ timer, waited first t) :
    n ≤ queue.length ∨ ∃ e ∈ queue, waited e.2 t := by
  rcases h with hnil | hfull | ⟨e, he, ⟨first, hfirst, hstarted⟩ | hlong⟩
  · exact absurd hnil hne
  · exact .inl hfull
  · exact .inr ⟨e, he, hwaited (hout first hfirst) hstarted (le_refl t)⟩
  · exact .inr ⟨e, he, hwaited hlong (le_refl _) hle⟩

end Justified

end TimedQueue
end Machine
