import Mathlib.Data.List.Forall2
import Mathlib.Tactic.Common

/-!
# Unwinding — a run and the run of a part of its inputs

A machine takes inputs and gives outputs.  When it is run once on all inputs and once on those that
are kept, the outputs to the kept inputs agree, provided a relation between the two states

- is not disturbed by an input that is left out, and
- is kept by an input that both runs take, with outputs that agree.

Two machines that take the same inputs are compared in the same way.
-/

namespace Machine

variable {σ ι ο : Type*} (step : σ → ι → ο × σ)

/-- A run, with all outputs. -/
def run : σ → List ι → List ο × σ
  | s, [] => ([], s)
  | s, i :: is => ((step s i).1 :: (run (step s i).2 is).1, (run (step s i).2 is).2)

/-- The outputs to the inputs that are kept. -/
def outputsTo (keep : ι → Bool) : σ → List ι → List ο
  | _, [] => []
  | s, i :: is =>
      if keep i then (step s i).1 :: outputsTo keep (step s i).2 is
      else outputsTo keep (step s i).2 is

/-- Every input is taken in a state in which it is allowed. -/
def Follows (allowed : σ → ι → Prop) : σ → List ι → Prop
  | _, [] => True
  | s, i :: is => allowed s i ∧ Follows allowed (step s i).2 is

instance Follows.decidable {allowed : σ → ι → Prop} [∀ s i, Decidable (allowed s i)] :
    ∀ (s : σ) (is : List ι), Decidable (Follows step allowed s is)
  | _, [] => isTrue trivial
  | s, i :: is =>
      have : Decidable (Follows step allowed (step s i).2 is) := decidable (step s i).2 is
      inferInstanceAs (Decidable (allowed s i ∧ Follows step allowed (step s i).2 is))

/-- What lets the inputs that are not kept be left out. -/
structure Unwinds (allowed : σ → ι → Prop) (keep : ι → Bool) (related : σ → σ → Prop)
    (agree : ο → ο → Prop) : Prop where
  skip {s s' : σ} {i : ι} : related s s' → allowed s i → keep i = false → related (step s i).2 s'
  both {s s' : σ} {i : ι} : related s s' → allowed s i → keep i = true →
    agree (step s i).1 (step s' i).1 ∧ related (step s i).2 (step s' i).2

variable {step} {allowed : σ → ι → Prop} {keep : ι → Bool} {related : σ → σ → Prop}
  {agree : ο → ο → Prop}

/-- The two runs end in related states, and their outputs to the kept inputs agree. -/
theorem Unwinds.run (h : Unwinds step allowed keep related agree) {s s' : σ} {is : List ι}
    (hrelated : related s s') (hfollows : Follows step allowed s is) :
    List.Forall₂ agree (outputsTo step keep s is) (run step s' (is.filter keep)).1 ∧
      related (run step s is).2 (run step s' (is.filter keep)).2 := by
  induction is generalizing s s' with
  | nil => exact ⟨List.Forall₂.nil, hrelated⟩
  | cons i is ih =>
      rcases hfollows with ⟨hallowed, hrest⟩
      cases hkeep : keep i with
      | false =>
          have hnext := ih (h.skip hrelated hallowed hkeep) hrest
          simpa [outputsTo, Machine.run, hkeep] using hnext
      | true =>
          rcases h.both hrelated hallowed hkeep with ⟨hagree, hboth⟩
          rcases ih hboth hrest with ⟨houtputs, hend⟩
          refine ⟨?_, ?_⟩
          · simpa [outputsTo, Machine.run, hkeep] using ⟨hagree, houtputs⟩
          · simpa [Machine.run, hkeep] using hend

/-! ## Two machines -/

/-- Every input that the first machine is allowed to take has the same output in a related state of
the second, and leads to related states. -/
def Mirrors {τ : Type*} (step : σ → ι → ο × σ) (step' : τ → ι → ο × τ) (allowed : σ → ι → Prop)
    (related : σ → τ → Prop) : Prop :=
  ∀ s t i, related s t → allowed s i →
    (step s i).1 = (step' t i).1 ∧ related (step s i).2 (step' t i).2

theorem Mirrors.run {τ : Type*} {step' : τ → ι → ο × τ} {related : σ → τ → Prop}
    (h : Mirrors step step' allowed related) {s : σ} {t : τ} {is : List ι}
    (hrelated : related s t) (hfollows : Follows step allowed s is) :
    (run step s is).1 = (run step' t is).1 := by
  induction is generalizing s t with
  | nil => rfl
  | cons i is ih =>
      rcases hfollows with ⟨hallowed, hrest⟩
      rcases h s t i hrelated hallowed with ⟨houtput, hnext⟩
      simp only [Machine.run, houtput, ih hnext hrest]

theorem follows_forall {p : ι → Prop} {s : σ} {is : List ι} (h : ∀ i ∈ is, p i) :
    Follows step (fun _ i => p i) s is := by
  induction is generalizing s with
  | nil => trivial
  | cons i is ih =>
      rcases List.forall_mem_cons.mp h with ⟨hfirst, hrest⟩
      exact ⟨hfirst, ih hrest⟩

end Machine
