import Inferential.Machine.Guarded
import Mathlib.Data.List.Flatten

/-!
# Simulation — one machine can do what another does

Every step of the first machine is answered by some steps of the second that show the same to the
outside.  Along a run the answers add up, so that the second machine has a run that shows the same
and ends in a related state.
-/

namespace Machine

variable {σ τ ι κ ω : Type*} {step : σ → ι → σ} {step' : τ → κ → τ}

theorem along_append {p : σ → ι → Prop} {s : σ} {is js : List ι} :
    Along step p s (is ++ js) ↔ Along step p s is ∧ Along step p (is.foldl step s) js := by
  induction is generalizing s with
  | nil => simp [Along]
  | cons i is ih => simp only [List.cons_append, Along, ih, List.foldl_cons, and_assoc]

theorem along_singleton {p : σ → ι → Prop} {s : σ} {i : ι} : Along step p s [i] ↔ p s i := by
  simp [Along]

/-- A guard that does not look at the state. -/
theorem along_forall {p : ι → Prop} {s : σ} {is : List ι} :
    Along step (fun _ i => p i) s is ↔ ∀ i ∈ is, p i := by
  induction is generalizing s with
  | nil => simp [Along]
  | cons i is ih => simp only [Along, ih, List.forall_mem_cons]

/-- A step that is taken as `assumed` is answered by steps that are `allowed`. -/
def Simulates (step : σ → ι → σ) (step' : τ → κ → τ) (shown : ι → Option ω) (shown' : κ → Option ω)
    (assumed : σ → ι → Prop) (allowed : τ → κ → Prop) (rel : σ → τ → Prop) : Prop :=
  ∀ s t i, rel s t → assumed s i →
    ∃ ks, Along step' allowed t ks ∧ ks.filterMap shown' = (shown i).toList ∧
      rel (step s i) (ks.foldl step' t)

theorem Simulates.run {shown : ι → Option ω} {shown' : κ → Option ω} {assumed : σ → ι → Prop}
    {allowed : τ → κ → Prop} {rel : σ → τ → Prop}
    (h : Simulates step step' shown shown' assumed allowed rel) {s : σ} {t : τ} (hrel : rel s t)
    {is : List ι} (hassumed : Along step assumed s is) :
    ∃ ks, Along step' allowed t ks ∧ ks.filterMap shown' = is.filterMap shown ∧
      rel (is.foldl step s) (ks.foldl step' t) := by
  induction is generalizing s t with
  | nil => exact ⟨[], trivial, rfl, hrel⟩
  | cons i is ih =>
      rcases h s t i hrel hassumed.1 with ⟨first, hfirst, hshown, hstep⟩
      rcases ih hstep hassumed.2 with ⟨rest, hrest, hshown', hend⟩
      refine ⟨first ++ rest, along_append.mpr ⟨hfirst, hrest⟩, ?_, ?_⟩
      · rw [List.filterMap_append, hshown, hshown', List.filterMap_cons]
        cases shown i <;> rfl
      · rw [List.foldl_append]
        exact hend

end Machine
