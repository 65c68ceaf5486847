import Mathlib.Tactic.Common

/-!
# Guarded — laws that hold as long as every step meets a guard

A law about steps often fails on some inputs.  When an invariant is kept by the inputs that meet a
guard, and on the states of the invariant the law holds for those inputs and for no others, then
the law holds along a run exactly when every step of the run meets the guard.
-/

namespace Machine

variable {σ ι : Type*} (step : σ → ι → σ)

/-- Every step of the run satisfies `p`. -/
def Along (p : σ → ι → Prop) : σ → List ι → Prop
  | _, [] => True
  | s, i :: is => p s i ∧ Along p (step s i) is

instance Along.decidable {p : σ → ι → Prop} [∀ s i, Decidable (p s i)] :
    ∀ (s : σ) (is : List ι), Decidable (Along step p s is)
  | _, [] => isTrue trivial
  | s, i :: is =>
      have : Decidable (Along step p (step s i) is) := decidable (step s i) is
      inferInstanceAs (Decidable (p s i ∧ Along step p (step s i) is))

/-- Every state of the run satisfies `p`, the first and the last included. -/
def Throughout (p : σ → Prop) : σ → List ι → Prop
  | s, [] => p s
  | s, i :: is => p s ∧ Throughout p (step s i) is

variable {step} {p q : σ → ι → Prop} {inv : σ → Prop} {s : σ} {is : List ι}

theorem along_and :
    Along step (fun s i => p s i ∧ q s i) s is ↔ Along step p s is ∧ Along step q s is := by
  induction is generalizing s with
  | nil => simp [Along]
  | cons i is ih =>
      simp only [Along, ih]
      exact and_and_and_comm

/-- A run of a machine that keeps more state goes along the run of the machine itself. -/
theorem along_map {τ : Type*} {step' : τ → ι → τ} {f : τ → σ}
    (hf : ∀ t i, f (step' t i) = step (f t) i) {t : τ} :
    Along step' (fun t i => p (f t) i) t is ↔ Along step p (f t) is := by
  induction is generalizing t with
  | nil => simp [Along]
  | cons i is ih => simp only [Along, ih, hf]

theorem throughout_iff {p : σ → Prop} :
    Throughout step p s is ↔ p s ∧ Along step (fun s i => p (step s i)) s is := by
  induction is generalizing s with
  | nil => simp [Throughout, Along]
  | cons i is ih => simp only [Throughout, Along, ih]

/-- An invariant that the inputs of the run keep holds in every state of it. -/
theorem throughout_of_inv (inv : σ → Prop) {p : σ → Prop}
    (hstep : ∀ s i, inv s → q s i → inv (step s i))
    (hp : ∀ s, inv s → p s) (hs : inv s) (h : Along step q s is) : Throughout step p s is := by
  induction is generalizing s with
  | nil => exact hp s hs
  | cons i is ih => exact ⟨hp s hs, ih (hstep s i hs h.1) h.2⟩

/-- On the states of the invariant the guard decides the law, and it keeps the invariant. -/
structure Guards (step : σ → ι → σ) (inv : σ → Prop) (guard law : σ → ι → Prop) : Prop where
  keeps {s : σ} {i : ι} : inv s → guard s i → inv (step s i)
  holds {s : σ} {i : ι} : inv s → guard s i → law s i
  needs {s : σ} {i : ι} : inv s → law s i → guard s i

namespace Guards

variable {guard law : σ → ι → Prop}

theorem along_iff (h : Guards step inv guard law) (hs : inv s) :
    Along step law s is ↔ Along step guard s is := by
  induction is generalizing s with
  | nil => exact Iff.rfl
  | cons i is ih =>
      constructor
      · rintro ⟨hlaw, hrest⟩
        have hguard := h.needs hs hlaw
        exact ⟨hguard, (ih (h.keeps hs hguard)).mp hrest⟩
      · rintro ⟨hguard, hrest⟩
        exact ⟨h.holds hs hguard, (ih (h.keeps hs hguard)).mpr hrest⟩

/-- For a law about states. -/
theorem throughout_iff {p : σ → Prop} (h : Guards step inv guard fun s i => p (step s i))
    (hs : inv s) (hp : p s) : Throughout step p s is ↔ Along step guard s is := by
  rw [Machine.throughout_iff, h.along_iff hs]
  exact and_iff_right hp

end Guards
end Machine
