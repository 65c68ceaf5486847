import Mathlib.Data.List.Perm.Subperm
import Mathlib.Data.Prod.Lex
import Mathlib.Order.WellFounded
import Mathlib.Tactic.Common

/-!
# Ranking — what a machine gets done if it is allowed to go on

A rank that no step raises and that every useful step lowers shows that the machine gets there, in
any infinite run in which useful steps are taken again and again.
-/

namespace Machine

variable {σ ι α β : Type*}

/-! ## Infinite runs -/

/-- The states of the run that a schedule makes. -/
def trace (step : σ → ι → σ) (s : σ) (schedule : Nat → ι) : Nat → σ
  | 0 => s
  | n + 1 => step (trace step s schedule n) (schedule n)

/-- What holds at some time and is kept from then on holds from then on. -/
theorem trace_keeps {step : σ → ι → σ} {inv : σ → Prop} {allowed : σ → ι → Prop} {s : σ}
    {schedule : Nat → ι} (hkeeps : ∀ s i, inv s → allowed s i → inv (step s i)) {start : Nat}
    (hinv : inv (trace step s schedule start))
    (hallowed : ∀ n ≥ start, allowed (trace step s schedule n) (schedule n)) :
    ∀ n ≥ start, inv (trace step s schedule n) := by
  intro n hn
  induction n, hn using Nat.le_induction with
  | base => exact hinv
  | succ n hn ih => exact hkeeps _ _ ih (hallowed n hn)

/-- If useful steps are possible from some time on, then one is taken. -/
def WeaklyFair (step : σ → ι → σ) (useful : σ → ι → Prop) (s : σ) (schedule : Nat → ι) : Prop :=
  ∀ n, (∀ k ≥ n, ∃ i, useful (trace step s schedule k) i) →
    ∃ k ≥ n, useful (trace step s schedule k) (schedule k)

/-- While there is something to do, a useful step is possible and lowers the rank, and no allowed
step raises it. -/
structure Ranked [Preorder α] (step : σ → ι → σ) (inv : σ → Prop) (allowed useful : σ → ι → Prop)
    (done : σ → Prop) (rank : σ → α) : Prop where
  keeps : ∀ s i, inv s → allowed s i → inv (step s i)
  possible : ∀ s i, inv s → allowed s i → ¬ done s → ∃ i', useful s i'
  le : ∀ s i, inv s → allowed s i → ¬ done s → rank (step s i) ≤ rank s
  lt : ∀ s i, inv s → allowed s i → ¬ done s → useful s i → rank (step s i) < rank s

namespace Ranked

variable [Preorder α] {step : σ → ι → σ} {inv : σ → Prop} {allowed useful : σ → ι → Prop}
  {done : σ → Prop} {rank : σ → α} {s : σ} {schedule : Nat → ι} {start : Nat}

theorem antitone (h : Ranked step inv allowed useful done rank)
    (hinv : ∀ n ≥ start, inv (trace step s schedule n))
    (hallowed : ∀ n ≥ start, allowed (trace step s schedule n) (schedule n))
    (hbusy : ∀ n ≥ start, ¬ done (trace step s schedule n)) {k : Nat} (hk : start ≤ k) :
    rank (trace step s schedule k) ≤ rank (trace step s schedule start) := by
  induction k, hk using Nat.le_induction with
  | base => exact le_refl _
  | succ k hk ih => exact (h.le _ _ (hinv k hk) (hallowed k hk) (hbusy k hk)).trans ih

/-- In a fair run there is nothing left to do at some time. -/
theorem eventually [WellFoundedLT α] (h : Ranked step inv allowed useful done rank)
    (hinv : inv (trace step s schedule start))
    (hallowed : ∀ n ≥ start, allowed (trace step s schedule n) (schedule n))
    (hfair : WeaklyFair step useful s schedule) :
    ∃ n ≥ start, done (trace step s schedule n) := by
  by_contra hnever
  push Not at hnever
  have hinvs := trace_keeps h.keeps hinv hallowed
  -- by induction on the rank that is left
  have hleft : ∀ left : α, ∀ n ≥ start, rank (trace step s schedule n) ≠ left := by
    intro left
    induction left using WellFoundedLT.induction with
    | ind left ih =>
        rintro n hn rfl
        have hafter : ∀ {k}, n ≤ k → start ≤ k := fun hk => hn.trans hk
        rcases hfair n (fun k hk => h.possible _ _ (hinvs k (hafter hk)) (hallowed k (hafter hk))
          (hnever k (hafter hk))) with ⟨k, hk, huseful⟩
        have hle := h.antitone (fun k hk => hinvs k (hafter hk))
          (fun k hk => hallowed k (hafter hk)) (fun k hk => hnever k (hafter hk)) hk
        have hlt := h.lt _ _ (hinvs k (hafter hk)) (hallowed k (hafter hk)) (hnever k (hafter hk))
          huseful
        exact ih _ (hlt.trans_le hle) (k + 1) ((hafter hk).trans (Nat.le_succ k)) rfl
  exact hleft _ start (le_refl start) rfl

end Ranked

/-! ## Ranks of three parts -/

/-- The first part counts most. -/
def rank₃ (a b c : Nat) : Nat ×ₗ Nat ×ₗ Nat := toLex (a, toLex (b, c))

variable {a a' b b' c c' : Nat}

theorem rank₃_lt_first (ha : a' < a) : rank₃ a' b' c' < rank₃ a b c := Prod.Lex.left _ _ ha

theorem rank₃_lt_second (ha : a' ≤ a) (hb : b' < b) : rank₃ a' b' c' < rank₃ a b c := by
  rcases ha.lt_or_eq with hlt | rfl
  · exact rank₃_lt_first hlt
  · exact Prod.Lex.right _ (Prod.Lex.left _ _ hb)

theorem rank₃_lt_third (ha : a' ≤ a) (hb : b' ≤ b) (hc : c' < c) :
    rank₃ a' b' c' < rank₃ a b c := by
  rcases hb.lt_or_eq with hlt | rfl
  · exact rank₃_lt_second ha hlt
  · rcases ha.lt_or_eq with hlt | rfl
    · exact rank₃_lt_first hlt
    · exact Prod.Lex.right _ (Prod.Lex.right _ hc)

theorem rank₃_le (ha : a' ≤ a) (hb : b' ≤ b) (hc : c' ≤ c) : rank₃ a' b' c' ≤ rank₃ a b c := by
  rcases hc.lt_or_eq with hlt | rfl
  · exact (rank₃_lt_third ha hb hlt).le
  · rcases hb.lt_or_eq with hlt | rfl
    · exact (rank₃_lt_second ha hlt).le
    · rcases ha.lt_or_eq with hlt | rfl
      · exact (rank₃_lt_first hlt).le
      · exact le_refl _

/-! ## Costs that are added up -/

def total (cost : β → Nat) : List β → Nat
  | [] => 0
  | x :: xs => cost x + total cost xs

variable (cost : β → Nat) {xs ys : List β} {i : Nat} {x : β}

@[simp] theorem total_nil : total cost [] = 0 := rfl

@[simp] theorem total_cons (x : β) (xs : List β) : total cost (x :: xs) = cost x + total cost xs :=
  rfl

@[simp] theorem total_append (xs ys : List β) :
    total cost (xs ++ ys) = total cost xs + total cost ys := by
  induction xs with
  | nil => simp
  | cons x xs ih => simp [ih, Nat.add_assoc]

theorem total_perm (h : xs.Perm ys) : total cost xs = total cost ys := by
  induction h with
  | nil => rfl
  | cons x _ ih => simp [ih]
  | swap x y l => simp [Nat.add_left_comm]
  | trans _ _ ih ih' => exact ih.trans ih'

theorem total_subperm (h : xs.Subperm ys) : total cost xs ≤ total cost ys := by
  rcases h with ⟨zs, hperm, hsub⟩
  rw [← total_perm cost hperm]
  clear hperm
  induction hsub with
  | slnil => exact le_refl _
  | cons x _ ih => exact ih.trans (Nat.le_add_left _ _)
  | cons_cons x _ ih => exact Nat.add_le_add_left ih _

theorem total_eraseIdx (hx : xs[i]? = some x) :
    total cost (xs.eraseIdx i) + cost x = total cost xs := by
  rcases List.getElem?_eq_some_iff.mp hx with ⟨hi, rfl⟩
  rw [← total_perm cost (List.getElem_cons_eraseIdx_perm hi), total_cons, Nat.add_comm]

theorem total_set (hx : xs[i]? = some x) (y : β) :
    total cost (xs.set i y) + cost x = total cost xs + cost y := by
  rcases List.getElem?_eq_some_iff.mp hx with ⟨hi, rfl⟩
  rw [total_perm cost (List.set_perm_cons_eraseIdx hi y), total_cons,
    ← total_perm cost (List.getElem_cons_eraseIdx_perm hi), total_cons]
  omega

theorem total_modify (hx : xs[i]? = some x) (f : β → β) :
    total cost (xs.modify i f) + cost x = total cost xs + cost (f x) := by
  have hset : xs.modify i f = xs.set i (f x) := by
    refine List.ext_getElem? fun j => ?_
    by_cases hj : i = j
    · subst hj
      rcases List.getElem?_eq_some_iff.mp hx with ⟨hi, rfl⟩
      simp [hi]
    · simp [hj, List.getElem?_set_ne hj]
  rw [hset]
  exact total_set cost hx (f x)

/-- Changes that cost nothing keep the total. -/
theorem total_modify_same (f : β → β) (hsame : ∀ x, cost (f x) = cost x) :
    total cost (xs.modify i f) = total cost xs := by
  cases hx : xs[i]? with
  | none => rw [List.modify_eq_self (List.getElem?_eq_none_iff.mp hx)]
  | some x =>
      have hsum := total_modify cost hx f
      rw [hsame] at hsum
      exact Nat.add_right_cancel hsum

end Machine
