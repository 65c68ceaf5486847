import Mathlib.Data.List.Basic
import Mathlib.Tactic.Common

/-!
# Departures — the order in which a machine gives out what it holds

A machine holds elements in an order, and each call may give some of them out.  What a call does to
the elements that were there before is said by `InOrder`: the ones it gives out and the ones it
leaves, in this order, stand as they stood.  A run then gives them out in the order they stood in.
-/

namespace Machine

variable {σ κ α : Type*}

/-- The elements that a run gives out, and the state it ends in. -/
def gives (serve : σ → κ → List α × σ) : σ → List κ → List α × σ
  | s, [] => ([], s)
  | s, c :: cs =>
      let rest := gives serve (serve s c).2 cs
      ((serve s c).1 ++ rest.1, rest.2)

/-- What `n` calls of `next` return. -/
def unload (next : σ → List α × σ) : Nat → σ → List α
  | 0, _ => []
  | n + 1, s => (next s).1 ++ unload next n (next s).2

/-- The old elements that go out, followed by those that stay, are in the order they were in. -/
def InOrder (old : α → Bool) (before out after : List α) : Prop :=
  ((out ++ after).filter old).Sublist (before.filter old)

namespace InOrder

variable {old : α → Bool} {before out after out' after' : List α}

theorem of_sublist (h : (out ++ after).Sublist before) : InOrder old before out after :=
  h.filter old

/-- Nothing goes out, and what is added is new. -/
theorem of_filter_eq (h : after.filter old = before.filter old) : InOrder old before [] after := by
  simp [InOrder, h]

theorem trans (h : InOrder old before out after) (h' : InOrder old after out' after') :
    InOrder old before (out ++ out') after' := by
  have hrest : ((out ++ (out' ++ after')).filter old).Sublist ((out ++ after).filter old) := by
    simp only [List.filter_append out]
    exact (List.Sublist.refl _).append h'
  unfold InOrder
  simp only [List.append_assoc]
  exact hrest.trans h

/-- Old elements that go out, one after the other, stood in this order. -/
theorem sublist (h : InOrder old before out after) {l : List α} (hl : l.Sublist out)
    (hold : ∀ x ∈ l, old x = true) : l.Sublist (before.filter old) := by
  have hself : l.filter old = l := List.filter_eq_self.mpr hold
  calc
    l = l.filter old := hself.symm
    List.Sublist _ ((out ++ after).filter old) :=
      (hl.trans (List.sublist_append_left out after)).filter old
    List.Sublist _ (before.filter old) := h

end InOrder

variable {serve : σ → κ → List α × σ} {old : α → Bool}

/-- What every call keeps holds at the end of a run. -/
theorem gives_inv (inv : σ → Prop) (hstep : ∀ s c, inv s → inv (serve s c).2) {s : σ} (hs : inv s)
    (cs : List κ) : inv (gives serve s cs).2 := by
  induction cs generalizing s with
  | nil => exact hs
  | cons c cs ih => exact ih (hstep s c hs)

/-- Calls that keep the order make runs that do. -/
theorem gives_inOrder (order : σ → List α) (inv : σ → Prop) (allowed : κ → Prop)
    (hstep : ∀ s c, inv s → allowed c → inv (serve s c).2 ∧
      InOrder old (order s) (serve s c).1 (order (serve s c).2))
    {s : σ} (hs : inv s) {cs : List κ} (hcs : ∀ c ∈ cs, allowed c) :
    InOrder old (order s) (gives serve s cs).1 (order (gives serve s cs).2) := by
  induction cs generalizing s with
  | nil => exact .of_sublist (List.Sublist.refl _)
  | cons c cs ih =>
      rcases hstep s c hs (hcs c List.mem_cons_self) with ⟨hs', hcall⟩
      exact hcall.trans (ih hs' fun c' hc' => hcs c' (List.mem_cons_of_mem c hc'))

/-- A machine that gives out the head of its order, one element a call, is emptied in this order. -/
theorem unload_eq_take {next : σ → List α × σ} (order : σ → List α) (inv : σ → Prop)
    (hnext : ∀ s, inv s → inv (next s).2 ∧
      (order s = [] ∧ next s = ([], s) ∨ ∃ x, (next s).1 = [x] ∧ order s = x :: order (next s).2))
    {s : σ} (hs : inv s) (n : Nat) : unload next n s = (order s).take n := by
  induction n generalizing s with
  | zero => simp [unload]
  | succ n ih =>
      rcases hnext s hs with ⟨hs', ⟨hnil, hsame⟩ | ⟨x, hout, horder⟩⟩
      · have hrest := ih hs
        simp only [hnil, List.take_nil] at hrest
        simp [unload, hsame, hnil, hrest]
      · simp [unload, hout, horder, ih hs']

end Machine
