import Mathlib.Data.List.Forall2
import Mathlib.Data.List.Nodup
import Mathlib.Data.List.Perm.Subperm
import Mathlib.Tactic.Common

/-!
# Matching — every output has an input of its own

`Matches R xs ys` pairs each member of `ys` with a member of `xs` that it is related to, and pairs
no two of them with the same one; members of `xs` may be left over.  It says in one go that nothing
is made up and that nothing is answered twice.  Matchings compose, so that a chain of components can
be followed from end to end, each component on its own.
-/

namespace Machine

variable {α β γ κ : Type*}

def Matches (R : α → β → Prop) (xs : List α) (ys : List β) : Prop :=
  ∃ zs, zs.Subperm xs ∧ List.Forall₂ R zs ys

/-! ## Pairs of lists -/

theorem forall₂_sublist {R : α → β → Prop} {xs : List α} {ys ys' : List β}
    (h : List.Forall₂ R xs ys) (hsub : ys'.Sublist ys) :
    ∃ xs', xs'.Sublist xs ∧ List.Forall₂ R xs' ys' := by
  induction h generalizing ys' with
  | nil => exact ⟨[], List.Sublist.refl _, by simp [List.sublist_nil.mp hsub]⟩
  | cons hhead _ ih =>
      rcases List.sublist_cons_iff.mp hsub with hskip | ⟨rest, rfl, htail⟩
      · rcases ih hskip with ⟨xs', hxs', hpaired⟩
        exact ⟨xs', hxs'.cons _, hpaired⟩
      · rcases ih htail with ⟨xs', hxs', hpaired⟩
        exact ⟨_ :: xs', hxs'.cons_cons _, hpaired.cons hhead⟩

theorem forall₂_perm {R : α → β → Prop} {xs : List α} {ys ys' : List β}
    (h : List.Forall₂ R xs ys) (hperm : ys.Perm ys') : ∃ xs', xs'.Perm xs ∧ List.Forall₂ R xs' ys' := by
  induction hperm generalizing xs with
  | nil => exact ⟨xs, List.Perm.refl _, h⟩
  | cons y _ ih =>
      rcases List.forall₂_cons_right_iff.mp h with ⟨x, rest, hhead, htail, rfl⟩
      rcases ih htail with ⟨rest', hrest', hpaired⟩
      exact ⟨x :: rest', hrest'.cons x, hpaired.cons hhead⟩
  | swap y y' _ =>
      rcases List.forall₂_cons_right_iff.mp h with ⟨x, rest, hhead, htail, rfl⟩
      rcases List.forall₂_cons_right_iff.mp htail with ⟨x', rest', hhead', htail', rfl⟩
      exact ⟨x' :: x :: rest', List.Perm.swap x x' rest', (htail'.cons hhead).cons hhead'⟩
  | trans _ _ ih ih' =>
      rcases ih h with ⟨xs', hxs', hpaired⟩
      rcases ih' hpaired with ⟨xs'', hxs'', hpaired'⟩
      exact ⟨xs'', hxs''.trans hxs', hpaired'⟩

theorem forall₂_comp {R : α → β → Prop} {S : β → γ → Prop} {xs : List α} {ys : List β}
    {zs : List γ} (h : List.Forall₂ R xs ys) (h' : List.Forall₂ S ys zs) :
    List.Forall₂ (fun x z => ∃ y, R x y ∧ S y z) xs zs := by
  induction h generalizing zs with
  | nil => simpa using h'
  | cons hhead _ ih =>
      rcases List.forall₂_cons_left_iff.mp h' with ⟨z, rest, hhead', htail', rfl⟩
      exact (ih htail').cons ⟨_, hhead, hhead'⟩

namespace Matches

variable {R R' : α → β → Prop} {S : β → γ → Prop} {xs xs' : List α} {ys ys' : List β}
  {zs : List γ}

theorem nil (R : α → β → Prop) (xs : List α) : Matches R xs [] :=
  ⟨[], List.nil_subperm, .nil⟩

theorem of_forall₂ (h : List.Forall₂ R xs ys) : Matches R xs ys := ⟨xs, List.Subperm.refl _, h⟩

theorem length_le (h : Matches R xs ys) : ys.length ≤ xs.length := by
  rcases h with ⟨zs, hsub, hpaired⟩
  exact hpaired.length_eq ▸ hsub.length_le

/-- More inputs do no harm. -/
theorem widen (hsub : xs.Subperm xs') (h : Matches R xs ys) : Matches R xs' ys := by
  rcases h with ⟨zs, hzs, hpaired⟩
  exact ⟨zs, hzs.trans hsub, hpaired⟩

/-- Outputs may get lost, and come in any order. -/
theorem narrow (hsub : ys'.Subperm ys) (h : Matches R xs ys) : Matches R xs ys' := by
  rcases h with ⟨zs, hzs, hpaired⟩
  rcases hsub with ⟨kept, hkept, hsublist⟩
  rcases forall₂_sublist hpaired hsublist with ⟨zs', hzs', hpaired'⟩
  rcases forall₂_perm hpaired' hkept with ⟨zs'', hzs'', hpaired''⟩
  exact ⟨zs'', hzs''.subperm.trans (hzs'.subperm.trans hzs), hpaired''⟩

theorem append (h : Matches R xs ys) (h' : Matches R xs' ys') :
    Matches R (xs ++ xs') (ys ++ ys') := by
  rcases h with ⟨zs, hzs, hpaired⟩
  rcases h' with ⟨zs', hzs', hpaired'⟩
  exact ⟨zs ++ zs', hzs.append hzs', List.rel_append hpaired hpaired'⟩

/-- What an output is made from may itself be the output of an earlier stage. -/
theorem comp (h : Matches R xs ys) (h' : Matches S ys zs) :
    Matches (fun x z => ∃ y, R x y ∧ S y z) xs zs := by
  rcases h' with ⟨ys', hys', hpaired'⟩
  rcases h.narrow hys' with ⟨xs', hxs', hpaired⟩
  exact ⟨xs', hxs', forall₂_comp hpaired hpaired'⟩

theorem mem (h : Matches R xs ys) {y : β} (hy : y ∈ ys) : ∃ x ∈ xs, R x y := by
  rcases h with ⟨zs, hsub, hpaired⟩
  induction hpaired generalizing xs with
  | nil => simp at hy
  | cons hhead _ ih =>
      rcases List.mem_cons.mp hy with rfl | hrest
      · exact ⟨_, hsub.subset List.mem_cons_self, hhead⟩
      · exact ih hrest ((List.sublist_cons_self _ _).subperm.trans hsub)

/-- Outputs may be looked at in another form. -/
theorem map {f : β → γ} {T : α → γ → Prop} (hf : ∀ y ∈ ys, ∀ x, R x y → T x (f y))
    (h : Matches R xs ys) : Matches T xs (ys.map f) := by
  rcases h with ⟨zs, hsub, hpaired⟩
  refine ⟨zs, hsub, List.forall₂_map_right_iff.mpr ?_⟩
  clear hsub
  induction hpaired with
  | nil => exact .nil
  | cons hhead _ ih =>
      exact (ih fun y hy => hf y (List.mem_cons_of_mem _ hy)).cons
        (hf _ List.mem_cons_self _ hhead)

/-- Inputs that no output can come from may be left out. -/
theorem filterMap {f : α → Option γ} {T : γ → β → Prop}
    (hf : ∀ x ∈ xs, ∀ y ∈ ys, R x y → ∃ z, f x = some z ∧ T z y) (h : Matches R xs ys) :
    Matches T (xs.filterMap f) ys := by
  rcases h with ⟨zs, hsub, hpaired⟩
  have hmapped : List.Forall₂ T (zs.filterMap f) ys := by
    have hall : ∀ x ∈ zs, ∀ y ∈ ys, R x y → ∃ z, f x = some z ∧ T z y :=
      fun x hx => hf x (hsub.subset hx)
    clear hsub hf
    induction hpaired with
    | nil => exact .nil
    | cons hhead _ ih =>
        rcases hall _ List.mem_cons_self _ List.mem_cons_self hhead with ⟨z, hz, hzy⟩
        rw [List.filterMap_cons_some hz]
        exact (ih fun x hx y hy =>
          hall x (List.mem_cons_of_mem _ hx) y (List.mem_cons_of_mem _ hy)).cons hzy
  rcases hsub with ⟨kept, hkept, hsublist⟩
  exact ⟨_, ((hkept.symm.filterMap f).subperm).trans (hsublist.filterMap f).subperm, hmapped⟩

/-- It is enough to find an input for each output, if a key tells the outputs apart. -/
theorem of_key (f : α → κ) (g : β → κ) (hkey : ∀ x y, R x y → f x = g y)
    (hnodup : (ys.map g).Nodup) (h : ∀ y ∈ ys, ∃ x ∈ xs, R x y) : Matches R xs ys := by
  have hpaired : ∃ zs, List.Forall₂ R zs ys ∧ zs ⊆ xs := by
    clear hnodup
    induction ys with
    | nil => exact ⟨[], .nil, by simp⟩
    | cons y ys ih =>
        rcases h y List.mem_cons_self with ⟨x, hx, hxy⟩
        rcases ih fun y' hy' => h y' (List.mem_cons_of_mem y hy') with ⟨zs, hzs, hsubset⟩
        exact ⟨x :: zs, hzs.cons hxy, List.cons_subset.mpr ⟨hx, hsubset⟩⟩
  rcases hpaired with ⟨zs, hzs, hsubset⟩
  -- the inputs that were found have the keys of the outputs, so they are distinct
  have hkeys : zs.map f = ys.map g := by
    clear hnodup hsubset h
    induction hzs with
    | nil => rfl
    | cons hhead _ ih => simp only [List.map_cons, hkey _ _ hhead, ih]
  have hdistinct : zs.Nodup := List.Nodup.of_map f (hkeys ▸ hnodup)
  exact ⟨zs, List.subperm_of_subset hdistinct hsubset, hzs⟩

end Matches

/-! ## Lossy channels -/

/-- Messages wait in any order and may be lost; what was sent and what was delivered is written
down. -/
structure Channel (α : Type*) where
  sent : List α := []
  inFlight : List α := []
  delivered : List α := []

namespace Channel

def send (xs : List α) (c : Channel α) : Channel α :=
  { c with sent := c.sent ++ xs, inFlight := c.inFlight ++ xs }

def lose (n : Nat) (c : Channel α) : Channel α := { c with inFlight := c.inFlight.eraseIdx n }

def deliver (n : Nat) (c : Channel α) : Channel α :=
  { c with
    inFlight := c.inFlight.eraseIdx n
    delivered := c.delivered ++ c.inFlight[n]?.toList }

/-- Nothing is delivered that was not sent, and nothing more often than it was sent. -/
def Honest (c : Channel α) : Prop := (c.delivered ++ c.inFlight).Subperm c.sent

variable {c : Channel α}

theorem honest_empty : Honest ({} : Channel α) := List.nil_subperm

theorem Honest.send (h : Honest c) (xs : List α) : Honest (c.send xs) := by
  have hmore : ((c.delivered ++ c.inFlight) ++ xs).Subperm (c.sent ++ xs) :=
    List.Subperm.append h (List.Subperm.refl xs)
  simpa only [Honest, Channel.send, List.append_assoc] using hmore

theorem Honest.lose (h : Honest c) (n : Nat) : Honest (c.lose n) := by
  have hless : (c.delivered ++ c.inFlight.eraseIdx n).Sublist (c.delivered ++ c.inFlight) :=
    (List.eraseIdx_sublist c.inFlight n).append_left c.delivered
  exact hless.subperm.trans h

theorem Honest.deliver (h : Honest c) (n : Nat) : Honest (c.deliver n) := by
  cases hn : c.inFlight[n]? with
  | none =>
      have hnothing : c.deliver n = c.lose n := by simp [Channel.deliver, Channel.lose, hn]
      exact hnothing ▸ h.lose n
  | some x =>
      rcases List.getElem?_eq_some_iff.mp hn with ⟨hlt, rfl⟩
      have hmoved : (c.delivered ++ [c.inFlight[n]] ++ c.inFlight.eraseIdx n).Perm
          (c.delivered ++ c.inFlight) := by
        rw [List.append_assoc]
        exact (List.getElem_cons_eraseIdx_perm hlt).append_left c.delivered
      simpa [Honest, Channel.deliver, hlt] using hmoved.subperm.trans h

theorem Honest.delivered_subperm (h : Honest c) : c.delivered.Subperm c.sent :=
  (List.sublist_append_left _ _).subperm.trans h

end Channel
end Machine
