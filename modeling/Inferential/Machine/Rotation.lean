import Inferential.Machine.Departures
import Inferential.Machine.Guarded
import Mathlib.Data.List.Count
import Mathlib.Data.List.Nodup

/-!
# Rotation — two keys of a rotating list are served in turn

A machine keeps its keys in a list.  It serves the first key that it can and moves that key, with
the ones it passed over, to the end.  Of two keys that are never passed over, the one ahead is
served first and is then behind the other, so that a run serves the two alternately.
-/

namespace Machine

variable {σ ι α κ : Type*}

/-- Elements that alternate between `c` and `d`, beginning with `c`. -/
inductive Alternating : κ → κ → List κ → Prop
  | nil (c d : κ) : Alternating c d []
  | cons {c d : κ} {l : List κ} (h : Alternating d c l) : Alternating c d (c :: l)

theorem Alternating.count_le [DecidableEq κ] {c d : κ} {l : List κ} (h : Alternating c d l)
    (hne : c ≠ d) : l.count d ≤ l.count c ∧ l.count c ≤ l.count d + 1 := by
  induction h with
  | nil => simp
  | @cons c d l h ih =>
      rcases ih hne.symm with ⟨hle, hge⟩
      rw [List.count_cons_self, List.count_cons_of_ne hne]
      exact ⟨hge, Nat.succ_le_succ hle⟩

/-! ## Two keys of a list -/

/-- `c` stands before `d`. -/
def Ahead (c d : κ) (keys : List κ) : Prop := [c, d].Sublist keys

namespace Ahead

variable {c d x : κ} {keys keys' before after : List κ}

theorem mono (h : Ahead c d keys) (hsub : keys.Sublist keys') : Ahead c d keys' := h.trans hsub

theorem filter {keep : κ → Bool} (h : Ahead c d keys) (hc : keep c = true) (hd : keep d = true) :
    Ahead c d (keys.filter keep) := by
  have hfilter : ([c, d].filter keep).Sublist (keys.filter keep) := List.Sublist.filter keep h
  rw [List.filter_cons_of_pos hc, List.filter_cons_of_pos hd] at hfilter
  exact hfilter

theorem of_mem (hc : c ∈ keys) (hd : d ∈ keys) (hne : c ≠ d) : Ahead c d keys ∨ Ahead d c keys := by
  rcases List.append_of_mem hc with ⟨before, after, rfl⟩
  rcases List.mem_append.mp hd with hbefore | hafter
  · right
    exact (List.singleton_sublist.mpr hbefore).append
      (List.singleton_sublist.mpr List.mem_cons_self)
  · rcases List.mem_cons.mp hafter with heq | hafter
    · exact absurd heq.symm hne
    · left
      refine List.Sublist.trans ?_ (List.sublist_append_right before _)
      exact (List.singleton_sublist.mpr hafter).cons_cons c

theorem of_append (h : Ahead c d (before ++ keys)) (hc : c ∉ before) : Ahead c d keys := by
  induction before with
  | nil => exact h
  | cons b before ih =>
      have hne : c ≠ b ∧ c ∉ before := by simpa using hc
      have htail : Ahead c d (before ++ keys) := List.Sublist.of_cons_of_ne hne.1 h
      exact ih htail hne.2

/-- The key `x` is served, and the ones of `before` are passed over. -/
theorem rotate (h : Ahead c d (before ++ x :: after)) (hnodup : (before ++ x :: after).Nodup)
    (hc : c ∉ before) :
    x = c ∧ Ahead d c (after ++ before ++ [x]) ∨
      x ≠ c ∧ x ≠ d ∧ Ahead c d (after ++ before ++ [x]) := by
  have hrest := h.of_append hc
  by_cases hx : x = c
  · subst hx
    have hd : d ∈ after := List.singleton_sublist.mp (List.cons_sublist_cons.mp hrest)
    refine .inl ⟨rfl, ?_⟩
    exact (List.singleton_sublist.mpr (List.mem_append_left before hd)).append
      (List.Sublist.refl [x])
  · have hafter : Ahead c d after := hrest.of_cons_of_ne (Ne.symm hx)
    have hxd : x ≠ d := by
      rintro rfl
      have hmem : x ∈ after := hafter.subset (by simp)
      exact (List.nodup_cons.mp (List.nodup_append.mp hnodup).2.1).1 hmem
    refine .inr ⟨hx, hxd, hafter.mono ?_⟩
    rw [List.append_assoc]
    exact List.sublist_append_left after _

end Ahead

/-! ## Runs -/

section Run

variable [DecidableEq κ] {c d : κ}

/-- The occurrences of the two keys. -/
def ofPair (c d : κ) (l : List κ) : List κ := l.filter fun k => k = c ∨ k = d

theorem ofPair_comm (c d : κ) (l : List κ) : ofPair c d l = ofPair d c l := by
  unfold ofPair
  simp only [or_comm]

@[simp] theorem ofPair_nil (c d : κ) : ofPair c d [] = [] := rfl

theorem ofPair_append (c d : κ) (l l' : List κ) :
    ofPair c d (l ++ l') = ofPair c d l ++ ofPair c d l' := List.filter_append l l'

@[simp] theorem count_ofPair_left (c d : κ) (l : List κ) : (ofPair c d l).count c = l.count c :=
  List.count_filter (by simp)

@[simp] theorem count_ofPair_right (c d : κ) (l : List κ) : (ofPair c d l).count d = l.count d :=
  List.count_filter (by simp)

/-- Neither of the keys is served and they stand as they stood, or the first one is served and is
then behind the other. -/
def TakesTurn (c d : κ) (keys out keys' : List κ) : Prop :=
  Ahead c d keys →
    ofPair c d out = [] ∧ Ahead c d keys' ∨ ofPair c d out = [c] ∧ Ahead d c keys'

theorem TakesTurn.of_sublist {keys keys' : List κ} (h : keys.Sublist keys') :
    TakesTurn c d keys [] keys' :=
  fun hahead => .inl ⟨rfl, hahead.mono h⟩

variable {serve : σ → ι → List α × σ} (key : α → κ) (order : σ → List κ) (inv : σ → Prop)
  (guard : σ → ι → Prop)

/-- Serving begins with the key that is ahead. -/
theorem gives_alternating
    (hstep : ∀ s i, inv s → guard s i → inv (serve s i).2 ∧
      TakesTurn c d (order s) ((serve s i).1.map key) (order (serve s i).2) ∧
      TakesTurn d c (order s) ((serve s i).1.map key) (order (serve s i).2))
    {s : σ} (hs : inv s) {is : List ι} (his : Along (fun s i => (serve s i).2) guard s is)
    (hahead : Ahead c d (order s)) :
    Alternating c d (ofPair c d ((gives serve s is).1.map key)) := by
  induction is generalizing s c d with
  | nil => exact .nil c d
  | cons i is ih =>
      rcases hstep s i hs his.1 with ⟨hs', hturn, -⟩
      simp only [gives, List.map_append, ofPair_append]
      rcases hturn hahead with ⟨hout, hahead'⟩ | ⟨hout, hahead'⟩
      · rw [hout]
        exact ih hstep hs' his.2 hahead'
      · -- now the other one is ahead
        rw [hout, ofPair_comm c d ((gives serve _ is).1.map key)]
        refine .cons (ih ?_ hs' his.2 hahead')
        exact fun s i hinv hguard => ⟨(hstep s i hinv hguard).1, (hstep s i hinv hguard).2.symm⟩

/-- The two keys may come into the list during the run, if none is served before. -/
theorem gives_turns (hne : c ≠ d)
    (hstep : ∀ s i, inv s → guard s i → inv (serve s i).2 ∧
      TakesTurn c d (order s) ((serve s i).1.map key) (order (serve s i).2) ∧
      TakesTurn d c (order s) ((serve s i).1.map key) (order (serve s i).2))
    (hearly : ∀ s i, inv s → guard s i → ¬ (c ∈ order s ∧ d ∈ order s) →
      ofPair c d ((serve s i).1.map key) = [])
    {s : σ} (hs : inv s) {is : List ι} (his : Along (fun s i => (serve s i).2) guard s is) :
    Alternating c d (ofPair c d ((gives serve s is).1.map key)) ∨
      Alternating d c (ofPair c d ((gives serve s is).1.map key)) := by
  induction is generalizing s with
  | nil => exact .inl (.nil c d)
  | cons i is ih =>
      by_cases hboth : c ∈ order s ∧ d ∈ order s
      · rcases Ahead.of_mem hboth.1 hboth.2 hne with hahead | hahead
        · exact .inl (gives_alternating key order inv guard hstep hs his hahead)
        · rw [ofPair_comm c d]
          refine .inr (gives_alternating key order inv guard ?_ hs his hahead)
          exact fun s i hinv hguard => ⟨(hstep s i hinv hguard).1, (hstep s i hinv hguard).2.symm⟩
      · simp only [gives, List.map_append, ofPair_append, hearly s i hs his.1 hboth]
        exact ih (hstep s i hs his.1).1 his.2

end Run
end Machine
