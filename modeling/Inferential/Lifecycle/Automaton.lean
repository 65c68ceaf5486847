import Mathlib.Data.List.Induction
import Mathlib.Data.List.Perm.Basic
import Mathlib.Tactic.Common

/-!
# Automaton — objects that each go through a life cycle

A life cycle is a deterministic automaton that may refuse an event.  A history mixes the events of
many objects; a roster lists the objects that are somewhere now, each with the state it is in.
`Tracks` says that the history of every object is a word of the automaton and that the roster is
right.  The rules below say which changes of history and roster keep it.
-/

namespace Lifecycle

variable {ι σ ε : Type}

structure Automaton (σ ε : Type) where
  start : σ
  next : σ → ε → Option σ

namespace Automaton

variable (A : Automaton σ ε)

/-- The state after a word, if no event of it is refused. -/
def after (word : List ε) : Option σ := word.foldlM A.next A.start

@[simp] theorem after_nil : A.after [] = some A.start := rfl

theorem after_append_singleton (word : List ε) (e : ε) :
    A.after (word ++ [e]) = (A.after word).bind fun s => A.next s e := by
  simp [after, List.foldlM_append]

/-- A prefix of a word is a word. -/
theorem after_append {before rest : List ε} (h : (A.after (before ++ rest)).isSome) :
    ∃ s, A.after before = some s ∧ rest.foldlM A.next s = A.after (before ++ rest) := by
  unfold after at h ⊢
  rw [List.foldlM_append] at h ⊢
  cases hbefore : before.foldlM A.next A.start with
  | none => simp [hbefore] at h
  | some s => exact ⟨s, rfl, by simp⟩

/-- What holds at the start and is kept by every accepted event holds after every word. -/
theorem after_keeps {inv : List ε → σ → Prop} (hstart : inv [] A.start)
    (hnext : ∀ word s e s', inv word s → A.next s e = some s' → inv (word ++ [e]) s')
    {word : List ε} {s : σ} (h : A.after word = some s) : inv word s := by
  -- words grow at the end, so the induction peels off the last event
  induction word using List.reverseRecOn generalizing s with
  | nil =>
      obtain rfl : A.start = s := by simpa using h
      exact hstart
  | append_singleton word e ih =>
      rw [after_append_singleton] at h
      obtain ⟨before, hbefore, hstep⟩ := Option.bind_eq_some_iff.mp h
      exact hnext word before e s (ih hbefore) hstep

end Automaton

variable [DecidableEq ι]

/-- The events of one object. -/
def wordOf (id : ι) (history : List (ι × ε)) : List ε :=
  (history.filter fun e => e.1 = id).map Prod.snd

theorem wordOf_append (id : ι) (history history' : List (ι × ε)) :
    wordOf id (history ++ history') = wordOf id history ++ wordOf id history' := by
  simp [wordOf]

@[simp] theorem wordOf_singleton (id : ι) (e : ε) : wordOf id [(id, e)] = [e] := by
  simp [wordOf]

theorem wordOf_other {id other : ι} (hne : other ≠ id) (e : ε) : wordOf id [(other, e)] = [] := by
  simp [wordOf, hne]

structure Tracks (A : Automaton σ ε) (roster : List (ι × σ)) (history : List (ι × ε)) : Prop where
  nodup : (roster.map Prod.fst).Nodup
  state : ∀ p ∈ roster, A.after (wordOf p.1 history) = some p.2
  valid : ∀ id, (A.after (wordOf id history)).isSome

namespace Tracks

variable {A : Automaton σ ε} {roster : List (ι × σ)} {history : List (ι × ε)}

theorem nil : Tracks A ([] : List (ι × σ)) ([] : List (ι × ε)) where
  nodup := List.nodup_nil
  state _ hp := by simp at hp
  valid _ := rfl

/-- Objects may be listed in another order, and may leave. -/
theorem leave (h : Tracks A roster history) {gone kept : List (ι × σ)}
    (hperm : roster.Perm (gone ++ kept)) : Tracks A kept history where
  nodup := by
    have hnodup := ((hperm.map Prod.fst).nodup_iff).mp h.nodup
    rw [List.map_append] at hnodup
    exact (List.nodup_append.mp hnodup).2.1
  state p hp := h.state p (hperm.mem_iff.mpr (List.mem_append_right gone hp))
  valid := h.valid

theorem perm (h : Tracks A roster history) {roster' : List (ι × σ)} (hperm : roster.Perm roster') :
    Tracks A roster' history :=
  h.leave (hperm.trans (List.Perm.of_eq (List.nil_append roster').symm))

/-- An object goes one step. -/
theorem advance {id : ι} {s s' : σ} {e : ε} {rest : List (ι × σ)}
    (h : Tracks A ((id, s) :: rest) history) (hnext : A.next s e = some s') :
    Tracks A ((id, s') :: rest) (history ++ [(id, e)]) := by
  have hid : id ∉ rest.map Prod.fst := (List.nodup_cons.mp h.nodup).1
  have hstep : A.after (wordOf id (history ++ [(id, e)])) = some s' := by
    rw [wordOf_append, wordOf_singleton, A.after_append_singleton,
      h.state (id, s) List.mem_cons_self]
    exact hnext
  have hother : ∀ other, other ≠ id →
      wordOf other (history ++ [(id, e)]) = wordOf other history := by
    intro other hne
    rw [wordOf_append, wordOf_other hne.symm, List.append_nil]
  -- the object that moved is in its new state, every other one keeps its word
  refine ⟨h.nodup, ?_, fun other => ?_⟩
  · intro p hp
    rcases List.mem_cons.mp hp with rfl | hrest
    · exact hstep
    · have hne : p.1 ≠ id := fun heq => hid (heq ▸ List.mem_map_of_mem hrest)
      rw [hother p.1 hne]
      exact h.state p (List.mem_cons_of_mem _ hrest)
  · by_cases heq : other = id
    · rw [heq, hstep]
      rfl
    · rw [hother other heq]
      exact h.valid other

/-- An object without a history enters. -/
theorem arrive (h : Tracks A roster history) {id : ι} {s : σ} {e : ε}
    (hfresh : wordOf id history = []) (hid : id ∉ roster.map Prod.fst)
    (hnext : A.next A.start e = some s) :
    Tracks A ((id, s) :: roster) (history ++ [(id, e)]) := by
  -- without a history the object is in the start state, from which it makes its first step
  have hstart : Tracks A ((id, A.start) :: roster) history := by
    refine ⟨List.nodup_cons.mpr ⟨hid, h.nodup⟩, ?_, h.valid⟩
    intro p hp
    rcases List.mem_cons.mp hp with rfl | hrest
    · simp [hfresh]
    · exact h.state p hrest
  exact hstart.advance hnext

end Tracks
end Lifecycle
