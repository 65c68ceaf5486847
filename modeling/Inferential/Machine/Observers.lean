import Mathlib.Tactic.Common

/-!
# Observers — values that are published to a growing list of callbacks

Callbacks are only ever added, also by a callback that is being called, and one that raises stops
none of the others.  Then each of them sees what is published from its registration on, once and in
order.
-/

namespace Machine

variable {σ ι κ β : Type*}

/-! ## One publication -/

/-- A loop that calls every callback of a list, with what each of them registers until it returns
or raises; the loop visits these too.  They are the callbacks that were called. -/
def notify : List κ → List (List κ) → List κ
  | [], _ => []
  | observers, [] => observers
  | k :: observers, registered :: rest => k :: notify (observers ++ registered) rest

theorem prefix_notify (observers : List κ) (reactions : List (List κ)) :
    observers <+: notify observers reactions := by
  induction reactions generalizing observers with
  | nil => cases observers <;> exact List.prefix_rfl
  | cons registered rest ih =>
      cases observers with
      | nil => exact List.prefix_rfl
      | cons k observers =>
          apply List.cons_prefix_cons.mpr
          exact ⟨rfl, (List.prefix_append observers registered).trans (ih (observers ++ registered))⟩

/-! ## The publications of a run -/

/-- What the callback at a position has been called with. -/
def seenBy (p : Nat) (log : List (β × List κ)) : List β :=
  log.filterMap fun entry => if p < entry.2.length then some entry.1 else none

/-- Nobody leaves: whoever was called is still registered, in the same place. -/
def Notified (observers : List κ) (log : List (β × List κ)) : Prop :=
  ∀ entry ∈ log, entry.2 <+: observers

/-- What one step does to the callbacks and the publications: callbacks are registered, or all of
them are called. -/
inductive Announces (observers : List κ) (log : List (β × List κ)) :
    List κ → List (β × List κ) → List β → Prop
  | join (ks : List κ) : Announces observers log (observers ++ ks) log []
  | publish (v : β) (reactions : List (List κ)) :
      Announces observers log (notify observers reactions)
        (log ++ [(v, notify observers reactions)]) [v]

section Publications

variable {observers observers' : List κ} {log log' : List (β × List κ)} {values : List β} {p : Nat}

/-- A callback that is not registered yet has seen nothing. -/
theorem Notified.unseen (h : Notified observers log) (hp : observers.length ≤ p) :
    seenBy p log = [] := by
  apply List.filterMap_eq_nil_iff.mpr
  intro entry hentry
  have hle := (h entry hentry).length_le
  exact if_neg (Nat.not_lt.mpr (Nat.le_trans hle hp))

theorem Announces.grows (h : Announces observers log observers' log' values) :
    observers <+: observers' := by
  cases h with
  | join ks => exact List.prefix_append observers ks
  | publish v reactions => exact prefix_notify observers reactions

theorem Announces.notified (h : Announces observers log observers' log' values)
    (hlog : Notified observers log) : Notified observers' log' := by
  have hgrows := h.grows
  cases h with
  | join ks => exact fun entry hentry => (hlog entry hentry).trans hgrows
  | publish v reactions =>
      intro entry hentry
      rcases List.mem_append.mp hentry with hold | hnew
      · exact (hlog entry hold).trans hgrows
      · rcases List.mem_singleton.mp hnew with rfl
        exact List.prefix_rfl

/-- A registered callback sees what is published. -/
theorem Announces.seen (h : Announces observers log observers' log' values)
    (hp : p < observers.length) : seenBy p log' = seenBy p log ++ values := by
  cases h with
  | join ks => exact (List.append_nil _).symm
  | publish v reactions =>
      have hlt : p < (notify observers reactions).length :=
        Nat.lt_of_lt_of_le hp (prefix_notify observers reactions).length_le
      simp [seenBy, hlt]

/-- A callback that is registered meanwhile sees it too. -/
theorem Announces.joined (h : Announces observers log observers' log' values)
    (hlog : Notified observers log) (hnew : observers.length ≤ p) (hp : p < observers'.length) :
    seenBy p log' = values := by
  have hunseen := hlog.unseen hnew
  cases h with
  | join ks => exact hunseen
  | publish v reactions =>
      unfold seenBy at hunseen ⊢
      rw [List.filterMap_append, hunseen]
      simp [hp]

theorem Announces.logged (h : Announces observers log observers' log' values) :
    log'.map Prod.fst = log.map Prod.fst ++ values := by
  cases h with
  | join ks => exact (List.append_nil _).symm
  | publish v reactions => simp

end Publications

section Runs

variable (step : σ → ι → σ)

/-- What is published along a run. -/
def publishedAlong (values : σ → ι → List β) : σ → List ι → List β
  | _, [] => []
  | s, i :: is => values s i ++ publishedAlong values (step s i) is

variable {step} {observers : σ → List κ} {log : σ → List (β × List κ)} {values : σ → ι → List β}

/-- From its registration on a callback sees all that is published, and only that. -/
theorem seen_along
    (h : ∀ s i, Announces (observers s) (log s) (observers (step s i)) (log (step s i)) (values s i))
    (s : σ) (is : List ι) {p : Nat} (hp : p < (observers s).length) :
    seenBy p (log (is.foldl step s)) = seenBy p (log s) ++ publishedAlong step values s is := by
  induction is generalizing s with
  | nil => exact (List.append_nil _).symm
  | cons i is ih =>
      have hp' : p < (observers (step s i)).length := Nat.lt_of_lt_of_le hp (h s i).grows.length_le
      rw [List.foldl_cons, ih (step s i) hp', (h s i).seen hp, List.append_assoc]
      rfl

theorem notified_along
    (h : ∀ s i, Announces (observers s) (log s) (observers (step s i)) (log (step s i)) (values s i))
    {s : σ} (hs : Notified (observers s) (log s)) (is : List ι) :
    Notified (observers (is.foldl step s)) (log (is.foldl step s)) := by
  induction is generalizing s with
  | nil => exact hs
  | cons i is ih => exact ih ((h s i).notified hs)

theorem grows_along
    (h : ∀ s i, Announces (observers s) (log s) (observers (step s i)) (log (step s i)) (values s i))
    (s : σ) (is : List ι) : observers s <+: observers (is.foldl step s) := by
  induction is generalizing s with
  | nil => exact List.prefix_rfl
  | cons i is ih => exact (h s i).grows.trans (ih (step s i))

theorem logged_along
    (h : ∀ s i, Announces (observers s) (log s) (observers (step s i)) (log (step s i)) (values s i))
    (s : σ) (is : List ι) :
    (log (is.foldl step s)).map Prod.fst =
      (log s).map Prod.fst ++ publishedAlong step values s is := by
  induction is generalizing s with
  | nil => exact (List.append_nil _).symm
  | cons i is ih =>
      rw [List.foldl_cons, ih (step s i), (h s i).logged, List.append_assoc]
      rfl

/-- A callback that a step registers sees what this step and the rest of the run publish. -/
theorem joined_along
    (h : ∀ s i, Announces (observers s) (log s) (observers (step s i)) (log (step s i)) (values s i))
    {s : σ} (hs : Notified (observers s) (log s)) (i : ι) (is : List ι) {p : Nat}
    (hnew : (observers s).length ≤ p) (hp : p < (observers (step s i)).length) :
    seenBy p (log ((i :: is).foldl step s)) = publishedAlong step values s (i :: is) := by
  have hfirst : seenBy p (log (step s i)) = values s i := (h s i).joined hs hnew hp
  rw [List.foldl_cons, seen_along h (step s i) is hp, hfirst]
  rfl

end Runs
end Machine
