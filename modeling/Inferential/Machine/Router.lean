import Mathlib.Data.List.Basic
import Mathlib.Logic.Function.Basic
import Mathlib.Tactic.Common

/-!
# Router — one queue that is sorted into many

Messages arrive in one queue.  Its head is moved to the end of the box of its key, and the head of a
box is handed to whoever asks for that key.  In whatever order this is done, each key gets its own
messages, in the order in which they arrived.
-/

namespace Machine

variable {κ α : Type*} [DecidableEq κ]

structure Router (κ α : Type*) where
  queue : List α
  boxes : κ → List α
  /-- Everything that was handed out, with the key that was asked for. -/
  handed : List (κ × α)

namespace Router

variable (key : α → κ)

/-- A move, with the messages that arrive in it. -/
inductive Step : Router κ α → List α → Router κ α → Prop
  | stay (r : Router κ α) : Step r [] r
  | arrive (r : Router κ α) (x : α) : Step r [x] { r with queue := r.queue ++ [x] }
  | route (r : Router κ α) (x : α) (rest : List α) (hqueue : r.queue = x :: rest) :
      Step r [] { r with
        queue := rest
        boxes := Function.update r.boxes (key x) (r.boxes (key x) ++ [x]) }
  | hand (r : Router κ α) (k : κ) (x : α) (rest : List α) (hbox : r.boxes k = x :: rest) :
      Step r [] { r with
        boxes := Function.update r.boxes k rest
        handed := r.handed ++ [(k, x)] }

/-- The messages that were handed out for a key, in order. -/
def handedTo (k : κ) (r : Router κ α) : List α :=
  r.handed.filterMap fun h => if h.1 = k then some h.2 else none

/-- The messages of a key. -/
def ofKey (k : κ) (xs : List α) : List α := xs.filter fun x => key x = k

/-- What has arrived for a key was handed out, is in its box, or is still in the queue, in this
order. -/
def Conserves (arrived : List α) (r : Router κ α) : Prop :=
  ∀ k, ofKey key k arrived = r.handedTo k ++ r.boxes k ++ ofKey key k r.queue

variable {key} {r r' : Router κ α} {arrived new : List α}

/-- What was handed out for a key is the beginning of what has arrived for it. -/
theorem Conserves.handed_prefix (h : Conserves key arrived r) (k : κ) :
    r.handedTo k <+: ofKey key k arrived := by
  rw [h k, List.append_assoc]
  exact List.prefix_append _ _

theorem Step.conserves (hstep : Step key r new r') (h : Conserves key arrived r) :
    Conserves key (arrived ++ new) r' := by
  intro k
  have hk := h k
  simp only [ofKey] at hk
  cases hstep with
  | stay => simpa [ofKey] using hk
  | arrive x => simp [ofKey, handedTo, hk]
  | route x rest hqueue =>
      simp only [hqueue] at hk
      by_cases hkey : key x = k
      · subst hkey
        simpa [ofKey, handedTo] using hk
      · simpa [ofKey, handedTo, hkey, Function.update_of_ne (Ne.symm hkey)] using hk
  | hand k' x rest hbox =>
      by_cases hkey : k' = k
      · subst hkey
        simpa [ofKey, handedTo, hbox] using hk
      · simpa [ofKey, handedTo, hkey, Function.update_of_ne (Ne.symm hkey)] using hk

/-- A router without messages. -/
theorem conserves_nil (hqueue : r.queue = []) (hboxes : ∀ k, r.boxes k = [])
    (hhanded : r.handed = []) : Conserves key [] r := by
  intro k
  simp [handedTo, ofKey, hqueue, hboxes, hhanded]

/-- A machine whose steps are moves of a router conserves what arrives. -/
theorem conserves_run {σ ι : Type*} {step : σ → ι → σ} (view : σ → Router κ α)
    {arrives : ι → List α} {allowed : ι → Prop} {inv : σ → Prop}
    (hstep : ∀ s i, allowed i → inv s →
      inv (step s i) ∧ Step key (view s) (arrives i) (view (step s i))) {s : σ} {is : List ι}
    (hallowed : ∀ i ∈ is, allowed i) (hs : inv s) (h : Conserves key arrived (view s)) :
    Conserves key (arrived ++ is.flatMap arrives) (view (is.foldl step s)) := by
  induction is generalizing s arrived with
  | nil => simpa using h
  | cons i is ih =>
      rcases List.forall_mem_cons.mp hallowed with ⟨hi, his⟩
      rcases hstep s i hi hs with ⟨hinv, hmove⟩
      have hnext := ih his hinv (hmove.conserves h)
      simpa using hnext

end Router
end Machine
