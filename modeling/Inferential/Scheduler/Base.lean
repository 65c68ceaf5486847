import Inferential.Config.Schema
import Mathlib.Data.List.Induction
import Mathlib.Data.List.Perm.Basic

/-!
# Base — what all schedulers share

The abstract class `Scheduler`, the TTL test, the weighted score that three of the schedulers
compute with the same code, and the choice of the oldest request.
-/

namespace Inferential

open PyStd

variable {ν : Type}

/-- What a call of `submit` or `resubmit` leaves: the state, the exception if it raised one, and
the request that overflow handling dropped. -/
structure Submitted (σ ν : Type) where
  state : σ
  raised : Option PyError := none
  dropped : Option (InferenceRequest ν) := none

/-- The abstract class `Scheduler`. -/
class Scheduler (σ : Type) (ν : outParam Type) where
  submit : Moment ν → InferenceRequest ν → σ → Submitted σ ν
  resubmit : Moment ν → InferenceRequest ν → σ → Submitted σ ν
  nextBatch : Rat → σ → List (InferenceRequest ν) × σ
  /-- The clock is read once for each request that is tested. -/
  tick : (InferenceRequest ν → Rat) → σ → Nat × σ
  onClientConnected : String → σ → σ
  onClientDisconnected : String → σ → σ
  queueLen : σ → Int

/-- The abstract class `ModelAwareScheduler`. -/
class ModelAwareScheduler (σ : Type) (ν : outParam Type) where
  nextBatchForModel : String → σ → List (InferenceRequest ν) × σ
  models : σ → List String
  queueLenForModel : String → σ → Nat

/-- A loop of `next_batch` that returns the first batch that is not empty. -/
def firstBatch {σ κ : Type} (next : κ → σ → List (InferenceRequest ν) × σ) :
    List κ → σ → List (InferenceRequest ν) × σ
  | [], s => ([], s)
  | key :: keys, s =>
      let (batch, s') := next key s
      if batch.isEmpty then firstBatch next keys s' else (batch, s')

/-- The loop returns what its first non-empty key gives, if an empty answer changes nothing. -/
theorem firstBatch_spec {σ κ : Type} {next : κ → σ → List (InferenceRequest ν) × σ} {s : σ}
    (hempty : ∀ key, (next key s).1 = [] → (next key s).2 = s) (keys : List κ) :
    ((∀ key ∈ keys, (next key s).1 = []) ∧ firstBatch next keys s = ([], s)) ∨
    ∃ before key after, keys = before ++ key :: after ∧ (∀ k ∈ before, (next k s).1 = []) ∧
      (next key s).1 ≠ [] ∧ firstBatch next keys s = next key s := by
  -- an empty answer leaves the state alone, so the rest of the loop runs on the same `s`
  induction keys with
  | nil => exact Or.inl ⟨by simp, rfl⟩
  | cons key keys ih =>
      by_cases hkey : (next key s).1 = []
      · have hstep : firstBatch next (key :: keys) s = firstBatch next keys s := by
          simp [firstBatch, hkey, hempty key hkey]
        rw [hstep]
        rcases ih with ⟨hall, heq⟩ | ⟨before, k, after, hsplit, hbefore, hk, heq⟩
        · refine Or.inl ⟨?_, heq⟩
          intro k hk
          rcases List.mem_cons.mp hk with rfl | hk
          · exact hkey
          · exact hall k hk
        · refine Or.inr ⟨key :: before, k, after, by simp [hsplit], ?_, hk, heq⟩
          intro k' hk'
          rcases List.mem_cons.mp hk' with rfl | hk'
          · exact hkey
          · exact hbefore k' hk'
      · refine Or.inr ⟨[], key, keys, rfl, by simp, hkey, ?_⟩
        simp [firstBatch, hkey]

/-- `_is_expired` -/
def isExpired (now : Rat) (ttlMs : Rat) (request : InferenceRequest ν) : Bool :=
  decide (ttlMs < (now - request.receivedAt) * 1000)

/-! ## The score -/

section Score

variable [Score ν]

/-- The part of the score for `steps_remaining`. -/
def stepsTerm (weights : DeadlineAwareConfig ν) (s : ν) : Option Nat → ν
  | none => s
  | some steps =>
      if steps = 0 then s + weights.stepsWeight
      else if steps ≤ 2 then s + weights.stepsWeight * ((7 / 10 : Rat) : ν)
      else if steps ≤ 4 then s + weights.stepsWeight * ((4 / 10 : Rat) : ν)
      else s

/-- The part of the score that does not depend on the clock. -/
def signalScore (weights : DeadlineAwareConfig ν) (r : InferenceRequest ν) : ν :=
  let s := ((0 : Rat) : ν)
  -- a client that is overdue has a negative time until its next request
  let cadenceUrgency : Rat := max 0 (-r.timeUntilNext) / (1 / 10)
  let s := s + (cadenceUrgency : ν) * weights.cadenceWeight
  -- what the client reports itself
  let s := s + r.urgency * weights.urgencyWeight
  let s := stepsTerm weights s r.stepsRemaining
  -- static priority
  s + ((10 - min (r.priority : Rat) 10 : Rat) : ν) * weights.priorityWeight / ((10 : Rat) : ν)

/-- The queue age, against starvation: the time that the request has waited, in units of its budget
and at most one. -/
def ageTerm (weights : DeadlineAwareConfig ν) (now : Rat) (r : InferenceRequest ν) : ν :=
  let ageMs : Rat := (now - r.receivedAt) * 1000
  Score.min ((ageMs : ν) / r.latencyBudgetMs) ((1 : Rat) : ν) * weights.ageWeight

/-- The built-in score; the division of the age by the budget may fail. -/
def weightedScore (weights : DeadlineAwareConfig ν) (now : Rat) (r : InferenceRequest ν) :
    Except PyError ν :=
  if Score.isZero r.latencyBudgetMs then
    .error .zeroDivisionError
  else
    .ok (signalScore weights r + ageTerm weights now r)

/-- `_compute_score`: a policy, if one is in use, replaces the built-in score. -/
def scoreWith (policy : Option String) (weights : DeadlineAwareConfig ν) (m : Moment ν)
    (r : InferenceRequest ν) : Except PyError ν :=
  match policy with
  | some name => m.policy name r
  | none => weightedScore weights m.now r

end Score

/-! ## The oldest request -/

/-- `min(range(len(heap)), key=lambda j: heap[j].received_at)`: the first index of the smallest
arrival time. -/
def oldestIdx (heap : List (InferenceRequest ν)) : Nat :=
  heap.findIdx fun r => heap.all fun r' => decide (r.receivedAt ≤ r'.receivedAt)

theorem exists_oldest {heap : List (InferenceRequest ν)} (h : heap ≠ []) :
    ∃ r ∈ heap, ∀ r' ∈ heap, r.receivedAt ≤ r'.receivedAt := by
  induction heap with
  | nil => exact absurd rfl h
  | cons r rest ih =>
      by_cases hrest : rest = []
      · subst hrest
        exact ⟨r, by simp, by simp⟩
      · obtain ⟨o, ho, hmin⟩ := ih hrest
        -- the oldest so far or the new one, whichever arrived first
        rcases le_total r.receivedAt o.receivedAt with hle | hle
        · refine ⟨r, by simp, ?_⟩
          intro r' hr'
          rcases List.mem_cons.mp hr' with rfl | hr'
          · exact le_refl _
          · exact hle.trans (hmin r' hr')
        · refine ⟨o, List.mem_cons_of_mem r ho, ?_⟩
          intro r' hr'
          rcases List.mem_cons.mp hr' with rfl | hr'
          · exact hle
          · exact hmin r' hr'

theorem oldestIdx_lt {heap : List (InferenceRequest ν)} (h : heap ≠ []) :
    oldestIdx heap < heap.length := by
  obtain ⟨r, hr, hmin⟩ := exists_oldest h
  rw [oldestIdx, List.findIdx_lt_length]
  exact ⟨r, hr, by simpa using hmin⟩

theorem oldestIdx_le {heap : List (InferenceRequest ν)} (h : oldestIdx heap < heap.length) :
    ∀ r ∈ heap, (heap[oldestIdx heap]).receivedAt ≤ r.receivedAt := by
  have hspec := List.findIdx_getElem (w := h)
  simp only [List.all_eq_true, decide_eq_true_eq] at hspec
  exact hspec

/-- One visit of the loops of `_drop_oldest`: `received_at < oldest_time` replaces the time and the
key; `none` is the infinite `oldest_time` before the first visit. -/
def keepOlder (oldest : Option (Rat × String)) (c : String × InferenceRequest ν) :
    Option (Rat × String) :=
  match oldest with
  | none => some (c.2.receivedAt, c.1)
  | some o => if c.2.receivedAt < o.1 then some (c.2.receivedAt, c.1) else some o

/-- `oldest_model` (or `oldest_client`) after the loops have visited these requests. -/
def oldestKey (candidates : List (String × InferenceRequest ν)) : Option (Rat × String) :=
  candidates.foldl keepOlder none

theorem oldestKey_append (candidates : List (String × InferenceRequest ν))
    (c : String × InferenceRequest ν) :
    oldestKey (candidates ++ [c]) = keepOlder (oldestKey candidates) c := by
  simp [oldestKey, List.foldl_append]

@[simp] theorem oldestKey_eq_none {candidates : List (String × InferenceRequest ν)} :
    oldestKey candidates = none ↔ candidates = [] := by
  -- the loop visits from the front, so the induction peels off the last visit
  induction candidates using List.reverseRecOn with
  | nil => simp [oldestKey]
  | append_singleton init c _ =>
      rw [oldestKey_append]
      cases oldestKey init with
      | none => simp [keepOlder]
      | some o =>
          unfold keepOlder
          dsimp only
          split <;> simp

/-- The key found holds a request that arrived when the oldest did. -/
theorem oldestKey_eq_some {candidates : List (String × InferenceRequest ν)} {t : Rat} {k : String}
    (h : oldestKey candidates = some (t, k)) :
    (∃ r, (k, r) ∈ candidates ∧ r.receivedAt = t) ∧ ∀ c ∈ candidates, t ≤ c.2.receivedAt := by
  induction candidates using List.reverseRecOn generalizing t k with
  | nil => simp [oldestKey] at h
  | append_singleton init c ih =>
      rw [oldestKey_append] at h
      cases ho : oldestKey init with
      | none =>
          have hinit : init = [] := oldestKey_eq_none.mp ho
          simp only [ho, keepOlder, Option.some.injEq, Prod.mk.injEq] at h
          subst hinit
          refine ⟨⟨c.2, by simp [← h.2], h.1⟩, ?_⟩
          intro c' hc'
          simp at hc'
          rw [hc', h.1]
      | some o =>
          obtain ⟨t', k'⟩ := o
          obtain ⟨⟨r, hr, hrt⟩, hmin⟩ := ih ho
          simp only [ho, keepOlder] at h
          -- the last visit replaces the key only if its request is strictly older
          split at h
          · next hlt =>
              simp only [Option.some.injEq, Prod.mk.injEq] at h
              refine ⟨⟨c.2, by simp [← h.2], h.1⟩, ?_⟩
              intro c' hc'
              rcases List.mem_append.mp hc' with hc' | hc'
              · exact h.1 ▸ (hlt.le.trans (hmin c' hc'))
              · simp at hc'
                rw [hc', h.1]
          · next hlt =>
              simp only [Option.some.injEq, Prod.mk.injEq] at h
              obtain ⟨rfl, rfl⟩ := h
              refine ⟨⟨r, List.mem_append_left _ hr, hrt⟩, ?_⟩
              intro c' hc'
              rcases List.mem_append.mp hc' with hc' | hc'
              · exact hmin c' hc'
              · simp at hc'
                rw [hc']
                exact le_of_not_gt hlt

/-- The fronts of the queues that are not empty, in the order of the dictionary. -/
def fronts (queues : Dict String (List (InferenceRequest ν))) :
    List (String × InferenceRequest ν) :=
  queues.items.filterMap fun item => item.2.head?.map fun r => (item.1, r)

theorem mem_fronts {queues : Dict String (List (InferenceRequest ν))} {key : String}
    {r : InferenceRequest ν} :
    (key, r) ∈ fronts queues ↔ ∃ rest, queues.get? key = some (r :: rest) := by
  simp only [fronts, List.mem_filterMap, Option.map_eq_some_iff, Prod.mk.injEq, Dict.get?_eq_some]
  constructor
  · rintro ⟨⟨key', queue⟩, hitem, r', hhead, rfl, rfl⟩
    obtain ⟨rest, hqueue⟩ := List.head?_eq_some_iff.mp hhead
    exact ⟨rest, hqueue ▸ hitem⟩
  · rintro ⟨rest, hitem⟩
    exact ⟨(key, r :: rest), hitem, r, rfl, rfl, rfl⟩

/-- The front that arrived first, with its key and the rest of its queue. -/
def oldestFront (queues : Dict String (List (InferenceRequest ν))) :
    Option (String × InferenceRequest ν × List (InferenceRequest ν)) :=
  match oldestKey (fronts queues) with
  | none => none
  | some (_, key) =>
      match queues.listAt key with
      | [] => none
      | front :: rest => some (key, front, rest)

theorem oldestFront_listAt {queues : Dict String (List (InferenceRequest ν))} {key : String}
    {front : InferenceRequest ν} {rest : List (InferenceRequest ν)}
    (h : oldestFront queues = some (key, front, rest)) : queues.listAt key = front :: rest := by
  unfold oldestFront at h
  split at h
  · simp at h
  · split at h
    · simp at h
    · next hlist =>
        simp only [Option.some.injEq, Prod.mk.injEq] at h
        obtain ⟨rfl, rfl, rfl⟩ := h
        exact hlist

theorem oldestFront_spec {queues : Dict String (List (InferenceRequest ν))}
    (h : queues.flatten ≠ []) :
    ∃ key front rest, oldestFront queues = some (key, front, rest) ∧
      queues.listAt key = front :: rest := by
  cases hkey : oldestKey (fronts queues) with
  | none =>
      -- a request stands behind some front
      exfalso
      obtain ⟨r, hr⟩ := List.exists_mem_of_ne_nil _ h
      obtain ⟨key, hmem⟩ := Dict.mem_flatten.mp hr
      cases hget : queues.get? key with
      | none => simp [Dict.listAt, hget] at hmem
      | some queue =>
          cases queue with
          | nil => simp [Dict.listAt, hget] at hmem
          | cons front rest =>
              have hfront := mem_fronts.mpr ⟨rest, hget⟩
              simp [oldestKey_eq_none.mp hkey] at hfront
  | some o =>
      obtain ⟨t, key⟩ := o
      obtain ⟨⟨front, hfront, -⟩, -⟩ := oldestKey_eq_some hkey
      obtain ⟨rest, hget⟩ := mem_fronts.mp hfront
      have hlist : queues.listAt key = front :: rest := by simp [Dict.listAt, hget]
      exact ⟨key, front, rest, by simp [oldestFront, hkey, hlist], hlist⟩

/-- `heap[i] = heap[-1]; heap.pop()` -/
def overwritePop {α : Type} (heap : List α) (i : Nat) : List α :=
  match heap.getLast? with
  | none => heap
  | some last => (heap.set i last).dropLast

/-- Overwriting with the last element and popping takes out the element at `i`. -/
theorem overwritePop_perm {α : Type} {heap : List α} {i : Nat} (h : i < heap.length) :
    heap.Perm (heap[i] :: overwritePop heap i) := by
  have hne : heap ≠ [] := by
    intro heq
    simp [heq] at h
  obtain ⟨init, last, rfl⟩ : ∃ init last, heap = init ++ [last] :=
    ⟨heap.dropLast, heap.getLast hne, (List.dropLast_append_getLast hne).symm⟩
  -- overwriting the last element with itself is no change
  by_cases hi : i = init.length
  · subst hi
    simp [overwritePop]
  · have hlt : i < init.length := by
      simp at h
      omega
    have hset : overwritePop (init ++ [last]) i = init.set i last := by
      simp [overwritePop, hlt]
    rw [hset, List.getElem_append_left hlt]
    have hswap : (init[i] :: init.set i last).Perm (last :: init) := by
      calc
        (init[i] :: init.set i last).Perm (init[i] :: last :: init.eraseIdx i) :=
          (List.set_perm_cons_eraseIdx hlt last).cons _
        List.Perm _ (last :: init[i] :: init.eraseIdx i) := List.Perm.swap _ _ _
        List.Perm _ (last :: init) := (List.getElem_cons_eraseIdx_perm hlt).cons _
    exact (List.perm_append_singleton last init).trans hswap.symm

end Inferential
