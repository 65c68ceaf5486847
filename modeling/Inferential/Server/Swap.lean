import Inferential.Machine.Guarded
import Inferential.Server.Attempts
import Inferential.Server.Fates

/-!
# Swap — the requests that a scheduler holds when it is replaced

`use_scheduler` builds a new scheduler and drops the old one.  The loops go on with the new one, and
requests in flight are queued in it again, but nothing hands over the requests that were queued.
-/

namespace Inferential

open PyStd

variable {ν : Type} [Score ν]

/-! ## Where a request is -/

inductive Whereabouts
  | queued
  | inFlight
  | departed (fate : Fate)
  deriving DecidableEq, Repr

/-- The server, with all departures so far. -/
structure Books (ν : Type) [Score ν] where
  server : Server ν
  departed : List (Nat × Fate) := []

namespace Books

/-- All places of a request. -/
def whereabouts (objId : Nat) (b : Books ν) : List Whereabouts :=
  (((stored b.server.scheduler).filter fun r => r.objId = objId).map fun _ => .queued) ++
    ((b.server.inFlight.filter fun r => r.objId = objId).map fun _ => .inFlight) ++
    ((b.departed.filter fun d => d.1 = objId).map fun d => .departed d.2)

/-- Every accepted request is in exactly one place, and has left in one way if it has left. -/
def Placed (b : Books ν) : Prop :=
  ∀ objId ∈ b.server.requestIds, (b.whereabouts objId).length = 1

def step (config : InferentialConfig ν) (pb : Protobuf ν) (b : Books ν)
    (a : Server.Action ν) : Books ν where
  server := Server.step config pb b.server a
  departed := b.departed ++ Server.departures config pb b.server a

theorem length_whereabouts (objId : Nat) (b : Books ν) :
    (b.whereabouts objId).length =
      (b.server.whole + Server.gone b.departed).count objId := by
  have hids : ∀ rs : List (InferenceRequest ν),
      (rs.filter fun r => r.objId = objId).length = (ids rs).count objId := by
    intro rs
    simp [ids, ← List.countP_eq_length_filter, List.count, List.countP_map, Function.comp_def,
      beq_eq_decide]
  have hgone : (b.departed.filter fun d => d.1 = objId).length =
      (Server.gone b.departed).count objId := by
    simp [Server.gone, ← List.countP_eq_length_filter, List.count, List.countP_map,
      Function.comp_def, beq_eq_decide]
  simp only [whereabouts, List.length_append, List.length_map, hids, hgone, Server.whole,
    Multiset.count_add]

end Books

namespace Server

/-! ## What a swap may lose -/

/-- A call that returns normally leaves every queued request queued once. -/
def SwapKeeps (config : InferentialConfig ν) (s : Server ν) : Action ν → Prop
  | .useScheduler registered strategy policy weights =>
      (s.useScheduler config registered strategy policy weights).1 = .ok () →
        ∀ r ∈ stored s.scheduler,
          ((stored (s.useScheduler config registered strategy policy weights).2.scheduler).filter
            fun r' => r'.objId = r.objId).length = 1
  | _ => True

/-- A call that replaces the scheduler finds an empty queue. -/
def EmptySwap (config : InferentialConfig ν) (s : Server ν) : Action ν → Prop
  | .useScheduler _ strategy _ weights =>
      (∃ q, createScheduler (swapConfig config.scheduling strategy weights) = .ok q) →
        stored s.scheduler = []
  | _ => True

/-- A new scheduler holds nothing. -/
theorem useScheduler_stored {config : InferentialConfig ν} (registered : String → Bool)
    {strategy : String} (policy : Option String) {weights : Option (DeadlineAwareConfig ν)}
    {q : AnyScheduler ν}
    (hcreate : createScheduler (swapConfig config.scheduling strategy weights) = .ok q)
    (s : Server ν) :
    stored (s.useScheduler config registered strategy policy weights).2.scheduler = [] := by
  rcases AnyScheduler.createScheduler_fresh hcreate with ⟨hfresh, hempty⟩
  simp only [useScheduler, hcreate]
  split
  · exact hempty
  · split
    · exact hempty
    · next replaced hpolicy => exact (AnyScheduler.usePolicy_spec hpolicy hfresh).2.1.trans hempty

theorem useScheduler_refused {config : InferentialConfig ν} (registered : String → Bool)
    {strategy : String} (policy : Option String) {weights : Option (DeadlineAwareConfig ν)}
    {e : PyError}
    (hcreate : createScheduler (swapConfig config.scheduling strategy weights) = .error e)
    (s : Server ν) : s.useScheduler config registered strategy policy weights = (.error e, s) := by
  simp only [useScheduler, hcreate]

theorem useScheduler_inFlight (config : InferentialConfig ν) (registered : String → Bool)
    (strategy : String) (policy : Option String) (weights : Option (DeadlineAwareConfig ν))
    (s : Server ν) :
    (s.useScheduler config registered strategy policy weights).2.inFlight = s.inFlight := by
  rcases useScheduler_frame config registered strategy policy weights s with ⟨_, hframe⟩
  rw [hframe]
  rfl

/-- A swap that finds an empty queue, or is refused, loses nothing. -/
theorem EmptySwap.conserves {config : InferentialConfig ν} {pb : Protobuf ν} {s : Server ν}
    {a : Action ν} (h : EmptySwap config s a) (hswap : a.IsSwap) :
    Conserves s (admitted pb s a) (departures config pb s a) (step config pb s a) := by
  cases a with
  | useScheduler registered strategy policy weights =>
      apply Conserves.still
      · simp only [step, useScheduler_inFlight]
      · simp only [step]
        cases hcreate : createScheduler (swapConfig config.scheduling strategy weights) with
        | error e => rw [useScheduler_refused registered policy hcreate]
        | ok q => rw [useScheduler_stored registered policy hcreate, h ⟨q, hcreate⟩]
  | _ => exact absurd hswap id

/-- What finds an empty queue keeps it. -/
theorem EmptySwap.keeps {config : InferentialConfig ν} {s : Server ν} {a : Action ν}
    (h : EmptySwap config s a) : SwapKeeps config s a := by
  cases a with
  | useScheduler registered strategy policy weights =>
      intro hreturned r hr
      cases hcreate : createScheduler (swapConfig config.scheduling strategy weights) with
      | error e =>
          rw [useScheduler_refused registered policy hcreate] at hreturned
          cases hreturned
      | ok q =>
          have hnone := h ⟨q, hcreate⟩
          simp [hnone] at hr
  | _ => trivial

end Server

/-! ## Runs with empty swaps -/

/-- Every id that was given out is accounted for. -/
structure Kept (config : InferentialConfig ν) (b : Books ν) : Prop where
  delivering : Server.Delivering config b.server
  numbered : b.server.requestIds = List.range b.server.nextObj
  conserved : (b.server.requestIds : Multiset Nat) = b.server.whole + Server.gone b.departed

namespace Kept

variable {config : InferentialConfig ν} {pb : Protobuf ν} {b : Books ν}
  {a : Server.Action ν}

theorem init {s₀ : Server ν} (hinit : Server.init config = .ok s₀) :
    Kept config { server := s₀ } := by
  refine ⟨Server.init_delivering hinit, ?_, ?_⟩ <;>
  · unfold Server.init at hinit
    split at hinit
    · cases hinit
    · next q hcreate =>
        cases hinit
        have hempty : stored q = [] := (AnyScheduler.createScheduler_fresh hcreate).2
        simp [Server.requestIds, Server.whole, Server.inFlight, Server.flights, LegacyLoop.flights,
          hempty]

theorem placed (h : Kept config b) : b.Placed := by
  intro objId hid
  have hnodup : b.server.requestIds.Nodup := by
    rw [h.numbered]
    exact List.nodup_range
  rw [Books.length_whereabouts, ← h.conserved, Multiset.coe_count]
  exact List.count_eq_one_of_mem hnodup hid

/-- A step keeps the books if it conserves the requests. -/
theorem step (h : Kept config b) (hanswered : Server.WellAnswered b.server a)
    (hconserves : Server.Conserves b.server (Server.admitted pb b.server a)
      (Server.departures config pb b.server a) (Server.step config pb b.server a)) :
    Kept config (b.step config pb a) where
  delivering := h.delivering.step hanswered
  numbered := by
    rcases Server.step_requestIds config pb b.server a with ⟨hids, hnext⟩
    rcases Server.admitted_cases pb b.server a with hnone | hone
    · simp only [Books.step, hids, hnext, hnone, List.append_nil, List.length_nil, add_zero,
        h.numbered]
    · simp only [Books.step, hids, hnext, hone, List.length_singleton, h.numbered,
        List.range_succ]
  conserved := by
    have hids := (Server.step_requestIds config pb b.server a).1
    calc
      ((b.step config pb a).server.requestIds : Multiset Nat)
          = b.server.requestIds + (Server.admitted pb b.server a : Multiset Nat) := by
        simp only [Books.step, hids, Multiset.coe_add]
      _ = b.server.whole + (Server.admitted pb b.server a : Multiset Nat) +
            Server.gone b.departed := by
        rw [h.conserved, add_right_comm]
      _ = Server.gone (Server.departures config pb b.server a) +
            (Server.step config pb b.server a).whole + Server.gone b.departed := by
        rw [hconserves]
      _ = (b.step config pb a).server.whole + Server.gone (b.step config pb a).departed := by
        simp only [Books.step, Server.gone_append]
        abel

theorem conserves (h : Kept config b) (hanswered : Server.WellAnswered b.server a)
    (hempty : Server.EmptySwap config b.server a) :
    Server.Conserves b.server (Server.admitted pb b.server a)
      (Server.departures config pb b.server a) (Server.step config pb b.server a) := by
  by_cases hswap : a.IsSwap
  · exact hempty.conserves hswap
  · exact Server.step_conserves config pb h.delivering hanswered hswap

/-- A swap with requests in the queue leaves them nowhere. -/
theorem lostBySwap (h : Kept config b) (hlossy : ¬ Server.EmptySwap config b.server a) :
    ¬ (b.step config pb a).Placed := by
  intro hplaced
  cases a with
  | useScheduler registered strategy policy weights =>
      simp only [Server.EmptySwap, Classical.not_imp] at hlossy
      rcases hlossy with ⟨⟨q, hcreate⟩, hqueued⟩
      rcases List.exists_mem_of_ne_nil _ hqueued with ⟨r, hr⟩
      have hin : r.objId ∈ ids (stored b.server.scheduler) :=
        Multiset.mem_coe.mpr (List.mem_map_of_mem hr)
      have hnodup : b.server.requestIds.Nodup := by
        rw [h.numbered]
        exact List.nodup_range
      -- the request was queued, and so it was neither in flight nor gone
      have hcount : (ids b.server.inFlight + Server.gone b.departed).count r.objId = 0 := by
        have honce : (b.server.requestIds : Multiset Nat).count r.objId ≤ 1 :=
          Multiset.nodup_iff_count_le_one.mp (Multiset.coe_nodup.mpr hnodup) r.objId
        have hpos := Multiset.one_le_count_iff_mem.mpr hin
        rw [h.conserved, Server.whole, add_assoc, Multiset.count_add] at honce
        omega
      have haccepted : r.objId ∈ b.server.requestIds := by
        apply Multiset.mem_coe.mp
        rw [h.conserved, Server.whole]
        simp [hin]
      -- the swap keeps what was in flight, and adds no departure
      have hids : (b.step config pb
          (.useScheduler registered strategy policy weights)).server.requestIds =
            b.server.requestIds := by
        simp only [Books.step, (Server.step_requestIds config pb b.server _).1, Server.admitted,
          List.append_nil]
      have hafter : (b.step config pb
          (.useScheduler registered strategy policy weights)).server.whole +
            Server.gone (b.step config pb
              (.useScheduler registered strategy policy weights)).departed =
          ids b.server.inFlight + Server.gone b.departed := by
        simp only [Books.step, Server.step, Server.departures, List.append_nil, Server.whole,
          Server.useScheduler_inFlight, Server.useScheduler_stored registered policy hcreate,
          ids_nil, zero_add]
      have hone := hplaced r.objId (hids ▸ haccepted)
      rw [Books.length_whereabouts, hafter, hcount] at hone
      cases hone
  | _ => exact hlossy trivial

end Kept

namespace Server

/-- While the dispatcher answers what it is asked, empty swaps keep the books. -/
theorem emptySwap_guards (config : InferentialConfig ν) (pb : Protobuf ν) :
    Machine.Guards (Books.step config pb) (Kept config)
      (fun b a => WellAnswered b.server a ∧ EmptySwap config b.server a)
      fun b a => (WellAnswered b.server a ∧ SwapKeeps config b.server a) ∧
        (b.step config pb a).Placed where
  keeps h hguard := h.step hguard.1 (h.conserves hguard.1 hguard.2)
  holds h hguard :=
    ⟨⟨hguard.1, hguard.2.keeps⟩, (h.step hguard.1 (h.conserves hguard.1 hguard.2)).placed⟩
  needs := by
    rintro b a h ⟨⟨hanswered, -⟩, hplaced⟩
    refine ⟨hanswered, ?_⟩
    by_contra hlossy
    exact h.lostBySwap hlossy hplaced

/-- Along a run every accepted request is in one place, and every swap keeps the queue, exactly when
every call that replaces the scheduler finds an empty queue. -/
theorem swaps_keep_iff (config : InferentialConfig ν) (pb : Protobuf ν) (s₀ : Server ν)
    (actions : List (Action ν)) (hinit : init config = .ok s₀)
    (hanswered : Machine.Along (step config pb) WellAnswered s₀ actions) :
    Machine.Throughout (Books.step config pb) Books.Placed { server := s₀ } actions ∧
        Machine.Along (step config pb) (SwapKeeps config) s₀ actions ↔
      Machine.Along (step config pb) (EmptySwap config) s₀ actions := by
  have hkept : Kept config { server := s₀ } := Kept.init hinit
  have hbooks : ∀ p : Server ν → Action ν → Prop,
      Machine.Along (Books.step config pb) (fun b a => p b.server a) { server := s₀ } actions ↔
        Machine.Along (step config pb) p s₀ actions :=
    fun p => Machine.along_map fun _ _ => rfl
  have hguards : Machine.Along (Books.step config pb) (fun b a =>
      (WellAnswered b.server a ∧ SwapKeeps config b.server a) ∧ (b.step config pb a).Placed)
      { server := s₀ } actions ↔ Machine.Along (Books.step config pb) (fun b a =>
      WellAnswered b.server a ∧ EmptySwap config b.server a) { server := s₀ } actions :=
    (emptySwap_guards config pb).along_iff hkept
  rw [Machine.along_and, Machine.along_and, hbooks, hbooks, Machine.along_and, hbooks, hbooks]
    at hguards
  rw [Machine.throughout_iff]
  constructor
  · rintro ⟨⟨-, hplaced⟩, hkeeps⟩
    exact (hguards.mp ⟨⟨hanswered, hkeeps⟩, hplaced⟩).2
  · intro hempty
    rcases hguards.mpr ⟨hanswered, hempty⟩ with ⟨⟨-, hkeeps⟩, hplaced⟩
    exact ⟨⟨hkept.placed, hplaced⟩, hkeeps⟩

/-! ### A swap with and without requests in the queue -/

/-- The call of the documentation. -/
def swapToRoundRobin : Action Rat := .useScheduler (fun _ => false) "round_robin" none none

/-- The request is in flight when the scheduler is swapped. -/
theorem swapped_in_flight :
    let actions := [arriveAt 0 0, .legacyTop 0 (fun _ => 0) 0, swapToRoundRobin]
    Machine.Throughout (Books.step plainConfig plainMessages) Books.Placed
        { server := plainServer } actions ∧
      Machine.Along (step plainConfig plainMessages) (SwapKeeps plainConfig) plainServer actions :=
  (swaps_keep_iff plainConfig plainMessages plainServer
    [arriveAt 0 0, .legacyTop 0 (fun _ => 0) 0, swapToRoundRobin] rfl
    ⟨trivial, trivial, trivial, trivial⟩).mpr ⟨trivial, trivial, fun _ => rfl, trivial⟩

/-- The request is queued when the scheduler is swapped: it is accepted, and nowhere. -/
theorem swapped_in_queue :
    let actions := [arriveAt 0 0, swapToRoundRobin]
    let s := run plainConfig plainMessages plainServer [arriveAt 0 0]
    let b : Books Rat :=
      actions.foldl (Books.step plainConfig plainMessages) { server := plainServer }
    init plainConfig = .ok plainServer ∧
      (s.useScheduler plainConfig (fun _ => false) "round_robin" none none).1 = .ok () ∧
      (stored s.scheduler).map InferenceRequest.objId = [0] ∧
      b.server.requestIds = [0] ∧ b.whereabouts 0 = [] ∧
      ¬ (Machine.Throughout (Books.step plainConfig plainMessages) Books.Placed
          { server := plainServer } actions ∧
        Machine.Along (step plainConfig plainMessages) (SwapKeeps plainConfig) plainServer
          actions) := by
  intro actions s b
  have haccepted : b.server.requestIds = [0] := by decide +kernel
  have hnowhere : b.whereabouts 0 = [] := by decide +kernel
  refine ⟨rfl, rfl, by decide +kernel, haccepted, hnowhere, ?_⟩
  rintro ⟨⟨-, -, hplaced⟩, -⟩
  have hone := hplaced 0 (by
    show 0 ∈ b.server.requestIds
    simp [haccepted])
  have hnone : (b.whereabouts 0).length = 1 := hone
  simp [hnowhere] at hnone

end Server
end Inferential
