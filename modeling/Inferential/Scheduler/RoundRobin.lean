import Inferential.Scheduler.Accounting

/-!
# RoundRobin — one FIFO queue per client, served in turn

The queues sit in an ordered dictionary.  `next_batch` takes clients from its front and puts them
back at its end, whether they had a request or not.
-/

namespace Inferential

open PyStd

variable {ν : Type} [Score ν]

structure RoundRobinScheduler (ν : Type) [Score ν] where
  config : SchedulingConfig ν
  queues : Dict String (List (InferenceRequest ν)) := Dict.empty
  total : Int := 0

namespace RoundRobinScheduler

/-! ## The operations -/

/-- `__init__` -/
def init (config : SchedulingConfig ν) : RoundRobinScheduler ν := { config := config }

def resubmit (request : InferenceRequest ν) (s : RoundRobinScheduler ν) :
    Submitted (RoundRobinScheduler ν) ν :=
  let clientId := request.clientId
  { state := { s with
      queues := s.queues.set clientId (s.queues.listAt clientId ++ [request])
      total := s.total + 1 } }

/-- `_drop_oldest`: only the fronts of the queues are compared. -/
def dropOldest (s : RoundRobinScheduler ν) :
    Option (InferenceRequest ν) × RoundRobinScheduler ν :=
  match oldestFront s.queues with
  | none => (none, s)
  | some (oldestClient, dropped, rest) =>
      (some dropped, { s with queues := s.queues.set oldestClient rest, total := s.total - 1 })

def submit (request : InferenceRequest ν) (s : RoundRobinScheduler ν) :
    Submitted (RoundRobinScheduler ν) ν :=
  if s.config.maxQueueSize ≤ s.total then
    match s.config.overflowPolicy with
    | .dropOldest =>
        let (dropped, s') := s.dropOldest
        { s'.resubmit request with dropped := dropped }
    | .rejectNewest => { state := s, raised := some (.queueFullError request.clientId) }
  else
    s.resubmit request

/-- The loop of `next_batch`: the client at the front goes to the end, and the first request found
is taken. -/
def rotate : Nat → Dict String (List (InferenceRequest ν)) →
    Option (InferenceRequest ν) × Dict String (List (InferenceRequest ν))
  | 0, queues => (none, queues)
  | n + 1, queues =>
      match queues.popFirst with
      | none => (none, queues)
      -- an empty queue is put back and skipped
      | some ((clientId, []), rest) => rotate n (rest.set clientId [])
      | some ((clientId, request :: queue), rest) => (some request, rest.set clientId queue)

def nextBatch (s : RoundRobinScheduler ν) : List (InferenceRequest ν) × RoundRobinScheduler ν :=
  if s.total = 0 then
    ([], s)
  else
    match rotate s.queues.size s.queues with
    | (none, queues) => ([], { s with queues := queues })
    | (some request, queues) => ([request], { s with queues := queues, total := s.total - 1 })

def tick (clock : InferenceRequest ν → Rat) (s : RoundRobinScheduler ν) :
    Nat × RoundRobinScheduler ν :=
  let keep r := !isExpired (clock r) s.config.requestTtlMs r
  let expired := (s.queues.values.map fun queue => queue.length - (queue.filter keep).length).sum
  (expired, { s with
    queues := s.queues.mapValues fun queue => queue.filter keep
    total := s.total - expired })

def onClientConnected (clientId : String) (s : RoundRobinScheduler ν) : RoundRobinScheduler ν :=
  if s.queues.contains clientId then s else { s with queues := s.queues.set clientId [] }

def onClientDisconnected (clientId : String) (s : RoundRobinScheduler ν) : RoundRobinScheduler ν :=
  if s.queues.contains clientId then
    { s with
      queues := s.queues.erase clientId
      total := s.total - (s.queues.listAt clientId).length }
  else
    s

instance : Scheduler (RoundRobinScheduler ν) ν where
  submit _ := submit
  resubmit _ := resubmit
  nextBatch _ := nextBatch
  tick := tick
  onClientConnected := onClientConnected
  onClientDisconnected := onClientDisconnected
  queueLen s := s.total

/-! ## The rotation -/

omit [Score ν] in
/-- Putting the popped client back moves its item to the end. -/
theorem popFirst_set {queues rest : Dict String (List (InferenceRequest ν))} {clientId : String}
    {queue : List (InferenceRequest ν)} (h : queues.popFirst = some ((clientId, queue), rest))
    (queue' : List (InferenceRequest ν)) :
    queues.items = (clientId, queue) :: rest.items ∧
      (rest.set clientId queue').items = rest.items ++ [(clientId, queue')] := by
  obtain ⟨hitems, hkey⟩ := Dict.popFirst_some h
  exact ⟨hitems, Dict.set_items_new (Dict.get?_eq_none.mpr hkey) queue'⟩

omit [Score ν] in
/-- A rotation finds the first client with a request; the clients it passes over have none. -/
theorem rotate_split {n : Nat} {queues queues' : Dict String (List (InferenceRequest ν))}
    {request : InferenceRequest ν} (h : rotate n queues = (some request, queues')) :
    ∃ before clientId queue after, queues.items = before ++ (clientId, request :: queue) :: after ∧
      (∀ item ∈ before, item.2 = []) ∧ queues'.items = after ++ before ++ [(clientId, queue)] := by
  induction n generalizing queues with
  | zero => simp [rotate] at h
  | succ n ih =>
      unfold rotate at h
      split at h
      · simp at h
      · next clientId rest hpop =>
          -- the empty queue is now the last one, behind the one that is found
          rcases popFirst_set hpop [] with ⟨hitems, hset⟩
          rcases ih h with ⟨before, clientId', queue, after, hsplit, hbefore, hitems'⟩
          rw [hset] at hsplit
          rcases List.eq_nil_or_concat after with rfl | ⟨after', last, rfl⟩
          · have hlast : (clientId, []) = (clientId', request :: queue) := by
              have hends := congrArg List.getLast? hsplit
              rw [List.getLast?_concat, List.getLast?_concat, Option.some.injEq] at hends
              exact hends
            simp at hlast
          · have hends : rest.items ++ [(clientId, [])] =
                (before ++ (clientId', request :: queue) :: after') ++ [last] := by
              simpa using hsplit
            rcases List.append_inj' hends rfl with ⟨hrest, hlast⟩
            rw [List.cons.injEq] at hlast
            refine ⟨(clientId, []) :: before, clientId', queue, after', ?_, ?_, ?_⟩
            · rw [hitems, hrest]
              rfl
            · intro item hitem
              rcases List.mem_cons.mp hitem with rfl | hmem
              · rfl
              · exact hbefore item hmem
            · rw [hitems', ← hlast.1]
              simp
      · next clientId r queue rest hpop =>
          rcases popFirst_set hpop queue with ⟨hitems, hset⟩
          simp only [Prod.mk.injEq, Option.some.injEq] at h
          rcases h with ⟨rfl, rfl⟩
          exact ⟨[], clientId, queue, rest.items, hitems, by simp, by simpa using hset⟩

omit [Score ν] in
/-- A rotation that finds a request takes it out of one queue. -/
theorem rotate_some {n : Nat} {queues queues' : Dict String (List (InferenceRequest ν))}
    {request : InferenceRequest ν} (h : rotate n queues = (some request, queues')) :
    ∃ clientId queue others, queues.items.Perm ((clientId, request :: queue) :: others) ∧
      queues'.items.Perm ((clientId, queue) :: others) := by
  rcases rotate_split h with ⟨before, clientId, queue, after, hitems, -, hitems'⟩
  refine ⟨clientId, queue, before ++ after, ?_, ?_⟩
  · rw [hitems]
    exact List.perm_middle
  · calc
      queues'.items = after ++ before ++ [(clientId, queue)] := hitems'
      List.Perm _ ((clientId, queue) :: (after ++ before)) := List.perm_append_singleton _ _
      List.Perm _ ((clientId, queue) :: (before ++ after)) := List.perm_append_comm.cons _

omit [Score ν] in
/-- A rotation that finds nothing has only met empty queues. -/
theorem rotate_none {n : Nat} {queues queues' : Dict String (List (InferenceRequest ν))}
    (hn : n ≤ queues.items.length) (h : rotate n queues = (none, queues')) :
    (∀ item ∈ queues.items.take n, item.2 = []) ∧ queues'.items.Perm queues.items := by
  induction n generalizing queues with
  | zero =>
      simp only [rotate, Prod.mk.injEq, true_and] at h
      simp [h]
  | succ n ih =>
      unfold rotate at h
      split at h
      · next hpop =>
          have hitems := Dict.popFirst_eq_none.mp hpop
          simp [hitems] at hn
      · next clientId rest hpop =>
          obtain ⟨hitems, hset⟩ := popFirst_set hpop []
          -- the client that was put back is behind the ones still to be visited
          have hlength : n ≤ rest.items.length := by simpa [hitems] using hn
          have hn' : n ≤ (rest.set clientId []).items.length := by simp [hset]; omega
          obtain ⟨hempty, hperm⟩ := ih hn' h
          rw [hset, List.take_append_of_le_length hlength] at hempty
          rw [hset] at hperm
          rw [hitems]
          refine ⟨?_, hperm.trans (List.perm_append_singleton _ _)⟩
          intro item hitem
          rcases List.mem_cons.mp hitem with rfl | hitem
          · rfl
          · exact hempty item hitem
      · simp at h

/-! ## Accounting -/

/-- All queued requests. -/
def stored (s : RoundRobinScheduler ν) : List (InferenceRequest ν) := s.queues.flatten

structure Inv (s : RoundRobinScheduler ν) : Prop where
  total : TotalExact s.total s.stored
  own : s.queues.Owned InferenceRequest.clientId

theorem init_inv (config : SchedulingConfig ν) : Inv (init config) where
  total := rfl
  own := by simp [init, Dict.empty, Dict.Owned]

theorem resubmit_spec (r : InferenceRequest ν) {s : RoundRobinScheduler ν} (hinv : Inv s) :
    Inv (s.resubmit r).state ∧ (s.resubmit r).state.stored.Perm (r :: s.stored) := by
  have hperm : (s.resubmit r).state.stored.Perm (r :: s.stored) :=
    Dict.flatten_set_cons (List.perm_append_singleton r _)
  refine ⟨⟨hinv.total.add hperm, hinv.own.set ?_⟩, hperm⟩
  intro r' hr'
  rcases List.mem_append.mp hr' with hold | hnew
  · exact hinv.own.listAt hold
  · rw [List.mem_singleton.mp hnew]

theorem dropOldest_spec {s : RoundRobinScheduler ν} (hinv : Inv s) (hne : s.stored ≠ []) :
    ∃ oldest s', s.dropOldest = (some oldest, s') ∧ Inv s' ∧ s'.config = s.config ∧
      s.stored.Perm (oldest :: s'.stored) := by
  obtain ⟨clientId, front, rest, heq, hlist⟩ := oldestFront_spec hne
  -- the front of one queue leaves, whichever queue it is
  have hperm : s.stored.Perm (front :: (s.queues.set clientId rest).flatten) :=
    Dict.flatten_set_drop (by rw [hlist])
  refine ⟨front, { s with queues := s.queues.set clientId rest, total := s.total - 1 }, ?_,
    ⟨hinv.total.remove hperm, hinv.own.set ?_⟩, rfl, hperm⟩
  · simp [dropOldest, heq]
  · intro r hr
    exact hinv.own.listAt (by simp [hlist, hr])

theorem nextBatch_cases {s : RoundRobinScheduler ν} (hinv : Inv s) :
    (s.stored = [] ∧ s.nextBatch = ([], s)) ∨
    ∃ request s', s.nextBatch = ([request], s') ∧ Inv s' ∧ s'.config = s.config ∧
      s.stored.Perm (request :: s'.stored) := by
  have htotal : s.total = (s.stored.length : Int) := hinv.total
  unfold nextBatch
  by_cases hzero : s.total = 0
  · refine Or.inl ⟨?_, if_pos hzero⟩
    rw [hzero] at htotal
    exact List.length_eq_zero_iff.mp (Int.ofNat_eq_zero.mp htotal.symm)
  · rw [if_neg hzero]
    split
    · next queues hrotate =>
        -- the loop visits every client, so it would have found a request
        exfalso
        obtain ⟨hempty, -⟩ := rotate_none (Nat.le_refl _) hrotate
        rw [List.take_of_length_le (Nat.le_refl _)] at hempty
        have hnil : s.stored = [] := by
          rw [stored, Dict.flatten, Dict.values, List.flatten_eq_nil_iff]
          intro queue hqueue
          obtain ⟨item, hitem, rfl⟩ := List.mem_map.mp hqueue
          exact hempty item hitem
        simp [hnil] at htotal
        exact hzero htotal
    · next request queues hrotate =>
        obtain ⟨clientId, queue, others, hperm, hperm'⟩ := rotate_some hrotate
        have hstored : s.stored.Perm (request :: queues.flatten) := by
          calc
            s.stored.Perm (((clientId, request :: queue) :: others).map Prod.snd).flatten :=
              (hperm.map Prod.snd).flatten
            List.Perm _ (request :: queues.flatten) :=
              ((hperm'.map Prod.snd).flatten.symm.cons request)
        refine Or.inr ⟨request, { s with queues := queues, total := s.total - 1 }, rfl,
          ⟨hinv.total.remove hstored, ?_⟩, rfl, hstored⟩
        intro item hitem r hr
        rcases List.mem_cons.mp (hperm'.mem_iff.mp hitem) with rfl | hother
        · exact hinv.own (clientId, request :: queue) (hperm.mem_iff.mpr List.mem_cons_self) r
            (List.mem_cons_of_mem request hr)
        · exact hinv.own item (hperm.mem_iff.mpr (List.mem_cons_of_mem _ hother)) r hr

theorem tick_spec (clock : InferenceRequest ν → Rat) {s : RoundRobinScheduler ν} (hinv : Inv s) :
    Inv (s.tick clock).2 ∧ (s.tick clock).2.stored.Perm
        (s.stored.filter fun r => !isExpired (clock r) s.config.requestTtlMs r) ∧
      (s.tick clock).1 =
        (s.stored.filter fun r => isExpired (clock r) s.config.requestTtlMs r).length := by
  have hcount := Dict.sum_removed (fun r => !isExpired (clock r) s.config.requestTtlMs r) s.queues
  have hperm : (s.tick clock).2.stored.Perm
      (s.stored.filter fun r => !isExpired (clock r) s.config.requestTtlMs r) := by
    simp only [tick, stored, Dict.flatten_mapValues_filter]
    exact List.Perm.refl _
  exact ⟨⟨hinv.total.sweep hperm hcount, hinv.own.filter _⟩, hperm,
    by simpa [tick, stored] using hcount⟩

theorem onClientConnected_spec (clientId : String) {s : RoundRobinScheduler ν} (hinv : Inv s) :
    Inv (s.onClientConnected clientId) ∧ (s.onClientConnected clientId).config = s.config ∧
      (s.onClientConnected clientId).stored.Perm s.stored := by
  unfold onClientConnected
  split
  · exact ⟨hinv, rfl, List.Perm.refl _⟩
  · next hnew =>
      have hnone : s.queues.get? clientId = none := by simpa [Dict.contains] using hnew
      -- an empty queue is appended
      have hstored : ({ s with queues := s.queues.set clientId [] } :
          RoundRobinScheduler ν).stored = s.stored := by
        simp [stored, Dict.flatten, Dict.values, Dict.set_items_new hnone]
      refine ⟨⟨?_, hinv.own.set (by simp)⟩, rfl, by rw [hstored]⟩
      rw [hstored]
      exact hinv.total

theorem onClientDisconnected_spec (clientId : String) {s : RoundRobinScheduler ν} (hinv : Inv s) :
    Inv (s.onClientDisconnected clientId) ∧
      (s.onClientDisconnected clientId).config = s.config ∧
      (s.onClientDisconnected clientId).stored.Perm
        (s.stored.filter fun r => r.clientId ≠ clientId) := by
  have herase : (s.queues.erase clientId).flatten = s.stored.filter fun r => r.clientId ≠ clientId :=
    hinv.own.flatten_erase clientId
  -- the client's queue is what the dictionary loses
  have hsplit := (Dict.flatten_erase_perm s.queues clientId).length_eq
  rw [List.length_append] at hsplit
  have htotal : s.total = (s.queues.flatten.length : Int) := hinv.total
  unfold onClientDisconnected
  split
  · refine ⟨⟨?_, hinv.own.erase clientId⟩, rfl, by rw [← herase]; exact List.Perm.refl _⟩
    simp only [TotalExact, stored]
    omega
  · next hnew =>
      have hnone : s.queues.get? clientId = none := by simpa [Dict.contains] using hnew
      refine ⟨hinv, rfl, ?_⟩
      rw [← herase]
      simpa [Dict.listAt, hnone, stored] using (Dict.flatten_erase_perm s.queues clientId).symm

instance : AccountedScheduler (RoundRobinScheduler ν) ν where
  config := config
  stored := stored
  leaves _ clientId r := r.clientId = clientId
  Inv := Inv
  queueLen_eq hinv := hinv.total
  submit_room m r s hroom := if_neg (not_le.mpr hroom)
  submit_reject m r s hfull hpolicy := by
    have hfull' : (s.config.maxQueueSize : Int) ≤ s.total := hfull
    simp [Scheduler.submit, submit, hfull', hpolicy]
  submit_evict m r s hinv hfull hpolicy := by
    have hfull' : (s.config.maxQueueSize : Int) ≤ s.total := hfull
    have hne : s.stored ≠ [] := hinv.total.ne_nil s.config.maxQueueSize_ge hfull'
    obtain ⟨oldest, s', heq, hinv', hconfig, hperm⟩ := dropOldest_spec hinv hne
    refine ⟨oldest, s', hinv', hconfig, hperm, ?_⟩
    simp [Scheduler.submit, Scheduler.resubmit, submit, hfull', hpolicy, heq]
  resubmit_spec m r s hinv := by
    obtain ⟨hinv', hperm⟩ := resubmit_spec r hinv
    exact ⟨hinv', rfl, rfl, fun _ => ⟨r, rfl, hperm⟩, fun hraised => absurd rfl hraised⟩
  nextBatch_spec now s hinv := by
    rcases nextBatch_cases hinv with ⟨hnil, heq⟩ | ⟨request, s', heq, hinv', hconfig, hperm⟩
    · simpa [Scheduler.nextBatch, heq] using hinv
    · simpa [Scheduler.nextBatch, heq] using ⟨hinv', hconfig, hperm⟩
  tick_spec clock s hinv := by
    obtain ⟨hinv', hperm, hcount⟩ := tick_spec clock hinv
    exact ⟨hinv', rfl, hperm, hcount⟩
  connected_spec clientId s hinv := onClientConnected_spec clientId hinv
  disconnected_spec clientId s hinv := by
    simpa [Scheduler.onClientDisconnected] using onClientDisconnected_spec clientId hinv

/-- Only empty queues give an empty batch. -/
theorem nextBatch_eq_nil {s : RoundRobinScheduler ν} (hinv : Inv s) :
    s.nextBatch.1 = [] ↔ s.stored = [] := by
  rcases nextBatch_cases hinv with ⟨hnil, heq⟩ | ⟨request, s', heq, -, -, hperm⟩
  · simp [heq, hnil]
  · have hne : s.stored ≠ [] := by
      intro hnil
      simp [hnil] at hperm
    simp [heq, hne]

/-- One client is served its first request, or nobody is. -/
theorem nextBatch_served (s : RoundRobinScheduler ν) :
    (s.nextBatch.1 = [] ∧
      ∀ clientId, s.nextBatch.2.queues.listAt clientId = s.queues.listAt clientId) ∨
    ∃ request clientId queue, s.nextBatch.1 = [request] ∧
      s.queues.listAt clientId = request :: queue ∧
      s.nextBatch.2.queues.listAt clientId = queue ∧
      ∀ clientId', clientId' ≠ clientId →
        s.nextBatch.2.queues.listAt clientId' = s.queues.listAt clientId' := by
  unfold nextBatch
  split
  · exact Or.inl ⟨rfl, fun _ => rfl⟩
  · split
    · next queues hrotate =>
        have hperm := (rotate_none (Nat.le_refl _) hrotate).2
        exact Or.inl ⟨rfl, fun clientId => by simp only [Dict.listAt, Dict.get?_perm hperm]⟩
    · next request queues hrotate =>
        rcases rotate_some hrotate with ⟨clientId, queue, others, hperm, hperm'⟩
        have hbefore : s.queues.get? clientId = some (request :: queue) :=
          Dict.get?_eq_some.mpr (hperm.mem_iff.mpr List.mem_cons_self)
        have hafter : queues.get? clientId = some queue :=
          Dict.get?_eq_some.mpr (hperm'.mem_iff.mpr List.mem_cons_self)
        refine Or.inr ⟨request, clientId, queue, rfl, by simp [Dict.listAt, hbefore],
          by simp [Dict.listAt, hafter], fun clientId' hne => ?_⟩
        have hget : queues.get? clientId' = s.queues.get? clientId' := by
          ext l
          rw [Dict.get?_eq_some, Dict.get?_eq_some, hperm.mem_iff, hperm'.mem_iff]
          simp [hne]
        simp only [Dict.listAt, hget]

end RoundRobinScheduler
end Inferential
