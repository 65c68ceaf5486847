import Inferential.Client.Routing
import Mathlib.Data.List.TakeWhile
import Mathlib.Data.Rat.Floor

/-!
# Deadlines — how long a call of `get_result` waits

Both Python clients in time: messages reach the socket by a schedule.  The synchronous client polls
until its deadline, and each of its rounds takes a moment; the asynchronous client sleeps until its
queue is filled or its timeout fires.
-/

namespace Inferential

open PyStd

namespace Client

/-- The messages still to come, with the times at which they reach the socket. -/
abbrev Coming := List (Rat × List Bytes)

variable (parse : Bytes → Except String ModelResponse)

/-- The responses among the messages that are for the model. -/
def responsesFor (modelId : String) (messages : List (List Bytes)) : List Response :=
  (messages.map unpack).filter fun r => modelOf parse r = modelId

/-- The first response for the model, with the time from which on it can be had. -/
def firstResponse (modelId : String) (now : Rat) (waiting : List Response) (coming : Coming) :
    Option (Rat × Response) :=
  match waiting with
  | r :: _ => some (now, r)
  | [] =>
      (coming.find? fun m => modelOf parse (unpack m.2) = modelId).map fun m => (m.1, unpack m.2)

/-! ## The synchronous client -/

namespace Connection

/-- What has come by `t` is in the socket. -/
def arriveBy (t : Rat) (coming : Coming) (c : Connection) : Connection :=
  (coming.takeWhile fun m => m.1 ≤ t).foldl (fun c m => step parse c (.arrive m.2)) c

/-- `_drain` -/
def drainAll (c : Connection) : Connection :=
  (List.replicate (c.socket.length + 1) Action.drain).foldl (step parse) c

/-- The loop body of `_recv_for_model`, up to `poll`. -/
def look (t : Rat) (coming : Coming) (c : Connection) : Connection :=
  [Action.take, .check t].foldl (step parse) (drainAll parse (arriveBy parse t coming c))

/-- `int(min(remaining * 1000, 50))` -/
def pollMs (remaining : Rat) : Int := ⌊min (remaining * 1000) 50⌋

/-- `poll` returns when a message comes, or at the end of its time. -/
def wake (stop : Rat) : Coming → Rat
  | [] => stop
  | m :: _ => min m.1 stop

/-- At most `fuel` rounds of the loop, with the time at which it ended.  From the end of `poll` to
the next look, `delay` passes. -/
def rounds (delay : Nat → Rat) : Nat → Rat → Coming → Connection → Option (Connection × Rat)
  | 0, _, _, _ => none
  | fuel + 1, t, coming, c =>
      let c := look parse t coming c
      match c.running with
      | none => some (c, t)
      | some call =>
          let later := coming.dropWhile fun m => m.1 ≤ t
          let woken := wake (t + pollMs (call.deadline - t) / 1000) later
          rounds delay fuel (woken + delay fuel) later (step parse c .poll)

/-- `_recv_for_model`, with the time at which it returns. -/
def recvForModel (delay : Nat → Rat) (fuel : Nat) (modelId : String) (timeoutMs : Nat) (now : Rat)
    (coming : Coming) (c : Connection) : Option (Received × Rat) :=
  (rounds parse delay fuel now coming (step parse c (.getResult modelId timeoutMs now))).bind
    fun ended => ended.1.received.getLast?.map fun last => (last.2, ended.2)

end Connection

/-! ## The asynchronous client -/

namespace AsyncConnection

/-- The reader empties the socket, and then the call looks into its queue. -/
def settle (c : AsyncConnection) : AsyncConnection :=
  (List.replicate c.socket.length Action.read ++ [Action.get 0]).foldl (step parse) c

/-- `timeout_ms / 1000 if timeout_ms > 0 else None`, from now on. -/
def deadlineOf (timeoutMs : Nat) (now : Rat) : Option Rat :=
  if 0 < timeoutMs then some (now + timeoutMs / 1000) else none

/-- `wait_for`, with the time at which it ended; the timeout fires before a message that comes at
the same time is read. -/
def waitFor (deadline : Option Rat) :
    Coming → Rat → AsyncConnection → Option (AsyncConnection × Rat)
  | [], t, c =>
      let c := settle parse c
      if c.calls.isEmpty then some (c, t)
      else deadline.map fun d => (step parse c (.timeout 0), d)
  | (a, frames) :: coming, t, c =>
      let c := settle parse c
      if c.calls.isEmpty then some (c, t)
      else
        match deadline.filter fun d => d ≤ a with
        | some d => some (step parse c (.timeout 0), d)
        | none => waitFor deadline coming a (step parse c (.arrive frames))

/-- `_recv_for_model`, with the time at which it returns, if it does. -/
def recvForModel (modelId : String) (timeoutMs : Nat) (now : Rat) (coming : Coming)
    (c : AsyncConnection) : Option (Received × Rat) :=
  (waitFor parse (deadlineOf timeoutMs now) coming now
    (step parse c (.getResult modelId timeoutMs))).bind
    fun ended => ended.1.received.getLast?.map fun last => (last.2, ended.2)

end AsyncConnection

/-! ## Looking into the buffer -/

theorem responsesFor_append (modelId : String) (messages messages' : List (List Bytes)) :
    responsesFor parse modelId (messages ++ messages') =
      responsesFor parse modelId messages ++ responsesFor parse modelId messages' := by
  simp [responsesFor]

theorem head?_responsesFor (modelId : String) (coming : Coming) :
    (responsesFor parse modelId (coming.map Prod.snd)).head? =
      (coming.find? fun m => modelOf parse (unpack m.2) = modelId).map fun m => unpack m.2 := by
  have hfilter : responsesFor parse modelId (coming.map Prod.snd) =
      (coming.filter fun m => modelOf parse (unpack m.2) = modelId).map fun m => unpack m.2 := by
    simp [responsesFor, List.filter_map, Function.comp_def]
  rw [hfilter, List.head?_map, List.head?_filter]

/-- The messages come in the order of their times. -/
def Coming.Sorted (coming : Coming) : Prop := coming.Pairwise fun m m' => m.1 ≤ m'.1

instance (coming : Coming) : Decidable coming.Sorted :=
  inferInstanceAs (Decidable (coming.Pairwise _))

theorem Coming.Sorted.later {coming : Coming} (h : coming.Sorted) (t : Rat) :
    ∀ m ∈ coming.dropWhile (fun m => m.1 ≤ t), t < m.1 := by
  induction coming with
  | nil => simp
  | cons m coming ih =>
      rcases List.pairwise_cons.mp h with ⟨hfirst, hrest⟩
      by_cases hm : m.1 ≤ t
      · simpa [hm] using ih hrest
      · intro m' hm'
        simp only [hm, decide_false, Bool.false_eq_true, not_false_eq_true,
          List.dropWhile_cons_of_neg] at hm'
        rcases List.mem_cons.mp hm' with rfl | hmem
        · exact not_le.mp hm
        · exact (not_le.mp hm).trans_le (hfirst m' hmem)

section First

variable {parse} {modelId : String} {t : Rat} {waiting : List Response} {coming : Coming}

/-- A response that is there at `t` is the first one. -/
theorem firstResponse_present {r : Response} {rest : List Response}
    (h : waiting ++ responsesFor parse modelId
      ((coming.takeWhile fun m => m.1 ≤ t).map Prod.snd) = r :: rest) :
    ∃ a, firstResponse parse modelId t waiting coming = some (a, r) ∧ a ≤ t := by
  cases waiting with
  | cons r' waiting =>
      cases h
      exact ⟨t, rfl, le_refl t⟩
  | nil =>
      have hhead := head?_responsesFor parse modelId (coming.takeWhile fun m => m.1 ≤ t)
      rw [List.nil_append] at h
      rw [h, List.head?_cons, eq_comm, Option.map_eq_some_iff] at hhead
      rcases hhead with ⟨m, hfind, rfl⟩
      have hle := List.mem_takeWhile_imp (List.mem_of_find?_eq_some hfind)
      refine ⟨m.1, ?_, by simpa using hle⟩
      have hsplit : coming.find? (fun m => modelOf parse (unpack m.2) = modelId) = some m := by
        rw [← List.takeWhile_append_dropWhile (p := fun m : Rat × List Bytes => m.1 ≤ t)
          (l := coming), List.find?_append, hfind]
        rfl
      simp [firstResponse, hsplit]

/-- If none is there at `t`, the first one comes later. -/
theorem firstResponse_absent (hsorted : coming.Sorted)
    (h : waiting ++ responsesFor parse modelId
      ((coming.takeWhile fun m => m.1 ≤ t).map Prod.snd) = []) :
    (∀ t', firstResponse parse modelId t waiting coming =
      firstResponse parse modelId t' [] (coming.dropWhile fun m => m.1 ≤ t)) ∧
    ∀ a r, firstResponse parse modelId t waiting coming = some (a, r) → t < a := by
  rcases List.append_eq_nil_iff.mp h with ⟨rfl, hnone⟩
  have hhead := head?_responsesFor parse modelId (coming.takeWhile fun m => m.1 ≤ t)
  rw [hnone, List.head?_nil, eq_comm, Option.map_eq_none_iff] at hhead
  have hsplit : coming.find? (fun m => modelOf parse (unpack m.2) = modelId) =
      (coming.dropWhile fun m => m.1 ≤ t).find?
        fun m => modelOf parse (unpack m.2) = modelId := by
    conv_lhs => rw [← List.takeWhile_append_dropWhile (p := fun m : Rat × List Bytes => m.1 ≤ t)
      (l := coming)]
    rw [List.find?_append, hhead]
    rfl
  refine ⟨fun t' => by simp [firstResponse, hsplit], fun a r hfirst => ?_⟩
  simp only [firstResponse, hsplit, Option.map_eq_some_iff, Prod.mk.injEq] at hfirst
  rcases hfirst with ⟨m, hfind, rfl, -⟩
  exact hsorted.later t m (List.mem_of_find?_eq_some hfind)

theorem firstResponse_later {a : Rat} {r : Response} (hlater : ∀ m ∈ coming, t ≤ m.1)
    (hfirst : firstResponse parse modelId t waiting coming = some (a, r)) : t ≤ a := by
  cases waiting with
  | cons r' waiting =>
      cases hfirst
      exact le_refl t
  | nil =>
      rcases Option.map_eq_some_iff.mp hfirst with ⟨m, hfind, hm⟩
      cases hm
      exact hlater m (List.mem_of_find?_eq_some hfind)

end First

namespace Connection

theorem arriveBy_eq (t : Rat) (coming : Coming) (c : Connection) :
    arriveBy parse t coming c =
      { c with socket := c.socket ++ (coming.takeWhile fun m => m.1 ≤ t).map Prod.snd } := by
  unfold arriveBy
  generalize coming.takeWhile (fun m => m.1 ≤ t) = arrived
  induction arrived generalizing c with
  | nil => simp
  | cons m arrived ih =>
      rw [List.foldl_cons, ih]
      simp [step]

variable {parse}

/-- `_drain` moves the responses from the socket into the buffers. -/
theorem drainAll_eq {c : Connection} {call : Call} (hrunning : c.running = some call)
    (hpc : call.pc = .draining) (hparses : ∀ frames ∈ c.socket, Parses parse frames) :
    ∃ buffers, drainAll parse c =
        { c with socket := [], buffers := buffers, running := some { call with pc := .taking } } ∧
      ∀ modelId, buffers.listAt modelId =
        c.buffers.listAt modelId ++ responsesFor parse modelId c.socket := by
  unfold drainAll
  -- each round takes one message, and the last one finds the socket empty
  induction hsocket : c.socket generalizing c with
  | nil =>
      refine ⟨c.buffers, ?_, by simp [responsesFor]⟩
      simp [step, hrunning, hpc, drain, hsocket]
  | cons frames rest ih =>
      rw [hsocket] at hparses
      rcases hparses frames List.mem_cons_self with ⟨resp, hresp⟩
      have hfor : modelOf parse (unpack frames) = resp.modelId := by simp [modelOf, hresp]
      let next : Connection := { c with
        socket := rest
        buffers := c.buffers.set resp.modelId (c.buffers.listAt resp.modelId ++ [unpack frames]) }
      have hstep : step parse c .drain = next := by
        simp [step, hrunning, hpc, drain, hsocket, hresp, next]
      rcases ih (c := next) hrunning
        (fun frames' hmem => hparses frames' (List.mem_cons_of_mem frames hmem)) rfl with
        ⟨buffers, hdrained, hbuffers⟩
      refine ⟨buffers, ?_, fun modelId => ?_⟩
      · rw [List.length_cons, List.replicate_succ, List.foldl_cons, hstep, hdrained]
      · rw [hbuffers, Dict.listAt_set]
        split
        · next heq => simp [responsesFor, hfor, heq]
        · next hne => simp [responsesFor, hfor, Ne.symm hne]

/-- The responses for the model that are there at `t`. -/
def present (parse : Bytes → Except String ModelResponse) (modelId : String) (t : Rat)
    (coming : Coming) (c : Connection) : List Response :=
  c.buffers.listAt modelId ++ responsesFor parse modelId
    (c.socket ++ (coming.takeWhile fun m => m.1 ≤ t).map Prod.snd)

/-- A call is at the top of its loop. -/
structure Ready (parse : Bytes → Except String ModelResponse) (modelId : String) (deadline : Rat)
    (coming : Coming) (c : Connection) : Prop where
  running : c.running = some { modelId := modelId, deadline := deadline }
  socket : ∀ frames ∈ c.socket, Parses parse frames
  coming : ∀ m ∈ coming, Parses parse m.2

theorem Ready.look {modelId : String} {deadline t : Rat} {coming : Coming} {c : Connection}
    (h : Ready parse modelId deadline coming c) :
    (∀ r rest, present parse modelId t coming c = r :: rest →
      (look parse t coming c).running = none ∧
        (look parse t coming c).received = c.received ++ [(modelId, .response r)]) ∧
    (present parse modelId t coming c = [] → deadline ≤ t →
      (look parse t coming c).running = none ∧
        (look parse t coming c).received = c.received ++ [(modelId, .timedOut)]) ∧
    (present parse modelId t coming c = [] → t < deadline →
      (look parse t coming c).running =
          some { modelId := modelId, deadline := deadline, pc := .polling } ∧
        (look parse t coming c).received = c.received ∧ (look parse t coming c).socket = [] ∧
        (look parse t coming c).buffers.listAt modelId = []) := by
  have harrived : ∀ frames ∈ c.socket ++ (coming.takeWhile fun m => m.1 ≤ t).map Prod.snd,
      Parses parse frames := by
    intro frames hmem
    rcases List.mem_append.mp hmem with hold | hnew
    · exact h.socket frames hold
    · rcases List.mem_map.mp hnew with ⟨m, hm, rfl⟩
      exact h.coming m ((List.takeWhile_sublist _).subset hm)
  rcases drainAll_eq (c := arriveBy parse t coming c) (by rw [arriveBy_eq]; exact h.running) rfl
    (by rw [arriveBy_eq]; exact harrived) with ⟨buffers, hdrained, hbuffers⟩
  have hbuffer : buffers.listAt modelId = present parse modelId t coming c := by
    rw [hbuffers modelId, arriveBy_eq]
    rfl
  rw [arriveBy_eq] at hdrained
  refine ⟨fun r rest hpresent => ?_, fun hpresent hdue => ?_, fun hpresent hearly => ?_⟩
  · rw [hpresent] at hbuffer
    simp [Connection.look, arriveBy_eq, hdrained, step, take, hbuffer, finish]
  · rw [hpresent] at hbuffer
    simp [Connection.look, arriveBy_eq, hdrained, step, take, hbuffer, finish, hdue]
  · rw [hpresent] at hbuffer
    have hnot : ¬ deadline ≤ t := not_le.mpr hearly
    simp [Connection.look, arriveBy_eq, hdrained, step, take, hbuffer, hnot, Dict.listAt_set]

/-- The loop is asked to poll only while there is time left, and not beyond it. -/
theorem pollMs_bounds {remaining : Rat} (h : 0 < remaining) :
    0 ≤ (pollMs remaining : Rat) / 1000 ∧ (pollMs remaining : Rat) / 1000 ≤ remaining := by
  have hpos : (0 : Rat) ≤ min (remaining * 1000) 50 :=
    le_min (mul_nonneg h.le (by norm_num)) (by norm_num)
  have hfloor : (0 : Int) ≤ pollMs remaining := Int.floor_nonneg.mpr hpos
  have hle : (pollMs remaining : Rat) ≤ remaining * 1000 :=
    (Int.floor_le _).trans (min_le_left _ _)
  constructor
  · exact div_nonneg (Int.cast_nonneg hfloor) (by norm_num)
  · rw [div_le_iff₀ (by norm_num)]
    exact hle

theorem wake_bounds {t stop : Rat} {later : Coming} (hstop : t ≤ stop)
    (hlater : ∀ m ∈ later, t < m.1) : t ≤ wake stop later ∧ wake stop later ≤ stop := by
  cases later with
  | nil => exact ⟨hstop, le_refl stop⟩
  | cons m later => exact ⟨le_min (hlater m List.mem_cons_self).le hstop, min_le_right _ _⟩

/-- No message comes unnoticed. -/
theorem wake_le (stop : Rat) {later : Coming} (hsorted : later.Sorted) {m : Rat × List Bytes}
    (hm : m ∈ later) : wake stop later ≤ m.1 := by
  cases later with
  | nil => cases hm
  | cons first later =>
      refine (min_le_left _ _).trans ?_
      rcases List.mem_cons.mp hm with rfl | hm
      · exact le_refl _
      · exact (List.pairwise_cons.mp hsorted).1 m hm

/-- A call that looks at `t` ends with the first response, if it comes before the end, and by the
deadline otherwise; `g` is what a round may add. -/
structure Outcome (first : Option (Rat × Response)) (t deadline g : Rat) (result : Received)
    (t' : Rat) : Prop where
  after : t ≤ t'
  before : t' ≤ max t (deadline + g)
  found : ∀ a r, first = some (a, r) → a ≤ t' → result = .response r ∧ t' ≤ max t (a + g)
  missed : (∀ a r, first = some (a, r) → t' < a) → result = .timedOut ∧ deadline ≤ t'

/-- What a later round finds, which starts in time. -/
theorem Outcome.of_later {first : Option (Rat × Response)} {t t₂ deadline g t' : Rat}
    {result : Received} (h : Outcome first t₂ deadline g result t') (hlater : t ≤ t₂)
    (hend : t₂ ≤ deadline + g) (hfirst : ∀ a r, first = some (a, r) → t₂ ≤ a + g) :
    Outcome first t deadline g result t' := by
  refine ⟨hlater.trans h.after, ?_, fun a r hsome hle => ?_, h.missed⟩
  · exact (h.before.trans (max_le hend (le_refl _))).trans (le_max_right _ _)
  · rcases h.found a r hsome hle with ⟨hresult, htime⟩
    exact ⟨hresult, (htime.trans (max_le (hfirst a r hsome) (le_refl _))).trans (le_max_right _ _)⟩

/-- Each round takes a while, and not too long. -/
structure Paced (δ g : Rat) (delay : Nat → Rat) : Prop where
  pos : 0 < δ
  low : ∀ i, δ ≤ delay i
  high : ∀ i, delay i ≤ g

/-- The responses for the model that wait in the buffer and in the socket. -/
def waiting (parse : Bytes → Except String ModelResponse) (modelId : String) (c : Connection) :
    List Response :=
  c.buffers.listAt modelId ++ responsesFor parse modelId c.socket

theorem present_eq (modelId : String) (t : Rat) (coming : Coming) (c : Connection) :
    present parse modelId t coming c = waiting parse modelId c ++ responsesFor parse modelId
      ((coming.takeWhile fun m => m.1 ≤ t).map Prod.snd) := by
  rw [present, responsesFor_append, waiting, List.append_assoc]

section Rounds

variable {modelId : String} {δ g deadline t : Rat} {delay : Nat → Rat} {coming : Coming}
  {c : Connection}

/-- A round ends the call when there is a response, or no time left. -/
theorem Ready.ends (h : Ready parse modelId deadline coming c) (hsorted : coming.Sorted)
    (hend : present parse modelId t coming c ≠ [] ∨ deadline ≤ t) (fuel : Nat) :
    ∃ c' t' result, rounds parse delay (fuel + 1) t coming c = some (c', t') ∧
      c'.received = c.received ++ [(modelId, result)] ∧
      Outcome (firstResponse parse modelId t (waiting parse modelId c) coming) t deadline g
        result t' := by
  rcases h.look (t := t) with ⟨hresponse, hlate, -⟩
  have hrounds : (Connection.look parse t coming c).running = none →
      rounds parse delay (fuel + 1) t coming c = some (Connection.look parse t coming c, t) := by
    intro hnone
    simp [rounds, hnone]
  cases hpresent : present parse modelId t coming c with
  | cons r rest =>
      rcases hresponse r rest hpresent with ⟨hnone, hreceived⟩
      rw [present_eq] at hpresent
      rcases firstResponse_present hpresent with ⟨a, hfirst, hle⟩
      refine ⟨_, t, .response r, hrounds hnone, hreceived, le_refl t, le_max_left _ _, ?_, ?_⟩
      · intro a' r' hfirst' _
        rw [hfirst] at hfirst'
        cases hfirst'
        exact ⟨rfl, le_max_left _ _⟩
      · intro hlater
        exact absurd (hlater a r hfirst) (not_lt.mpr hle)
  | nil =>
      have hdue := hend.resolve_left fun hne => hne hpresent
      rcases hlate hpresent hdue with ⟨hnone, hreceived⟩
      rw [present_eq] at hpresent
      rcases firstResponse_absent hsorted hpresent with ⟨-, hlater⟩
      refine ⟨_, t, .timedOut, hrounds hnone, hreceived, le_refl t, le_max_left _ _, ?_, ?_⟩
      · intro a r hfirst hle
        exact absurd (hlater a r hfirst) (not_lt.mpr hle)
      · exact fun _ => ⟨rfl, hdue⟩

/-- A round that does not end the call takes up `δ` of the time left, and is over soon after the
first response has come. -/
theorem Ready.continues (h : Ready parse modelId deadline coming c) (hpaced : Paced δ g delay)
    (hsorted : coming.Sorted) (hpresent : present parse modelId t coming c = [])
    (hearly : t < deadline) (fuel : Nat) :
    ∃ t₂ later c₂, rounds parse delay (fuel + 1) t coming c = rounds parse delay fuel t₂ later c₂ ∧
      Ready parse modelId deadline later c₂ ∧ later.Sorted ∧ c₂.received = c.received ∧
      firstResponse parse modelId t₂ (waiting parse modelId c₂) later =
        firstResponse parse modelId t (waiting parse modelId c) coming ∧
      t + δ ≤ t₂ ∧ t₂ ≤ deadline + g ∧
      ∀ a r, firstResponse parse modelId t (waiting parse modelId c) coming = some (a, r) →
        t₂ ≤ a + g := by
  rcases h.look.2.2 hpresent hearly with ⟨hrunning, hreceived, hsocket, hbuffer⟩
  rw [present_eq] at hpresent
  rcases firstResponse_absent hsorted hpresent with ⟨hfirst, -⟩
  have hsorted' : Coming.Sorted (coming.dropWhile fun m => m.1 ≤ t) :=
    hsorted.sublist (List.dropWhile_sublist _)
  rcases pollMs_bounds (sub_pos.mpr hearly) with ⟨hpoll, hleft⟩
  rcases wake_bounds (le_add_of_nonneg_right hpoll) (hsorted.later t) with ⟨hafter, hbefore⟩
  have hlow := hpaced.low fuel
  have hhigh := hpaced.high fuel
  refine ⟨wake (t + pollMs (deadline - t) / 1000) (coming.dropWhile fun m => m.1 ≤ t) + delay fuel,
    coming.dropWhile fun m => m.1 ≤ t, step parse (Connection.look parse t coming c) .poll, ?_, ?_,
    hsorted', ?_, ?_, ?_, ?_, ?_⟩
  · simp [rounds, hrunning]
  · refine ⟨?_, ?_, fun m hm => h.coming m ((List.dropWhile_sublist _).subset hm)⟩
    · simp [step, hrunning]
    · simp [step, hrunning, hsocket]
  · simp [step, hrunning, hreceived]
  · have hbuffers : waiting parse modelId (step parse (Connection.look parse t coming c) .poll) =
        [] := by
      simp [waiting, step, hrunning, hsocket, hbuffer, responsesFor]
    rw [hbuffers]
    exact (hfirst _).symm
  · linarith
  · linarith
  · intro a r hsome
    -- the poll of this round ends when the response comes
    rw [hfirst t] at hsome
    rcases Option.map_eq_some_iff.mp hsome with ⟨m, hfind, hm⟩
    have hwake := wake_le (t + pollMs (deadline - t) / 1000) hsorted'
      (List.mem_of_find?_eq_some hfind)
    cases hm
    linarith

theorem rounds_outcome (hpaced : Paced δ g delay) (fuel : Nat)
    (h : Ready parse modelId deadline coming c) (hsorted : coming.Sorted)
    (hfuel : deadline - t ≤ fuel * δ) :
    ∃ c' t' result, rounds parse delay (fuel + 1) t coming c = some (c', t') ∧
      c'.received = c.received ++ [(modelId, result)] ∧
      Outcome (firstResponse parse modelId t (waiting parse modelId c) coming) t deadline g
        result t' := by
  induction fuel generalizing t coming c with
  | zero =>
      have hdue : deadline ≤ t := by simpa using hfuel
      exact h.ends hsorted (.inr hdue) 0
  | succ fuel ih =>
      by_cases hend : present parse modelId t coming c ≠ [] ∨ deadline ≤ t
      · exact h.ends hsorted hend (fuel + 1)
      · simp only [not_or, not_not, not_le] at hend
        rcases h.continues hpaced hsorted hend.1 hend.2 (fuel + 1) with
          ⟨t₂, later, c₂, hround, hready, hlater, hsame, hfirst, hlow, hhigh, hsoon⟩
        have hpos := hpaced.pos
        have hfuel' : deadline - t₂ ≤ fuel * δ := by
          push_cast at hfuel
          linarith
        rcases ih hready hlater hfuel' with ⟨c', t', result, hrun, hresult, houtcome⟩
        rw [hfirst] at houtcome
        exact ⟨c', t', result, hround.trans hrun, by rw [hresult, hsame],
          houtcome.of_later (by linarith) hhigh hsoon⟩

end Rounds

/-- From an idle connection: `get_result` returns, and what it returns is decided by the time of the
first response. -/
theorem recvForModel_outcome {timeoutMs : Nat} {δ g : Rat} {delay : Nat → Rat} {fuel : Nat}
    {coming : Coming} {c : Connection} (modelId : String) (now : Rat) (hidle : c.running = none)
    (hsocket : ∀ frames ∈ c.socket, Parses parse frames) (hcoming : ∀ m ∈ coming, Parses parse m.2)
    (hsorted : coming.Sorted) (hpaced : Paced δ g delay) (hfuel : timeoutMs / 1000 ≤ fuel * δ) :
    ∃ result t, recvForModel parse delay (fuel + 1) modelId timeoutMs now coming c =
        some (result, t) ∧
      Outcome (firstResponse parse modelId now (waiting parse modelId c) coming) now
        (now + timeoutMs / 1000) g result t := by
  have hcalled : step parse c (.getResult modelId timeoutMs now) =
      { c with running := some { modelId := modelId, deadline := now + timeoutMs / 1000 } } := by
    simp [step, hidle]
  have hready : Ready parse modelId (now + timeoutMs / 1000) coming
      (step parse c (.getResult modelId timeoutMs now)) := by
    rw [hcalled]
    exact ⟨rfl, hsocket, hcoming⟩
  rcases rounds_outcome hpaced fuel hready hsorted (t := now) (by linarith) with
    ⟨c', t', result, hrounds, hreceived, houtcome⟩
  refine ⟨result, t', ?_, ?_⟩
  · simp [recvForModel, hrounds, hreceived]
  · rw [hcalled] at houtcome
    exact houtcome

end Connection

namespace AsyncConnection

variable {parse}

/-- The reader moves the responses from the socket into the queues. -/
theorem reads_eq {c : AsyncConnection} (hreader : c.reader = .running)
    (hparses : ∀ frames ∈ c.socket, Parses parse frames) :
    ∃ queues, (List.replicate c.socket.length Action.read).foldl (step parse) c =
        { c with socket := [], queues := queues } ∧
      ∀ modelId, queues.listAt modelId =
        c.queues.listAt modelId ++ responsesFor parse modelId c.socket := by
  induction hsocket : c.socket generalizing c with
  | nil =>
      refine ⟨c.queues, ?_, by simp [responsesFor]⟩
      cases c
      cases hsocket
      rfl
  | cons frames rest ih =>
      rw [hsocket] at hparses
      rcases hparses frames List.mem_cons_self with ⟨resp, hresp⟩
      have hfor : modelOf parse (unpack frames) = resp.modelId := by simp [modelOf, hresp]
      let next : AsyncConnection := { c with
        socket := rest
        queues := (setDefault resp.modelId c.queues).set resp.modelId
          (c.queues.listAt resp.modelId ++ [unpack frames]) }
      have hstep : step parse c .read = next := by
        simp [step, hreader, read, hsocket, hresp, next, listAt_setDefault]
      rcases ih (c := next) hreader
        (fun frames' hmem => hparses frames' (List.mem_cons_of_mem frames hmem)) rfl with
        ⟨queues, hread, hqueues⟩
      refine ⟨queues, ?_, fun modelId => ?_⟩
      · rw [List.length_cons, List.replicate_succ, List.foldl_cons, hstep, hread]
      · rw [hqueues, Dict.listAt_set, listAt_setDefault]
        split
        · next heq => simp [responsesFor, hfor, heq]
        · next hne => simp [responsesFor, hfor, Ne.symm hne]

/-- The responses for the model that wait in the queue and in the socket. -/
def waiting (parse : Bytes → Except String ModelResponse) (modelId : String) (c : AsyncConnection) :
    List Response :=
  c.queues.listAt modelId ++ responsesFor parse modelId c.socket

/-- A call waits, and the reader runs. -/
structure Waits (parse : Bytes → Except String ModelResponse) (call : AsyncCall)
    (coming : Coming) (c : AsyncConnection) : Prop where
  calls : c.calls = [call]
  reader : c.reader = .running
  socket : ∀ frames ∈ c.socket, Parses parse frames
  coming : ∀ m ∈ coming, Parses parse m.2

theorem Waits.settle {call : AsyncCall} {coming : Coming} {c : AsyncConnection}
    (h : Waits parse call coming c) :
    (∀ r rest, waiting parse call.modelId c = r :: rest →
      (settle parse c).calls = [] ∧
        (settle parse c).received = c.received ++ [(call.modelId, .response r)]) ∧
    (waiting parse call.modelId c = [] →
      Waits parse call coming (settle parse c) ∧ waiting parse call.modelId (settle parse c) = [] ∧
        (settle parse c).received = c.received) := by
  rcases reads_eq h.reader h.socket with ⟨queues, hread, hqueues⟩
  have hqueue : queues.listAt call.modelId = waiting parse call.modelId c := hqueues call.modelId
  have hsettle : AsyncConnection.settle parse c =
      step parse { c with socket := [], queues := queues } (.get 0) := by
    rw [AsyncConnection.settle, List.foldl_append, hread]
    rfl
  constructor
  · intro r rest hwaiting
    rw [hwaiting] at hqueue
    simp [hsettle, step, h.calls, hqueue, finish]
  · intro hwaiting
    rw [hwaiting] at hqueue
    have hsame : AsyncConnection.settle parse c = { c with socket := [], queues := queues } := by
      simp [hsettle, step, h.calls, hqueue]
    rw [hsame]
    exact ⟨⟨h.calls, h.reader, by simp, h.coming⟩, by simp [waiting, hqueue, responsesFor], rfl⟩

/-- The answer of a call that gets the first response when it comes, if that is before the
deadline. -/
def answer (deadline : Option Rat) : Option (Rat × Response) → Option (Received × Rat)
  | none => deadline.map fun d => (.timedOut, d)
  | some (a, r) =>
      match deadline.filter fun d => d ≤ a with
      | some d => some (.timedOut, d)
      | none => some (.response r, a)

section Answer

variable {first : Option (Rat × Response)}

theorem answer_of_lt {deadline : Option Rat} {a : Rat} (r : Response)
    (h : ∀ d ∈ deadline, a < d) :
    answer deadline (some (a, r)) = some (.response r, a) := by
  have hnone : deadline.filter (fun d => d ≤ a) = none := by
    simpa [Option.filter_eq_none_iff] using h
  simp [answer, hnone]

/-- No response comes before the deadline. -/
theorem answer_of_le {d : Rat} (h : ∀ a r, first = some (a, r) → d ≤ a) :
    answer (some d) first = some (.timedOut, d) := by
  cases first with
  | none => rfl
  | some last =>
      have hle : d ≤ last.1 := h last.1 last.2 rfl
      simp [answer, Option.filter, hle]

/-- Without a deadline there is no timeout. -/
theorem answer_none (a : Rat) : answer none first ≠ some (.timedOut, a) := by
  cases first with
  | none => nofun
  | some last => simp [answer]

end Answer

theorem firstResponse_cons (modelId : String) (t a : Rat) (frames : List Bytes) (coming : Coming) :
    firstResponse parse modelId t [] ((a, frames) :: coming) =
      firstResponse parse modelId a (responsesFor parse modelId [frames]) coming := by
  by_cases hfor : modelOf parse (unpack frames) = modelId
  · simp [firstResponse, responsesFor, hfor]
  · simp [firstResponse, responsesFor, hfor]

/-- The response that waits is the answer at once. -/
theorem Waits.found {call : AsyncCall} {deadline : Option Rat} {t : Rat} {coming : Coming}
    {c : AsyncConnection} {r : Response} {rest : List Response} (h : Waits parse call coming c)
    (hwaiting : waiting parse call.modelId c = r :: rest) (hdeadline : ∀ d ∈ deadline, t < d) :
    ((waitFor parse deadline coming t c).bind fun ended =>
        ended.1.received.getLast?.map fun last => (last.2, ended.2)) =
      answer deadline (firstResponse parse call.modelId t (r :: rest) coming) := by
  rcases h.settle.1 r rest hwaiting with ⟨hcalls, hreceived⟩
  refine Eq.trans ?_ (answer_of_lt r hdeadline).symm
  cases coming with
  | nil => simp [waitFor, hcalls, hreceived]
  | cons m coming => simp [waitFor, hcalls, hreceived]

/-- A message comes to the call that has found its queue empty. -/
theorem Waits.arrive {call : AsyncCall} {a : Rat} {frames : List Bytes} {coming : Coming}
    {c : AsyncConnection} (h : Waits parse call ((a, frames) :: coming) c)
    (hempty : waiting parse call.modelId c = []) :
    Waits parse call coming (step parse c (.arrive frames)) ∧
      waiting parse call.modelId (step parse c (.arrive frames)) =
        responsesFor parse call.modelId [frames] := by
  constructor
  · exact ⟨h.calls, h.reader, parses_append h.socket (h.coming _ List.mem_cons_self),
      fun m hm => h.coming m (List.mem_cons_of_mem _ hm)⟩
  · have hsum := responsesFor_append parse call.modelId c.socket [frames]
    simp only [waiting] at hempty ⊢
    simp only [step, hsum, ← List.append_assoc, hempty, List.nil_append]

theorem waitFor_eq {call : AsyncCall} {deadline : Option Rat} {t : Rat} {coming : Coming}
    {c : AsyncConnection} (h : Waits parse call coming c) (hsorted : coming.Sorted)
    (hlater : ∀ m ∈ coming, t ≤ m.1) (hdeadline : ∀ d ∈ deadline, t < d ∧ 0 < call.timeoutMs) :
    ((waitFor parse deadline coming t c).bind fun ended =>
        ended.1.received.getLast?.map fun last => (last.2, ended.2)) =
      answer deadline
        (firstResponse parse call.modelId t (waiting parse call.modelId c) coming) := by
  -- the reader has emptied the socket whenever the call looks into its queue
  induction coming generalizing t c with
  | nil =>
      have hempty := h.settle.2
      cases hwaiting : waiting parse call.modelId c with
      | cons r rest => exact h.found hwaiting fun d hd => (hdeadline d hd).1
      | nil =>
          rcases hempty hwaiting with ⟨hwaits, -, -⟩
          cases deadline with
          | none => simp [waitFor, hwaits.calls, firstResponse, answer]
          | some d =>
              have hpositive := (hdeadline d rfl).2
              simp [waitFor, hwaits.calls, firstResponse, answer, step, hpositive, finish]
  | cons m coming ih =>
      rcases m with ⟨a, frames⟩
      rcases List.pairwise_cons.mp hsorted with ⟨hafter, hrest⟩
      have hempty := h.settle.2
      cases hwaiting : waiting parse call.modelId c with
      | cons r rest => exact h.found hwaiting fun d hd => (hdeadline d hd).1
      | nil =>
          rcases hempty hwaiting with ⟨hwaits, hstill, -⟩
          cases hdue : deadline.filter (fun d => d ≤ a) with
          | some d =>
              rcases Option.filter_eq_some_iff.mp hdue with ⟨rfl, hle⟩
              have hpositive := (hdeadline d rfl).2
              have hlate : ∀ m ∈ (a, frames) :: coming, d ≤ m.1 := by
                intro m hm
                rcases List.mem_cons.mp hm with rfl | hm
                · simpa using hle
                · exact le_trans (by simpa using hle) (hafter m hm)
              have hanswer : answer (some d)
                  (firstResponse parse call.modelId d [] ((a, frames) :: coming)) =
                  some (.timedOut, d) := answer_of_le fun _ _ => firstResponse_later hlate
              refine Eq.trans ?_ hanswer.symm
              simp [waitFor, hwaits.calls, hdue, step, hpositive, finish]
          | none =>
              rcases hwaits.arrive hstill with ⟨hnext, hthere⟩
              have hdeadline' : ∀ d ∈ deadline, a < d ∧ 0 < call.timeoutMs := by
                intro d hd
                rw [Option.filter_eq_none_iff] at hdue
                exact ⟨by simpa using hdue d hd, (hdeadline d hd).2⟩
              rw [firstResponse_cons, ← hthere, ← ih hnext hrest hafter hdeadline']
              simp [waitFor, hwaits.calls, hdue]

theorem ensureReader_eq (c : AsyncConnection) : c.ensureReader = { c with reader := .running } := by
  rcases c with ⟨socket, queues, reader, calls, received⟩
  cases reader with
  | absent => simp [ensureReader]
  | running => simp [ensureReader]
  | done => simp [ensureReader]

theorem mem_deadlineOf {timeoutMs : Nat} {now d : Rat} (h : d ∈ deadlineOf timeoutMs now) :
    0 < timeoutMs ∧ d = now + timeoutMs / 1000 ∧ now < d := by
  simp only [deadlineOf, Option.mem_def, Option.ite_none_right_eq_some, Option.some.injEq] at h
  rcases h with ⟨hpos, rfl⟩
  have hpositive : (0 : Rat) < timeoutMs / 1000 := by positivity
  exact ⟨hpos, rfl, lt_add_of_pos_right now hpositive⟩

/-- From a connection on which no call waits. -/
theorem recvForModel_eq {modelId : String} {timeoutMs : Nat} {now : Rat} {coming : Coming}
    {c : AsyncConnection} (hidle : c.calls = [])
    (hsocket : ∀ frames ∈ c.socket, Parses parse frames) (hcoming : ∀ m ∈ coming, Parses parse m.2)
    (hsorted : coming.Sorted) (hlater : ∀ m ∈ coming, now ≤ m.1) :
    recvForModel parse modelId timeoutMs now coming c =
      answer (deadlineOf timeoutMs now)
        (firstResponse parse modelId now (waiting parse modelId c) coming) := by
  have hwaits : Waits parse { modelId := modelId, timeoutMs := timeoutMs } coming
      (step parse c (.getResult modelId timeoutMs)) := by
    refine ⟨?_, ?_, ?_, hcoming⟩
    · simp [step, ensureReader_eq, hidle]
    · simp [step, ensureReader_eq]
    · simpa [step, ensureReader_eq] using hsocket
  have hdeadline : ∀ d ∈ deadlineOf timeoutMs now, now < d ∧ 0 < (timeoutMs : Int) := by
    intro d hd
    rcases mem_deadlineOf hd with ⟨hpos, -, hlt⟩
    exact ⟨hlt, by simpa using hpos⟩
  have hwaiting : waiting parse modelId (step parse c (.getResult modelId timeoutMs)) =
      waiting parse modelId c := by
    simp [waiting, step, ensureReader_eq, listAt_setDefault]
  have heq := waitFor_eq hwaits hsorted hlater hdeadline
  rw [hwaiting] at heq
  exact heq

end AsyncConnection

/-! ## Both clients -/

/-- The first response is returned when it comes before the deadline, or was there at `now`, and
otherwise the calls end at the deadline; the synchronous client is up to `g` late. -/
structure Agrees (first : Option (Rat × Response)) (now deadline g : Rat)
    (result asyncResult : Option (Received × Rat)) : Prop where
  found : ∀ a r, first = some (a, r) → a = now ∨ a < deadline →
    (∃ t, result = some (.response r, t) ∧ a ≤ t ∧ t ≤ a + g) ∧
      asyncResult = some (.response r, a)
  missed : (∀ a r, first = some (a, r) → a ≠ now ∧ deadline ≤ a) →
    (∃ ending t, result = some (ending, t) ∧ deadline ≤ t ∧ t ≤ deadline + g ∧
      (ending = .timedOut ∨ ∃ a r, first = some (a, r) ∧ a ≤ t ∧ ending = .response r)) ∧
      asyncResult = some (.timedOut, deadline)

/-- Both clients are idle, with the same responses buffered, and the same messages before them. -/
structure Alike (parse : Bytes → Except String ModelResponse) (now : Rat) (coming : Coming)
    (c : Connection) (d : AsyncConnection) : Prop where
  idle : c.running = none
  asyncIdle : d.calls = []
  sockets : c.socket = d.socket
  buffers : ∀ modelId, c.buffers.listAt modelId = d.queues.listAt modelId
  parses : ∀ frames ∈ c.socket, Parses parse frames
  comingParses : ∀ m ∈ coming, Parses parse m.2
  sorted : coming.Sorted
  later : ∀ m ∈ coming, now ≤ m.1

section Agreement

variable {parse} {now deadline g t : Rat} {first : Option (Rat × Response)} {result : Received}

theorem Connection.Outcome.returns {a : Rat} {r : Response}
    (h : Connection.Outcome first now deadline g result t) (hg : 0 ≤ g) (hnow : now ≤ a)
    (hfirst : first = some (a, r)) (hintime : a = now ∨ a < deadline) :
    result = .response r ∧ a ≤ t ∧ t ≤ a + g := by
  have hcome : a ≤ t := by
    by_contra hnot
    have hearly : t < a := not_le.mp hnot
    have hmissed : deadline ≤ t := by
      refine (h.missed fun a' r' hfirst' => ?_).2
      rw [hfirst] at hfirst'
      cases hfirst'
      exact hearly
    rcases hintime with rfl | hbefore
    · exact absurd hearly (not_lt.mpr h.after)
    · exact absurd (hmissed.trans_lt hearly) (not_lt.mpr hbefore.le)
  rcases h.found a r hfirst hcome with ⟨hresult, htime⟩
  refine ⟨hresult, hcome, htime.trans (max_le ?_ (le_refl _))⟩
  linarith

theorem Connection.Outcome.ends (h : Connection.Outcome first now deadline g result t) (hg : 0 ≤ g)
    (hnow : now ≤ deadline) (hlate : ∀ a r, first = some (a, r) → deadline ≤ a) :
    deadline ≤ t ∧ t ≤ deadline + g ∧
      (result = .timedOut ∨ ∃ a r, first = some (a, r) ∧ a ≤ t ∧ result = .response r) := by
  have hend : t ≤ deadline + g := h.before.trans (max_le (by linarith) (le_refl _))
  by_cases hcome : ∃ a r, first = some (a, r) ∧ a ≤ t
  · rcases hcome with ⟨a, r, hfirst, hle⟩
    exact ⟨(hlate a r hfirst).trans hle, hend, .inr ⟨a, r, hfirst, hle, (h.found a r hfirst hle).1⟩⟩
  · have hmissed := h.missed fun a r hfirst => by
      by_contra hnot
      exact hcome ⟨a, r, hfirst, not_lt.mp hnot⟩
    exact ⟨hmissed.2, hend, .inl hmissed.1⟩

end Agreement

/-- Both clients agree on `get_result` exactly if the timeout is positive, or a response is there
when the call is made. -/
theorem clients_agree_iff {now δ g : Rat} {delay : Nat → Rat} {fuel timeoutMs : Nat}
    {coming : Coming} {c : Connection} {d : AsyncConnection} (modelId : String)
    (halike : Alike parse now coming c d) (hpaced : Connection.Paced δ g delay)
    (hfuel : timeoutMs / 1000 ≤ fuel * δ) :
    let first := firstResponse parse modelId now (c.waiting parse modelId) coming
    Agrees first now (now + timeoutMs / 1000) g
        (c.recvForModel parse delay (fuel + 1) modelId timeoutMs now coming)
        (d.recvForModel parse modelId timeoutMs now coming) ↔
      0 < timeoutMs ∨ ∃ r, first = some (now, r) := by
  intro first
  have hg : 0 ≤ g := hpaced.pos.le.trans ((hpaced.low 0).trans (hpaced.high 0))
  have hdeadline : now ≤ now + (timeoutMs : Rat) / 1000 := le_add_of_nonneg_right (by positivity)
  have hnow : ∀ a r, first = some (a, r) → now ≤ a := fun a r => firstResponse_later halike.later
  rcases Connection.recvForModel_outcome modelId now halike.idle halike.parses halike.comingParses
    halike.sorted hpaced hfuel with ⟨result, t, hresult, houtcome⟩
  have hasync : d.recvForModel parse modelId timeoutMs now coming =
      AsyncConnection.answer (AsyncConnection.deadlineOf timeoutMs now) first := by
    have hwaiting : d.waiting parse modelId = c.waiting parse modelId := by
      simp only [AsyncConnection.waiting, Connection.waiting, halike.buffers, halike.sockets]
    rw [AsyncConnection.recvForModel_eq halike.asyncIdle (halike.sockets ▸ halike.parses)
      halike.comingParses halike.sorted halike.later, hwaiting]
  rw [hresult, hasync]
  constructor
  · intro hagrees
    by_contra hneither
    simp only [not_or, not_exists, not_lt, Nat.le_zero] at hneither
    rcases hneither with ⟨rfl, habsent⟩
    -- the call of the asynchronous client does not time out
    have hmissed := (hagrees.missed fun a r hfirst => ⟨?_, ?_⟩).2
    · exact AsyncConnection.answer_none _ hmissed
    · rintro rfl
      exact habsent r hfirst
    · simpa using hnow a r hfirst
  · intro hwhen
    refine ⟨fun a r hfirst hintime => ⟨?_, ?_⟩, fun hlate => ⟨?_, ?_⟩⟩
    · rcases houtcome.returns hg (hnow a r hfirst) hfirst hintime with ⟨rfl, hafter, hbefore⟩
      exact ⟨t, rfl, hafter, hbefore⟩
    · rw [hfirst]
      refine AsyncConnection.answer_of_lt r fun d hd => ?_
      rcases AsyncConnection.mem_deadlineOf hd with ⟨-, hd, hlt⟩
      rcases hintime with rfl | hbefore
      · exact hlt
      · exact hbefore.trans_eq hd.symm
    · rcases houtcome.ends hg hdeadline fun a r hfirst => (hlate a r hfirst).2 with
        ⟨hafter, hbefore, hending⟩
      exact ⟨result, t, rfl, hafter, hbefore, hending⟩
    · rcases hwhen with hpos | ⟨r, hpresent⟩
      · rw [AsyncConnection.deadlineOf, if_pos hpos]
        exact AsyncConnection.answer_of_le fun a r hfirst => (hlate a r hfirst).2
      · exact absurd rfl (hlate now r hpresent).1

/-- The telemetry is answered after 50 ms, and the policy after 75 ms. -/
def policyComing : Coming :=
  [(1 / 20, plainFrames (plainResponse "telemetry" "1")),
    (3 / 40, plainFrames (plainResponse "policy" "2"))]

def parsePolicy : Bytes → Except String ModelResponse :=
  parseAmong [plainResponse "telemetry" "1", plainResponse "policy" "2"]

theorem policyComing_alike : Alike parsePolicy 0 policyComing {} {} := by
  refine ⟨rfl, rfl, rfl, fun _ => rfl, by simp, ?_, by decide +kernel, by decide +kernel⟩
  intro m hm
  simp only [policyComing, List.mem_cons, List.not_mem_nil, or_false] at hm
  rcases hm with rfl | rfl
  · exact ⟨plainResponse "telemetry" "1", rfl⟩
  · exact ⟨plainResponse "policy" "2", rfl⟩

/-- With 100 ms to go, both clients return the answer of the policy. -/
theorem clients_agree_policy :
    Agrees (firstResponse parsePolicy "policy" 0 [] policyComing) 0 (0 + (100 : Nat) / 1000)
      (1 / 1000)
      (Connection.recvForModel parsePolicy (fun _ => 1 / 1000) 101 "policy" 100 0 policyComing {})
      (AsyncConnection.recvForModel parsePolicy "policy" 100 0 policyComing {}) :=
  (clients_agree_iff parsePolicy "policy" policyComing_alike
    ⟨by norm_num, fun _ => le_refl _, fun _ => le_refl _⟩ (by norm_num)).mpr (.inl (by decide))

/-- With no time to go, the synchronous client returns at once, and the asynchronous one returns
with the answer 75 ms later, or, if none comes, never. -/
theorem zero_timeout_waits :
    Connection.recvForModel parsePolicy (fun _ => 1 / 1000) 1 "policy" 0 0 policyComing {} =
        some (.timedOut, 0) ∧
      AsyncConnection.recvForModel parsePolicy "policy" 0 0 policyComing {} =
        some (.response (unpack (plainFrames (plainResponse "policy" "2"))), 3 / 40) ∧
      AsyncConnection.recvForModel parsePolicy "policy" 0 0 [] {} = none ∧
      ¬ Agrees (firstResponse parsePolicy "policy" 0 [] policyComing) 0 (0 + (0 : Nat) / 1000)
        (1 / 1000)
        (Connection.recvForModel parsePolicy (fun _ => 1 / 1000) 1 "policy" 0 0 policyComing {})
        (AsyncConnection.recvForModel parsePolicy "policy" 0 0 policyComing {}) := by
  have hwaited : AsyncConnection.recvForModel parsePolicy "policy" 0 0 policyComing {} =
      some (.response (unpack (plainFrames (plainResponse "policy" "2"))), 3 / 40) := by
    decide +kernel
  refine ⟨by decide +kernel, hwaited, by decide +kernel, fun h => ?_⟩
  have hfirst : firstResponse parsePolicy "policy" 0 [] policyComing =
      some (3 / 40, unpack (plainFrames (plainResponse "policy" "2"))) := by decide +kernel
  have hmissed := (h.missed fun a r hsome => ⟨?_, ?_⟩).2
  · rw [hwaited] at hmissed
    simp at hmissed
  · rw [hfirst] at hsome
    cases hsome
    norm_num
  · rw [hfirst] at hsome
    cases hsome
    norm_num

end Client
end Inferential
