import Inferential.Lifecycle.Request
import Inferential.Server.State
import Mathlib.Logic.Relation
import Mathlib.Tactic.Linarith

/-!
# Flow — where requests are, and how they move

An abstract view of the server: a roster of the places that requests are in, the history, and the
metrics.  A `Move` is the smallest change of this view; the moves keep the life cycle of every
request, and those that are not leaky keep the books balanced.
-/

namespace Inferential

open Lifecycle

variable {ν : Type}

/-! ## Places -/

inductive Stage
  /-- built, and not yet submitted -/
  | fresh
  | queued
  | taken
  | dispatching
  | returned (success : Bool)
  | responded
  deriving DecidableEq, Repr

structure Place where
  objId : Nat
  identity : Bytes
  retryCount : Nat
  stage : Stage
  deriving DecidableEq

def Place.life (p : Place) : LifeState :=
  match p.stage with
  | .fresh => .idle p.retryCount
  | .queued => .idle p.retryCount
  | .taken => .taken p.retryCount
  | .dispatching => .dispatching p.retryCount
  | .returned success => .returned p.retryCount success
  | .responded => .responded p.retryCount

def place (stage : Stage) (r : InferenceRequest ν) : Place where
  objId := r.objId
  identity := r.identity
  retryCount := r.retryCount
  stage := stage

/-! ## What events and metrics say -/

/-- The event as a part of the life of one object. -/
def Event.life : Event ν → Option (Nat × LifeEvent)
  | .accepted r => some (r.objId, .accepted)
  | .taken _ r => some (r.objId, .taken)
  | .dispatched objId => some (objId, .dispatched)
  | .returned objId success => some (objId, .returned success)
  | .requeued objId => some (objId, .requeued)
  | .responded objId _ => some (objId, .responded)
  | _ => none

def lives (history : List (Event ν)) : List (Nat × LifeEvent) := history.filterMap Event.life

/-- The observations that an event accepts. -/
def Event.arrived : Event ν → Nat
  | .accepted _ => 1
  | _ => 0

/-- The requests that an event ends: a response is sent, or a client is gone. -/
def Event.settled : Event ν → Nat
  | .sent _ => 1
  | .disconnected _ removed => removed
  | _ => 0

/-- The metrics that count lost requests. -/
def lossMetrics : List String :=
  ["queue_full_drops", "requests_expired", "dispatch_errors", "send_errors"]

def MetricPoint.lost (p : MetricPoint) : Rat := if p.name ∈ lossMetrics then p.value else 0

def MetricsCollector.lost (c : MetricsCollector) : Rat := (c.log.map MetricPoint.lost).sum

theorem MetricsCollector.lost_recordAll {c : MetricsCollector} (henabled : c.enabled = true)
    (points : List MetricPoint) :
    (c.recordAll points).lost = c.lost + (points.map MetricPoint.lost).sum := by
  induction points generalizing c with
  | nil => simp [recordAll]
  | cons p points ih =>
      have hrecord : (c.record p.name p.value p.labels).lost = c.lost + p.lost := by
        simp [record, henabled, lost]
      have hstep := ih (c := c.record p.name p.value p.labels) (by simpa using henabled)
      simp only [recordAll, List.foldl_cons, List.map_cons, List.sum_cons] at hstep ⊢
      rw [hstep, hrecord, add_assoc]

/-- The four loss metrics, summed one by one. -/
theorem MetricsCollector.lost_eq (c : MetricsCollector) :
    c.lost = c.sum "queue_full_drops" + c.sum "requests_expired" + c.sum "dispatch_errors" +
      c.sum "send_errors" := by
  unfold lost sum
  induction c.log with
  | nil => simp
  | cons p log ih =>
      simp only [List.map_cons, List.sum_cons, ih, List.filter_cons]
      simp only [MetricPoint.lost, lossMetrics, List.mem_cons, List.not_mem_nil, or_false]
      by_cases h₁ : p.name = "queue_full_drops"
      · simp [h₁]; ring
      by_cases h₂ : p.name = "requests_expired"
      · simp [h₂]; ring
      by_cases h₃ : p.name = "dispatch_errors"
      · simp [h₃]; ring
      by_cases h₄ : p.name = "send_errors"
      · simp [h₄]; ring
      · simp [h₁, h₂, h₃, h₄]

/-! ## Moves -/

structure FlowState (ν : Type) where
  roster : List Place
  history : List (Event ν)
  metrics : MetricsCollector
  nextObj : Nat

/-- A request goes one step of its life. -/
inductive Advance (maxRetries : Nat) : Place → Event ν → Place → Prop
  | taken {p : Place} {r : InferenceRequest ν} (owner : Owner) (hstage : p.stage = .queued)
      (hid : r.objId = p.objId) :
      Advance maxRetries p (.taken owner r) { p with stage := .taken }
  | dispatched {p : Place} (hstage : p.stage = .taken) :
      Advance maxRetries p (.dispatched p.objId) { p with stage := .dispatching }
  | returned {p : Place} (success : Bool) (hstage : p.stage = .dispatching) :
      Advance maxRetries p (.returned p.objId success) { p with stage := .returned success }
  | requeued {p : Place} (hstage : p.stage = .returned false) (hretry : p.retryCount < maxRetries) :
      Advance maxRetries p (.requeued p.objId)
        { p with stage := .queued, retryCount := p.retryCount + 1 }
  | responded {p : Place} (hstage : p.stage = .returned true) :
      Advance maxRetries p (.responded p.objId p.identity) { p with stage := .responded }

inductive Move (maxRetries : Nat) (leaky : Prop) : FlowState ν → FlowState ν → Prop
  | accept {v v' : FlowState ν} (r : InferenceRequest ν) (hid : r.objId = v.nextObj)
      (hretry : r.retryCount = 0) (hroster : v'.roster = place .fresh r :: v.roster)
      (hhistory : v'.history = v.history ++ [.accepted r]) (hmetrics : v'.metrics = v.metrics)
      (hnext : v'.nextObj = v.nextObj + 1) : Move maxRetries leaky v v'
  | enqueue {v v' : FlowState ν} (p : Place) (rest : List Place) (hstage : p.stage = .fresh)
      (hfrom : v.roster.Perm (p :: rest))
      (hto : v'.roster.Perm ({ p with stage := .queued } :: rest))
      (hhistory : v'.history = v.history) (hmetrics : v'.metrics = v.metrics)
      (hnext : v'.nextObj = v.nextObj) : Move maxRetries leaky v v'
  | advance {v v' : FlowState ν} (p p' : Place) (e : Event ν) (rest : List Place)
      (points : List MetricPoint) (hadvance : Advance maxRetries p e p')
      (hpoints : ∀ point ∈ points, point.lost = 0)
      (hfrom : v.roster.Perm (p :: rest)) (hto : v'.roster.Perm (p' :: rest))
      (hhistory : v'.history = v.history ++ [e])
      (hmetrics : v'.metrics = v.metrics.recordAll points)
      (hnext : v'.nextObj = v.nextObj) : Move maxRetries leaky v v'
  /-- Requests leave, and are counted. -/
  | leave {v v' : FlowState ν} (gone : List Place) (events : List (Event ν))
      (points : List MetricPoint) (hevents : ∀ e ∈ events, e.life = none)
      (hcount : ((events.map Event.settled).sum : Rat) + (points.map MetricPoint.lost).sum =
        gone.length)
      (hroster : v.roster.Perm (gone ++ v'.roster)) (hhistory : v'.history = v.history ++ events)
      (hmetrics : v'.metrics = v.metrics.recordAll points)
      (hnext : v'.nextObj = v.nextObj) : Move maxRetries leaky v v'
  /-- Requests leave without being counted. -/
  | lose {v v' : FlowState ν} (hleaky : leaky) (gone : List Place)
      (hroster : v.roster.Perm (gone ++ v'.roster)) (hhistory : v'.history = v.history)
      (hmetrics : v'.metrics = v.metrics)
      (hnext : v'.nextObj = v.nextObj) : Move maxRetries leaky v v'

/-- Any number of moves. -/
abbrev Flows (maxRetries : Nat) (leaky : Prop) : FlowState ν → FlowState ν → Prop :=
  Relation.ReflTransGen (Move maxRetries leaky)

namespace Flows

variable {maxRetries : Nat} {leaky : Prop} {v v' : FlowState ν}

/-- Nothing moves; what happens and what is recorded is not about requests. -/
theorem quiet (events : List (Event ν)) (points : List MetricPoint)
    (hevents : ∀ e ∈ events, e.life = none ∧ e.settled = 0)
    (hpoints : ∀ point ∈ points, point.lost = 0) (hroster : v.roster.Perm v'.roster)
    (hhistory : v'.history = v.history ++ events)
    (hmetrics : v'.metrics = v.metrics.recordAll points) (hnext : v'.nextObj = v.nextObj) :
    Flows maxRetries leaky v v' := by
  have hsettled : (events.map Event.settled).sum = 0 :=
    List.sum_eq_zero (by simpa using fun e he => (hevents e he).2)
  have hlost : (points.map MetricPoint.lost).sum = 0 := List.sum_eq_zero (by simpa using hpoints)
  exact .single (.leave [] events points (fun e he => (hevents e he).1)
    (by simp [hsettled, hlost]) hroster hhistory hmetrics hnext)

/-- All requests of a list go one step, one after the other. -/
theorem advanceAll {β : Type} (l : List β) (start stop : β → Place) (event : β → Event ν)
    (hadvance : ∀ b ∈ l, Advance maxRetries (start b) (event b) (stop b)) (rest : List Place)
    (hfrom : v.roster.Perm (l.map start ++ rest)) (hto : v'.roster.Perm (l.map stop ++ rest))
    (hhistory : v'.history = v.history ++ l.map event) (hmetrics : v'.metrics = v.metrics)
    (hnext : v'.nextObj = v.nextObj) : Flows maxRetries leaky v v' := by
  induction l generalizing v rest with
  | nil =>
      refine quiet [] [] (by simp) (by simp) ?_ hhistory hmetrics hnext
      exact hfrom.trans hto.symm
  | cons b l ih =>
      obtain ⟨hfirst, hrest⟩ := List.forall_mem_cons.mp hadvance
      -- the first request moves on, and stands with the rest from then on
      let next : FlowState ν :=
        { roster := stop b :: (l.map start ++ rest)
          history := v.history ++ [event b]
          metrics := v.metrics
          nextObj := v.nextObj }
      have hmove : Move maxRetries leaky v next :=
        .advance (start b) (stop b) (event b) (l.map start ++ rest) [] hfirst (by simp) hfrom
          (List.Perm.refl _) rfl rfl rfl
      refine Relation.ReflTransGen.head hmove (ih hrest (stop b :: rest) ?_ ?_ ?_ hmetrics hnext)
      · exact List.perm_middle.symm
      · exact hto.trans List.perm_middle.symm
      · simpa [next] using hhistory

end Flows

/-! ## Every request lives its life -/

theorem lives_append (history history' : List (Event ν)) :
    lives (history ++ history') = lives history ++ lives history' := List.filterMap_append

theorem lives_eq_nil {events : List (Event ν)} (h : ∀ e ∈ events, e.life = none) :
    lives events = [] := List.filterMap_eq_nil_iff.mpr h

/-- Places and responses go back to the request that was accepted. -/
structure Origins (v : FlowState ν) : Prop where
  placed : ∀ p ∈ v.roster, ∃ r, Event.accepted r ∈ v.history ∧ r.objId = p.objId ∧
    r.identity = p.identity
  responded : ∀ objId identity, Event.responded objId identity ∈ v.history →
    ∃ r, Event.accepted r ∈ v.history ∧ r.objId = objId ∧ r.identity = identity
  unique : ∀ r r', Event.accepted r ∈ v.history → Event.accepted r' ∈ v.history →
    r.objId = r'.objId → r = r'

/-- No request is accepted, no new place appears, and only placed requests are responded to. -/
theorem Origins.extend {v v' : FlowState ν} (h : Origins v) {events : List (Event ν)}
    (hhistory : v'.history = v.history ++ events) (hevents : ∀ e ∈ events, e.arrived = 0)
    (hroster : ∀ p' ∈ v'.roster, ∃ p ∈ v.roster, p.objId = p'.objId ∧ p.identity = p'.identity)
    (hresponded : ∀ objId identity, Event.responded objId identity ∈ events →
      ∃ p ∈ v.roster, p.objId = objId ∧ p.identity = identity) : Origins v' := by
  -- the new events accept nothing
  have haccepted : ∀ r, Event.accepted r ∈ v'.history ↔ Event.accepted r ∈ v.history := by
    intro r
    rw [hhistory, List.mem_append]
    exact or_iff_left fun hmem => absurd (hevents _ hmem) (by simp [Event.arrived])
  refine ⟨?_, ?_, ?_⟩
  · intro p' hp'
    obtain ⟨p, hp, hid, hidentity⟩ := hroster p' hp'
    obtain ⟨r, hr, hrid, hridentity⟩ := h.placed p hp
    exact ⟨r, (haccepted r).mpr hr, hrid.trans hid, hridentity.trans hidentity⟩
  · intro objId identity hmem
    rw [hhistory] at hmem
    rcases List.mem_append.mp hmem with hold | hnew
    · obtain ⟨r, hr, hid⟩ := h.responded objId identity hold
      exact ⟨r, (haccepted r).mpr hr, hid⟩
    · obtain ⟨p, hp, hid, hidentity⟩ := hresponded objId identity hnew
      obtain ⟨r, hr, hrid, hridentity⟩ := h.placed p hp
      exact ⟨r, (haccepted r).mpr hr, hrid.trans hid, hridentity.trans hidentity⟩
  · exact fun r r' hr hr' => h.unique r r' ((haccepted r).mp hr) ((haccepted r').mp hr')

/-- A request of a new id is accepted, and gets a place. -/
theorem Origins.accept {v v' : FlowState ν} (h : Origins v) {r : InferenceRequest ν}
    (hnew : ∀ r', Event.accepted r' ∈ v.history → r'.objId ≠ r.objId)
    (hroster : v'.roster = place .fresh r :: v.roster)
    (hhistory : v'.history = v.history ++ [.accepted r]) : Origins v' := by
  have hmem : ∀ e, e ∈ v'.history ↔ e ∈ v.history ∨ e = .accepted r := by
    intro e
    rw [hhistory, List.mem_append, List.mem_singleton]
  have hsplit : ∀ r', Event.accepted r' ∈ v'.history → Event.accepted r' ∈ v.history ∨ r' = r := by
    intro r' hr'
    exact ((hmem _).mp hr').imp_right fun heq => by simpa using heq
  refine ⟨?_, ?_, ?_⟩
  · intro p hp
    rw [hroster] at hp
    rcases List.mem_cons.mp hp with rfl | hp
    · exact ⟨r, (hmem _).mpr (Or.inr rfl), rfl, rfl⟩
    · obtain ⟨r', hr', hplace⟩ := h.placed p hp
      exact ⟨r', (hmem _).mpr (Or.inl hr'), hplace⟩
  · intro objId identity hresponded
    rcases (hmem _).mp hresponded with hold | hnone
    · obtain ⟨r', hr', hplace⟩ := h.responded objId identity hold
      exact ⟨r', (hmem _).mpr (Or.inl hr'), hplace⟩
    · cases hnone
  · intro r₁ r₂ hr₁ hr₂ heq
    rcases hsplit r₁ hr₁ with hr₁ | rfl <;> rcases hsplit r₂ hr₂ with hr₂ | rfl
    · exact h.unique r₁ r₂ hr₁ hr₂ heq
    · exact absurd heq (hnew r₁ hr₁)
    · exact absurd heq.symm (hnew r₂ hr₂)
    · rfl

structure Sound (maxRetries : Nat) (v : FlowState ν) : Prop extends Origins v where
  tracks : Tracks (requestLife maxRetries) (v.roster.map fun p => (p.objId, p.life))
    (lives v.history)
  fresh : ∀ e ∈ lives v.history, e.1 < v.nextObj

/-- What a step of a life says, whichever it is. -/
theorem Advance.life {maxRetries : Nat} {p p' : Place} {e : Event ν}
    (h : Advance maxRetries p e p') :
    p'.objId = p.objId ∧ p'.identity = p.identity ∧ e.arrived = 0 ∧ e.settled = 0 ∧
      (∀ objId identity, e = .responded objId identity → p.objId = objId ∧ p.identity = identity) ∧
      ∃ l, e.life = some (p.objId, l) ∧
        (requestLife maxRetries).next p.life l = some p'.life := by
  cases h with
  | taken owner hstage hid =>
      exact ⟨rfl, rfl, rfl, rfl, by simp, .taken, by simp [Event.life, hid],
        by simp [Place.life, requestLife, LifeState.next, hstage]⟩
  | dispatched hstage =>
      exact ⟨rfl, rfl, rfl, rfl, by simp, .dispatched, rfl,
        by simp [Place.life, requestLife, LifeState.next, hstage]⟩
  | returned success hstage =>
      exact ⟨rfl, rfl, rfl, rfl, by simp, .returned success, rfl,
        by simp [Place.life, requestLife, LifeState.next, hstage]⟩
  | requeued hstage hretry =>
      exact ⟨rfl, rfl, rfl, rfl, by simp, .requeued, rfl,
        by simp [Place.life, requestLife, LifeState.next, hstage, hretry]⟩
  | responded hstage =>
      refine ⟨rfl, rfl, rfl, rfl, ?_, .responded, rfl,
        by simp [Place.life, requestLife, LifeState.next, hstage]⟩
      rintro objId identity ⟨⟩
      exact ⟨rfl, rfl⟩

namespace Sound

variable {maxRetries : Nat} {v v' : FlowState ν}

theorem accept (h : Sound maxRetries v) {r : InferenceRequest ν} (hid : r.objId = v.nextObj)
    (hretry : r.retryCount = 0) (hroster : v'.roster = place .fresh r :: v.roster)
    (hhistory : v'.history = v.history ++ [.accepted r]) (hnext : v'.nextObj = v.nextObj + 1) :
    Sound maxRetries v' := by
  have hlives : lives v'.history = lives v.history ++ [(r.objId, .accepted)] := by
    rw [hhistory, lives_append]
    rfl
  -- ids are handed out in order, so no earlier object has this one
  have hold : ∀ r', Event.accepted r' ∈ v.history → r'.objId ≠ r.objId := by
    intro r' hr' heq
    have hlt := h.fresh (r'.objId, .accepted) (List.mem_filterMap.mpr ⟨_, hr', rfl⟩)
    simp only [heq, hid] at hlt
    exact lt_irrefl _ hlt
  refine ⟨h.toOrigins.accept hold hroster hhistory, ?_, ?_⟩
  · have hword : wordOf r.objId (lives v.history) = [] := by
      unfold wordOf
      rw [List.map_eq_nil_iff, List.filter_eq_nil_iff]
      intro e he heq
      have hlt := h.fresh e he
      rw [of_decide_eq_true heq, hid] at hlt
      exact lt_irrefl _ hlt
    -- an object in the roster was accepted, under another id
    have habsent : r.objId ∉ (v.roster.map fun p => (p.objId, p.life)).map Prod.fst := by
      rw [List.map_map, List.mem_map]
      rintro ⟨p, hp, heq⟩
      obtain ⟨r', hr', hrid, -⟩ := h.placed p hp
      exact hold r' hr' (hrid.trans heq)
    rw [hlives, hroster, List.map_cons]
    refine h.tracks.arrive hword habsent ?_
    simp [requestLife, LifeState.next, Place.life, place, hretry]
  · intro e he
    rw [hnext]
    rw [hlives, List.mem_append, List.mem_singleton] at he
    rcases he with he | rfl
    · exact (h.fresh e he).trans (Nat.lt_succ_self _)
    · exact hid ▸ Nat.lt_succ_self _

theorem advance (h : Sound maxRetries v) {p p' : Place} {e : Event ν} {rest : List Place}
    (hadvance : Advance maxRetries p e p') (hfrom : v.roster.Perm (p :: rest))
    (hto : v'.roster.Perm (p' :: rest)) (hhistory : v'.history = v.history ++ [e])
    (hnext : v'.nextObj = v.nextObj) : Sound maxRetries v' := by
  obtain ⟨hid, hidentity, harrived, -, hresponse, l, hlife, hstep⟩ := hadvance.life
  have hlives : lives v'.history = lives v.history ++ [(p.objId, l)] := by
    rw [hhistory, lives_append]
    simp [lives, hlife]
  have hp : p ∈ v.roster := hfrom.mem_iff.mpr List.mem_cons_self
  refine ⟨h.toOrigins.extend hhistory (by simpa using harrived) ?_ ?_, ?_, ?_⟩
  · intro q hq
    rcases List.mem_cons.mp (hto.mem_iff.mp hq) with rfl | hrest
    · exact ⟨p, hp, hid.symm, hidentity.symm⟩
    · exact ⟨q, hfrom.mem_iff.mpr (List.mem_cons_of_mem p hrest), rfl, rfl⟩
  · intro objId identity hmem
    exact ⟨p, hp, hresponse objId identity (List.mem_singleton.mp hmem).symm⟩
  -- on the lives, the step is one of the automaton
  · rw [hlives, ← hid]
    have hbefore := h.tracks.perm (hfrom.map fun q => (q.objId, q.life))
    have hafter := hbefore.advance hstep
    rw [← hid] at hafter
    have hmap := hto.map fun q : Place => (q.objId, q.life)
    exact hafter.perm hmap.symm
  · intro e' he'
    rw [hnext]
    rw [hlives, List.mem_append, List.mem_singleton] at he'
    rcases he' with he' | rfl
    · exact h.fresh e' he'
    · obtain ⟨r, hr, hrid, -⟩ := h.placed p hp
      have hlt := h.fresh (r.objId, .accepted) (List.mem_filterMap.mpr ⟨_, hr, rfl⟩)
      rwa [hrid] at hlt

/-- A place may change to another one of the same object in the same state of its life. -/
theorem relabel (h : Sound maxRetries v) {p p' : Place} {rest : List Place}
    (hfrom : v.roster.Perm (p :: rest)) (hto : v'.roster.Perm (p' :: rest))
    (hid : p'.objId = p.objId) (hidentity : p'.identity = p.identity) (hlife : p'.life = p.life)
    (hhistory : v'.history = v.history) (hnext : v'.nextObj = v.nextObj) :
    Sound maxRetries v' := by
  refine ⟨h.toOrigins.extend (hhistory.trans (List.append_nil _).symm) (by simp) ?_ (by simp), ?_,
    ?_⟩
  · intro q hq
    rcases List.mem_cons.mp (hto.mem_iff.mp hq) with rfl | hrest
    · exact ⟨p, hfrom.mem_iff.mpr List.mem_cons_self, hid.symm, hidentity.symm⟩
    · exact ⟨q, hfrom.mem_iff.mpr (List.mem_cons_of_mem p hrest), rfl, rfl⟩
  · rw [hhistory]
    have hbefore := h.tracks.perm (hfrom.map fun q => (q.objId, q.life))
    rw [List.map_cons, ← hid, ← hlife] at hbefore
    have hmap := hto.map fun q : Place => (q.objId, q.life)
    exact hbefore.perm hmap.symm
  · rw [hhistory, hnext]
    exact h.fresh

theorem leave (h : Sound maxRetries v) {gone : List Place} {events : List (Event ν)}
    (hevents : ∀ e ∈ events, e.life = none) (hroster : v.roster.Perm (gone ++ v'.roster))
    (hhistory : v'.history = v.history ++ events) (hnext : v'.nextObj = v.nextObj) :
    Sound maxRetries v' := by
  have hlives : lives v'.history = lives v.history := by
    rw [hhistory, lives_append, lives_eq_nil hevents, List.append_nil]
  -- events outside of a life accept nothing
  have hquiet : ∀ e ∈ events, e.arrived = 0 := by
    intro e he
    have hnone := hevents e he
    cases e <;> simp_all [Event.life, Event.arrived]
  refine ⟨h.toOrigins.extend hhistory hquiet ?_ ?_, ?_, ?_⟩
  · intro p hp
    exact ⟨p, hroster.mem_iff.mpr (List.mem_append_right gone hp), rfl, rfl⟩
  · intro objId identity hmem
    exact absurd (hevents _ hmem) (by simp [Event.life])
  · rw [hlives]
    have hmap := hroster.map fun p => (p.objId, p.life)
    rw [List.map_append] at hmap
    exact h.tracks.leave hmap
  · rw [hlives, hnext]
    exact h.fresh

end Sound

theorem Move.sound {maxRetries : Nat} {leaky : Prop} {v v' : FlowState ν}
    (h : Move maxRetries leaky v v') (hsound : Sound maxRetries v) : Sound maxRetries v' := by
  cases h with
  | accept r hid hretry hroster hhistory hmetrics hnext =>
      exact hsound.accept hid hretry hroster hhistory hnext
  | enqueue p rest hstage hfrom hto hhistory hmetrics hnext =>
      have hlife : Place.life { p with stage := .queued } = p.life := by simp [Place.life, hstage]
      exact hsound.relabel hfrom hto rfl rfl hlife hhistory hnext
  | advance p p' e rest points hadvance hpoints hfrom hto hhistory hmetrics hnext =>
      exact hsound.advance hadvance hfrom hto hhistory hnext
  | leave gone events points hevents hcount hroster hhistory hmetrics hnext =>
      exact hsound.leave hevents hroster hhistory hnext
  | lose hleaky gone hroster hhistory hmetrics hnext =>
      exact hsound.leave (by simp) hroster (hhistory.trans (List.append_nil _).symm) hnext

theorem Flows.sound {maxRetries : Nat} {leaky : Prop} {v v' : FlowState ν}
    (h : Flows maxRetries leaky v v') (hsound : Sound maxRetries v) : Sound maxRetries v' := by
  induction h with
  | refl => exact hsound
  | tail _ hmove ih => exact hmove.sound ih

/-! ## The books -/

/-- Every accepted observation is somewhere, or was settled by an event, or counted as lost. -/
structure Booked (v : FlowState ν) : Prop where
  enabled : v.metrics.enabled = true
  balance : ((v.history.map Event.arrived).sum : Rat) =
    v.roster.length + (v.history.map Event.settled).sum + v.metrics.lost

theorem Move.booked {maxRetries : Nat} {leaky : Prop} (hleaky : ¬ leaky) {v v' : FlowState ν}
    (h : Move maxRetries leaky v v') (hbooked : Booked v) : Booked v' := by
  obtain ⟨henabled, hbalance⟩ := hbooked
  cases h with
  | accept r hid hretry hroster hhistory hmetrics hnext =>
      refine ⟨hmetrics ▸ henabled, ?_⟩
      rw [hhistory, hroster, hmetrics]
      simp only [List.map_append, List.map_singleton, List.sum_append, List.sum_singleton,
        Event.arrived, Event.settled, List.length_cons]
      -- one more observation, at one more place
      simp only [Nat.cast_add, Nat.cast_one, Nat.cast_zero]
      linarith
  | enqueue p rest hstage hfrom hto hhistory hmetrics hnext =>
      have hlength : v'.roster.length = v.roster.length :=
        hto.length_eq.trans hfrom.length_eq.symm
      exact ⟨hmetrics ▸ henabled, by rw [hhistory, hmetrics, hlength, hbalance]⟩
  | advance p p' e rest points hadvance hpoints hfrom hto hhistory hmetrics hnext =>
      obtain ⟨-, -, harrived, hsettled, -⟩ := hadvance.life
      -- the roster keeps its length, the event settles nothing and the points count nothing
      have hlength : v'.roster.length = v.roster.length :=
        hto.length_eq.trans hfrom.length_eq.symm
      have hlost : (points.map MetricPoint.lost).sum = 0 :=
        List.sum_eq_zero (by simpa using hpoints)
      refine ⟨by simpa [hmetrics] using henabled, ?_⟩
      rw [hhistory, hmetrics, hlength, MetricsCollector.lost_recordAll henabled, hlost]
      simp only [List.map_append, List.map_singleton, List.sum_append, List.sum_singleton,
        harrived, hsettled]
      simp only [Nat.cast_add, Nat.cast_zero]
      linarith
  | leave gone events points hevents hcount hroster hhistory hmetrics hnext =>
      -- what leaves the roster is what the events and the points count
      have harrived : (events.map Event.arrived).sum = 0 := by
        refine List.sum_eq_zero fun n hn => ?_
        obtain ⟨e, he, rfl⟩ := List.mem_map.mp hn
        have hnone := hevents e he
        cases e <;> simp_all [Event.life, Event.arrived]
      have hlength : (v.roster.length : Rat) = gone.length + v'.roster.length := by
        rw [hroster.length_eq, List.length_append, Nat.cast_add]
      refine ⟨by simpa [hmetrics] using henabled, ?_⟩
      rw [hhistory, hmetrics, MetricsCollector.lost_recordAll henabled]
      simp only [List.map_append, List.sum_append, harrived]
      simp only [Nat.cast_add, Nat.cast_zero]
      linarith
  | lose hl => exact absurd hl hleaky

theorem Flows.booked {maxRetries : Nat} {leaky : Prop} (hleaky : ¬ leaky) {v v' : FlowState ν}
    (h : Flows maxRetries leaky v v') (hbooked : Booked v) : Booked v' := by
  induction h with
  | refl => exact hbooked
  | tail _ hmove ih => exact hmove.booked hleaky ih

end Inferential
