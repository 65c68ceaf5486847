import Inferential.Server.Overdue
import Inferential.Tracking.Convergence
import Mathlib.Data.List.Dedup

/-!
# Trackers — what the trackers remember of the observations

The client registry, the cadence tracker and the response tracker each keep their own record of the
accepted observations.  They agree about every client, but for the number of its requests: the
registry does not count the first one.
-/

namespace Inferential

open PyStd

/-- An accepted observation, and what `on_observation` returned for it. -/
structure Seen where
  clientId : String
  modelId : String
  isNew : Bool
  deriving DecidableEq

/-- The observations of one client. -/
def ofClient (clientId : String) (all : List Seen) : List Seen :=
  all.filter fun seen => seen.clientId = clientId

@[simp] theorem ofClient_nil (clientId : String) : ofClient clientId [] = [] := rfl

@[simp] theorem ofClient_concat_self (seen : Seen) (all : List Seen) :
    ofClient seen.clientId (all ++ [seen]) = ofClient seen.clientId all ++ [seen] := by
  simp [ofClient]

theorem ofClient_concat_other {clientId : String} {seen : Seen} (hne : clientId ≠ seen.clientId)
    (all : List Seen) : ofClient clientId (all ++ [seen]) = ofClient clientId all := by
  simp [ofClient, Ne.symm hne]

theorem ofClient_eq_nil {clientId : String} {all : List Seen} :
    ofClient clientId all = [] ↔ clientId ∉ all.map Seen.clientId := by
  simp [ofClient, List.filter_eq_nil_iff]

/-- `add` of a set that is kept as a list. -/
theorem mem_added {α : Type} [DecidableEq α] {x y : α} {l : List α} :
    y ∈ (if x ∈ l then l else l ++ [x]) ↔ y ∈ l ∨ y = x := by
  by_cases hmem : x ∈ l
  · simp only [hmem, if_true]
    constructor
    · exact Or.inl
    · rintro (hold | rfl)
      · exact hold
      · exact hmem
  · simp [hmem]

/-! ## The registry -/

/-- What the registry holds of a client with these observations. -/
structure Remembers (known : Option ClientState) (own : List Seen) : Prop where
  unknown : known = none ↔ own = []
  total : ∀ state, known = some state → state.totalRequests + 1 = own.length
  models : ∀ state, known = some state → ∀ modelId,
    modelId ∈ state.modelIds ↔ modelId ∈ own.map Seen.modelId
  isNew : own ≠ [] → own.map Seen.isNew = true :: List.replicate (own.length - 1) false

namespace Remembers

variable {own : List Seen} {seen : Seen}

theorem nil : Remembers none [] :=
  ⟨by simp, by simp, by simp, by simp⟩

/-- The first observation creates the state, which does not count it. -/
theorem first (h : Remembers none own) (clientId modelId : String) :
    Remembers (some { clientId := clientId, modelIds := [modelId] })
      (own ++ [⟨clientId, modelId, true⟩]) := by
  have hnil : own = [] := h.unknown.mp rfl
  subst hnil
  constructor
  · simp
  · rintro state ⟨⟩
    rfl
  · rintro state ⟨⟩ modelId
    simp
  · simp

theorem again {state : ClientState} (h : Remembers (some state) own) (hisNew : seen.isNew = false)
    (modelIds : List String)
    (hmodels : ∀ modelId, modelId ∈ modelIds ↔ modelId ∈ state.modelIds ∨ modelId = seen.modelId) :
    Remembers (some { state with totalRequests := state.totalRequests + 1, modelIds := modelIds })
      (own ++ [seen]) := by
  have hne : own ≠ [] := fun hnil => by
    have hnone := h.unknown.mpr hnil
    cases hnone
  have htotal := h.total state rfl
  constructor
  · simp
  · rintro state' ⟨⟩
    simp [htotal]
  · rintro state' ⟨⟩ modelId
    rw [hmodels, h.models state rfl modelId]
    simp
  · intro _
    -- the list of the results grows by one `False`
    rw [List.map_append, h.isNew hne, List.length_append, ← htotal]
    simp [hisNew, List.replicate_succ']

end Remembers

namespace ClientRegistry

/-- The registry after these observations. -/
def Follows (reg : ClientRegistry) (all : List Seen) : Prop :=
  ∀ clientId, Remembers (reg.clients.get? clientId) (ofClient clientId all)

variable {reg : ClientRegistry} {all : List Seen}

/-- The record of an observation touches the state of its client alone. -/
theorem Follows.record (h : reg.Follows all) {reg' : ClientRegistry} {seen : Seen}
    {state : ClientState} (hclients : reg'.clients = reg.clients.set seen.clientId state)
    (hself : Remembers (some state) (ofClient seen.clientId all ++ [seen])) :
    reg'.Follows (all ++ [seen]) := by
  intro clientId
  rw [hclients]
  by_cases hclient : clientId = seen.clientId
  · subst hclient
    rw [Dict.get?_set_self, ofClient_concat_self]
    exact hself
  · rw [Dict.get?_set_other _ _ hclient, ofClient_concat_other hclient]
    exact h clientId

theorem Follows.onObservation (h : reg.Follows all) (clientId modelId : String) :
    (reg.onObservation clientId modelId).2.Follows
      (all ++ [⟨clientId, modelId, (reg.onObservation clientId modelId).1⟩]) := by
  have hclient := h clientId
  cases hget : reg.clients.get? clientId with
  | none =>
      rw [hget] at hclient
      simp only [ClientRegistry.onObservation, hget]
      exact h.record rfl (hclient.first clientId modelId)
  | some state =>
      rw [hget] at hclient
      simp only [ClientRegistry.onObservation, hget]
      exact h.record rfl (hclient.again rfl _ fun _ => mem_added)

/-- As many clients as there are names among the observations. -/
theorem Follows.activeCount (h : reg.Follows all) :
    reg.activeCount = (all.map Seen.clientId).dedup.length := by
  have hperm : reg.clients.keys.Perm (all.map Seen.clientId).dedup := by
    apply (List.perm_ext_iff_of_nodup reg.clients.nodup (List.nodup_dedup _)).mpr
    intro clientId
    have hknown := not_congr ((h clientId).unknown.trans ofClient_eq_nil)
    rw [Dict.get?_eq_none, not_not, not_not] at hknown
    rw [List.mem_dedup]
    exact hknown
  simpa [ClientRegistry.activeCount, Dict.size, Dict.keys] using hperm.length_eq

end ClientRegistry

/-! ## The response tracker -/

theorem ResponseTracker.mem_connected (clientId requesting : String) (t : ResponseTracker) :
    clientId ∈ (t.onRequest requesting).connected ↔
      clientId ∈ t.connected ∨ clientId = requesting := by
  have hconnected : (t.onRequest requesting).connected =
      if requesting ∈ t.connected then t.connected else t.connected ++ [requesting] := by
    unfold onRequest
    dsimp only
    split
    · split <;> rfl
    · rfl
  rw [hconnected]
  exact mem_added

namespace Server

variable {ν : Type} [Score ν]

/-! ## The observations of a run -/

/-- The observation that a step accepts. -/
def seen (pb : Protobuf ν) (s : Server ν) : Action ν → List Seen
  | .receive msg clock _ =>
      match decode pb clock.nowNs msg.envelope msg.payload msg.receivedAt with
      | .error _ => []
      | .ok decoded =>
          [⟨decoded.clientId, decoded.modelId,
            (s.clients.onObservation decoded.clientId decoded.modelId).1⟩]
  | _ => []

section Runs

variable (config : InferentialConfig ν) (pb : Protobuf ν)

/-- The observations that a run accepts. -/
def seenAlong : Server ν → List (Action ν) → List Seen
  | _, [] => []
  | s, a :: actions => s.seen pb a ++ seenAlong (step config pb s a) actions

theorem legacyResult_connected (issuedAt now : Rat) (m : Moment ν) (s : Server ν) :
    (s.legacyResult config issuedAt now m).responses.connected = s.responses.connected := by
  unfold legacyResult
  split
  · rfl
  · split
    · rfl
    · split
      · dsimp only
        split <;> rfl
      · rfl
  · rfl

theorem taskResult_connected (i : Nat) (issuedAt now : Rat) (m : Moment ν) (s : Server ν) :
    (s.taskResult config i issuedAt now m).responses.connected = s.responses.connected := by
  unfold taskResult
  split
  · rfl
  · split
    · rfl
    · split
      · rfl
      · split
        · dsimp only
          split <;> rfl
        · rfl
    · rfl

/-- Other steps leave the set of the connected clients alone. -/
theorem step_connected (s : Server ν) {a : Action ν} (ha : ¬ a.IsReceive) :
    (step config pb s a).responses.connected = s.responses.connected := by
  cases a with
  | receive msg clock m => exact absurd trivial ha
  | tick expiry now =>
      rcases tick_frame config expiry now s with ⟨_, _, _, h⟩
      simp only [step, h]
  | predictiveWake now =>
      rcases predictiveWake_frame config now s with ⟨_, h⟩
      simp only [step, h]
  | useScheduler registered strategy policy weights =>
      rcases useScheduler_frame config registered strategy policy weights s with ⟨_, h⟩
      simp only [step, h]
  | legacyTop first clock dispatchTime =>
      rcases legacyTop_frame config first clock dispatchTime s with ⟨_, _, _, _, h⟩
      simp only [step, h]
  | legacyReturned result =>
      rcases legacyReturned_frame result s with ⟨_, _, h⟩
      simp only [step, h]
  | legacyResult issuedAt now m =>
      exact legacyResult_connected config issuedAt now m s
  | legacySent outcome =>
      rcases legacySent_frame outcome s with ⟨_, _, _, h⟩
      simp only [step, h]
  | loopAcquire i =>
      rcases loopAcquire_frame i s with ⟨_, h⟩
      simp only [step, h]
  | loopProceed i now =>
      rcases loopProceed_frame i now s with ⟨_, _, _, _, _, h⟩
      simp only [step, h]
  | loopResume i woken =>
      rcases loopResume_frame i woken s with ⟨_, h⟩
      simp only [step, h]
  | taskStart i =>
      rcases taskStart_frame i s with ⟨_, _, h⟩
      simp only [step, h]
  | taskReturned i result =>
      rcases taskReturned_frame i result s with ⟨_, _, _, h⟩
      simp only [step, h]
  | taskResult i issuedAt now m => exact taskResult_connected config i issuedAt now m s
  | taskSent i outcome =>
      rcases taskSent_frame i outcome s with ⟨_, _, _, _, h⟩
      simp only [step, h]

/-! ## What the trackers hold -/

/-- The three trackers after these observations. -/
structure Tracked (all : List Seen) (s : Server ν) : Prop where
  clients : s.clients.Follows all
  cadence : ∀ clientId, ∃ times, times.length = (ofClient clientId all).length ∧
    s.cadence.Follows clientId times
  connected : ∀ clientId, clientId ∈ s.responses.connected ↔ ofClient clientId all ≠ []

variable {config pb} {s s' : Server ν} {all : List Seen}

theorem Tracked.of_eq (h : Tracked all s) (hclients : s'.clients = s.clients)
    (hcadence : s'.cadence = s.cadence)
    (hconnected : s'.responses.connected = s.responses.connected) : Tracked all s' where
  clients := by
    rw [hclients]
    exact h.clients
  cadence clientId := by
    rw [hcadence]
    exact h.cadence clientId
  connected clientId := by
    rw [hconnected]
    exact h.connected clientId

theorem init_tracked (hinit : init config = .ok s) : Tracked [] s := by
  unfold init at hinit
  split at hinit
  · cases hinit
  · cases hinit
    constructor
    · exact fun clientId => Remembers.nil
    · exact fun clientId => ⟨[], rfl, CadenceTracker.Follows.init _ _ clientId⟩
    · simp

/-- An accepted observation reaches each of the trackers. -/
theorem receive_trackers (config : InferentialConfig ν) {msg : IncomingObservation}
    (clock : ReceiveClock) {decoded : DecodedObservation ν}
    (hdecode : decode pb clock.nowNs msg.envelope msg.payload msg.receivedAt = .ok decoded)
    (m : Moment ν) (s : Server ν) :
    let s' := s.receive config pb msg clock m
    s'.clients = (s.clients.onObservation decoded.clientId decoded.modelId).2 ∧
      s'.cadence = s.cadence.onRequest clock.tracked decoded.clientId ∧
      s'.responses = s.responses.onRequest decoded.clientId := by
  rcases receive_frame config pb clock hdecode m s with ⟨_, _, _, _, hreceive⟩
  simp only [hreceive, track]
  split <;> simp [log, record]

theorem Tracked.receive (h : Tracked all s) {msg : IncomingObservation} (clock : ReceiveClock)
    {decoded : DecodedObservation ν}
    (hdecode : decode pb clock.nowNs msg.envelope msg.payload msg.receivedAt = .ok decoded)
    (m : Moment ν) :
    Tracked (all ++ [⟨decoded.clientId, decoded.modelId,
      (s.clients.onObservation decoded.clientId decoded.modelId).1⟩])
      (s.receive config pb msg clock m) := by
  rcases receive_trackers config clock hdecode m s with ⟨hclients, hcadence, hresponses⟩
  constructor
  · rw [hclients]
    exact h.clients.onObservation decoded.clientId decoded.modelId
  · intro clientId
    rcases h.cadence clientId with ⟨times, hlength, hfollows⟩
    rw [hcadence]
    by_cases hclient : clientId = decoded.clientId
    · subst hclient
      refine ⟨times ++ [clock.tracked], ?_, hfollows.onRequest clock.tracked⟩
      simp [ofClient_concat_self ⟨decoded.clientId, _, _⟩, hlength]
    · refine ⟨times, ?_, hfollows.onRequest_other hclient clock.tracked⟩
      rw [ofClient_concat_other hclient, hlength]
  · intro clientId
    rw [hresponses, ResponseTracker.mem_connected, h.connected]
    by_cases hclient : clientId = decoded.clientId
    · subst hclient
      simp [ofClient]
    · rw [ofClient_concat_other hclient]
      simp [hclient]

theorem Tracked.step (h : Tracked all s) (a : Action ν) :
    Tracked (all ++ s.seen pb a) (Server.step config pb s a) := by
  by_cases ha : a.IsReceive
  · cases a with
    | receive msg clock m =>
        cases hdecode : decode pb clock.nowNs msg.envelope msg.payload msg.receivedAt with
        | error e =>
            -- a rejected observation reaches none of them
            simp only [seen, hdecode, List.append_nil]
            rcases receive_rejected_frame config pb clock hdecode m s with ⟨_, hreceive⟩
            apply h.of_eq
            · simp [Server.step, hreceive]
            · simp [Server.step, hreceive]
            · simp [Server.step, hreceive]
        | ok decoded =>
            simp only [seen, hdecode]
            exact h.receive clock hdecode m
    | _ => exact absurd ha id
  · rcases step_frame config pb s ha with ⟨_, _, _, _, _, _, _, hframe⟩
    have hnone : s.seen pb a = [] := by
      cases a with
      | receive msg clock m => exact absurd trivial ha
      | _ => rfl
    rw [hnone, List.append_nil]
    apply h.of_eq
    · simp [hframe]
    · simp [hframe]
    · exact step_connected config pb s ha

theorem Tracked.run (h : Tracked all s) (actions : List (Action ν)) :
    Tracked (all ++ seenAlong config pb s actions) (Server.run config pb s actions) := by
  induction actions generalizing s all with
  | nil => simpa [seenAlong, Server.run] using h
  | cons a actions ih =>
      rw [seenAlong, ← List.append_assoc]
      exact ih (h.step a)

/-! ## Agreement -/

/-- The trackers hold the history of the client, and the registry counts `total` requests. -/
structure TrackersAgree (all : List Seen) (total : Nat) (clientId : String) (s : Server ν) :
    Prop where
  registered : ∃ state, s.clients.clients.get? clientId = some state ∧
    state.totalRequests = total ∧
    ∀ modelId, modelId ∈ state.modelIds ↔ modelId ∈ (ofClient clientId all).map Seen.modelId
  isNew : (ofClient clientId all).map Seen.isNew =
    true :: List.replicate ((ofClient clientId all).length - 1) false
  sampleCount : s.cadence.sampleCount clientId = (ofClient clientId all).length - 1
  connected : clientId ∈ s.responses.connected
  activeCount : s.clients.activeCount = (all.map Seen.clientId).dedup.length

theorem Tracked.agree (h : Tracked all s) {clientId : String}
    (hsome : 1 ≤ (ofClient clientId all).length) :
    TrackersAgree all ((ofClient clientId all).length - 1) clientId s := by
  have hne : ofClient clientId all ≠ [] := List.length_pos_iff.mp hsome
  rcases h.cadence clientId with ⟨times, hlength, hfollows⟩
  have hremembers := h.clients clientId
  constructor
  · cases hget : s.clients.clients.get? clientId with
    | none => exact absurd (hremembers.unknown.mp hget) hne
    | some state =>
        refine ⟨state, rfl, ?_, hremembers.models state hget⟩
        have htotal := hremembers.total state hget
        omega
  · exact hremembers.isNew hne
  · rw [hfollows.counted, hlength]
  · exact (h.connected clientId).mpr hne
  · exact h.clients.activeCount

/-- The registry holds one number of requests. -/
theorem TrackersAgree.total_unique {clientId : String} {total total' : Nat}
    (h : TrackersAgree all total clientId s) (h' : TrackersAgree all total' clientId s) :
    total = total' := by
  rcases h.registered with ⟨state, hget, rfl, -⟩
  rcases h'.registered with ⟨state', hget', rfl, -⟩
  rw [hget] at hget'
  cases hget'
  rfl

theorem seenAlong_eq_nil {actions : List (Action ν)} :
    seenAlong config pb s actions = [] ↔ ∀ a ∈ actions, arrival pb a = none := by
  induction actions generalizing s with
  | nil => simp [seenAlong]
  | cons a actions ih =>
      have hseen : s.seen pb a = [] ↔ arrival pb a = none := by
        cases a with
        | receive msg clock m =>
            cases hdecode : decode pb clock.nowNs msg.envelope msg.payload msg.receivedAt with
            | error e => simp [seen, arrival, hdecode]
            | ok decoded => simp [seen, arrival, hdecode]
        | _ => simp [seen, arrival]
      rw [seenAlong, List.append_eq_nil_iff, hseen, ih, List.forall_mem_cons]

/-- After every run the trackers agree about every client, but the registry counts one request less
than the client has made: its count is right only while no observation is accepted. -/
theorem trackers_agree_iff (config : InferentialConfig ν) (pb : Protobuf ν) (s₀ : Server ν)
    (hinit : init config = .ok s₀) (actions : List (Action ν)) :
    let all := seenAlong config pb s₀ actions
    let s := Server.run config pb s₀ actions
    ((∀ clientId, 1 ≤ (ofClient clientId all).length →
        TrackersAgree all (ofClient clientId all).length clientId s) ↔
      ∀ a ∈ actions, arrival pb a = none) ∧
    ∀ clientId, 1 ≤ (ofClient clientId all).length →
      ¬ TrackersAgree all (ofClient clientId all).length clientId s ∧
        TrackersAgree all ((ofClient clientId all).length - 1) clientId s := by
  intro all s
  have htracked : Tracked all s := (init_tracked hinit).run actions
  have hcounted : ∀ clientId, 1 ≤ (ofClient clientId all).length →
      ¬ TrackersAgree all (ofClient clientId all).length clientId s := by
    intro clientId hsome hagree
    have htotal := hagree.total_unique (htracked.agree hsome)
    omega
  refine ⟨?_, fun clientId hsome => ⟨hcounted clientId hsome, htracked.agree hsome⟩⟩
  have hnil : all = [] ↔ ∀ a ∈ actions, arrival pb a = none := seenAlong_eq_nil
  rw [← hnil]
  constructor
  · intro hagree
    cases hall : all with
    | nil => rfl
    | cons first rest =>
        -- the client of the first observation is counted wrong
        have hfirst : 1 ≤ (ofClient first.clientId all).length := by
          rw [hall]
          simp [ofClient]
        exact absurd (hagree first.clientId hfirst) (hcounted first.clientId hfirst)
  · intro hall clientId hsome
    rw [hall] at hsome
    cases hsome

/-- After two observations of one robot the registry has counted one. -/
theorem trackers_agree_twice :
    let actions := [arriveAt 0 0, arriveAt 1 0]
    TrackersAgree (seenAlong plainConfig plainMessages plainServer actions) 1 "robot-01"
      (Server.run plainConfig plainMessages plainServer actions) :=
  ((trackers_agree_iff plainConfig plainMessages plainServer rfl
    [arriveAt 0 0, arriveAt 1 0]).2 "robot-01" (by decide +kernel)).2

/-- The first observation of a robot is accepted and not counted. -/
theorem first_observation_uncounted :
    let actions := [arriveAt 0 0]
    let all := seenAlong plainConfig plainMessages plainServer actions
    let s := Server.run plainConfig plainMessages plainServer actions
    init plainConfig = .ok plainServer ∧ all = [⟨"robot-01", "policy", true⟩] ∧
      s.clients.clients.get? "robot-01" =
        some { clientId := "robot-01", totalRequests := 0, modelIds := ["policy"] } ∧
      ¬ TrackersAgree all (ofClient "robot-01" all).length "robot-01" s := by
  intro actions all s
  have hget : s.clients.clients.get? "robot-01" =
      some { clientId := "robot-01", totalRequests := 0, modelIds := ["policy"] } := by
    decide +kernel
  have hall : all = [⟨"robot-01", "policy", true⟩] := by decide +kernel
  refine ⟨rfl, hall, hget, ?_⟩
  intro hagree
  rcases hagree.registered with ⟨state, hstate, htotal, -⟩
  rw [hget] at hstate
  cases hstate
  rw [hall] at htotal
  cases htotal

end Runs

end Server
end Inferential
