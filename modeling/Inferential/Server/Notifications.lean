import Inferential.Machine.Guarded
import Inferential.Server.Overdue
import Inferential.Server.Work
import Mathlib.Data.List.Chain
import Mathlib.Data.List.Dedup

/-!
# Notifications — what the scheduler is told about clients

The receive loop reports a client as connected when the registry does not know it; the tick loop
reports it as disconnected when the cadence tracker has not heard of it for too long.  Neither
records what the other has reported.
-/

namespace Inferential

open PyStd

variable {ν : Type} [Score ν]

/-! ## Notices -/

/-- `on_client_connected` or `on_client_disconnected` -/
inductive Notice
  | connected
  | disconnected
  deriving DecidableEq, Repr

/-- Strict alternation from `connected` on. -/
def Alternating (notices : List Notice) : Prop :=
  (∀ notice ∈ notices.head?, notice = .connected) ∧ notices.IsChain (· ≠ ·)

instance (notices : List Notice) : Decidable (Alternating notices) :=
  inferInstanceAs (Decidable (_ ∧ _))

/-- What an event tells about a client. -/
def Event.notice (clientId : String) : Event ν → Option Notice
  | .connected c => if c = clientId then some .connected else none
  | .disconnected c _ => if c = clientId then some .disconnected else none
  | _ => none

/-- The client that is reported as connected. -/
def Event.newcomer : Event ν → Option String
  | .connected c => some c
  | _ => none

omit [Score ν] in
theorem Event.IsWork.silent {e : Event ν} (h : e.IsWork) :
    e.newcomer = none ∧ ∀ clientId, e.notice clientId = none := by
  cases e with
  | connected c => exact absurd h id
  | disconnected c removed => exact absurd h id
  | _ => exact ⟨rfl, fun _ => rfl⟩

namespace Server

/-- The calls that the scheduler gets about a client, in order. -/
def notices (clientId : String) (s : Server ν) : List Notice :=
  s.history.filterMap (Event.notice clientId)

/-- The last call about the client was `on_client_connected`. -/
def Online (clientId : String) (s : Server ν) : Prop :=
  (s.notices clientId).getLast? = some .connected

instance (clientId : String) (s : Server ν) : Decidable (s.Online clientId) :=
  inferInstanceAs (Decidable (_ = _))

def newcomers (s : Server ν) : List String := s.history.filterMap Event.newcomer

/-- The clients whose last notification was `connected`. -/
def onlineClients (s : Server ν) : List String :=
  s.newcomers.dedup.filter fun clientId => s.Online clientId

theorem nodup_onlineClients (s : Server ν) : s.onlineClients.Nodup :=
  (List.nodup_dedup s.newcomers).filter _

/-- Only a reported client is online. -/
theorem mem_onlineClients {s : Server ν} {clientId : String} :
    clientId ∈ s.onlineClients ↔ s.Online clientId := by
  simp only [onlineClients, List.mem_filter, List.mem_dedup, decide_eq_true_eq,
    and_iff_right_iff_imp]
  intro honline
  have hmem : Notice.connected ∈ s.notices clientId := List.mem_of_getLast? honline
  rcases List.mem_filterMap.mp hmem with ⟨e, he, hnotice⟩
  apply List.mem_filterMap.mpr
  refine ⟨e, he, ?_⟩
  cases e with
  | connected c =>
      have hclient : c = clientId := by
        by_contra hne
        simp [Event.notice, hne] at hnotice
      simp [Event.newcomer, hclient]
  | disconnected c removed => simp [Event.notice] at hnotice
  | _ => simp [Event.notice] at hnotice

/-! ## The law -/

/-- The calls about every client alternate, and `active_clients` counts those that are online. -/
structure Notified (s : Server ν) : Prop where
  alternating : ∀ clientId, Alternating (s.notices clientId)
  counted : s.clients.activeCount = s.onlineClients.length

/-- A client that is heard is online afterwards; one that a tick finds silent is not. -/
structure Reported (config : InferentialConfig ν) (pb : Protobuf ν) (s : Server ν) (a : Action ν) :
    Prop where
  heard : ∀ clientId tracked, arrival pb a = some (clientId, tracked) →
    ((step config pb s a).notices clientId).getLast? = some .connected
  silent : ∀ expiry now, a = .tick expiry now → ∀ clientId ∈ s.clients.clients.keys,
    s.isSilent config (now clientId) clientId = true →
      ((step config pb s a).notices clientId).getLast? = some .disconnected

/-- The law holds in every state, and every step reports what it should. -/
def NotifiedRun (config : InferentialConfig ν) (pb : Protobuf ν) (s : Server ν)
    (actions : List (Action ν)) : Prop :=
  Machine.Throughout (step config pb) Notified s actions ∧
    Machine.Along (step config pb) (Reported config pb) s actions

/-- No tick finds a known client that has been silent for longer than `disconnect_timeout_s`. -/
def NoSilence (config : InferentialConfig ν) (s : Server ν) : Action ν → Prop
  | .tick _ now => ∀ clientId ∈ s.clients.clients.keys,
      s.isSilent config (now clientId) clientId = false
  | _ => True

instance (config : InferentialConfig ν) (s : Server ν) (a : Action ν) :
    Decidable (NoSilence config s a) :=
  match a with
  | .tick _ now => inferInstanceAs (Decidable (∀ clientId ∈ s.clients.clients.keys,
      s.isSilent config (now clientId) clientId = false))
  | .receive _ _ _ | .predictiveWake _ | .useScheduler _ _ _ _ | .legacyTop _ _ _
  | .legacyReturned _ | .legacyResult _ _ _ | .legacySent _ | .loopAcquire _ | .loopProceed _ _
  | .loopResume _ _ | .taskStart _ | .taskReturned _ _ | .taskResult _ _ _ _ | .taskSent _ _ =>
      isTrue trivial

/-! ## What the steps report -/

section Steps

variable (config : InferentialConfig ν) (pb : Protobuf ν)

theorem notices_work {s s' : Server ν} (events : List (Event ν))
    (hhistory : s'.history = s.history ++ events) (hwork : ∀ e ∈ events, e.IsWork)
    (clientId : String) : s'.notices clientId = s.notices clientId := by
  have hnil : events.filterMap (Event.notice clientId) = [] := by
    apply List.filterMap_eq_nil_iff.mpr
    intro e he
    exact (hwork e he).silent.2 clientId
  simp [notices, hhistory, hnil]

/-- Clients are reported by the receive loop and the tick loop alone. -/
theorem quiet_step (s : Server ν) {a : Action ν} (hreceive : ¬ a.IsReceive) (htick : ¬ a.IsTick) :
    (step config pb s a).clients = s.clients ∧
      ∀ clientId, (step config pb s a).notices clientId = s.notices clientId := by
  rcases step_logs config pb s hreceive htick with ⟨events, hhistory, hwork⟩
  rcases step_frame config pb s hreceive with ⟨_, _, _, _, _, _, _, hframe⟩
  refine ⟨?_, notices_work events hhistory hwork⟩
  simp [hframe]

/-! ### The receive loop -/

/-- The registry after an observation, and what is reported. -/
theorem receive_heard {msg : IncomingObservation} (clock : ReceiveClock)
    {decoded : DecodedObservation ν}
    (hdecode : decode pb clock.nowNs msg.envelope msg.payload msg.receivedAt = .ok decoded)
    (m : Moment ν) (s : Server ν) :
    (∀ clientId, clientId ∈ (s.receive config pb msg clock m).clients.clients.keys ↔
        clientId = decoded.clientId ∨ clientId ∈ s.clients.clients.keys) ∧
      ∀ clientId, (s.receive config pb msg clock m).notices clientId =
        s.notices clientId ++
          if clientId = decoded.clientId ∧ clientId ∉ s.clients.clients.keys then [.connected]
          else [] := by
  rcases receive_frame config pb clock hdecode m s with ⟨_, _, _, _, hreceive⟩
  simp only [hreceive, notices]
  -- whether the client is known decides the registry and the report
  cases hknown : s.clients.clients.get? decoded.clientId with
  | none =>
      have hfresh := Dict.get?_eq_none.mp hknown
      constructor
      · intro clientId
        simp only [track, ClientRegistry.onObservation, hknown, log, record, if_true]
        exact Dict.mem_keys_assign
      · intro clientId
        by_cases hclient : clientId = decoded.clientId
        · subst hclient
          simp [track, ClientRegistry.onObservation, hknown, log, record, Event.notice, hfresh]
        · simp [track, ClientRegistry.onObservation, hknown, log, record, Event.notice, hclient,
            Ne.symm hclient]
  | some state =>
      have hold : decoded.clientId ∈ s.clients.clients.keys := Dict.mem_keys.mpr ⟨state, hknown⟩
      constructor
      · intro clientId
        simp only [track, ClientRegistry.onObservation, hknown, log, record]
        exact Dict.mem_keys_assign
      · intro clientId
        have hnot : ¬ (clientId = decoded.clientId ∧ clientId ∉ s.clients.clients.keys) := by
          rintro ⟨rfl, hnew⟩
          exact hnew hold
        simp [track, ClientRegistry.onObservation, hknown, log, record, Event.notice, hnot]

/-! ### The tick loop -/

/-- A check reports the client if it is silent, and leaves the trackers alone. -/
theorem checkClient_notices (now : Rat) (checked : String) (s : Server ν) :
    ((s.checkClient config now checked).clients = s.clients ∧
      (s.checkClient config now checked).cadence = s.cadence) ∧
      ∀ clientId, (s.checkClient config now checked).notices clientId =
        s.notices clientId ++
          if clientId = checked ∧ s.isSilent config now checked = true then [.disconnected]
          else [] := by
  cases hsilent : s.isSilent config now checked with
  | false => simp [checkClient, hsilent]
  | true =>
      simp only [checkClient, hsilent, if_true, log, record, notices, List.filterMap_append,
        and_true, true_and]
      intro clientId
      by_cases hclient : clientId = checked
      · simp [Event.notice, hclient]
      · simp [Event.notice, hclient, Ne.symm hclient]

/-- A tick reports the clients that are silent. -/
theorem checkClients_notices (now : String → Rat) (checked : List String) (hnodup : checked.Nodup)
    (s : Server ν) (clientId : String) :
    (checked.foldl (fun s clientId => s.checkClient config (now clientId) clientId) s).notices
        clientId =
      s.notices clientId ++
        if clientId ∈ checked ∧ s.isSilent config (now clientId) clientId = true then
          [.disconnected]
        else [] := by
  induction checked generalizing s with
  | nil => simp
  | cons first checked ih =>
      rcases List.nodup_cons.mp hnodup with ⟨hfirst, hrest⟩
      rcases checkClient_notices config (now first) first s with ⟨⟨-, hcadence⟩, hnotices⟩
      -- the checks before a client do not change whether it is silent
      have hsilent : ∀ c, (s.checkClient config (now first) first).isSilent config (now c) c =
          s.isSilent config (now c) c := by
        intro c
        simp [isSilent, hcadence]
      simp only [List.foldl_cons, ih hrest, hnotices, hsilent, List.mem_cons]
      by_cases hclient : clientId = first
      · subst hclient
        simp [hfirst]
      · simp [hclient]

theorem tick_notices (expiry : InferenceRequest ν → Rat) (now : String → Rat) (s : Server ν) :
    (s.tick config expiry now).clients = s.clients ∧
      ∀ clientId, (s.tick config expiry now).notices clientId =
        s.notices clientId ++
          if clientId ∈ s.clients.clients.keys ∧
            s.isSilent config (now clientId) clientId = true then [.disconnected]
          else [] := by
  rcases tick_frame config expiry now s with ⟨_, _, _, hframe⟩
  refine ⟨by simp [hframe], ?_⟩
  intro clientId
  -- what the tick does before the checks reports nothing
  have hbefore : ∃ s' : Server ν, s.tick config expiry now = s.clients.clients.keys.foldl
      (fun s clientId => s.checkClient config (now clientId) clientId) s' ∧
        s'.history = s.history ∧ s'.cadence = s.cadence := by
    unfold tick
    dsimp only
    split
    · exact ⟨_, rfl, rfl, rfl⟩
    · exact ⟨_, rfl, rfl, rfl⟩
  rcases hbefore with ⟨s', htick, hhistory, hcadence⟩
  have hsilent : s'.isSilent config (now clientId) clientId =
      s.isSilent config (now clientId) clientId := by
    simp [isSilent, hcadence]
  have hnotices : s'.notices clientId = s.notices clientId := by
    simp [notices, hhistory]
  have hchecks := checkClients_notices config now s.clients.clients.keys
    s.clients.clients.nodup s' clientId
  simpa only [htick, hsilent, hnotices] using hchecks

end Steps

/-! ## Runs without silence -/

/-- Every known client has been reported once, as connected. -/
def ReportedOnce (s : Server ν) : Prop :=
  ∀ clientId, s.notices clientId =
    if clientId ∈ s.clients.clients.keys then [.connected] else []

theorem init_reportedOnce {config : InferentialConfig ν} {s : Server ν}
    (hinit : init config = .ok s) : ReportedOnce s := by
  unfold init at hinit
  split at hinit
  · cases hinit
  · cases hinit
    intro clientId
    simp [notices, Dict.keys, Dict.empty]

namespace ReportedOnce

variable {config : InferentialConfig ν} {pb : Protobuf ν} {s : Server ν} {a : Action ν}

theorem online_iff (h : ReportedOnce s) (clientId : String) :
    s.Online clientId ↔ clientId ∈ s.clients.clients.keys := by
  by_cases hknown : clientId ∈ s.clients.clients.keys
  · simp [Online, h clientId, hknown]
  · simp [Online, h clientId, hknown]

theorem notified (h : ReportedOnce s) : Notified s where
  alternating := by
    intro clientId
    by_cases hknown : clientId ∈ s.clients.clients.keys
    · simp [Alternating, h clientId, hknown]
    · simp [Alternating, h clientId, hknown]
  counted := by
    -- the known clients and those that are online are the same
    have hperm : s.onlineClients.Perm s.clients.clients.keys := by
      apply (List.perm_ext_iff_of_nodup s.nodup_onlineClients s.clients.clients.nodup).mpr
      intro clientId
      exact mem_onlineClients.trans (h.online_iff clientId)
    simpa [ClientRegistry.activeCount, Dict.size, Dict.keys] using hperm.length_eq.symm

/-- The notices after a tick. -/
theorem tick (h : ReportedOnce s) (expiry : InferenceRequest ν → Rat) (now : String → Rat)
    (clientId : String) :
    (s.tick config expiry now).notices clientId =
      (if clientId ∈ s.clients.clients.keys then [.connected] else []) ++
        if clientId ∈ s.clients.clients.keys ∧
          s.isSilent config (now clientId) clientId = true then [.disconnected]
        else [] := by
  simp only [(tick_notices config expiry now s).2 clientId, h clientId]

theorem receive (h : ReportedOnce s) (msg : IncomingObservation) (clock : ReceiveClock)
    (m : Moment ν) : ReportedOnce (s.receive config pb msg clock m) := by
  intro clientId
  cases hdecode : decode pb clock.nowNs msg.envelope msg.payload msg.receivedAt with
  | error e =>
      rcases receive_rejected_frame config pb clock hdecode m s with ⟨_, hreceive⟩
      simpa only [notices, hreceive] using h clientId
  | ok decoded =>
      rcases receive_heard config pb clock hdecode m s with ⟨hkeys, hnotices⟩
      by_cases hknown : clientId ∈ s.clients.clients.keys
      · simp [hnotices, hkeys, h clientId, hknown]
      · simp [hnotices, hkeys, h clientId, hknown]

theorem step (h : ReportedOnce s) (hquiet : NoSilence config s a) :
    ReportedOnce (step config pb s a) := by
  by_cases hreceive : a.IsReceive
  · cases a with
    | receive msg clock m => exact h.receive msg clock m
    | _ => exact absurd hreceive id
  · by_cases htick : a.IsTick
    · cases a with
      | tick expiry now =>
          intro clientId
          have hnone : ¬ (clientId ∈ s.clients.clients.keys ∧
              s.isSilent config (now clientId) clientId = true) := by
            rintro ⟨hknown, hsilent⟩
            simp [hquiet clientId hknown] at hsilent
          simp only [Server.step, h.tick, (tick_notices config expiry now s).1, hnone, if_false,
            List.append_nil]
      | _ => exact absurd htick id
    · rcases quiet_step config pb s hreceive htick with ⟨hclients, hnotices⟩
      intro clientId
      simpa only [hclients, hnotices] using h clientId

theorem reported (h : ReportedOnce s) (hquiet : NoSilence config s a) : Reported config pb s a where
  heard := by
    intro clientId tracked harrival
    cases a with
    | receive msg clock m =>
        simp only [arrival] at harrival
        split at harrival
        · cases harrival
        · next decoded hdecode =>
            cases harrival
            have hkeys := (receive_heard config pb clock hdecode m s).1 decoded.clientId
            have hknown := hkeys.mpr (Or.inl rfl)
            simp only [Server.step]
            rw [h.receive msg clock m decoded.clientId, if_pos hknown]
            rfl
    | _ => cases harrival
  silent := by
    rintro expiry now rfl clientId hknown hsilent
    simp [hquiet clientId hknown] at hsilent

/-- A tick that finds a silent client leaves it among the active ones. -/
theorem silenced (h : ReportedOnce s) (hloud : ¬ NoSilence config s a) :
    ¬ Notified (Server.step config pb s a) := by
  intro hnotified
  cases a with
  | tick expiry now =>
      simp only [NoSilence, not_forall, Bool.not_eq_false] at hloud
      rcases hloud with ⟨gone, hgone, hsilent⟩
      have hclients : (Server.step config pb s (.tick expiry now)).clients = s.clients :=
        (tick_notices config expiry now s).1
      -- the clients that are still online are known, and are not the one that is gone
      have hsubset : (Server.step config pb s (.tick expiry now)).onlineClients ⊆
          s.clients.clients.keys.erase gone := by
        intro clientId honline
        have hlast : ((s.tick config expiry now).notices clientId).getLast? = some .connected :=
          mem_onlineClients.mp honline
        apply (List.Nodup.mem_erase_iff s.clients.clients.nodup).mpr
        rw [h.tick] at hlast
        constructor
        · rintro rfl
          simp [hgone, hsilent] at hlast
        · show clientId ∈ s.clients.clients.keys
          by_contra hunknown
          simp [hunknown] at hlast
      have hle := (List.subperm_of_subset (nodup_onlineClients _) hsubset).length_le
      have hcounted : s.clients.clients.keys.length =
          (Server.step config pb s (.tick expiry now)).onlineClients.length := by
        simpa only [hclients, ClientRegistry.activeCount, Dict.size, Dict.keys, List.length_map]
          using hnotified.counted
      have hpos : 0 < s.clients.clients.keys.length := List.length_pos_of_mem hgone
      simp only [List.length_erase_of_mem hgone] at hle
      omega
  | _ => exact hloud trivial

end ReportedOnce

/-- Up to the first silence every known client is reported once. -/
theorem noSilence_guards (config : InferentialConfig ν) (pb : Protobuf ν) :
    Machine.Guards (step config pb) ReportedOnce (NoSilence config)
      fun s a => Notified (step config pb s a) ∧ Reported config pb s a where
  keeps h hquiet := h.step hquiet
  holds h hquiet := ⟨(h.step hquiet).notified, h.reported hquiet⟩
  needs := by
    rintro s a h ⟨hnotified, -⟩
    by_contra hloud
    exact h.silenced hloud hnotified

/-- The calls alternate and the active clients are counted along a run exactly when no tick of the
run finds a known client silent. -/
theorem notified_iff (config : InferentialConfig ν) (pb : Protobuf ν) (s₀ : Server ν)
    (actions : List (Action ν)) (hinit : init config = .ok s₀) :
    NotifiedRun config pb s₀ actions ↔
      Machine.Along (step config pb) (NoSilence config) s₀ actions := by
  have honce := init_reportedOnce hinit
  simp only [NotifiedRun, Machine.throughout_iff, honce.notified, true_and,
    ← Machine.along_and]
  exact (noSilence_guards config pb).along_iff honce

/-! ### A client that leaves -/

/-- The clock readings of a tick. -/
def tickAt (t : Rat) : Action Rat := .tick (fun _ => t) fun _ => t

/-- A robot that is heard in time is reported once. -/
theorem heard_notified : NotifiedRun plainConfig plainMessages plainServer [arriveAt 0 0, tickAt 1] :=
  (notified_iff plainConfig plainMessages plainServer [arriveAt 0 0, tickAt 1] rfl).mpr
    ⟨trivial, by decide +kernel, trivial⟩

/-- A robot falls silent: the next two ticks report it both, and it stays active. -/
theorem silent_not_notified :
    let actions := [arriveAt 0 0, tickAt 100, tickAt 101]
    let s := run plainConfig plainMessages plainServer actions
    init plainConfig = .ok plainServer ∧
      s.notices "robot-01" = [.connected, .disconnected, .disconnected] ∧
      ¬ Alternating (s.notices "robot-01") ∧ s.clients.activeCount = 1 ∧ s.onlineClients = [] ∧
      ¬ NotifiedRun plainConfig plainMessages plainServer actions := by
  intro actions s
  have hcount : s.clients.activeCount = 1 := by decide +kernel
  have honline : s.onlineClients = [] := by decide +kernel
  refine ⟨rfl, by decide +kernel, by decide +kernel, hcount, honline, ?_⟩
  rintro ⟨⟨-, -, -, hnotified⟩, -⟩
  have hcounted : s.clients.activeCount = s.onlineClients.length := hnotified.counted
  simp [hcount, honline] at hcounted

end Server
end Inferential
