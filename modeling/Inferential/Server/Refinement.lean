import Inferential.Server.Roster

/-!
# Refinement — every step of the server is a flow of requests

One lemma for each step: seen through `view`, it is a sequence of moves, and it keeps `Wired`.
-/

namespace Inferential

open PyStd

variable {ν : Type} [Score ν]

namespace Server

section Steps

variable (config : InferentialConfig ν) (pb : Protobuf ν) {leaky : Prop} {s : Server ν}

/-- The retries that the configuration allows. -/
abbrev maxRetries (config : InferentialConfig ν) : Nat := config.scheduling.maxRetries

/-! ## Steps that leave the requests alone -/

/-- The scheduler holds the same requests, and nothing else of the view changes. -/
theorem roster_of_stored {s' : Server ν} (hstored : (stored s.scheduler).Perm (stored s'.scheduler))
    (hflights : s'.flights = s.flights) : s.roster.Perm s'.roster := by
  unfold roster
  rw [hflights]
  exact (hstored.map _).append_right _

theorem loops_flows {s' : Server ν} (h : ∃ loops, s' = { s with loops := loops })
    (hwired : Wired s) :
    Wired s' ∧ Flows (maxRetries config) leaky s.view s'.view := by
  obtain ⟨loops, rfl⟩ := h
  exact ⟨⟨hwired.scheduler, hwired.legacy, hwired.tasks⟩, .refl⟩

/-! ## Ticking and swapping -/

theorem checkClient_flows (now : Rat) (clientId : String) (hwired : Wired s) :
    Wired (s.checkClient config now clientId) ∧
      Flows (maxRetries config) leaky s.view (s.checkClient config now clientId).view := by
  unfold checkClient
  split
  · obtain ⟨hinv, -, hperm⟩ := AccountedScheduler.disconnected_spec clientId hwired.scheduler
    refine ⟨⟨hinv, hwired.legacy, hwired.tasks⟩, ?_⟩
    -- the requests of the silent client leave, and the event says how many
    have hsplit := (List.filter_append_perm (leaves s.scheduler clientId) (stored s.scheduler)).symm
    have hleft := hsplit.trans (hperm.symm.append_left _)
    have hlength := hleft.length_eq
    rw [List.length_append] at hlength
    refine .single (.leave (((stored s.scheduler).filter (leaves s.scheduler clientId)).map
      (place .queued)) [.disconnected clientId _] [⟨"client_disconnected", 1, [("client", clientId)]⟩]
      (by simp [Event.life]) ?_ ?_ rfl rfl rfl)
    · simp only [List.map_cons, List.map_nil, List.sum_cons, List.sum_nil, Event.settled,
        MetricPoint.lost, lossMetrics, List.length_map]
      rw [hlength]
      simp
    · have hmap := hleft.map (place .queued)
      rw [List.map_append] at hmap
      simpa [view, roster, flights, log, record, List.append_assoc] using
        hmap.append_right (places s.flights)
  · exact ⟨hwired, .refl⟩

theorem tick_flows (expiry : InferenceRequest ν → Rat) (now : String → Rat) (hwired : Wired s) :
    Wired (s.tick config expiry now) ∧
      Flows (maxRetries config) leaky s.view (s.tick config expiry now).view := by
  have hloop : ∀ (clientIds : List String) (s : Server ν), Wired s →
      Wired (clientIds.foldl (fun s clientId => s.checkClient config (now clientId) clientId) s) ∧
        Flows (maxRetries config) leaky s.view
          (clientIds.foldl (fun s clientId => s.checkClient config (now clientId) clientId) s).view := by
    intro clientIds
    induction clientIds with
    | nil => exact fun s hwired => ⟨hwired, .refl⟩
    | cons clientId clientIds ih =>
        intro s hwired
        obtain ⟨hwired', hflows⟩ := checkClient_flows config (now clientId) clientId hwired
        obtain ⟨hwired'', hflows'⟩ := ih _ hwired'
        exact ⟨hwired'', hflows.trans hflows'⟩
  obtain ⟨hinv, -, hperm, hcount⟩ := AccountedScheduler.tick_spec expiry hwired.scheduler
  have hsplit := (List.filter_append_perm
    (fun r => isExpired (expiry r) (AccountedScheduler.config s.scheduler).requestTtlMs r)
    (stored s.scheduler)).symm
  have hleft := (hsplit.trans (hperm.symm.append_left _)).map (place .queued)
  rw [List.map_append] at hleft
  -- the expired requests leave, counted by the metric when there are any
  have hexpire : ∀ points : List MetricPoint,
      (points.map MetricPoint.lost).sum = ((Scheduler.tick expiry s.scheduler).1 : Rat) →
      ∀ s' : Server ν, s'.scheduler = (Scheduler.tick expiry s.scheduler).2 →
        s'.flights = s.flights → s'.history = s.history →
        s'.metrics = s.metrics.recordAll points → s'.nextObj = s.nextObj →
          Flows (maxRetries config) leaky s.view s'.view := by
    intro points hpoints s' hscheduler hflights hhistory hmetrics hnext
    refine .single (.leave (((stored s.scheduler).filter fun r =>
      isExpired (expiry r) (AccountedScheduler.config s.scheduler).requestTtlMs r).map
        (place .queued)) [] points (by simp) ?_ ?_ (by simpa [view] using hhistory) hmetrics hnext)
    · rw [hpoints, hcount]
      simp
    · simp only [view, roster, hscheduler, hflights]
      rw [← List.append_assoc]
      exact hleft.append_right _
  unfold tick
  dsimp only
  split
  · next hzero =>
      let expired : Server ν := record "active_clients" s.clients.activeCount []
        { s with scheduler := (Scheduler.tick expiry s.scheduler).2 }
      have hfirst := hexpire [⟨"active_clients", s.clients.activeCount, []⟩]
        (by simp [hzero, MetricPoint.lost, lossMetrics]) expired rfl rfl rfl rfl rfl
      obtain ⟨hwired', hflows⟩ := hloop s.clients.clients.keys expired
        ⟨hinv, hwired.legacy, hwired.tasks⟩
      exact ⟨hwired', hfirst.trans hflows⟩
  · let expired : Server ν := record "active_clients" s.clients.activeCount []
      (record "requests_expired" (Scheduler.tick expiry s.scheduler).1 []
        { s with scheduler := (Scheduler.tick expiry s.scheduler).2 })
    have hfirst := hexpire [⟨"requests_expired", (Scheduler.tick expiry s.scheduler).1, []⟩,
      ⟨"active_clients", s.clients.activeCount, []⟩]
      (by simp [MetricPoint.lost, lossMetrics]) expired rfl rfl rfl rfl rfl
    obtain ⟨hwired', hflows⟩ := hloop s.clients.clients.keys expired
      ⟨hinv, hwired.legacy, hwired.tasks⟩
    exact ⟨hwired', hfirst.trans hflows⟩

theorem useScheduler_flows (hleaky : leaky) (registered : String → Bool) (strategy : String)
    (policy : Option String) (weights : Option (DeadlineAwareConfig ν)) (hwired : Wired s) :
    Wired (s.useScheduler config registered strategy policy weights).2 ∧
      Flows (maxRetries config) leaky s.view
        (s.useScheduler config registered strategy policy weights).2.view := by
  -- the new scheduler is empty, so what the old one held is lost
  have hfresh : ∀ scheduler : AnyScheduler ν, scheduler.Inv → scheduler.stored = [] →
      Wired { s with scheduler := scheduler } ∧
        Flows (maxRetries config) leaky s.view (view { s with scheduler := scheduler }) := by
    intro scheduler hinv hempty
    refine ⟨⟨hinv, hwired.legacy, hwired.tasks⟩, .single (.lose hleaky
      ((stored s.scheduler).map (place .queued)) ?_ rfl rfl rfl)⟩
    have hstored : stored scheduler = [] := hempty
    simp only [view, roster, hstored]
    exact List.Perm.refl _
  unfold useScheduler
  split
  · exact ⟨hwired, .refl⟩
  · next scheduler hcreate =>
      obtain ⟨hinv, hempty⟩ := AnyScheduler.createScheduler_fresh hcreate
      split
      · exact hfresh scheduler hinv hempty
      · split
        · exact hfresh scheduler hinv hempty
        · next hpolicy =>
            obtain ⟨hinv', hstored, -⟩ := AnyScheduler.usePolicy_spec hpolicy hinv
            exact hfresh _ hinv' (hstored.trans hempty)

/-! ## Receiving -/

omit [Score ν] in
theorem place_stage (stage : Stage) (r : InferenceRequest ν) :
    ({ place .fresh r with stage := stage } : Place) = place stage r := rfl

/-- Queueing overwrites nothing that a place shows. -/
theorem place_of_unstamped {queued r : InferenceRequest ν} (h : queued.unstamped = r.unstamped)
    (stage : Stage) : place stage queued = place stage r := by
  have hplace : place stage queued.unstamped = place stage r.unstamped := congrArg (place stage) h
  exact hplace

theorem track_flows (leaky : Prop) (msg : IncomingObservation) (decoded : DecodedObservation ν)
    (tracked : Rat) (hwired : Wired s) :
    let s' := s.track msg decoded tracked
    Wired s' ∧ Flows (maxRetries config) leaky s.view s'.view ∧
      (∀ m r, s'.scheduler.ScoreRaises m r ↔ s.scheduler.ScoreRaises m r) ∧
      s'.scheduler.config = s.scheduler.config ∧ (s'.scheduler.Full ↔ s.scheduler.Full) ∧
      s'.nextObj = s.nextObj := by
  intro s'
  obtain ⟨_, _, _, _, _, htrack⟩ := track_frame msg decoded tracked s
  have hflights : s'.flights = s.flights := (congrArg flights htrack).trans rfl
  have hlegacy : s'.legacy = s.legacy := (congrArg legacy htrack).trans rfl
  have htasks : s'.tasks = s.tasks := (congrArg tasks htrack).trans rfl
  have hnext : s'.nextObj = s.nextObj := (congrArg nextObj htrack).trans rfl
  have hpoints : ∀ point ∈ ([⟨"observation_staleness_ms", decoded.stalenessMs,
      [("client", decoded.clientId)]⟩, ⟨"payload_size_bytes", msg.payload.length,
      [("client", decoded.clientId)]⟩] : List MetricPoint), point.lost = 0 := by
    simp [MetricPoint.lost, lossMetrics]
  cases hnew : (s.clients.onObservation decoded.clientId decoded.modelId).1 with
  | false =>
      have hscheduler : s'.scheduler = s.scheduler := by simp [s', track, hnew, record]
      have hhistory : s'.history = s.history := by simp [s', track, hnew, record]
      refine ⟨⟨hscheduler ▸ hwired.scheduler, hlegacy ▸ hwired.legacy, htasks ▸ hwired.tasks⟩, ?_,
        by simp [hscheduler], by rw [hscheduler], by rw [hscheduler], hnext⟩
      refine .quiet [] _ (by simp) hpoints ?_ (by simp [view, hhistory]) ?_ hnext
      · exact roster_of_stored (List.Perm.of_eq (by rw [hscheduler])) hflights
      · simp only [view, s', track, hnew]
        rfl
  | true =>
      have hscheduler : s'.scheduler = Scheduler.onClientConnected decoded.clientId s.scheduler := by
        simp [s', track, hnew, record, log]
      have hhistory : s'.history = s.history ++ [.connected decoded.clientId] := by
        simp [s', track, hnew, record, log]
      obtain ⟨hinv, -, hperm⟩ :=
        AccountedScheduler.connected_spec decoded.clientId hwired.scheduler
      obtain ⟨hconfig, hfull⟩ := AnyScheduler.full_connected decoded.clientId hwired.scheduler
      rw [← hscheduler] at hinv hperm hconfig hfull
      refine ⟨⟨hinv, hlegacy ▸ hwired.legacy, htasks ▸ hwired.tasks⟩, ?_, ?_, hconfig, hfull, hnext⟩
      · refine .quiet [.connected decoded.clientId] _ (by simp [Event.life, Event.settled]) hpoints
          (roster_of_stored hperm.symm hflights) hhistory ?_ hnext
        simp only [view, s', track, hnew]
        rfl
      · intro m r
        rw [hscheduler]
        exact AnyScheduler.scoreRaises_connected m r decoded.clientId s.scheduler

/-- A stored request may be dropped for a fresh one, and that is a loss. -/
theorem dropped_flows {maxRetries : Nat} (fresh : Place) {dropped : Option (InferenceRequest ν)}
    {kept : List (InferenceRequest ν)}
    (hdrop : (stored s.scheduler).Perm (dropped.toList ++ kept)) (hlost : dropped ≠ none → leaky) :
    Flows maxRetries leaky { s.view with roster := fresh :: s.roster }
      { s.view with roster := fresh :: (kept.map (place .queued) ++ places s.flights) } := by
  have hroster := ((hdrop.map (place .queued)).append_right (places s.flights)).cons fresh
  cases dropped with
  | none => exact .quiet [] [] (by simp) (by simp) hroster (by simp [view]) rfl rfl
  | some oldest =>
      refine .single (.lose (hlost (by simp)) [place .queued oldest] ?_ rfl rfl rfl)
      exact hroster.trans (List.Perm.swap _ _ _)

/-- A fresh request is queued, refused or lost, possibly after another one was dropped for it. -/
theorem submitRequest_flows (m : Moment ν) (r : InferenceRequest ν)
    (hleaky : s.scheduler.Full ∧ s.scheduler.config.overflowPolicy = .dropOldest ∨
      ¬ s.scheduler.Full ∧ s.scheduler.ScoreRaises m r → leaky) (hwired : Wired s) :
    Wired (s.submitRequest config m r) ∧
      Flows (maxRetries config) leaky { s.view with roster := place .fresh r :: s.roster }
        (s.submitRequest config m r).view := by
  obtain ⟨hinv, -, kept, hdrop, haccept, hrefuse⟩ := submit_spec m r hwired.scheduler
  obtain ⟨hdropped, hraised⟩ := AnyScheduler.submit_losses m r hwired.scheduler
  have hwired' : Wired { s with scheduler := (Scheduler.submit m r s.scheduler).state } :=
    ⟨hinv, hwired.legacy, hwired.tasks⟩
  -- first a request may be dropped, then the new one is queued, refused or lost
  let evicted : FlowState ν :=
    { s.view with roster := place .fresh r :: (kept.map (place .queued) ++ places s.flights) }
  have hevict : Flows (maxRetries config) leaky
      { s.view with roster := place .fresh r :: s.roster } evicted :=
    dropped_flows (place .fresh r) hdrop fun hsome => hleaky (Or.inl (hdropped hsome))
  have hfresh : evicted.roster.Perm (place .fresh r :: (kept.map (place .queued) ++
      places s.flights)) := List.Perm.refl _
  unfold submitRequest
  dsimp only
  split
  -- the queue is full and refuses: counted by the metric
  · next hfull =>
      have hkept := hrefuse (by simp [hfull])
      refine ⟨⟨hinv, hwired.legacy, hwired.tasks⟩, hevict.tail (.leave [place .fresh r] []
        [⟨"queue_full_drops", 1, [("client", r.clientId)]⟩] (by simp) ?_ ?_ ?_ rfl rfl)⟩
      · simp [MetricPoint.lost, lossMetrics]
      · exact (((hkept.map (place .queued)).append_right (places s.flights)).symm).cons _
      · simp [evicted, view, record]
  -- any other exception: the request is lost
  · next e hother hsome =>
      have hkept := hrefuse (by simp [hsome])
      have hlost : leaky := by
        rcases hraised (by simp [hsome]) with hfull | hlossy
        · rw [hsome, Option.some.injEq] at hfull
          exact absurd hfull (hother _)
        · exact hleaky hlossy
      refine ⟨hwired', hevict.tail (.lose hlost [place .fresh r] ?_ rfl rfl rfl)⟩
      exact (((hkept.map (place .queued)).append_right (places s.flights)).symm).cons _
  · next hnone =>
      obtain ⟨queued, hunstamped, hperm⟩ := haccept hnone
      have henqueue : Flows (maxRetries config) leaky
          { s.view with roster := place .fresh r :: s.roster }
          (view { s with scheduler := (Scheduler.submit m r s.scheduler).state }) := by
        refine hevict.tail (.enqueue (place .fresh r) _ rfl hfresh ?_ rfl rfl rfl)
        rw [place_stage, ← place_of_unstamped hunstamped]
        exact (hperm.map (place .queued)).append_right (places s.flights)
      split
      · obtain ⟨_, _, hensure⟩ := ensureModelDispatch_frame config r.modelId
          { s with scheduler := (Scheduler.submit m r s.scheduler).state }
        obtain ⟨_, hset⟩ := setEvent_frame r.modelId (ensureModelDispatch config r.modelId
          { s with scheduler := (Scheduler.submit m r s.scheduler).state })
        rw [hset, hensure]
        exact ⟨⟨hinv, hwired.legacy, hwired.tasks⟩, henqueue⟩
      · exact ⟨hwired', henqueue⟩

theorem receive_flows (msg : IncomingObservation) (clock : ReceiveClock) (m : Moment ν)
    (hleaky : Leaky config pb s (.receive msg clock m) → leaky) (hwired : Wired s) :
    Wired (s.receive config pb msg clock m) ∧
      Flows (maxRetries config) leaky s.view (s.receive config pb msg clock m).view := by
  cases hdecode : decode pb clock.nowNs msg.envelope msg.payload msg.receivedAt with
  | error e =>
      have hrecord : Wired (s.record "observation_errors" 1 []) ∧
          Flows (maxRetries config) leaky s.view (s.record "observation_errors" 1 []).view :=
        ⟨⟨hwired.scheduler, hwired.legacy, hwired.tasks⟩, .quiet [] [⟨"observation_errors", 1, []⟩]
          (by simp) (by simp [MetricPoint.lost, lossMetrics]) (List.Perm.refl _)
          (by simp [view, record]) rfl rfl⟩
      rcases receive_rejected config pb clock hdecode m s with hreceive | hreceive
      · rw [hreceive]
        exact ⟨hwired, .refl⟩
      · rw [hreceive]
        exact hrecord
  | ok decoded =>
      obtain ⟨hwired₁, hflows₁, hscore, hconfig, hfull, hnext⟩ :=
        track_flows config leaky msg decoded clock.tracked hwired
      let r := s.requestOf config msg clock decoded
      let s₁ := s.track msg decoded clock.tracked
      -- the observation is tracked, then accepted, then submitted
      let s₂ := log [.accepted r] { s₁ with nextObj := s.nextObj + 1 }
      have haccept : Move (maxRetries config) leaky s₁.view
          { s₂.view with roster := place .fresh r :: s₂.roster } :=
        .accept r hnext.symm rfl rfl rfl rfl (congrArg (· + 1) hnext.symm)
      obtain ⟨hwired', hflows'⟩ := submitRequest_flows config (s := s₂) m r
        (fun hlossy => hleaky ⟨decoded, hdecode, by
          rw [← hfull, ← hconfig, ← hscore]
          exact hlossy⟩) ⟨hwired₁.scheduler, hwired₁.legacy, hwired₁.tasks⟩
      rw [receive_accepted config pb clock hdecode]
      exact ⟨hwired', (hflows₁.tail haccept).trans hflows'⟩

end Steps

end Server
end Inferential
