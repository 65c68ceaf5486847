import Inferential.Machine.Observers
import Inferential.Metrics.Store

/-!
# Callbacks — what the users of the metrics are told

`CallbackRegistry` beside the series: a recorded point is stored and then shown to every callback.
A callback that records a metric itself is not modelled; it may register others.
-/

namespace Inferential.Metrics

open Machine PyStd

variable {Cb : Type}

/-! ## Queries -/

/-- The last point that has the labels. -/
def MetricSeries.getLatest (labels : Option (Dict String String)) (s : MetricSeries Rat Rat) :
    Option Rat :=
  (s.buffer.reverse.find? fun p => labels.all fun labels => labelsMatch p.labels labels).map
    MetricPoint.value

namespace MetricsCollector

def getLatest (name : String) (labels : Option (Dict String String))
    (c : MetricsCollector Rat Rat) : Option Rat :=
  match c.series.get? name with
  | none => none
  | some series => series.getLatest labels

/-- `MetricSnapshot.metrics` -/
def snapshot (c : MetricsCollector Rat Rat) : Dict String (List (MetricPoint Rat Rat)) :=
  c.series.mapValues MetricSeries.buffer

end MetricsCollector

/-! ## Callbacks -/

/-- What a callback is called with. -/
structure Metric where
  name : String
  value : Rat
  labels : Dict String String

/-- The collector with its registry; `fired` is what was shown, and to whom. -/
structure Monitor (Cb : Type) where
  collector : MetricsCollector Rat Rat
  callbacks : List Cb := []
  fired : List (Metric × List Cb) := []

namespace Monitor

def init (config : Option MetricsConfig) : Monitor Cb where
  collector := .init config

/-- `on_metric` -/
def onMetric (callback : Cb) (m : Monitor Cb) : Monitor Cb :=
  { m with callbacks := m.callbacks ++ [callback] }

/-- `CallbackRegistry.fire`; what a callback raises is dropped. -/
def fire (metric : Metric) (reactions : List (List Cb)) (m : Monitor Cb) : Monitor Cb :=
  let called := notify m.callbacks reactions
  { m with
    callbacks := called
    fired := m.fired ++ [(metric, called)] }

/-- `record` -/
def record (call : RecordCall Rat Rat) (reactions : List (List Cb)) (m : Monitor Cb) : Monitor Cb :=
  if m.collector.enabled then
    fire ⟨call.name, call.value, call.labels.getD .empty⟩ reactions
      { m with collector := m.collector.record call.now call.name call.value call.labels }
  else m

end Monitor

inductive MetricAction (Cb : Type)
  | onMetric (callback : Cb)
  /-- `reactions` are what the callbacks register while they are called. -/
  | record (call : RecordCall Rat Rat) (reactions : List (List Cb))

def MetricAction.apply (m : Monitor Cb) : MetricAction Cb → Monitor Cb
  | .onMetric callback => m.onMetric callback
  | .record call reactions => m.record call reactions

def MetricAction.call : MetricAction Cb → Option (RecordCall Rat Rat)
  | .onMetric _ => none
  | .record call _ => some call

def monitorRun (config : Option MetricsConfig) (actions : List (MetricAction Cb)) : Monitor Cb :=
  actions.foldl MetricAction.apply (.init config)

/-! ## What was recorded -/

/-- The calls of `record` that count: none where the metrics are disabled. -/
def recorded (config : Option MetricsConfig) (actions : List (MetricAction Cb)) :
    List (RecordCall Rat Rat) :=
  if (@MetricsCollector.init Rat Rat config).enabled then actions.filterMap MetricAction.call
  else []

def RecordCall.metric (call : RecordCall Rat Rat) : Metric :=
  ⟨call.name, call.value, call.labels.getD .empty⟩

def Metric.logged (m : Metric) : Inferential.MetricPoint := ⟨m.name, m.value, m.labels.items⟩

/-- The last of the points that has the labels, in the order in which they were recorded. -/
def IsLatest (labels : Option (Dict String String)) (points : List (MetricPoint Rat Rat))
    (v : Rat) : Prop :=
  ∃ before p after, points = before ++ p :: after ∧ p.value = v ∧
    (labels.all fun labels => labelsMatch p.labels labels) = true ∧
    ∀ q ∈ after, (labels.all fun labels => labelsMatch q.labels labels) = false

/-- What a monitor tells after a run. -/
structure Tells (config : Option MetricsConfig) (actions : List (MetricAction Cb))
    (m : Monitor Cb) : Prop where
  /-- The names of a snapshot are in the order of their first points. -/
  names : m.collector.snapshot.keys = ((recorded config actions).map RecordCall.name).eraseDups
  points : ∀ name ∈ m.collector.snapshot.keys, m.collector.snapshot.get? name =
    some ((pointsOf name (recorded config actions)).rtake
      (@MetricsCollector.init Rat Rat config).ringBufferSize)
  latest : ∀ name labels v, m.collector.getLatest name labels = some v ↔
    IsLatest labels ((pointsOf name (recorded config actions)).rtake
      (@MetricsCollector.init Rat Rat config).ringBufferSize) v
  /-- The callbacks are shown all that is recorded. -/
  shows : m.fired.map Prod.fst = (recorded config actions).map RecordCall.metric
  /-- It is what the log of a server's metrics holds. -/
  logs : ∀ c, config = some c → m.fired.map (fun entry => entry.1.logged) =
    ((Inferential.MetricsCollector.init c).recordAll
      ((actions.filterMap MetricAction.call).map RecordCall.logged)).log
  keeps : ∀ before after, actions = before ++ after →
    (monitorRun config before).callbacks <+: m.callbacks
  /-- A callback sees all that is recorded from the step on with which it is registered. -/
  tells : ∀ before a after, actions = before ++ a :: after → ∀ p,
    (monitorRun config before).callbacks.length ≤ p →
      p < (monitorRun config (before ++ [a])).callbacks.length →
        seenBy p m.fired = (recorded config (a :: after)).map RecordCall.metric

/-! ## The series -/

theorem MetricSeries.getLatest_iff (labels : Option (Dict String String)) (s : MetricSeries Rat Rat)
    (v : Rat) : s.getLatest labels = some v ↔ IsLatest labels s.buffer v := by
  unfold MetricSeries.getLatest IsLatest
  rw [Option.map_eq_some_iff]
  constructor
  · rintro ⟨p, hfind, rfl⟩
    rcases List.find?_eq_some_iff_append.mp hfind with ⟨hp, after, before, hsplit, hafter⟩
    refine ⟨before.reverse, p, after.reverse, ?_, rfl, hp, fun q hq => ?_⟩
    · have hbuffer := congrArg List.reverse hsplit
      simpa using hbuffer
    · simpa using hafter q (List.mem_reverse.mp hq)
  · rintro ⟨before, p, after, hsplit, rfl, hp, hafter⟩
    refine ⟨p, ?_, rfl⟩
    apply List.find?_eq_some_iff_append.mpr
    refine ⟨hp, after.reverse, before.reverse, by simp [hsplit], fun q hq => ?_⟩
    simpa using hafter q (List.mem_reverse.mp hq)

/-- The series are in the order of their first points. -/
theorem recordAll_keys (maxSize : Nat) (calls : List (RecordCall Rat Rat)) :
    (MetricsCollector.recordAll calls { ringBufferSize := maxSize }).series.keys =
      (calls.map RecordCall.name).eraseDups := by
  induction calls using List.reverseRecOn with
  | nil => rfl
  | append_singleton calls call ih =>
      rcases recordAll_keeps maxSize calls with ⟨-, henabled, -⟩
      unfold MetricsCollector.recordAll at ih henabled ⊢
      rw [List.foldl_append, List.foldl_cons, List.foldl_nil, MetricsCollector.record,
        if_pos henabled, Dict.keys_set, ih, List.map_append, List.eraseDups_append]
      by_cases hmem : call.name ∈ calls.map RecordCall.name
      · have hnone : [call.name].removeAll (calls.map RecordCall.name) = [] := by
          simpa [List.removeAll] using hmem
        simp [hmem, hnone]
      · have hone : [call.name].removeAll (calls.map RecordCall.name) = [call.name] := by
          simpa [List.removeAll] using hmem
        simp [hmem, hone, List.eraseDups_cons]

/-! ## Runs -/

@[simp] theorem record_enabled (call : RecordCall Rat Rat) (c : MetricsCollector Rat Rat) :
    (c.record call.now call.name call.value call.labels).enabled = c.enabled := by
  unfold MetricsCollector.record
  split <;> rfl

/-- What a step shows to the callbacks. -/
def shownBy (m : Monitor Cb) : MetricAction Cb → List Metric
  | .onMetric _ => []
  | .record call _ => if m.collector.enabled then [call.metric] else []

theorem apply_announces (m : Monitor Cb) (a : MetricAction Cb) :
    Announces m.callbacks m.fired (a.apply m).callbacks (a.apply m).fired (shownBy m a) := by
  cases a with
  | onMetric callback => exact .join [callback]
  | record call reactions =>
      simp only [MetricAction.apply, Monitor.record, shownBy]
      split
      · exact .publish call.metric reactions
      · have hjoin : Announces m.callbacks m.fired (m.callbacks ++ []) m.fired
            ([] : List Metric) := .join []
        simpa using hjoin

theorem apply_collector (m : Monitor Cb) (a : MetricAction Cb) :
    (a.apply m).collector = m.collector.recordAll a.call.toList := by
  cases a with
  | onMetric callback => rfl
  | record call reactions =>
      simp only [MetricAction.apply, MetricAction.call, Monitor.record]
      split
      · rfl
      · next hdisabled =>
          simp [MetricsCollector.recordAll, MetricsCollector.record, hdisabled]

theorem recordAll_enabled (calls : List (RecordCall Rat Rat)) (c : MetricsCollector Rat Rat) :
    (c.recordAll calls).enabled = c.enabled := by
  induction calls generalizing c with
  | nil => rfl
  | cons call calls ih => exact (ih _).trans (record_enabled call c)

theorem run_collector (m : Monitor Cb) (actions : List (MetricAction Cb)) :
    (actions.foldl MetricAction.apply m).collector =
      m.collector.recordAll (actions.filterMap MetricAction.call) := by
  induction actions generalizing m with
  | nil => rfl
  | cons a actions ih =>
      rw [List.foldl_cons, ih, apply_collector, List.filterMap_cons]
      cases a.call with
      | none => rfl
      | some call => rfl

theorem shown_along (m : Monitor Cb) (actions : List (MetricAction Cb)) :
    publishedAlong MetricAction.apply shownBy m actions =
      (if m.collector.enabled then actions.filterMap MetricAction.call else []).map
        RecordCall.metric := by
  induction actions generalizing m with
  | nil => simp [publishedAlong]
  | cons a actions ih =>
      have henabled : (a.apply m).collector.enabled = m.collector.enabled := by
        rw [apply_collector, recordAll_enabled]
      rw [publishedAlong, ih, henabled]
      cases a with
      | onMetric callback => rfl
      | record call reactions =>
          cases henabled : m.collector.enabled <;> simp [shownBy, MetricAction.call, henabled]

/-- The series hold the last points of every name that was recorded. -/
theorem run_series (config : Option MetricsConfig) (actions : List (MetricAction Cb)) :
    (monitorRun config actions).collector.series.keys =
        ((recorded config actions).map RecordCall.name).eraseDups ∧
      ∀ name, (monitorRun config actions).collector.series.get? name =
        if pointsOf name (recorded config actions) = [] then none
        else some ⟨(@MetricsCollector.init Rat Rat config).ringBufferSize,
          (pointsOf name (recorded config actions)).rtake
            (@MetricsCollector.init Rat Rat config).ringBufferSize⟩ := by
  have hinit : @MetricsCollector.init Rat Rat config =
      { ringBufferSize := (@MetricsCollector.init Rat Rat config).ringBufferSize
        enabled := (@MetricsCollector.init Rat Rat config).enabled } := by
    cases config <;> rfl
  have hcollector : (monitorRun config actions).collector = _ := run_collector (.init config) actions
  rw [hcollector, Monitor.init]
  unfold recorded
  cases henabled : (@MetricsCollector.init Rat Rat config).enabled with
  | false =>
      rw [henabled] at hinit
      rw [hinit, recordAll_disabled]
      exact ⟨rfl, fun name => rfl⟩
  | true =>
      rw [henabled] at hinit
      have hkeys := recordAll_keys (@MetricsCollector.init Rat Rat config).ringBufferSize
        (actions.filterMap MetricAction.call)
      have hkeeps := recordAll_keeps (@MetricsCollector.init Rat Rat config).ringBufferSize
        (actions.filterMap MetricAction.call)
      rw [← hinit] at hkeys hkeeps
      exact ⟨hkeys, hkeeps.2.2⟩

/-- In every run, whatever the callbacks raise and register: a snapshot has exactly the names that
were recorded, each with its last points, `get_latest` gives the last of them that has the labels,
and every callback is shown, once and in order, all that is recorded from its registration on. -/
theorem monitor_tells (config : Option MetricsConfig) (actions : List (MetricAction Cb)) :
    Tells config actions (monitorRun config actions) := by
  have hstep : ∀ (m : Monitor Cb) (a : MetricAction Cb),
      Announces m.callbacks m.fired (a.apply m).callbacks (a.apply m).fired (shownBy m a) :=
    apply_announces
  have hnotified : ∀ m : Monitor Cb, m.fired = [] → Notified m.callbacks m.fired := by
    rintro m hnone entry hentry
    rw [hnone] at hentry
    cases hentry
  rcases run_series config actions with ⟨hkeys, hseries⟩
  have hshows : (monitorRun config actions).fired.map Prod.fst =
      (recorded config actions).map RecordCall.metric := by
    rw [monitorRun, logged_along hstep, shown_along]
    rfl
  refine ⟨?_, ?_, ?_, hshows, ?_, ?_, ?_⟩
  · rw [MetricsCollector.snapshot, Dict.keys_mapValues, hkeys]
  · intro name hname
    rw [MetricsCollector.snapshot, Dict.keys_mapValues, Dict.mem_keys] at hname
    rcases hname with ⟨series, hget⟩
    rw [MetricsCollector.snapshot, Dict.get?_mapValues, hseries]
    rw [hseries] at hget
    split at hget
    · cases hget
    · next hne => simp [hne]
  · intro name labels v
    unfold MetricsCollector.getLatest
    rw [hseries]
    by_cases hnil : pointsOf name (recorded config actions) = []
    · simp [hnil, IsLatest]
    · rw [if_neg hnil]
      exact MetricSeries.getLatest_iff labels ⟨_, _⟩ v
  · rintro c rfl
    have hlogged : (monitorRun (some c) actions).fired.map (fun entry => entry.1.logged) =
        ((monitorRun (some c) actions).fired.map Prod.fst).map Metric.logged := by
      rw [List.map_map]
      rfl
    rw [log_eq, hlogged, hshows]
    show ((if c.enabled then actions.filterMap MetricAction.call else []).map
        RecordCall.metric).map Metric.logged =
      [] ++ if c.enabled then (actions.filterMap MetricAction.call).map RecordCall.logged else []
    split
    · simp only [List.map_map, List.nil_append]
      rfl
    · rfl
  · rintro before after rfl
    rw [monitorRun, monitorRun, List.foldl_append]
    exact grows_along hstep _ after
  · rintro before a after rfl p hnew hp
    have hknown := notified_along hstep (hnotified (.init config) rfl) before
    have henabled : (before.foldl MetricAction.apply (.init config : Monitor Cb)).collector.enabled =
        (@MetricsCollector.init Rat Rat config).enabled := by
      rw [run_collector, recordAll_enabled]
      rfl
    rw [monitorRun, List.foldl_append] at hp ⊢
    rw [joined_along hstep hknown a after hnew hp, shown_along, henabled]
    rfl

/-- A callback that registers another one while it is called. -/
theorem late_callback_shown :
    let point : Rat → MetricAction String := fun v => .record ⟨0, "queue_depth", v, none⟩ [];
    let actions := [point 1, .onMetric "log",
      .record ⟨1, "queue_depth", 2, none⟩ [["alert"], []], point 3];
    let m := monitorRun none actions;
    Tells none actions m ∧ m.callbacks = ["log", "alert"] ∧
      (seenBy 1 m.fired).map Metric.value = [2, 3] ∧
      m.collector.getLatest "queue_depth" none = some 3 :=
  ⟨monitor_tells _ _, by decide +kernel⟩

end Inferential.Metrics
