import Inferential.Metrics.Collector
import Inferential.PyStd.Samples
import Mathlib.Data.List.GetD
import Mathlib.Data.List.MinMax

/-!
# Store — the ring buffers and their statistics

Every series keeps its last points.  `get_stats` sorts the values of those that match and reads the
percentiles off by index.  The values and times are of any type, with the arithmetic that the mean
is computed in.
-/

namespace Inferential.Metrics

open PyStd

variable {τ ν : Type}

structure MetricPoint (τ ν : Type) where
  timestamp : τ
  value : ν
  labels : Dict String String

structure MetricStats (ν : Type) where
  avg : ν
  p50 : ν
  p95 : ν
  p99 : ν
  count : Nat
  min : ν
  max : ν
  deriving DecidableEq

/-- `_labels_match` -/
def labelsMatch (pointLabels queryLabels : Dict String String) : Bool :=
  queryLabels.items.all fun query => pointLabels.get? query.1 == some query.2

structure MetricSeries (τ ν : Type) where
  maxSize : Nat := 10000
  buffer : List (MetricPoint τ ν) := []

namespace MetricSeries

def record (now : τ) (value : ν) (labels : Option (Dict String String)) (s : MetricSeries τ ν) :
    MetricSeries τ ν :=
  { s with buffer := appendBounded s.maxSize s.buffer ⟨now, value, labels.getD .empty⟩ }

/-- What `get_stats` reads off the sorted values. -/
def readStats (arith : Arithmetic ν) (values : List ν) : Except IndexError (MetricStats ν) := do
  let n := values.length
  let p50 ← getItem values (n / 2 : Nat)
  -- `int(n * 0.95)` and `int(n * 0.99)`, in exact arithmetic
  let p95 ← getItem values (n * 95 / 100 : Nat)
  let p99 ← getItem values (n * 99 / 100 : Nat)
  let first ← getItem values 0
  let last ← getItem values (-1)
  pure {
    avg := arith.div (arith.sum values) n
    p50 := p50
    p95 := p95
    p99 := p99
    count := n
    min := first
    max := last }

section Stats

variable [Sub τ] [LE τ] [DecidableLE τ] [LE ν] [DecidableLE ν]

/-- `now` is the clock reading.  A NaN among several values would be moved by Python's `sort` in a
way of its own. -/
def getStats (arith : Arithmetic ν) (now : τ) (labels : Option (Dict String String))
    (windowSeconds : τ) (s : MetricSeries τ ν) : Except IndexError (Option (MetricStats ν)) :=
  let cutoff := now - windowSeconds
  let values := (s.buffer.filter fun p =>
    decide (cutoff ≤ p.timestamp) && labels.all fun labels => labelsMatch p.labels labels).map
      MetricPoint.value
  if values.isEmpty then .ok none
  else (readStats arith (values.insertionSort (· ≤ ·))).map some

end Stats

end MetricSeries

structure MetricsCollector (τ ν : Type) where
  ringBufferSize : Nat := 10000
  enabled : Bool := true
  series : Dict String (MetricSeries τ ν) := Dict.empty

namespace MetricsCollector

/-- `__init__` -/
def init : Option MetricsConfig → MetricsCollector τ ν
  | some config => { ringBufferSize := config.ringBufferSize, enabled := config.enabled }
  | none => {}

def record (now : τ) (name : String) (value : ν) (labels : Option (Dict String String))
    (c : MetricsCollector τ ν) : MetricsCollector τ ν :=
  if c.enabled then
    let labels := labels.getD .empty
    let series := (c.series.get? name).getD { maxSize := c.ringBufferSize }
    { c with series := c.series.set name (series.record now value (some labels)) }
  else c

def getStats [Sub τ] [LE τ] [DecidableLE τ] [LE ν] [DecidableLE ν] (arith : Arithmetic ν) (now : τ)
    (name : String) (labels : Option (Dict String String)) (windowSeconds : τ)
    (c : MetricsCollector τ ν) : Except IndexError (Option (MetricStats ν)) :=
  match c.series.get? name with
  | none => .ok none
  | some series => series.getStats arith now labels windowSeconds

end MetricsCollector

/-! ## Calls of `record` -/

/-- A call of `record`, and the clock reading at it. -/
structure RecordCall (τ ν : Type) where
  now : τ
  name : String
  value : ν
  labels : Option (Dict String String)

def RecordCall.point (call : RecordCall τ ν) : MetricPoint τ ν :=
  ⟨call.now, call.value, call.labels.getD .empty⟩

def MetricSeries.recordAll (calls : List (RecordCall τ ν)) (s : MetricSeries τ ν) :
    MetricSeries τ ν :=
  calls.foldl (fun s call => s.record call.now call.value call.labels) s

def MetricsCollector.recordAll (calls : List (RecordCall τ ν)) (c : MetricsCollector τ ν) :
    MetricsCollector τ ν :=
  calls.foldl (fun c call => c.record call.now call.name call.value call.labels) c

/-- The points of a name. -/
def pointsOf (name : String) (calls : List (RecordCall τ ν)) : List (MetricPoint τ ν) :=
  (calls.filter fun call => call.name = name).map RecordCall.point

/-! ## What is kept -/

/-- A series keeps the last points. -/
theorem MetricSeries.recordAll_eq (maxSize : Nat) (calls : List (RecordCall τ ν)) :
    recordAll calls { maxSize := maxSize } =
      ⟨maxSize, (calls.map RecordCall.point).rtake maxSize⟩ := by
  induction calls using List.reverseRecOn with
  | nil => simp [recordAll]
  | append_singleton calls call ih =>
      unfold recordAll at ih ⊢
      rw [List.foldl_append, ih, List.map_append]
      show (⟨maxSize, appendBounded maxSize _ call.point⟩ : MetricSeries τ ν) = _
      rw [appendBounded_rtake]
      rfl

/-- Where the collector is enabled, the series of a name keeps its last points. -/
def Keeps (maxSize : Nat) (calls : List (RecordCall τ ν)) (c : MetricsCollector τ ν) : Prop :=
  c.ringBufferSize = maxSize ∧ c.enabled = true ∧ ∀ name, c.series.get? name =
    if pointsOf name calls = [] then none
    else some ⟨maxSize, (pointsOf name calls).rtake maxSize⟩

theorem Keeps.record {maxSize : Nat} {calls : List (RecordCall τ ν)} {c : MetricsCollector τ ν}
    (h : Keeps maxSize calls c) (call : RecordCall τ ν) :
    Keeps maxSize (calls ++ [call]) (c.record call.now call.name call.value call.labels) := by
  rcases h with ⟨hsize, henabled, hseries⟩
  rw [MetricsCollector.record, if_pos henabled]
  refine ⟨hsize, henabled, fun name => ?_⟩
  by_cases hname : call.name = name
  · subst hname
    have hpoints : pointsOf call.name (calls ++ [call]) =
        pointsOf call.name calls ++ [call.point] := by simp [pointsOf]
    have hbuffer : (c.series.get? call.name).getD { maxSize := c.ringBufferSize } =
        ⟨maxSize, (pointsOf call.name calls).rtake maxSize⟩ := by
      rw [hseries, hsize]
      split
      · next hnil => simp [hnil]
      · rfl
    simp only [Dict.get?_set, hbuffer, hpoints]
    simp [MetricSeries.record, ← appendBounded_rtake, RecordCall.point]
  · have hpoints : pointsOf name (calls ++ [call]) = pointsOf name calls := by
      simp [pointsOf, hname]
    simp only [Dict.get?_set, Ne.symm hname, hpoints, hseries, if_false]

theorem recordAll_keeps (maxSize : Nat) (calls : List (RecordCall τ ν)) :
    Keeps maxSize calls (.recordAll calls { ringBufferSize := maxSize }) := by
  induction calls using List.reverseRecOn with
  | nil => exact ⟨rfl, rfl, fun _ => rfl⟩
  | append_singleton calls call ih =>
      have hnext := ih.record call
      simpa [MetricsCollector.recordAll, List.foldl_append] using hnext

theorem recordAll_disabled (maxSize : Nat) (calls : List (RecordCall τ ν)) :
    MetricsCollector.recordAll calls { ringBufferSize := maxSize, enabled := false } =
      { ringBufferSize := maxSize, enabled := false } := by
  induction calls with
  | nil => rfl
  | cons call calls ih => exact ih

/-- What the callbacks see of the call. -/
def RecordCall.logged (call : RecordCall τ Rat) : Inferential.MetricPoint :=
  ⟨call.name, call.value, (call.labels.getD .empty).items⟩

theorem log_eq (calls : List (RecordCall τ Rat)) (c : Inferential.MetricsCollector) :
    (c.recordAll (calls.map RecordCall.logged)).log =
      c.log ++ if c.enabled then calls.map RecordCall.logged else [] := by
  induction calls generalizing c with
  | nil => simp [Inferential.MetricsCollector.recordAll]
  | cons call calls ih =>
      have hnext := ih (c.record call.logged.name call.logged.value call.logged.labels)
      rw [MetricsCollector.record_enabled] at hnext
      unfold Inferential.MetricsCollector.recordAll at hnext ⊢
      rw [List.map_cons, List.foldl_cons, hnext]
      cases henabled : c.enabled <;> simp [Inferential.MetricsCollector.record, henabled,
        RecordCall.logged]

/-- The series of a name holds the end of what the log has of the name. -/
theorem series_values (config : MetricsConfig) (calls : List (RecordCall τ Rat)) (name : String) :
    (((MetricsCollector.init (some config)).recordAll calls).series.get? name).elim []
        (fun series => series.buffer.map MetricPoint.value) =
      ((((Inferential.MetricsCollector.init config).recordAll
        (calls.map RecordCall.logged)).log.filter fun p => p.name = name).map
          Inferential.MetricPoint.value).rtake config.ringBufferSize := by
  have hvalues : ((calls.map RecordCall.logged).filter fun p => p.name = name).map
      Inferential.MetricPoint.value = (pointsOf name calls).map MetricPoint.value := by
    simp only [pointsOf, List.filter_map, List.map_map]
    rfl
  rw [log_eq]
  cases henabled : config.enabled with
  | false =>
      have hinit : (MetricsCollector.init (some config) : MetricsCollector τ Rat) =
          { ringBufferSize := config.ringBufferSize, enabled := false } := by
        simp [MetricsCollector.init, henabled]
      rw [hinit, recordAll_disabled]
      simp [Inferential.MetricsCollector.init, henabled]
  | true =>
      have hinit : (MetricsCollector.init (some config) : MetricsCollector τ Rat) =
          { ringBufferSize := config.ringBufferSize } := by
        simp [MetricsCollector.init, henabled]
      rcases recordAll_keeps config.ringBufferSize calls with ⟨-, -, hseries⟩
      rw [hinit, hseries]
      simp only [Inferential.MetricsCollector.init, henabled, List.nil_append, if_true, hvalues]
      by_cases hnil : pointsOf name calls = []
      · simp [hnil]
      · simp [hnil, List.rtake, List.map_drop]

/-! ## The statistics of some values -/

/-- One of the values, with at least `p` percent of the values not above it. -/
def IsPercentile [LE ν] [DecidableLE ν] (p : Nat) (values : List ν) (x : ν) : Prop :=
  x ∈ values ∧ p * values.length ≤ 100 * notAbove values x

/-- What the statistics of these values are to be; the mean is computed in ascending order. -/
structure Summarizes [LE ν] [DecidableLE ν] (arith : Arithmetic ν) (values : List ν)
    (stats : MetricStats ν) : Prop where
  count : stats.count = values.length
  min : stats.min ∈ values ∧ ∀ x ∈ values, stats.min ≤ x
  max : stats.max ∈ values ∧ ∀ x ∈ values, x ≤ stats.max
  avg : stats.avg = arith.mean (values.insertionSort (· ≤ ·))
  p50 : IsPercentile 50 values stats.p50
  p95 : IsPercentile 95 values stats.p95
  p99 : IsPercentile 99 values stats.p99
  min_le_p50 : stats.min ≤ stats.p50
  p50_le_p95 : stats.p50 ≤ stats.p95
  p95_le_p99 : stats.p95 ≤ stats.p99
  p99_le_max : stats.p99 ≤ stats.max

/-- The mean lies between the least and the greatest value. -/
def MetricStats.MeanWithin [LE ν] (stats : MetricStats ν) : Prop :=
  stats.min ≤ stats.avg ∧ stats.avg ≤ stats.max

/-- What the statistics of these values are to be in exact arithmetic. -/
structure SummarizesExactly (values : List Rat) (stats : MetricStats Rat) : Prop
    extends Summarizes .exact values stats where
  mean : stats.avg = values.sum / values.length
  within : stats.MeanWithin

/-- The statistics that are read off sorted values. -/
def statsOf (arith : Arithmetic ν) (values : List ν) (hpos : 0 < values.length) :
    MetricStats ν where
  avg := arith.mean values
  p50 := percentile values hpos 50
  p95 := percentile values hpos 95
  p99 := percentile values hpos 99
  count := values.length
  min := values.get ⟨0, hpos⟩
  max := values.get ⟨values.length - 1, Nat.sub_lt hpos Nat.one_pos⟩

section Sorted

variable [LinearOrder ν] {arith : Arithmetic ν} {values values' : List ν} {stats : MetricStats ν}

theorem IsPercentile.perm {p : Nat} {x : ν} (h : IsPercentile p values x)
    (hperm : values.Perm values') : IsPercentile p values' x := by
  rcases h with ⟨hmem, hrank⟩
  rw [hperm.length_eq, notAbove_perm hperm] at hrank
  exact ⟨hperm.mem_iff.mp hmem, hrank⟩

/-- The order in which values are recorded makes no difference. -/
theorem Summarizes.perm (h : Summarizes arith values stats) (hperm : values.Perm values') :
    Summarizes arith values' stats := by
  have hsorted : values.insertionSort (· ≤ ·) = values'.insertionSort (· ≤ ·) := by
    refine List.Perm.eq_of_pairwise (fun a b _ _ => le_antisymm)
      (List.pairwise_insertionSort _ _) (List.pairwise_insertionSort _ _) ?_
    exact (List.perm_insertionSort _ values).trans
      (hperm.trans (List.perm_insertionSort _ values').symm)
  exact {
    count := h.count.trans hperm.length_eq
    min := ⟨hperm.mem_iff.mp h.min.1, fun x hx => h.min.2 x (hperm.mem_iff.mpr hx)⟩
    max := ⟨hperm.mem_iff.mp h.max.1, fun x hx => h.max.2 x (hperm.mem_iff.mpr hx)⟩
    avg := h.avg.trans (congrArg arith.mean hsorted)
    p50 := h.p50.perm hperm
    p95 := h.p95.perm hperm
    p99 := h.p99.perm hperm
    min_le_p50 := h.min_le_p50
    p50_le_p95 := h.p50_le_p95
    p95_le_p99 := h.p95_le_p99
    p99_le_max := h.p99_le_max }

theorem statsOf_between (arith : Arithmetic ν) (hsorted : values.Pairwise (· ≤ ·))
    (hpos : 0 < values.length) :
    ∀ x ∈ values, (statsOf arith values hpos).min ≤ x ∧ x ≤ (statsOf arith values hpos).max := by
  intro x hx
  rcases List.mem_iff_get.mp hx with ⟨i, rfl⟩
  constructor
  · exact get_mono hsorted (Fin.mk_le_mk.mpr (Nat.zero_le i))
  · exact get_mono hsorted (Fin.mk_le_mk.mpr (Nat.le_sub_one_of_lt i.isLt))

theorem statsOf_summarizes (hsorted : values.Pairwise (· ≤ ·)) (hpos : 0 < values.length) :
    Summarizes arith values (statsOf arith values hpos) := by
  have hbetween := statsOf_between arith hsorted hpos
  have hpercentile : ∀ p : Fin 100, IsPercentile p values (percentile values hpos p) :=
    fun p => ⟨percentile_mem values hpos p, percentile_rank hsorted hpos p⟩
  exact {
    count := rfl
    min := ⟨List.get_mem _ _, fun x hx => (hbetween x hx).1⟩
    max := ⟨List.get_mem _ _, fun x hx => (hbetween x hx).2⟩
    avg := congrArg arith.mean (hsorted.insertionSort_eq).symm
    p50 := hpercentile 50
    p95 := hpercentile 95
    p99 := hpercentile 99
    min_le_p50 := (hbetween _ (percentile_mem values hpos 50)).1
    p50_le_p95 := percentile_mono hsorted hpos (by decide)
    p95_le_p99 := percentile_mono hsorted hpos (by decide)
    p99_le_max := (hbetween _ (percentile_mem values hpos 99)).2 }

end Sorted

/-- What is read off the sorted values says the same of the values themselves, and of rational ones
also where their mean lies. -/
theorem statsOf_exactly {values : List Rat} {stats : MetricStats Rat}
    (h : Summarizes .exact values stats) : SummarizesExactly values stats := by
  have hperm := List.perm_insertionSort (· ≤ ·) values
  have hmean : stats.avg = Arithmetic.exact.mean values := by
    rw [h.avg]
    show (values.insertionSort (· ≤ ·)).sum / _ = values.sum / _
    rw [hperm.sum_eq, hperm.length_eq]
  have hwithin := mean_between (List.ne_nil_of_mem h.min.1) h.min.2 h.max.2
  rw [← hmean] at hwithin
  exact { toSummarizes := h, mean := hmean, within := hwithin }

/-! ## `get_stats` -/

section Answers

variable [Sub τ] [LE τ] [DecidableLE τ]

/-- The point is in the window and has the labels that are asked for. -/
def Selected (now : τ) (labels : Option (Dict String String)) (windowSeconds : τ)
    (p : MetricPoint τ ν) : Bool :=
  decide (now - windowSeconds ≤ p.timestamp) && labels.all fun labels => labelsMatch p.labels labels

/-- The values that `get_stats` looks at. -/
def selectedValues (now : τ) (labels : Option (Dict String String)) (windowSeconds : τ)
    (points : List (MetricPoint τ ν)) : List ν :=
  (points.filter (Selected now labels windowSeconds)).map MetricPoint.value

theorem selectedValues_eq_nil {now : τ} {labels : Option (Dict String String)} {windowSeconds : τ}
    {points : List (MetricPoint τ ν)} :
    selectedValues now labels windowSeconds points = [] ↔
      ∀ p ∈ points, ¬ Selected now labels windowSeconds p = true := by
  simp [selectedValues, List.filter_eq_nil_iff]

/-- No index is out of range. -/
theorem MetricSeries.readStats_eq (arith : Arithmetic ν) {values : List ν}
    (hpos : 0 < values.length) : readStats arith values = .ok (statsOf arith values hpos) := by
  have hget : ∀ {p : Nat} (hp : p < 100), getItem values (values.length * p / 100 : Nat) =
      .ok (percentile values hpos ⟨p, hp⟩) :=
    fun hp => getItem_of_lt (percentile_lt hpos hp)
  have hfirst : getItem values 0 = .ok (values.get ⟨0, hpos⟩) := getItem_of_lt hpos
  have hlast : getItem values (-1) =
      .ok (values.get ⟨values.length - 1, Nat.sub_lt hpos Nat.one_pos⟩) := by
    rw [getItem_neg_one (List.length_pos_iff.mp hpos), List.getLast_eq_getElem]
    rfl
  have hhalf : values.length / 2 = values.length * 50 / 100 := by omega
  simp only [readStats, hhalf, hget (show 50 < 100 by decide), hget (show 95 < 100 by decide),
    hget (show 99 < 100 by decide), hfirst, hlast]
  rfl

/-- What `get_stats` is to return about these points. -/
structure Answers (good : List ν → MetricStats ν → Prop) (now : τ)
    (labels : Option (Dict String String)) (windowSeconds : τ) (points : List (MetricPoint τ ν))
    (answer : Except IndexError (Option (MetricStats ν))) : Prop where
  inRange : ∀ e, answer ≠ .error e
  none_iff : answer = .ok none ↔ ∀ p ∈ points, ¬ Selected now labels windowSeconds p = true
  stats : ∀ stats, answer = .ok (some stats) →
    good (selectedValues now labels windowSeconds points) stats

/-- Whatever was recorded: the series and the collector answer about the last points. -/
def AnswersAlways (τ : Type) [Sub τ] [LE τ] [DecidableLE τ] [LE ν] [DecidableLE ν]
    (arith : Arithmetic ν) (good : List ν → MetricStats ν → Prop) : Prop :=
  ∀ (maxSize : Nat) (calls : List (RecordCall τ ν)) (now : τ)
    (labels : Option (Dict String String)) (windowSeconds : τ),
    Answers good now labels windowSeconds ((calls.map RecordCall.point).rtake maxSize)
      ((MetricSeries.recordAll calls { maxSize := maxSize }).getStats arith now labels
        windowSeconds) ∧
    ∀ name enabled, Answers good now labels windowSeconds
      (if enabled then (pointsOf name calls).rtake maxSize else [])
      ((MetricsCollector.recordAll calls
        { ringBufferSize := maxSize, enabled := enabled }).getStats arith now name labels
          windowSeconds)

variable [LinearOrder ν]

theorem MetricSeries.getStats_answers (arith : Arithmetic ν) (now : τ)
    (labels : Option (Dict String String)) (windowSeconds : τ) (s : MetricSeries τ ν) :
    Answers (Summarizes arith) now labels windowSeconds s.buffer
      (s.getStats arith now labels windowSeconds) := by
  show Answers _ _ _ _ _
    (if (selectedValues now labels windowSeconds s.buffer).isEmpty then Except.ok none
    else (readStats arith ((selectedValues now labels windowSeconds s.buffer).insertionSort
      (· ≤ ·))).map some)
  split
  · next hnil =>
      have hnone := selectedValues_eq_nil.mp (List.isEmpty_iff.mp hnil)
      exact ⟨nofun, ⟨fun _ => hnone, fun _ => rfl⟩, nofun⟩
  · next hnil =>
      have hne : selectedValues now labels windowSeconds s.buffer ≠ [] :=
        fun h => hnil (List.isEmpty_iff.mpr h)
      have hperm := List.perm_insertionSort (· ≤ ·)
        (selectedValues now labels windowSeconds s.buffer)
      have hsorted := List.pairwise_insertionSort (· ≤ ·)
        (selectedValues now labels windowSeconds s.buffer)
      have hpos := hperm.length_eq ▸ List.length_pos_iff.mpr hne
      rw [readStats_eq arith hpos]
      refine ⟨nofun, ⟨nofun, fun h => absurd (selectedValues_eq_nil.mpr h) hne⟩, ?_⟩
      rintro stats ⟨⟩
      exact (statsOf_summarizes hsorted hpos).perm hperm

theorem answersAlways (arith : Arithmetic ν) : AnswersAlways τ arith (Summarizes arith) := by
  intro maxSize calls now labels windowSeconds
  have hempty : Answers (Summarizes arith) now labels windowSeconds [] (.ok none) :=
    ⟨nofun, by simp, nofun⟩
  constructor
  · rw [MetricSeries.recordAll_eq]
    exact MetricSeries.getStats_answers arith now labels windowSeconds ⟨maxSize, _⟩
  · intro name enabled
    cases enabled with
    | false =>
        rw [recordAll_disabled]
        exact hempty
    | true =>
        rcases recordAll_keeps maxSize calls with ⟨-, -, hseries⟩
        unfold MetricsCollector.getStats
        rw [hseries name]
        by_cases hnil : pointsOf name calls = []
        · simpa [hnil] using hempty
        · rw [if_neg hnil]
          exact MetricSeries.getStats_answers arith now labels windowSeconds ⟨maxSize, _⟩

/-- Whatever was recorded, the statistics are those of the last points that match, for every type of
values in a linear order and every arithmetic that the mean is computed in.  In exact arithmetic the
mean lies between the least and the greatest value. -/
theorem getStats_reference (arith : Arithmetic ν) :
    AnswersAlways τ arith (Summarizes arith) ∧ AnswersAlways τ .exact SummarizesExactly := by
  refine ⟨answersAlways arith, fun maxSize calls now labels windowSeconds => ?_⟩
  have hexact : ∀ {points : List (MetricPoint τ Rat)} {answer},
      Answers (Summarizes .exact) now labels windowSeconds points answer →
        Answers SummarizesExactly now labels windowSeconds points answer := fun h =>
    ⟨h.inRange, h.none_iff, fun stats hstats => statsOf_exactly (h.stats stats hstats)⟩
  rcases answersAlways .exact maxSize calls now labels windowSeconds with ⟨hseries, hcollector⟩
  exact ⟨hexact hseries, fun name enabled => hexact (hcollector name enabled)⟩

end Answers

/-- The statistics of floats that are recorded at one time. -/
def floatStats (arith : Arithmetic Float) (values : List Float) : Option (MetricStats Float) :=
  ((MetricSeries.recordAll (values.map fun v => ⟨(0 : Rat), "latency_ms", v, none⟩) {}).getStats
    arith 0 none 300).toOption.join

theorem AnswersAlways.floatStats {arith : Arithmetic Float}
    {good : List Float → MetricStats Float → Prop} (h : AnswersAlways Rat arith good)
    {values : List Float} {stats : MetricStats Float}
    (hstats : floatStats arith values = some stats) : ∃ values, good values stats := by
  rcases h 10000 (values.map fun v => ⟨0, "latency_ms", v, none⟩) 0 none 300 with ⟨hanswers, -⟩
  unfold Metrics.floatStats at hstats
  match hanswer : (MetricSeries.recordAll (values.map fun v => ⟨(0 : Rat), "latency_ms", v, none⟩)
      {}).getStats arith 0 none 300 with
  | .error e => simp [hanswer, Except.toOption] at hstats
  | .ok none => simp [hanswer, Except.toOption] at hstats
  | .ok (some stats') =>
      obtain rfl : stats' = stats := by simpa [hanswer, Except.toOption] using hstats
      exact ⟨_, hanswers.stats stats' hanswer⟩

/-- The statistics of floats leave the order: the mean of three times 0.1 is above each of them, and a
NaN is not below itself. -/
structure Disordered (arith : Arithmetic Float) : Prop where
  rounded : ∃ stats, floatStats arith [0.1, 0.1, 0.1] = some stats ∧ ¬ stats.avg ≤ stats.max
  outside : ¬ AnswersAlways Rat arith fun values stats =>
    Summarizes arith values stats ∧ stats.MeanWithin
  nan : ∃ stats, floatStats arith [0 / 0] = some stats ∧ ¬ stats.min ≤ stats.p50
  unordered : ¬ AnswersAlways Rat arith (Summarizes arith)

theorem Disordered.of_stats {arith : Arithmetic Float}
    (hrounded : (floatStats arith [0.1, 0.1, 0.1]).any fun stats => decide (¬ stats.avg ≤ stats.max))
    (hnan : (floatStats arith [0 / 0]).any fun stats => decide (¬ stats.min ≤ stats.p50)) :
    Disordered arith := by
  rcases (Option.any_eq_true _ _).mp hrounded with ⟨mean, hmean, habove⟩
  rcases (Option.any_eq_true _ _).mp hnan with ⟨nan, hread, hunordered⟩
  refine ⟨⟨mean, hmean, of_decide_eq_true habove⟩, ?_, ?_, ?_⟩
  · intro hclaim
    rcases hclaim.floatStats hmean with ⟨values, -, hwithin⟩
    exact of_decide_eq_true habove hwithin.2
  · exact ⟨nan, hread, of_decide_eq_true hunordered⟩
  · intro hclaim
    rcases hclaim.floatStats hread with ⟨values, hsummary⟩
    exact of_decide_eq_true hunordered hsummary.min_le_p50

/-- Both for the plain `sum` and for the compensated one. -/
theorem mean_above_max : Disordered .plain ∧ Disordered .compensated :=
  ⟨.of_stats (by decide +kernel) (by decide +kernel), .of_stats (by decide +kernel) (by decide +kernel)⟩

end Inferential.Metrics
