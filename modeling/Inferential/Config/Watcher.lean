import Inferential.Config.Schema
import Inferential.Machine.Observers
import Mathlib.Data.List.DropRight

/-!
# Watcher — when the configuration is reloaded, and who is told

One turn of `watch` reloads when a signal has come since the turn before, or when the file is newer
than all that was read of it.  The trigger is used up even if nothing can be loaded; a callback is
told every configuration that is loaded after its registration.
-/

namespace Inferential

open Machine PyStd

namespace Config

variable {ν Cb : Type} [Score ν]

/-! ## The watcher -/

/-- What the operating system answers during one turn; the file may change in between. -/
structure Disk where
  /-- `exists`, of a path that can be looked up: before Python 3.14 a directory that denies the
  lookup ends `watch` with a `PermissionError`. -/
  found : Bool
  /-- `os.path.getmtime`; `none` stands for an `OSError`. -/
  mtime : Option Rat
  /-- `exists` once more, before the file is read. -/
  foundToLoad : Bool
  text : Except PyError String

/-- `fired` is what `_fire` was called with, and the callbacks that were called. -/
structure ConfigWatcher (ν Cb : Type) [Score ν] where
  configPath : Option String
  callbacks : List Cb := []
  lastMtime : Rat := 0
  sighupReceived : Bool := false
  fired : List (InferentialConfig ν × List Cb) := []

namespace ConfigWatcher

/-- `Path(config_path) if config_path else None` -/
def resolve (configPath : Option String) : Option String := configPath.filter (· ≠ "")

/-- `__init__` -/
def init (configPath : Option String) : ConfigWatcher ν Cb where
  configPath := resolve configPath

def onReload (callback : Cb) (w : ConfigWatcher ν Cb) : ConfigWatcher ν Cb :=
  { w with callbacks := w.callbacks ++ [callback] }

/-- `_handle_sighup`; the event loop runs it while `watch` sleeps. -/
def handleSighup (w : ConfigWatcher ν Cb) : ConfigWatcher ν Cb := { w with sighupReceived := true }

/-- `_load_config`; `parse` is `json.loads` and the validation of the schema. -/
def loadConfig (parse : String → Except PyError (InferentialConfig ν)) (disk : Disk)
    (w : ConfigWatcher ν Cb) : Option (InferentialConfig ν) :=
  if w.configPath.isNone || !disk.foundToLoad then none
  else
    match disk.text with
    | .error _ => none
    | .ok text =>
        match parse text with
        | .error _ => none
        | .ok config => some config

/-- `_fire`; what a callback raises is logged. -/
def fire (config : InferentialConfig ν) (reactions : List (List Cb)) (w : ConfigWatcher ν Cb) :
    ConfigWatcher ν Cb :=
  let called := notify w.callbacks reactions
  { w with
    callbacks := called
    fired := w.fired ++ [(config, called)] }

/-- The first half of a turn: whether to reload. -/
def checkFile (disk : Disk) (w : ConfigWatcher ν Cb) : Bool × ConfigWatcher ν Cb :=
  let shouldReload := w.sighupReceived
  if w.configPath.isSome && disk.found then
    match disk.mtime with
    | none => (shouldReload, w)
    | some mtime =>
        if w.lastMtime < mtime then (true, { w with lastMtime := mtime }) else (shouldReload, w)
  else (shouldReload, w)

/-- One turn of the loop of `watch`. -/
def turn (parse : String → Except PyError (InferentialConfig ν)) (disk : Disk)
    (reactions : List (List Cb)) (w : ConfigWatcher ν Cb) : ConfigWatcher ν Cb :=
  let (shouldReload, w) := w.checkFile disk
  if shouldReload then
    let w := { w with sighupReceived := false }
    match w.loadConfig parse disk with
    | none => w
    | some config => w.fire config reactions
  else w

end ConfigWatcher

inductive WatchAction (Cb : Type)
  | onReload (callback : Cb)
  | sighup
  /-- `reactions` are what the callbacks register while they are called. -/
  | turn (disk : Disk) (reactions : List (List Cb))

variable (parse : String → Except PyError (InferentialConfig ν))

def watchStep (w : ConfigWatcher ν Cb) : WatchAction Cb → ConfigWatcher ν Cb
  | .onReload callback => w.onReload callback
  | .sighup => w.handleSighup
  | .turn disk reactions => w.turn parse disk reactions

def watchRun (configPath : Option String) (actions : List (WatchAction Cb)) : ConfigWatcher ν Cb :=
  actions.foldl (watchStep parse) (.init configPath)

/-! ## What the history says -/

def WatchAction.isTurn : WatchAction Cb → Bool
  | .turn _ _ => true
  | _ => false

def WatchAction.isSighup : WatchAction Cb → Bool
  | .sighup => true
  | _ => false

/-- A signal has come since the last turn. -/
def signalled (history : List (WatchAction Cb)) : Bool :=
  (history.rtakeWhile fun a => !a.isTurn).any WatchAction.isSighup

/-- The modification time that a turn reads. -/
def mtimeRead (configPath : Option String) : WatchAction Cb → Option Rat
  | .turn disk _ => if configPath.isSome && disk.found then disk.mtime else none
  | _ => none

/-- The latest modification time that was read, and the time 0. -/
def highWater (configPath : Option String) (history : List (WatchAction Cb)) : Rat :=
  (history.filterMap (mtimeRead configPath)).foldl max 0

/-- What the file holds for a turn, if it can be loaded. -/
def loadable (configPath : Option String) (disk : Disk) : Option (InferentialConfig ν) :=
  if configPath.isSome && disk.foundToLoad then
    disk.text.toOption.bind fun text => (parse text).toOption
  else none

/-- The configuration that is loaded after a history. -/
def loadedAfter (configPath : Option String) (history : List (WatchAction Cb)) :
    WatchAction Cb → Option (InferentialConfig ν)
  | a@(.turn disk _) =>
      if signalled history || (mtimeRead configPath a).any (highWater configPath history < ·) then
        loadable parse configPath disk
      else none
  | _ => none

/-- The configurations that are loaded after a history, in order. -/
def loadedFrom (configPath : Option String) :
    List (WatchAction Cb) → List (WatchAction Cb) → List (InferentialConfig ν)
  | _, [] => []
  | history, a :: actions =>
      (loadedAfter parse configPath history a).toList ++
        loadedFrom configPath (history ++ [a]) actions

open ConfigWatcher (init resolve)

/-- The file as something that changes in time: what it holds goes with its modification time, which
is positive, and every turn sees it at one moment. -/
def Steady (content : Rat → String) : WatchAction Cb → Prop
  | .turn disk _ =>
      if disk.found then
        ∃ mtime, disk.mtime = some mtime ∧ 0 < mtime ∧ disk.foundToLoad = true ∧
          disk.text = .ok (content mtime)
      else disk.foundToLoad = false
  | _ => True

/-- What a watcher has done after a run. -/
structure KeepsUp (configPath : Option String) (actions : List (WatchAction Cb))
    (w : ConfigWatcher ν Cb) : Prop where
  /-- It fires what the history says. -/
  loads : w.fired.map Prod.fst = loadedFrom parse (resolve configPath) [] actions
  /-- Nobody is forgotten. -/
  keeps : ∀ before after, actions = before ++ after →
    (watchRun parse configPath before).callbacks <+: w.callbacks
  /-- A callback sees all that is loaded from the step on with which it is registered. -/
  tells : ∀ before a after, actions = before ++ a :: after → ∀ p,
    (watchRun parse configPath before).callbacks.length ≤ p →
      p < (watchRun parse configPath (before ++ [a])).callbacks.length →
        seenBy p w.fired = loadedFrom parse (resolve configPath) before (a :: after)
  /-- If the file is steady and does not go back in time, the last thing that was fired is what it
  held at the last turn that saw it, as long as that can be parsed. -/
  current : ∀ content : Rat → String, (∀ a ∈ actions, Steady content a) →
    (actions.filterMap (mtimeRead (resolve configPath))).Pairwise (· ≤ ·) → ∀ mtime,
      (actions.filterMap (mtimeRead (resolve configPath))).getLast? = some mtime → ∀ config,
        parse (content mtime) = .ok config → (w.fired.map Prod.fst).getLast? = some config

/-! ## One turn -/

/-- The time of the file, or the old one. -/
def newMtime (configPath : Option String) (a : WatchAction Cb) (old : Rat) : Rat :=
  (mtimeRead configPath a).elim old (max old)

theorem checkFile_eq (disk : Disk) (reactions : List (List Cb)) (w : ConfigWatcher ν Cb) :
    w.checkFile disk =
      (w.sighupReceived ||
          (mtimeRead w.configPath (.turn disk reactions)).any (w.lastMtime < ·),
        { w with lastMtime := newMtime w.configPath (.turn disk reactions) w.lastMtime }) := by
  unfold ConfigWatcher.checkFile newMtime
  simp only [mtimeRead]
  split
  · cases disk.mtime with
    | none => simp
    | some mtime =>
        by_cases hlt : w.lastMtime < mtime
        · simp [hlt, max_eq_right hlt.le]
        · simp [hlt, max_eq_left (not_lt.mp hlt)]
  · simp

theorem loadConfig_eq (disk : Disk) (w : ConfigWatcher ν Cb) :
    w.loadConfig parse disk = loadable parse w.configPath disk := by
  unfold ConfigWatcher.loadConfig loadable
  cases w.configPath with
  | none => rfl
  | some path =>
      cases disk.foundToLoad with
      | false => rfl
      | true =>
          cases disk.text with
          | error e => rfl
          | ok text =>
              cases hparse : parse text with
              | error e => simp [hparse, Except.toOption]
              | ok config => simp [hparse, Except.toOption]

/-- What a step fires. -/
def firedBy (w : ConfigWatcher ν Cb) : WatchAction Cb → List (InferentialConfig ν)
  | a@(.turn disk _) =>
      if w.sighupReceived || (mtimeRead w.configPath a).any (w.lastMtime < ·) then
        (loadable parse w.configPath disk).toList
      else []
  | _ => []

theorem watchStep_announces (w : ConfigWatcher ν Cb) (a : WatchAction Cb) :
    Announces w.callbacks w.fired (watchStep parse w a).callbacks (watchStep parse w a).fired
      (firedBy parse w a) := by
  have hquiet : Announces w.callbacks w.fired w.callbacks w.fired
      ([] : List (InferentialConfig ν)) := by
    have hjoin : Announces w.callbacks w.fired (w.callbacks ++ []) w.fired
        ([] : List (InferentialConfig ν)) := .join []
    simpa using hjoin
  cases a with
  | onReload callback => exact .join [callback]
  | sighup => exact hquiet
  | turn disk reactions =>
      simp only [watchStep, ConfigWatcher.turn, checkFile_eq disk reactions, firedBy]
      split
      · rw [loadConfig_eq]
        cases loadable parse w.configPath disk with
        | none => exact hquiet
        | some config => exact .publish config reactions
      · exact hquiet

/-! ## What the watcher remembers -/

/-- The path, the signal and the latest modification time are those of the history. -/
structure Remembers (configPath : Option String) (history : List (WatchAction Cb))
    (w : ConfigWatcher ν Cb) : Prop where
  path : w.configPath = configPath
  signal : w.sighupReceived = signalled history
  mtime : w.lastMtime = highWater configPath history

theorem signalled_append (history : List (WatchAction Cb)) (a : WatchAction Cb) :
    signalled (history ++ [a]) = (!a.isTurn && (signalled history || a.isSighup)) := by
  unfold signalled
  cases hturn : a.isTurn with
  | true => rw [List.rtakeWhile_concat_neg _ _ _ (by simp [hturn])]; rfl
  | false => rw [List.rtakeWhile_concat_pos _ _ _ (by simp [hturn])]; simp

theorem highWater_append (configPath : Option String) (history : List (WatchAction Cb))
    (a : WatchAction Cb) :
    highWater configPath (history ++ [a]) = newMtime configPath a (highWater configPath history) := by
  unfold highWater newMtime
  rw [List.filterMap_append, List.foldl_append]
  cases hread : mtimeRead configPath a with
  | none => simp [hread]
  | some mtime => simp [hread]

theorem Remembers.after {configPath : Option String} {history : List (WatchAction Cb)}
    {w : ConfigWatcher ν Cb} (h : Remembers configPath history w) (a : WatchAction Cb) :
    Remembers configPath (history ++ [a]) (watchStep parse w a) := by
  rcases h with ⟨hpath, hsignal, hmtime⟩
  have hread := highWater_append configPath history a
  have hsignalled := signalled_append history a
  cases a with
  | onReload callback => exact ⟨hpath, by simp [hsignalled, ConfigWatcher.onReload, watchStep,
      WatchAction.isTurn, WatchAction.isSighup, hsignal], hmtime.trans hread.symm⟩
  | sighup => exact ⟨hpath, by simp [hsignalled, ConfigWatcher.handleSighup, watchStep,
      WatchAction.isTurn, WatchAction.isSighup], hmtime.trans hread.symm⟩
  | turn disk reactions =>
      have hnone : signalled (history ++ [.turn disk reactions]) = false := by
        rw [hsignalled]
        rfl
      rw [← hmtime, ← hpath] at hread
      simp only [watchStep, ConfigWatcher.turn, checkFile_eq disk reactions]
      split
      · rw [loadConfig_eq]
        cases loadable parse w.configPath disk with
        | none => exact ⟨hpath, hnone.symm, by rw [← hpath, hread]⟩
        | some config => exact ⟨hpath, hnone.symm, by rw [← hpath, hread]; rfl⟩
      · next hidle =>
          -- without a signal there is none to forget
          have hsilent : w.sighupReceived = false := by
            rcases Bool.or_eq_false_iff.mp (Bool.not_eq_true _ ▸ hidle) with ⟨hsilent, -⟩
            exact hsilent
          exact ⟨hpath, hsilent.trans hnone.symm, by rw [← hpath, hread]⟩

theorem Remembers.fired {configPath : Option String} {history : List (WatchAction Cb)}
    {w : ConfigWatcher ν Cb} (h : Remembers configPath history w) (a : WatchAction Cb) :
    firedBy parse w a = (loadedAfter parse configPath history a).toList := by
  cases a with
  | turn disk reactions =>
      simp only [firedBy, loadedAfter, h.path, h.signal, h.mtime]
      split <;> rfl
  | _ => rfl

theorem Remembers.published {configPath : Option String} {history : List (WatchAction Cb)}
    {w : ConfigWatcher ν Cb} (h : Remembers configPath history w)
    (actions : List (WatchAction Cb)) :
    publishedAlong (watchStep parse) (firedBy parse) w actions =
      loadedFrom parse configPath history actions := by
  induction actions generalizing history w with
  | nil => rfl
  | cons a actions ih =>
      simp only [publishedAlong, loadedFrom, h.fired parse a, ih (h.after parse a)]

theorem Remembers.run {configPath : Option String} {history : List (WatchAction Cb)}
    {w : ConfigWatcher ν Cb} (h : Remembers configPath history w)
    (actions : List (WatchAction Cb)) :
    Remembers configPath (history ++ actions) (actions.foldl (watchStep parse) w) := by
  induction actions generalizing history w with
  | nil => simpa using h
  | cons a actions ih => simpa using ih (h.after parse a)

/-! ## The file -/

theorem loadedFrom_append (configPath : Option String)
    (history actions later : List (WatchAction Cb)) :
    loadedFrom parse configPath history (actions ++ later) =
      loadedFrom parse configPath history actions ++
        loadedFrom parse configPath (history ++ actions) later := by
  induction actions generalizing history with
  | nil => simp [loadedFrom]
  | cons a actions ih => simp [loadedFrom, ih]

/-- Times that only go up. -/
theorem foldl_max_getLast? {times : List Rat} (hsorted : times.Pairwise (· ≤ ·)) {last : Rat}
    (hlast : times.getLast? = some last) (hpos : 0 < last) : times.foldl max 0 = last := by
  rcases List.getLast?_eq_some_iff.mp hlast with ⟨before, rfl⟩
  have hbelow : before.foldl max 0 ≤ last := by
    rcases List.pairwise_append.mp hsorted with ⟨-, -, hle⟩
    have hall : ∀ t ∈ before, t ≤ last := fun t ht => hle t ht last List.mem_cons_self
    clear hlast hsorted hle
    suffices h : ∀ start ≤ last, before.foldl max start ≤ last from h 0 hpos.le
    induction before with
    | nil => exact fun start hstart => hstart
    | cons t before ih =>
        rcases List.forall_mem_cons.mp hall with ⟨ht, hrest⟩
        exact fun start hstart => ih hrest (max start t) (max_le hstart ht)
  rw [List.foldl_append, List.foldl_cons, List.foldl_nil, max_eq_right hbelow]

/-- A steady file is loaded as what it held at the time that was read. -/
theorem Steady.read {configPath : Option String} {content : Rat → String} {a : WatchAction Cb}
    (h : Steady content a) {mtime : Rat} (hread : mtimeRead configPath a = some mtime) :
    0 < mtime ∧ ∃ disk reactions, a = .turn disk reactions ∧
      loadable parse configPath disk = (parse (content mtime)).toOption := by
  cases a with
  | turn disk reactions =>
      simp only [mtimeRead] at hread
      split at hread
      · next hseen =>
          rcases Bool.and_eq_true_iff.mp hseen with ⟨hpath, hfound⟩
          simp only [Steady, hfound, if_true] at h
          rcases h with ⟨mtime', hmtime', hpos, hload, htext⟩
          rcases Option.some.inj (hmtime'.symm.trans hread) with rfl
          refine ⟨hpos, disk, reactions, rfl, ?_⟩
          simp [loadable, hpath, hload, htext, Except.toOption]
      · cases hread
  | _ => cases hread

variable {parse}

/-- A steady file that is not seen is not loaded. -/
theorem Steady.unread {configPath : Option String} {content : Rat → String} {a : WatchAction Cb}
    (h : Steady content a) (hread : mtimeRead configPath a = none)
    (history : List (WatchAction Cb)) : loadedAfter parse configPath history a = none := by
  cases a with
  | turn disk reactions =>
      have hnone : loadable parse configPath disk = none := by
        unfold loadable
        cases hpath : configPath.isSome with
        | false => rfl
        | true =>
            cases hfound : disk.found with
            | false =>
                have hgone : disk.foundToLoad = false := by simpa [Steady, hfound] using h
                simp [hgone]
            | true =>
                simp only [Steady, hfound, if_true] at h
                rcases h with ⟨mtime, hmtime, -⟩
                simp [mtimeRead, hpath, hfound, hmtime] at hread
      simp [loadedAfter, hnone]
  | _ => rfl

theorem loads_current {configPath : Option String} {content : Rat → String}
    {actions : List (WatchAction Cb)} (hsteady : ∀ a ∈ actions, Steady content a)
    (hsorted : (actions.filterMap (mtimeRead configPath)).Pairwise (· ≤ ·)) {mtime : Rat}
    (hlast : (actions.filterMap (mtimeRead configPath)).getLast? = some mtime)
    {config : InferentialConfig ν} (hparse : parse (content mtime) = .ok config) :
    (loadedFrom parse configPath [] actions).getLast? = some config := by
  induction actions using List.reverseRecOn with
  | nil => cases hlast
  | append_singleton actions a ih =>
      have hearlier : ∀ a ∈ actions, Steady content a :=
        fun a ha => hsteady a (List.mem_append_left _ ha)
      have hone : Steady content a := hsteady a (List.mem_append_right _ List.mem_cons_self)
      rw [List.filterMap_append] at hsorted hlast
      rcases List.pairwise_append.mp hsorted with ⟨hbefore, -, hle⟩
      simp only [loadedFrom_append, loadedFrom, List.nil_append, List.append_nil]
      cases hread : mtimeRead configPath a with
      | none =>
          rw [hone.unread hread, Option.toList_none, List.append_nil]
          exact ih hearlier hbefore (by simpa [hread] using hlast)
      | some last =>
          have heq : last = mtime := by simpa [hread] using hlast
          subst heq
          rcases hone.read parse hread with ⟨hpos, disk, reactions, rfl, hload⟩
          have hloads : loadable parse configPath disk = some config := by
            rw [hload, hparse]
            rfl
          simp only [loadedAfter, hread, hloads]
          split
          · simp
          · next hidle =>
              -- nothing was newer than what was read before, so it is what was read before
              have hnot : ¬ highWater configPath actions < last := by
                intro hlt
                exact hidle (by simp [hlt])
              have hsame : (actions.filterMap (mtimeRead configPath)).getLast? = some last := by
                cases hold : (actions.filterMap (mtimeRead configPath)).getLast? with
                | none =>
                    have hnil := List.getLast?_eq_none_iff.mp hold
                    exact absurd (by simpa [highWater, hnil] using hpos) hnot
                | some old =>
                    have hmem := List.mem_of_getLast? hold
                    rcases List.mem_filterMap.mp hmem with ⟨a', ha', hread'⟩
                    rcases (hearlier a' ha').read parse hread' with ⟨hpos', -⟩
                    have hwater := foldl_max_getLast? hbefore hold hpos'
                    have hup : old ≤ last := hle old hmem last (by simp [hread])
                    have hdown : last ≤ old := by
                      rw [← hwater]
                      exact not_lt.mp hnot
                    rw [le_antisymm hup hdown]
              simpa using ih hearlier hbefore hsame

variable (parse)

/-- In every run, whatever the callbacks raise and register and whatever the operating system
answers: the watcher fires exactly the configurations of the turns that a signal or a newer file
precedes, every callback is told each of them from its registration on, once and in order, and a
file that keeps to its modification times is never left behind. -/
theorem watcher_keeps_up (configPath : Option String) (actions : List (WatchAction Cb)) :
    KeepsUp parse configPath actions (watchRun parse configPath actions) := by
  have hstep : ∀ (w : ConfigWatcher ν Cb) (a : WatchAction Cb),
      Announces w.callbacks w.fired (watchStep parse w a).callbacks (watchStep parse w a).fired
        (firedBy parse w a) := watchStep_announces parse
  have hstart : Remembers (resolve configPath) ([] : List (WatchAction Cb))
      (init configPath : ConfigWatcher ν Cb) := ⟨rfl, rfl, rfl⟩
  have hnotified : ∀ w : ConfigWatcher ν Cb, w.fired = [] → Notified w.callbacks w.fired := by
    rintro w hnone entry hentry
    rw [hnone] at hentry
    cases hentry
  have hloads : (watchRun parse configPath actions).fired.map Prod.fst =
      loadedFrom parse (resolve configPath) [] actions := by
    rw [watchRun, logged_along hstep, hstart.published parse]
    rfl
  refine ⟨hloads, ?_, ?_, ?_⟩
  · rintro before after rfl
    rw [watchRun, watchRun, List.foldl_append]
    exact grows_along hstep _ after
  · rintro before a after rfl p hnew hp
    have hknown := notified_along hstep (hnotified (init configPath) rfl) before
    have hremembers := hstart.run parse before
    rw [watchRun, List.foldl_append] at hp ⊢
    rw [joined_along hstep hknown a after hnew hp, hremembers.published parse]
    rfl
  · intro content hsteady hsorted mtime hlast config hparse
    rw [hloads]
    exact loads_current hsteady hsorted hlast hparse

/-- A file is written twice, the second time in error, and repaired after a signal. -/
theorem repaired_file_loaded :
    let parse : String → Except PyError (InferentialConfig Rat) := fun text =>
      if text = "\x7b\x7d" then .ok plainConfig else .error (.valueError "Expecting value");
    let turn : Rat → String → WatchAction String := fun mtime text =>
      .turn ⟨true, some mtime, true, .ok text⟩ [];
    let actions := [.onReload "log", turn 1 "\x7b\x7d", turn 2 "oops", .sighup, turn 2 "oops",
      .onReload "apply", turn 3 "\x7b\x7d", turn 3 "\x7b\x7d"];
    let w := watchRun parse (some "config.json") actions;
    KeepsUp parse (some "config.json") actions w ∧
      w.fired.map Prod.snd = [["log"], ["log", "apply"]] :=
  ⟨watcher_keeps_up _ _ _, by decide +kernel⟩

end Config
end Inferential
