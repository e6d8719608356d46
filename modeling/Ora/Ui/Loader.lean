import Ora.Backend.Types
import Ora.Library.LastLive
import Ora.Library.Run

/-!
# Loaders

`createRequestState` and `useLoader` of `ui/src/util/index.ts`.  A request that was
aborted may still be answered, and whatever else happens on the page may happen
between an answer and its handlers.
-/

namespace Ora.Ui

open Ora.Backend
open Ora.Library

/-- `createRequestState`; `busyTimer` tells whether the timer is set. -/
structure RequestState (E : Type) where
  loading : Bool
  busy : Bool
  error : Option E
  startedAt : Option Time
  loadedAt : Option Time
  settledAt : Option Time
  failures : Nat
  busyTimer : Bool

namespace RequestState

variable {E : Type}

def createRequestState : RequestState E := ⟨false, false, none, none, none, none, 0, false⟩

def started (state : RequestState E) (now : Time) : RequestState E :=
  { state with
    loading := true
    startedAt := some now
    busyTimer := if state.busy then state.busyTimer else true }

def succeeded (state : RequestState E) (now : Time) : RequestState E :=
  { state with error := none, failures := 0, loadedAt := some now }

/-- Together with whether it is the first of consecutive failures. -/
def failed (state : RequestState E) (error : E) : RequestState E × Bool :=
  ({ state with error := some error, failures := state.failures + 1 }, state.failures + 1 == 1)

def stopped (state : RequestState E) (settled : Bool) (now : Time) : RequestState E :=
  { state with
    busyTimer := false
    loading := false
    busy := false
    startedAt := none
    settledAt := if settled then some now else state.settledAt }

end RequestState

/-- What the promise of a request is settled with. -/
inductive Response (T E : Type) where
  | result (data : T)
  | error (e : E)
  deriving DecidableEq, Repr

/-- How far a request is: its handlers run after the answer, the one of `then`
before the one of `finally`. -/
inductive LoadStage where
  | requested
  | answered
  | handled
  | finished
  deriving DecidableEq, Repr

/-- A call of `run`: its controller tells whether it was `aborted`, and it is `taken`
once its response went into the loader. -/
structure LoadRun (P T E : Type) where
  params : P
  aborted : Bool
  stage : LoadStage
  response : Option (Response T E)
  taken : Bool
  deriving DecidableEq, Repr

/-- A loader and the requests that were ever sent, the controller being the number of
one.  `watched` is the key that the watcher has seen, as long as its scope is `active`. -/
structure Loader (P T E K : Type) where
  params : Option P
  watched : Option K
  active : Bool
  data : Option T
  loadedKey : Option K
  controller : Option Nat
  request : RequestState E
  reports : List E
  runs : List (LoadRun P T E)

inductive LoaderAction (P T E : Type) where
  | setParams (params : Option P)
  | flush (now : Time)
  | reload (force : Bool) (now : Time)
  | answer (number : Nat) (response : Response T E)
  | handle (number : Nat) (now : Time)
  | finish (number : Nat) (now : Time)
  | busy
  | dispose (now : Time)
  deriving DecidableEq, Repr

namespace Loader

variable {P T E K : Type} (key : P → K) (isAbortError : E → Bool)

def currentKey (loader : Loader P T E K) : Option K := loader.params.map key

def enabled (loader : Loader P T E K) : Bool := (loader.currentKey key).isSome

def stale [DecidableEq K] (loader : Loader P T E K) : Bool :=
  loader.loadedKey.isSome && loader.loadedKey != loader.currentKey key

/-- `controller?.abort()` -/
def abortController (loader : Loader P T E K) : List (LoadRun P T E) :=
  match loader.controller with
  | none => loader.runs
  | some number => loader.runs.modify number fun run => { run with aborted := true }

def abort (loader : Loader P T E K) (now : Time) : Loader P T E K :=
  match loader.controller with
  | none => loader
  | some _ =>
      { loader with
        runs := loader.abortController
        controller := none
        request := loader.request.stopped false now }

def run (loader : Loader P T E K) (now : Time) : Loader P T E K :=
  match loader.params with
  | none => loader.abort now
  | some p =>
      { loader with
        runs := loader.abortController ++ [⟨p, false, .requested, none, false⟩]
        controller := some loader.runs.length
        request := loader.request.started now }

def update (loader : Loader P T E K) (number : Nat) (change : LoadRun P T E → LoadRun P T E) :
    Loader P T E K :=
  { loader with runs := loader.runs.modify number change }

/-- The handlers of `then`, for a request that was not aborted. -/
def take (loader : Loader P T E K) (number : Nat) (p : P) (response : Response T E)
    (now : Time) : Loader P T E K :=
  let taken := loader.update number fun run => { run with taken := true }
  match response with
  | .result data =>
      { taken with
        data := some data
        loadedKey := some (key p)
        request := loader.request.succeeded now }
  | .error e =>
      if isAbortError e then
        loader
      else
        let failed := loader.request.failed e
        { taken with
          request := failed.1
          reports := if failed.2 then loader.reports ++ [e] else loader.reports }

/-- The watcher calls back when the key is another one than it has seen. -/
def watch [DecidableEq K] (loader : Loader P T E K) (now : Time) : Option (Loader P T E K) :=
  let next := loader.currentKey key
  if loader.active && next != loader.watched then
    let seen := { loader with watched := next }
    some (if next.isNone then seen.abort now else seen.run now)
  else
    none

def reload (loader : Loader P T E K) (force : Bool) (now : Time) : Loader P T E K :=
  if (force || !loader.request.loading) && loader.enabled key then loader.run now else loader

def step [DecidableEq K] (loader : Loader P T E K) :
    LoaderAction P T E → Option (Loader P T E K)
  | .setParams params => some { loader with params := params }
  | .flush now => loader.watch key now
  | .reload force now => some (loader.reload key force now)
  | .answer number response =>
      match loader.runs[number]? with
      | some ⟨_, _, .requested, _, _⟩ =>
          some (loader.update number fun run =>
            { run with stage := .answered, response := some response })
      | _ => none
  | .handle number now =>
      match loader.runs[number]? with
      | some ⟨p, aborted, .answered, some response, _⟩ =>
          let handled := loader.update number fun run => { run with stage := .handled }
          some (if aborted then handled else handled.take key isAbortError number p response now)
      | _ => none
  | .finish number now =>
      match loader.runs[number]? with
      | some ⟨_, _, .handled, _, _⟩ =>
          let finished := loader.update number fun run => { run with stage := .finished }
          some (if loader.controller = some number then
            { finished with controller := none, request := loader.request.stopped true now }
          else
            finished)
      | _ => none
  | .busy =>
      if loader.request.busyTimer then
        some { loader with request := { loader.request with busy := true, busyTimer := false } }
      else
        none
  | .dispose now => some { loader.abort now with active := false }

/-- `useLoader`: the watcher calls back at once. -/
def useLoader (params : Option P) (now : Time) : Loader P T E K :=
  let created : Loader P T E K :=
    ⟨params, params.map key, true, none, none, none, .createRequestState, [], []⟩
  if params.isNone then created.abort now else created.run now

/-- What a loader shows of the requests, and the errors that were reported. -/
structure View (T E K : Type) where
  data : Option T
  loadedKey : Option K
  error : Option E
  failures : Nat
  reports : List E

def View.nothing : View T E K := ⟨none, none, none, 0, []⟩

def View.outcome (view : View T E K) : P × Response T E → View T E K
  | (p, .result data) =>
      { view with data := some data, loadedKey := some (key p), error := none, failures := 0 }
  | (_, .error e) =>
      { view with
        error := some e
        failures := view.failures + 1
        reports := if view.failures = 0 then view.reports ++ [e] else view.reports }

def view (loader : Loader P T E K) : View T E K :=
  ⟨loader.data, loader.loadedKey, loader.request.error, loader.request.failures, loader.reports⟩

def outcome (run : LoadRun P T E) : Option (P × Response T E) :=
  if run.taken then run.response.map fun response => (run.params, response) else none

/-- The outcomes that were taken, in the order of the requests. -/
def outcomes (loader : Loader P T E K) : List (P × Response T E) :=
  loader.runs.filterMap outcome

/-- Waited for. -/
def live (run : LoadRun P T E) : Prop := run.aborted = false ∧ run.stage ≠ .finished

/-- Nothing is taken of a request before its handlers run, and of those that are
settled only the cancelled ones are left out. -/
structure RunSound (isAbortError : E → Bool) (run : LoadRun P T E) : Prop where
  early : run.stage = .requested ∨ run.stage = .answered → run.taken = false
  settled : run.aborted = false → run.stage = .handled ∨ run.stage = .finished →
    ∃ response, run.response = some response ∧
      (run.taken = true ∨ ∃ e, response = .error e ∧ isAbortError e = true)

/-- The indicators follow the request that is waited for. -/
structure Indicated (request : RequestState E) (waits : Bool) : Prop where
  loading : request.loading = waits
  startedAt : request.startedAt.isSome = waits
  busy : (request.busy || request.busyTimer) = waits

structure Sound (key : P → K) (isAbortError : E → Bool) (loader : Loader P T E K) : Prop where
  runs : LastLive live loader.controller loader.runs
  each : ∀ run ∈ loader.runs, RunSound isAbortError run
  indicated : Indicated loader.request loader.controller.isSome
  view : loader.view = loader.outcomes.foldl (View.outcome key) .nothing

variable {key isAbortError} {loader after : Loader P T E K} {action : LoaderAction P T E}
  {number : Nat} {now : Time}

theorem RunSound.abort {run : LoadRun P T E} (sound : RunSound isAbortError run) :
    RunSound isAbortError { run with aborted := true } :=
  ⟨sound.early, fun aborted => by cases aborted⟩

theorem abortController_runs (sound : loader.Sound key isAbortError) :
    LastLive live none loader.abortController ∧
      (∀ run ∈ loader.abortController, RunSound isAbortError run) ∧
      loader.abortController.filterMap outcome = loader.outcomes ∧
      loader.abortController.length = loader.runs.length := by
  have runs := sound.runs
  unfold abortController
  split
  · rename_i none_current
    rw [none_current] at runs
    exact ⟨runs, sound.each, rfl, rfl⟩
  · rename_i number current
    rw [current] at runs
    refine ⟨runs.close fun _ live => Bool.noConfusion live.1, fun run member => ?_,
      filterMap_modify fun _ _ => rfl, List.length_modify ..⟩
    obtain known | ⟨before, found, rfl⟩ := mem_modify member
    · exact sound.each run known
    · exact (sound.each before (List.mem_of_getElem? found)).abort

theorem Sound.abort (sound : loader.Sound key isAbortError) :
    (loader.abort now).Sound key isAbortError := by
  obtain ⟨runs, each, outcomes, _⟩ := abortController_runs sound
  unfold Loader.abort
  split
  · exact sound
  · exact ⟨runs, each, ⟨rfl, rfl, rfl⟩, sound.view.trans (by rw [← outcomes]; rfl)⟩

theorem Sound.run (sound : loader.Sound key isAbortError) :
    (loader.run now).Sound key isAbortError := by
  obtain ⟨runs, each, outcomes, length⟩ := abortController_runs sound
  unfold Loader.run
  split
  · exact sound.abort
  · rename_i p _
    refine ⟨length ▸ runs.push ⟨rfl, by simp⟩, fun run member => ?_, ⟨rfl, rfl, ?_⟩, ?_⟩
    · obtain known | rfl := List.mem_append.mp member |>.imp id List.mem_singleton.mp
      · exact each run known
      · exact ⟨fun _ => rfl, fun _ stage => by simp at stage⟩
    · cases busy : loader.request.busy with
      | true => simp [RequestState.started, busy]
      | false => simp [RequestState.started, busy]
    · refine sound.view.trans (congrArg _ ?_)
      show loader.outcomes = (loader.abortController ++ [_]).filterMap outcome
      rw [List.filterMap_append, outcomes]
      simp [outcome]

theorem reload_cases (loader : Loader P T E K) (force : Bool) (now : Time) :
    loader.reload key force now = loader ∨ loader.reload key force now = loader.run now := by
  unfold reload
  split
  · exact .inr rfl
  · exact .inl rfl

variable [DecidableEq K]

/-- With a key there is something to load, without one `run` aborts as well. -/
theorem watch_eq (watched : loader.watch key now = some after) :
    loader.active = true ∧
      after = { loader with watched := loader.currentKey key }.run now := by
  unfold watch at watched
  dsimp only at watched
  obtain ⟨changed, watched⟩ := Option.ite_none_right_eq_some.mp watched
  rw [Bool.and_eq_true] at changed
  refine ⟨changed.1, ?_⟩
  cases watched
  cases params : loader.params with
  | none => simp [currentKey, run, params]
  | some p => simp [currentKey, params]

theorem answer_eq {response : Response T E}
    (taken : loader.step key isAbortError (.answer number response) = some after) :
    ∃ run, loader.runs[number]? = some run ∧ run.stage = .requested ∧
      after = loader.update number fun run =>
        { run with stage := .answered, response := some response } := by
  unfold step at taken
  dsimp only at taken
  split at taken
  · rename_i found
    cases taken
    exact ⟨_, found, rfl, rfl⟩
  · cases taken

theorem step_cases (taken : loader.step key isAbortError action = some after) :
    (∃ params, action = .setParams params ∧ after = { loader with params := params }) ∨
    (∃ now, action = .flush now ∧ loader.active = true ∧
      after = { loader with watched := loader.currentKey key }.run now) ∨
    (∃ force now, action = .reload force now ∧ (after = loader ∨ after = loader.run now)) ∨
    (∃ number response run, action = .answer number response ∧
      loader.runs[number]? = some run ∧ run.stage = .requested ∧
      after = loader.update number fun run =>
        { run with stage := .answered, response := some response }) ∨
    (∃ number now run response, action = .handle number now ∧
      loader.runs[number]? = some run ∧ run.stage = .answered ∧ run.response = some response ∧
      after = if run.aborted then loader.update number fun run => { run with stage := .handled }
        else (loader.update number fun run => { run with stage := .handled }).take key
          isAbortError number run.params response now) ∨
    (∃ number now run, action = .finish number now ∧
      loader.runs[number]? = some run ∧ run.stage = .handled ∧
      after = if loader.controller = some number then
          { loader.update number fun run => { run with stage := .finished } with
            controller := none, request := loader.request.stopped true now }
        else loader.update number fun run => { run with stage := .finished }) ∨
    (action = .busy ∧ loader.request.busyTimer = true ∧
      after = { loader with request := { loader.request with busy := true, busyTimer := false } }) ∨
    ∃ now, action = .dispose now ∧ after = { loader.abort now with active := false } := by
  cases action with
  | setParams params =>
      cases taken
      exact .inl ⟨params, rfl, rfl⟩
  | flush now =>
      obtain ⟨active, ran⟩ := watch_eq taken
      exact .inr (.inl ⟨now, rfl, active, ran⟩)
  | reload force now =>
      cases taken
      exact .inr (.inr (.inl ⟨force, now, rfl, reload_cases loader force now⟩))
  | answer number response =>
      obtain ⟨run, found, requested, same⟩ := answer_eq taken
      exact .inr (.inr (.inr (.inl ⟨number, response, run, rfl, found, requested, same⟩)))
  | handle number now =>
      unfold step at taken
      dsimp only at taken
      split at taken
      · rename_i found
        cases taken
        exact .inr (.inr (.inr (.inr (.inl ⟨number, now, _, _, rfl, found, rfl, rfl, rfl⟩))))
      · cases taken
  | finish number now =>
      unfold step at taken
      dsimp only at taken
      split at taken
      · rename_i found
        cases taken
        exact .inr (.inr (.inr (.inr (.inr (.inl ⟨number, now, _, rfl, found, rfl, rfl⟩)))))
      · cases taken
  | busy =>
      obtain ⟨timer, taken⟩ := Option.ite_none_right_eq_some.mp taken
      cases taken
      exact .inr (.inr (.inr (.inr (.inr (.inr (.inl ⟨rfl, timer, rfl⟩))))))
  | dispose now =>
      cases taken
      exact .inr (.inr (.inr (.inr (.inr (.inr (.inr ⟨now, rfl, rfl⟩))))))

omit [DecidableEq K] in
theorem Sound.update (sound : loader.Sound key isAbortError)
    {change : LoadRun P T E → LoadRun P T E}
    (kept : ∀ before, loader.runs[number]? = some before →
      (live (change before) ↔ live before) ∧ RunSound isAbortError (change before) ∧
        outcome (change before) = outcome before) :
    (loader.update number change).Sound key isAbortError := by
  refine ⟨sound.runs.modify fun before found => (kept before found).1, fun run member => ?_,
    sound.indicated, sound.view.trans (congrArg _ ?_)⟩
  · obtain known | ⟨before, found, rfl⟩ := mem_modify member
    · exact sound.each run known
    · exact (kept before found).2.1
  · exact (filterMap_modify fun before found => (kept before found).2.2).symm

omit [DecidableEq K] in
theorem Sound.answered (sound : loader.Sound key isAbortError) {run : LoadRun P T E}
    (found : loader.runs[number]? = some run) (requested : run.stage = .requested)
    (response : Response T E) :
    (loader.update number fun run =>
      { run with stage := .answered, response := some response }).Sound key isAbortError := by
  refine sound.update fun before same => ?_
  cases found.symm.trans same
  have untaken := (sound.each run (List.mem_of_getElem? found)).early (.inl requested)
  refine ⟨by simp [live, requested], ⟨fun _ => untaken, fun _ stage => by simp at stage⟩, ?_⟩
  simp [outcome, untaken]

omit [DecidableEq K] in
/-- The newest request is the only one that a response is taken of. -/
theorem Sound.marked (sound : loader.Sound key isAbortError) {run : LoadRun P T E}
    (found : loader.runs[number]? = some run) (answered : run.stage = .answered)
    {response : Response T E} (given : run.response = some response)
    (going : run.aborted = false) :
    let marked := (loader.runs.modify number fun run => { run with stage := .handled }).modify
      number fun run => { run with taken := true }
    LastLive live loader.controller marked ∧ (∀ run ∈ marked, RunSound isAbortError run) ∧
      marked.filterMap outcome = loader.outcomes ++ [(run.params, response)] := by
  have untaken := (sound.each run (List.mem_of_getElem? found)).early (.inr answered)
  have current : loader.controller = some number :=
    (sound.runs.live_iff number run found).mp ⟨going, by simp [answered]⟩
  dsimp only
  rw [List.modify_modify_eq]
  refine ⟨sound.runs.modify fun before same => ?_, fun other member => ?_, ?_⟩
  · cases found.symm.trans same
    simp [live, answered]
  · obtain known | ⟨before, same, rfl⟩ := mem_modify member
    · exact sound.each other known
    · cases found.symm.trans same
      exact ⟨fun stage => by simp at stage, fun _ _ => ⟨response, given, .inl rfl⟩⟩
  · rw [filterMap_modify_last (sound.runs.last number current) found (by simp [outcome, untaken])]
    simp [outcome, given, outcomes]

omit [DecidableEq K] in
theorem Sound.handled (sound : loader.Sound key isAbortError) {run : LoadRun P T E}
    (found : loader.runs[number]? = some run) (answered : run.stage = .answered)
    {response : Response T E} (given : run.response = some response) (now : Time) :
    (if run.aborted then loader.update number fun run => { run with stage := .handled }
      else (loader.update number fun run => { run with stage := .handled }).take key
        isAbortError number run.params response now).Sound key isAbortError := by
  have ofRun := sound.each run (List.mem_of_getElem? found)
  have untaken := ofRun.early (.inr answered)
  split
  · rename_i aborted
    refine sound.update fun before same => ?_
    cases found.symm.trans same
    exact ⟨by simp [live, aborted], ⟨fun stage => by simp at stage, fun going => by simp [aborted] at going⟩,
      rfl⟩
  · rename_i going
    rw [Bool.not_eq_true] at going
    have current : loader.controller = some number :=
      (sound.runs.live_iff number run found).mp ⟨going, by simp [answered]⟩
    obtain ⟨runs, each, outcomes⟩ := sound.marked found answered given going
    obtain ⟨loading, startedAt, busy⟩ := sound.indicated
    cases response with
    | result data =>
        refine ⟨runs, each, ⟨loading, startedAt, busy⟩, ?_⟩
        show _ = (((loader.runs.modify number _).modify number _).filterMap outcome).foldl _ _
        rw [outcomes, List.foldl_append, ← sound.view]
        rfl
    | error e =>
        unfold take
        dsimp only
        split
        · rename_i cancelled
          refine sound.update fun before same => ?_
          cases found.symm.trans same
          exact ⟨by simp [live, answered], ⟨fun stage => by simp at stage,
            fun _ _ => ⟨_, given, .inr ⟨e, rfl, cancelled⟩⟩⟩, rfl⟩
        · refine ⟨runs, each, ⟨loading, startedAt, busy⟩, ?_⟩
          show _ = (((loader.runs.modify number _).modify number _).filterMap outcome).foldl _ _
          rw [outcomes, List.foldl_append, ← sound.view]
          by_cases first : loader.request.failures = 0
          · simp [Loader.view, View.outcome, RequestState.failed, first, Loader.update]
          · simp [Loader.view, View.outcome, RequestState.failed, first, Loader.update]

omit [DecidableEq K] in
theorem Sound.finished (sound : loader.Sound key isAbortError) {run : LoadRun P T E}
    (found : loader.runs[number]? = some run) (handled : run.stage = .handled) (now : Time) :
    (if loader.controller = some number then
        { loader.update number fun run => { run with stage := .finished } with
          controller := none, request := loader.request.stopped true now }
      else loader.update number fun run => { run with stage := .finished }).Sound key
        isAbortError := by
  have settled {before : LoadRun P T E} (same : loader.runs[number]? = some before) :
      RunSound isAbortError { before with stage := .finished } := by
    cases found.symm.trans same
    exact ⟨fun stage => by simp at stage, fun going _ =>
      (sound.each run (List.mem_of_getElem? found)).settled going (.inl handled)⟩
  split
  · rename_i current
    have runs := sound.runs
    rw [current] at runs
    have same : (loader.update number fun run =>
        { run with stage := .finished }).outcomes = loader.outcomes :=
      filterMap_modify fun _ _ => rfl
    refine ⟨runs.close fun _ live => live.2 rfl, fun run member => ?_, ⟨rfl, rfl, rfl⟩,
      sound.view.trans (congrArg _ same.symm)⟩
    obtain known | ⟨before, same, rfl⟩ := mem_modify member
    · exact sound.each run known
    · exact settled same
  · rename_i other
    refine sound.update fun before same => ⟨?_, settled same, rfl⟩
    have ended := sound.runs.live_iff number before same
    rw [ended]
    simp [live, other]

theorem Sound.step (sound : loader.Sound key isAbortError)
    (taken : loader.step key isAbortError action = some after) :
    after.Sound key isAbortError := by
  obtain ⟨params, rfl, rfl⟩ | ⟨now, rfl, _, rfl⟩ | ⟨force, now, rfl, same | ran⟩ |
    ⟨number, response, run, rfl, found, requested, rfl⟩ |
    ⟨number, now, run, response, rfl, found, answered, given, rfl⟩ |
    ⟨number, now, run, rfl, found, handled, rfl⟩ | ⟨rfl, timer, rfl⟩ | ⟨now, rfl, rfl⟩ :=
    step_cases taken
  · exact ⟨sound.runs, sound.each, sound.indicated, sound.view⟩
  · exact Sound.run ⟨sound.runs, sound.each, sound.indicated, sound.view⟩
  · exact same ▸ sound
  · exact ran ▸ sound.run
  · exact sound.answered found requested response
  · exact sound.handled found answered given now
  · exact sound.finished found handled now
  · refine ⟨sound.runs, sound.each, ⟨sound.indicated.loading, sound.indicated.startedAt, ?_⟩,
      sound.view⟩
    rw [← sound.indicated.busy, timer]
    simp
  · have aborted : (loader.abort now).Sound key isAbortError := sound.abort
    exact ⟨aborted.runs, aborted.each, aborted.indicated, aborted.view⟩

omit [DecidableEq K] in
theorem useLoader_sound (params : Option P) (now : Time) :
    (useLoader key params now : Loader P T E K).Sound key isAbortError := by
  have created : Sound key isAbortError (⟨params, params.map key, true, none, none, none,
      .createRequestState, [], []⟩ : Loader P T E K) :=
    ⟨.nothing, fun _ member => absurd member List.not_mem_nil, ⟨rfl, rfl, rfl⟩, rfl⟩
  unfold useLoader
  dsimp only
  split
  · exact created.abort
  · exact created.run

/-- What a loader shows is what one would show that sends a request after the one
before it is settled, and the request that is indicated is the newest one. -/
theorem loads_in_order {key : P → K} {isAbortError : E → Bool} {params : Option P} {now : Time}
    {loader : Loader P T E K}
    (run : Reaches (step key isAbortError) (fun _ _ => True) (useLoader key params now) loader) :
    loader.view = loader.outcomes.foldl (View.outcome key) .nothing ∧
      (loader.request.loading = true ↔ ∃ run, loader.runs.getLast? = some run ∧ live run) ∧
      (∀ number run, loader.runs[number]? = some run → live run →
        loader.controller = some number ∧ number + 1 = loader.runs.length) ∧
      (loader.request.busy || loader.request.busyTimer) = loader.request.loading := by
  have sound : loader.Sound key isAbortError :=
    run.invariant (fun _ _ _ sound _ taken => sound.step taken) (useLoader_sound params now)
  refine ⟨sound.view, ?_, fun number run found isLive => ?_, ?_⟩
  · rw [sound.indicated.loading]
    exact sound.runs.current_iff
  · have current := (sound.runs.live_iff number run found).mp isLive
    exact ⟨current, sound.runs.last number current⟩
  · rw [sound.indicated.busy, sound.indicated.loading]

/-- Two requests, the older one being answered last. -/
def overtaken : List (LoaderAction Nat Nat Nat) :=
  [.setParams (some 5), .flush 1, .answer 1 (.result 50), .answer 0 (.result 40), .handle 1 2,
    .handle 0 3, .finish 1 4, .finish 0 5]

theorem loads_in_order_overtaken :
    ∃ loader : Loader Nat Nat Nat Nat, Reaches (step id fun _ => false) (fun _ _ => True)
      (useLoader id (some 4) 0) loader ∧ loader.data = some 50 ∧
        loader.view = loader.outcomes.foldl (View.outcome id) .nothing := by
  obtain ⟨loader, run, checked⟩ := exists_reaches_of_execute (step id fun _ => false)
    (fun _ _ => True) (useLoader id (some 4) 0 : Loader Nat Nat Nat Nat) overtaken
    (fun loader => loader.data == some 50) (by decide)
  exact ⟨loader, run, by simpa using checked, (loads_in_order run).1⟩

end Loader

end Ora.Ui
