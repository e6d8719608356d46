import Ora.Ui.Loader

/-!
# What a loader shows in the end

The watcher sees the changes of the key between the events of the page, so that
the newest request has the key that it has seen.  Where the requests and their
parameters come from is stated for those that load with computed parameters.
-/

namespace Ora.Ui

open Ora.Backend
open Ora.Library

namespace Loader

variable {P T E K : Type} [DecidableEq K] {key : P → K} {isAbortError : E → Bool}
  {loader after : Loader P T E K} {action : LoaderAction P T E} {number : Nat} {now : Time}

/-- The loader is told to reload only when the watcher has seen the key. -/
def Calm (key : P → K) (loader : Loader P T E K) : LoaderAction P T E → Prop
  | .reload _ _ => loader.watched = loader.currentKey key
  | _ => True

instance (key : P → K) (loader : Loader P T E K) (action : LoaderAction P T E) :
    Decidable (Calm key loader action) :=
  match action with
  | .reload _ _ => inferInstanceAs (Decidable (loader.watched = loader.currentKey key))
  | .setParams _ => .isTrue trivial
  | .flush _ => .isTrue trivial
  | .answer _ _ => .isTrue trivial
  | .handle _ _ => .isTrue trivial
  | .finish _ _ => .isTrue trivial
  | .busy => .isTrue trivial
  | .dispose _ => .isTrue trivial

/-- The newest request has the key that the watcher has seen. -/
structure Current (key : P → K) (isAbortError : E → Bool) (loader : Loader P T E K) : Prop
    extends Sound key isAbortError loader where
  newest : loader.active = true → ∀ seen, loader.watched = some seen →
    ∃ run, loader.runs.getLast? = some run ∧ key run.params = seen ∧ run.aborted = false

omit [DecidableEq K] in
theorem run_watched (loader : Loader P T E K) (now : Time) :
    (loader.run now).watched = loader.watched := by
  unfold Loader.run Loader.abort
  split
  · split
    · rfl
    · rfl
  · rfl

omit [DecidableEq K] in
theorem run_newest (loader : Loader P T E K) (now : Time) (seen : loader.watched = loader.currentKey key) {k : K}
    (watched : loader.watched = some k) :
    ∃ run, (loader.run now).runs.getLast? = some run ∧ key run.params = k ∧
      run.aborted = false := by
  obtain ⟨p, params, named⟩ := Option.map_eq_some_iff.mp (seen.symm.trans watched)
  unfold Loader.run
  rw [params]
  exact ⟨_, List.getLast?_concat, named, rfl⟩

/-- What a request and its response are, without what is done with them. -/
def facts (run : LoadRun P T E) : P × Bool × Option (Response T E) :=
  (run.params, run.aborted, run.response)

/-- The newest request stays the same one. -/
structure SameNewest (loader after : Loader P T E K) : Prop where
  active : after.active = loader.active
  watched : after.watched = loader.watched
  newest : after.runs.getLast?.map facts = loader.runs.getLast?.map facts

omit [DecidableEq K] in
theorem SameNewest.trans {middle : Loader P T E K} (first : SameNewest loader middle)
    (second : SameNewest middle after) : SameNewest loader after :=
  ⟨second.active.trans first.active, second.watched.trans first.watched,
    second.newest.trans first.newest⟩

omit [DecidableEq K] in
theorem SameNewest.symm (same : SameNewest loader after) : SameNewest after loader :=
  ⟨same.active.symm, same.watched.symm, same.newest.symm⟩

omit [DecidableEq K] in
theorem SameNewest.last (same : SameNewest loader after) {run : LoadRun P T E}
    (last : loader.runs.getLast? = some run) :
    ∃ changed, after.runs.getLast? = some changed ∧ facts changed = facts run := by
  have newest := same.newest
  rw [last] at newest
  exact Option.map_eq_some_iff.mp newest

omit [DecidableEq K] in
theorem sameNewest_update (loader : Loader P T E K) (number : Nat)
    (change : LoadRun P T E → LoadRun P T E) (same : ∀ run, facts (change run) = facts run) :
    SameNewest loader (loader.update number change) := by
  refine ⟨rfl, rfl, ?_⟩
  cases last : loader.runs.getLast? with
  | none =>
      rw [List.getLast?_eq_none_iff] at last
      simp [update, last]
  | some run =>
      obtain kept | ⟨_, changed⟩ := getLast?_modify number change last
      · exact congrArg (Option.map facts) kept
      · exact (congrArg (Option.map facts) changed).trans (congrArg some (same run))

omit [DecidableEq K] in
theorem sameNewest_take (loader : Loader P T E K) (number : Nat) (p : P) (response : Response T E)
    (now : Time) : SameNewest loader (loader.take key isAbortError number p response now) := by
  have taken := sameNewest_update loader number (fun run => { run with taken := true })
    fun _ => rfl
  cases response with
  | result data => exact ⟨rfl, rfl, taken.newest⟩
  | error e =>
      unfold take
      dsimp only
      split
      · exact ⟨rfl, rfl, rfl⟩
      · exact ⟨rfl, rfl, taken.newest⟩

omit [DecidableEq K] in
theorem Current.keep (current : loader.Current key isAbortError) (same : SameNewest loader after)
    (active : after.active = true) {k : K} (watched : after.watched = some k) :
    ∃ run, after.runs.getLast? = some run ∧ key run.params = k ∧ run.aborted = false := by
  obtain ⟨run, last, named, going⟩ := current.newest (same.active.symm.trans active) k
    (same.watched.symm.trans watched)
  obtain ⟨changed, last, facts⟩ := same.last last
  obtain ⟨params, rest⟩ := Prod.mk.inj facts
  exact ⟨changed, last, (congrArg key params).trans named, (Prod.mk.inj rest).1.trans going⟩

theorem Current.step (current : loader.Current key isAbortError) (calm : Calm key loader action)
    (taken : loader.step key isAbortError action = some after) :
    after.Current key isAbortError := by
  refine ⟨current.toSound.step taken, fun active k watched => ?_⟩
  obtain ⟨params, rfl, rfl⟩ | ⟨now, rfl, _, rfl⟩ | ⟨force, now, rfl, rfl | rfl⟩ |
    ⟨number, response, run, rfl, found, requested, rfl⟩ |
    ⟨number, now, run, response, rfl, found, answered, given, rfl⟩ |
    ⟨number, now, run, rfl, found, handled, rfl⟩ | ⟨rfl, timer, rfl⟩ | ⟨now, rfl, rfl⟩ :=
    step_cases taken
  · exact current.newest active k watched
  · exact run_newest { loader with watched := loader.currentKey key } now rfl
      ((run_watched _ _).symm.trans watched)
  · exact current.newest active k watched
  · exact run_newest loader now calm ((run_watched _ _).symm.trans watched)
  · obtain ⟨newest, last, named, going⟩ := current.newest active k watched
    obtain kept | ⟨_, changed⟩ := getLast?_modify number
      (fun run => { run with stage := .answered, response := some response }) last
    · exact ⟨newest, kept, named, going⟩
    · exact ⟨_, changed, named, going⟩
  · have handled := sameNewest_update loader number (fun run => { run with stage := .handled })
      fun _ => rfl
    refine current.keep ?_ active watched
    split
    · exact handled
    · exact handled.trans (sameNewest_take ..)
  · have finished := sameNewest_update loader number (fun run => { run with stage := .finished })
      fun _ => rfl
    refine current.keep ?_ active watched
    split
    · exact ⟨rfl, rfl, finished.newest⟩
    · exact finished
  · exact current.newest active k watched
  · cases active

omit [DecidableEq K] in
theorem Current.setParams (current : loader.Current key isAbortError) (params : Option P) :
    ({ loader with params := params } : Loader P T E K).Current key isAbortError :=
  ⟨⟨current.runs, current.each, current.indicated, current.view⟩, current.newest⟩

omit [DecidableEq K] in
theorem useLoader_current (params : Option P) (now : Time) :
    (useLoader key params now : Loader P T E K).Current key isAbortError := by
  refine ⟨useLoader_sound params now, fun _ k watched => ?_⟩
  cases params with
  | none => cases watched
  | some p => exact ⟨⟨p, false, .requested, none, false⟩, rfl, Option.some.inj watched, rfl⟩

omit [DecidableEq K] in
theorem abort_params (loader : Loader P T E K) (now : Time) :
    (loader.abort now).params = loader.params := by
  unfold Loader.abort
  split
  · rfl
  · rfl

omit [DecidableEq K] in
theorem run_params (loader : Loader P T E K) (now : Time) :
    (loader.run now).params = loader.params := by
  unfold Loader.run
  split
  · exact abort_params loader now
  · rfl

omit [DecidableEq K] in
theorem take_params (loader : Loader P T E K) (number : Nat) (p : P) (response : Response T E)
    (now : Time) : (loader.take key isAbortError number p response now).params = loader.params := by
  cases response with
  | result data => rfl
  | error e =>
      unfold take
      dsimp only
      split
      · rfl
      · rfl

/-- Only `setParams` changes the parameters. -/
theorem step_params (taken : loader.step key isAbortError action = some after)
    (computed : ∀ params, action ≠ .setParams params) : after.params = loader.params := by
  obtain ⟨params, rfl, _⟩ | ⟨now, rfl, _, rfl⟩ | ⟨force, now, rfl, rfl | rfl⟩ |
    ⟨number, response, run, rfl, found, requested, rfl⟩ |
    ⟨number, now, run, response, rfl, found, answered, given, rfl⟩ |
    ⟨number, now, run, rfl, found, handled, rfl⟩ | ⟨rfl, timer, rfl⟩ | ⟨now, rfl, rfl⟩ :=
    step_cases taken
  · exact absurd rfl (computed params)
  · exact run_params ..
  · rfl
  · exact run_params ..
  · rfl
  · split
    · rfl
    · exact take_params ..
  · split
    · rfl
    · rfl
  · rfl
  · exact abort_params ..

/-- The parameters of these requests are those of others. -/
def SameParams (before after : List (LoadRun P T E)) : Prop :=
  ∀ run ∈ after, ∃ known ∈ before, run.params = known.params

theorem sameParams_modify (runs : List (LoadRun P T E)) (number : Nat)
    (change : LoadRun P T E → LoadRun P T E) (same : ∀ run, (change run).params = run.params) :
    SameParams runs (runs.modify number change) := by
  intro run member
  obtain known | ⟨before, found, rfl⟩ := mem_modify member
  · exact ⟨run, known, rfl⟩
  · exact ⟨before, List.mem_of_getElem? found, same before⟩

theorem SameParams.trans {first second third : List (LoadRun P T E)}
    (left : SameParams first second) (right : SameParams second third) :
    SameParams first third := by
  intro run member
  obtain ⟨between, member, same⟩ := right run member
  obtain ⟨known, member, same'⟩ := left between member
  exact ⟨known, member, same.trans same'⟩

omit [DecidableEq K] in
theorem sameParams_abortController (loader : Loader P T E K) :
    SameParams loader.runs loader.abortController := by
  unfold abortController
  split
  · exact fun run member => ⟨run, member, rfl⟩
  · exact sameParams_modify _ _ _ fun _ => rfl

omit [DecidableEq K] in
theorem sameParams_take (loader : Loader P T E K) (number : Nat) (p : P)
    (response : Response T E) (now : Time) :
    SameParams loader.runs (loader.take key isAbortError number p response now).runs := by
  have taken := sameParams_modify loader.runs number (fun run => { run with taken := true })
    fun _ => rfl
  cases response with
  | result data => exact taken
  | error e =>
      unfold take
      dsimp only
      split
      · exact fun run member => ⟨run, member, rfl⟩
      · exact taken

omit [DecidableEq K] in
theorem run_sent (loader : Loader P T E K) (now : Time) :
    ∀ run ∈ (loader.run now).runs, loader.params = some run.params ∨
      ∃ known ∈ loader.runs, run.params = known.params := by
  intro run member
  have earlier := sameParams_abortController loader
  unfold Loader.run at member
  split at member
  · unfold Loader.abort at member
    split at member
    · exact .inr ⟨run, member, rfl⟩
    · exact .inr (earlier run member)
  · rename_i p params
    obtain known | rfl := List.mem_append.mp member |>.imp id List.mem_singleton.mp
    · exact .inr (earlier run known)
    · exact .inl params

/-- A request is sent with the parameters at that time. -/
theorem step_sent (taken : loader.step key isAbortError action = some after) :
    ∀ run ∈ after.runs, loader.params = some run.params ∨
      ∃ known ∈ loader.runs, run.params = known.params := by
  intro sent member
  obtain ⟨params, rfl, rfl⟩ | ⟨now, rfl, _, rfl⟩ | ⟨force, now, rfl, rfl | rfl⟩ |
    ⟨number, response, run, rfl, found, requested, rfl⟩ |
    ⟨number, now, run, response, rfl, found, answered, given, rfl⟩ |
    ⟨number, now, run, rfl, found, handled, rfl⟩ | ⟨rfl, timer, rfl⟩ | ⟨now, rfl, rfl⟩ :=
    step_cases taken
  · exact .inr ⟨sent, member, rfl⟩
  · exact run_sent { loader with watched := loader.currentKey key } now sent member
  · exact .inr ⟨sent, member, rfl⟩
  · exact run_sent _ _ sent member
  · have answered := sameParams_modify loader.runs number
      (fun run => { run with stage := .answered, response := some response }) fun _ => rfl
    exact .inr (answered sent member)
  · have handled := sameParams_modify loader.runs number
      (fun run => { run with stage := .handled }) fun _ => rfl
    split at member
    · exact .inr (handled sent member)
    · exact .inr (handled.trans (sameParams_take _ number run.params response now) sent member)
  · have finished := sameParams_modify loader.runs number
      (fun run => { run with stage := .finished }) fun _ => rfl
    split at member
    · exact .inr (finished sent member)
    · exact .inr (finished sent member)
  · exact .inr ⟨sent, member, rfl⟩
  · dsimp only at member
    unfold Loader.abort at member
    split at member
    · exact .inr ⟨sent, member, rfl⟩
    · exact .inr (sameParams_abortController loader sent member)

/-- Another request than before has no response yet. -/
theorem step_newest (taken : loader.step key isAbortError action = some after) {p : P}
    (params : loader.params = some p) :
    SameNewest loader after ∨ after.active = false ∨
      (∀ run, after.runs.getLast? = some run → run.response = none) ∨
      ∃ number response, action = .answer number response := by
  have same : SameNewest loader loader := ⟨rfl, rfl, rfl⟩
  have another (loader : Loader P T E K) (params : loader.params = some p) (now : Time) :
      ∀ run, (loader.run now).runs.getLast? = some run → run.response = none := by
    intro run last
    unfold Loader.run at last
    rw [params] at last
    cases (List.getLast?_concat ..).symm.trans last
    rfl
  obtain ⟨params, rfl, rfl⟩ | ⟨now, rfl, _, rfl⟩ | ⟨force, now, rfl, rfl | rfl⟩ |
    ⟨number, response, run, rfl, found, requested, rfl⟩ |
    ⟨number, now, run, response, rfl, found, answered, given, rfl⟩ |
    ⟨number, now, run, rfl, found, handled, rfl⟩ | ⟨rfl, timer, rfl⟩ | ⟨now, rfl, rfl⟩ :=
    step_cases taken
  · exact .inl ⟨rfl, rfl, same.newest⟩
  · exact .inr (.inr (.inl (another
      { loader with watched := loader.currentKey key } params now)))
  · exact .inl same
  · exact .inr (.inr (.inl (another loader params now)))
  · exact .inr (.inr (.inr ⟨number, response, rfl⟩))
  · refine .inl ?_
    have handled := sameNewest_update loader number (fun run => { run with stage := .handled })
      fun _ => rfl
    split
    · exact handled
    · exact handled.trans (sameNewest_take ..)
  · refine .inl ?_
    have finished := sameNewest_update loader number (fun run => { run with stage := .finished })
      fun _ => rfl
    split
    · exact ⟨rfl, rfl, finished.newest⟩
    · exact finished
  · exact .inl ⟨rfl, rfl, same.newest⟩
  · exact .inr (.inl rfl)

omit [DecidableEq K] in
/-- The outcome of the newest request is the last one that the view is made of. -/
theorem Sound.view_newest (sound : loader.Sound key isAbortError) {run : LoadRun P T E}
    (last : loader.runs.getLast? = some run) {response : Response T E}
    (given : run.response = some response) (taken : run.taken = true) :
    ∃ before, loader.view = View.outcome key before (run.params, response) := by
  obtain ⟨earlier, runs⟩ := List.getLast?_eq_some_iff.mp last
  refine ⟨(earlier.filterMap outcome).foldl (View.outcome key) .nothing, ?_⟩
  rw [sound.view, outcomes, runs, List.filterMap_append, List.foldl_append]
  simp [outcome, taken, given]

/-- What is shown is what the newest request, which has the key, was answered with. -/
def ShowsNewest (key : P → K) (isAbortError : E → Bool) (loader : Loader P T E K) : Prop :=
  ∃ run response, loader.runs.getLast? = some run ∧
    some (key run.params) = loader.currentKey key ∧ run.response = some response ∧
    match response with
    | .result data =>
        loader.data = some data ∧ loader.stale key = false ∧ loader.request.error = none
    | .error e => isAbortError e = true ∨ loader.request.error = some e

theorem Current.shows (current : loader.Current key isAbortError) (active : loader.active = true)
    (seen : loader.watched = loader.currentKey key) (enabled : loader.enabled key = true)
    (settled : loader.request.loading = false) : loader.ShowsNewest key isAbortError := by
  obtain ⟨k, named⟩ := Option.isSome_iff_exists.mp enabled
  obtain ⟨run, last, same, going⟩ := current.newest active k (seen.trans named)
  have ended : ¬ live run := fun isLive => by
    have waits := current.runs.current_iff.mpr ⟨run, last, isLive⟩
    rw [← current.indicated.loading, settled] at waits
    cases waits
  have finished : run.stage = .finished := by
    by_contra unfinished
    exact ended ⟨going, unfinished⟩
  obtain ⟨response, given, outcome⟩ :=
    (current.each run (List.mem_of_getLast? last)).settled going (.inr finished)
  refine ⟨run, response, last, by rw [same, named], given, ?_⟩
  obtain taken | ⟨e, rfl, cancelled⟩ := outcome
  · obtain ⟨before, view⟩ := current.view_newest last given taken
    cases response with
    | result data =>
        have loadedKey : loader.loadedKey = some (key run.params) := congrArg View.loadedKey view
        refine ⟨congrArg View.data view, ?_, congrArg View.error view⟩
        rw [stale, loadedKey, named, same]
        simp
    | error e => exact .inr (congrArg View.error view)
  · exact .inl cancelled

/-- Once the watcher has seen the key and nothing is loading, the outcome of the newest
request is shown. -/
theorem shows_newest {key : P → K} {isAbortError : E → Bool} {params : Option P} {now : Time}
    {loader : Loader P T E K}
    (run : Reaches (step key isAbortError) (Calm key) (useLoader key params now) loader)
    (active : loader.active = true) (seen : loader.watched = loader.currentKey key)
    (enabled : loader.enabled key = true) (settled : loader.request.loading = false) :
    loader.ShowsNewest key isAbortError := by
  have current : loader.Current key isAbortError :=
    run.invariant (fun _ _ _ current calm taken => current.step calm taken)
      (useLoader_current params now)
  exact current.shows active seen enabled settled

-- A reload between two changes of the parameters that the watcher does not notice.
example : (execute (step id fun _ => false) (fun _ _ => True)
    (useLoader id (some 4) 0 : Loader Nat Nat Nat Nat) [.setParams (some 5), .reload true 1,
      .setParams (some 4), .answer 1 (.result 50), .handle 1 2, .finish 1 3]).any
    (fun loader => loader.stale id && !loader.request.loading) = true := by decide

theorem shows_newest_overtaken :
    ∃ loader : Loader Nat Nat Nat Nat, Reaches (step id fun _ => false) (Calm id)
      (useLoader id (some 4) 0) loader ∧ ∃ run response, loader.runs.getLast? = some run ∧
        run.response = some response ∧ loader.currentKey id = some run.params := by
  obtain ⟨loader, run, checked⟩ := exists_reaches_of_execute (step id fun _ => false)
    (Calm id) (useLoader id (some 4) 0 : Loader Nat Nat Nat Nat) overtaken
    (fun loader => loader.active && loader.watched == loader.currentKey id &&
      loader.enabled id && !loader.request.loading) (by decide)
  simp only [Bool.and_eq_true, beq_iff_eq, Bool.not_eq_true'] at checked
  obtain ⟨⟨⟨active, seen⟩, enabled⟩, settled⟩ := checked
  obtain ⟨newest, response, last, named, given, _⟩ := shows_newest run active seen enabled settled
  exact ⟨loader, run, newest, response, last, given, named.symm⟩

end Loader

end Ora.Ui
