import Ora.Library.Rank
import Ora.Ui.QueryWrites

/-!
# Values in the query of a route

`useRouteQuery` of `ui/src/util/query.ts`, on the overlay that other parameters of the
page are written to as well.
-/

namespace Ora.Ui

open Ora.Library

variable {V : Type}

/-- What the timer and the router do without another write or navigation. -/
def QueryAction.isOwn : QueryAction → Bool
  | .flush => true
  | .arrive => true
  | .settle _ => true
  | _ => false

namespace RouteQueries

variable {queries after later : RouteQueries} {action : QueryAction} {key : Text}

/-- Nothing is left to do for the timer and the router. -/
def quiet (queries : RouteQueries) : Bool :=
  !queries.flushTimer && queries.replaces.all fun replace => replace.state = .settled

/-- The steps that the timer and the router have left. -/
def work (queries : RouteQueries) : Nat :=
  3 * queries.flushTimer.toNat +
    queries.replaces.countP (fun replace => replace.state ≠ .settled) +
    queries.replaces.countP (fun replace => replace.state = .running)

theorem work_afterEach (queries : RouteQueries) (target source : CurrentRoute) :
    (queries.afterEach target source).work ≤ queries.work := by
  unfold afterEach
  split
  · simp only [work, Bool.toNat_false]
    omega
  · exact Nat.le_refl _

theorem work_mark {number : Nat} {replace : Replacement} (state : ReplaceState)
    (found : queries.replaces[number]? = some replace) :
    (queries.mark number state).work +
        ((decide (replace.state ≠ .settled)).toNat + (decide (replace.state = .running)).toNat) =
      queries.work + ((decide (state ≠ .settled)).toNat + (decide (state = .running)).toNat) := by
  have unsettled := countP_modify (fun replace => { replace with state := state })
    (fun replace : Replacement => replace.state ≠ .settled) found
  have running := countP_modify (fun replace => { replace with state := state })
    (fun replace : Replacement => replace.state = .running) found
  dsimp only at unsettled running
  simp only [work, mark]
  omega

theorem cancelRunning_unsettled (replaces : List Replacement) :
    (cancelRunning replaces).countP (fun replace => replace.state ≠ .settled) =
      replaces.countP (fun replace => replace.state ≠ .settled) := by
  unfold cancelRunning
  rw [List.countP_map]
  refine List.countP_congr fun replace _ => ?_
  by_cases running : replace.state = .running
  · simp [running]
  · simp [running]

theorem cancelRunning_running (replaces : List Replacement) :
    (cancelRunning replaces).countP (fun replace => replace.state = .running) = 0 := by
  rw [List.countP_eq_zero]
  intro replace member
  simpa using (cancelRunning_cases member).1

theorem work_flush (set : queries.flushTimer = true) : queries.flush.work + 1 ≤ queries.work := by
  unfold flush
  dsimp only
  split
  · simp only [work, set, Bool.toNat_true, Bool.toNat_false]
    omega
  · split
    · simp only [work, set, Bool.toNat_true, Bool.toNat_false]
      omega
    · simp only [work, set, List.countP_append, cancelRunning_unsettled, cancelRunning_running,
        List.countP_singleton, Bool.toNat_true, Bool.toNat_false, ne_eq, reduceCtorEq,
        not_false_eq_true, decide_true, if_true]
      omega

theorem work_step (own : action.isOwn = true) (taken : queries.step action = some after) :
    after.work + 1 ≤ queries.work := by
  cases action with
  | flush =>
      obtain ⟨set, taken⟩ := Option.ite_none_right_eq_some.mp taken
      cases taken
      exact work_flush set
  | arrive =>
      obtain ⟨replace, last, running, rfl⟩ := step_arrive taken
      rw [List.getLast?_eq_getElem?] at last
      have marked : (queries.mark (queries.replaces.length - 1) .arrived).work + 1 =
          queries.work := by simpa [running] using work_mark .arrived last
      exact Nat.le_trans (Nat.succ_le_succ (work_afterEach _ _ _)) (Nat.le_of_eq marked)
  | settle number =>
      obtain ⟨replace, found, ended, rfl⟩ := step_settle taken
      have marked : (queries.mark number .settled).work + 1 = queries.work := by
        obtain arrived | cancelled := ended
        · simpa [arrived] using work_mark .settled found
        · simpa [cancelled] using work_mark .settled found
      have same : (queries.settle number replace).work = (queries.mark number .settled).work := by
        unfold settle
        dsimp only
        split
        · rfl
        · rfl
      rw [same]
      exact Nat.le_of_eq marked
  | write changes => cases own
  | navigate target => cases own
  | failed target => cases own

theorem own_allowed (own : action.isOwn = true) : Allowed queries action := by
  cases action with
  | failed target => cases own
  | navigate target => cases own
  | write changes => trivial
  | flush => trivial
  | arrive => trivial
  | settle number => trivial

theorem own_kept (sound : queries.Sound) (own : action.isOwn = true)
    (taken : queries.step action = some after) :
    after.written = queries.written ∧ after.route.path = queries.route.path := by
  cases action with
  | flush =>
      obtain ⟨_, taken⟩ := Option.ite_none_right_eq_some.mp taken
      cases taken
      unfold flush
      dsimp only
      split
      · exact ⟨rfl, rfl⟩
      · split
        · exact ⟨rfl, rfl⟩
        · exact ⟨rfl, rfl⟩
  | arrive =>
      obtain ⟨replace, last, running, rfl⟩ := step_arrive taken
      rw [List.getLast?_eq_getElem?] at last
      have here := (sound.running _ replace last running).2.2
      rw [afterEach_same here]
      exact ⟨rfl, here⟩
  | settle number =>
      obtain ⟨replace, found, _, rfl⟩ := step_settle taken
      unfold settle
      dsimp only
      split
      · exact ⟨rfl, rfl⟩
      · exact ⟨rfl, rfl⟩
  | write changes => cases own
  | navigate target => cases own
  | failed target => cases own

/-- The timer or the router has a step left. -/
theorem Sound.exists_step (sound : queries.Sound) (busy : queries.quiet = false) :
    ∃ action, action.isOwn = true ∧ (queries.step action).isSome = true := by
  by_cases set : queries.flushTimer = true
  · exact ⟨.flush, rfl, by simp [RouteQueries.step, set]⟩
  · simp only [quiet, set, Bool.not_false, Bool.true_and, List.all_eq_false] at busy
    obtain ⟨replace, member, unsettled⟩ := busy
    obtain ⟨number, found⟩ := List.mem_iff_getElem?.mp member
    cases state : replace.state with
    | running =>
        obtain ⟨_, last, _⟩ := sound.running number replace found state
        have newest : queries.replaces.getLast? = some replace := by
          rw [List.getLast?_eq_getElem?, ← last]
          exact found
        obtain ⟨path, query, flushed, pending, _⟩ := replace
        cases state
        exact ⟨.arrive, rfl, by simp [RouteQueries.step, newest]⟩
    | arrived => exact ⟨.settle number, rfl, by simp [RouteQueries.step, found, state]⟩
    | cancelled => exact ⟨.settle number, rfl, by simp [RouteQueries.step, found, state]⟩
    | settled => exact absurd state (by simpa using unsettled)

/-- Nothing is pending when nothing is left to do. -/
theorem Sound.overlay_of_quiet (sound : queries.Sound) (quiet : queries.quiet = true) :
    queries.overlay = none := by
  obtain ⟨unset, settled⟩ := (Bool.and_eq_true_iff ..).mp quiet
  cases overlay : queries.overlay with
  | none => rfl
  | some pending =>
      obtain ⟨replace, last, _, _, state⟩ := sound.flushed (by simpa using unset) pending overlay
      have ended : replace.state = .settled := by
        simpa using List.all_eq_true.mp settled replace (List.mem_of_getLast? last)
      rw [ended] at state
      simp at state

theorem Sound.run {allowed : RouteQueries → QueryAction → Prop} (sound : queries.Sound)
    (permits : ∀ queries action, allowed queries action → Allowed queries action)
    (run : Reaches RouteQueries.step allowed queries after) : after.Sound :=
  run.invariant (fun queries _ _ sound permitted taken =>
    sound.step (permits queries _ permitted) taken) sound

theorem Sound.own_run (sound : queries.Sound)
    (run : Reaches RouteQueries.step (fun _ action => action.isOwn = true) queries after) :
    after.written = queries.written ∧ after.route.path = queries.route.path := by
  induction run with
  | refl => exact ⟨rfl, rfl⟩
  | tail before own taken ih =>
      obtain ⟨written, path⟩ := own_kept (sound.run (fun _ _ => own_allowed) before) own taken
      exact ⟨written.trans ih.1, path.trans ih.2⟩

/-- What is written to the query is shown at once.  The timer and the router take a bounded
number of steps, after which the route has what was written. -/
theorem writes_reach_route {route : CurrentRoute} (run : Reaches step Allowed (start route) queries)
    {actions : List QueryAction}
    (own : execute step (fun _ action => action.isOwn = true) queries actions = some after) :
    actions.length ≤ queries.work ∧
      (∀ key, normalize (after.currentQuery.raw key) = queries.written key) ∧
      (after.quiet = false → ∃ action, action.isOwn = true ∧ (after.step action).isSome = true) ∧
      (after.quiet = true → after.overlay = none ∧ after.route.path = queries.route.path ∧
        ∀ key, normalize (after.route.query.raw key) = queries.written key) := by
  have sound : queries.Sound := (start_sound route).run (fun _ _ permitted => permitted) run
  have ownRun := reaches_of_execute own
  have last : after.Sound := sound.run (fun _ _ => own_allowed) ownRun
  obtain ⟨written, path⟩ := sound.own_run ownRun
  have shown : ∀ key, normalize (after.currentQuery.raw key) = queries.written key :=
    fun key => (last.shown key).trans (congrFun written key)
  refine ⟨?_, shown, last.exists_step, fun quiet => ?_⟩
  · have falls : ∀ (queries : RouteQueries) (action : QueryAction) (after : RouteQueries),
        action.isOwn = true → queries.step action = some after →
          after.work + true.toNat ≤ queries.work :=
      fun _ _ _ own taken => work_step own taken
    have bound := rank_of_execute falls own
    rw [List.countP_true] at bound
    omega
  · have overlay := last.overlay_of_quiet quiet
    refine ⟨overlay, path, fun key => ?_⟩
    rw [← shown key, currentQuery_of_none overlay]

instance (queries : RouteQueries) (action : QueryAction) : Decidable (Allowed queries action) :=
  match action with
  | .navigate target => inferInstanceAs (Decidable (target.path ≠ queries.route.path ∨
      queries.overlay = none))
  | .failed target => inferInstanceAs (Decidable (target.path = queries.route.path))
  | .write _ => .isTrue trivial
  | .flush => .isTrue trivial
  | .arrive => .isTrue trivial
  | .settle _ => .isTrue trivial

def jobsRoute : CurrentRoute :=
  ⟨['/', 'j'], [(['n'], .one (some ['9']))]⟩

/-- Two writes, the second one after the first is on its way to the route. -/
def overlapping : List QueryAction :=
  [.write (.single ['n'] [['5']]), .flush, .write (.single ['s'] [['a'], ['b']]), .arrive]

theorem writes_reach_route_overlapping :
    ∃ queries after, Reaches step Allowed (start jobsRoute) queries ∧
      execute step (fun _ action => action.isOwn = true) queries
        [.settle 0, .flush, .arrive, .settle 1] = some after ∧
      normalize (after.route.query.raw ['n']) = [['5']] ∧
      normalize (after.route.query.raw ['s']) = [['a'], ['b']] := by
  obtain ⟨queries, run, checked⟩ := exists_reaches_of_execute step Allowed (start jobsRoute)
    overlapping (fun queries => queries.written ['n'] == [['5']] &&
      queries.written ['s'] == [['a'], ['b']] &&
      (execute step (fun _ action => action.isOwn = true) queries
        [.settle 0, .flush, .arrive, .settle 1]).any quiet) (by decide)
  simp only [Bool.and_eq_true, beq_iff_eq] at checked
  obtain ⟨⟨first, second⟩, executed⟩ := checked
  obtain ⟨after, own, quiet⟩ := (Option.any_eq_true ..).mp executed
  obtain ⟨_, _, _, reached⟩ := writes_reach_route run own
  obtain ⟨_, _, values⟩ := reached quiet
  exact ⟨queries, after, run, own, (values _).trans first, (values _).trans second⟩

end RouteQueries

section Values

variable {param : QueryParam V} {default next : V} {queries after later : RouteQueries}
  {action : QueryAction} {key : Text}

/-- What the values of a parameter are decoded to, by default without any. -/
def QueryParam.read (param : QueryParam V) (default : V) (values : List Text) : V :=
  if values.isEmpty then default else (param.decode values).value.getD default

/-- The value of `useRouteQuery` -/
def RouteQueries.value (queries : RouteQueries) (param : QueryParam V) (key : Text) (default : V) :
    V :=
  param.read default (normalize (queries.currentQuery.raw key))

/-- Sets the value of `useRouteQuery`, the default is omitted from the route. -/
def RouteQueries.setValue (queries : RouteQueries) (param : QueryParam V) (key : Text)
    (default next : V) : Option RouteQueries := do
  let defaultEncoded ← param.encode default
  let encoded ← param.encode next
  return queries.writeQuery (.single key (if encoded = defaultEncoded then [] else encoded))

/-- Other parameters are written, and the page and its query are not left. -/
def RouteQueries.Keeps (key : Text) (queries : RouteQueries) : QueryAction → Prop
  | .write changes => key ∉ changes.entries.map Prod.fst
  | .navigate _ => False
  | .failed target => target.path = queries.route.path
  | _ => True

/-- What is written for a value is read as the value, also if it is the default. -/
theorem QueryParam.read_written (restores : param.Restores default next)
    (restoresDefault : param.Restores default default) :
    ∃ texts defaults, param.encode next = some texts ∧ param.encode default = some defaults ∧
      param.read default (if texts = defaults then [] else texts) = next := by
  obtain ⟨texts, encoded, restored⟩ := restores
  obtain ⟨defaults, encodedDefault, restoredDefault⟩ := restoresDefault
  refine ⟨texts, defaults, encoded, encodedDefault, ?_⟩
  by_cases empty : texts.isEmpty = true
  · rw [if_pos empty] at restored
    have written : (if texts = defaults then [] else texts) = [] := by
      rw [List.isEmpty_iff.mp empty]
      exact ite_self _
    rw [written, restored]
    rfl
  · rw [if_neg empty] at restored
    split
    · rename_i same
      subst same
      rw [if_neg empty, restored] at restoredDefault
      cases restoredDefault
      rfl
    · unfold QueryParam.read
      rw [if_neg empty, restored]
      rfl

namespace RouteQueries

theorem Sound.value_eq (sound : queries.Sound) (param : QueryParam V) (key : Text) (default : V) :
    queries.value param key default = param.read default (queries.written key) := by
  unfold value
  rw [sound.shown key]

theorem writeQuery_written (queries : RouteQueries) (changes : QueryChanges) :
    (queries.writeQuery changes).written = writeTo queries.written changes.entries := by
  unfold writeQuery
  dsimp only
  split
  · rfl
  · rfl

theorem keeps_allowed (keeps : Keeps key queries action) : Allowed queries action := by
  cases action with
  | navigate target => exact keeps.elim
  | failed target => exact keeps
  | write changes => trivial
  | flush => trivial
  | arrive => trivial
  | settle number => trivial

theorem keeps_written (sound : queries.Sound) (keeps : Keeps key queries action)
    (taken : queries.step action = some after) : after.written key = queries.written key := by
  cases action with
  | write changes =>
      cases taken
      rw [writeQuery_written]
      exact writeTo_unnamed keeps
  | navigate target => exact keeps.elim
  | failed target =>
      cases taken
      rw [afterEach_same keeps]
  | flush => exact congrFun (own_kept sound rfl taken).1 key
  | arrive => exact congrFun (own_kept sound rfl taken).1 key
  | settle number => exact congrFun (own_kept sound rfl taken).1 key

theorem Sound.kept_run (sound : queries.Sound)
    (run : Reaches RouteQueries.step (Keeps key) queries later) :
    later.written key = queries.written key := by
  induction run with
  | refl => rfl
  | tail before keeps taken ih =>
      have kept := keeps_written (sound.run (fun _ _ => keeps_allowed) before) keeps taken
      exact kept.trans ih

/-- The value that is set is read while other parameters are written and the route is
updated, and after the page is loaded again with the route. -/
theorem value_kept {route : CurrentRoute} (run : Reaches step Allowed (start route) queries)
    (restores : param.Restores default next) (restoresDefault : param.Restores default default)
    (key : Text) :
    ∃ after, queries.setValue param key default next = some after ∧
      ∀ later, Reaches step (Keeps key) after later →
        later.value param key default = next ∧
          (later.quiet = true → (start later.route).value param key default = next) := by
  have sound : queries.Sound := (start_sound route).run (fun _ _ permitted => permitted) run
  obtain ⟨texts, defaults, encoded, encodedDefault, read⟩ :=
    QueryParam.read_written restores restoresDefault
  refine ⟨_, by simp only [setValue, encoded, encodedDefault]; rfl, fun later kept => ?_⟩
  have written := sound.writeQuery (.single key (if texts = defaults then [] else texts))
  have last : later.Sound := written.run (fun _ _ => keeps_allowed) kept
  have shown : later.written key = if texts = defaults then [] else texts := by
    rw [written.kept_run kept, writeQuery_written]
    exact (writeTo_cons ..).trans (if_pos rfl)
  have value := last.value_eq param key default
  rw [shown, read] at value
  refine ⟨value, fun quiet => ?_⟩
  have same : (start later.route).currentQuery = later.currentQuery :=
    (currentQuery_of_none (last.overlay_of_quiet quiet)).symm
  unfold RouteQueries.value at value ⊢
  rw [same]
  exact value

def searchKey : Text :=
  ['s']

instance (key : Text) (queries : RouteQueries) (action : QueryAction) :
    Decidable (Keeps key queries action) :=
  match action with
  | .write changes => inferInstanceAs (Decidable (key ∉ changes.entries.map Prod.fst))
  | .failed target => inferInstanceAs (Decidable (target.path = queries.route.path))
  | .navigate _ => .isFalse id
  | .flush => .isTrue trivial
  | .arrive => .isTrue trivial
  | .settle _ => .isTrue trivial

theorem value_kept_search : ∃ after, (start jobsRoute).setValue Param.string searchKey "" "ab" =
    some after ∧ ∃ later, Reaches step (Keeps searchKey) after later ∧ later.quiet = true ∧
      (start later.route).value Param.string searchKey "" = "ab" := by
  have entered : Reaches step Allowed (start jobsRoute) (start jobsRoute) := .refl
  obtain ⟨after, set, kept⟩ := value_kept entered (Param.string_restores "ab")
    (Param.string_restores "") searchKey
  obtain ⟨later, run, quiet⟩ := exists_reaches_of_execute step (Keeps searchKey) after
    [.flush, .write (.single ['n'] [['5']]), .arrive, .settle 0, .flush, .arrive, .settle 1] quiet (by
      cases set
      decide)
  exact ⟨after, set, later, run, quiet, (kept later run).2 quiet⟩

end RouteQueries

end Values

end Ora.Ui
