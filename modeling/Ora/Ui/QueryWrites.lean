import Ora.Ui.QueryOverlay

/-!
# Written queries reach the route

The changes that are pending are those that the newest replacement carries, or those
that the timer is set for.  They are given up once the route has them.
-/

namespace Ora.Ui

open Ora.Library

namespace RouteQueries

variable {queries after : RouteQueries} {action : QueryAction} {number : Nat}
  {replace : Replacement}

/-- The newest replacement carries the pending changes. -/
def Flushed (queries : RouteQueries) (pending : PendingQuery) : Prop :=
  ∃ replace, queries.replaces.getLast? = some replace ∧
    replace.pending = queries.generation ∧ replace.query = pending.query ∧
    (replace.state = .running ∨
      replace.state = .arrived ∧ queries.route.query = pending.query)

structure Sound (queries : RouteQueries) : Prop where
  pending : ∀ pending, queries.overlay = some pending →
    pending.path = queries.route.path ∧ pending.made = queries.generation
  order : (queries.replaces.map Replacement.pending).Pairwise (· < ·)
  known : ∀ replace ∈ queries.replaces,
    replace.flushed = replace.pending ∧ replace.pending ≤ queries.generation
  timer : queries.flushTimer = true → queries.overlay.isSome = true ∧
    ∀ replace ∈ queries.replaces, replace.pending < queries.generation
  running : ∀ number replace, queries.replaces[number]? = some replace →
    replace.state = .running → queries.overlay.isSome = true ∧
      number + 1 = queries.replaces.length ∧ replace.path = queries.route.path
  flushed : queries.flushTimer = false → ∀ pending, queries.overlay = some pending →
    queries.Flushed pending
  shown : ∀ key, normalize (queries.currentQuery.raw key) = queries.written key

theorem currentQuery_of_overlay {pending : PendingQuery} (overlay : queries.overlay = some pending)
    (here : pending.path = queries.route.path) : queries.currentQuery = pending.query := by
  simp only [currentQuery, overlay, here, if_true]

theorem currentQuery_of_none (overlay : queries.overlay = none) :
    queries.currentQuery = queries.route.query := by
  simp only [currentQuery, overlay]

theorem currentQuery_congr (overlay : after.overlay = queries.overlay)
    (route : after.route = queries.route) : after.currentQuery = queries.currentQuery := by
  simp only [currentQuery, overlay, route]

/-- What is shown of a query is what is shown of an equal one. -/
theorem shown_of_eq {query : LocationQuery} {written : Text → List Text}
    (same : queries.currentQuery = query) (shown : ∀ key, normalize (query.raw key) = written key)
    (key : Text) : normalize (queries.currentQuery.raw key) = written key := by
  rw [same, shown key]

theorem start_sound (route : CurrentRoute) : (start route).Sound where
  pending _ overlay := by cases overlay
  order := List.Pairwise.nil
  known _ member := by cases member
  timer set := by cases set
  running _ _ found := by cases found
  flushed _ _ overlay := by cases overlay
  shown _ := rfl

theorem afterEach_same {target source : CurrentRoute} (here : target.path = source.path) :
    queries.afterEach target source = queries := by
  unfold afterEach
  rw [if_neg (not_not.mpr here)]

theorem step_arrive (taken : queries.step .arrive = some after) :
    ∃ replace, queries.replaces.getLast? = some replace ∧ replace.state = .running ∧
      after = afterEach { queries.mark (queries.replaces.length - 1) .arrived with
        route := ⟨replace.path, replace.query⟩ } ⟨replace.path, replace.query⟩ queries.route := by
  unfold step at taken
  dsimp only at taken
  split at taken
  · rename_i path query flushed pending last
    exact ⟨_, last, rfl, (Option.some.inj taken).symm⟩
  · cases taken

theorem step_settle (taken : queries.step (.settle number) = some after) :
    ∃ replace, queries.replaces[number]? = some replace ∧
      (replace.state = .arrived ∨ replace.state = .cancelled) ∧
      after = queries.settle number replace := by
  unfold step at taken
  dsimp only at taken
  split at taken
  · rename_i replace found
    obtain ⟨ended, taken⟩ := Option.ite_none_right_eq_some.mp taken
    exact ⟨replace, found, ended, (Option.some.inj taken).symm⟩
  · cases taken

theorem Sound.writeQuery (sound : queries.Sound) (changes : QueryChanges) :
    (queries.writeQuery changes).Sound := by
  have written : ∀ key, writeTo (fun key => normalize (queries.currentQuery.raw key))
      changes.entries key = writeTo queries.written changes.entries key :=
    fun key => writeTo_congr (sound.shown key)
  unfold RouteQueries.writeQuery
  dsimp only
  split
  · refine ⟨?_, sound.order, ?_, ?_, ?_, ?_, ?_⟩
    · rintro pending ⟨⟩
      exact ⟨rfl, rfl⟩
    · intro replace member
      obtain ⟨same, bound⟩ := sound.known replace member
      exact ⟨same, Nat.le_succ_of_le bound⟩
    · intro _
      constructor
      · rfl
      · exact fun replace member => Nat.lt_succ_of_le (sound.known replace member).2
    · intro number replace found running
      exact ⟨rfl, (sound.running number replace found running).2⟩
    · intro unset
      cases unset
    · exact shown_of_eq (currentQuery_of_overlay rfl rfl) fun key =>
        (normalize_changed queries.currentQuery changes key).trans (written key)
  · rename_i unchanged
    rw [Bool.not_eq_true] at unchanged
    refine ⟨sound.pending, sound.order, sound.known, sound.timer, sound.running, sound.flushed,
      fun key => ?_⟩
    exact (writeTo_unchanged unchanged key).symm.trans (written key)

theorem cancelRunning_pending (replaces : List Replacement) :
    (cancelRunning replaces).map Replacement.pending = replaces.map Replacement.pending := by
  induction replaces with
  | nil => rfl
  | cons replace rest ih =>
      unfold cancelRunning at ih ⊢
      rw [List.map_cons, List.map_cons, List.map_cons, ih]
      split
      · rfl
      · rfl

/-- A replacement that is not running any more is otherwise the same. -/
theorem cancelRunning_cases {replaces : List Replacement}
    (member : replace ∈ cancelRunning replaces) : replace.state ≠ .running ∧
      ∃ before ∈ replaces, replace.flushed = before.flushed ∧ replace.pending = before.pending := by
  obtain ⟨before, known, rfl⟩ := List.mem_map.mp member
  split
  · exact ⟨by simp, before, known, rfl, rfl⟩
  · rename_i other
    exact ⟨other, before, known, rfl, rfl⟩

theorem Sound.flush (sound : queries.Sound) (set : queries.flushTimer = true) :
    queries.flush.Sound := by
  obtain ⟨present, older⟩ := sound.timer set
  obtain ⟨pending, overlay⟩ := Option.isSome_iff_exists.mp present
  obtain ⟨path, made⟩ := sound.pending pending overlay
  unfold RouteQueries.flush
  simp only [overlay, path, ne_eq, not_true_eq_false, if_false]
  refine ⟨?_, ?_, ?_, ?_, ?_, ?_, ?_⟩
  · intro other same
    exact sound.pending other (overlay.trans same)
  · rw [List.map_append, cancelRunning_pending, List.pairwise_append]
    refine ⟨sound.order, List.pairwise_singleton .., fun first earlier second last => ?_⟩
    obtain ⟨replace, member, rfl⟩ := List.mem_map.mp earlier
    rw [List.mem_singleton.mp last]
    exact made ▸ older replace member
  · intro replace member
    obtain cancelled | rfl := List.mem_append.mp member |>.imp id List.mem_singleton.mp
    · obtain ⟨_, before, known, flushed, same⟩ := cancelRunning_cases cancelled
      rw [flushed, same]
      exact sound.known before known
    · exact ⟨made.symm, Nat.le_of_eq made⟩
  · intro unset
    cases unset
  · intro number replace found running
    obtain earlier | later := Nat.lt_or_ge number (cancelRunning queries.replaces).length
    · rw [List.getElem?_append_left earlier] at found
      exact absurd running (cancelRunning_cases (List.mem_of_getElem? found)).1
    · obtain ⟨inside, same⟩ := List.getElem?_eq_some_iff.mp found
      rw [List.length_append, List.length_singleton] at inside
      have place : number = (cancelRunning queries.replaces).length := by omega
      subst place
      rw [List.getElem_concat_length rfl] at same
      subst same
      exact ⟨rfl, by simp, rfl⟩
  · rintro _ other same
    cases same
    exact ⟨_, List.getLast?_concat, made, rfl, .inl rfl⟩
  · exact shown_of_eq (currentQuery_congr overlay.symm rfl) sound.shown

theorem mark_pending (queries : RouteQueries) (number : Nat) (state : ReplaceState) :
    (queries.mark number state).replaces.map Replacement.pending =
      queries.replaces.map Replacement.pending :=
  map_modify fun _ => rfl

theorem mark_cases {state : ReplaceState} (member : replace ∈ (queries.mark number state).replaces) :
    ∃ before ∈ queries.replaces,
      replace.flushed = before.flushed ∧ replace.pending = before.pending := by
  obtain known | ⟨before, found, rfl⟩ := mem_modify member
  · exact ⟨replace, known, rfl, rfl⟩
  · exact ⟨before, List.mem_of_getElem? found, rfl, rfl⟩

/-- A replacement that runs although another one was marked. -/
theorem mark_running {state : ReplaceState} (other : state ≠ .running) {place : Nat}
    (found : (queries.mark number state).replaces[place]? = some replace)
    (running : replace.state = .running) :
    place ≠ number ∧ queries.replaces[place]? = some replace := by
  unfold mark at found
  rw [List.getElem?_modify] at found
  obtain ⟨before, known, rfl⟩ := Option.map_eq_some_iff.mp found
  split at running
  · exact absurd running other
  · rename_i apart
    rw [if_neg apart]
    exact ⟨Ne.symm apart, known⟩

theorem Sound.mark_known (sound : queries.Sound) {state : ReplaceState}
    (member : replace ∈ (queries.mark number state).replaces) :
    replace.flushed = replace.pending ∧ replace.pending ≤ queries.generation := by
  obtain ⟨before, known, flushed, pending⟩ := mark_cases member
  rw [flushed, pending]
  exact sound.known before known

theorem Sound.mark_timer (sound : queries.Sound) {state : ReplaceState}
    (set : queries.flushTimer = true) : queries.overlay.isSome = true ∧
      ∀ replace ∈ (queries.mark number state).replaces, replace.pending < queries.generation := by
  constructor
  · exact (sound.timer set).1
  · intro replace member
    obtain ⟨before, known, _, pending⟩ := mark_cases member
    rw [pending]
    exact (sound.timer set).2 before known

theorem Sound.arrive (sound : queries.Sound) (last : queries.replaces.getLast? = some replace)
    (running : replace.state = .running) :
    Sound { queries.mark (queries.replaces.length - 1) .arrived with
      route := ⟨replace.path, replace.query⟩ } := by
  have found := last
  rw [List.getLast?_eq_getElem?] at found
  obtain ⟨present, place, path⟩ := sound.running _ replace found running
  obtain ⟨pending, overlay⟩ := Option.isSome_iff_exists.mp present
  obtain ⟨pendingPath, made⟩ := sound.pending pending overlay
  refine ⟨?_, ?_, fun _ => sound.mark_known, fun set => sound.mark_timer set, ?_, ?_, ?_⟩
  · intro other same
    exact ⟨(sound.pending other same).1.trans path.symm, (sound.pending other same).2⟩
  · exact (mark_pending ..).symm ▸ sound.order
  · intro number other found' running'
    obtain ⟨apart, known⟩ := mark_running (by simp) found' running'
    obtain ⟨_, here, _⟩ := sound.running number other known running'
    omega
  · intro unset other same
    obtain ⟨carrier, last', carried, query, _⟩ := sound.flushed unset other same
    cases last'.symm.trans last
    exact ⟨_, getLast?_modify_last place found, carried, query, .inr ⟨rfl, query⟩⟩
  · refine shown_of_eq ?_ sound.shown
    rw [currentQuery_of_overlay overlay pendingPath]
    exact currentQuery_of_overlay overlay (pendingPath.trans path.symm)

/-- A replacement for the newest changes is the newest one. -/
theorem Sound.last_of_pending (sound : queries.Sound)
    (found : queries.replaces[number]? = some replace)
    {other : Replacement} (last : queries.replaces.getLast? = some other)
    (same : replace.pending = other.pending) : number + 1 = queries.replaces.length := by
  rw [List.getLast?_eq_getElem?] at last
  obtain ⟨inside, rfl⟩ := List.getElem?_eq_some_iff.mp found
  obtain ⟨inside', rfl⟩ := List.getElem?_eq_some_iff.mp last
  have order := List.pairwise_iff_getElem.mp sound.order
  obtain earlier | equal := Nat.lt_or_eq_of_le (Nat.le_sub_one_of_lt inside)
  · have below := order number (queries.replaces.length - 1)
      (inside.trans_eq (List.length_map _).symm) (inside'.trans_eq (List.length_map _).symm) earlier
    rw [List.getElem_map, List.getElem_map, same] at below
    exact absurd below (Nat.lt_irrefl _)
  · omega

theorem Sound.settle (sound : queries.Sound) (found : queries.replaces[number]? = some replace)
    (ended : replace.state = .arrived ∨ replace.state = .cancelled) :
    (queries.settle number replace).Sound := by
  obtain ⟨flushed, bound⟩ := sound.known replace (List.mem_of_getElem? found)
  unfold RouteQueries.settle
  dsimp only
  split
  · rename_i current
    obtain ⟨newest, overlay⟩ := current
    obtain ⟨pending, overlay, made⟩ := Option.map_eq_some_iff.mp overlay
    obtain ⟨path, _⟩ := sound.pending pending overlay
    have generation : replace.pending = queries.generation := flushed.symm.trans newest
    have unset : queries.flushTimer = false := by
      by_contra set
      rw [Bool.not_eq_false] at set
      have older := (sound.timer set).2 replace (List.mem_of_getElem? found)
      omega
    obtain ⟨carrier, last, carried, query, state⟩ := sound.flushed unset pending overlay
    have place := sound.last_of_pending found last (generation.trans carried.symm)
    rw [List.getLast?_eq_getElem?, ← place, Nat.add_sub_cancel] at last
    cases found.symm.trans last
    have route : queries.route.query = pending.query := by
      obtain running | ⟨_, route⟩ := state
      · obtain arrived | cancelled := ended
        · cases arrived.symm.trans running
        · cases cancelled.symm.trans running
      · exact route
    refine ⟨?_, ?_, fun _ => sound.mark_known, ?_, ?_, ?_, ?_⟩
    · intro _ none_left
      cases none_left
    · exact (mark_pending ..).symm ▸ sound.order
    · intro set
      cases set.symm.trans unset
    · intro place' other found' running
      obtain ⟨apart, known⟩ := mark_running (by simp) found' running
      obtain ⟨_, here, _⟩ := sound.running place' other known running
      omega
    · intro _ other none_left
      cases none_left
    · exact shown_of_eq ((currentQuery_of_none rfl).trans
        (route.trans (currentQuery_of_overlay overlay path).symm)) sound.shown
  · rename_i others
    refine ⟨sound.pending, ?_, fun _ => sound.mark_known, fun set => sound.mark_timer set, ?_, ?_, ?_⟩
    · exact (mark_pending ..).symm ▸ sound.order
    · intro place other found' running
      obtain ⟨_, known⟩ := mark_running (by simp) found' running
      obtain ⟨present, here, path⟩ := sound.running place other known running
      exact ⟨present, here.trans (List.length_modify ..).symm, path⟩
    · intro unset pending overlay
      obtain ⟨carrier, last, carried, rest⟩ := sound.flushed unset pending overlay
      obtain kept | ⟨here, _⟩ := getLast?_modify number
        (fun replace : Replacement => { replace with state := .settled }) last
      · exact ⟨carrier, kept, carried, rest⟩
      · cases found.symm.trans here
        refine absurd ⟨flushed.trans carried, ?_⟩ others
        have made := (sound.pending pending overlay).2
        exact (congrArg (Option.map PendingQuery.made) overlay).trans
          (congrArg some (made.trans carried.symm))
    · exact shown_of_eq (currentQuery_congr rfl rfl) sound.shown

theorem Sound.navigate (sound : queries.Sound) {target : CurrentRoute}
    (allowed : target.path ≠ queries.route.path ∨ queries.overlay = none) :
    Sound (afterEach { queries with
      route := target
      replaces := cancelRunning queries.replaces
      written := fun key => normalize (target.query.raw key) } target queries.route) := by
  have left : Sound { queries with
      route := target
      overlay := none
      flushTimer := false
      replaces := cancelRunning queries.replaces
      written := fun key => normalize (target.query.raw key) } := by
    refine ⟨?_, ?_, ?_, ?_, ?_, ?_, fun _ => rfl⟩
    · intro _ none_left
      cases none_left
    · exact (cancelRunning_pending _).symm ▸ sound.order
    · intro replace member
      obtain ⟨_, before, known, flushed, pending⟩ := cancelRunning_cases member
      rw [flushed, pending]
      exact sound.known before known
    · intro set
      cases set
    · intro place replace found running
      exact absurd running (cancelRunning_cases (List.mem_of_getElem? found)).1
    · intro _ _ none_left
      cases none_left
  unfold afterEach
  split
  · exact left
  · rename_i same
    have overlay := allowed.resolve_left same
    have unset : queries.flushTimer = false := by
      by_contra set
      rw [Bool.not_eq_false] at set
      have present := (sound.timer set).1
      rw [overlay] at present
      cases present
    rw [← overlay, ← unset] at left
    exact left

theorem Sound.step (sound : queries.Sound) (allowed : Allowed queries action)
    (taken : queries.step action = some after) : after.Sound := by
  cases action with
  | write changes =>
      cases taken
      exact sound.writeQuery changes
  | flush =>
      obtain ⟨set, taken⟩ := Option.ite_none_right_eq_some.mp taken
      cases taken
      exact sound.flush set
  | arrive =>
      obtain ⟨replace, last, running, rfl⟩ := step_arrive taken
      have arrived := sound.arrive last running
      rw [List.getLast?_eq_getElem?] at last
      rw [afterEach_same (sound.running _ replace last running).2.2]
      exact arrived
  | settle number =>
      obtain ⟨replace, found, ended, rfl⟩ := step_settle taken
      exact sound.settle found ended
  | navigate target =>
      cases taken
      exact sound.navigate allowed
  | failed target =>
      cases taken
      rw [afterEach_same allowed]
      exact sound

end RouteQueries

end Ora.Ui
