import Ora.Library.LastLive
import Ora.Library.Run
import Ora.Ui.QueryFields

/-!
# Writes to the query of a route

The overlay of `ui/src/util/query.ts`, with query changes that are not applied to the
route yet, and `useRouteQuery`.  The router is known by what it does to the current
route: a replacement that is overtaken by another navigation is cancelled, and the
promise of a replacement is settled some time after it arrived or was cancelled.
-/

namespace Ora.Ui

open Ora.Library

structure CurrentRoute where
  path : Text
  query : LocationQuery
  deriving DecidableEq, Repr

/-- The value of `overlay`, which is told from others by when it was `made`. -/
structure PendingQuery where
  path : Text
  query : LocationQuery
  made : Nat
  deriving DecidableEq, Repr

inductive ReplaceState where
  | running
  | arrived
  | cancelled
  | settled
  deriving DecidableEq, Repr

/-- A call of `router.replace` in `flush`, for the overlay that was `pending`. -/
structure Replacement where
  path : Text
  query : LocationQuery
  flushed : Nat
  pending : Nat
  state : ReplaceState
  deriving DecidableEq, Repr

/-- The entries of an object, an empty list removes a parameter. -/
structure QueryChanges where
  entries : List (Text × List Text)
  distinct : (entries.map Prod.fst).Nodup

def QueryChanges.single (key : Text) (values : List Text) : QueryChanges :=
  ⟨[(key, values)], List.nodup_singleton key⟩

/-- The queries of the page, and what was `written` to it since it was entered or
its query was navigated to. -/
structure RouteQueries where
  route : CurrentRoute
  overlay : Option PendingQuery
  generation : Nat
  flushTimer : Bool
  replaces : List Replacement
  written : Text → List Text

inductive QueryAction where
  | write (changes : QueryChanges)
  | flush
  | arrive
  | settle (number : Nat)
  | navigate (target : CurrentRoute)
  | failed (target : CurrentRoute)

namespace LocationQuery

/-- `query[key] = value` -/
def assign (query : LocationQuery) (key : Text) (value : RawValue) : LocationQuery :=
  if (query.raw key).isSome then
    query.map fun entry => if entry.1 = key then (key, value) else entry
  else
    query ++ [(key, value)]

/-- `delete query[key]` -/
def delete (query : LocationQuery) (key : Text) : LocationQuery :=
  query.filter fun entry => entry.1 ≠ key

def change (query : LocationQuery) (key : Text) (values : List Text) : LocationQuery :=
  if values.isEmpty then query.delete key else query.assign key (rawValue values)

end LocationQuery

namespace RouteQueries

def start (route : CurrentRoute) : RouteQueries :=
  ⟨route, none, 0, false, [], fun key => normalize (route.query.raw key)⟩

def currentQuery (queries : RouteQueries) : LocationQuery :=
  match queries.overlay with
  | some pending =>
      if pending.path = queries.route.path then pending.query else queries.route.query
  | none => queries.route.query

/-- The hook of `install`: pending changes belong to the page that was left. -/
def afterEach (queries : RouteQueries) (target source : CurrentRoute) : RouteQueries :=
  if target.path ≠ source.path then
    { queries with overlay := none, flushTimer := false }
  else
    queries

/-- Another navigation takes the place of a replacement. -/
def cancelRunning (replaces : List Replacement) : List Replacement :=
  replaces.map fun replace =>
    if replace.state = .running then { replace with state := .cancelled } else replace

def flush (queries : RouteQueries) : RouteQueries :=
  let queries := { queries with flushTimer := false }
  match queries.overlay with
  | none => queries
  | some pending =>
      if queries.route.path ≠ pending.path then
        { queries with overlay := none }
      else
        { queries with
          replaces := cancelRunning queries.replaces ++
            [⟨pending.path, pending.query, queries.generation, pending.made, .running⟩] }

/-- The query with the changes, and whether there are any. -/
def changed (base : LocationQuery) (entries : List (Text × List Text)) : LocationQuery × Bool :=
  entries.foldl (fun result entry =>
    if normalize (base.raw entry.1) = entry.2 then result
    else (result.1.change entry.1 entry.2, true)) (base, false)

def writeTo (written : Text → List Text) (entries : List (Text × List Text)) (key : Text) :
    List Text :=
  match entries.find? fun entry => entry.1 = key with
  | some entry => entry.2
  | none => written key

/-- Sets or removes query parameters. -/
def writeQuery (queries : RouteQueries) (changes : QueryChanges) : RouteQueries :=
  let queries := { queries with written := writeTo queries.written changes.entries }
  let result := changed queries.currentQuery changes.entries
  if result.2 then
    { queries with
      overlay := some ⟨queries.route.path, result.1, queries.generation + 1⟩
      generation := queries.generation + 1
      flushTimer := true }
  else
    queries

def mark (queries : RouteQueries) (number : Nat) (state : ReplaceState) : RouteQueries :=
  { queries with
    replaces := queries.replaces.modify number fun replace => { replace with state := state } }

/-- The promise of a replacement is settled. -/
def settle (queries : RouteQueries) (number : Nat) (replace : Replacement) : RouteQueries :=
  let queries := queries.mark number .settled
  if replace.flushed = queries.generation ∧
      queries.overlay.map PendingQuery.made = some replace.pending then
    { queries with overlay := none }
  else
    queries

def step (queries : RouteQueries) : QueryAction → Option RouteQueries
  | .write changes => some (queries.writeQuery changes)
  | .flush => if queries.flushTimer then some queries.flush else none
  | .arrive =>
      match queries.replaces.getLast? with
      | some ⟨path, query, _, _, .running⟩ =>
          let arrived := { queries.mark (queries.replaces.length - 1) .arrived with
            route := ⟨path, query⟩ }
          some (arrived.afterEach ⟨path, query⟩ queries.route)
      | _ => none
  | .settle number =>
      match queries.replaces[number]? with
      | some replace =>
          if replace.state = .arrived ∨ replace.state = .cancelled then
            some (queries.settle number replace)
          else
            none
      | none => none
  | .navigate target =>
      let navigated := { queries with
        route := target
        replaces := cancelRunning queries.replaces
        written := fun key => normalize (target.query.raw key) }
      some (navigated.afterEach target queries.route)
  | .failed target => some (queries.afterEach target queries.route)

/-- A navigation to another query of the page comes while no changes are pending, and
none to another page fails. -/
def Allowed (queries : RouteQueries) : QueryAction → Prop
  | .navigate target => target.path ≠ queries.route.path ∨ queries.overlay = none
  | .failed target => target.path = queries.route.path
  | _ => True

theorem raw_assign_map (query : LocationQuery) (key other : Text) (value : RawValue) :
    LocationQuery.raw (query.map fun entry => if entry.1 = key then (key, value) else entry) other =
      if other = key then (query.raw other).map fun _ => value else query.raw other := by
  induction query with
  | nil => simp [LocationQuery.raw, findKey]
  | cons entry rest ih =>
      rw [List.map_cons, raw_cons, raw_cons, ih]
      by_cases same : entry.1 = key
      · by_cases here : other = key
        · simp [same, here]
        · simp [same, here, Ne.symm here]
      · by_cases here : other = key
        · simp [same, here]
        · simp [same, here]

theorem raw_assign (query : LocationQuery) (key other : Text) (value : RawValue) :
    (query.assign key value).raw other = if other = key then some value else query.raw other := by
  unfold LocationQuery.assign
  split
  · rename_i present
    obtain ⟨before, found⟩ := Option.isSome_iff_exists.mp present
    rw [raw_assign_map]
    by_cases here : other = key
    · simp [here, found]
    · simp [here]
  · rename_i absent
    rw [Option.not_isSome_iff_eq_none] at absent
    induction query with
    | nil =>
        simp only [List.nil_append, raw_cons]
        simp [LocationQuery.raw, findKey, eq_comm]
    | cons entry rest ih =>
        rw [raw_cons] at absent
        split at absent
        · cases absent
        · rename_i apart
          rw [List.cons_append, raw_cons, raw_cons, ih absent]
          by_cases here : other = key
          · simp [here, apart]
          · simp [here]

theorem raw_delete (query : LocationQuery) (key other : Text) :
    (query.delete key).raw other = if other = key then none else query.raw other := by
  induction query with
  | nil => simp [LocationQuery.delete, LocationQuery.raw, findKey]
  | cons entry rest ih =>
      unfold LocationQuery.delete at ih ⊢
      rw [List.filter_cons]
      by_cases same : entry.1 = key
      · rw [if_neg (by simp [same]), ih, raw_cons]
        by_cases here : other = key
        · simp [here]
        · simp [here, same, Ne.symm here]
      · rw [if_pos (by simp [same]), raw_cons, raw_cons, ih]
        by_cases here : other = key
        · simp [here, same]
        · simp [here]

theorem normalize_change (query : LocationQuery) (key other : Text) (values : List Text) :
    normalize ((query.change key values).raw other) =
      if other = key then values else normalize (query.raw other) := by
  unfold LocationQuery.change
  split
  · rename_i empty
    rw [raw_delete]
    split
    · exact (List.isEmpty_iff.mp empty).symm
    · rfl
  · rename_i present
    rw [raw_assign]
    split
    · exact normalize_rawValue fun empty => present (List.isEmpty_iff.mpr empty)
    · rfl

theorem writeTo_cons (written : Text → List Text) (entry : Text × List Text)
    (rest : List (Text × List Text)) (key : Text) :
    writeTo written (entry :: rest) key =
      if entry.1 = key then entry.2 else writeTo written rest key := by
  by_cases same : entry.1 = key
  · simp [writeTo, same]
  · simp [writeTo, same]

theorem writeTo_unnamed {written : Text → List Text} {entries : List (Text × List Text)} {key : Text}
    (unnamed : key ∉ entries.map Prod.fst) : writeTo written entries key = written key := by
  induction entries with
  | nil => rfl
  | cons entry rest ih =>
      rw [List.map_cons, List.mem_cons, not_or] at unnamed
      rw [writeTo_cons, if_neg (Ne.symm unnamed.1), ih unnamed.2]

theorem writeTo_congr {first second : Text → List Text} {entries : List (Text × List Text)}
    {key : Text} (same : first key = second key) :
    writeTo first entries key = writeTo second entries key := by
  unfold writeTo
  rw [same]

/-- Parameters that were not written keep their values. -/
theorem normalize_changed_fold (base : LocationQuery) {entries : List (Text × List Text)}
    (distinct : (entries.map Prod.fst).Nodup) (result : LocationQuery × Bool)
    (unchanged : ∀ entry ∈ entries,
      normalize (result.1.raw entry.1) = normalize (base.raw entry.1)) (key : Text) :
    normalize ((entries.foldl (fun result entry =>
        if normalize (base.raw entry.1) = entry.2 then result
        else (result.1.change entry.1 entry.2, true)) result).1.raw key) =
      writeTo (fun key => normalize (result.1.raw key)) entries key := by
  induction entries generalizing result with
  | nil => rfl
  | cons entry rest ih =>
      rw [List.map_cons, List.nodup_cons] at distinct
      have head := unchanged entry List.mem_cons_self
      have tail : ∀ other ∈ rest,
          normalize (result.1.raw other.1) = normalize (base.raw other.1) :=
        fun other member => unchanged other (List.mem_cons_of_mem _ member)
      rw [List.foldl_cons, writeTo_cons]
      split
      · rename_i same
        rw [ih distinct.2 result tail]
        split
        · rename_i here
          subst here
          rw [writeTo_unnamed distinct.1, head, same]
        · rfl
      · have apart : ∀ other ∈ rest, other.1 ≠ entry.1 := fun other member same =>
          distinct.1 (same ▸ List.mem_map_of_mem member)
        rw [ih distinct.2 _ fun other member => by
          rw [normalize_change, if_neg (apart other member)]
          exact tail other member]
        split
        · rename_i here
          subst here
          rw [writeTo_unnamed distinct.1, normalize_change, if_pos rfl]
        · rename_i other
          refine writeTo_congr ?_
          rw [normalize_change, if_neg (Ne.symm other)]

theorem normalize_changed (base : LocationQuery) (changes : QueryChanges) (key : Text) :
    normalize ((changed base changes.entries).1.raw key) =
      writeTo (fun key => normalize (base.raw key)) changes.entries key :=
  normalize_changed_fold base changes.distinct (base, false) (fun _ _ => rfl) key

theorem changed_fold_false (base : LocationQuery) (entries : List (Text × List Text))
    (result : LocationQuery × Bool)
    (same : (entries.foldl (fun result entry =>
      if normalize (base.raw entry.1) = entry.2 then result
      else (result.1.change entry.1 entry.2, true)) result).2 = false) :
    result.2 = false ∧ ∀ entry ∈ entries, normalize (base.raw entry.1) = entry.2 := by
  induction entries generalizing result with
  | nil => exact ⟨same, fun _ member => absurd member List.not_mem_nil⟩
  | cons entry rest ih =>
      rw [List.foldl_cons] at same
      obtain ⟨before, others⟩ := ih _ same
      split at before
      · rename_i head
        refine ⟨before, fun other member => ?_⟩
        obtain rfl | member := List.mem_cons.mp member
        · exact head
        · exact others other member
      · cases before

/-- Without a change the parameters have the values that are written. -/
theorem writeTo_unchanged {base : LocationQuery} {changes : QueryChanges}
    (same : (changed base changes.entries).2 = false) (key : Text) :
    writeTo (fun key => normalize (base.raw key)) changes.entries key =
      normalize (base.raw key) := by
  have known := (changed_fold_false base changes.entries (base, false) same).2
  unfold writeTo
  split
  · rename_i entry found
    have named : entry.1 = key := by simpa using List.find?_some found
    rw [← named]
    exact (known entry (List.mem_of_find?_eq_some found)).symm
  · rfl

end RouteQueries

end Ora.Ui
