import Ora.Ui.NewestShown
import Ora.Ui.TokenPagination

/-!
# Tables of lists

The list of `ui/src/components/JobsTable.vue` and `ui/src/components/SchedulesTable.vue`,
a loader whose parameters follow the pagination.  An answer tells the pagination
about the page before it is shown.
-/

namespace Ora.Ui

open Ora.Backend
open Ora.Library

/-- The parameters of the list, the filters, the ordering and the page size being
those of the `key`. -/
structure ListRequest (Q τ : Type) where
  key : Q × Nat
  page : Nat
  pageToken : Option τ
  deriving DecidableEq, Repr

structure ListTable (Q τ α E : Type) where
  pagination : Pagination Q τ
  list : Loader (ListRequest Q τ) (List α) E (ListRequest Q τ)

/-- `rows` is changed together with the query, if a link leads to another page size
of the same table. -/
inductive TableAction (Q τ α E : Type) where
  | mount (query : Q) (rows : Nat) (now : Time)
  | query (query : Q) (rows : Nat)
  | count (count : Option Nat)
  | page (event : PageEvent)
  | flush (now : Time)
  | reload (force : Bool) (now : Time)
  | answer (number : Nat) (response : Response (List α × Option τ) E)
  | handle (number : Nat) (now : Time)
  | finish (number : Nat) (now : Time)
  | busy
  | unmount (now : Time)

namespace ListTable

variable {Q τ α E : Type} [DecidableEq Q] [DecidableEq τ] (isAbortError : E → Bool)

def request (pagination : Pagination Q τ) : ListRequest Q τ :=
  ⟨pagination.key, pagination.page, pagination.pageToken⟩

/-- The parameters of the list are computed from the pagination. -/
def withPagination (table : ListTable Q τ α E) (pagination : Pagination Q τ) :
    ListTable Q τ α E :=
  ⟨pagination, { table.list with params := some (request pagination) }⟩

def mount (cacheId : Bool) (saved : Option (PageState (Q × Nat) τ)) (query : Q) (rows : Nat)
    (now : Time) : ListTable Q τ α E :=
  let pagination := Pagination.useTokenPagination query rows none cacheId saved
  ⟨pagination, .useLoader id (some (request pagination)) now⟩

def onList (table : ListTable Q τ α E)
    (action : LoaderAction (ListRequest Q τ) (List α) E) : Option (ListTable Q τ α E) :=
  (table.list.step id isAbortError action).map fun list => { table with list := list }

/-- What is done with an answer that comes before the request is aborted. -/
def shown (table : ListTable Q τ α E) (page : Nat) (items : List α) : List α :=
  -- The previous page was the last one, it is shown again.
  if items.isEmpty && 0 < page then table.list.data.getD [] else items

def answer (table : ListTable Q τ α E) (number : Nat) :
    Response (List α × Option τ) E → Option (ListTable Q τ α E)
  | .error e => table.onList isAbortError (.answer number (.error e))
  | .result (items, next) =>
      match table.list.runs[number]? with
      | none => none
      | some run =>
          if run.aborted then
            table.onList isAbortError (.answer number (.result items))
          else
            (table.onList isAbortError
                (.answer number (.result (table.shown run.params.page items)))).map fun table =>
              table.withPagination
                (table.pagination.update run.params.key run.params.page items.length next)

def step (table : ListTable Q τ α E) : TableAction Q τ α E → Option (ListTable Q τ α E)
  | .mount query rows now =>
      some (mount table.pagination.cacheId table.pagination.saved query rows now)
  | .query query rows =>
      some (table.withPagination { table.pagination with query := query, rows := rows })
  | .count count => some (table.withPagination { table.pagination with count := count })
  | .page event => some (table.withPagination (table.pagination.onPage event))
  | .flush now => table.onList isAbortError (.flush now)
  | .reload force now => table.onList isAbortError (.reload force now)
  | .answer number response => table.answer isAbortError number response
  | .handle number now => table.onList isAbortError (.handle number now)
  | .finish number now => table.onList isAbortError (.finish number now)
  | .busy => table.onList isAbortError .busy
  | .unmount now => table.onList isAbortError (.dispose now)

/-- The server answers each request, and the watcher of the list runs before the next
event of the page is handled. -/
def Allowed (answers : Q × Nat → Option τ → List α → Option τ → Prop)
    (table : ListTable Q τ α E) : TableAction Q τ α E → Prop
  | .query _ _ => table.list.watched = table.list.currentKey id
  | .page _ => table.list.watched = table.list.currentKey id
  | .reload _ _ => table.list.watched = table.list.currentKey id
  | .answer number (.result (items, next)) => ∀ run, table.list.runs[number]? = some run →
      answers run.params.key run.params.pageToken items next
  | _ => True

variable {isAbortError} {answers : Q × Nat → Option τ → List α → Option τ → Prop}
  {table after : ListTable Q τ α E} {action : TableAction Q τ α E}

def Requested (answers : Q × Nat → Option τ → List α → Option τ → Prop)
    (request : ListRequest Q τ) : Prop :=
  Pagination.Asked answers request.key request.page request.pageToken

/-- A page that was answered while nothing newer was asked for.  An empty page after
the first is none, it leads back to the page before it. -/
def Answered (answers : Q × Nat → Option τ → List α → Option τ → Prop)
    (pagination : Pagination Q τ) (request : ListRequest Q τ) (items : List α) : Prop :=
  ∃ next, answers request.key request.pageToken items next ∧
    pagination.result = some ⟨request.key, request.page, items.length, next⟩ ∧
    (0 < request.page → items ≠ [])

/-- What is known about a response to the newest request. -/
def Newest (answers : Q × Nat → Option τ → List α → Option τ → Prop)
    (table : ListTable Q τ α E) : Prop :=
  ∀ run, table.list.runs.getLast? = some run → run.aborted = false →
    ∀ items, run.response = some (.result items) →
      Answered answers table.pagination run.params items ∨
        run.params ≠ request table.pagination

structure Sound (answers : Q × Nat → Option τ → List α → Option τ → Prop)
    (isAbortError : E → Bool) (table : ListTable Q τ α E) : Prop where
  known : Pagination.Known answers table.pagination
  list : table.list.Current id isAbortError
  params : table.list.params = some (request table.pagination)
  requested : ∀ run ∈ table.list.runs, Requested answers run.params
  newest : table.list.active = true → Newest answers table

omit [DecidableEq τ] in
theorem Sound.request (sound : table.Sound answers isAbortError) :
    Requested answers (request table.pagination) :=
  sound.known.asked

omit [DecidableEq τ] in
/-- The newest request is the current one if the watcher has seen the key. -/
theorem Sound.current (sound : table.Sound answers isAbortError)
    (active : table.list.active = true)
    (seen : table.list.watched = table.list.currentKey id) :
    ∃ run, table.list.runs.getLast? = some run ∧ run.params = ListTable.request table.pagination ∧
      run.aborted = false := by
  have named : table.list.watched = some (ListTable.request table.pagination) := by
    rw [seen, Loader.currentKey, sound.params]
    rfl
  exact sound.list.newest active _ named

omit [DecidableEq τ] in
/-- The pagination changes between two requests. -/
theorem Sound.withPagination (sound : table.Sound answers isAbortError)
    {pagination : Pagination Q τ} (known : Pagination.Known answers pagination)
    (newest : table.list.active = true → Newest answers (table.withPagination pagination)) :
    (table.withPagination pagination).Sound answers isAbortError := by
  exact ⟨known, sound.list.setParams _, rfl, sound.requested, newest⟩

omit [DecidableEq τ] in
/-- An event of the page keeps what is known of the page that was answered last. -/
theorem Sound.event (sound : table.Sound answers isAbortError)
    (seen : table.list.watched = table.list.currentKey id) {pagination : Pagination Q τ}
    (known : Pagination.Known answers pagination)
    (same : pagination.result = table.pagination.result) :
    (table.withPagination pagination).Sound answers isAbortError := by
  refine sound.withPagination known fun active run last going items given => .inl ?_
  obtain ⟨_, last', params, _⟩ := sound.current active seen
  cases last'.symm.trans last
  obtain ⟨next, answered, result, filled⟩ :=
    (sound.newest active run last going items given).resolve_right (not_not.mpr params)
  exact ⟨next, answered, same.trans result, filled⟩

omit [DecidableEq τ] in
theorem onPage_result (pagination : Pagination Q τ) (event : PageEvent) :
    (pagination.onPage event).result = pagination.result := by
  unfold Pagination.onPage
  split
  · rfl
  dsimp only
  split
  · split
    · rfl
    · split
      · rfl
      · rfl
  · split
    · rfl
    · rfl

theorem Sound.sent (sound : table.Sound answers isAbortError)
    {action : LoaderAction (ListRequest Q τ) (List α) E}
    {list : Loader (ListRequest Q τ) (List α) E (ListRequest Q τ)}
    (stepped : table.list.step id isAbortError action = some list) :
    ∀ run ∈ list.runs, Requested answers run.params := by
  intro run member
  obtain sent | ⟨known, member, same⟩ := Loader.step_sent stepped run member
  · rw [← Option.some.inj (sound.params.symm.trans sent)]
    exact sound.request
  · rw [same]
    exact sound.requested known member

/-- A step of the list that is no answer. -/
theorem Sound.onList (sound : table.Sound answers isAbortError)
    {action : LoaderAction (ListRequest Q τ) (List α) E}
    (taken : table.onList isAbortError action = some after)
    (calm : Loader.Calm id table.list action)
    (noAnswer : ∀ number response, action ≠ .answer number response)
    (noParams : ∀ params, action ≠ .setParams params) :
    after.Sound answers isAbortError := by
  obtain ⟨list, stepped, same⟩ := Option.map_eq_some_iff.mp taken
  subst same
  refine ⟨sound.known, sound.list.step calm stepped,
    (Loader.step_params stepped noParams).trans sound.params, sound.sent stepped,
    fun active run last going items given => ?_⟩
  obtain same | unmounted | unanswered | ⟨number, response, answer⟩ :=
    Loader.step_newest stepped sound.params
  · obtain ⟨before, last', facts⟩ := same.symm.last last
    obtain ⟨params, rest⟩ := Prod.mk.inj facts
    obtain ⟨aborted, response⟩ := Prod.mk.inj rest
    have newest := sound.newest (same.active.symm.trans active) before last'
      (aborted.trans going) items (response.trans given)
    rw [params] at newest
    exact newest
  · cases unmounted.symm.trans active
  · cases (unanswered run last).symm.trans given
  · exact absurd answer (noAnswer number response)

/-- An answer that the pagination does not learn of. -/
theorem Sound.unshown (sound : table.Sound answers isAbortError) {number : Nat}
    {response : Response (List α) E} {list : Loader (ListRequest Q τ) (List α) E (ListRequest Q τ)}
    (stepped : table.list.step id isAbortError (.answer number response) = some list)
    (unshown : ∀ run, table.list.runs[number]? = some run → run.aborted = true ∨
      ∀ items, response ≠ .result items) :
    Sound answers isAbortError ⟨table.pagination, list⟩ := by
  have calm : Loader.Calm id table.list (.answer number response) := trivial
  refine ⟨sound.known, sound.list.step calm stepped,
    (Loader.step_params stepped (by simp)).trans sound.params, sound.sent stepped,
    fun active run last going items given => ?_⟩
  obtain ⟨_, _, _, rfl⟩ := Loader.answer_eq stepped
  obtain kept | ⟨before, found, last, rfl⟩ := getLast?_of_modify last
  · exact sound.newest active run kept going items given
  · obtain aborted | failed := unshown before found
    · cases aborted.symm.trans going
    · exact absurd (Option.some.inj given) (failed items)

omit [DecidableEq Q] [DecidableEq τ] in
theorem shown_eq (table : ListTable Q τ α E) {page : Nat} {items : List α}
    (kept : ¬(items.length = 0 ∧ 0 < page)) : table.shown page items = items := by
  unfold shown
  rw [if_neg]
  simpa using kept

/-- The page that was asked for is known now, or another one is to be asked for. -/
theorem answered_or_moved (table : ListTable Q τ α E) (asked : ListRequest Q τ) {items : List α}
    {next : Option τ} (answered : answers asked.key asked.pageToken items next) :
    let pagination := table.pagination.update asked.key asked.page items.length next
    Answered answers pagination asked (table.shown asked.page items) ∨
      asked ≠ request pagination := by
  have filled : ¬(items.length = 0 ∧ 0 < asked.page) → 0 < asked.page → items ≠ [] :=
    fun kept later none => kept ⟨List.length_eq_zero_iff.mpr none, later⟩
  obtain ⟨other, same⟩ | ⟨⟨sameKey, samePage⟩, updated, rfl, rest⟩ :=
    Pagination.update_cases table.pagination asked.key asked.page items.length next
  · refine .inr fun here => ?_
    rw [same] at here
    obtain key | page := other
    · exact key (congrArg ListRequest.key here)
    · exact page (congrArg ListRequest.page here)
  · obtain ⟨⟨_, later⟩, same⟩ | ⟨kept, same | same⟩ := rest
    · refine .inr fun here => ?_
      have moved : (table.pagination.update asked.key asked.page items.length next).page =
          asked.page - 1 := by
        rw [same]
        exact Pagination.save_page (Pagination.current_key _)
      have page : asked.page = asked.page - 1 := (congrArg ListRequest.page here).trans moved
      omega
    · rw [table.shown_eq kept]
      exact .inl ⟨next, answered, by rw [same], filled kept⟩
    · rw [table.shown_eq kept]
      exact .inl ⟨next, answered, by rw [same]; rfl, filled kept⟩

/-- The pagination learns of a page before the page is shown. -/
theorem Sound.answer (sound : table.Sound answers isAbortError) {number : Nat}
    {response : Response (List α × Option τ) E}
    (allowed : Allowed answers table (.answer number response))
    (taken : table.answer isAbortError number response = some after) :
    after.Sound answers isAbortError := by
  cases response with
  | error e =>
      obtain ⟨list, stepped, same⟩ := Option.map_eq_some_iff.mp taken
      subst same
      exact sound.unshown stepped fun _ _ => .inr (by simp)
  | result answer =>
      obtain ⟨items, next⟩ := answer
      unfold ListTable.answer at taken
      dsimp only at taken
      split at taken
      · cases taken
      rename_i run found
      split at taken
      · rename_i aborted
        obtain ⟨list, stepped, same⟩ := Option.map_eq_some_iff.mp taken
        subst same
        refine sound.unshown stepped fun other found' => .inl ?_
        cases found.symm.trans found'
        exact aborted
      · rename_i going
        rw [Bool.not_eq_true] at going
        obtain ⟨middle, learnt, same⟩ := Option.map_eq_some_iff.mp taken
        subst same
        obtain ⟨list, stepped, same⟩ := Option.map_eq_some_iff.mp learnt
        subst same
        have calm : Loader.Calm id table.list
          (.answer number (.result (table.shown run.params.page items))) := trivial
        have answered := allowed run found
        have known := sound.known.update
          (sound.requested run (List.mem_of_getElem? found)) answered
        refine ⟨known, (sound.list.step calm stepped).setParams _, rfl,
          fun sent member => sound.sent stepped sent member,
          fun active newest last _ items' given => ?_⟩
        obtain ⟨run', found', requested, rfl⟩ := Loader.answer_eq stepped
        cases found.symm.trans found'
        have place := (sound.list.runs.live_iff number run found).mp ⟨going, by simp [requested]⟩
        cases (getLast?_modify_last (sound.list.runs.last number place) found).symm.trans last
        cases given
        exact answered_or_moved table run.params answered

omit [DecidableEq τ] in
theorem mount_sound {cacheId : Bool} {saved : Option (PageState (Q × Nat) τ)} (query : Q)
    (rows : Nat) (now : Time)
    (walked : ∀ state, saved = some state → Pagination.Walked answers state) :
    (mount cacheId saved query rows now : ListTable Q τ α E).Sound answers isAbortError := by
  have known := Pagination.useTokenPagination_known query rows none cacheId walked
  have current : Loader.Current id isAbortError
      (mount cacheId saved query rows now : ListTable Q τ α E).list :=
    Loader.useLoader_current (some (ListTable.request _)) now
  refine ⟨known, current, rfl, fun run member => ?_, fun _ run last _ items given => ?_⟩
  · cases List.mem_singleton.mp member
    exact known.asked
  · cases last
    cases given

theorem Sound.step (sound : table.Sound answers isAbortError)
    (allowed : Allowed answers table action) (taken : table.step isAbortError action = some after) :
    after.Sound answers isAbortError := by
  cases action with
  | mount query rows now =>
      cases taken
      exact mount_sound query rows now sound.known.saved
  | query query rows =>
      cases taken
      exact sound.event allowed ⟨sound.known.state, sound.known.result, sound.known.saved⟩ rfl
  | count count =>
      cases taken
      exact sound.withPagination ⟨sound.known.state, sound.known.result, sound.known.saved⟩
        sound.newest
  | page event =>
      cases taken
      exact sound.event allowed (sound.known.onPage event) (onPage_result _ event)
  | flush now => exact sound.onList taken trivial (by simp) (by simp)
  | reload force now => exact sound.onList taken allowed (by simp) (by simp)
  | answer number response => exact sound.answer allowed taken
  | handle number now => exact sound.onList taken trivial (by simp) (by simp)
  | finish number now => exact sound.onList taken trivial (by simp) (by simp)
  | busy => exact sound.onList taken trivial (by simp) (by simp)
  | unmount now => exact sound.onList taken trivial (by simp) (by simp)

/-- The list is at rest with the answer to its newest request. -/
structure Settled (table : ListTable Q τ α E) : Prop where
  mounted : table.list.active = true
  seen : table.list.watched = table.list.currentKey id
  loaded : table.list.request.loading = false
  answered : ∀ run e, table.list.runs.getLast? = some run → run.response ≠ some (.error e)

theorem Sound.settled (sound : table.Sound answers isAbortError) (settled : table.Settled) :
    ∃ items next, table.list.data = some items ∧ table.list.stale id = false ∧
      Pagination.Asked answers table.pagination.key table.pagination.page
        table.pagination.pageToken ∧
      answers table.pagination.key table.pagination.pageToken items next ∧
      table.pagination.result =
        some ⟨table.pagination.key, table.pagination.page, items.length, next⟩ ∧
      (0 < table.pagination.page → items ≠ []) := by
  have enabled : table.list.enabled id = true := by
    rw [Loader.enabled, Loader.currentKey, sound.params]
    rfl
  obtain ⟨run, last, params, going⟩ := sound.current settled.mounted settled.seen
  obtain ⟨run', response, last', _, given, shown⟩ :=
    sound.list.shows settled.mounted settled.seen enabled settled.loaded
  cases last'.symm.trans last
  cases response with
  | error e => exact absurd given (settled.answered run e last)
  | result items =>
      obtain ⟨next, answered, result, filled⟩ :=
        (sound.newest settled.mounted run last going items given).resolve_right
          (not_not.mpr params)
      rw [params] at answered result filled
      exact ⟨items, next, shown.1, shown.2.1, sound.request, answered, result, filled⟩

section Unchanging

variable {γ : Type} {largest : Nat} {name : α → γ} {lists : Q → List γ}

/-- The answers of servers whose lists do not change. -/
def served (server : ∀ query, PageServer largest name (lists query) τ) (key : Q × Nat) :
    Option τ → List α → Option τ → Prop :=
  PageWalk.Serves (server key.1) key.2

variable {server : ∀ query, PageServer largest name (lists query) τ}

omit [DecidableEq Q] [DecidableEq τ] in
/-- The token of a page stands for the rows from this page on. -/
theorem remains_of_asked {key : Q × Nat} {page : Nat} {token : Option τ} (positive : 0 < key.2)
    (allowed : key.2 ≤ largest) (asked : Pagination.Asked (served server) key page token) :
    (server key.1).remains token ((lists key.1).drop (page * key.2)) := by
  obtain ⟨⟨earlier, walk⟩, later⟩ := asked
  cases page with
  | zero =>
      cases walk
      rw [Nat.zero_mul, List.drop_zero]
      exact (server key.1).first
  | succ page =>
      obtain ⟨token, rfl⟩ := Option.isSome_iff_exists.mp (later (Nat.succ_pos page))
      exact (PageWalk.served positive allowed walk).2 (Nat.succ_pos page)

omit [DecidableEq Q] [DecidableEq τ] in
theorem page_of_served {key : Q × Nat} {page : Nat} {token next : Option τ} {items : List α}
    (positive : 0 < key.2) (allowed : key.2 ≤ largest)
    (asked : Pagination.Asked (served server) key page token)
    (answered : served server key token items next) :
    items.map name = ((lists key.1).drop (page * key.2)).take key.2 ∧
      PageWalk.Follows (server key.1) (((lists key.1).drop (page * key.2)).drop key.2) next := by
  obtain ⟨k, answered⟩ := answered
  exact PageWalk.served_page positive allowed (remains_of_asked positive allowed asked) answered

omit [DecidableEq τ] in
/-- After the last page that is known there are no rows. -/
theorem length_of_lastPage {pagination : Pagination Q τ} (positive : 0 < pagination.rows)
    (allowed : pagination.rows ≤ largest) (known : Pagination.Known (served server) pagination)
    {last : Nat} (found : pagination.current.lastPage = some last) :
    (lists pagination.query).length ≤ (last + 1) * pagination.rows := by
  obtain ⟨token, next, asked, answered⟩ := known.current.last last found
  rw [Pagination.current_key] at asked answered
  have positiveKey : 0 < pagination.key.2 := positive
  have empty : (([] : List α).map name) =
      ((lists pagination.query).drop ((last + 1) * pagination.rows)).take pagination.rows :=
    (page_of_served positiveKey allowed asked answered).1
  obtain none_shown | none_left := List.take_eq_nil_iff.mp empty.symm
  · exact absurd none_shown (Nat.ne_of_gt positive)
  · exact List.drop_eq_nil_iff.mp none_left

omit [DecidableEq τ] in
/-- Of a page before the last one, the next page is known and offered. -/
theorem offered_of_more {pagination : Pagination Q τ} {items : List α} {next : Option τ}
    (positive : 0 < pagination.rows) (allowed : pagination.rows ≤ largest)
    (known : Pagination.Known (served server) pagination)
    (asked : Pagination.Asked (served server) pagination.key pagination.page pagination.pageToken)
    (answered : served server pagination.key pagination.pageToken items next)
    (result : pagination.result =
      some ⟨pagination.key, pagination.page, items.length, next⟩)
    (counted : ∀ count, pagination.count = some count →
      count = (lists pagination.query).length)
    (more : pagination.first + pagination.rows < (lists pagination.query).length) :
    pagination.hasNext = true ∧
      pagination.first + pagination.rows < pagination.totalRecords ∧
      (pagination.onPage ⟨pagination.page + 1, pagination.rows⟩).page = pagination.page + 1 := by
  have positiveKey : 0 < pagination.key.2 := positive
  obtain ⟨named, follows⟩ := page_of_served positiveKey allowed asked answered
  have full : items.length = pagination.rows := by
    have length : (items.map name).length =
        (((lists pagination.query).drop pagination.first).take pagination.rows).length :=
      congrArg List.length named
    rw [List.length_map, List.length_take, List.length_drop] at length
    omega
  obtain ⟨token, rfl⟩ : ∃ token, next = some token := by
    cases next with
    | some token => exact ⟨token, rfl⟩
    | none =>
        have ended : ((lists pagination.query).drop pagination.first).drop pagination.rows = [] :=
          follows
        rw [List.drop_drop, List.drop_eq_nil_iff] at ended
        omega
  have loaded : pagination.loaded =
      some ⟨pagination.key, pagination.page, items.length, some token⟩ := by
    unfold Pagination.loaded
    rw [result]
    simp
  have before_last : pagination.current.lastPage.any (· ≤ pagination.page) = false := by
    rw [Option.any_eq_false]
    intro last found
    have bound := length_of_lastPage positive allowed known found
    by_contra reached
    rw [Bool.not_eq_false, decide_eq_true_eq] at reached
    have covered : (last + 1) * pagination.rows ≤ (pagination.page + 1) * pagination.rows :=
      Nat.mul_le_mul_right _ (Nat.succ_le_succ reached)
    rw [Nat.succ_mul pagination.page] at covered
    exact absurd (Nat.lt_of_lt_of_le more bound) (Nat.not_lt.mpr covered)
  have hasNext : pagination.hasNext = true := by
    unfold Pagination.hasNext
    rw [loaded]
    dsimp only
    rw [if_neg (by simp [full]), before_last, if_neg (by simp), Option.all_eq_true]
    intro count found
    rw [counted count found, full, decide_eq_true_eq]
    exact more
  refine ⟨hasNext, ?_, ?_⟩
  · unfold Pagination.totalRecords
    rw [loaded]
    dsimp only
    rw [if_pos hasNext, full]
    exact Nat.lt_of_lt_of_le (Nat.lt_succ_self _) (Nat.le_max_right ..)
  · unfold Pagination.onPage
    rw [if_neg (by simp), loaded]
    dsimp only [Option.bind]
    have following : pagination.page + 1 = pagination.current.page + 1 := rfl
    rw [if_pos following]
    exact Pagination.save_page (Pagination.current_key _)

/-- In every interleaving of events, answers and renewed requests, a table at rest
shows the rows of its page: the ones at this place of the list of its query.  It
never rests on an empty page after the first. -/
theorem shows_page {server : ∀ query, PageServer largest name (lists query) τ}
    {isAbortError : E → Bool} {cacheId : Bool} {query : Q} {rows : Nat} {now : Time}
    {table : ListTable Q τ α E}
    (run : Reaches (step isAbortError) (Allowed (served server)) (mount cacheId none query rows now)
      table)
    (settled : table.Settled) (positive : 0 < table.pagination.rows)
    (allowed : table.pagination.rows ≤ largest) :
    ∃ items, table.list.data = some items ∧ table.list.stale id = false ∧
      items.map name = ((lists table.pagination.query).drop table.pagination.first).take
        table.pagination.rows ∧
      (0 < table.pagination.page → items ≠ []) := by
  have sound : table.Sound (served server) isAbortError :=
    run.invariant (fun _ _ _ sound allowed taken => sound.step allowed taken)
      (mount_sound query rows now fun _ saved => by cases saved)
  have positiveKey : 0 < table.pagination.key.2 := positive
  obtain ⟨items, next, data, fresh, asked, answered, _, filled⟩ := sound.settled settled
  exact ⟨items, data, fresh, (page_of_served positiveKey allowed asked answered).1, filled⟩

/-- As long as there are more rows, a table at rest offers the next page and goes there. -/
theorem next_page_offered {server : ∀ query, PageServer largest name (lists query) τ}
    {isAbortError : E → Bool} {cacheId : Bool} {query : Q} {rows : Nat} {now : Time}
    {table : ListTable Q τ α E}
    (run : Reaches (step isAbortError) (Allowed (served server)) (mount cacheId none query rows now)
      table)
    (settled : table.Settled) (positive : 0 < table.pagination.rows)
    (allowed : table.pagination.rows ≤ largest)
    (counted : ∀ count, table.pagination.count = some count →
      count = (lists table.pagination.query).length)
    (more : table.pagination.first + table.pagination.rows <
      (lists table.pagination.query).length) :
    table.pagination.hasNext = true ∧
      table.pagination.first + table.pagination.rows < table.pagination.totalRecords ∧
      (table.pagination.onPage ⟨table.pagination.page + 1, table.pagination.rows⟩).page =
        table.pagination.page + 1 := by
  have sound : table.Sound (served server) isAbortError :=
    run.invariant (fun _ _ _ sound allowed taken => sound.step allowed taken)
      (mount_sound query rows now fun _ saved => by cases saved)
  obtain ⟨items, next, _, _, asked, answered, result, _⟩ := sound.settled settled
  exact offered_of_more positive allowed sound.known asked answered result counted more

end Unchanging

/-- Five rows for every query. -/
def fiveRows (_ : Nat) : PageServer 20 id [10, 11, 12, 13, 14] Nat :=
  .ofList 20 [10, 11, 12, 13, 14]

def Exactly (key : Nat × Nat) (token : Option Nat) (items : List Nat) (next : Option Nat) : Prop :=
  (fiveRows key.1).request 0 key.2 token = some (items, next)

instance (table : ListTable Nat Nat Nat Nat) (action : TableAction Nat Nat Nat Nat) :
    Decidable (Allowed Exactly table action) :=
  match action with
  | .query _ _ => inferInstanceAs (Decidable (table.list.watched = _))
  | .page _ => inferInstanceAs (Decidable (table.list.watched = _))
  | .reload _ _ => inferInstanceAs (Decidable (table.list.watched = _))
  | .answer number (.result (items, next)) =>
      match found : table.list.runs[number]? with
      | none => .isTrue fun _ known => by simp [found] at known
      | some run =>
          if exact_answer : (fiveRows run.params.key.1).request 0 run.params.key.2
              run.params.pageToken = some (items, next) then
            .isTrue fun other known => by
              cases found.symm.trans known
              exact exact_answer
          else
            .isFalse fun answers => exact_answer (answers run found)
  | .answer _ (.error _) => .isTrue trivial
  | .mount _ _ _ => .isTrue trivial
  | .count _ => .isTrue trivial
  | .flush _ => .isTrue trivial
  | .handle _ _ => .isTrue trivial
  | .finish _ _ => .isTrue trivial
  | .busy => .isTrue trivial
  | .unmount _ => .isTrue trivial

/-- The second page is shown after the first. -/
def turned : List (TableAction Nat Nat Nat Nat) :=
  [.answer 0 (.result ([10, 11], some 2)), .handle 0 1, .finish 0 2, .page ⟨1, 2⟩, .flush 3,
    .answer 1 (.result ([12, 13], some 4)), .handle 1 4, .finish 1 5]

def restsAt (page : Nat) (table : ListTable Nat Nat Nat Nat) : Bool :=
  table.list.active && table.list.watched == table.list.currentKey id &&
    !table.list.request.loading && table.pagination.page == page && table.pagination.rows == 2 &&
    table.pagination.query == 7 && table.pagination.count == none &&
    table.list.runs.getLast?.all fun run =>
      match run.response with
      | some (.error _) => false
      | _ => true

theorem allowed_served {table : ListTable Nat Nat Nat Nat} {action : TableAction Nat Nat Nat Nat}
    (allowed : Allowed Exactly table action) : Allowed (served fiveRows) table action := by
  cases action with
  | answer number response =>
      cases response with
      | error e => exact trivial
      | result answer => exact fun run found => ⟨0, allowed run found⟩
  | query query rows => exact allowed
  | page event => exact allowed
  | reload force now => exact allowed
  | mount query rows now => exact trivial
  | count count => exact trivial
  | flush now => exact trivial
  | handle number now => exact trivial
  | finish number now => exact trivial
  | busy => exact trivial
  | unmount now => exact trivial

theorem turned_rests : ∃ table : ListTable Nat Nat Nat Nat,
    Reaches (step fun _ => false) (Allowed (served fiveRows)) (mount true none 7 2 0) table ∧
      table.Settled ∧ table.pagination.page = 1 ∧ table.pagination.rows = 2 ∧
      table.pagination.query = 7 ∧ table.pagination.count = none := by
  obtain ⟨table, run, checked⟩ := exists_reaches_of_execute (step fun _ => false)
    (Allowed Exactly) (mount true none 7 2 0 : ListTable Nat Nat Nat Nat) turned (restsAt 1)
    (by decide)
  simp only [restsAt, Bool.and_eq_true, beq_iff_eq, Bool.not_eq_true', Option.all_eq_true]
    at checked
  obtain ⟨⟨⟨⟨⟨⟨⟨mounted, seen⟩, loaded⟩, page⟩, rows⟩, query⟩, count⟩, succeeded⟩ := checked
  refine ⟨table, run.mono fun _ _ => allowed_served, ⟨mounted, seen, loaded, ?_⟩, page, rows, query,
    count⟩
  intro run e last failed
  have success := succeeded run last
  rw [failed] at success
  cases success

theorem shows_page_turned : ∃ table : ListTable Nat Nat Nat Nat,
    Reaches (step fun _ => false) (Allowed (served fiveRows)) (mount true none 7 2 0) table ∧
      table.list.data = some [12, 13] := by
  obtain ⟨table, run, settled, page, rows, _, _⟩ := turned_rests
  obtain ⟨items, data, _, named, _⟩ := shows_page run settled (by omega) (by omega)
  refine ⟨table, run, data.trans (congrArg some ?_)⟩
  rw [List.map_id, Pagination.first, page, rows] at named
  exact named

theorem next_page_offered_turned : ∃ table : ListTable Nat Nat Nat Nat,
    Reaches (step fun _ => false) (Allowed (served fiveRows)) (mount true none 7 2 0) table ∧
      table.pagination.page = 1 ∧ table.pagination.hasNext = true := by
  obtain ⟨table, run, settled, page, rows, _, count⟩ := turned_rests
  have more : table.pagination.first + table.pagination.rows < 5 := by
    rw [Pagination.first, page, rows]
    decide
  exact ⟨table, run, page, (next_page_offered run settled (by omega) (by omega)
    (by simp [count]) more).1⟩

end ListTable

end Ora.Ui
