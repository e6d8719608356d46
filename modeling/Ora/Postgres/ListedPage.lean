import Ora.Library.Reads
import Ora.Postgres.FilterMeaning

/-!
# Pages listed while others commit

`list_jobs` selects the jobs of a page, their labels and their executions with
one statement each, and each statement sees what was committed when it starts.
A page is that of one moment if the transactions that commit between the
statements keep what was read, or what is still to be read.
-/

namespace Ora.Postgres

open Ora.Backend
open Ora.Library

structure ListRequest where
  /-- `NOW()` of the transaction. -/
  now : Time
  filters : JobFilters
  orderBy : Option JobOrderBy
  pageSize : Nat
  pageToken : Option NextPageToken

namespace ListRequest

def token (request : ListRequest) : PageToken :=
  requestToken request.filters (request.orderBy.getD .createdAtAsc) request.pageToken

/-- A selected job, before its labels and executions are collected. -/
def selectedDetails (row : JobRow) : JobDetails where
  id := row.id
  job :=
    { jobTypeId := row.jobTypeId
      targetExecutionTime := systemtimeFromTs row.targetExecutionTime
      inputPayloadJson := row.inputPayloadJson
      labels := []
      timeoutPolicy := row.timeoutPolicyJson
      retryPolicy := row.retryPolicyJson
      priority := row.priority }
  createdAt := systemtimeFromTs row.createdAt
  executions := []
  scheduleId := row.scheduleId

def withLabels (store : Store) (details : JobDetails) : JobDetails :=
  { details with job := { details.job with labels := collectLabels store details.id } }

def withExecutions (store : Store) (now : Time) (details : JobDetails) : JobDetails :=
  { details with executions := collectExecutions store now details.id }

/-- The statements that select the jobs, collect their labels and their executions. -/
def statements (request : ListRequest) : List (Store → List JobDetails → List JobDetails) :=
  [fun store _ => (selectPage store request.now request.token request.pageSize).map selectedDetails,
    fun store jobs => jobs.map (withLabels store),
    fun store jobs => jobs.map (withExecutions store request.now)]

/-- A partial page is the last one. -/
def page (request : ListRequest) (jobs : List JobDetails) :
    Option (List JobDetails × Option NextPageToken) :=
  match jobs.getLast? with
  | none => some (jobs, none)
  | some lastJob =>
      if request.pageSize ≤ jobs.length then
        (request.token.advance lastJob).encode?.map fun next => (jobs, some next)
      else
        some (jobs, none)

/-- The page that the request returns alone. -/
def listed (request : ListRequest) (store : Store) :
    Option (List JobDetails × Option NextPageToken) :=
  listJobs store request.now request.filters request.orderBy request.pageSize request.pageToken

/-- Alone, the statements are those of `job_details`. -/
theorem listed_eq (request : ListRequest) (store : Store) :
    request.listed store = request.page (readAlone request.statements store []) := by
  have rows : readAlone request.statements store [] =
      (selectPage store request.now request.token request.pageSize).map
        (rowDetails store request.now) := by
    simp only [readAlone, statements, List.foldl_cons, List.foldl_nil, List.map_map]
    rfl
  rw [rows]
  rfl

end ListRequest

inductive Listing where
  | idle
  | reading (request : ListRequest) (ran : Nat) (jobs : List JobDetails)
  | finished (request : ListRequest) (page : Option (List JobDetails × Option NextPageToken))

structure ListingState where
  store : Store
  /-- All states that were committed. -/
  committed : List Store
  listing : Listing

namespace ListingState

def initial : ListingState := ⟨.empty, [.empty], .idle⟩

inductive Action where
  | commit (operation : Operation)
  | begin (request : ListRequest)
  | next

def step (state : ListingState) : Action → Option ListingState
  | .commit operation =>
      (operation.apply state.store).map fun store =>
        { state with
          store := store
          committed := state.committed ++ [store] }
  | .begin request => some { state with listing := .reading request 0 [] }
  | .next =>
      match state.listing with
      | .reading request ran jobs =>
          match request.statements[ran]? with
          | some statement =>
              some { state with listing := .reading request (ran + 1) (statement state.store jobs) }
          | none => some { state with listing := .finished request (request.page jobs) }
      | _ => none

/-- The transaction keeps what the listing read, or what it has still to read. -/
def keepsListing (state : ListingState) : Action → Prop
  | .commit operation =>
      match state.listing with
      | .reading request ran jobs => ∀ after ∈ operation.apply state.store,
          KeepsRead (request.statements.take ran) (request.statements.drop ran) [] jobs state.store
            after
      | _ => True
  | _ => True

def carriesJobs (state : ListingState) : Action → Prop
  | .commit operation => operation.carriesJobs state.store
  | _ => True

/-- A job whose active execution is retried is named by one entry of the batch. -/
def retriesOnce (state : ListingState) : Action → Prop
  | .commit operation => operation.retriesOnce state.store
  | _ => True

instance (state : ListingState) (action : Action) : Decidable (state.keepsListing action) := by
  unfold keepsListing
  cases action <;> dsimp only <;> try split
  all_goals infer_instance

instance (state : ListingState) (action : Action) : Decidable (state.carriesJobs action) := by
  cases action <;> unfold carriesJobs <;> infer_instance

instance (state : ListingState) (action : Action) : Decidable (state.retriesOnce action) := by
  cases action <;> unfold retriesOnce <;> infer_instance

end ListingState

/-- A page that some committed state lists alone. -/
def OneMoment (state : ListingState) (request : ListRequest)
    (page : Option (List JobDetails × Option NextPageToken)) : Prop :=
  ∃ store ∈ state.committed, ∃ now, { request with now := now }.listed store = page

/-- Each job has an execution, and the last one has a requested status. -/
def ExecutionsListed (request : ListRequest)
    (page : Option (List JobDetails × Option NextPageToken)) : Prop :=
  ∀ jobs next, page = some (jobs, next) → ∀ job ∈ jobs, ∃ last,
    job.executions.getLast? = some last ∧
      ∀ statuses, request.token.filters.executionStatuses = some statuses → last.status ∈ statuses

section Listed

variable {store : Store} {now : Time}

/-- The execution of a job with the greatest identifier is listed last. -/
theorem collectExecutions_getLast? {row : ExecutionRow} (member : row ∈ store.executions.rows)
    (last : ∀ other ∈ store.executions.rows, other.jobId = row.jobId → other.id ≤ row.id) :
    (collectExecutions store now row.jobId).getLast? = some (executionDetails now row) := by
  have sorted := List.pairwise_insertionSort
    (fun first second : ExecutionRow => first.id ≤ second.id)
    (store.executions.rows.filter fun other => other.jobId == row.jobId)
  have listed : row ∈ (store.executions.rows.filter fun other =>
      other.jobId == row.jobId).insertionSort fun first second => first.id ≤ second.id := by
    simp [member]
  have bound := sorted.rel_getLast_of_rel_getLast_getLast listed (Nat.le_refl _)
  have found := List.getLast_mem (List.ne_nil_of_mem listed)
  obtain ⟨present, same⟩ := List.mem_filter.mp ((List.mem_insertionSort _).mp found)
  have greatest := last _ present (beq_iff_eq.mp same)
  have isRow := store.executions.eq_of_key present member (Nat.le_antisymm greatest bound)
  rw [collectExecutions, List.getLast?_map, List.getLast?_eq_some_getLast (List.ne_nil_of_mem listed),
    isRow]
  rfl

theorem listed_jobs {request : ListRequest} {jobs : List JobDetails} {next : Option NextPageToken}
    (listed : request.listed store = some (jobs, next)) :
    jobs = (selectPage store request.now request.token request.pageSize).map
      (rowDetails store request.now) := by
  unfold ListRequest.listed listJobs jobDetails at listed
  dsimp only at listed
  split at listed
  · cases listed
    rfl
  · split at listed
    · obtain ⟨_, _, same⟩ := Option.map_eq_some_iff.mp listed
      cases same
      rfl
    · cases listed
      rfl

/-- A page lists the executions of each of its jobs. -/
theorem executionsListed (inv : JobInvariant store) (stored : StatusesStored store)
    (request : ListRequest) : ExecutionsListed request (request.listed store) := by
  intro jobs next listed job member
  rw [listed_jobs listed] at member
  obtain ⟨row, selected, rfl⟩ := List.mem_map.mp member
  rw [selectPage_eq] at selected
  have queried := (mem_sortedJobs _).mp (List.mem_filter.mp (List.mem_of_mem_take selected)).1
  obtain ⟨present, matching⟩ := List.mem_filter.mp queried
  have wanted : ∀ statuses, request.token.filters.executionStatuses = some statuses →
      ∃ status ∈ statuses, HasStatus store request.now request.token.filters.pendingReasons row
        status := by
    intro statuses given
    rw [Bool.and_eq_true] at matching
    have filtered := matching.2
    simp only [jobMatches, given, Option.isSome_some, Bool.true_or, if_true,
      Bool.and_eq_true] at filtered
    exact (statusFilter_iff (stored.inactive _ present) (stored.active _ present)
      (some statuses) _).mp (by tauto)
  have lastOf : ∀ execution ∈ store.executions.rows, execution.jobId = row.id →
      (∀ other ∈ store.executions.rows, other.jobId = execution.jobId → other.id ≤ execution.id) →
      (rowDetails store request.now row).executions.getLast? =
        some (executionDetails request.now execution) := by
    intro execution member same greatest
    rw [← collectExecutions_getLast? member greatest, same]
    rfl
  cases active : row.inactiveSince with
  | none =>
      obtain ⟨execution, found, same, running⟩ := (inv.running row present).mp active
      have greatest := inv.latest execution found running
      refine ⟨_, lastOf execution found same greatest, ?_⟩
      intro statuses given
      obtain ⟨status, asked, denoted⟩ := wanted statuses given
      rcases denoted with finished | ⟨_, other, known, sameJob, otherRunning, hasStatus, _⟩
      · rw [stored.unmarked row present active] at finished
        cases finished
      · rw [inv.active_unique known found otherRunning running (sameJob.trans same.symm)] at hasStatus
        rw [← hasStatus] at asked
        exact asked
  | some time =>
      obtain ⟨execution, found, same, outcome, greatest⟩ :=
        inv.outcome row present (by rw [active]; exact Option.some_ne_none time)
      refine ⟨_, lastOf execution found same fun other known sameJob =>
        greatest other known (sameJob.trans same), ?_⟩
      intro statuses given
      obtain ⟨status, asked, denoted⟩ := wanted statuses given
      rcases denoted with finished | ⟨unfinished, _⟩
      · rw [outcome] at finished
        cases finished
        exact asked
      · rw [outcome] at unfinished
        cases unfinished

end Listed

/-- A listing in progress is explained by a committed state, a finished page is
that of one. -/
def ListingState.Explained (state : ListingState) : Prop :=
  match state.listing with
  | .idle => True
  | .reading request ran jobs => ∃ store ∈ state.committed,
      Explains (request.statements.take ran) (request.statements.drop ran) [] jobs store state.store
  | .finished request page => ∃ store ∈ state.committed, request.listed store = page

/-- The current state stays committed. -/
theorem ListingState.current_step {state after : ListingState} {action : ListingState.Action}
    (current : state.store ∈ state.committed) (done : state.step action = some after) :
    after.store ∈ after.committed := by
  cases action with
  | commit operation =>
      obtain ⟨store, _, rfl⟩ := Option.map_eq_some_iff.mp done
      exact List.mem_append_right _ (List.mem_singleton.mpr rfl)
  | begin request =>
      cases done
      exact current
  | next =>
      simp only [ListingState.step] at done
      split at done
      · split at done <;> cases done <;> exact current
      · cases done

/-- The committed states keep the invariants of the store. -/
structure CommittedInvariant (state : ListingState) : Prop where
  current : state.store ∈ state.committed
  jobs : ∀ store ∈ state.committed, JobInvariant store
  statuses : ∀ store ∈ state.committed, StatusesStored store

/-- The current state was committed, and the listing is explained. -/
structure ListingInvariant (state : ListingState) : Prop where
  current : state.store ∈ state.committed
  explained : state.Explained

namespace CommittedInvariant

open ListingState

variable {state after : ListingState} {action : Action}

theorem initial : CommittedInvariant .initial where
  current := List.mem_singleton.mpr rfl
  jobs _ member := List.mem_singleton.mp member ▸ .empty
  statuses _ member := List.mem_singleton.mp member ▸ .empty

theorem step (inv : CommittedInvariant state) (carries : state.carriesJobs action)
    (once : state.retriesOnce action) (done : state.step action = some after) :
    CommittedInvariant after := by
  have current := current_step inv.current done
  cases action with
  | commit operation =>
      obtain ⟨store, applied, rfl⟩ := Option.map_eq_some_iff.mp done
      refine ⟨current, ?_, ?_⟩
      · simp only [List.forall_mem_append, List.forall_mem_singleton]
        exact ⟨inv.jobs, (inv.jobs _ inv.current).step carries once applied⟩
      · simp only [List.forall_mem_append, List.forall_mem_singleton]
        exact ⟨inv.statuses, (inv.statuses _ inv.current).step carries applied⟩
  | begin request =>
      cases done
      exact ⟨inv.current, inv.jobs, inv.statuses⟩
  | next =>
      simp only [ListingState.step] at done
      split at done
      · split at done <;> cases done <;> exact ⟨inv.current, inv.jobs, inv.statuses⟩
      · cases done

end CommittedInvariant

namespace ListingInvariant

open ListingState

variable {state after : ListingState} {action : Action}

theorem explained_commit (explained : state.Explained) {operation : Operation}
    (keeps : state.keepsListing (.commit operation)) {store : Store}
    (applied : operation.apply state.store = some store) :
    Explained { state with
      store := store
      committed := state.committed ++ [store] } := by
  unfold Explained at explained ⊢
  unfold keepsListing at keeps
  dsimp only at keeps ⊢
  split
  · trivial
  · rename_i request ran jobs reading
    rw [reading] at explained keeps
    obtain ⟨moment, member, explains⟩ := explained
    rcases explains.change (keeps store applied) with same | later
    · exact ⟨moment, List.mem_append_left _ member, same⟩
    · exact ⟨store, List.mem_append_right _ (List.mem_singleton.mpr rfl), later⟩
  · rename_i request page finished
    rw [finished] at explained
    obtain ⟨moment, member, listed⟩ := explained
    exact ⟨moment, List.mem_append_left _ member, listed⟩

/-- A statement is run, after the last one the page is returned. -/
theorem explained_next (explained : state.Explained) (done : state.step .next = some after) :
    after.Explained := by
  unfold Explained at explained
  simp only [ListingState.step] at done
  split at done
  · rename_i request ran jobs reading
    rw [reading] at explained
    obtain ⟨moment, member, explains⟩ := explained
    split at done
    · rename_i statement found
      cases done
      refine ⟨moment, member, ?_⟩
      rw [List.drop_eq_getElem_cons (List.getElem?_eq_some_iff.mp found).1,
        (List.getElem?_eq_some_iff.mp found).2] at explains
      rw [List.take_add_one, found]
      exact explains.next
    · rename_i missing
      cases done
      refine ⟨moment, member, ?_⟩
      rw [request.listed_eq, ← explains.ran,
        List.take_of_length_le (List.getElem?_eq_none_iff.mp missing)]
  · cases done

theorem step (inv : ListingInvariant state) (keeps : state.keepsListing action)
    (done : state.step action = some after) : ListingInvariant after := by
  refine ⟨current_step inv.current done, ?_⟩
  cases action with
  | commit operation =>
      obtain ⟨store, applied, rfl⟩ := Option.map_eq_some_iff.mp done
      exact explained_commit inv.explained keeps applied
  | begin request =>
      cases done
      exact ⟨state.store, inv.current, .begin state.store []⟩
  | next => exact explained_next inv.explained done

theorem of_reaches (run : Reaches ListingState.step ListingState.keepsListing .initial state) :
    ListingInvariant state :=
  run.invariant (fun _ _ _ inv keeps done => inv.step keeps done)
    ⟨List.mem_singleton.mpr rfl, trivial⟩

/-- A finished page is that of a committed state. -/
theorem finished (inv : ListingInvariant state) {request : ListRequest}
    {page : Option (List JobDetails × Option NextPageToken)}
    (done : state.listing = .finished request page) :
    ∃ store ∈ state.committed, request.listed store = page := by
  have explained := inv.explained
  unfold ListingState.Explained at explained
  rwa [done] at explained

end ListingInvariant

/-- The batches carry the right jobs and name a retried job once. -/
def ListingState.retriesSound (state : ListingState) (action : ListingState.Action) : Prop :=
  state.carriesJobs action ∧ state.retriesOnce action

instance (state : ListingState) (action : ListingState.Action) :
    Decidable (state.retriesSound action) :=
  inferInstanceAs (Decidable (_ ∧ _))

instance (state : ListingState) (action : ListingState.Action) :
    Decidable (state.keepsListing action ∧ state.retriesSound action) :=
  inferInstanceAs (Decidable (_ ∧ _))

theorem committedInvariant_of_reaches {state : ListingState}
    (run : Reaches ListingState.step ListingState.retriesSound .initial state) :
    CommittedInvariant state :=
  run.invariant (fun _ _ _ inv sound done => inv.step sound.1 sound.2 done) .initial

/-- In every run whose transactions keep the listing in progress, a listed page
is that of one committed state.  If their batches are sound as well, each of its
jobs has an execution, and the last one has a requested status. -/
theorem listed_page_one_moment (state : ListingState) :
    (Reaches ListingState.step ListingState.keepsListing .initial state →
      ∀ request page, state.listing = .finished request page → OneMoment state request page) ∧
    (Reaches ListingState.step
        (fun state action => state.keepsListing action ∧ state.retriesSound action) .initial state →
      ∀ request page, state.listing = .finished request page → ExecutionsListed request page) := by
  constructor
  · intro run request page finished
    obtain ⟨store, member, listed⟩ := (ListingInvariant.of_reaches run).finished finished
    exact ⟨store, member, request.now, listed⟩
  · intro run request page finished
    have committed := committedInvariant_of_reaches (run.mono fun _ _ allowed => allowed.2)
    have explained := ListingInvariant.of_reaches (run.mono fun _ _ allowed => allowed.1)
    obtain ⟨store, member, rfl⟩ := explained.finished finished
    exact executionsListed (committed.jobs store member) (committed.statuses store member) request

/-- The pending jobs, a hundred a page. -/
def pendingJobs : ListRequest where
  now := 1
  filters := { executionStatuses := some [.pending] }
  orderBy := none
  pageSize := 100
  pageToken := none

/-- Another job is added after the first was selected. -/
def listedWhileAdded : List ListingState.Action :=
  [.commit (.addJobs 0 (fun _ => 0) [plainJob 2] none), .begin pendingJobs, .next,
    .commit (.addJobs 0 (fun _ => 0) [plainJob 2] none), .next, .next, .next]

/-- A page with one job is finished. -/
def singleListed (state : ListingState) : Bool :=
  match state.listing with
  | .finished _ (some ([_], none)) => true
  | _ => false

theorem listed_page_one_moment_whileAdded :
    ∃ state request page, Reaches ListingState.step
        (fun state action => state.keepsListing action ∧ state.retriesSound action)
        .initial state ∧
      state.listing = .finished request (some ([page], none)) ∧
      OneMoment state request (some ([page], none)) ∧
      ExecutionsListed request (some ([page], none)) := by
  obtain ⟨state, run, checked⟩ := exists_reaches_of_execute ListingState.step
    (fun state action => state.keepsListing action ∧ state.retriesSound action) .initial
    listedWhileAdded singleListed (by decide)
  unfold singleListed at checked
  split at checked
  · rename_i request job finished
    have listed := listed_page_one_moment state
    exact ⟨state, request, job, run, finished,
      listed.1 (run.mono fun _ _ allowed => allowed.1) _ _ finished, listed.2 run _ _ finished⟩
  · cases checked

/-- The pending job is started after it was selected. -/
def listedWhileStarted : List ListingState.Action :=
  [.commit (.addJobs 0 (fun _ => 0) [plainJob 2] none), .begin pendingJobs, .next,
    .commit (.executionsStarted (fun _ => 0) [⟨1, 0, 1⟩]), .next, .next, .next]

/-- A listed job whose last execution has a status that was not requested. -/
def tornPage (state : ListingState) : Bool :=
  match state.listing with
  | .finished request (some (jobs, _)) =>
      jobs.any fun job => request.token.filters.executionStatuses.any fun statuses =>
        job.executions.getLast?.any fun last => !statuses.contains last.status
  | _ => false

theorem listedWhileStarted_not_one_moment :
    ¬∀ state, Reaches ListingState.step ListingState.retriesSound .initial state →
      ∀ request page, state.listing = .finished request page → OneMoment state request page := by
  intro claim
  obtain ⟨state, run, torn⟩ := exists_reaches_of_execute ListingState.step
    ListingState.retriesSound .initial listedWhileStarted tornPage (by decide)
  have inv := committedInvariant_of_reaches run
  unfold tornPage at torn
  split at torn
  · rename_i request jobs next finished
    obtain ⟨store, member, now, listed⟩ := claim state run request _ finished
    obtain ⟨job, present, wrong⟩ := List.any_eq_true.mp torn
    obtain ⟨statuses, asked, other⟩ := (Option.any_eq_true ..).mp wrong
    obtain ⟨last, found, unwanted⟩ := (Option.any_eq_true ..).mp other
    obtain ⟨known, same, wanted⟩ := executionsListed (inv.jobs store member)
      (inv.statuses store member) { request with now := now } jobs next listed job present
    rw [found] at same
    cases same
    simp [wanted statuses asked] at unwanted
  · cases torn

end Ora.Postgres
