import Ora.Client.Listings
import Ora.Server.AdminPages

/-!
# Limits of listings

`list_jobs` keeps its limit over the pages of the server.  `list_schedules`
asks for pages of one size and yields them whole, so that it keeps a limit
above a page only where a page ends or the schedules do.
-/

namespace Ora.Client

open Ora.Backend
open Ora.Library
open Ora.Postgres
open Ora.Server (maxPageSize AdminService.listJobs)

/-- `list_jobs` ends after the first of the jobs, in the requested order. -/
def YieldsJobs (store : Store) (clock : Nat → Time) (filters : JobFilters) (orderBy : JobOrderBy)
    (limit : Option Nat) (jobs : List JobRow) : Prop :=
  ∃ requests yielded,
    listJobs (fun k => AdminService.listJobs store (clock k) filters orderBy) limit requests 0 0
      none = some yielded ∧
    (yielded.map JobDetails.id).Nodup ∧
    yielded.map JobDetails.id =
      limit.elim ((sortedJobs orderBy jobs).map JobRow.id)
        fun most => ((sortedJobs orderBy jobs).take most).map JobRow.id

/-- Every job that ends a page before the limit has an exact token. -/
def LimitExact (orderBy : JobOrderBy) (limit : Option Nat) (jobs : List JobRow) : Prop :=
  ∀ k job, (∀ most ∈ limit, (k + 1) * pageSize < most) →
    (sortedJobs orderBy jobs)[(k + 1) * pageSize - 1]? = some job → TokenExact jobs orderBy job

section Jobs

variable {store : Store} {clock : Nat → Time} {filters : JobFilters} {orderBy : JobOrderBy}
  {limit : Option Nat} {jobs : List JobRow}

/-- The names are those of different jobs. -/
theorem yieldsJobs_iff_names (distinct : (jobs.map JobRow.id).Nodup) :
    YieldsJobs store clock filters orderBy limit jobs ↔
      ∃ requests yielded,
        listJobs (fun k => AdminService.listJobs store (clock k) filters orderBy) limit requests 0 0
          none = some yielded ∧
        yielded.map JobDetails.id = (upTo limit (sortedJobs orderBy jobs)).map JobRow.id := by
  have listed : limit.elim ((sortedJobs orderBy jobs).map JobRow.id)
      (fun most => ((sortedJobs orderBy jobs).take most).map JobRow.id) =
        (upTo limit (sortedJobs orderBy jobs)).map JobRow.id := by
    cases limit <;> rfl
  have part : (upTo limit (sortedJobs orderBy jobs)).Sublist (sortedJobs orderBy jobs) := by
    cases limit with
    | none => exact List.Sublist.refl _
    | some most => exact List.take_sublist ..
  have once : ((upTo limit (sortedJobs orderBy jobs)).map JobRow.id).Nodup :=
    (((List.perm_insertionSort _ jobs).map JobRow.id).nodup_iff.mpr distinct).sublist
      (part.map JobRow.id)
  unfold YieldsJobs
  rw [listed]
  refine exists_congr fun requests => exists_congr fun yielded => and_congr_right fun _ => ?_
  exact ⟨And.right, fun names => ⟨names ▸ once, names⟩⟩

theorem yieldsJobs_iff (word : WordLimit limit) (serializable : filtersSerializable filters = true)
    (matching : ∀ k, queriedJobs store (clock k) filters = jobs) :
    YieldsJobs store clock filters orderBy limit jobs ↔ LimitExact orderBy limit jobs := by
  obtain rfl := matching 0
  have unchanging (k : Nat) := matching k
  rw [yieldsJobs_iff_names (queriedJobs_distinct ..)]
  have distinct : Set.InjOn JobRow.id
      {job | job ∈ (jobKeyset store (clock 0) filters orderBy).rows} := by
    intro first hfirst second hsecond same
    have stored : ∀ job ∈ (jobKeyset store (clock 0) filters orderBy).rows,
        job ∈ store.jobs.rows := fun job member =>
      (List.mem_filter.mp ((mem_sortedJobs orderBy).mp member)).1
    exact store.jobs.eq_of_key (stored first hfirst) (stored second hsecond) same
  refine (listJobs_iff (Server.listJobs_answers store serializable unchanging) (by decide) distinct
    (Left.first word) 0 (show (jobKeyset store (clock 0) filters orderBy).remaining none <:+ _ from
      List.suffix_refl _)).trans ?_
  refine forall_congr' fun k => forall_congr' fun job => imp_congr_right fun _ =>
    forall_congr' fun found => ?_
  exact exact_iff_tokenExact ((mem_sortedJobs orderBy).mp (List.mem_of_getElem? found))

end Jobs

/-- While the same jobs match the filters, `list_jobs` yields the first of them in
order, each once, and ends, exactly when the tokens of the jobs that end a page
before the limit are exact. -/
theorem listJobs_keeps_limit_iff (store : Store) (clock : Nat → Time) (filters : JobFilters)
    (orderBy : JobOrderBy) {limit : Option Nat} {jobs : List JobRow} (word : WordLimit limit)
    (serializable : filtersSerializable filters = true)
    (matching : ∀ k, queriedJobs store (clock k) filters = jobs) :
    YieldsJobs store clock filters orderBy limit jobs ↔ LimitExact orderBy limit jobs :=
  yieldsJobs_iff word serializable matching

/-- Jobs that are due at some times. -/
def dueJobs (times : List Time) : Store :=
  let due (time : Time) : NewJob := ⟨{ (plainJob 0).job with targetExecutionTime := time }, none⟩
  (Operation.apply Store.empty (.addJobs 0 (fun _ => 0) (times.map due) none)).getD Store.empty

/-- Thirty jobs, the last of which is due first. -/
def thirtyJobs : Store :=
  dueJobs ((List.range 30).map fun k => 1000000000 * (30 - k : Int))

theorem listJobs_keeps_limit_iff_thirty :
    YieldsJobs thirtyJobs (fun _ => 0) {} .targetExecutionTimeAsc (some 28)
      (queriedJobs thirtyJobs 0 {}) := by
  refine (listJobs_keeps_limit_iff thirtyJobs (fun _ => 0) {} .targetExecutionTimeAsc
    (fun most given => by cases given; decide) (by decide) (fun _ => rfl)).mpr ?_
  intro k job within found
  obtain rfl : k = 0 := by
    have below := within 28 rfl
    unfold pageSize at below
    omega
  have due : ((sortedJobs .targetExecutionTimeAsc (queriedJobs thirtyJobs 0 {}))[24]?.map
      fun job => job.targetExecutionTime) = some 25000000000 := by decide +kernel
  rw [show (0 + 1) * pageSize - 1 = 24 from rfl] at found
  rw [found, Option.map_some, Option.some.injEq] at due
  refine .inl ?_
  rw [due]
  decide +kernel

/-- Twenty-six jobs whose time comes back from a token a microsecond earlier. -/
def lateJobs : Store :=
  dueJobs (List.replicate 26 10000000000000021000)

/-- The second page of such jobs begins with the first one again. -/
theorem not_listJobs_keeps_limit :
    ¬∀ (store : Store) (clock : Nat → Time) (filters : JobFilters) (orderBy : JobOrderBy)
      (limit : Option Nat) (jobs : List JobRow), WordLimit limit →
      filtersSerializable filters = true →
      (∀ job ∈ store.jobs.rows, 0 ≤ job.targetExecutionTime) →
      (∀ k, queriedJobs store (clock k) filters = jobs) →
      YieldsJobs store clock filters orderBy limit jobs := by
  intro keeps
  have word : WordLimit none := nofun
  have yields := keeps lateJobs (fun _ => 0) {} .targetExecutionTimeAsc none
    (queriedJobs lateJobs 0 {}) word (by decide) (by decide +kernel) (fun _ => rfl)
  have exactly := (yieldsJobs_iff word (by decide) (fun _ => rfl)).mp yields
  have due : ∀ job ∈ queriedJobs lateJobs 0 {}, job.targetExecutionTime = 10000000000000021000 := by
    decide +kernel
  obtain ⟨job, found⟩ : ∃ job,
      (sortedJobs .targetExecutionTimeAsc (queriedJobs lateJobs 0 {}))[24]? = some job := by
    rw [← Option.isSome_iff_exists]
    decide +kernel
  have time := due job ((mem_sortedJobs _).mp (List.mem_of_getElem? found))
  have back : cursorTime 10000000000000021000 = 10000000000000020000 := by decide +kernel
  have token := exactly 0 job nofun found
  rw [TokenExact, time, back] at token
  rcases token with same | ⟨later, _⟩
  · exact absurd same (by decide)
  · exact absurd later (by decide)

section Schedules

variable {α γ τ : Type} {name : α → γ} {rows : List γ}

/-- `list_schedules` ends after the first of the schedules. -/
def YieldsSchedules (server : PageServer maxPageSize name rows τ) (limit : Option Nat) : Prop :=
  ∃ requests yielded, listSchedules server.request limit requests 0 0 none = some yielded ∧
    yielded.map name = limit.elim rows rows.take

theorem listSchedules_keeps_limit_iff (server : PageServer maxPageSize name rows τ)
    {limit : Option Nat} (word : WordLimit limit) :
    YieldsSchedules server limit ↔
      ∀ most, limit = some most → most ≤ 25 ∨ 25 ∣ most ∨ rows.length ≤ most := by
  cases limit with
  | none => exact ⟨fun _ most given => (by cases given), fun _ =>
      listSchedules_none server (by decide) 0 server.first⟩
  | some most =>
      have bounded := word most rfl
      constructor
      · rintro ⟨requests, yielded, done, names⟩ other given
        obtain rfl := Option.some.inj given
        by_contra neither
        rw [not_or, not_or] at neither
        obtain ⟨long, inside, beyond⟩ := neither
        have exceeded := listSchedules_exceeds server bounded (by decide) (by decide)
          (by omega : min 25 most = 25) requests 0 (Nat.zero_le _) inside (by omega) server.first done
        have length := congrArg List.length names
        rw [List.length_map, Option.elim_some, List.length_take] at length
        omega
      · intro kept
        obtain rfl | positive := Nat.eq_zero_or_pos most
        · exact ⟨1, [], rfl, rfl⟩
        · have size : 0 < min 25 most := by omega
          have allowed : min 25 most ≤ maxPageSize :=
            Nat.le_trans (Nat.min_le_left ..) (by decide)
          by_cases short : rows.length ≤ most
          · obtain ⟨requests, yielded, done, names⟩ := listSchedules_within server bounded size
              allowed rfl 0 (by omega : 0 + rows.length ≤ most) server.first
            refine ⟨requests, yielded, done, ?_⟩
            rw [names, Option.elim_some, List.take_of_length_le short]
          · obtain ⟨pages, whole⟩ : ∃ pages, most = pages * min 25 most := by
              rcases kept most rfl with small | ⟨pages, divides⟩ | enough
              · exact ⟨1, by rw [Nat.min_eq_right small, Nat.one_mul]⟩
              · exact ⟨pages, by rw [Nat.min_eq_left (by omega), Nat.mul_comm]; exact divides⟩
              · exact absurd enough short
            obtain ⟨requests, yielded, done, names⟩ := listSchedules_pages server bounded size
              allowed rfl 0 pages (by rw [Nat.zero_add]; exact whole) (by omega) server.first
            refine ⟨requests, yielded, done, ?_⟩
            rw [names, ← whole]
            rfl

theorem listSchedules_keeps_limit_iff_forty :
    YieldsSchedules (PageServer.ofList maxPageSize (List.range 50)) (some 40) ↔
      ∀ most, some 40 = some most → most ≤ 25 ∨ 25 ∣ most ∨ (List.range 50).length ≤ most :=
  listSchedules_keeps_limit_iff _ fun most given => by cases given; decide

/-- Both pages of fifty schedules are yielded whole with a limit of thirty. -/
theorem not_listSchedules_keeps_limit :
    ¬∀ (rows : List Nat) (server : PageServer maxPageSize id rows Nat) (limit : Option Nat),
      WordLimit limit → YieldsSchedules server limit := by
  intro keeps
  have word : WordLimit (some 30) := fun most given => by
    cases given
    decide
  obtain ⟨requests, yielded, done, names⟩ :=
    keeps (List.range 50) (.ofList maxPageSize (List.range 50)) (some 30) word
  have exceeded := listSchedules_exceeds (.ofList maxPageSize (List.range 50)) (word 30 rfl)
    (by decide) (by decide) (rfl : min 25 30 = 25) requests 0 (Nat.zero_le _) (by decide)
    (by decide : 30 < 0 + (List.range 50).length) (PageServer.first _) done
  have length := congrArg List.length names
  rw [List.length_map, Option.elim_some, List.length_take, List.length_range] at length
  omega

end Schedules

end Ora.Client
