import Ora.Library.PageServer
import Ora.Postgres.ListingPages
import Ora.Postgres.ScheduleListing

/-!
# Pages of the admin service

`list_jobs` and `list_schedules` of `grpc/admin.rs`, which bound the size of a
page, as servers of the jobs and schedules that match a request.
-/

namespace Ora.Server

open Ora.Backend
open Ora.Library
open Ora.Postgres

/-- The page size used if none is given. -/
def defaultPageSize : Nat := 50

/-- The largest page size allowed. -/
def maxPageSize : Nat := 1000

def pageSize (requested : Nat) : Nat :=
  match requested with
  | 0 => defaultPageSize
  | size => min size maxPageSize

def AdminService.listJobs (store : Store) (now : Time) (filters : JobFilters) (orderBy : JobOrderBy)
    (requested : Nat) (pageToken : Option NextPageToken) :
    Option (List JobDetails × Option NextPageToken) :=
  jobDetails store now filters orderBy (pageSize requested) pageToken

def AdminService.listSchedules (store : Store) (filters : ScheduleFilters)
    (orderBy : ScheduleOrderBy) (requested : Nat) (pageToken : Option NextSchedulePageToken) :
    Option (List ScheduleDetails × Option NextSchedulePageToken) :=
  scheduleDetails store filters orderBy (pageSize requested) pageToken

theorem pageSize_of_le {size : Nat} (positive : 0 < size) (allowed : size ≤ maxPageSize) :
    pageSize size = size := by
  obtain ⟨before, rfl⟩ := Nat.exists_eq_succ_of_ne_zero (Nat.ne_of_gt positive)
  exact Nat.min_eq_left allowed

section Servers

variable (store : Store)

/-- The schedules that match a request, in order. -/
def scheduleServer (filters : ScheduleFilters) (orderBy : ScheduleOrderBy)
    (serializable : rangeSerializable filters.createdAt = true) :
    PageServer maxPageSize ScheduleDetails.id
      ((sortedSchedules orderBy (matchingSchedules store filters)).map ScheduleRow.id)
      NextSchedulePageToken :=
  .ofKeyset maxPageSize (scheduleKeyset store filters orderBy)
    (fun row _ => scheduleKeyset_exact row) ScheduleRow.id ScheduleDetails.id
    (fun row => ⟨scheduleToken filters orderBy row, serializable⟩)
    (fun _ => AdminService.listSchedules store filters orderBy)
    (fun _ size token positive allowed => by
      dsimp only [AdminService.listSchedules]
      rw [pageSize_of_le positive allowed]
      exact scheduleDetails_fetch serializable size token)

/-- The jobs that match a request, in order, while the same jobs match it. -/
theorem listJobs_answers {clock : Nat → Time} {filters : JobFilters} {orderBy : JobOrderBy}
    (serializable : filtersSerializable filters = true)
    (unchanging : ∀ k, queriedJobs store (clock k) filters = queriedJobs store (clock 0) filters) :
    (jobKeyset store (clock 0) filters orderBy).Answers maxPageSize JobRow.id JobDetails.id
      (fun job => ⟨rowToken filters orderBy job, rowToken_serializable serializable orderBy job⟩)
      fun k => AdminService.listJobs store (clock k) filters orderBy := by
  intro k size token positive allowed
  have keyset : jobKeyset store (clock k) filters orderBy =
      jobKeyset store (clock 0) filters orderBy := by
    simp only [jobKeyset, unchanging k]
  dsimp only [AdminService.listJobs]
  rw [pageSize_of_le positive allowed, ← keyset]
  exact jobDetails_fetch serializable token

end Servers

end Ora.Server
