import Ora.Cli.FilterArgsMeaning
import Mathlib.Tactic.Linarith

/-!
# Exchanged bounds

When the exchange of `--target-after` and `--target-before` shows: in every store
the filters select the jobs that satisfy the options exactly when no job can
satisfy them and none is selected, or neither of the two options is given and the
other bounds are compared as they are given.
-/

namespace Ora.Cli

open Ora.Backend
open Ora.Library
open Ora.Postgres
open Ora.Proto (Conversions)

/-- The time is in the range, whose bounds are read by `bound`. -/
def Within (bound : Time → Time) (start stop : Option Time) (time : Time) : Prop :=
  (∀ first ∈ start, bound first ≤ time) ∧ ∀ last ∈ stop, time < bound last

/-- The bounds are given and not in order. -/
def Reversed (bound : Time → Time) (start stop : Option Time) : Prop :=
  ∃ first ∈ start, ∃ last ∈ stop, bound last ≤ bound first

section Within

variable {bound : Time → Time} {start stop : Option Time} {time : Time}

theorem inRange_iff_within : InRange bound (some ⟨start, stop⟩) time ↔
    Within bound start stop time := by
  simp [InRange, Within]

/-- The bounds of stored times can be rounded up. -/
theorem within_wholeMicros (whole : 1000 ∣ time) :
    Within id start stop time ↔ Within wholeMicros start stop time := by
  simp only [Within, id_eq, wholeMicros_le_iff whole, lt_wholeMicros_iff whole]

theorem Reversed.not_within (reversed : Reversed bound start stop) :
    ¬Within bound start stop time := by
  obtain ⟨first, given, last, given', order⟩ := reversed
  rintro ⟨lower, upper⟩
  have below := lower first given
  have above := upper last given'
  linarith

/-- Any other range has a time that can be stored. -/
theorem exists_within (whole : ∀ time, 1000 ∣ bound time) (ordered : ¬Reversed bound start stop) :
    ∃ time, 1000 ∣ time ∧ Within bound start stop time := by
  cases start with
  | some first =>
      refine ⟨bound first, whole first, by simp, fun last given => ?_⟩
      exact Int.not_le.mp fun order => ordered ⟨first, rfl, last, given, order⟩
  | none =>
      cases stop with
      | none => exact ⟨0, Int.dvd_zero _, nofun, nofun⟩
      | some last =>
          refine ⟨bound last - 1000, Int.dvd_sub (whole last) (Int.dvd_refl _), nofun, ?_⟩
          simp

end Within

section Times

variable {after before createdAfter createdBefore : Option Time}

/-- No job is asked for and none is selected, or the target execution time is not
asked for and the bounds of the creation are compared as they are given. -/
def TimesHold (after before createdAfter createdBefore : Option Time) : Prop :=
  (Reversed wholeMicros after before ∨ Reversed wholeMicros createdAfter createdBefore) ∧
      (Reversed systemtimeToTs before after ∨
        Reversed systemtimeToTs createdAfter createdBefore) ∨
    after = none ∧ before = none ∧
      (∀ start ∈ createdAfter, systemtimeToTs start = wholeMicros start) ∧
      ∀ stop ∈ createdBefore, systemtimeToTs stop = wholeMicros stop

/-- The times are selected exactly when they are asked for. -/
def SameTimes (after before createdAfter createdBefore : Option Time) (target created : Time) :
    Prop :=
  (Within systemtimeToTs before after target ∧
      Within systemtimeToTs createdAfter createdBefore created) ↔
    Within wholeMicros after before target ∧ Within wholeMicros createdAfter createdBefore created

theorem TimesHold.same (hold : TimesHold after before createdAfter createdBefore)
    (target created : Time) : SameTimes after before createdAfter createdBefore target created := by
  obtain ⟨asked, selected⟩ | ⟨rfl, rfl, starts, stops⟩ := hold
  · refine iff_of_false ?_ ?_
    · rintro ⟨inTarget, inCreated⟩
      exact selected.elim (·.not_within inTarget) (·.not_within inCreated)
    · rintro ⟨inTarget, inCreated⟩
      exact asked.elim (·.not_within inTarget) (·.not_within inCreated)
  · refine and_congr (iff_of_true ⟨nofun, nofun⟩ ⟨nofun, nofun⟩) (and_congr ?_ ?_)
    · exact forall₂_congr fun start given => by rw [starts start given]
    · exact forall₂_congr fun stop given => by rw [stops stop given]

/-- A range of target execution times that is the same with exchanged bounds has none. -/
theorem none_of_exchanged {time : Time} (inside : Within wholeMicros after before time)
    (same : ∀ target, 1000 ∣ target →
      (Within systemtimeToTs before after target ↔ Within wholeMicros after before target))
    (whole : 1000 ∣ time) : after = none ∧ before = none := by
  have exchanged := (same time whole).mpr inside
  cases after with
  | some first =>
      cases before with
      | some last =>
          -- the exchanged bounds are in the other order
          have order : first < last := by
            have below := (wholeMicros_le_iff whole).mp (inside.1 first rfl)
            exact Int.lt_of_le_of_lt below ((lt_wholeMicros_iff whole).mp (inside.2 last rfl))
          have below := exchanged.1 last rfl
          have above := exchanged.2 first rfl
          have := systemtimeToTs_mono (Int.le_of_lt order)
          linarith
      | none =>
          have later : Within wholeMicros (some first) none
              (max (wholeMicros first) (systemtimeToTs first)) := ⟨by simp, nofun⟩
          have above := ((same _ ?_).mpr later).2 first rfl
          · exact absurd (lt_of_le_of_lt (le_max_right ..) above) (lt_irrefl _)
          · rcases max_choice (wholeMicros first) (systemtimeToTs first) with eq | eq <;> rw [eq]
            · exact dvd_wholeMicros first
            · exact dvd_systemtimeToTs first
  | none =>
      cases before with
      | some last =>
          have later : Within systemtimeToTs (some last) none
              (max (wholeMicros last) (systemtimeToTs last)) := ⟨by simp, nofun⟩
          have above := ((same _ ?_).mp later).2 last rfl
          · exact absurd (lt_of_le_of_lt (le_max_left ..) above) (lt_irrefl _)
          · rcases max_choice (wholeMicros last) (systemtimeToTs last) with eq | eq <;> rw [eq]
            · exact dvd_wholeMicros last
            · exact dvd_systemtimeToTs last
      | none => exact ⟨rfl, rfl⟩

/-- A range with a time in it is the same only with the same bounds. -/
theorem bounds_eq_of_same {time : Time} (inside : Within wholeMicros createdAfter createdBefore time)
    (same : ∀ created, 1000 ∣ created → (Within systemtimeToTs createdAfter createdBefore created ↔
      Within wholeMicros createdAfter createdBefore created)) (whole : 1000 ∣ time) :
    (∀ start ∈ createdAfter, systemtimeToTs start = wholeMicros start) ∧
      ∀ stop ∈ createdBefore, systemtimeToTs stop = wholeMicros stop := by
  have selected := (same time whole).mpr inside
  refine ⟨fun start given => le_antisymm ?_ ?_, fun stop given => le_antisymm ?_ ?_⟩
  · have first : Within wholeMicros createdAfter createdBefore (wholeMicros start) := by
      refine ⟨fun other given' => ?_, fun stop given' => ?_⟩
      · rw [Option.mem_unique given' given]
      · exact lt_of_le_of_lt (inside.1 start given) (inside.2 stop given')
    exact ((same _ (dvd_wholeMicros start)).mpr first).1 start given
  · have first : Within systemtimeToTs createdAfter createdBefore (systemtimeToTs start) := by
      refine ⟨fun other given' => ?_, fun stop given' => ?_⟩
      · rw [Option.mem_unique given' given]
      · exact lt_of_le_of_lt (selected.1 start given) (selected.2 stop given')
    exact ((same _ (dvd_systemtimeToTs start)).mp first).1 start given
  · by_contra later
    have last : Within systemtimeToTs createdAfter createdBefore (wholeMicros stop) := by
      refine ⟨fun start given' => ?_, fun other given' => ?_⟩
      · exact le_of_lt (lt_of_le_of_lt (selected.1 start given') (inside.2 stop given))
      · rw [Option.mem_unique given' given]
        exact Int.not_le.mp later
    exact lt_irrefl _ (((same _ (dvd_wholeMicros stop)).mp last).2 stop given)
  · by_contra later
    have last : Within wholeMicros createdAfter createdBefore (systemtimeToTs stop) := by
      refine ⟨fun start given' => ?_, fun other given' => ?_⟩
      · exact le_of_lt (lt_of_le_of_lt (inside.1 start given') (selected.2 stop given))
      · rw [Option.mem_unique given' given]
        exact Int.not_le.mp later
    exact lt_irrefl _ (((same _ (dvd_systemtimeToTs stop)).mpr last).2 stop given)

theorem timesHold_of_same (same : ∀ target created, 1000 ∣ target → 1000 ∣ created →
      SameTimes after before createdAfter createdBefore target created) :
    TimesHold after before createdAfter createdBefore := by
  by_cases asked : Reversed wholeMicros after before ∨
    Reversed wholeMicros createdAfter createdBefore
  · refine .inl ⟨asked, ?_⟩
    by_contra selected
    obtain ⟨ordered, createdOrdered⟩ := not_or.mp selected
    obtain ⟨target, whole, inTarget⟩ := exists_within dvd_systemtimeToTs ordered
    obtain ⟨created, whole', inCreated⟩ := exists_within dvd_systemtimeToTs createdOrdered
    obtain ⟨inTarget, inCreated⟩ := (same target created whole whole').mp ⟨inTarget, inCreated⟩
    exact asked.elim (·.not_within inTarget) (·.not_within inCreated)
  · obtain ⟨ordered, createdOrdered⟩ := not_or.mp asked
    obtain ⟨target, whole, inTarget⟩ := exists_within dvd_wholeMicros ordered
    obtain ⟨created, whole', inCreated⟩ := exists_within dvd_wholeMicros createdOrdered
    have both := (same target created whole whole').mpr ⟨inTarget, inCreated⟩
    have targets (other : Time) (stored : 1000 ∣ other) :
        Within systemtimeToTs before after other ↔ Within wholeMicros after before other :=
      ⟨fun inside => ((same other created stored whole').mp ⟨inside, both.2⟩).1,
        fun inside => ((same other created stored whole').mpr ⟨inside, inCreated⟩).1⟩
    have creations (other : Time) (stored : 1000 ∣ other) :
        Within systemtimeToTs createdAfter createdBefore other ↔
          Within wholeMicros createdAfter createdBefore other :=
      ⟨fun inside => ((same target other whole stored).mp ⟨both.1, inside⟩).2,
        fun inside => ((same target other whole stored).mpr ⟨inTarget, inside⟩).2⟩
    obtain ⟨noAfter, noBefore⟩ := none_of_exchanged inTarget targets whole
    exact .inr ⟨noAfter, noBefore, bounds_eq_of_same inCreated creations whole'⟩

end Times

section Asked

variable (filters : JobFilters)

def askedStatus : ExecutionStatus :=
  if filters.pendingReasons.isSome then .pending
  else (filters.executionStatuses.getD []).headD .pending

def askedValue (filter : LabelFilter) : String :=
  match filter.valueIn with
  | some values => values.headD ""
  | none => filter.value.getD ""

def askedExecution : ExecutionRow where
  id := (filters.executionIds.getD []).headD 0
  jobId := (filters.jobIds.getD []).headD 0
  executorId := (filters.executorIds.getD []).head?
  createdAt := 0
  targetExecutionTime := if (filters.pendingReasons.getD []).head? = some .scheduled then 1000 else 0
  startedAt := if askedStatus filters = .pending then none else some 0
  succeededAt := if askedStatus filters = .succeeded then some 0 else none
  failedAt := if askedStatus filters = .failed then some 0 else none
  cancelledAt := if askedStatus filters = .cancelled then some 0 else none
  outputJson := none
  failureReason := none
  priority := 0

def askedJob (target created : Time) : JobRow where
  id := (filters.jobIds.getD []).headD 0
  createdAt := created
  scheduleId := (filters.scheduleIds.getD []).head?
  jobTypeId := (filters.jobTypeIds.getD []).headD ""
  targetExecutionTime := target
  inputPayloadJson := "{}"
  timeoutPolicyJson := ⟨0, .startTime⟩
  retryPolicyJson := ⟨0, 0, none, .fixed⟩
  priority := filters.minPriority.getD (filters.maxPriority.getD 0)
  inactiveSince := if terminal (askedStatus filters) then some 0 else none
  inactiveStatus := if terminal (askedStatus filters) then some (askedStatus filters) else none

def askedLabels : List JobLabelRow :=
  (filters.labels.getD []).map fun filter =>
    ⟨(filters.jobIds.getD []).headD 0, filter.key, askedValue filter⟩

theorem askedLabels_nodup (keys : ((filters.labels.getD []).map LabelFilter.key).Nodup) :
    ((askedLabels filters).map JobLabelRow.key).Nodup := by
  rw [askedLabels, List.map_map]
  refine List.Nodup.of_map Prod.snd ?_
  rwa [List.map_map]

/-- The store with that job, its execution and its labels. -/
def askedStore (target created : Time)
    (keys : ((filters.labels.getD []).map LabelFilter.key).Nodup) : Store :=
  { Store.empty with
    jobs := ⟨[askedJob filters target created], List.nodup_singleton _⟩
    jobLabels := ⟨askedLabels filters, askedLabels_nodup filters keys⟩
    executions := ⟨[askedExecution filters], List.nodup_singleton _⟩
    jobLabel_job := by
      intro label member
      obtain ⟨filter, _, rfl⟩ := List.mem_map.mp member
      exact ⟨_, List.mem_singleton_self _, rfl⟩
    execution_job := by
      intro row member
      rw [List.mem_singleton.mp member]
      exact ⟨_, List.mem_singleton_self _, rfl⟩ }

variable {filters} {target created : Time}

theorem askedExecution_status : (askedExecution filters).status = askedStatus filters := by
  unfold ExecutionRow.status askedExecution
  cases askedStatus filters <;> rfl

theorem headD_mem {α : Type} {list : Option (List α)} (nonempty : list ≠ some []) (default : α) :
    Among list ((list.getD []).headD default) := by
  intro values given
  cases values with
  | nil => exact absurd given nonempty
  | cons first rest =>
      rw [Option.mem_def.mp given]
      exact List.mem_cons_self ..

theorem head?_mem {α : Type} {list : Option (List α)} (nonempty : list ≠ some []) :
    AmongNullable list (list.getD []).head? := by
  intro values given
  cases values with
  | nil => exact absurd given nonempty
  | cons first rest =>
      rw [Option.mem_def.mp given]
      exact ⟨first, rfl, List.mem_cons_self ..⟩

theorem askedStore_stored (keys : ((filters.labels.getD []).map LabelFilter.key).Nodup) :
    StatusesStored (askedStore filters target created keys) where
  inactive job member status marked := by
    rw [List.mem_singleton.mp member, askedJob] at marked
    dsimp only at marked
    split at marked
    · rename_i finished
      rwa [← Option.some.inj marked]
    · cases marked
  active job member unmarked := by
    rw [List.mem_singleton.mp member] at unmarked ⊢
    refine ⟨_, List.mem_singleton_self _, rfl, ?_⟩
    by_contra inactive
    rw [Bool.not_eq_true, ExecutionRow.not_active_iff, askedExecution_status] at inactive
    simp [askedJob, inactive] at unmarked
  unmarked job member unfinished := by
    rw [List.mem_singleton.mp member] at unfinished ⊢
    unfold askedJob at unfinished ⊢
    dsimp only at unfinished ⊢
    split at unfinished
    · cases unfinished
    · rename_i running
      rw [if_neg running]

theorem askedStatus_mem (full : hasEmptyList filters = false)
    (allowed : Proto.reasonsWithoutPending filters = false) :
    askedStatus filters ∈ filters.executionStatuses.getD [.pending] := by
  simp only [hasEmptyList, Bool.or_eq_false_iff, beq_eq_false_iff_ne, and_assoc] at full
  obtain ⟨_, _, _, _, statuses, _, reasons⟩ := full
  unfold askedStatus
  cases given : filters.executionStatuses with
  | none => cases filters.pendingReasons <;> simp
  | some list =>
      cases reason : filters.pendingReasons with
      | none =>
          have member := headD_mem statuses ExecutionStatus.pending list given
          rw [given] at member
          simpa using member
      | some listed =>
          have nonempty : listed ≠ [] := fun empty => reasons (by rw [reason, empty])
          have anyStatus : list ≠ [] := fun empty => statuses (by rw [given, empty])
          simpa [Proto.reasonsWithoutPending, given, reason, nonempty, anyStatus] using allowed

/-- The reason of the execution is the first one asked for. -/
theorem askedExecution_reason (nonempty : filters.pendingReasons ≠ some [])
    (pending : askedStatus filters = .pending) :
    ∀ allowed ∈ filters.pendingReasons,
      ∃ reason ∈ pendingReason 0 (askedExecution filters), reason ∈ allowed := by
  intro allowed given
  cases allowed with
  | nil => exact absurd given nonempty
  | cons first rest =>
      refine ⟨first, ?_, List.mem_cons_self ..⟩
      unfold pendingReason
      rw [if_pos (askedExecution_status.trans pending), askedExecution, Option.mem_def.mp given]
      cases first <;> rfl

theorem askedJob_conditions (full : hasEmptyList filters = false)
    (allowed : Proto.reasonsWithoutPending filters = false)
    (priorities : ∀ least ∈ filters.minPriority, ∀ greatest ∈ filters.maxPriority, least ≤ greatest)
    (keys : ((filters.labels.getD []).map LabelFilter.key).Nodup)
    (values : ∀ filter ∈ filters.labels.getD [], filter.valueIn ≠ some []) :
    JobConditions (askedStore filters target created keys) 0 filters
      (askedJob filters target created) := by
  have statuses := askedStatus_mem full allowed
  simp only [hasEmptyList, Bool.or_eq_false_iff, beq_eq_false_iff_ne, and_assoc] at full
  obtain ⟨ids, types, executors, executions, _, schedules, reasons⟩ := full
  refine {
    jobIds := headD_mem ids 0
    jobTypeIds := headD_mem types ""
    executions := fun _ => ⟨askedExecution filters, List.mem_singleton_self _, rfl,
      headD_mem executions 0, head?_mem executors⟩
    executionStatuses := fun _ => ⟨askedStatus filters, statuses, ?_⟩
    pendingReasons := reasons
    labels := fun filter member => ⟨⟨(filters.jobIds.getD []).headD 0, filter.key,
      askedValue filter⟩, List.mem_map_of_mem member, rfl, rfl, ?_⟩
    scheduleIds := head?_mem schedules
    minPriority := fun least given => ?_
    maxPriority := fun greatest given => ?_ }
  · cases finished : terminal (askedStatus filters) with
    | true => exact .inl (by simp [askedJob, finished])
    | false =>
        refine .inr ⟨by simp [askedJob, finished], askedExecution filters,
          List.mem_singleton_self _, rfl, ?_, askedExecution_status,
          askedExecution_reason reasons⟩
        rw [← Bool.not_eq_false, ExecutionRow.not_active_iff, askedExecution_status, finished]
        exact Bool.false_ne_true
  · cases given : filter.valueIn with
    | none => simp +contextual [askedValue, given]
    | some list =>
        cases list with
        | nil => exact absurd given (values filter member)
        | cons first rest => simp [askedValue, given]
  · rw [askedJob, Option.mem_def.mp given]
    exact le_refl _
  · unfold askedJob
    cases least : filters.minPriority with
    | none =>
        rw [Option.mem_def.mp given]
        exact le_refl _
    | some lowest => exact priorities lowest least greatest given

end Asked

/-- The time of an option, if it is given and can be parsed. -/
def readTime (parseTsOrDate : String → Except String Time) (text : Option String) : Option Time :=
  text.bind fun given => (parseTsOrDate given).toOption

/-- The server refuses the pending reasons, no priority is asked for, or the
bounds of the times make no difference. -/
def ArgsHold (parseTsOrDate : String → Except String Time) (args : JobFilterArgs) : Prop :=
  (args.pendingReasons ≠ [] ∧ args.executionStatuses ≠ [] ∧
      JobStatus.pending ∉ args.executionStatuses) ∨
    (∃ least ∈ args.minPriority, ∃ greatest ∈ args.maxPriority, greatest < least) ∨
    TimesHold (readTime parseTsOrDate args.targetExecutionTimeAfter)
      (readTime parseTsOrDate args.targetExecutionTimeBefore)
      (readTime parseTsOrDate args.createdAfter) (readTime parseTsOrDate args.createdBefore)

section Held

variable {conversions : Conversions} {parseTsOrDate : String → Except String Time}
  {args : JobFilterArgs} {filters : JobFilters}

theorem readTime_eq {text : Option String} {parsed : Option Time}
    (done : parseTime parseTsOrDate text = .ok parsed) : readTime parseTsOrDate text = parsed := by
  rcases parseTime_eq_ok done with ⟨rfl, rfl⟩ | ⟨given, time, rfl, read, rfl⟩
  · rfl
  · simp [readTime, read, Except.toOption]

theorem labelFilter_values (group : String × List String) :
    (labelFilter group).valueIn ≠ some [] := by
  obtain ⟨key, values⟩ := group
  match values with
  | [] => exact nofun
  | [_] => exact nofun
  | _ :: _ :: _ => simp [labelFilter]

namespace Built

variable (built : Built conversions parseTsOrDate args filters)

include built

theorem labels_eq : filters.labels.getD [] = parseLabelFilters args.labels := by
  rw [built.labels]
  cases args.labels <;> rfl

theorem reasonsWithoutPending_iff : Proto.reasonsWithoutPending filters = true ↔
    args.pendingReasons ≠ [] ∧ args.executionStatuses ≠ [] ∧
      JobStatus.pending ∉ args.executionStatuses := by
  have into : ∀ status : JobStatus, status.into = .pending ↔ status = .pending := by
    intro status
    cases status <;> simp [JobStatus.into]
  unfold Proto.reasonsWithoutPending
  rw [built.pendingReasons, built.executionStatuses]
  cases args.pendingReasons with
  | nil => simp [ifGiven]
  | cons reason reasons =>
      cases args.executionStatuses with
      | nil => simp [ifGiven]
      | cons first rest => simp [ifGiven, eq_comm (a := ExecutionStatus.pending), into,
          eq_comm (a := JobStatus.pending)]

/-- The time ranges of the filters. -/
theorem times_iff {target created : Time} (whole : 1000 ∣ target) (whole' : 1000 ∣ created) :
    ((InRange systemtimeToTs filters.targetExecutionTime target ∧
        InRange systemtimeToTs filters.createdAt created) ↔
      InRange id (exchanged filters.targetExecutionTime) target ∧
        InRange id filters.createdAt created) ↔
    SameTimes (readTime parseTsOrDate args.targetExecutionTimeAfter)
      (readTime parseTsOrDate args.targetExecutionTimeBefore)
      (readTime parseTsOrDate args.createdAfter) (readTime parseTsOrDate args.createdBefore)
      target created := by
  obtain ⟨after, before, range, readAfter, readBefore⟩ := built.targetExecutionTime
  obtain ⟨start, stop, createdRange, readStart, readStop⟩ := built.createdAt
  rw [range, createdRange, readTime_eq readAfter, readTime_eq readBefore, readTime_eq readStart,
    readTime_eq readStop, exchanged, Option.map_some]
  simp only [SameTimes, inRange_iff_within, within_wholeMicros whole, within_wholeMicros whole']

/-- Options that no priority satisfies select no job. -/
theorem holds_of_priorities {store : Store} {now : Time} {job : JobRow} {least greatest : Int}
    (lower : least ∈ args.minPriority) (upper : greatest ∈ args.maxPriority)
    (reversed : greatest < least) : ¬JobConditions store now filters job := by
  intro met
  have above := met.minPriority least (by rw [built.minPriority]; exact lower)
  have below := met.maxPriority greatest (by rw [built.maxPriority]; exact upper)
  exact absurd (le_trans above below) (Int.not_le.mpr reversed)

end Built

end Held

/-- Dates of two days. -/
def parseDays : String → Except String Time
  | "1970-01-02" => .ok 86400000000000
  | "1970-01-03" => .ok 172800000000000
  | _ => .error "unrecognized time format"

/-- Options of labels, statuses, a priority and a creation. -/
def createdArgs : JobFilterArgs where
  labels := ["tenant=one", "tenant=two", "urgent"]
  executionStatuses := [.pending, .inProgress]
  minPriority := some 1
  createdAfter := some "1970-01-02"
  createdBefore := some "1970-01-03"

/-- A job that is due on the second day. -/
def dueLater : Store :=
  (Operation.apply Store.empty (.addJobs 0 (fun _ => 0)
    [⟨{ (plainJob 0).job with targetExecutionTime := 172800000000000 }, none⟩] none)).getD Store.empty

end Ora.Cli
