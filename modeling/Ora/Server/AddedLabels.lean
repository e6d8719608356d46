import Ora.Library.Codec
import Ora.Library.FirstKeys
import Ora.Postgres.Operations
import Ora.Server.ScheduleTimes
import Ora.Ui.Labels

/-!
# Labels of added jobs and schedules

The checks of `add_jobs` and `add_schedules` of `grpc/admin.rs` with the label
passes of `util.rs`: labels are deduplicated by key, checked, and a schedule's
are inherited by its job template.
-/

namespace Ora.Server

open Ora.Backend
open Ora.Library
open Ora.Postgres (Store JobLabelRow ScheduleLabelRow)
open Ora.Postgres.PostgresBackend (newJobLabels newScheduleLabels)

/-- `labels.retain(|l| seen.insert(l.key.clone()))` -/
def deduplicateLabels (labels : List Label) : List Label :=
  firstKeys Label.key [] labels

/-- The labels of the parent are pushed one by one, with the keys that exist. -/
def inheritLabels (parent child : List Label) : List Label :=
  (parent.foldl (fun (state : List Label × List String) label =>
    if label.key ∈ state.2 then
      state
    else
      (state.1 ++ [label], label.key :: state.2)) (child, child.map Label.key)).1

/-- `char::escape_default` -/
def escapeDefault (c : Char) : String :=
  match c.toNat with
  | 0x09 => "\\t"
  | 0x0D => "\\r"
  | 0x0A => "\\n"
  | 0x22 => "\\\x22"
  | 0x27 => "\\\x27"
  | 0x5C => "\\\\"
  | code =>
      if 0x20 ≤ code ∧ code ≤ 0x7E then
        String.singleton c
      else
        "\\u\x7b" ++ String.ofList (Nat.toDigits 16 code) ++ "\x7d"

def hasNul (label : Label) : Bool :=
  label.key.toList.contains '\x00' || label.value.toList.contains '\x00'

/-- The first label with a NUL character is reported. -/
def validateLabels (labels : List Label) : Except String Unit :=
  match labels.find? hasNul with
  | none => .ok ()
  | some label => .error ("label '" ++ String.join (label.key.toList.map escapeDefault) ++
      "' must not contain NUL characters")

def minSecondsBeforeEpoch : Nat := 62135596800

def maxSecondsAfterEpoch : Nat := 253402300800

def validateTime (time : Time) : Except String Unit :=
  let supported :=
    if 0 ≤ time then
      time < maxSecondsAfterEpoch * nanosPerSec
    else
      -time ≤ minSecondsBeforeEpoch * nanosPerSec
  if supported then .ok () else .error "time must be between the years 1 and 9999"

def ScheduleTimeError.message : ScheduleTimeError → String
  | .zeroInterval => "the interval must not be zero"
  | .outOfRange => "time is out of the supported range"
  | .cron error => "invalid cron expression: " ++ error
  | .noExecutionTimes => "the schedule has no execution times"

section Requests

variable (validateJson : String → Except String Unit) (cronexpr : Cronexpr)

/-- The checks of one job, with the message of the invalid argument. -/
def checkJob (job : JobDefinition) : Except String JobDefinition := do
  let job := { job with labels := deduplicateLabels job.labels }
  validateLabels job.labels
  (validateTime job.targetExecutionTime).mapError fun e => "invalid target_execution_time: " ++ e
  (validateJson job.inputPayloadJson).mapError fun e =>
    "invalid JSON payload for job '" ++ job.jobTypeId ++ "': " ++ e
  .ok job

/-- The times of a range are checked, the start first. -/
def validateRange (range : TimeRange) : Except String Unit :=
  [(range.start, "start"), (range.stop, "end")].forM fun (time, name) =>
    match time with
    | none => .ok ()
    | some time => (validateTime time).mapError fun e => "invalid " ++ name ++ " time: " ++ e

/-- The checks of one schedule and of its job template.  A panic ends the request
without a message. -/
def checkSchedule (now : Time) (schedule : ScheduleDefinition) :
    Except (Failure String) ScheduleDefinition := do
  let schedule := { schedule with
    labels := deduplicateLabels schedule.labels
    jobTemplate := { schedule.jobTemplate with
      labels := deduplicateLabels schedule.jobTemplate.labels } }
  (validateLabels schedule.labels).mapError .error
  (validateLabels schedule.jobTemplate.labels).mapError .error
  (validateRange schedule.timeRange).mapError .error
  (validateJson schedule.jobTemplate.inputPayloadJson).mapError fun e => .error
    ("invalid JSON payload for job template '" ++ schedule.jobTemplate.jobTypeId ++ "': " ++ e)
  (validateSchedule cronexpr now schedule).mapError
    (Failure.map fun e => "invalid schedule: " ++ e.message)
  .ok schedule

/-- The jobs that `add_jobs` adds. -/
def checkJobs (jobs : List JobDefinition) : Except String (List JobDefinition) :=
  jobs.mapM (checkJob validateJson)

def inheritScheduleLabels (schedule : ScheduleDefinition) : ScheduleDefinition :=
  { schedule with jobTemplate := { schedule.jobTemplate with
      labels := inheritLabels schedule.labels schedule.jobTemplate.labels } }

/-- The schedules that `add_schedules` adds. -/
def checkSchedules (now : Time) (inherit : Option Bool) (schedules : List ScheduleDefinition) :
    Except (Failure String) (List ScheduleDefinition) :=
  (schedules.mapM (checkSchedule validateJson cronexpr now)).map fun schedules =>
    if inherit.getD true then schedules.map inheritScheduleLabels else schedules

end Requests

variable {given kept labels parent child : List Label}

/-- The first label of each key, in order and without NUL characters. -/
structure LabelsKept (given kept : List Label) : Prop where
  distinct : (kept.map Label.key).Nodup
  plain : ∀ label ∈ kept, hasNul label = false
  ordered : List.Sublist kept given
  first : ∀ key, findKey Label.key kept key = findKey Label.key given key

theorem validateLabels_eq_ok :
    validateLabels labels = .ok () ↔ ∀ label ∈ labels, hasNul label = false := by
  unfold validateLabels
  cases found : labels.find? hasNul with
  | none => simpa using found
  | some label =>
      refine iff_of_false nofun fun plain => ?_
      have nul := List.find?_some found
      rw [plain label (List.mem_of_find?_eq_some found)] at nul
      cases nul

theorem deduplicateLabels_kept (valid : validateLabels (deduplicateLabels labels) = .ok ()) :
    LabelsKept labels (deduplicateLabels labels) where
  distinct := firstKeys_nodup
  plain := validateLabels_eq_ok.mp valid
  ordered := firstKeys_sublist
  first _ := findKey_firstKeys List.not_mem_nil

theorem deduplicateLabels_of_nodup (distinct : (labels.map Label.key).Nodup) :
    deduplicateLabels labels = labels := by
  rw [deduplicateLabels, firstKeys_of_nodup distinct]
  simp

@[simp] theorem deduplicateLabels_deduplicateLabels :
    deduplicateLabels (deduplicateLabels labels) = deduplicateLabels labels :=
  firstKeys_firstKeys

/-- The inherited labels are those of the parent whose key is new. -/
theorem inheritLabels_eq :
    inheritLabels parent child = child ++ firstKeys Label.key (child.map Label.key) parent := by
  suffices all : ∀ (known : List String) (pushed : List Label),
      (parent.foldl (fun (state : List Label × List String) label =>
        if label.key ∈ state.2 then
          state
        else
          (state.1 ++ [label], label.key :: state.2)) (pushed, known)).1 =
        pushed ++ firstKeys Label.key known parent from all _ _
  induction parent with
  | nil => simp [firstKeys]
  | cons label rest ih =>
      intro known pushed
      rw [List.foldl_cons, firstKeys]
      split
      · exact ih known pushed
      · rw [ih, List.append_assoc]
        rfl

/-- The child's labels are followed by those of the parent whose key it lacks. -/
theorem inheritLabels_of_nodup (distinct : (parent.map Label.key).Nodup) :
    inheritLabels parent child =
      child ++ parent.filter fun label => decide (label.key ∉ child.map Label.key) := by
  rw [inheritLabels_eq, firstKeys_of_nodup distinct]

theorem inheritLabels_nodup (distinct : (child.map Label.key).Nodup) :
    ((inheritLabels parent child).map Label.key).Nodup := by
  rw [inheritLabels_eq]
  exact nodup_append_firstKeys distinct

theorem inheritLabels_plain (parentPlain : ∀ label ∈ parent, hasNul label = false)
    (childPlain : ∀ label ∈ child, hasNul label = false) :
    ∀ label ∈ inheritLabels parent child, hasNul label = false := by
  intro label member
  rw [inheritLabels_eq, List.mem_append] at member
  obtain own | inherited := member
  · exact childPlain label own
  · exact parentPlain label (firstKeys_sublist.subset inherited)

/-- Labels are inherited once. -/
theorem inheritLabels_inheritLabels :
    inheritLabels parent (inheritLabels parent child) = inheritLabels parent child := by
  have nothing : firstKeys Label.key ((inheritLabels parent child).map Label.key) parent = [] := by
    rw [inheritLabels_eq]
    exact firstKeys_append_firstKeys
  rw [inheritLabels_eq, nothing, List.append_nil]

/-- The web UI inherits the same labels. -/
theorem rowsToLabels_inheritLabels {parent child : List Ui.LabelRow}
    (distinct : (parent.map Ui.LabelRow.key).Nodup) :
    Ui.rowsToLabels (Ui.inheritLabels parent child) =
      inheritLabels (Ui.rowsToLabels parent) (Ui.rowsToLabels child) := by
  have keys : ∀ rows, (Ui.rowsToLabels rows).map Label.key = rows.map Ui.LabelRow.key := fun rows =>
    List.map_map
  rw [inheritLabels_of_nodup (by rwa [keys]), keys]
  unfold Ui.inheritLabels Ui.rowsToLabels
  rw [List.map_append, List.filter_map]
  refine congrArg (List.map _ child ++ List.map _ ·) (List.filter_congr fun row _ => ?_)
  simp only [Function.comp_apply, decide_not, List.contains_eq_mem]

section Accepted

variable {validateJson : String → Except String Unit} {cronexpr : Cronexpr} {now : Time}

theorem checkJob_eq_ok {job checked : JobDefinition} :
    checkJob validateJson job = .ok checked ↔
      checked = { job with labels := deduplicateLabels job.labels } ∧
        validateLabels checked.labels = .ok () ∧
        validateTime checked.targetExecutionTime = .ok () ∧
        validateJson checked.inputPayloadJson = .ok () := by
  unfold checkJob
  simp only [bind_eq_ok, mapError_eq_ok]
  constructor
  · rintro ⟨_, labels, _, time, _, json, done⟩
    cases done
    exact ⟨rfl, labels, time, json⟩
  · rintro ⟨rfl, labels, time, json⟩
    exact ⟨_, labels, _, time, _, json, rfl⟩

/-- The labels of a schedule and of its job template, deduplicated. -/
def withUniqueLabels (schedule : ScheduleDefinition) : ScheduleDefinition :=
  { schedule with
    labels := deduplicateLabels schedule.labels
    jobTemplate := { schedule.jobTemplate with
      labels := deduplicateLabels schedule.jobTemplate.labels } }

theorem checkSchedule_eq_ok {schedule checked : ScheduleDefinition} :
    checkSchedule validateJson cronexpr now schedule = .ok checked ↔
      checked = withUniqueLabels schedule ∧
        validateLabels checked.labels = .ok () ∧
        validateLabels checked.jobTemplate.labels = .ok () ∧
        validateRange checked.timeRange = .ok () ∧
        validateJson checked.jobTemplate.inputPayloadJson = .ok () ∧
        validateSchedule cronexpr now checked = .ok () := by
  unfold checkSchedule
  simp only [bind_eq_ok, mapError_eq_ok]
  constructor
  · rintro ⟨_, labels, _, template, _, range, _, json, _, times, done⟩
    cases done
    exact ⟨rfl, labels, template, range, json, times⟩
  · rintro ⟨rfl, labels, template, range, json, times⟩
    exact ⟨_, labels, _, template, _, range, _, json, _, times, rfl⟩

/-- Accepted labels are accepted again, as they are. -/
theorem checkJob_again {job checked : JobDefinition}
    (done : checkJob validateJson job = .ok checked) :
    checkJob validateJson checked = .ok checked := by
  obtain ⟨rfl, valid⟩ := checkJob_eq_ok.mp done
  exact checkJob_eq_ok.mpr ⟨by simp only [deduplicateLabels_deduplicateLabels], valid⟩

/-- The labels of the job template do not matter for the execution times. -/
theorem validateSchedule_template (schedule : ScheduleDefinition) (template : JobDefinition) :
    validateSchedule cronexpr now { schedule with jobTemplate := template } =
      validateSchedule cronexpr now schedule := rfl

/-- A schedule is accepted again with other labels that are unique and valid. -/
theorem checkSchedule_again {schedule checked : ScheduleDefinition} {template : List Label}
    (done : checkSchedule validateJson cronexpr now schedule = .ok checked)
    (distinct : (template.map Label.key).Nodup) (plain : ∀ label ∈ template, hasNul label = false) :
    checkSchedule validateJson cronexpr now
        { checked with jobTemplate := { checked.jobTemplate with labels := template } } =
      .ok { checked with jobTemplate := { checked.jobTemplate with labels := template } } := by
  obtain ⟨rfl, labels, _, range, json, times⟩ := checkSchedule_eq_ok.mp done
  refine checkSchedule_eq_ok.mpr ⟨?_, labels, validateLabels_eq_ok.mpr plain, range, json, ?_⟩
  · simp only [withUniqueLabels, deduplicateLabels_deduplicateLabels,
      deduplicateLabels_of_nodup distinct]
  · rwa [validateSchedule_template]

end Accepted

/-- Rows of labels with distinct keys, of entries with distinct identifiers, do
not repeat a primary key. -/
theorem labelRows_nodup {β ρ : Type} {rowKey : ρ → Uuid × String} (row : Uuid → Label → ρ)
    (labels : β → List Label) (keyed : ∀ id label, rowKey (row id label) = (id, label.key))
    {entries : List (β × Uuid)} (ids : (entries.map Prod.snd).Nodup)
    (distinct : ∀ entry ∈ entries, ((labels entry.1).map Label.key).Nodup) :
    ((entries.flatMap fun entry => (labels entry.1).map (row entry.2)).map rowKey).Nodup := by
  induction entries with
  | nil => exact List.nodup_nil
  | cons entry rest ih =>
      rw [List.map_cons, List.nodup_cons] at ids
      have tail := ih ids.2 fun other member => distinct other (List.mem_cons_of_mem _ member)
      have head : (((labels entry.1).map (row entry.2)).map rowKey) =
          ((labels entry.1).map Label.key).map fun key => (entry.2, key) := by
        simp [Function.comp_def, keyed]
      rw [List.flatMap_cons, List.map_append, List.nodup_append]
      refine ⟨?_, tail, ?_⟩
      · rw [head]
        exact (distinct entry (List.mem_cons_self ..)).map fun _ _ same => (Prod.mk.inj same).2
      · rintro own mine other theirs rfl
        rw [head] at mine
        obtain ⟨_, _, rfl⟩ := List.mem_map.mp mine
        obtain ⟨made, member, same⟩ := List.mem_map.mp theirs
        obtain ⟨later, present, listed⟩ := List.mem_flatMap.mp member
        obtain ⟨label, _, rfl⟩ := List.mem_map.mp listed
        rw [keyed] at same
        exact ids.1 (List.mem_map.mpr ⟨later, present, (Prod.mk.inj same).1⟩)

/-- New jobs with these labels can be inserted, beside any labels of other jobs. -/
def JobRowsFit (lists : List (List Label)) : Prop :=
  ∀ (store : Store) (jobs : List (NewJob × JobId)),
    (∀ entry ∈ jobs, entry.1.job.labels ∈ lists) → (jobs.map Prod.snd).Nodup →
    (∀ row ∈ store.jobLabels.rows, row.jobId ∉ jobs.map Prod.snd) →
    ∃ after, store.jobLabels.insert? (jobs.flatMap newJobLabels) = some after

/-- New schedules with these labels can be inserted. -/
def ScheduleRowsFit (lists : List (List Label)) : Prop :=
  ∀ (store : Store) (schedules : List (ScheduleDefinition × ScheduleId)),
    (∀ entry ∈ schedules, entry.1.labels ∈ lists) → (schedules.map Prod.snd).Nodup →
    (∀ row ∈ store.scheduleLabels.rows, row.scheduleId ∉ schedules.map Prod.snd) →
    ∃ after, store.scheduleLabels.insert? (schedules.flatMap newScheduleLabels) = some after

/-- Rows with other keys are inserted. -/
theorem insert?_of_disjoint {ρ κ : Type} [DecidableEq κ] {key : ρ → κ} (table : Table key)
    {new : List ρ} (distinct : (new.map key).Nodup)
    (other : ∀ row ∈ table.rows, ∀ added ∈ new, key row ≠ key added) :
    ∃ after, table.insert? new = some after := by
  have all : ((table.rows ++ new).map key).Nodup := by
    rw [List.map_append, List.nodup_append]
    refine ⟨table.unique, distinct, ?_⟩
    intro known old fresh added same
    obtain ⟨row, member, rfl⟩ := List.mem_map.mp old
    obtain ⟨made, inserted, rfl⟩ := List.mem_map.mp added
    exact other row member made inserted same
  exact ⟨⟨_, all⟩, Table.insert?_eq_some_iff.mpr rfl⟩

theorem jobRowsFit {lists : List (List Label)}
    (distinct : ∀ labels ∈ lists, (labels.map Label.key).Nodup) : JobRowsFit lists := by
  intro store jobs listed ids fresh
  refine insert?_of_disjoint _ ?_ ?_
  · exact labelRows_nodup (fun id label => JobLabelRow.mk id label.key label.value)
      (fun job : NewJob => job.job.labels) (fun _ _ => rfl) ids fun entry member =>
        distinct _ (listed entry member)
  · intro row old added member same
    obtain ⟨entry, present, made⟩ := List.mem_flatMap.mp member
    obtain ⟨label, _, rfl⟩ := List.mem_map.mp made
    have owner : row.jobId = entry.2 := (Prod.mk.inj same).1
    exact fresh row old (List.mem_map.mpr ⟨entry, present, owner.symm⟩)

theorem scheduleRowsFit {lists : List (List Label)}
    (distinct : ∀ labels ∈ lists, (labels.map Label.key).Nodup) : ScheduleRowsFit lists := by
  intro store schedules listed ids fresh
  refine insert?_of_disjoint _ ?_ ?_
  · exact labelRows_nodup (fun id label => ScheduleLabelRow.mk id label.key label.value)
      ScheduleDefinition.labels (fun _ _ => rfl) ids fun entry member =>
        distinct _ (listed entry member)
  · intro row old added member same
    obtain ⟨entry, present, made⟩ := List.mem_flatMap.mp member
    obtain ⟨label, _, rfl⟩ := List.mem_map.mp made
    have owner : row.scheduleId = entry.2 := (Prod.mk.inj same).1
    exact fresh row old (List.mem_map.mpr ⟨entry, present, owner.symm⟩)

/-- Added jobs: their labels, the rows of the labels, and the checks made again. -/
structure JobsLabelled (validateJson : String → Except String Unit)
    (given added : List JobDefinition) : Prop where
  labels : List.Forall₂ (fun job checked : JobDefinition => LabelsKept job.labels checked.labels)
    given added
  rows : JobRowsFit (added.map JobDefinition.labels)
  again : checkJobs validateJson added = .ok added

/-- The labels of an added schedule and of its job template. -/
structure ScheduleLabelled (inherit : Bool) (given added : ScheduleDefinition) : Prop where
  schedule : LabelsKept given.labels added.labels
  template : ∃ own, LabelsKept given.jobTemplate.labels own ∧
    added.jobTemplate.labels = own ++ if inherit then
      added.labels.filter fun label => decide (label.key ∉ own.map Label.key) else []
  distinct : (added.jobTemplate.labels.map Label.key).Nodup
  plain : ∀ label ∈ added.jobTemplate.labels, hasNul label = false
  childWins : ∀ key label, findKey Label.key given.jobTemplate.labels key = some label →
    findKey Label.key added.jobTemplate.labels key = some label

/-- Added schedules, their own rows and those of the jobs made of their templates. -/
structure SchedulesLabelled (validateJson : String → Except String Unit) (cronexpr : Cronexpr)
    (now : Time) (inherit : Option Bool) (given added : List ScheduleDefinition) : Prop where
  labels : List.Forall₂ (ScheduleLabelled (inherit.getD true)) given added
  scheduleRows : ScheduleRowsFit (added.map ScheduleDefinition.labels)
  jobRows : JobRowsFit (added.map fun schedule => schedule.jobTemplate.labels)
  again : checkSchedules validateJson cronexpr now inherit added = .ok added

section Labelled

variable {validateJson : String → Except String Unit} {cronexpr : Cronexpr} {now : Time}

theorem mem_right_of_forall₂ {α β : Type} {relation : α → β → Prop} {first : List α}
    {second : List β} (all : List.Forall₂ relation first second) :
    ∀ value ∈ second, ∃ other ∈ first, relation other value := by
  induction all with
  | nil => nofun
  | cons related _ ih =>
      intro value member
      obtain rfl | later := List.mem_cons.mp member
      · exact ⟨_, List.mem_cons_self .., related⟩
      · obtain ⟨other, present, found⟩ := ih value later
        exact ⟨other, List.mem_cons_of_mem _ present, found⟩

theorem checkJobs_labelled {given added : List JobDefinition}
    (done : checkJobs validateJson given = .ok added) : JobsLabelled validateJson given added := by
  have all := mapM_eq_ok_iff.mp done
  have labels : List.Forall₂
      (fun job checked : JobDefinition => LabelsKept job.labels checked.labels) given added :=
    all.imp fun job checked same => by
      obtain ⟨rfl, valid, _⟩ := checkJob_eq_ok.mp same
      exact deduplicateLabels_kept valid
  refine ⟨labels, jobRowsFit ?_, mapM_eq_ok_iff.mpr (List.forall₂_same.mpr ?_)⟩
  · intro list member
    obtain ⟨checked, present, rfl⟩ := List.mem_map.mp member
    obtain ⟨_, _, kept⟩ := mem_right_of_forall₂ labels checked present
    exact kept.distinct
  · intro checked present
    obtain ⟨_, _, same⟩ := mem_right_of_forall₂ all checked present
    exact checkJob_again same

/-- A label of the child is found before those that are inherited. -/
theorem findKey_append {own rest : List Label} {key : String} {label : Label}
    (found : findKey Label.key own key = some label) :
    findKey Label.key (own ++ rest) key = some label := by
  unfold findKey at found ⊢
  rw [List.find?_append, found]
  rfl

/-- What the checks of a schedule leave, before labels are inherited. -/
theorem checkSchedule_labelled {given checked : ScheduleDefinition}
    (done : checkSchedule validateJson cronexpr now given = .ok checked) :
    ScheduleLabelled false given checked := by
  obtain ⟨rfl, labels, template, _⟩ := checkSchedule_eq_ok.mp done
  have kept := deduplicateLabels_kept template
  exact ⟨deduplicateLabels_kept labels, ⟨_, kept, (List.append_nil _).symm⟩, kept.distinct,
    kept.plain, fun key label found => (kept.first key).trans found⟩

theorem inheritScheduleLabels_labelled {given checked : ScheduleDefinition}
    (labelled : ScheduleLabelled false given checked) :
    ScheduleLabelled true given (inheritScheduleLabels checked) := by
  obtain ⟨own, kept, same⟩ := labelled.template
  rw [if_neg Bool.false_ne_true, List.append_nil] at same
  subst same
  refine ⟨labelled.schedule, ⟨_, kept, inheritLabels_of_nodup labelled.schedule.distinct⟩,
    inheritLabels_nodup labelled.distinct,
    inheritLabels_plain labelled.schedule.plain labelled.plain, fun key label found => ?_⟩
  have first := labelled.childWins key label found
  unfold inheritScheduleLabels
  rw [inheritLabels_eq]
  exact findKey_append first

/-- The checks with inherited labels, made again on what they have left. -/
theorem inheritScheduleLabels_again {given checked : ScheduleDefinition}
    (done : checkSchedule validateJson cronexpr now given = .ok checked) :
    checkSchedule validateJson cronexpr now (inheritScheduleLabels checked) =
      .ok (inheritScheduleLabels checked) :=
  have labelled := inheritScheduleLabels_labelled (checkSchedule_labelled done)
  checkSchedule_again done labelled.distinct labelled.plain

theorem inheritScheduleLabels_twice (schedule : ScheduleDefinition) :
    inheritScheduleLabels (inheritScheduleLabels schedule) = inheritScheduleLabels schedule := by
  simp only [inheritScheduleLabels, inheritLabels_inheritLabels]

theorem checkSchedules_labelled {inherit : Option Bool} {given added : List ScheduleDefinition}
    (done : checkSchedules validateJson cronexpr now inherit given = .ok added) :
    SchedulesLabelled validateJson cronexpr now inherit given added := by
  cases checks : given.mapM (checkSchedule validateJson cronexpr now) with
  | error error =>
      rw [checkSchedules, checks] at done
      cases done
  | ok checked =>
      have all := mapM_eq_ok_iff.mp checks
      -- every result is inherited or not, depending on the request
      have results : List.Forall₂ (fun schedule result =>
          ScheduleLabelled (inherit.getD true) schedule result ∧
            checkSchedule validateJson cronexpr now result = .ok result ∧
            (inherit.getD true = true → inheritScheduleLabels result = result)) given added := by
        rw [checkSchedules, checks] at done
        cases asked : inherit.getD true with
        | true =>
            rw [asked] at done
            cases done
            refine List.forall₂_map_right_iff.mpr ?_
            exact all.imp fun schedule result same =>
              ⟨inheritScheduleLabels_labelled (checkSchedule_labelled same),
                inheritScheduleLabels_again same, fun _ => inheritScheduleLabels_twice result⟩
        | false =>
            rw [asked] at done
            cases done
            exact all.imp fun schedule result same =>
              ⟨checkSchedule_labelled same, checkSchedule_again same
                (checkSchedule_labelled same).distinct (checkSchedule_labelled same).plain, nofun⟩
      refine ⟨results.imp fun _ _ result => result.1, scheduleRowsFit ?_, jobRowsFit ?_, ?_⟩
      · intro list member
        obtain ⟨result, present, rfl⟩ := List.mem_map.mp member
        obtain ⟨_, _, labelled, _⟩ := mem_right_of_forall₂ results result present
        exact labelled.schedule.distinct
      · intro list member
        obtain ⟨result, present, rfl⟩ := List.mem_map.mp member
        obtain ⟨_, _, labelled, _⟩ := mem_right_of_forall₂ results result present
        exact labelled.distinct
      · have again : added.mapM (checkSchedule validateJson cronexpr now) = .ok added :=
          mapM_eq_ok_iff.mpr (List.forall₂_same.mpr fun result present => by
            obtain ⟨_, _, _, same, _⟩ := mem_right_of_forall₂ results result present
            exact same)
        rw [checkSchedules, again]
        refine congrArg Except.ok ?_
        split
        · rename_i asked
          refine (List.map_congr_left fun result present => ?_).trans (List.map_id _)
          obtain ⟨_, _, _, _, same⟩ := mem_right_of_forall₂ results result present
          exact same asked
        · rfl

end Labelled

/-- The labels of added jobs, schedules and job templates are unique keys, they
are those given first and no others, a child's labels win over its parent's,
and the checks change nothing when they are made again.  Labels without NUL
characters are not refused. -/
theorem added_labels_unique (validateJson : String → Except String Unit) (cronexpr : Cronexpr)
    (now : Time) :
    (∀ given added, checkJobs validateJson given = .ok added →
      JobsLabelled validateJson given added) ∧
    (∀ inherit given added, checkSchedules validateJson cronexpr now inherit given = .ok added →
      SchedulesLabelled validateJson cronexpr now inherit given added) ∧
    (∀ labels, (∀ label ∈ labels, hasNul label = false) →
      validateLabels (deduplicateLabels labels) = .ok ()) ∧
    ∀ parent child, (parent.map Ui.LabelRow.key).Nodup → (child.map Ui.LabelRow.key).Nodup →
      Ui.rowsToLabels (Ui.inheritLabels parent child) =
        inheritLabels (Ui.rowsToLabels parent) (Ui.rowsToLabels child) := by
  refine ⟨fun _ _ => checkJobs_labelled, fun _ _ _ => checkSchedules_labelled, ?_,
    fun _ _ parentDistinct _ => rowsToLabels_inheritLabels parentDistinct⟩
  intro labels plain
  exact validateLabels_eq_ok.mpr fun label member =>
    plain label (firstKeys_sublist.subset member)

def labelledJob (labels : List Label) : JobDefinition :=
  ⟨"a", 0, "1", labels, ⟨0, .startTime⟩, ⟨0, 0, none, .fixed⟩, 0⟩

def labelledSchedule (labels template : List Label) : ScheduleDefinition :=
  ⟨.fixedInterval 1000000000 false .skip, labelledJob template, labels, ⟨none, none⟩⟩

/-- Repeated keys are dropped and the other labels of the schedule are inherited. -/
theorem added_labels_unique_inherited :
    SchedulesLabelled (fun _ => .ok ()) (fun _ => .error "") 0 none
      [labelledSchedule [⟨"a", "1"⟩, ⟨"b", "2"⟩, ⟨"a", "3"⟩] [⟨"b", "4"⟩, ⟨"b", "5"⟩]]
      [labelledSchedule [⟨"a", "1"⟩, ⟨"b", "2"⟩] [⟨"b", "4"⟩, ⟨"a", "1"⟩]] ∧
    JobsLabelled (fun _ => .ok ()) [labelledJob [⟨"a", "1"⟩, ⟨"a", "2"⟩]]
      [labelledJob [⟨"a", "1"⟩]] ∧
    validateLabels (deduplicateLabels [⟨"a", "1"⟩, ⟨"a", "2"⟩]) = .ok () ∧
    Ui.rowsToLabels (Ui.inheritLabels [⟨"a", "1"⟩, ⟨"b", "2"⟩] [⟨"b", "4"⟩]) =
      inheritLabels [⟨"a", "1"⟩, ⟨"b", "2"⟩] [⟨"b", "4"⟩] := by
  obtain ⟨jobs, schedules, plain, rows⟩ :=
    added_labels_unique (fun _ => .ok ()) (fun _ => .error "") 0
  exact ⟨schedules none _ _ (by rfl), jobs _ _ (by rfl), plain _ (by decide),
    rows [⟨"a", "1"⟩, ⟨"b", "2"⟩] [⟨"b", "4"⟩] (by decide) (by decide)⟩

end Ora.Server
