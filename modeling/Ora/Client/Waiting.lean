import Mathlib.Data.List.Basic
import Mathlib.Data.Nat.Init
import Ora.Backend.Types

/-!
# Waiting for executions

`Job::executions_changed` of `ora/src/admin/jobs.rs` and the loop of `ora jobs
wait` around it.  The server answers each call of `executions` with the
executions of the job at that time, unless the job was cached in a terminal
state.
-/

namespace Ora.Client

open Ora.Backend

structure Execution where
  id : ExecutionId
  executorId : Option ExecutorId
  status : ExecutionStatus
  createdAt : Time
  startedAt : Option Time
  succeededAt : Option Time
  failedAt : Option Time
  cancelledAt : Option Time
  outputJson : Option String
  failureReason : Option String
  pendingReason : Option ExecutionPendingReason
  deriving DecidableEq, Repr

def isTerminal : ExecutionStatus → Bool
  | .succeeded | .failed | .cancelled => true
  | .pending | .inProgress => false

/-- Whether the last execution has reached a terminal state. -/
def lastTerminal (executions : List Execution) : Bool :=
  executions.getLast?.any fun execution => isTerminal execution.status

inductive CachingStrategy where
  | cache
  | noCache
  deriving DecidableEq, Repr

/-- A job with the executions that were last cached. -/
structure Job where
  raw : Option (List Execution)
  cachingStrategy : CachingStrategy
  deriving DecidableEq, Repr

/-- `executions` and `fetch_raw`, with what the server would answer. -/
def Job.executions (job : Job) (answer : List Execution) : List Execution × Job :=
  if job.raw.any lastTerminal then
    (job.raw.getD [], job)
  else
    match job.cachingStrategy with
    | .cache => (answer, { job with raw := some answer })
    | .noCache => (answer, job)

/-- `is_terminated` -/
def Job.isTerminated (job : Job) (answer : List Execution) : Bool × Job :=
  (lastTerminal (job.executions answer).1, (job.executions answer).2)

section Loops

variable (answers : Nat → List Execution)

/-- The loop of `executions_changed`, with the number of the next call. -/
def pollChanged : Nat → Job → Nat → Option Execution → Option (Job × Nat)
  | 0, _, _, _ => none
  | polls + 1, job, call, lastExecution =>
      let (newExecutions, job) := job.executions (answers call)
      if newExecutions.getLast? ≠ lastExecution then
        some (job, call + 1)
      else
        pollChanged polls job (call + 1) newExecutions.getLast?

/-- `executions_changed`, if it returns within the polls. -/
def executionsChanged (polls : Nat) (job : Job) (call : Nat) : Option (Job × Nat) :=
  let (executions, job) := job.executions (answers call)
  pollChanged answers polls job (call + 1) executions.getLast?

/-- The loop of `Jobs::Wait`, if it ends within the rounds. -/
def waitTerminated (polls : Nat) : Nat → Job → Nat → Option (Job × Nat)
  | 0, _, _ => none
  | rounds + 1, job, call => do
      let (job, call) ← executionsChanged answers polls job call
      if (job.isTerminated (answers call)).1 then
        some ((job.isTerminated (answers call)).2, call + 1)
      else
        waitTerminated polls rounds (job.isTerminated (answers call)).2 (call + 1)

/-- The job after some calls. -/
def Job.after (job : Job) (call : Nat) : Nat → Job
  | 0 => job
  | calls + 1 => ((job.executions (answers call)).2).after (call + 1) calls

/-- What a later call returns. -/
def Job.seen (job : Job) (call calls : Nat) : List Execution :=
  ((job.after answers call calls).executions (answers (call + calls))).1

end Loops

section Seen

variable {answers : Nat → List Execution} {job other : Job} {call next calls polls : Nat}
  {lastExecution : Option Execution}

theorem Job.seen_succ (job : Job) (call calls : Nat) :
    job.seen answers call (calls + 1) =
      ((job.executions (answers call)).2).seen answers (call + 1) calls := by
  unfold Job.seen
  rw [show call + (calls + 1) = call + 1 + calls by omega]
  rfl

theorem executions_cached (cached : job.raw.any lastTerminal = true) (answer : List Execution) :
    job.executions answer = (job.raw.getD [], job) :=
  if_pos cached

theorem executions_fetched (stale : ¬job.raw.any lastTerminal = true) (answer : List Execution) :
    (job.executions answer).1 = answer := by
  unfold Job.executions
  rw [if_neg stale]
  split <;> rfl

theorem after_cached (cached : job.raw.any lastTerminal = true) (call calls : Nat) :
    job.after answers call calls = job := by
  induction calls generalizing call with
  | zero => rfl
  | succ calls ih =>
      unfold Job.after
      rw [executions_cached cached]
      exact ih (call + 1)

theorem seen_cached (cached : job.raw.any lastTerminal = true) (call calls : Nat) :
    job.seen answers call calls = job.raw.getD [] := by
  unfold Job.seen
  rw [after_cached cached, executions_cached cached]

theorem after_noCache (uncached : job.cachingStrategy = .noCache) (call calls : Nat) :
    job.after answers call calls = job := by
  induction calls generalizing call with
  | zero => rfl
  | succ calls ih =>
      unfold Job.after
      have same : (job.executions (answers call)).2 = job := by
        unfold Job.executions
        split
        · rfl
        · rw [uncached]
      rw [same]
      exact ih (call + 1)

theorem seen_noCache (uncached : job.cachingStrategy = .noCache)
    (stale : ¬job.raw.any lastTerminal = true) (call calls : Nat) :
    job.seen answers call calls = answers (call + calls) := by
  unfold Job.seen
  rw [after_noCache uncached, executions_fetched stale]

/-- The first call of a job that is not cached in a terminal state. -/
theorem seen_zero (stale : ¬job.raw.any lastTerminal = true) (call : Nat) :
    job.seen answers call 0 = answers call :=
  executions_fetched stale _

/-- A terminal answer is cached for good. -/
theorem seen_of_terminal (caches : job.cachingStrategy = .cache)
    (stale : ¬job.raw.any lastTerminal = true) (terminal : lastTerminal (answers call) = true)
    (calls : Nat) : job.seen answers call calls = answers call := by
  cases calls with
  | zero => exact seen_zero stale call
  | succ calls =>
      have stored : (job.executions (answers call)).2 = ⟨some (answers call), .cache⟩ := by
        unfold Job.executions
        rw [if_neg stale, caches]
      have cached : (⟨some (answers call), .cache⟩ : Job).raw.any lastTerminal = true := terminal
      rw [Job.seen_succ, stored]
      exact seen_cached cached _ _

theorem lastTerminal_of_cached (cached : job.raw.any lastTerminal = true) :
    lastTerminal (job.raw.getD []) = true := by
  cases known : job.raw with
  | none =>
      rw [known] at cached
      cases cached
  | some executions =>
      rw [known] at cached
      exact cached

/-- The loop returns when a call sees another last execution. -/
theorem pollChanged_iff :
    (∃ polls result, pollChanged answers polls job call lastExecution = some result) ↔
      ∃ calls, (job.seen answers call calls).getLast? ≠ lastExecution := by
  constructor
  · rintro ⟨polls, result, returned⟩
    induction polls generalizing job call with
    | zero => cases returned
    | succ polls ih =>
        unfold pollChanged at returned
        by_cases differs : (job.executions (answers call)).1.getLast? ≠ lastExecution
        · exact ⟨0, differs⟩
        · rw [not_not] at differs
          simp only [differs, ne_eq, not_true_eq_false, if_false] at returned
          obtain ⟨calls, changed⟩ := ih returned
          exact ⟨calls + 1, by rw [Job.seen_succ]; exact changed⟩
  · rintro ⟨calls, changed⟩
    induction calls generalizing job call with
    | zero =>
        refine ⟨1, ((job.executions (answers call)).2, call + 1), ?_⟩
        unfold pollChanged
        exact if_pos changed
    | succ calls ih =>
        by_cases differs : (job.executions (answers call)).1.getLast? ≠ lastExecution
        · refine ⟨1, ((job.executions (answers call)).2, call + 1), ?_⟩
          unfold pollChanged
          exact if_pos differs
        · rw [not_not] at differs
          rw [Job.seen_succ] at changed
          obtain ⟨polls, result, returned⟩ := ih changed
          refine ⟨polls + 1, result, ?_⟩
          unfold pollChanged
          simp only [differs, ne_eq, not_true_eq_false, if_false]
          exact returned

theorem executionsChanged_iff :
    (∃ polls result, executionsChanged answers polls job call = some result) ↔
      ∃ calls, (job.seen answers call calls).getLast? ≠ (job.seen answers call 0).getLast? := by
  unfold executionsChanged
  rw [pollChanged_iff]
  constructor
  · rintro ⟨calls, changed⟩
    exact ⟨calls + 1, by rw [Job.seen_succ]; exact changed⟩
  · rintro ⟨calls, changed⟩
    cases calls with
    | zero => exact absurd rfl changed
    | succ calls =>
        rw [Job.seen_succ] at changed
        exact ⟨calls, changed⟩

theorem pollChanged_succ {result : Job × Nat}
    (returned : pollChanged answers polls job call lastExecution = some result) :
    pollChanged answers (polls + 1) job call lastExecution = some result := by
  induction polls generalizing job call lastExecution with
  | zero => cases returned
  | succ polls ih =>
      unfold pollChanged at returned ⊢
      by_cases differs : (job.executions (answers call)).1.getLast? ≠ lastExecution
      · simp only [differs, ne_eq, not_false_eq_true, if_true] at returned ⊢
        exact returned
      · simp only [differs, if_false] at returned ⊢
        exact ih returned

/-- A call returns if the last execution differs from the one first seen, or
has reached a terminal state. -/
def ReturnsWhenDone (answers : Nat → List Execution) (job : Job) (call : Nat) : Prop :=
  (∃ calls, (job.seen answers call calls).getLast? ≠ (job.seen answers call 0).getLast? ∨
    lastTerminal (job.seen answers call calls) = true) →
  ∃ polls result, executionsChanged answers polls job call = some result

/-- When the call begins, the last execution has not reached a terminal state,
or it is not cached and a later answer has another one. -/
def Expectant (answers : Nat → List Execution) (job : Job) (call : Nat) : Prop :=
  ¬job.raw.any lastTerminal = true ∧
    (lastTerminal (answers call) = true → job.cachingStrategy = .noCache ∧
      ∃ later, call < later ∧ (answers later).getLast? ≠ (answers call).getLast?)

theorem lastTerminal_of_getLast? {first second : List Execution}
    (same : first.getLast? = second.getLast?) : lastTerminal first = lastTerminal second := by
  unfold lastTerminal
  rw [same]

theorem expectant_iff (answers : Nat → List Execution) (job : Job) (call : Nat) :
    Expectant answers job call ↔
      (lastTerminal (job.seen answers call 0) = true →
        ∃ calls, (job.seen answers call calls).getLast? ≠ (job.seen answers call 0).getLast?) := by
  unfold Expectant
  by_cases cached : job.raw.any lastTerminal = true
  · constructor
    · exact fun expectant => absurd cached expectant.1
    · intro changes
      obtain ⟨calls, changed⟩ := changes (by
        rw [seen_cached cached]
        exact lastTerminal_of_cached cached)
      rw [seen_cached cached, seen_cached cached] at changed
      exact absurd rfl changed
  · rw [seen_zero cached, and_iff_right cached]
    refine imp_congr_right fun terminal => ?_
    cases strategy : job.cachingStrategy with
    | cache =>
        constructor
        · exact fun both => by cases both.1
        · rintro ⟨calls, changed⟩
          rw [seen_of_terminal strategy cached terminal] at changed
          exact absurd rfl changed
    | noCache =>
        constructor
        · rintro ⟨_, later, after, changed⟩
          refine ⟨later - call, ?_⟩
          rw [seen_noCache strategy cached, Nat.add_sub_cancel' (Nat.le_of_lt after)]
          exact changed
        · rintro ⟨calls, changed⟩
          rw [seen_noCache strategy cached] at changed
          refine ⟨rfl, call + calls, ?_, changed⟩
          refine Nat.lt_add_of_pos_right (Nat.pos_of_ne_zero fun zero => ?_)
          rw [zero] at changed
          exact changed rfl

theorem returnsWhenDone_iff (answers : Nat → List Execution) (job : Job) (call : Nat) :
    ReturnsWhenDone answers job call ↔ Expectant answers job call := by
  unfold ReturnsWhenDone
  rw [expectant_iff, executionsChanged_iff]
  constructor
  · exact fun returns terminal => returns ⟨0, .inr terminal⟩
  · rintro changes ⟨calls, changed | terminal⟩
    · exact ⟨calls, changed⟩
    · by_cases first : lastTerminal (job.seen answers call 0) = true
      · exact changes first
      · refine ⟨calls, fun same => first ?_⟩
        rw [← lastTerminal_of_getLast? same]
        exact terminal

/-- The job terminates and does not change any more. -/
def Terminates (answers : Nat → List Execution) : Prop :=
  ∃ last, lastTerminal (answers last) = true ∧ ∀ later, last ≤ later → answers later = answers last

/-- The calls of `executions_changed` that the command makes. -/
inductive RoundStarts (answers : Nat → List Execution) (job : Job) (call : Nat) :
    Job → Nat → Prop where
  | first : RoundStarts answers job call job call
  | next {start changed : Job} {begun ended polls : Nat}
      (round : RoundStarts answers job call start begun)
      (returned : executionsChanged answers polls start begun = some (changed, ended))
      (running : ¬(changed.isTerminated (answers ended)).1 = true) :
      RoundStarts answers job call (changed.isTerminated (answers ended)).2 (ended + 1)

/-- The command ends. -/
def WaitEnds (answers : Nat → List Execution) (job : Job) (call : Nat) : Prop :=
  ∃ polls rounds result, waitTerminated answers polls rounds job call = some result

theorem executionsChanged_le {more : Nat} {result : Job × Nat} (le : polls ≤ more)
    (returned : executionsChanged answers polls job call = some result) :
    executionsChanged answers more job call = some result := by
  induction le with
  | refl => exact returned
  | step _ ih => exact pollChanged_succ ih

/-- More polls do not change what is returned. -/
theorem executionsChanged_unique {more : Nat} {first second : Job × Nat}
    (returned : executionsChanged answers polls job call = some first)
    (returned' : executionsChanged answers more job call = some second) : first = second := by
  have same := executionsChanged_le (Nat.le_max_left polls more) returned
  rw [executionsChanged_le (Nat.le_max_right polls more) returned'] at same
  exact (Option.some.inj same).symm

theorem pollChanged_later {result : Job × Nat}
    (returned : pollChanged answers polls job call lastExecution = some result) :
    call < result.2 := by
  induction polls generalizing job call lastExecution with
  | zero => cases returned
  | succ polls ih =>
      unfold pollChanged at returned
      by_cases differs : (job.executions (answers call)).1.getLast? ≠ lastExecution
      · simp only [differs, ne_eq, not_false_eq_true, if_true, Option.some.injEq] at returned
        subst returned
        exact Nat.lt_succ_self call
      · simp only [differs, if_false] at returned
        exact Nat.lt_of_succ_lt (ih returned)

theorem executionsChanged_later {result : Job × Nat}
    (returned : executionsChanged answers polls job call = some result) : call < result.2 :=
  Nat.lt_of_succ_lt (pollChanged_later returned)

theorem waitTerminated_succ (rounds : Nat) {changed : Job} {ended : Nat}
    (returned : executionsChanged answers polls job call = some (changed, ended)) :
    waitTerminated answers polls (rounds + 1) job call =
      if (changed.isTerminated (answers ended)).1 = true then
        some ((changed.isTerminated (answers ended)).2, ended + 1)
      else
        waitTerminated answers polls rounds (changed.isTerminated (answers ended)).2
          (ended + 1) := by
  rw [waitTerminated, returned]
  rfl

theorem waitTerminated_le {rounds more : Nat} {result : Job × Nat} (le : polls ≤ more)
    (ended : waitTerminated answers polls rounds job call = some result) :
    waitTerminated answers more rounds job call = some result := by
  induction rounds generalizing job call with
  | zero => cases ended
  | succ rounds ih =>
      cases returned : executionsChanged answers polls job call with
      | none =>
          rw [waitTerminated, returned] at ended
          cases ended
      | some changed =>
          rw [waitTerminated_succ rounds returned] at ended
          rw [waitTerminated_succ rounds (executionsChanged_le le returned)]
          split at ended
          · rename_i terminated
            rw [if_pos terminated]
            exact ended
          · rename_i running
            rw [if_neg running]
            exact ih ended

/-- A command that ends also ends from each of its rounds. -/
theorem waitEnds_of_round {start : Job} {begun : Nat}
    (round : RoundStarts answers job call start begun) (ends : WaitEnds answers job call) :
    WaitEnds answers start begun := by
  induction round with
  | first => exact ends
  | next _ returned running ih =>
      obtain ⟨polls, rounds, result, ended⟩ := ih
      cases rounds with
      | zero => cases ended
      | succ rounds =>
          cases returned' : executionsChanged answers polls _ _ with
          | none =>
              rw [waitTerminated, returned'] at ended
              cases ended
          | some changed =>
              obtain rfl := executionsChanged_unique returned returned'
              rw [waitTerminated_succ rounds returned', if_neg running] at ended
              exact ⟨polls, rounds, result, ended⟩

theorem expectant_of_waitEnds (ends : WaitEnds answers job call) : Expectant answers job call := by
  obtain ⟨polls, rounds, result, ended⟩ := ends
  refine (expectant_iff ..).mpr fun _ => executionsChanged_iff.mp ?_
  cases rounds with
  | zero => cases ended
  | succ rounds =>
      cases returned : executionsChanged answers polls job call with
      | none =>
          rw [waitTerminated, returned] at ended
          cases ended
      | some changed => exact ⟨polls, changed, returned⟩

/-- Once the job has terminated, a call sees that it has. -/
theorem seen_terminal {calls : Nat} (terminal : lastTerminal (answers (call + calls)) = true) :
    lastTerminal (job.seen answers call calls) = true := by
  unfold Job.seen
  by_cases cached : (job.after answers call calls).raw.any lastTerminal = true
  · rw [executions_cached cached]
    exact lastTerminal_of_cached cached
  · rw [executions_fetched cached]
    exact terminal

/-- No round begins after the job has terminated, if each one is expectant. -/
theorem before_of_expectant {last : Nat} (terminal : lastTerminal (answers last) = true)
    (final : ∀ later, last ≤ later → answers later = answers last)
    (expectant : Expectant answers job call) : call < last := by
  by_contra after
  have reached := Nat.not_lt.mp after
  obtain ⟨_, later, beyond, changed⟩ := expectant.2 (by rw [final call reached]; exact terminal)
  rw [final later (Nat.le_trans reached (Nat.le_of_lt beyond)), final call reached] at changed
  exact changed rfl

theorem waitEnds_of_expectant (terminates : Terminates answers)
    (expectant : ∀ start begun, RoundStarts answers job call start begun →
      Expectant answers start begun) : WaitEnds answers job call := by
  obtain ⟨last, terminal, final⟩ := terminates
  suffices ∀ left start begun, last - begun = left → RoundStarts answers job call start begun →
      WaitEnds answers start begun from this _ job call rfl .first
  intro left
  induction left using Nat.strong_induction_on with
  | h left ih =>
      intro start begun remaining round
      have ready := expectant start begun round
      have before := before_of_expectant terminal final ready
      have sees : lastTerminal (start.seen answers begun (last - begun)) = true :=
        seen_terminal (by rw [Nat.add_sub_cancel' (Nat.le_of_lt before)]; exact terminal)
      obtain ⟨polls, ⟨changed, ended⟩, returned⟩ :=
        (returnsWhenDone_iff ..).mpr ready ⟨last - begun, .inr sees⟩
      by_cases terminated : (changed.isTerminated (answers ended)).1 = true
      · refine ⟨polls, 1, ((changed.isTerminated (answers ended)).2, ended + 1), ?_⟩
        rw [waitTerminated_succ 0 returned, if_pos terminated]
      · have later : begun < ended := executionsChanged_later returned
        obtain ⟨polls', rounds, result, ends⟩ := ih _ (by omega : last - (ended + 1) < left) _
          (ended + 1) rfl (.next round returned terminated)
        refine ⟨max polls polls', rounds + 1, result, ?_⟩
        rw [waitTerminated_succ rounds (executionsChanged_le (Nat.le_max_left ..) returned),
          if_neg terminated]
        exact waitTerminated_le (Nat.le_max_right ..) ends

/-- Each call returns when nothing is left to wait for exactly if the last
execution is not terminal when the call begins, and the command ends for a job
that terminates exactly if this is so for each of its calls. -/
theorem waiting_ends_iff (answers : Nat → List Execution) (job : Job) (call : Nat) :
    (ReturnsWhenDone answers job call ↔ Expectant answers job call) ∧
      (Terminates answers →
        (WaitEnds answers job call ↔ ∀ start begun, RoundStarts answers job call start begun →
          Expectant answers start begun)) := by
  refine ⟨returnsWhenDone_iff .., fun terminates => ⟨?_, waitEnds_of_expectant terminates⟩⟩
  intro ends start begun round
  exact expectant_of_waitEnds (waitEnds_of_round round ends)

/-- An execution only moves forward, and it does not change once terminal. -/
def Execution.Advances (before after : Execution) : Prop :=
  before.id = after.id ∧ (isTerminal before.status = true → after = before) ∧
    (before.status = .inProgress → after.status ≠ .pending)

/-- Executions are only added at the end, as retries. -/
def Advances (before after : List Execution) : Prop :=
  ∃ kept added, after = kept ++ added ∧ List.Forall₂ Execution.Advances before kept

def execution (status : ExecutionStatus) : Execution where
  id := 0
  executorId := some 0
  status := status
  createdAt := 0
  startedAt := some 0
  succeededAt := if status = .succeeded then some 1000 else none
  failedAt := none
  cancelledAt := none
  outputJson := none
  failureReason := none
  pendingReason := none

/-- The execution succeeds before the third call. -/
def succeeding (call : Nat) : List Execution :=
  [execution (if call < 2 then .inProgress else .succeeded)]

theorem waiting_ends_iff_succeeding :
    (ReturnsWhenDone succeeding ⟨none, .cache⟩ 0 ↔ Expectant succeeding ⟨none, .cache⟩ 0) ∧
      (WaitEnds succeeding ⟨none, .cache⟩ 0 ↔
        ∀ start begun, RoundStarts succeeding ⟨none, .cache⟩ 0 start begun →
          Expectant succeeding start begun) := by
  have terminates : Terminates succeeding := by
    refine ⟨2, by decide, fun later after => ?_⟩
    unfold succeeding
    rw [if_neg (Nat.not_lt.mpr after)]
    rfl
  exact ⟨(waiting_ends_iff succeeding ⟨none, .cache⟩ 0).1,
    (waiting_ends_iff succeeding ⟨none, .cache⟩ 0).2 terminates⟩

/-- Waiting for a job that has already succeeded does not end. -/
theorem not_waiting_ends :
    ¬∀ (answers : Nat → List Execution) (job : Job) (call : Nat),
      (∀ k, Advances (answers k) (answers (k + 1))) →
      ReturnsWhenDone answers job call ∧ (Terminates answers → WaitEnds answers job call) := by
  intro ends
  have unchanged : Execution.Advances (execution .succeeded) (execution .succeeded) :=
    ⟨rfl, fun _ => rfl, fun running => (by cases running)⟩
  have returns := (ends (fun _ => [execution .succeeded]) ⟨none, .noCache⟩ 0 fun _ =>
    ⟨[execution .succeeded], [], rfl, .cons unchanged .nil⟩).1
  obtain ⟨_, later, _, changed⟩ := ((returnsWhenDone_iff ..).mp returns).2 (by decide)
  exact changed rfl

end Seen

end Ora.Client
