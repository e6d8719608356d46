import Ora.Proto.Filters

/-!
# Policies on the wire

The protobuf timeout, retry and scheduling policies, and the conversions of the
client library and of the server in both directions.  The policies of the client
have the fields of those of the backend.  Each conversion has its own fallback
for a duration that is missing or not representable.
-/

namespace Ora.Proto

structure Duration where
  seconds : Int
  nanos : Int
  deriving DecidableEq, Repr

/-- `Duration::default()` -/
def Duration.zero : Duration := ⟨0, 0⟩

inductive TimeoutBaseTime where
  | unspecified
  | targetExecutionTime
  | startTime
  deriving DecidableEq, Repr

inductive BackoffStrategy where
  | unspecified
  | fixed
  | exponential
  deriving DecidableEq, Repr

inductive MissedTimePolicy where
  | unspecified
  | skip
  | create
  deriving DecidableEq, Repr

structure TimeoutPolicy where
  timeout : Option Duration
  baseTime : Int
  deriving DecidableEq, Repr

structure RetryPolicy where
  retries : Nat
  backoffDuration : Option Duration
  maxBackoffDuration : Option Duration
  backoffStrategy : Int
  deriving DecidableEq, Repr

structure SchedulingPolicyInterval where
  interval : Option Duration
  immediate : Bool
  missedTimePolicy : Int
  deriving DecidableEq, Repr

structure SchedulingPolicyCron where
  cronExpression : String
  immediate : Bool
  missedTimePolicy : Int
  deriving DecidableEq, Repr

inductive Policy where
  | interval (interval : SchedulingPolicyInterval)
  | cron (cron : SchedulingPolicyCron)
  deriving DecidableEq, Repr

structure SchedulingPolicy where
  policy : Option Policy
  deriving DecidableEq, Repr

def TimeoutBaseTime.number : TimeoutBaseTime → Int
  | .unspecified => 0
  | .targetExecutionTime => 1
  | .startTime => 2

def TimeoutBaseTime.tryFrom : Int → Option TimeoutBaseTime
  | 0 => some .unspecified
  | 1 => some .targetExecutionTime
  | 2 => some .startTime
  | _ => none

def BackoffStrategy.number : BackoffStrategy → Int
  | .unspecified => 0
  | .fixed => 1
  | .exponential => 2

def BackoffStrategy.tryFrom : Int → Option BackoffStrategy
  | 0 => some .unspecified
  | 1 => some .fixed
  | 2 => some .exponential
  | _ => none

def MissedTimePolicy.number : MissedTimePolicy → Int
  | .unspecified => 0
  | .skip => 1
  | .create => 2

def MissedTimePolicy.tryFrom : Int → Option MissedTimePolicy
  | 0 => some .unspecified
  | 1 => some .skip
  | 2 => some .create
  | _ => none

@[simp] theorem TimeoutBaseTime.tryFrom_number (baseTime : TimeoutBaseTime) :
    tryFrom baseTime.number = some baseTime := by
  cases baseTime <;> rfl

@[simp] theorem BackoffStrategy.tryFrom_number (strategy : BackoffStrategy) :
    tryFrom strategy.number = some strategy := by
  cases strategy <;> rfl

@[simp] theorem MissedTimePolicy.tryFrom_number (policy : MissedTimePolicy) :
    tryFrom policy.number = some policy := by
  cases policy <;> rfl

/-- The seconds of the duration fit an `i64`. -/
def Fits (duration : Backend.Duration) : Prop :=
  duration / 1000000000 ≤ 9223372036854775807

instance (duration : Backend.Duration) : Decidable (Fits duration) :=
  inferInstanceAs (Decidable (_ ≤ _))

/-- The seconds and the nanoseconds after them. -/
def Duration.ofNanos (duration : Backend.Duration) : Duration :=
  ⟨(duration / 1000000000 : Nat), (duration % 1000000000 : Nat)⟩

/-- `prost_types::Duration` from and to `std::time::Duration`: a conversion
fails above `i64::MAX` seconds and is exact otherwise. -/
structure Durations where
  fromStd : Backend.Duration → Option Duration
  toStd : Duration → Except String Backend.Duration
  fromStd_fits : ∀ duration, Fits duration → fromStd duration = some (.ofNanos duration)
  fromStd_exceeds : ∀ duration, ¬Fits duration → fromStd duration = none
  toStd_ofNanos : ∀ duration, Fits duration → toStd (.ofNanos duration) = .ok duration

/-- The conversions of the library for durations in its range: the seconds and the
nanoseconds are added up, as its normalization does unless the seconds saturate. -/
def Durations.standard : Durations where
  fromStd duration := if Fits duration then some (.ofNanos duration) else none
  toStd duration :=
    let nanos := duration.seconds * 1000000000 + duration.nanos
    if 0 ≤ nanos then .ok nanos.toNat else .error "duration is negative"
  fromStd_fits _ fits := if_pos fits
  fromStd_exceeds _ exceeds := if_neg exceeds
  toStd_ofNanos duration _ := by
    have whole : ((duration / 1000000000 : Nat) : Int) * 1000000000 +
        ((duration % 1000000000 : Nat) : Int) = (duration : Int) := by
      omega
    simp only [Duration.ofNanos, whole, Int.natCast_nonneg, if_true, Int.toNat_natCast]

namespace Client

def timeoutBaseTime : Backend.TimeoutBaseTime → TimeoutBaseTime
  | .targetExecutionTime => .targetExecutionTime
  | .startTime => .startTime

def toTimeoutBaseTime : TimeoutBaseTime → Backend.TimeoutBaseTime
  | .unspecified => .targetExecutionTime
  | .targetExecutionTime => .targetExecutionTime
  | .startTime => .startTime

def backoffStrategy : Backend.BackoffStrategy → BackoffStrategy
  | .fixed => .fixed
  | .exponential => .exponential

def toBackoffStrategy : BackoffStrategy → Backend.BackoffStrategy
  | .unspecified => .fixed
  | .fixed => .fixed
  | .exponential => .exponential

def missedTimePolicy : Backend.MissedTimePolicy → MissedTimePolicy
  | .skip => .skip
  | .create => .create

def toMissedTimePolicy : MissedTimePolicy → Backend.MissedTimePolicy
  | .unspecified => .skip
  | .skip => .skip
  | .create => .create

inductive SchedulingPolicyError where
  | report (text : String)
  | duration (error : String)
  | unknownEnumValue (number : Int)
  deriving DecidableEq, Repr

variable (durations : Durations)

def timeoutPolicy (value : Backend.TimeoutPolicy) : TimeoutPolicy where
  timeout := durations.fromStd value.timeout
  baseTime := (timeoutBaseTime value.baseTime).number

def toTimeoutPolicy (value : TimeoutPolicy) : Backend.TimeoutPolicy where
  timeout := (value.timeout.bind fun duration => (durations.toStd duration).toOption).getD 0
  baseTime := toTimeoutBaseTime ((TimeoutBaseTime.tryFrom value.baseTime).getD .unspecified)

def retryPolicy (value : Backend.RetryPolicy) : RetryPolicy where
  retries := value.retries
  backoffDuration := durations.fromStd value.backoffDuration
  maxBackoffDuration := value.maxBackoffDuration.bind durations.fromStd
  backoffStrategy := (backoffStrategy value.backoffStrategy).number

def toRetryPolicy (value : RetryPolicy) : Backend.RetryPolicy where
  retries := value.retries
  backoffDuration :=
    (value.backoffDuration.bind fun duration => (durations.toStd duration).toOption).getD 0
  maxBackoffDuration :=
    value.maxBackoffDuration.bind fun duration => (durations.toStd duration).toOption
  backoffStrategy :=
    toBackoffStrategy ((BackoffStrategy.tryFrom value.backoffStrategy).getD .unspecified)

/-- Intervals that are not representable are rejected by the server. -/
def schedulingPolicy : Backend.SchedulingPolicy → SchedulingPolicy
  | .fixedInterval interval immediate missed =>
      ⟨some (.interval
        { interval := some ((durations.fromStd interval).getD ⟨9223372036854775807, 999999999⟩)
          immediate := immediate
          missedTimePolicy := (missedTimePolicy missed).number })⟩
  | .cron expression immediate missed =>
      ⟨some (.cron
        { cronExpression := expression
          immediate := immediate
          missedTimePolicy := (missedTimePolicy missed).number })⟩

def tryMissedTimePolicy (number : Int) : Except SchedulingPolicyError Backend.MissedTimePolicy :=
  match MissedTimePolicy.tryFrom number with
  | some policy => .ok (toMissedTimePolicy policy)
  | none => .error (.unknownEnumValue number)

def toSchedulingPolicy (value : SchedulingPolicy) :
    Except SchedulingPolicyError Backend.SchedulingPolicy :=
  match value.policy with
  | some (.interval interval) =>
      match interval.interval with
      | none => .error (.report "missing interval")
      | some duration => do
          let duration ← (durations.toStd duration).mapError .duration
          let missed ← tryMissedTimePolicy interval.missedTimePolicy
          return .fixedInterval duration interval.immediate missed
  | some (.cron cron) => do
      let missed ← tryMissedTimePolicy cron.missedTimePolicy
      return .cron cron.cronExpression cron.immediate missed
  | none => .error (.report "missing scheduling policy")

end Client

namespace Server

def timeoutBaseTime : TimeoutBaseTime → Backend.TimeoutBaseTime
  | .unspecified => .startTime
  | .startTime => .startTime
  | .targetExecutionTime => .targetExecutionTime

def fromTimeoutBaseTime : Backend.TimeoutBaseTime → TimeoutBaseTime
  | .startTime => .startTime
  | .targetExecutionTime => .targetExecutionTime

def backoffStrategy : BackoffStrategy → Backend.BackoffStrategy
  | .unspecified => .fixed
  | .fixed => .fixed
  | .exponential => .exponential

def fromBackoffStrategy : Backend.BackoffStrategy → BackoffStrategy
  | .fixed => .fixed
  | .exponential => .exponential

def missedTimePolicy : MissedTimePolicy → Backend.MissedTimePolicy
  | .skip => .skip
  | .unspecified => .skip
  | .create => .create

def fromMissedTimePolicy : Backend.MissedTimePolicy → MissedTimePolicy
  | .skip => .skip
  | .create => .create

variable (durations : Durations)

/-- `try_into().unwrap_or_default()` of a received duration. -/
def duration (value : Duration) : Backend.Duration :=
  (durations.toStd value).toOption.getD 0

/-- `Duration::try_from(..).unwrap_or_default()` of a duration to send. -/
def fromDuration (value : Backend.Duration) : Duration :=
  (durations.fromStd value).getD .zero

def timeoutPolicy (value : TimeoutPolicy) : Backend.TimeoutPolicy where
  timeout := duration durations (value.timeout.getD .zero)
  baseTime := timeoutBaseTime ((TimeoutBaseTime.tryFrom value.baseTime).getD .unspecified)

def fromTimeoutPolicy (value : Backend.TimeoutPolicy) : TimeoutPolicy where
  timeout := some (fromDuration durations value.timeout)
  baseTime := (fromTimeoutBaseTime value.baseTime).number

def retryPolicy (value : RetryPolicy) : Backend.RetryPolicy where
  retries := value.retries
  backoffDuration := duration durations (value.backoffDuration.getD .zero)
  maxBackoffDuration := value.maxBackoffDuration.map (duration durations)
  backoffStrategy :=
    backoffStrategy ((BackoffStrategy.tryFrom value.backoffStrategy).getD .unspecified)

def fromRetryPolicy (value : Backend.RetryPolicy) : RetryPolicy where
  retries := value.retries
  backoffDuration := some (fromDuration durations value.backoffDuration)
  maxBackoffDuration := value.maxBackoffDuration.map (fromDuration durations)
  backoffStrategy := (fromBackoffStrategy value.backoffStrategy).number

/-- The scheduling policy of a received schedule. -/
def schedulingPolicy (scheduling : Option SchedulingPolicy) :
    Except String Backend.SchedulingPolicy :=
  match (scheduling.getD ⟨none⟩).policy with
  | none => .error "missing scheduling policy"
  | some (.interval fixed) =>
      .ok (.fixedInterval (duration durations (fixed.interval.getD .zero)) fixed.immediate
        (missedTimePolicy ((MissedTimePolicy.tryFrom fixed.missedTimePolicy).getD .unspecified)))
  | some (.cron cron) =>
      .ok (.cron cron.cronExpression cron.immediate
        (missedTimePolicy ((MissedTimePolicy.tryFrom cron.missedTimePolicy).getD .unspecified)))

def fromSchedulingPolicy : Backend.SchedulingPolicy → SchedulingPolicy
  | .fixedInterval interval immediate missed =>
      ⟨some (.interval
        { interval := some (fromDuration durations interval)
          immediate := immediate
          missedTimePolicy := (fromMissedTimePolicy missed).number })⟩
  | .cron expression immediate missed =>
      ⟨some (.cron
        { cronExpression := expression
          immediate := immediate
          missedTimePolicy := (fromMissedTimePolicy missed).number })⟩

end Server

section Received

variable (durations : Durations)

/-- The longest duration that fits. -/
def longest : Backend.Duration := 9223372036854775807999999999

theorem longest_fits : Fits longest := by decide

theorem fits_iff (duration : Backend.Duration) : Fits duration ↔ duration ≤ longest := by
  have whole : ∀ nanos : Nat, nanos / 1000000000 ≤ 9223372036854775807 ↔
      nanos ≤ 9223372036854775807999999999 := by
    omega
  exact whole duration

theorem zero_fits : Fits 0 := by decide

theorem duration_received {duration : Backend.Duration} (fits : Fits duration) :
    Server.duration durations ((durations.fromStd duration).getD .zero) = duration := by
  rw [durations.fromStd_fits duration fits, Option.getD_some, Server.duration,
    durations.toStd_ofNanos duration fits]
  rfl

/-- A duration that does not fit is received as zero. -/
theorem duration_lost {duration : Backend.Duration} (exceeds : ¬Fits duration) :
    Server.duration durations ((durations.fromStd duration).getD .zero) = 0 := by
  have zero : Duration.zero = .ofNanos 0 := rfl
  rw [durations.fromStd_exceeds duration exceeds, Option.getD_none, Server.duration, zero,
    durations.toStd_ofNanos 0 zero_fits]
  rfl

theorem interval_received (interval : Backend.Duration) :
    Server.duration durations
        ((durations.fromStd interval).getD ⟨9223372036854775807, 999999999⟩) =
      if Fits interval then interval else longest := by
  split
  · rename_i fits
    have received := duration_received durations fits
    rw [durations.fromStd_fits interval fits] at received ⊢
    exact received
  · rename_i exceeds
    have saturated : (⟨9223372036854775807, 999999999⟩ : Duration) = .ofNanos longest := by decide
    rw [durations.fromStd_exceeds interval exceeds, Option.getD_none, Server.duration, saturated,
      durations.toStd_ofNanos longest longest_fits]
    rfl

theorem timeoutBaseTime_received (baseTime : Backend.TimeoutBaseTime) :
    Server.timeoutBaseTime (Client.timeoutBaseTime baseTime) = baseTime := by
  cases baseTime <;> rfl

theorem backoffStrategy_received (strategy : Backend.BackoffStrategy) :
    Server.backoffStrategy (Client.backoffStrategy strategy) = strategy := by
  cases strategy <;> rfl

theorem missedTimePolicy_received (missed : Backend.MissedTimePolicy) :
    Server.missedTimePolicy (Client.missedTimePolicy missed) = missed := by
  cases missed <;> rfl

/-- A timeout that does not fit is received as none. -/
theorem timeoutPolicy_received (policy : Backend.TimeoutPolicy) :
    Server.timeoutPolicy durations (Client.timeoutPolicy durations policy) =
      { policy with timeout := if Fits policy.timeout then policy.timeout else 0 } := by
  have timeout : Server.duration durations ((durations.fromStd policy.timeout).getD .zero) =
      if Fits policy.timeout then policy.timeout else 0 := by
    split
    · exact duration_received durations (by assumption)
    · exact duration_lost durations (by assumption)
  simp only [Server.timeoutPolicy, Client.timeoutPolicy, timeout, TimeoutBaseTime.tryFrom_number,
    Option.getD_some, timeoutBaseTime_received]

/-- A backoff that does not fit is received as zero, a maximum as none. -/
theorem retryPolicy_received (policy : Backend.RetryPolicy) :
    Server.retryPolicy durations (Client.retryPolicy durations policy) =
      { policy with
        backoffDuration := if Fits policy.backoffDuration then policy.backoffDuration else 0
        maxBackoffDuration := policy.maxBackoffDuration.filter fun max => decide (Fits max) } := by
  have backoff : Server.duration durations ((durations.fromStd policy.backoffDuration).getD .zero) =
      if Fits policy.backoffDuration then policy.backoffDuration else 0 := by
    split
    · exact duration_received durations (by assumption)
    · exact duration_lost durations (by assumption)
  have greatest : (policy.maxBackoffDuration.bind durations.fromStd).map
      (Server.duration durations) = policy.maxBackoffDuration.filter fun max => decide (Fits max) := by
    cases policy.maxBackoffDuration with
    | none => rfl
    | some max =>
        by_cases fits : Fits max
        · have received := duration_received durations fits
          rw [durations.fromStd_fits max fits, Option.getD_some] at received
          simp [durations.fromStd_fits max fits, received, Option.filter, fits]
        · simp [durations.fromStd_exceeds max fits, Option.filter, fits]
  simp only [Server.retryPolicy, Client.retryPolicy, backoff, greatest,
    BackoffStrategy.tryFrom_number, Option.getD_some, backoffStrategy_received]

/-- The policy with its interval saturated. -/
def receivedSchedulingPolicy : Backend.SchedulingPolicy → Backend.SchedulingPolicy
  | .fixedInterval interval immediate missed =>
      .fixedInterval (if Fits interval then interval else longest) immediate missed
  | .cron expression immediate missed => .cron expression immediate missed

theorem schedulingPolicy_received (policy : Backend.SchedulingPolicy) :
    Server.schedulingPolicy durations (some (Client.schedulingPolicy durations policy)) =
      .ok (receivedSchedulingPolicy policy) := by
  cases policy with
  | fixedInterval interval immediate missed =>
      simp only [Server.schedulingPolicy, Client.schedulingPolicy, Option.getD_some,
        interval_received, MissedTimePolicy.tryFrom_number, missedTimePolicy_received,
        receivedSchedulingPolicy]
  | cron expression immediate missed =>
      simp only [Server.schedulingPolicy, Client.schedulingPolicy, Option.getD_some,
        MissedTimePolicy.tryFrom_number, missedTimePolicy_received, receivedSchedulingPolicy]

end Received

section Back

variable (durations : Durations)

theorem duration_back {duration : Backend.Duration} (fits : Fits duration) :
    durations.toStd (Server.fromDuration durations duration) = .ok duration := by
  rw [Server.fromDuration, durations.fromStd_fits duration fits, Option.getD_some,
    durations.toStd_ofNanos duration fits]

theorem duration_read {duration : Backend.Duration} (fits : Fits duration) :
    (durations.toStd (Server.fromDuration durations duration)).toOption = some duration := by
  rw [duration_back durations fits]
  rfl

theorem timeoutPolicy_back {policy : Backend.TimeoutPolicy} (fits : Fits policy.timeout) :
    Client.toTimeoutPolicy durations (Server.fromTimeoutPolicy durations policy) = policy := by
  have baseTime : Client.toTimeoutBaseTime (Server.fromTimeoutBaseTime policy.baseTime) =
      policy.baseTime := by
    cases policy.baseTime <;> rfl
  simp only [Client.toTimeoutPolicy, Server.fromTimeoutPolicy, Option.bind_some,
    duration_read durations fits, Option.getD_some, TimeoutBaseTime.tryFrom_number, baseTime]

theorem retryPolicy_back {policy : Backend.RetryPolicy} (fits : Fits policy.backoffDuration)
    (max : ∀ duration ∈ policy.maxBackoffDuration, Fits duration) :
    Client.toRetryPolicy durations (Server.fromRetryPolicy durations policy) = policy := by
  have strategy : Client.toBackoffStrategy (Server.fromBackoffStrategy policy.backoffStrategy) =
      policy.backoffStrategy := by
    cases policy.backoffStrategy <;> rfl
  have greatest : ((policy.maxBackoffDuration.map (Server.fromDuration durations)).bind
      fun duration => (durations.toStd duration).toOption) = policy.maxBackoffDuration := by
    cases given : policy.maxBackoffDuration with
    | none => rfl
    | some duration =>
        rw [Option.map_some, Option.bind_some, duration_read durations (max duration given)]
  simp only [Client.toRetryPolicy, Server.fromRetryPolicy, Option.bind_some,
    duration_read durations fits, Option.getD_some, greatest, BackoffStrategy.tryFrom_number,
    strategy]

/-- The interval of a policy fits, a cron expression has none. -/
def IntervalFits : Backend.SchedulingPolicy → Prop
  | .fixedInterval interval _ _ => Fits interval
  | .cron _ _ _ => True

instance (policy : Backend.SchedulingPolicy) : Decidable (IntervalFits policy) := by
  cases policy <;> unfold IntervalFits <;> infer_instance

theorem schedulingPolicy_back {policy : Backend.SchedulingPolicy} (fits : IntervalFits policy) :
    Client.toSchedulingPolicy durations (Server.fromSchedulingPolicy durations policy) =
      .ok policy := by
  have known : ∀ missed, Client.tryMissedTimePolicy (Server.fromMissedTimePolicy missed).number =
      .ok missed := by
    intro missed
    cases missed <;> rfl
  cases policy with
  | fixedInterval interval immediate missed =>
      have read : durations.toStd (Server.fromDuration durations interval) = .ok interval :=
        duration_back durations fits
      simp only [Client.toSchedulingPolicy, Server.fromSchedulingPolicy, read, known]
      rfl
  | cron expression immediate missed =>
      simp only [Client.toSchedulingPolicy, Server.fromSchedulingPolicy, known]
      rfl

end Back

end Ora.Proto
