/-
# JobScheduler.Types -- options, leases and errors of the job scheduler

`resolveIdentity` and `resolveLeaseTiming` check the options of a caller that may pass
anything: each option is a `Raw` value, and the checks are the service's own.
-/
import SdcoreNest.Theory.JsString

namespace SdcoreNest.JobScheduler

open SdcoreNest.Theory SdcoreNest.Theory.JsString

set_option autoImplicit false

inductive JobSchedulerStatus where
  | running
  | success
  | fail
deriving DecidableEq, Repr

inductive JobSchedulerType where
  | initial
  | schedule
deriving DecidableEq, Repr

/-- A value of type `unknown`: `integer` is a number without a fractional part, `other` any
value that is neither text nor such a number. -/
inductive Raw where
  | undefined
  | text (value : JsString)
  | integer (value : Int)
  | other
deriving DecidableEq, Repr

structure JobAcquireOptions where
  code : Raw
  runKey : Raw := .undefined
  name : Option JsString := none
  type : Raw := .undefined
  leaseMs : Raw := .undefined
  heartbeatMs : Raw := .undefined
deriving DecidableEq, Repr

/-- The `id` of a job row and the owner tokens, `uuid` columns. -/
abbrev Uuid := Nat

structure JobLease where
  id : Uuid
  ownerToken : Uuid
deriving DecidableEq, Repr

structure JobExecutionLease extends JobLease where
  idempotencyKey : JsString
deriving DecidableEq, Repr

inductive JobAcquireResult where
  | acquired (lease : JobExecutionLease)
  | missed
deriving DecidableEq, Repr

/-- What a method throws; `thrown` is an error of the database driver, `work` one of the
consumer's function. -/
inductive JobError where
  | invalidLeaseOptions (reason : String)
  | invalidIdentityOptions (reason : String)
  | lostJobLease (jobId : Uuid)
  | thrown
  | work (message : JsString)
deriving DecidableEq, Repr

/-! ## Timing -/

def defaultLeaseMs : Nat := 15 * 60 * 1000

def defaultHeartbeatMs : Nat := 60 * 1000

/-- `Number.isSafeInteger`, on integers. -/
def isSafeInteger (value : Int) : Bool := -9007199254740991 ≤ value && value ≤ 9007199254740991

structure LeaseTiming where
  heartbeatMs : Nat
  leaseMs : Nat
deriving DecidableEq, Repr

/-- A raw value as a safe integer that is at least `least`. -/
def Raw.safeInteger (least : Int) : Raw → Option Nat
  | .integer value => if isSafeInteger value ∧ least ≤ value then some value.toNat else none
  | _ => none

def resolveLeaseMs (raw : Raw) : Except JobError Nat :=
  match if raw = .undefined then some defaultLeaseMs else raw.safeInteger 3 with
  | some leaseMs => .ok leaseMs
  | none => .error (.invalidLeaseOptions "leaseMs must be a safe integer greater than 2")

def resolveHeartbeatMs (leaseMs : Nat) (raw : Raw) : Except JobError Nat :=
  match if raw = .undefined then some (min defaultHeartbeatMs (max 1 (leaseMs / 3)))
    else raw.safeInteger 0 with
  | some heartbeatMs => .ok heartbeatMs
  | none => .error (.invalidLeaseOptions "heartbeatMs must be a non-negative safe integer")

def resolveLeaseTiming (opts : JobAcquireOptions) : Except JobError LeaseTiming := do
  let leaseMs ← resolveLeaseMs opts.leaseMs
  let heartbeatMs ← resolveHeartbeatMs leaseMs opts.heartbeatMs
  if 0 < heartbeatMs ∧ leaseMs ≤ heartbeatMs * 2 then
    .error (.invalidLeaseOptions "heartbeatMs must be less than half of leaseMs")
  else .ok ⟨heartbeatMs, leaseMs⟩

theorem Raw.safeInteger_eq_some {least : Nat} {raw : Raw} {n : Nat} :
    raw.safeInteger least = some n ↔
      raw = .integer n ∧ least ≤ n ∧ n ≤ 9007199254740991 := by
  cases raw with
  | integer value =>
      simp only [safeInteger, isSafeInteger, Option.ite_none_right_eq_some, Option.some.injEq,
        Bool.and_eq_true, decide_eq_true_eq, Raw.integer.injEq]
      omega
  | _ => simp [safeInteger]

theorem resolveLeaseMs_eq_ok {raw : Raw} {n : Nat} (resolved : resolveLeaseMs raw = .ok n) :
    3 ≤ n ∧ n ≤ 9007199254740991 := by
  unfold resolveLeaseMs at resolved
  split at resolved
  · rename_i leaseMs found
    cases resolved
    split at found
    · cases found
      decide
    · exact (Raw.safeInteger_eq_some.mp found).2
  · cases resolved

theorem resolveHeartbeatMs_eq_ok {leaseMs : Nat} {raw : Raw} {n : Nat}
    (resolved : resolveHeartbeatMs leaseMs raw = .ok n) : n ≤ 9007199254740991 := by
  unfold resolveHeartbeatMs at resolved
  split at resolved
  · rename_i heartbeatMs found
    cases resolved
    split at found
    · cases found
      exact Nat.le_trans (Nat.min_le_left _ _) (by decide)
    · exact (Raw.safeInteger_eq_some.mp found).2.2
  · cases resolved

theorem resolveLeaseMs_integer {n : Nat} (bounds : 3 ≤ n ∧ n ≤ 9007199254740991) :
    resolveLeaseMs (.integer n) = .ok n := by
  have safe : (Raw.integer n).safeInteger 3 = some n :=
    Raw.safeInteger_eq_some.mpr ⟨rfl, bounds⟩
  simp [resolveLeaseMs, safe]

theorem resolveHeartbeatMs_integer {leaseMs n : Nat} (bound : n ≤ 9007199254740991) :
    resolveHeartbeatMs leaseMs (.integer n) = .ok n := by
  have safe : (Raw.integer n).safeInteger 0 = some n :=
    Raw.safeInteger_eq_some.mpr ⟨rfl, Nat.zero_le n, bound⟩
  simp [resolveHeartbeatMs, safe]

/-- Resolved timing resolves to itself. -/
theorem resolveLeaseTiming_resolved {opts : JobAcquireOptions} {timing : LeaseTiming}
    (timed : resolveLeaseTiming opts = .ok timing) :
    resolveLeaseTiming { opts with
      leaseMs := .integer timing.leaseMs, heartbeatMs := .integer timing.heartbeatMs } =
        .ok timing := by
  unfold resolveLeaseTiming at timed
  cases leased : resolveLeaseMs opts.leaseMs with
  | error error =>
      rw [leased] at timed
      cases timed
  | ok leaseMs =>
      rw [leased] at timed
      cases beating : resolveHeartbeatMs leaseMs opts.heartbeatMs with
      | error error =>
          simp only [bind, Except.bind, beating] at timed
          cases timed
      | ok heartbeatMs =>
          simp only [bind, Except.bind, beating] at timed
          split at timed
          · cases timed
          · rename_i apart
            cases timed
            simp only [resolveLeaseTiming, resolveLeaseMs_integer (resolveLeaseMs_eq_ok leased),
              resolveHeartbeatMs_integer (resolveHeartbeatMs_eq_ok beating), bind, Except.bind]
            exact if_neg apart

/-! ## Identity -/

structure JobIdentity where
  code : JsString
  lockKey : JsString
  type : JobSchedulerType
deriving DecidableEq, Repr

def JobSchedulerType.value : JobSchedulerType → JsString
  | .initial => js "INITIAL"
  | .schedule => js "SCHEDULE"

/-- Trimmed text, if the value is text. -/
def Raw.trimmed : Raw → Option JsString
  | .text value => some (trim value)
  | _ => none

def resolveType (raw : Raw) : Except JobError JobSchedulerType :=
  if raw = .undefined then .ok .schedule
  else if raw = .text (JobSchedulerType.value .schedule) then .ok .schedule
  else if raw = .text (JobSchedulerType.value .initial) then .ok .initial
  else .error (.invalidIdentityOptions "type must be INITIAL or SCHEDULE")

/-- `JSON.stringify` of the canonical tuple. -/
def identityText (type : JobSchedulerType) (code : JsString) (runKey : Option JsString) :
    JsString :=
  js "\x7b\"version\":2,\"type\":" ++ quote type.value ++ js ",\"code\":" ++ quote code ++
    js ",\"runKey\":" ++ (runKey.map quote).getD (js "null") ++ js "\x7d"

/-- `digest` is SHA-256 of the UTF-8 bytes, printed in base64url. -/
def resolveIdentity (digest : JsString → JsString) (opts : JobAcquireOptions) :
    Except JobError JobIdentity := do
  let code := opts.code.trimmed.getD []
  let runKey := opts.runKey.trimmed
  if code = [] ∨ 64 < code.length then
    throw (.invalidIdentityOptions "code must contain 1 to 64 non-whitespace characters")
  let type ← resolveType opts.type
  if type = .schedule ∧ (runKey.all fun text => text = [] ∨ 1024 < text.length) then
    throw (.invalidIdentityOptions
      "SCHEDULE jobs require a non-empty runKey no longer than 1024 characters")
  if type = .initial ∧ opts.runKey ≠ .undefined then
    throw (.invalidIdentityOptions "INITIAL jobs must not define runKey")
  pure ⟨code, js "v2:" ++
    digest (identityText type code (if type = .schedule then runKey else none)), type⟩

end SdcoreNest.JobScheduler
