/-
# JobScheduler.Service -- the methods of `JobSchedulerService`

Each method is a program over the statements of `JobScheduler.Table`.  The consumer's
function of `runExclusive` is a function of the lease it is given; how long it takes is the
scheduler's choice.  The interval timer of `runExclusive` calls `heartbeat` beside the run
and drops what it answers, so a beat is a request of its own (`Request.heartbeat`).
-/
import SdcoreNest.JobScheduler.Table

namespace SdcoreNest.JobScheduler

open SdcoreNest.Theory

set_option autoImplicit false

abbrev Jobs := ExceptT JobError (Program sig)

def ask (call : Call) : Jobs call.Answer := Program.perform (S := sig) .thrown call

def check {α : Type} (result : Except JobError α) : Jobs α := ExceptT.mk (.done result)

/-- `digest` is the hash of the lock key. -/
def acquire (digest : JsString → JsString) (opts : JobAcquireOptions) : Jobs JobAcquireResult := do
  let timing ← check (resolveLeaseTiming opts)
  let identity ← check (resolveIdentity digest opts)
  let ownerToken ← ask .randomUUID
  let values : Values :=
    ⟨identity.lockKey, identity.code, opts.name, identity.type, ownerToken⟩
  match ← ask (.insertIgnore values timing.leaseMs) with
  | some id => pure (.acquired ⟨⟨id, ownerToken⟩, identity.lockKey⟩)
  | none =>
      match ← ask (.reclaim identity.lockKey ownerToken timing.leaseMs) with
      | some id => pure (.acquired ⟨⟨id, ownerToken⟩, identity.lockKey⟩)
      | none => pure .missed

def mutateOwnedLease (lease : JobLease) (set : LeaseSet) : Jobs Bool := do
  let affected ← ask (.updateOwned lease set)
  pure (affected == 1)

def heartbeat (lease : JobLease) : Jobs Bool := mutateOwnedLease lease .modifiedAt

def complete (lease : JobLease) (data : Option Data := none) : Jobs Bool :=
  mutateOwnedLease lease (.success data)

def fail (lease : JobLease) (data : Option Data := none) : Jobs Bool :=
  mutateOwnedLease lease (.fail data)

def release (lease : JobLease) (data : Data := .released) : Jobs Bool := fail lease (some data)

def JobError.isLostJobLease : JobError → Bool
  | .lostJobLease _ => true
  | _ => false

/-- The body of the `try`: run the consumer's function and record its success. -/
def runAndComplete (lease : JobExecutionLease)
    (fn : JobExecutionLease → Except JobError JsString) : Jobs (Option JsString) := do
  let result ← check (fn lease)
  if ← complete lease.toJobLease then pure (some result)
  else throw (.lostJobLease lease.id)

/-- The `catch`: record the failure, unless the lease is known to be lost. -/
def recordFailure (lease : JobExecutionLease) (error : JobError) : Jobs (Option JsString) := do
  if error.isLostJobLease then throw error
  let _ ← fail lease.toJobLease (some (.error error))
  throw error

/-- `none`: another node holds the lock. -/
def runExclusive (digest : JsString → JsString) (opts : JobAcquireOptions)
    (fn : JobExecutionLease → Except JobError JsString) : Jobs (Option JsString) := do
  let timing ← check (resolveLeaseTiming opts)
  let lock ← acquire digest
    { opts with leaseMs := .integer timing.leaseMs, heartbeatMs := .integer timing.heartbeatMs }
  match lock with
  | .missed => pure none
  | .acquired lease => tryCatch (runAndComplete lease fn) (recordFailure lease)

/-! ## The system -/

inductive Request where
  | acquire (opts : JobAcquireOptions)
  | heartbeat (lease : JobLease)
  | complete (lease : JobLease) (data : Option Data)
  | fail (lease : JobLease) (data : Option Data)
  | release (lease : JobLease) (data : Data)
  | runExclusive (opts : JobAcquireOptions) (fn : JobExecutionLease → Except JobError JsString)

/-- What a request returns. -/
inductive Reply where
  | acquired (result : JobAcquireResult)
  | flag (value : Bool)
  | ran (result : Option JsString)
deriving DecidableEq, Repr

abbrev Outcome := Except JobError Reply

def replying {α : Type} (wrap : α → Reply) (body : Jobs α) : Program sig Outcome :=
  (do let value ← body; pure (wrap value) : Jobs Reply).run

def launch (digest : JsString → JsString) : Request → Program sig Outcome
  | .acquire opts => replying .acquired (acquire digest opts)
  | .heartbeat lease => replying .flag (heartbeat lease)
  | .complete lease data => replying .flag (complete lease data)
  | .fail lease data => replying .flag (fail lease data)
  | .release lease data => replying .flag (release lease data)
  | .runExclusive opts fn => replying .ran (runExclusive digest opts fn)

abbrev JobsCore := Machine.Core machine

abbrev JobsConfig := Machine.Config machine Outcome Request

abbrev JobsLabel := Machine.Label machine Request

/-- Reachable from an empty table by steps that all meet `ok`. -/
abbrev ReachableIf (digest : JsString → JsString)
    (ok : JobsCore → Machine.Act machine → Prop) (time : Int) : JobsConfig → Prop :=
  Machine.Reach (launch digest) ok (World.initial time)

/-- Reachable by any schedule, with any faults. -/
abbrev Reachable (digest : JsString → JsString) (time : Int) : JobsConfig → Prop :=
  ReachableIf digest (fun _ _ => True) time

/-- The state a schedule leads to from an empty table at time 0; the lock key is the identity
text itself. -/
def after (labels : List JobsLabel) : Option JobsConfig :=
  (Machine.Config.start (World.initial 0)).follow (launch id) (fun _ _ => true) labels

theorem reachable_after {labels : List JobsLabel} {state : JobsConfig}
    (followed : after labels = some state) : Reachable id 0 state :=
  Machine.reach_follow (launch id) (fun _ _ _ => trivial) .start followed

/-- A scheduled job, with the default lease. -/
def smallOptions : JobAcquireOptions where
  code := .text (JsString.js "sync")
  runKey := .text (JsString.js "tick")

end SdcoreNest.JobScheduler
