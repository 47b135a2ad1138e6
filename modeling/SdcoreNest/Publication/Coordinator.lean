/-
# Publication.Coordinator -- `stage`, `retire`, `run` and `project`

The coordinator is a set of programs over the ports of `types.ts`: the policy, the
repository and the storage.  A port call answers or throws; a reply `none` says that the
run's deadline came first, whatever the call does later.  The clock, the id source and the
abort signal are calls too, which programs read without waiting.
-/
import SdcoreNest.Publication.Intent
import SdcoreNest.Theory.Rules

namespace SdcoreNest.Publication

open SdcoreNest.Theory SdcoreNest.Theory.JsString

set_option autoImplicit false

/-! ## Ports -/

/-- What `inspect` answers; `other` is a value outside the declared type. -/
inductive Observation where
  | matching
  | absent
  | unknown
  | conflict
  | other
deriving DecidableEq

/-- What `commitReady` answers; `other` is a value outside the declared type. -/
inductive Commitment where
  | ready
  | stale
  | lost
  | other
deriving DecidableEq

/-- What `publish` and `removeExact` answer. -/
inductive Acknowledgement where
  | acknowledged
  | unknown
deriving DecidableEq

/-- What the policy resolves an assignment to; `other` is another visibility. -/
inductive Resolution where
  | privateFile (binding : Binding)
  | publicFile (binding : Binding) (source : Source)
  | other (binding : Binding)
deriving DecidableEq

inductive Port where
  | resolve
  | stage (intent : Intent)
  | retireLogicalBinding (binding : LogicalBinding)
  | retire (binding : Binding)
  | claim (id token : JsString) (now leaseUntil : JsNumber)
  | isCurrent (work : Lease)
  | commitReady (work : Lease) (now : JsNumber)
  | record (work : Lease) (state : State) (code : JsString) (nextAttemptAt : JsNumber)
  | readCurrent (binding : Binding)
  | inspect (intent : Intent)
  | publish (intent : Intent)
  | removeExact (intent : Intent)
deriving DecidableEq

@[reducible] def Port.Answer : Port → Type
  | .resolve => Resolution
  | .stage _ => Intent
  | .retireLogicalBinding _ => Unit
  | .retire _ => Unit
  | .claim _ _ _ _ => Option Lease
  | .isCurrent _ => Bool
  | .commitReady _ _ => Commitment
  | .record _ _ _ _ => Bool
  | .readCurrent _ => Option (Intent × State)
  | .inspect _ => Observation
  | .publish _ => Acknowledgement
  | .removeExact _ => Acknowledgement

/-- How a port call ends before the deadline. -/
abbrev Port.Outcome (port : Port) := Except Fault port.Answer

inductive Call where
  | clock
  | newId
  | aborted
  | call (port : Port)
deriving DecidableEq

@[reducible] def Call.Answer : Call → Type
  | .clock => JsNumber
  | .newId => JsString
  | .aborted => Bool
  | .call port => port.Outcome

abbrev sig : Signature := ⟨Call, Call.Answer⟩

abbrev Job := ExceptT Fault (Program sig)

def deadlineCode : JsString := js "core.file.publication.deadline"

def clock : Job JsNumber := Program.perform (S := sig) .other .clock

def newId : Job JsString := Program.perform (S := sig) .other .newId

def aborted : Job Bool := Program.perform (S := sig) .other .aborted

def call (port : Port) : Job port.Answer :=
  ExceptT.mk <| .ask (.call port) fun
    | some outcome => .done outcome
    | none => .done (.error (.publication deadlineCode))

def check {α : Type} (result : Except Fault α) : Job α := ExceptT.mk (.done result)

/-! ## The coordinator -/

/-- A duration that the coordinator accepts. -/
def validDuration (value : JsNumber) : Bool :=
  value.isSafeInteger && (JsNumber.finite 1).le value && value.le (.finite 3600000)

/-- A coordinator; one with another lease or retry time is refused. -/
structure Coordinator where
  platform : Platform
  config : Config
  leaseMs : JsNumber
  retryMs : JsNumber
  valid : validDuration leaseMs = true ∧ validDuration retryMs = true

def createUploadedFilePublicationCoordinator (platform : Platform) (config : Config)
    (leaseMs retryMs : Option JsNumber) : Except Fault Coordinator :=
  let lease := leaseMs.getD (.finite 30000)
  let retry := retryMs.getD (.finite 30000)
  if valid : validDuration lease = true ∧ validDuration retry = true then
    .ok ⟨platform, config, lease, retry, valid⟩
  else .error .invalidDescriptor

inductive Staged where
  | privateFile
  | publicFile (intentId : JsString)
deriving DecidableEq

inductive Result where
  | idle
  | ready
  | pending
  | retired
  | blocked
  | lost
deriving DecidableEq

namespace Coordinator

variable (coordinator : Coordinator)

def verify (input : Intent) : Except Fault Intent :=
  Publication.verify coordinator.platform coordinator.config input

def stage : Job Staged := do
  let resolved ← call .resolve
  match resolved with
  | .privateFile binding => do
      let binding ← check (authorizedBinding coordinator.config binding)
      call (.retireLogicalBinding binding.logical)
      pure .privateFile
  | .other binding => do
      let _ ← check (authorizedBinding coordinator.config binding)
      throw (.publication (js "core.file.publication.policy-denied"))
  | .publicFile binding source => do
      let binding ← check (authorizedBinding coordinator.config binding)
      let source ← check (publicationSource source)
      let target ← check (targetFor coordinator.platform coordinator.config binding source)
      let id ← newId
      let createdAt ← clock
      let intent ← check (coordinator.verify
        ⟨id, binding, source, target,
          descriptor coordinator.platform binding source target, createdAt⟩)
      let answered ← call (.stage intent)
      let stored ← check (coordinator.verify answered)
      if stored.descriptorHash ≠ intent.descriptorHash then
        throw (.publication (js "core.file.publication.generation-conflict"))
      else pure (.publicFile stored.id)

def retire (binding : Binding) : Job Unit := do
  let binding ← check (authorizedBinding coordinator.config binding)
  call (.retire binding)

def project (binding : Binding) : Job (Option JsString × Option State) := do
  let checked ← check (authorizedBinding coordinator.config binding)
  let row ← call (.readCurrent checked)
  match row with
  | none => pure (none, none)
  | some (intent, state) => do
      let intent ← check (coordinator.verify intent)
      if intent.binding ≠ checked then throw .invalidDescriptor
      else pure (if state = .ready then some intent.target.url else none, some state)

/-! ## One run -/

/-- Check the signal, check it again in the next microtask, then begin. -/
def within {α : Type} (body : Job α) : Job α := do
  let stopped ← aborted
  if stopped then throw (.publication deadlineCode)
  else do
    let stopped ← aborted
    if stopped then throw (.publication deadlineCode)
    else body

def record (owned : Lease) (state : State) (code : String) : Job Bool :=
  within do
    let now ← clock
    call (.record owned state (js code) (now.add coordinator.retryMs))

/-- `(await record(state, code)) ? result : 'lost'`. -/
def recorded (owned : Lease) (state : State) (code : String) (result : Result) : Job Result := do
  let kept ← coordinator.record owned state code
  pure (if kept then result else .lost)

def acknowledge (owned : Lease) : Job Result := do
  let result ← within do
    let now ← clock
    call (.commitReady owned now)
  match result with
  | .ready => pure .ready
  | .lost => pure .lost
  | .other => throw .invalidDescriptor
  | .stale =>
      coordinator.recorded owned .retiring "core.file.publication.binding-retired" .pending

/-- A retire lease on a rendition that is there. -/
def remove (owned : Lease) : Job Result := do
  let removed ← within (call (.removeExact owned.intent))
  match removed with
  | .unknown =>
      coordinator.recorded owned .retiring "core.file.publication.retirement-unknown" .pending
  | .acknowledged =>
      coordinator.recorded owned .retired "core.file.publication.retired" .retired

/-- A publish lease on a rendition that is not there. -/
def write (owned : Lease) : Job Result := do
  let current ← within (call (.isCurrent owned))
  if !current then
    coordinator.recorded owned .retiring "core.file.publication.binding-retired" .pending
  else do
    let written ← within (call (.publish owned.intent))
    match written with
    | .unknown =>
        coordinator.recorded owned .uncertain "core.file.publication.outcome-unknown" .pending
    | .acknowledged => coordinator.acknowledge owned

/-- The state that leaves the outcome open. -/
def openState (owned : Lease) : State := if owned.action = .retire then .retiring else .uncertain

def inspected (owned : Lease) : Job Result := do
  let observed ← within (call (.inspect owned.intent))
  match observed with
  | .conflict =>
      coordinator.recorded owned .blocked "core.file.publication.object-conflict" .blocked
  | .unknown =>
      coordinator.recorded owned (openState owned) "core.file.publication.outcome-unknown"
        .pending
  | .other => throw .invalidDescriptor
  | .matching =>
      if owned.action = .retire then coordinator.remove owned else coordinator.acknowledge owned
  | .absent =>
      if owned.action = .retire then
        coordinator.recorded owned .retired "core.file.publication.retired" .retired
      else coordinator.write owned

/-- What a worker does with a lease it owns. -/
def work (owned : Lease) : Job Result := do
  let now ← clock
  if owned.leaseUntil.le now then pure .lost
  else if owned.action = .publish then do
    let current ← within (call (.isCurrent owned))
    if !current then
      coordinator.recorded owned .retiring "core.file.publication.binding-retired" .pending
    else coordinator.inspected owned
  else coordinator.inspected owned

/-- Claim the work and check what was claimed; a result ends the run at once. -/
def claimWork (intentId : JsString) (now : JsNumber) : Job (Result ⊕ Lease) := do
  let work ← within do
    let token ← newId
    let token ← check (part token)
    call (.claim intentId token now (now.add coordinator.leaseMs))
  match work with
  | none => pure (.inl .idle)
  | some work => do
      let intent ← check (coordinator.verify work.intent)
      if intent.id ≠ intentId ∨ !work.revision.isSafeInteger ∨ work.revision.lt (.finite 0) ∨
          !work.leaseUntil.isSafeInteger ∨ work.action = .other then
        throw .invalidDescriptor
      else do
        let _ ← check (part work.token)
        pure (.inr { work with intent := intent })

/-- The `catch` while nothing is owned. -/
def unowned : Fault → Job (Result ⊕ Lease)
  | .publication code =>
      if code ≠ deadlineCode then throw (.publication code) else pure (.inl .pending)
  | .other => pure (.inl .pending)

/-- The `catch` of a worker that owns a lease. -/
def recover (owned : Lease) : Job Result := do
  let stopped ← aborted
  if stopped then pure .pending
  else
    tryCatch
      (do
        let _ ← coordinator.record owned (openState owned)
          "core.file.publication.outcome-unknown"
        pure .pending)
      fun _ => pure .pending

def run (intentId : JsString) : Job Result := do
  let _ ← check (part intentId)
  let now ← clock
  let claimed ← tryCatch (coordinator.claimWork intentId now) unowned
  match claimed with
  | .inl result => pure result
  | .inr owned => tryCatch (coordinator.work owned) fun _ => coordinator.recover owned

end Coordinator

end SdcoreNest.Publication
