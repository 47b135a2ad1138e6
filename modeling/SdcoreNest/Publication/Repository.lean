/-
# Publication.Repository -- the reference repository and the system around it

`Repository` is the reference adapter of the conformance fixture: one row an intent, every
write of a worker fenced by id, descriptor hash, token and revision.  An assignment change is
one transaction that sets the current binding and runs `stage` or `retire` of the
coordinator; when the program throws, binding and rows are restored.

The system interleaves the port calls of any number of `run` and `project` calls with such
transactions.  What the storage answers, whether the next port call throws (with or without
having taken effect) and when a signal aborts is up to the environment; a call that a worker
gave up on may still take effect later.
-/
import SdcoreNest.Publication.RunOrder
import SdcoreNest.Theory.Interleaving
import SdcoreNest.Theory.Keyed

namespace SdcoreNest.Publication

open SdcoreNest.Theory

set_option autoImplicit false

structure Row where
  intent : Intent
  state : State
  token : Option JsString
  revision : Nat
  leaseUntil : JsNumber
  next : JsNumber
deriving DecidableEq

abbrev Row.id (row : Row) : JsString := row.intent.id

structure Repository where
  rows : Keyed JsString Row Row.id
  current : Option Binding

namespace Row

/-- `retireRow`. -/
def retireRow (row : Row) : Row :=
  { row with
    state := .retiring
    token := none
    revision := row.revision + 1
    next := .finite 0
    leaseUntil := .finite 0 }

def ownedBy (work : Lease) (row : Row) : Bool :=
  row.token = some work.token && .finite row.revision = work.revision &&
    row.intent.descriptorHash = work.intent.descriptorHash

/-- The row is neither final nor backed off nor under a live lease. -/
def due (now : JsNumber) (row : Row) : Bool :=
  !(row.state = .ready || row.state = .blocked || now.lt row.next ||
    (row.token.isSome && now.lt row.leaseUntil))

/-- What work a claim of the row is. -/
def action (row : Row) : Action :=
  if row.state = .retiring ∨ row.state = .retired then .retire else .publish

def claimed (row : Row) (token : JsString) (leaseUntil : JsNumber) : Row :=
  { row with
    token := some token
    revision := row.revision + 1
    leaseUntil := leaseUntil
    state := if row.action = .publish then .uncertain else row.state }

def lease (row : Row) (token : JsString) (leaseUntil : JsNumber) : Lease :=
  ⟨row.intent, token, .finite (row.revision + 1), leaseUntil, row.action⟩

def committed (row : Row) : Row :=
  { row with state := .ready, token := none, revision := row.revision + 1 }

def recorded (row : Row) (state : State) (nextAttemptAt : JsNumber) : Row :=
  { row with
    state := state
    next := nextAttemptAt
    token := none
    revision := row.revision + 1 }

end Row

namespace Repository

variable (repository : Repository)

def owned (work : Lease) : Option Row :=
  (repository.rows.get? work.intent.id).filter (Row.ownedBy work)

def save (row : Row) : Repository := { repository with rows := repository.rows.save row }

/-- Retire the rows that `chosen` picks. -/
def retireWhere (chosen : Row → Bool) : Repository :=
  { repository with rows := repository.rows.update chosen Row.retireRow fun _ => rfl }

def find (binding : Binding) : Option Row :=
  repository.rows.rows.find? fun row => row.intent.binding = binding

def stage (intent : Intent) : Except Fault Intent × Repository :=
  match repository.find intent.binding with
  | some old =>
      if old.intent.descriptorHash ≠ intent.descriptorHash then (.error .other, repository)
      else (.ok old.intent, repository)
  | none =>
      (.ok intent,
        (repository.retireWhere fun row =>
          row.intent.binding.logical = intent.binding.logical).save
          ⟨intent, .pending, none, 0, .finite 0, .finite 0⟩)

def retireLogicalBinding (binding : LogicalBinding) : Repository :=
  repository.retireWhere fun row => row.intent.binding.logical = binding

def retire (binding : Binding) : Repository :=
  repository.retireWhere fun row => row.intent.binding = binding

def claim (id token : JsString) (now leaseUntil : JsNumber) : Option Lease × Repository :=
  match repository.rows.get? id with
  | some row =>
      if row.due now then (some (row.lease token leaseUntil), repository.save (row.claimed token leaseUntil))
      else (none, repository)
  | none => (none, repository)

def isCurrent (work : Lease) : Bool :=
  (repository.owned work).isSome && repository.current = some work.intent.binding

def commitReady (clock : JsNumber) (work : Lease) (now : JsNumber) : Commitment × Repository :=
  match repository.owned work with
  | some row =>
      if row.leaseUntil.le now || row.leaseUntil.le clock then (.lost, repository)
      else if repository.current ≠ some work.intent.binding then (.stale, repository)
      else (.ready, repository.save row.committed)
  | none => (.lost, repository)

def record (work : Lease) (state : State) (nextAttemptAt : JsNumber) : Bool × Repository :=
  match repository.owned work with
  | some row => (true, repository.save (row.recorded state nextAttemptAt))
  | none => (false, repository)

def readCurrent (binding : Binding) : Option (Intent × State) :=
  if repository.current ≠ some binding then none
  else (repository.find binding).map fun row => (row.intent, row.state)

end Repository

/-! ## The world -/

/-- What the next port call meets: it throws, with or without having taken effect. -/
structure Mishap where
  fault : Fault
  effective : Bool
deriving DecidableEq

structure World where
  repository : Repository
  clock : Int
  nextId : Nat
  aborted : Worker → Bool
  observation : Observation
  acknowledgement : Acknowledgement
  mishap : Option Mishap

/-- A coordinator and the source of its ids. -/
structure Deployment where
  coordinator : Coordinator
  uuid : Nat → JsString

/-- The transaction that comes with an assignment change. -/
inductive Transaction where
  | stage (resolution : Resolution)
  | retire (binding : Binding)
deriving DecidableEq

inductive Move where
  | advance (ms : Nat)
  | abort (worker : Worker)
  | storage (observation : Observation) (acknowledgement : Acknowledgement)
  | mishap (mishap : Option Mishap)
  | withAssignment (binding : Option Binding) (transaction : Transaction)

namespace World

variable (world : World)

def now : JsNumber := .finite world.clock

def setRepository (repository : Repository) : World := { world with repository := repository }

/-- What a port answers and does when nothing goes wrong. -/
def serve : (port : Port) → port.Outcome × World
  | .resolve => (.error .other, world)
  | .stage intent =>
      ((world.repository.stage intent).1, world.setRepository (world.repository.stage intent).2)
  | .retireLogicalBinding binding =>
      (.ok (), world.setRepository (world.repository.retireLogicalBinding binding))
  | .retire binding => (.ok (), world.setRepository (world.repository.retire binding))
  | .claim id token now leaseUntil =>
      (.ok (world.repository.claim id token now leaseUntil).1,
        world.setRepository (world.repository.claim id token now leaseUntil).2)
  | .isCurrent work => (.ok (world.repository.isCurrent work), world)
  | .commitReady work now =>
      (.ok (world.repository.commitReady world.now work now).1,
        world.setRepository (world.repository.commitReady world.now work now).2)
  | .record work state _ nextAttemptAt =>
      (.ok (world.repository.record work state nextAttemptAt).1,
        world.setRepository (world.repository.record work state nextAttemptAt).2)
  | .readCurrent binding => (.ok (world.repository.readCurrent binding), world)
  | .inspect _ => (.ok world.observation, world)
  | .publish _ => (.ok world.acknowledgement, world)
  | .removeExact _ => (.ok world.acknowledgement, world)

/-- A port call under the mishap of the moment. -/
def call (port : Port) : port.Outcome × World :=
  match world.mishap with
  | none => world.serve port
  | some mishap => (.error mishap.fault, if mishap.effective then (world.serve port).2 else world)

end World

variable (deployment : Deployment)

def exec (world : World) (worker : Worker) : (call : Call) → call.Answer × World
  | .clock => (world.now, world)
  | .newId => (deployment.uuid world.nextId, { world with nextId := world.nextId + 1 })
  | .aborted => (world.aborted worker, world)
  | .call port => world.call port

/-- Inside a transaction: the policy resolves as given, nothing else interferes. -/
def handle (resolution : Resolution) (world : World) : (call : Call) → Option call.Answer × World
  | .clock => (some world.now, world)
  | .newId => (some (deployment.uuid world.nextId), { world with nextId := world.nextId + 1 })
  | .aborted => (some false, world)
  | .call .resolve => (some (.ok resolution), world)
  | .call port => (some (world.serve port).1, (world.serve port).2)

/-- The world after the program of a transaction, and whether it returned. -/
def transact (world : World) : Transaction → Bool × World
  | .stage resolution =>
      let ended := deployment.coordinator.stage.run.run (handle deployment resolution) world
      (match ended.1 with
        | .ok _ => true
        | .error _ => false, ended.2)
  | .retire binding =>
      let ended := (deployment.coordinator.retire binding).run.run
        (handle deployment (.other binding)) world
      (match ended.1 with
        | .ok _ => true
        | .error _ => false, ended.2)

/-- `withAssignment`: on an exception binding and rows are restored; drawn ids stay drawn. -/
def withAssignment (world : World) (binding : Option Binding) (transaction : Transaction) : World :=
  let assigned := world.setRepository { world.repository with current := binding }
  let ended := transact deployment assigned transaction
  if ended.1 then ended.2 else ended.2.setRepository world.repository

def move (world : World) : Move → Option World
  | .advance ms => some { world with clock := world.clock + ms }
  | .abort worker => some
      { world with aborted := fun other => if other = worker then true else world.aborted other }
  | .storage observation acknowledgement => some
      { world with observation := observation, acknowledgement := acknowledgement }
  | .mishap mishap => some { world with mishap := mishap }
  | .withAssignment binding transaction => some (withAssignment deployment world binding transaction)

/-- The calls that may still take effect after they were given up on. -/
def residue : Call → List Call
  | .call port => [.call port]
  | _ => []

abbrev machine : Machine sig where
  World := World
  Move := Move
  exec := exec deployment
  sure call := match call with
    | .call _ => false
    | _ => true
  residue := residue
  move := move deployment

/-! ## Requests -/

inductive Request where
  | run (intentId : JsString)
  | project (binding : Binding)

inductive Reply where
  | ran (result : Result)
  | projected (url : Option JsString) (state : Option State)
deriving DecidableEq

def launch : Request → Program sig (Except Fault Reply)
  | .run intentId =>
      (do let result ← deployment.coordinator.run intentId; pure (.ran result) : Job Reply).run
  | .project binding =>
      (do
        let projected ← deployment.coordinator.project binding
        pure (.projected projected.1 projected.2) : Job Reply).run

/-- An empty repository; nothing is assigned. -/
def World.initial (time : Int) : World where
  repository := ⟨.empty, none⟩
  clock := time
  nextId := 0
  aborted _ := false
  observation := .unknown
  acknowledgement := .unknown
  mishap := none

end SdcoreNest.Publication
