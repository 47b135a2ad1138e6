/-
# UploadedFile.FaultFree -- direct uploads when nothing goes wrong

A client initiates an upload, stores the declared bytes through the target it was given and
completes.  Nothing throws and nobody else acts.  Initiation, the upload target, what a HEAD
request reports and the verification agree field by field, with one exception: the local
driver reports no checksum, so an upload that declares one is never verified.
-/
import SdcoreNest.UploadedFile.Sweeps
import SdcoreNest.UploadedFile.UploadSecurity

namespace SdcoreNest.UploadedFile

open SdcoreNest.Theory
open SdcoreNest.Theory.Program

set_option autoImplicit false

/-! ## Runs without faults, on the world alone -/

/-- The result of a request and the world it leaves. -/
def effect (deployment : Deployment) (worker : Worker) {α : Type} (body : Service α) (world : World) :
    Except ServiceError α × World :=
  run (fun (world : World) call =>
    (some (exec deployment world worker call).1, (exec deployment world worker call).2)) body.run world

section

variable {deployment : Deployment} {worker : Worker} {world : World} {α β : Type}

theorem run_working (p : Program sig α) (solo : Solo) :
    (run (serve deployment worker .working) p solo).1 =
        (run (fun (world : World) call =>
          (some (exec deployment world worker call).1, (exec deployment world worker call).2)) p
          solo.world).1 ∧
      (run (serve deployment worker .working) p solo).2.world =
        (run (fun (world : World) call =>
          (some (exec deployment world worker call).1, (exec deployment world worker call).2)) p
          solo.world).2 := by
  induction p generalizing solo with
  | done value => exact ⟨rfl, rfl⟩
  | ask call next ih => exact ih _ ⟨_, _⟩

/-- The log does not matter where nothing throws. -/
theorem runAlone_effect (body : Service α) (solo : Solo) :
    (runAlone deployment worker .working body solo).1 = (effect deployment worker body solo.world).1 ∧
      (runAlone deployment worker .working body solo).2.world =
        (effect deployment worker body solo.world).2 := run_working body.run solo

@[simp] theorem effect_pure (value : α) :
    effect deployment worker (pure value : Service α) world = (.ok value, world) := rfl

@[simp] theorem effect_throw (error : ServiceError) :
    effect deployment worker (throw error : Service α) world = (.error error, world) := rfl

theorem effect_bind (body : Service α) (next : α → Service β) :
    effect deployment worker (body >>= next) world =
      andThen (effect deployment worker body world) fun value world' =>
        effect deployment worker (next value) world' := run_seq body next world

theorem effect_tryCatch (body : Service α) (handler : ServiceError → Service α) :
    effect deployment worker (tryCatch body handler) world =
      orHandle (effect deployment worker body world) fun error world' =>
        effect deployment worker (handler error) world' := run_tryCatch body handler world

@[simp] theorem effect_ask (call : Call) :
    effect deployment worker (ask call) world =
      (.ok (exec deployment world worker call).1, (exec deployment world worker call).2) := rfl

@[simp] theorem effect_check_bind (result : Except ServiceError α) (next : α → Service β) :
    effect deployment worker (check result >>= next) world =
      andThen (result, world) fun value world' => effect deployment worker (next value) world' :=
  effect_bind (check result) next

@[simp] theorem effect_ask_bind (call : Call) (next : call.Answer → Service β) :
    effect deployment worker (ask call >>= next) world =
      effect deployment worker (next (exec deployment world worker call).1)
        (exec deployment world worker call).2 := effect_bind (ask call) next

theorem effect_now (next : Int → Service β) :
    effect deployment worker (ask .now >>= next) world =
      effect deployment worker (next (world.clock (.process worker.process))) world :=
  effect_bind (ask .now) next

@[simp] theorem effect_tryAsk_bind (call : Call) (next : Option call.Answer → Service β) :
    effect deployment worker (tryAsk call >>= next) world =
      effect deployment worker (next (some (exec deployment world worker call).1))
        (exec deployment world worker call).2 := effect_bind (tryAsk call) next

end

/-! ## The upload -/

/-- The checks of the configuration are those of `upload-security.ts`. -/
structure Config.Standard (config : Config) (toLowerCase : String → String) (validateMagicBytes : Bool)
    (validatePracticalSignature : Bytes → String → Bool) : Prop where
  lowerCase : config.lowerCase = toLowerCase
  essence : config.essence = mimeEssence toLowerCase
  metadata : config.validateUploadMetadata = UploadedFile.validateUploadMetadata toLowerCase
  buffer : config.validateUploadBuffer =
    UploadedFile.validateUploadBuffer toLowerCase validateMagicBytes validatePracticalSignature

/-- The id drawn next is new: no object carries it. -/
def World.FreshId (world : World) : Prop :=
  ∀ key : StorageKey, key.id = world.nextId → world.objects key = none

/-- `initiateTemporaryUpload` or `initiateUpload`. -/
def initiating (config : Config) (caller : Caller) (temporary : Bool) (input : InitiateInput) :
    Service InitiateResult :=
  if temporary then initiateTemporaryUpload config caller input else initiateUpload config caller input

/-- The object that the PUT of an upload target stores. -/
def UploadTarget.object (target : UploadTarget) (bytes : Bytes) : StoredObject where
  body := bytes
  contentType := some target.contentType
  checksum := target.checksum
  uploadId := target.uploadId
  metadataChecksum := target.checksum

/-- The client sends the bytes to the target after some time, and later the upload is completed. -/
def finishing (config : Config) (caller : Caller) (worker : Worker) (result : InitiateResult)
    (bytes : Bytes) (sent waited : Nat) (world : World) :
    Option (Except ServiceError FileResult × Solo) :=
  match config.driver with
  | .s3 => do
      let world ← move config.toDeployment world (.advance sent)
      let world ← move config.toDeployment world
        (.clientPut result.target.key (result.target.object bytes))
      let world ← move config.toDeployment world (.advance waited)
      return runAlone config.toDeployment worker .working
        (completeUpload config caller (some result.id)) ⟨world, []⟩
  | .localDisk => do
      let world ← move config.toDeployment world (.advance (sent + waited))
      return runAlone config.toDeployment worker .working
        (putUploadContent config caller (some result.id) bytes) ⟨world, []⟩

/-- The ready result came back, and the final object holds the bytes. -/
def Completes (result : InitiateResult) (bytes : Bytes)
    (ran : Except ServiceError FileResult × World) : Prop :=
  ∃ file, ran.1 = .ok file ∧ file.id = result.id ∧ file.status = .ready ∧
    (ran.2.objects file.key).map StoredObject.body = some bytes

/-! ## What initiation leaves behind -/

/-- A new row, its target and no objects. -/
structure Initiated (config : Config) (scope : Scope) (input : InitiateInput) (result : InitiateResult)
    (file : Validated) (row : Row) (world : World) : Prop where
  member : row ∈ world.table
  id : row.id = result.id
  covered : ∀ decision, (Access.mk decision scope).covers row = true
  status : row.status = .pending
  untouched : row.deletedAt = none ∧ row.deletionPendingAt = none
  pendingKey : row.pendingKey = some result.target.key
  uploadExpiredAt : row.uploadExpiredAt = some result.expiredAt
  apart : row.key ≠ result.target.key
  absent : world.objects row.key = none ∧ world.objects result.target.key = none
  accepted : config.validateUploadMetadata input.originalName input.contentType input.size
    ⟨config.allowedMimeTypes, config.maxFileSizeBytes⟩ = some file
  declared : row.fileName = file.originalName ∧ row.contentType = some file.contentType ∧
    row.sizeBytes = some file.size
  checksum : row.checksum = none ↔ input.checksum = none
  target : config.driver = .s3 → result.target = ⟨result.target.url, result.target.key,
    file.contentType, some row.id, row.checksum⟩ ∧ result.target.key ∈ world.issued

theorem of_effect_check {deployment : Deployment} {worker : Worker} {world world' : World} {α β : Type}
    {checked : Except ServiceError α} {next : α → Service β} {value : β}
    (ran : effect deployment worker (check checked >>= next) world = (.ok value, world')) :
    ∃ passed, checked = .ok passed ∧ effect deployment worker (next passed) world = (.ok value, world') := by
  rw [effect_check_bind] at ran
  cases checked with
  | error error => cases ran
  | ok passed => exact ⟨passed, rfl, ran⟩

theorem of_authorize {caller : Caller} {operation : Operation} {ids : List Uuid} {access : Access}
    (granted : authorize caller operation ids = .ok access) : caller.scope = some access.scope := by
  unfold authorize at granted
  cases scope : caller.scope with
  | none => rw [scope] at granted; cases granted
  | some own =>
      rw [scope] at granted
      cases decided : caller.policy operation ids [] with
      | none => rw [decided] at granted; cases granted
      | some decision =>
          rw [decided] at granted
          cases granted
          rfl

theorem initiating_eq (config : Config) (caller : Caller) (temporary : Bool) (input : InitiateInput) :
    initiating config caller temporary input = initiateManagedUpload config caller input
      { temporary := temporary, visibility := some .privateFile } := by
  cases temporary <;> rfl

theorem initiated_of_effect {config : Config} {caller : Caller} {worker : Worker} {temporary : Bool}
    {input : InitiateInput} {result : InitiateResult} {world world' : World} (fresh : world.FreshId)
    (ran : effect config.toDeployment worker (initiating config caller temporary input) world =
      (.ok result, world')) :
    ∃ scope file row, caller.scope = some scope ∧ Initiated config scope input result file row world' := by
  rw [initiating_eq] at ran
  unfold initiateManagedUpload at ran
  obtain ⟨access, granted, ran⟩ := of_effect_check ran
  obtain ⟨_, -, ran⟩ := of_effect_check ran
  obtain ⟨limits, bounded, ran⟩ := of_effect_check ran
  obtain ⟨file, accepted, ran⟩ := of_effect_check ran
  obtain ⟨visibility, shown, ran⟩ := of_effect_check ran
  obtain ⟨metadata, -, ran⟩ := of_effect_check ran
  obtain ⟨checksum, normalized, ran⟩ := of_effect_check ran
  have own := of_authorize granted
  cases bounded
  have shown : visibility = .privateFile := by
    cases temporary <;> cases shown <;> rfl
  subst shown
  have accepted : config.validateUploadMetadata input.originalName input.contentType input.size
      ⟨config.allowedMimeTypes, config.maxFileSizeBytes⟩ = some file := by
    unfold validated at accepted
    split at accepted
    next found => rw [found, Except.ok.inj accepted]
    next => cases accepted
  have declared : checksum = none ↔ input.checksum = none := by
    unfold normalizedChecksum at normalized
    split at normalized
    next given => simpa [given] using (Except.ok.inj normalized).symm
    next text given =>
      split at normalized
      next value _ => simp [given, ← Except.ok.inj normalized]
      next => cases normalized
  rw [effect_ask_bind, effect_ask_bind, effect_tryAsk_bind] at ran
  have apart : ∀ space name, space ≠ .pending →
      (⟨space, access.scope.tenantCode, world.nextId, name⟩ : StorageKey) ≠
        buildStorageKeyForId config access.scope.tenantCode world.nextId file.originalName .pending := by
    intro space name other same
    exact other (congrArg StorageKey.space same)
  have elsewhere : managedNamespace temporary .privateFile ≠ .pending := by
    cases temporary <;> exact Namespace.noConfusion
  have covered : ∀ decision, (Access.mk decision access.scope).covers
      (managedRow config access file .privateFile .attachment metadata checksum temporary world.nextId
        (world.clock (.process worker.process))) = true := by
    intro decision
    refine Access.covers_of_owns ?_
    simp [Access.owns, managedRow]
  refine ⟨access.scope, file, World.stamped world (managedRow config access file .privateFile .attachment
    metadata checksum temporary world.nextId (world.clock (.process worker.process))), own, ?_⟩
  simp only [createUploadUrl] at ran
  cases kind : config.driver with
  | localDisk =>
      simp only [kind] at ran
      cases ran
      exact ⟨Keyed.mem_save.mpr (.inl rfl), rfl, covered, rfl, ⟨rfl, rfl⟩, rfl, rfl,
        apart _ _ elsewhere, ⟨fresh _ rfl, fresh _ rfl⟩, accepted, ⟨rfl, rfl, rfl⟩,
        declared, fun wrong => by rw [kind] at wrong; cases wrong⟩
  | s3 =>
      simp only [kind] at ran
      cases ran
      exact ⟨Keyed.mem_save.mpr (.inl rfl), rfl, covered, rfl, ⟨rfl, rfl⟩, rfl, rfl,
        apart _ _ elsewhere, ⟨fresh _ rfl, fresh _ rfl⟩, accepted, ⟨rfl, rfl, rfl⟩,
        declared, fun _ => ⟨rfl, List.mem_cons_self⟩⟩

/-! ## Completion -/

section

variable {config : Config} {worker : Worker} {world : World} {row : Row} {access : Access}

theorem effect_findLifecycle {caller : Caller} {scope : Scope} {decision : Decision}
    (own : caller.scope = some scope) (granted : caller.policy .complete [row.id] [] = some decision)
    (member : row ∈ world.table) (covered : (Access.mk decision scope).covers row = true)
    (untouched : row.deletedAt = none ∧ row.deletionPendingAt = none) :
    effect config.toDeployment worker (findLifecycleAuthorized caller (some row.id) .complete) world =
      (.ok (⟨decision, scope⟩, row), world) := by
  have access : authorize caller .complete [row.id] = .ok ⟨decision, scope⟩ := by
    unfold authorize
    rw [own]
    simp only [granted]
  have found : (exec config.toDeployment world worker
      (.findOne (.lifecycle ⟨decision, scope⟩ row.id))).1 = some row := by
    change (List.filter _ world.table.rows).head? = some row
    rw [List.head?_filter]
    cases first : world.table.rows.find?
        (Query.chosen config.keyText (.lifecycle ⟨decision, scope⟩ row.id)) with
    | none =>
        have missed := List.find?_eq_none.mp first row member
        exact absurd (Access.lifecycleWhere_eq_true.mpr ⟨rfl, covered, untouched⟩) missed
    | some other =>
        have chosen := List.find?_some first
        have named := (Access.lifecycleWhere_eq_true.mp chosen).1
        rw [Keyed.eq_of_key (List.mem_of_find?_eq_some first) member named]
  unfold findLifecycleAuthorized
  rw [effect_check_bind]
  simp only [resourceId, andThen_ok]
  rw [effect_check_bind, access]
  simp only [andThen_ok]
  rw [effect_ask_bind, found]
  rfl

theorem effect_expired {pendingKey : StorageKey} {expiredAt : Int} (status : row.status = .pending)
    (staged : row.pendingKey = some pendingKey) (until_ : row.uploadExpiredAt = some expiredAt)
    (late : expiredAt ≤ world.clock (.process worker.process)) :
    effect config.toDeployment worker (completeManagedUpload config row access) world =
      (.error uploadExpired, world) := by
  unfold completeManagedUpload
  simp only [status, staged, until_]
  rw [effect_now, if_pos ⟨trivial, late⟩]
  rfl

theorem effect_unverified {pendingKey : StorageKey} {expiredAt : Int} {object : StoredObject}
    (status : row.status = .pending) (staged : row.pendingKey = some pendingKey)
    (until_ : row.uploadExpiredAt = some expiredAt)
    (inTime : world.clock (.process worker.process) < expiredAt)
    (stored : world.objects pendingKey = some object)
    (differs : metadataMatches config row (some (object.head config.driver)) = false) :
    effect config.toDeployment worker (completeManagedUpload config row access) world =
      (.error (verificationFailed "Uploaded object failed verification"), world) := by
  unfold completeManagedUpload
  simp only [status, staged, until_]
  rw [effect_now, if_neg (by rintro ⟨-, late⟩; exact absurd inTime (not_lt.mpr late)), effect_tryAsk_bind]
  simp only [exec, stored, Option.map_some, differs]
  rfl

theorem effect_promoteObject {source destination : StorageKey} {object : StoredObject}
    (stored : world.objects source = some object) (absent : world.objects destination = none)
    (apart : destination ≠ source) :
    ∃ world', effect config.toDeployment worker
        (promoteObject config source destination (object.head config.driver).etag) world =
          (.ok (), world') ∧
      SameRecords world world' ∧ world'.objects destination = some object := by
  unfold promoteObject
  cases kind : config.driver with
  | s3 =>
      have copied : exec config.toDeployment world worker
          (.copyObject source destination (object.head .s3).etag) =
            (true, world.setObjects (world.objects.put destination object)) := by
        simp [exec, stored, StoredObject.head]
      simp only []
      rw [effect_ask_bind, copied]
      exact ⟨_, rfl, ⟨rfl, rfl, rfl⟩, Objects.put_self _ _ _⟩
  | localDisk =>
      have linked : exec config.toDeployment world worker (.link source destination) =
          (true, world.setObjects (world.objects.put destination object)) := by
        simp only [exec, stored, absent]
      have unlinked : exec config.toDeployment (world.setObjects (world.objects.put destination object))
          worker (.unlink source) = (true, world.setObjects
            ((world.objects.put destination object).remove source)) := by
        simp only [exec, World.setObjects, Objects.put_of_ne _ _ apart.symm, stored]
      simp only []
      rw [effect_ask_bind, linked, if_pos rfl, effect_ask_bind, unlinked]
      refine ⟨_, rfl, ⟨rfl, rfl, rfl⟩, ?_⟩
      exact (Objects.remove_of_ne _ apart).trans (Objects.put_self _ _ _)

/-- The final object is a copy of the staged one, made now or before. -/
theorem effect_promotedObject {pendingKey : StorageKey} {object : StoredObject}
    (stored : world.objects pendingKey = some object)
    (final : world.objects row.key = none ∨ world.objects row.key = some object)
    (apart : row.key ≠ pendingKey) :
    ∃ world', effect config.toDeployment worker
        (promotedObject config row pendingKey (object.head config.driver).etag) world =
          (.ok (some (object.head config.driver)), world') ∧
      SameRecords world world' ∧ world'.objects row.key = some object := by
  rcases final with absent | present
  · obtain ⟨world', promoted, same, there⟩ :=
      @effect_promoteObject config worker world pendingKey row.key object stored absent apart
    refine ⟨world', ?_, same, there⟩
    unfold promotedObject
    rw [effect_ask_bind]
    simp only [exec, absent, Option.map_none]
    have found : exec config.toDeployment world' worker (.headObject row.key) =
        (some (object.head config.driver), world') := by
      simp only [exec, there, Option.map_some]
    rw [effect_bind, promoted, andThen_ok]
    exact (effect_ask (.headObject row.key)).trans (by rw [found])
  · refine ⟨world, ?_, ⟨rfl, rfl, rfl⟩, present⟩
    unfold promotedObject
    rw [effect_ask_bind]
    simp only [exec, present, Option.map_some]
    rfl

/-- A row that may be shown resolves. -/
theorem effect_unexpired
    (unexpired : assertReadyAndUnexpired row (world.clock (.process worker.process)) = .ok ()) :
    ∃ file world', effect config.toDeployment worker (toUploadedFileResult config row) world =
        (.ok file, world') ∧ file.id = row.id ∧ file.status = .ready ∧ file.key = row.key ∧
      world'.objects = world.objects := by
  have ready : row.status = .ready := by
    by_contra other
    rw [assertReadyAndUnexpired, if_pos other] at unexpired
    cases unexpired
  have resolved : ∃ url, effect config.toDeployment worker (resolveRowUrl config row) world =
      (.ok url, world) := by
    unfold resolveRowUrl
    rw [effect_now, effect_check_bind, unexpired]
    simp only [andThen_ok]
    split
    · exact ⟨_, rfl⟩
    · split
      · exact ⟨_, rfl⟩
      · split
        · exact ⟨_, rfl⟩
        · rw [effect_tryAsk_bind]
          exact ⟨_, rfl⟩
  obtain ⟨url, resolved⟩ := resolved
  unfold toUploadedFileResult
  rw [effect_bind, resolved]
  exact ⟨uploadedFileResult config row url, world, rfl, rfl, ready, rfl, rfl⟩

/-- A ready row resolves: a temporary file has just begun its lifetime. -/
theorem effect_toUploadedFileResult (ready : row.status = .ready)
    (lives : row.isTemporary = true → ∃ expiredAt, row.expiredAt = some expiredAt ∧
      world.clock (.process worker.process) < expiredAt) :
    ∃ file world', effect config.toDeployment worker (toUploadedFileResult config row) world =
        (.ok file, world') ∧ file.id = row.id ∧ file.status = .ready ∧ file.key = row.key ∧
      world'.objects = world.objects := by
  apply effect_unexpired
  unfold assertReadyAndUnexpired
  rw [if_neg (by simp [ready]), if_neg]
  rintro ⟨temporary, late⟩
  obtain ⟨expiredAt, given, later⟩ := lives temporary
  obtain ⟨moment, same, passed⟩ := notAfter_eq_true.mp late
  rw [given] at same
  cases same
  omega

/-- The row under its lease is made ready. -/
theorem effect_finalizeCompletion {marker : Int} {final : ObjectMetadata} (member : row ∈ world.table)
    (covered : access.covers row = true)
    (untouched : row.deletedAt = none ∧ row.deletionPendingAt = none)
    (status : row.status = .completing) (leased : row.uploadPendingAt = some marker) :
    ∃ file world', effect config.toDeployment worker
        (finalizeCompletion config row access marker final) world = (.ok file, world') ∧
      file.id = row.id ∧ file.status = .ready ∧ file.key = row.key ∧ world'.objects = world.objects := by
  unfold finalizeCompletion
  rw [effect_now]
  simp only []
  rw [effect_tryAsk_bind]
  have updated : ∀ completedAt checksum dropPendingKey, exec config.toDeployment world worker
      (.update (.finalizeCompletion row access marker completedAt final.etag checksum dropPendingKey)) =
      (1, world.apply (.finalizeCompletion row access marker completedAt final.etag checksum
        dropPendingKey)) := by
    intro completedAt checksum dropPendingKey
    refine Prod.ext (@Names.affected world _ row (fun other inside => ?_) member) rfl
    simp only [Statement.chosen, Bool.and_eq_true, decide_eq_true_eq, Access.lifecycleWhere_eq_true]
    constructor
    · exact fun chosen => chosen.1.1.1
    · intro named
      obtain rfl := Keyed.eq_of_key inside member named
      exact ⟨⟨⟨rfl, covered, untouched⟩, status⟩, leased⟩
  rw [updated]
  simp only [if_true]
  refine effect_toUploadedFileResult rfl ?_
  intro temporary
  refine ⟨world.clock (.process worker.process) + temporaryFileLifetimeMs, if_pos temporary, ?_⟩
  exact Int.lt_add_of_pos_right _ (by decide)

/-- The steps under the lease: the staged object becomes the final one. -/
theorem effect_completeUnderLease {marker : Int} {pendingKey : StorageKey} {object : StoredObject}
    (member : row ∈ world.table) (covered : access.covers row = true)
    (untouched : row.deletedAt = none ∧ row.deletionPendingAt = none)
    (status : row.status = .completing) (leased : row.uploadPendingAt = some marker)
    (stored : world.objects pendingKey = some object)
    (final : world.objects row.key = none ∨ world.objects row.key = some object)
    (apart : row.key ≠ pendingKey)
    (matching : metadataMatches config row (some (object.head config.driver)) = true) :
    ∃ file world', effect config.toDeployment worker (completeUnderLease config row access marker
        pendingKey (object.head config.driver).etag) world = (.ok file, world') ∧
      file.id = row.id ∧ file.status = .ready ∧ file.key = row.key ∧
      world'.objects row.key = some object := by
  obtain ⟨between, promoted, same, there⟩ :=
    @effect_promotedObject config worker world row pendingKey object stored final apart
  unfold completeUnderLease
  rw [effect_bind, effect_tryCatch, promoted]
  simp only [orHandle_ok, andThen_ok, matching, if_true]
  cases kind : config.driver with
  | s3 =>
      simp only []
      obtain ⟨file, world', ran, id, ready, key, objects⟩ :=
        @effect_finalizeCompletion config worker between row access marker (object.head .s3)
          (same.table ▸ member) covered untouched status leased
      exact ⟨file, world', ran, id, ready, key, objects ▸ there⟩
  | localDisk =>
      simp only []
      rw [effect_tryAsk_bind]
      obtain ⟨file, world', ran, id, ready, key, objects⟩ :=
        @effect_finalizeCompletion config worker
          (between.setObjects (between.objects.remove pendingKey)) row access marker
          (object.head .localDisk) (same.table ▸ member) covered untouched status leased
      refine ⟨file, world', ran, id, ready, key, ?_⟩
      rw [objects]
      exact (Objects.remove_of_ne _ apart).trans there

/-- A verified upload is completed. -/
theorem effect_verified {pendingKey : StorageKey} {expiredAt : Int} {object : StoredObject}
    (member : row ∈ world.table) (covered : access.covers row = true)
    (untouched : row.deletedAt = none ∧ row.deletionPendingAt = none)
    (status : row.status = .pending) (staged : row.pendingKey = some pendingKey)
    (until_ : row.uploadExpiredAt = some expiredAt)
    (inTime : world.clock (.process worker.process) < expiredAt)
    (stored : world.objects pendingKey = some object) (absent : world.objects row.key = none)
    (apart : row.key ≠ pendingKey)
    (matching : metadataMatches config row (some (object.head config.driver)) = true) :
    ∃ file world', effect config.toDeployment worker (completeManagedUpload config row access) world =
        (.ok file, world') ∧
      file.id = row.id ∧ file.status = .ready ∧ file.key = row.key ∧
      world'.objects row.key = some object := by
  have names : ∀ marker etag, Names (.claimCompletion row access marker etag) row world := by
    intro marker etag other inside
    simp only [Statement.chosen, Bool.and_eq_true, decide_eq_true_eq, Access.lifecycleWhere_eq_true]
    constructor
    · exact fun chosen => chosen.1.1.1
    · intro named
      obtain rfl := Keyed.eq_of_key inside member named
      exact ⟨⟨⟨rfl, covered, untouched⟩, status⟩, rfl⟩
  have claimed : ∀ marker etag, exec config.toDeployment world worker
      (.update (.claimCompletion row access marker etag)) =
        (1, world.apply (.claimCompletion row access marker etag)) := fun marker etag =>
    Prod.ext ((names marker etag).affected member) rfl
  unfold completeManagedUpload
  simp only [status, staged, until_]
  rw [effect_now, if_neg (by rintro ⟨-, late⟩; exact absurd inTime (not_lt.mpr late)), effect_tryAsk_bind]
  simp only [exec, stored, Option.map_some, matching, if_true]
  unfold claimCompletionLease claimPendingCompletion
  simp only [status, if_true]
  rw [effect_bind, effect_ask_bind, claimed, if_pos rfl, effect_pure, andThen_ok]
  exact effect_completeUnderLease (((names _ _).replaced member).mem member) covered untouched rfl rfl
    stored (.inl absent) apart matching

/-- An object was stored under the staging key of a new upload. -/
structure Deposited (row : Row) (pendingKey : StorageKey) (object : StoredObject) (world : World) :
    Prop where
  member : row ∈ world.table
  stored : world.objects pendingKey = some object
  absent : world.objects row.key = none

theorem effect_completeUpload_iff {caller : Caller} {scope : Scope} {input : InitiateInput}
    {result : InitiateResult} {file : Validated} {first : World} {object : StoredObject}
    (initiated : Initiated config scope input result file row first) (own : caller.scope = some scope)
    {decision : Decision} (granted : caller.policy .complete [result.id] [] = some decision)
    (deposited : Deposited row result.target.key object world) :
    Completes result object.body
        (effect config.toDeployment worker (completeUpload config caller (some result.id)) world) ↔
      world.clock (.process worker.process) < result.expiredAt ∧
        metadataMatches config row (some (object.head config.driver)) = true := by
  have found := @effect_findLifecycle config worker world row caller scope decision own
    (by rw [initiated.id]; exact granted) deposited.member (initiated.covered decision) initiated.untouched
  have steps : effect config.toDeployment worker (completeUpload config caller (some result.id)) world =
      effect config.toDeployment worker (completeManagedUpload config row ⟨decision, scope⟩) world := by
    unfold completeUpload
    rw [← initiated.id, effect_bind, found]
    rfl
  rw [steps]
  by_cases inTime : world.clock (.process worker.process) < result.expiredAt
  · cases matching : metadataMatches config row (some (object.head config.driver)) with
    | false =>
        rw [effect_unverified initiated.status initiated.pendingKey initiated.uploadExpiredAt inTime
          deposited.stored matching]
        refine ⟨?_, ?_⟩
        · rintro ⟨_, failed, _⟩
          cases failed
        · rintro ⟨_, wrong⟩
          cases wrong
    | true =>
        obtain ⟨file', world', ran, id, ready, key, there⟩ :=
          @effect_verified config worker world row ⟨decision, scope⟩ _ _ object deposited.member (initiated.covered decision)
            initiated.untouched initiated.status initiated.pendingKey initiated.uploadExpiredAt inTime
            deposited.stored deposited.absent initiated.apart matching
        rw [ran]
        refine ⟨fun _ => ⟨inTime, rfl⟩, fun _ => ⟨file', rfl, id.trans initiated.id, ready, ?_⟩⟩
        rw [key, there]
        rfl
  · rw [effect_expired initiated.status initiated.pendingKey initiated.uploadExpiredAt (not_lt.mp inTime)]
    refine ⟨?_, fun both => absurd both.1 inTime⟩
    rintro ⟨_, failed, _⟩
    cases failed

end

/-! ## The verification, by driver -/

section

variable {config : Config} {toLowerCase : String → String} {validateMagicBytes : Bool}
  {validatePracticalSignature : Bytes → String → Bool} {scope : Scope} {input : InitiateInput}
  {result : InitiateResult} {file : Validated} {row : Row} {world : World} {bytes : Bytes}

/-- S3 reports what the target's headers said. -/
theorem metadataMatches_s3 (lower : LowerCases toLowerCase)
    (standard : config.Standard toLowerCase validateMagicBytes validatePracticalSignature)
    (initiated : Initiated config scope input result file row world) (kind : config.driver = .s3)
    (sized : bytes.length = input.size) :
    metadataMatches config row (some ((result.target.object bytes).head .s3)) = true := by
  obtain ⟨size, -, extension, tabled⟩ :=
    of_validateUploadMetadata (standard.metadata ▸ initiated.accepted)
  obtain ⟨lowered, essence⟩ := tabled_type lower tabled
  obtain ⟨-, type, declared⟩ := initiated.declared
  rw [(initiated.target kind).1]
  simp only [metadataMatches, UploadTarget.object, StoredObject.head, kind, type, declared, size, sized,
    Option.map_some, standard.essence, standard.lowerCase, lowered, essence]
  cases row.checksum <;> simp

/-- The local driver reports the size alone. -/
theorem metadataMatches_local
    (standard : config.Standard toLowerCase validateMagicBytes validatePracticalSignature)
    (initiated : Initiated config scope input result file row world) (kind : config.driver = .localDisk)
    (sized : bytes.length = input.size) :
    metadataMatches config row (some (StoredObject.head .localDisk { body := bytes })) = true ↔
      input.checksum = none := by
  obtain ⟨size, -⟩ := of_validateUploadMetadata (standard.metadata ▸ initiated.accepted)
  obtain ⟨-, -, declared⟩ := initiated.declared
  rw [← initiated.checksum]
  simp only [metadataMatches, StoredObject.head, kind, declared, size, sized, Option.map_none]
  cases row.checksum <;> simp

end

/-! ## Direct uploads complete -/

section

variable {config : Config} {toLowerCase : String → String} {validateMagicBytes : Bool}
  {validatePracticalSignature : Bytes → String → Bool} {caller : Caller} {scope : Scope}
  {input : InitiateInput} {result : InitiateResult} {file : Validated} {row : Row} {world : World}
  {bytes : Bytes} {decision : Decision} {worker : Worker}

theorem effect_putUploadContent_iff (lower : LowerCases toLowerCase)
    (standard : config.Standard toLowerCase validateMagicBytes validatePracticalSignature)
    {first : World} (initiated : Initiated config scope input result file row first)
    (kind : config.driver = .localDisk) (own : caller.scope = some scope)
    (granted : caller.policy .complete [result.id] [] = some decision)
    (sized : bytes.length = input.size)
    (valid : validContent validateMagicBytes validatePracticalSignature bytes
      (mimeEssence toLowerCase input.contentType) = true)
    (member : row ∈ world.table) (same : world.objects = first.objects) :
    Completes result bytes
        (effect config.toDeployment worker (putUploadContent config caller (some result.id) bytes) world) ↔
      world.clock (.process worker.process) < result.expiredAt ∧ input.checksum = none := by
  have accepted := standard.metadata ▸ initiated.accepted
  obtain ⟨size, type, -⟩ := of_validateUploadMetadata accepted
  obtain ⟨named, typed, declared⟩ := initiated.declared
  have found := @effect_findLifecycle config worker world row caller scope decision own
    (by rw [initiated.id]; exact granted) member (initiated.covered decision) initiated.untouched
  have checked : config.validateUploadBuffer bytes (some row.fileName) row.contentType
      ⟨config.allowedMimeTypes, row.sizeBytes.getD config.maxFileSizeBytes⟩ = some file := by
    rw [standard.buffer, named, typed, declared, Option.getD_some, size]
    exact validateUploadBuffer_accepts lower accepted sized (type ▸ valid)
  have put : exec config.toDeployment world worker (.putObject result.target.key { body := bytes }) =
      (true, world.setObjects (world.objects.put result.target.key { body := bytes })) := by
    simp only [exec, same, initiated.absent.2]
  have deposited : Deposited row result.target.key { body := bytes }
      (world.setObjects (world.objects.put result.target.key { body := bytes })) :=
    ⟨member, Objects.put_self _ _ _,
      (Objects.put_of_ne _ _ initiated.apart).trans (same ▸ initiated.absent.1)⟩
  unfold putUploadContent
  rw [if_neg (by simp [kind]), ← initiated.id, effect_bind, found, andThen_ok, effect_now]
  simp only [initiated.status, initiated.pendingKey, initiated.uploadExpiredAt, checked]
  by_cases inTime : world.clock (.process worker.process) < result.expiredAt
  · rw [if_neg (not_le.mpr inTime), if_neg (by simp [declared, size, sized]), effect_tryAsk_bind, put,
      if_pos rfl, initiated.id, effect_completeUpload_iff initiated own granted deposited, kind,
      metadataMatches_local standard initiated kind sized]
    exact Iff.rfl
  · rw [if_pos (not_lt.mp inTime)]
    refine ⟨?_, fun both => absurd both.1 inTime⟩
    rintro ⟨_, failed, _⟩
    cases failed

/-- The upload of an initiated file, and its completion at a later time. -/
theorem direct_upload_completes_iff (lower : LowerCases toLowerCase)
    (standard : config.Standard toLowerCase validateMagicBytes validatePracticalSignature)
    {temporary : Bool} {solo solo' : Solo} (fresh : solo.world.FreshId)
    (initiated : runAlone config.toDeployment worker .working
      (initiating config caller temporary input) solo = (.ok result, solo'))
    (granted : caller.policy .complete [result.id] [] = some decision)
    (sized : bytes.length = input.size)
    (valid : validContent validateMagicBytes validatePracticalSignature bytes
      (mimeEssence toLowerCase input.contentType) = true)
    (finisher : Worker) (sent waited : Nat) :
    ∃ ran, finishing config caller finisher result bytes sent waited solo'.world = some ran ∧
      (Completes result bytes (ran.1, ran.2.world) ↔
        solo'.world.clock (.process finisher.process) + sent + waited < result.expiredAt ∧
          (config.driver = .s3 ∨ input.checksum = none)) := by
  have same := @runAlone_effect config.toDeployment worker _
    (initiating config caller temporary input) solo
  rw [initiated] at same
  obtain ⟨scope, file, row, own, initiated⟩ := initiated_of_effect fresh (Prod.ext same.1.symm same.2.symm)
  unfold finishing
  cases kind : config.driver with
  | s3 =>
      obtain ⟨headers, issued⟩ := initiated.target kind
      simp only [move, kind, issued, and_self, if_true, Option.bind_eq_bind, Option.bind_some]
      refine ⟨_, rfl, ?_⟩
      rw [(runAlone_effect _ _).1, (runAlone_effect _ _).2]
      refine (@effect_completeUpload_iff config finisher _ row caller scope input result file _
        (result.target.object bytes) initiated own decision granted ?_).trans ?_
      · exact ⟨initiated.member, Objects.put_self _ _ _,
          (Objects.put_of_ne _ _ initiated.apart).trans initiated.absent.1⟩
      rw [kind, metadataMatches_s3 lower standard initiated kind sized]
      simp [World.setObjects]
  | localDisk =>
      simp only [move, Option.bind_eq_bind, Option.bind_some]
      refine ⟨_, rfl, ?_⟩
      rw [(runAlone_effect _ _).1, (runAlone_effect _ _).2]
      refine (effect_putUploadContent_iff lower standard initiated kind own granted sized valid ?_ ?_).trans ?_
      · exact initiated.member
      · rfl
      simp only [Int.natCast_add, ← Int.add_assoc, reduceCtorEq, false_or]

end

/-- `toLowerCase` of ASCII text. -/
def asciiLowerCase (text : String) : String := String.ofList (text.toList.map Char.toLower)

theorem toLower_of_not_upper {c : Char} (other : c.isUpper = false) : c.toLower = c := by
  unfold Char.toLower
  rw [dif_neg]
  intro upper
  have isUpper : c.isUpper = true := by
    unfold Char.isUpper
    exact decide_eq_true upper
  rw [other] at isUpper
  cases isUpper

theorem isUpper_of_isBlank {c : Char} (blank : isBlank c = true) : c.isUpper = false := by
  by_contra upper
  have upper : c.isUpper = true := by simpa using upper
  unfold Char.isUpper at upper
  have upper := of_decide_eq_true upper
  have low : 65 ≤ c.toNat := UInt32.le_iff_toNat_le.mp upper.1
  have high : c.toNat ≤ 90 := UInt32.le_iff_toNat_le.mp upper.2
  simp only [isBlank, Bool.or_eq_true, Bool.and_eq_true, decide_eq_true_eq, beq_iff_eq] at blank
  omega

theorem asciiLowerCase_lowerCases : LowerCases asciiLowerCase := by
  refine ⟨?_, ?_⟩
  · intro text plain
    unfold asciiLowerCase
    rw [String.toList_ofList]
    refine congrArg String.ofList ((List.map_congr_left fun c inside => ?_).trans (List.map_id _))
    exact toLower_of_not_upper (plain c inside).2
  · intro text c blank
    simp [asciiLowerCase, toLower_of_not_upper (isUpper_of_isBlank blank)]

/-- `smallConfig` with the checks of `upload-security.ts`. -/
def checkedConfig (driver : Driver) : Config :=
  { smallConfig driver with
    lowerCase := asciiLowerCase
    essence := mimeEssence asciiLowerCase
    validateUploadMetadata := validateUploadMetadata asciiLowerCase
    validateUploadBuffer := validateUploadBuffer asciiLowerCase true fun _ _ => true }

/-- Three bytes of text are to be uploaded. -/
def smallUpload (driver : Driver) (checksum : Option String) : Except ServiceError InitiateResult × Solo :=
  runAlone (checkedConfig driver).toDeployment ⟨0, 0⟩ .working
    (initiating (checkedConfig driver) smallCaller true ⟨"a.txt", "text/plain", 3, checksum⟩)
    ⟨World.initial 0, []⟩

theorem direct_upload_completes_small : ∃ ran,
    finishing (checkedConfig .s3) smallCaller ⟨0, 0⟩
      ⟨0, ⟨"upload", ⟨.pending, "t", 0, "a.txt"⟩, "text/plain", some 0, some "digest"⟩, 3600000⟩
      [97, 98, 99] 5 5 (smallUpload .s3 (some "digest")).2.world = some ran ∧
    Completes ⟨0, ⟨"upload", ⟨.pending, "t", 0, "a.txt"⟩, "text/plain", some 0, some "digest"⟩, 3600000⟩
      [97, 98, 99] (ran.1, ran.2.world) := by
  obtain ⟨ran, finished, completes⟩ := direct_upload_completes_iff asciiLowerCase_lowerCases
    (⟨rfl, rfl, rfl, rfl⟩ : (checkedConfig .s3).Standard asciiLowerCase true fun _ _ => true)
    (fun _ _ => rfl) (Prod.ext rfl rfl : smallUpload .s3 (some "digest") = (.ok
      ⟨0, ⟨"upload", ⟨.pending, "t", 0, "a.txt"⟩, "text/plain", some 0, some "digest"⟩, 3600000⟩, _))
    rfl (rfl : ([97, 98, 99] : Bytes).length = 3) (by decide +kernel) ⟨0, 0⟩ 5 5
  exact ⟨ran, finished, completes.mpr ⟨by decide, .inl rfl⟩⟩

/-- The local driver stores what an upload with a checksum sends, and never completes it. -/
theorem local_checksum_never_completes : ∃ result ran,
    validContent true (fun _ _ => true) [97, 98, 99] "text/plain" = true ∧
    (smallUpload .localDisk (some "digest")).1 = .ok result ∧
    finishing (checkedConfig .localDisk) smallCaller ⟨0, 0⟩ result [97, 98, 99] 5 5
      (smallUpload .localDisk (some "digest")).2.world = some ran ∧
    (smallUpload .localDisk (some "digest")).2.world.clock (.process 0) + 5 + 5 < result.expiredAt ∧
    ¬Completes result [97, 98, 99] (ran.1, ran.2.world) := by
  refine ⟨_, _, by decide +kernel, rfl, rfl, by decide, ?_⟩
  rintro ⟨file, completed, -⟩
  have refused : Except.error (verificationFailed "Uploaded object failed verification") =
      Except.ok file := completed
  cases refused

end SdcoreNest.UploadedFile
