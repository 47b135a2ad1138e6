/-
# UploadedFile.Verification -- what a completion saw before it acted

A second conduct beside the discipline, about the completion of direct uploads and the
sweep of their staging keys: a completion is claimed for a version of the staging object
that was inspected and matched, copies that version only, and records the version of the
final object; a staging key is forgotten only after its upload URL ran out.
-/
import SdcoreNest.UploadedFile.Leases
import SdcoreNest.UploadedFile.Routine

namespace SdcoreNest.UploadedFile

open SdcoreNest.Theory
open SdcoreNest.Theory.Machine

set_option autoImplicit false

/-- The store reported this of the object under the key. -/
def Inspected (past : Past) (key : StorageKey) (metadata : ObjectMetadata) : Prop :=
  (⟨.headObject key, some (some metadata)⟩ : Step sig) ∈ past

/-- The worker was granted the completion of the file at `key` in version `etag`. -/
def Completing (past : Past) (key : StorageKey) (etag : Option Etag) : Prop :=
  ∃ snapshot access marker, snapshot.key = key ∧
    ((⟨.update (.claimCompletion snapshot access marker etag), some 1⟩ : Step sig) ∈ past ∨
      ∃ seen,
        (⟨.update (.reclaimCompletion snapshot access marker seen), some 1⟩ : Step sig) ∈ past ∧
        etag = (snapshot.etag <|> seen))

theorem Inspected.mono {past past' : Past} {key : StorageKey} {metadata : ObjectMetadata}
    (longer : past <:+ past') (held : Inspected past key metadata) :
    Inspected past' key metadata := longer.subset held

theorem Completing.mono {past past' : Past} {key : StorageKey} {etag : Option Etag}
    (longer : past <:+ past') (held : Completing past key etag) : Completing past' key etag := by
  obtain ⟨snapshot, access, marker, same, granted⟩ := held
  refine ⟨snapshot, access, marker, same, granted.imp (fun step => longer.subset step) ?_⟩
  rintro ⟨seen, step, version⟩
  exact ⟨seen, longer.subset step, version⟩

/-- What the worker saw before it issues a statement of a completion or of the sweep. -/
def Statement.Verified (config : Config) (past : Past) : Statement → Prop
  | .claimCompletion row _ _ etag => ∃ key metadata, row.pendingKey = some key ∧
      Inspected past key metadata ∧ metadataMatches config row (some metadata) = true ∧
      etag = metadata.etag
  | .finalizeCompletion row _ _ _ etag _ _ => ∃ metadata, Inspected past row.key metadata ∧
      etag = metadata.etag
  | .clearPendingKey row => ∃ time, ReadClock past time ∧ notAfter row.uploadExpiredAt time = true
  | _ => True

def verifying (config : Config) : Conduct sig where
  allows past call := match call with
    | .update statement => statement.Verified config past
    | .transact statement _ => statement.Verified config past
    | .copyObject _ destination sourceEtag =>
        sourceEtag.isSome = true ∧ Completing past destination sourceEtag
    | .link _ _ => config.driver = .localDisk
    | _ => True
  credible := credible config.keyText

variable {config : Config}

/-- All but the completion and the sweep of staging objects keeps to the conduct by itself. -/
theorem verifying_lenient : Lenient (verifying config) where
  routine := by
    intro past call routine
    cases call with
    | update statement =>
        cases statement <;> trivial
    | transact statement count => cases routine
    | copyObject source destination sourceEtag => cases routine
    | link source destination => cases routine
    | _ => trivial
  batches := by
    intro past statement ids batched
    cases statement <;> trivial

variable {past : Past}

/-! ## The completion -/

/-- The lease, when it was granted, is for the version seen; the local driver knows no
versions. -/
def leaseVersion (config : Config) (key : StorageKey) (metadata : ObjectMetadata)
    (claimed : Claimed) (past : Past) : Prop :=
  match claimed with
  | .lease row => row.key = key ∧ (config.driver = .s3 → Completing past key metadata.etag)
  | .settled _ => True

theorem settled_verifies {key : StorageKey} {metadata : ObjectMetadata} (current : Row) :
    Follows (verifying config)
      (do
        let result ← toUploadedFileResult config current
        pure (.settled result) : Service Claimed) past
      (returning (leaseVersion config key metadata)) :=
  Follows.seq _ (verifying_lenient.toUploadedFileResult current) (fun _ _ _ _ => trivial)
    fun _ _ _ => trivial

/-- The lease is asked for with the ETag of the metadata that matched. -/
theorem claimPendingCompletion_verifies {row : Row} {access : Access} {marker : Int}
    {key : StorageKey} {metadata : ObjectMetadata} (keyed : row.pendingKey = some key)
    (inspected : Inspected past key metadata)
    (matched : metadataMatches config row (some metadata) = true) :
    Follows (verifying config) (claimPendingCompletion config row access marker metadata) past
      (returning (leaseVersion config row.key metadata)) := by
  unfold claimPendingCompletion
  refine Follows.ask_bind ⟨key, metadata, keyed, inspected, matched, rfl⟩ (fun affected _ => ?_)
    fun _ => trivial
  split
  · rename_i one
    subst one
    exact ⟨rfl, fun _ => ⟨row, access, marker, rfl, .inl List.mem_cons_self⟩⟩
  · refine Follows.ask_bind trivial (fun found _ => ?_) fun _ => trivial
    match found with
    | none => trivial
    | some current =>
        simp only
        split
        · exact settled_verifies current
        · trivial
        · trivial

/-- A lease taken over carries the version that was read, on S3 always one. -/
theorem reclaimCompletion_verifies {row : Row} {access : Access} {now marker : Int}
    {metadata : ObjectMetadata}
    (versioned : config.driver = .s3 → metadata.etag.isSome = true) :
    Follows (verifying config) (reclaimCompletion config row access now marker metadata) past
      (returning (leaseVersion config row.key metadata)) := by
  unfold reclaimCompletion
  split
  · trivial
  · rename_i unchanged
    split
    · trivial
    · refine Follows.ask_bind trivial (fun affected _ => ?_) fun _ => trivial
      split
      · rename_i one
        subst one
        refine ⟨rfl, fun s3 => ⟨row, access, marker, rfl, .inr ⟨_, List.mem_cons_self, ?_⟩⟩⟩
        cases recorded : row.etag with
        | none => rfl
        | some etag =>
            simp only [recorded, versioned s3, Option.isSome_some, true_and, not_not] at unchanged
            exact unchanged.symm
      · refine Follows.ask_bind trivial (fun found _ => ?_) fun _ => trivial
        match found with
        | none => trivial
        | some current =>
            simp only
            split
            · exact settled_verifies current
            · trivial

/-- What the promotion answers was inspected under the final key. -/
theorem promotedObject_verifies {row : Row} {pendingKey : StorageKey} {etag : Option Etag}
    (versioned : config.driver = .s3 → etag.isSome = true)
    (completing : config.driver = .s3 → Completing past row.key etag) :
    Follows (verifying config) (promotedObject config row pendingKey etag) past
      (returning fun final past' => ∀ metadata, final = some metadata →
        Inspected past' row.key metadata) := by
  have again : ∀ {past : Past}, Follows (verifying config) (ask (.headObject row.key)) past
      (returning fun final past' => ∀ metadata, final = some metadata →
        Inspected past' row.key metadata) := by
    intro past
    refine Follows.ask trivial (fun answer _ => ?_) fun _ => trivial
    rintro metadata rfl
    exact List.mem_cons_self
  unfold promotedObject
  refine Follows.ask_bind trivial (fun existing _ => ?_) fun _ => trivial
  match existing with
  | some metadata =>
      rintro _ ⟨⟩
      exact List.mem_cons_self
  | none =>
      refine Follows.seq (fun _ _ => True) ?_ (fun _ _ _ _ => again) fun _ _ _ => trivial
      unfold promoteObject
      split
      · rename_i s3
        refine Follows.ask_bind ⟨versioned s3, (completing s3).mono (List.suffix_cons _ _)⟩
          (fun copied _ => ?_) fun _ => trivial
        split <;> trivial
      · rename_i disk
        refine Follows.ask_bind disk (fun linked _ => ?_) fun _ => trivial
        split
        · refine Follows.ask_bind trivial (fun removed _ => ?_) fun _ => trivial
          split <;> trivial
        · trivial

/-- The row is finished with the metadata of the inspected object. -/
theorem finalizeCompletion_verifies {row : Row} {access : Access} {marker : Int}
    {metadata : ObjectMetadata} (inspected : Inspected past row.key metadata) :
    Follows (verifying config) (finalizeCompletion config row access marker metadata) past
      anyhow := by
  unfold finalizeCompletion
  refine Follows.ask_bind trivial (fun completedAt _ => ?_) fun _ => trivial
  refine Follows.tryAsk_bind ⟨metadata, inspected.mono (List.suffix_cons _ _), rfl⟩
    fun reply _ => ?_
  match reply with
  | none =>
      refine Follows.tryAsk_bind trivial fun current _ => ?_
      match current with
      | some (some current) =>
          simp only
          split
          · exact verifying_lenient.toUploadedFileResult current
          · exact verifying_lenient.failRetryable row access marker _
      | some none => exact verifying_lenient.failRetryable row access marker _
      | none => exact verifying_lenient.failRetryable row access marker _
  | some affected =>
      simp only
      split
      · exact verifying_lenient.toUploadedFileResult _
      · refine Follows.ask_bind trivial (fun current _ => ?_) fun _ => trivial
        match current with
        | some current =>
            simp only
            split
            · exact verifying_lenient.toUploadedFileResult current
            · trivial
        | none => trivial

/-- Promotion first, and its object is what the row is finished with. -/
theorem completeUnderLease_verifies {row : Row} {access : Access} {marker : Int}
    {pendingKey : StorageKey} {etag : Option Etag}
    (versioned : config.driver = .s3 → etag.isSome = true)
    (completing : config.driver = .s3 → Completing past row.key etag) :
    Follows (verifying config) (completeUnderLease config row access marker pendingKey etag) past
      anyhow := by
  unfold completeUnderLease
  refine Follows.seq (fun final past' => ∀ metadata, final = some metadata →
    Inspected past' row.key metadata) ?_ ?_ fun _ _ _ => trivial
  · refine Follows.guarding (promotedObject_verifies versioned completing)
      (fun _ _ _ inspected => inspected) fun error past' _ => ?_
    exact verifying_lenient.failRetryable row access marker _
  · intro final past' _ inspected
    match final with
    | none => exact verifying_lenient.failRetryable row access marker _
    | some metadata =>
        simp only
        split
        · split
          · exact finalizeCompletion_verifies (inspected metadata rfl)
          · refine Follows.tryAsk_bind trivial fun removed _ => ?_
            match removed with
            | none => exact verifying_lenient.failRetryable row access marker _
            | some _ =>
                exact finalizeCompletion_verifies
                  ((inspected metadata rfl).mono (List.suffix_cons _ _))
        · exact verifying_lenient.failRetryable row access marker _

/-- On S3 metadata without an ETag never match. -/
theorem versioned_of_matches {row : Row} {metadata : ObjectMetadata} (s3 : config.driver = .s3)
    (matched : metadataMatches config row (some metadata) = true) :
    metadata.etag.isSome = true := by
  simp only [metadataMatches, s3, Bool.and_eq_true] at matched
  exact matched.1.2.1.1

/-- The staging object is inspected and matched before any lease is asked for. -/
theorem completeManagedUpload_verifies (row : Row) (access : Access) :
    Follows (verifying config) (completeManagedUpload config row access) past anyhow := by
  unfold completeManagedUpload
  split
  · exact verifying_lenient.toUploadedFileResult row
  · trivial
  · refine Follows.ask_bind trivial (fun now _ => ?_) fun _ => trivial
    split
    · rename_i pendingKey uploadExpiredAt keyed expires
      split
      · trivial
      · refine Follows.tryAsk_bind trivial fun staging _ => ?_
        match staging with
        | none => trivial
        | some none => trivial
        | some (some metadata) =>
            simp only
            split
            · rename_i matched
              refine Follows.seq (leaseVersion config row.key metadata) ?_ ?_ fun _ _ _ => trivial
              · unfold claimCompletionLease
                split
                · exact claimPendingCompletion_verifies keyed List.mem_cons_self matched
                · exact reclaimCompletion_verifies fun s3 => versioned_of_matches s3 matched
              · intro claimed past' _ version
                match claimed with
                | .settled result => trivial
                | .lease row' =>
                    obtain ⟨same, completing⟩ := version
                    exact completeUnderLease_verifies (fun s3 => versioned_of_matches s3 matched)
                      fun s3 => same ▸ completing s3
            · trivial
    · trivial

theorem completeUpload_verifies (caller : Caller) (id : Option Uuid) :
    Follows (verifying config) (completeUpload config caller id) past anyhow :=
  Follows.seq _ (verifying_lenient.storeless.findLifecycleAuthorized caller id .complete)
    (fun found _ _ _ => completeManagedUpload_verifies found.2 found.1) fun _ _ _ => trivial

theorem putUploadContent_verifies (caller : Caller) (id : Option Uuid) (buffer : Bytes) :
    Follows (verifying config) (putUploadContent config caller id buffer) past anyhow := by
  unfold putUploadContent
  split
  · trivial
  · refine Follows.seq _ (verifying_lenient.storeless.findLifecycleAuthorized caller id .complete) ?_
      fun _ _ _ => trivial
    rintro ⟨access, row⟩ past' - -
    refine Follows.ask_bind trivial (fun now _ => ?_) fun _ => trivial
    split
    · split
      · trivial
      · split
        · trivial
        · split
          · trivial
          · refine Follows.tryAsk_bind trivial fun stored _ => ?_
            split
            · exact completeUpload_verifies caller id
            · trivial
    · trivial

/-- The work that the transport hands back keeps to the conduct too. -/
theorem transportUpload_verifies (caller : Caller) (source : Source) (initiated : InitiateResult) :
    Follows (verifying config) (transportUpload config caller source initiated) past
      (returning fun rest _ => ∀ {past}, Follows (verifying config) rest past anyhow) := by
  unfold transportUpload
  split
  · exact putUploadContent_verifies caller _ _
  · refine Follows.seq _ (verifying_lenient.storeless.findLifecycleAuthorized caller _ .complete) ?_
      fun _ _ _ => trivial
    rintro ⟨access, row⟩ past' - -
    simp only
    split
    · trivial
    · refine Follows.ask_bind trivial (fun stored _ => ?_) fun _ => trivial
      split
      · exact completeUpload_verifies caller _
      · trivial
  · refine Follows.ask_bind trivial (fun stored _ => ?_) fun _ => trivial
    split
    · exact Follows.seq _ (completeUpload_verifies caller _) (fun _ _ _ _ => trivial)
        fun _ _ _ => trivial
    · trivial

theorem uploadManaged_verifies (caller : Caller) (source : Source) (originalName : String)
    (context : MetaInput) (ownerId : Option Uuid) (options : UploadOptions) (temporary : Bool) :
    Follows (verifying config)
      (uploadManaged config caller source originalName context ownerId options temporary) past
      anyhow := by
  unfold uploadManaged
  refine Follows.check_bind (fun access _ => ?_) fun _ => trivial
  refine Follows.check_bind (fun _ _ => ?_) fun _ => trivial
  refine Follows.check_bind (fun input _ => ?_) fun _ => trivial
  refine Follows.seq _ (verifying_lenient.initiateManagedUpload caller input _) ?_
    fun _ _ _ => trivial
  intro initiated past' _ _
  refine Follows.seq (fun rest _ => ∀ {past}, Follows (verifying config) rest past anyhow) ?_
    (fun rest _ _ follows => follows) fun _ _ _ => trivial
  refine Follows.guarding (transportUpload_verifies caller source initiated)
    (fun _ _ _ follows => follows) fun error past'' _ => ?_
  refine Follows.seq (fun _ _ => True) ?_ (fun _ _ _ _ => trivial) fun _ _ _ => trivial
  exact (verifying_lenient.storeless.abortUpload caller _).swallowed fun _ _ => trivial

/-! ## The staging sweep -/

/-- Staging objects are deleted only after the upload URL has run out on the clock. -/
theorem cleanupCompletedStagingRows_verifies {time : Int} (rows : List Row) (cleaned : Nat)
    (clock : ReadClock past time)
    (expired : ∀ row ∈ rows, notAfter row.uploadExpiredAt time = true) :
    Follows (verifying config) (cleanupCompletedStagingRows rows cleaned) past anyhow := by
  induction rows generalizing past cleaned with
  | nil => trivial
  | cons row rows ih =>
      obtain ⟨first, others⟩ := List.forall_mem_cons.mp expired
      unfold cleanupCompletedStagingRows
      split
      · exact ih cleaned clock others
      · refine Follows.seq (fun _ _ => True) ?_ (fun count past' longer _ => ?_)
          fun _ _ _ => trivial
        · refine Follows.catching ?_ (fun _ _ _ => trivial) fun _ _ _ => trivial
          refine Follows.ask_bind trivial (fun _ _ => ?_) fun _ => trivial
          exact Follows.ask ⟨time, clock.mono (List.suffix_cons _ _), first⟩ (fun _ _ => trivial)
            fun _ => trivial
        · exact ih _ (clock.mono longer) others

theorem cleanupCompletedStaging_verifies (limit : Option Int) :
    Follows (verifying config) (unsafeSystemCleanupCompletedStaging limit) past anyhow := by
  unfold unsafeSystemCleanupCompletedStaging
  refine Follows.ask_bind trivial (fun now _ => ?_) fun _ => trivial
  refine Follows.ask_bind trivial (fun rows credits => ?_) fun _ => trivial
  refine cleanupCompletedStagingRows_verifies rows 0
    (List.mem_cons_of_mem _ List.mem_cons_self) fun row member => ?_
  have chosen := (credits.2 row member).1
  simp only [Query.chosen, Bool.and_eq_true] at chosen
  exact chosen.1.1.2

theorem cleanupPendingUploads_verifies (limit : Option Int) :
    Follows (verifying config) (cleanupPendingUploads limit) past anyhow := by
  unfold cleanupPendingUploads
  refine Follows.seq _ (verifying_lenient.cleanupExpiredDirectUploads _) ?_ fun _ _ _ => trivial
  intro expired _ _ _
  refine Follows.seq _ (cleanupCompletedStaging_verifies _) ?_ fun _ _ _ => trivial
  intro staged _ _ _
  exact Follows.seq _ (verifying_lenient.retryPendingDeletions _) (fun _ _ _ _ => trivial)
    fun _ _ _ => trivial

/-! ## Every request -/

/-- Every request keeps to the conduct, by cases. -/
theorem launch_verifies (request : Request) :
    Program.Obeys (verifying config) (launch config request) [] fun _ _ => True := by
  cases request with
  | uploadLegacy caller buffer fileName meta? extraData options =>
      exact replying_obeys _
        (verifying_lenient.uploadLegacy caller buffer fileName meta? extraData options)
  | uploadTemporaryLegacy caller buffer fileName options =>
      exact replying_obeys _ (verifying_lenient.uploadTemporaryLegacy caller buffer fileName options)
  | uploadManaged caller source originalName context ownerId options temporary =>
      exact replying_obeys _
        (uploadManaged_verifies caller source originalName context ownerId options temporary)
  | initiateUpload caller input =>
      exact replying_obeys _ (verifying_lenient.initiateManagedUpload caller input _)
  | initiateTemporaryUpload caller input =>
      exact replying_obeys _ (verifying_lenient.initiateManagedUpload caller input _)
  | putUploadContent caller id buffer =>
      exact replying_obeys _ (putUploadContent_verifies caller id buffer)
  | completeUpload caller id => exact replying_obeys _ (completeUpload_verifies caller id)
  | abortUpload caller id => exact replying_obeys _ (verifying_lenient.storeless.abortUpload caller id)
  | find caller id => exact replying_obeys _ (verifying_lenient.find caller id)
  | findById caller id => exact replying_obeys _ (verifying_lenient.findAuthorized caller id)
  | resolveUrl caller id =>
      refine replying_obeys _ ?_
      exact Follows.seq _ (verifying_lenient.findAuthorized caller id)
        (fun row _ _ _ => verifying_lenient.resolveRowUrl row) fun _ _ _ => trivial
  | download caller id =>
      refine replying_obeys _ ?_
      exact Follows.seq _ (verifying_lenient.findAuthorized caller id)
        (fun row _ _ _ => verifying_lenient.openStream row) fun _ _ _ => trivial
  | downloadAttached caller id attachment =>
      exact replying_obeys _ (verifying_lenient.downloadAttached caller id attachment)
  | setExtraData caller id extraData =>
      exact replying_obeys _ (verifying_lenient.setExtraData caller id extraData)
  | markUsed caller ids meta? =>
      exact replying_obeys _ (verifying_lenient.markUsed caller ids meta?)
  | useFiles caller references entity entityId =>
      exact replying_obeys _ (verifying_lenient.useFiles caller references entity entityId)
  | delete caller references =>
      exact replying_obeys _ (verifying_lenient.delete caller references)
  | deleteById caller id =>
      exact replying_obeys _ (verifying_lenient.deleteById trivial caller id)
  | changeFiles caller olds news entity entityId =>
      exact replying_obeys _ (verifying_lenient.changeFiles caller olds news entity entityId)
  | cleanupExpiredTemporaryFiles now? limit =>
      exact replying_obeys _ (verifying_lenient.cleanupExpiredTemporaryFiles now? limit)
  | cleanupPendingUploads limit => exact replying_obeys _ (cleanupPendingUploads_verifies limit)
  | unsafeSystemCleanupCompletedStaging limit =>
      exact replying_obeys _ (cleanupCompletedStaging_verifies limit)
  | unsafeSystemRetryPendingDeletions limit =>
      exact replying_obeys _ (verifying_lenient.retryPendingDeletions limit)
  | unsafeSystemRetireUploadTombstone id =>
      exact replying_obeys _ (verifying_lenient.retireUploadTombstone id)
  | unsafeSystemPurgeUnusedBefore cutoff =>
      exact replying_obeys _ (verifying_lenient.purgeUnusedBefore cutoff)

/-! ## Over a run -/

/-- The discipline and the verification at once. -/
def careful (config : Config) : Conduct sig :=
  (discipline config.toDeployment).and (verifying config)

/-- Every request keeps to both conducts at once. -/
theorem launch_careful (config : Config) (request : Request) :
    Program.Obeys (careful config) (launch config request) [] fun _ _ => True :=
  Program.obeys_and (launch_follows config request) (launch_verifies request) fun _ => id

/-- The clocks of a run, with what every worker saw before it acted. -/
structure Attested (core : SystemCore config) : Prop extends Clocked core where
  attested : core.Due (verifying config)

section

variable {core core' : SystemCore config} {act : Act (system config)}
  {ok : SystemCore config → Act (system config) → Prop}

theorem disciplined (admitted : Core.Admits (careful config) ok core act core') :
    Core.Admits (discipline config.toDeployment) ok core act core' :=
  admitted.lax fun _ _ => And.left

theorem verified (admitted : Core.Admits (careful config) ok core act core') :
    Core.Admits (verifying config) ok core act core' :=
  admitted.lax fun _ _ => And.right

/-- What is attested is clocked, and every step keeps it. -/
theorem attested_keeps (config : Config) :
    Keeps (careful config) (fun _ _ => True) (@Attested config) where
  credible attested allows := (clocked_keeps config).credible attested.toClocked allows.1
  admits attested admitted :=
    ⟨(clocked_keeps config).admits attested.toClocked (disciplined admitted),
      attested.attested.admits (verified admitted)⟩

theorem attested_initial (time : Int) :
    Attested (⟨World.initial time, [], []⟩ : SystemCore config) where
  toClocked := clocked_initial time
  attested _ _ member := absurd member List.not_mem_nil

/-- A call that leaves itself behind was verified before it was issued. -/
theorem Attested.verified_of_performed (attested : Attested core)
    (admitted : Core.Admits (careful config) ok core act core') {worker : Worker} {call : Call}
    (performed : act.performed = some (worker, call)) (single : ∀ key, call ≠ .deleteObject key) :
    ∃ past, past <:+ core.pastOf worker ∧ (verifying config).allows past call := by
  obtain ⟨past, issued, suffix, allows, origin⟩ :=
    (verified admitted).allowed_of_performed attested.attested performed
  have asked : call = issued := by
    rcases origin with same | residual
    · exact same
    · rcases mem_residue residual with same | ⟨keys, key, -, -, object⟩
      · exact same
      · exact absurd object (single key)
  exact ⟨past, suffix, asked ▸ allows⟩

/-- A statement that is carried out was verified before it was issued. -/
theorem Attested.verified_of_carried (attested : Attested core)
    (admitted : Core.Admits (careful config) ok core act core') {worker : Worker}
    {statement : Statement}
    (carried : statementOf ⟨act, core.world⟩ = some (worker, statement)) :
    ∃ past, past <:+ core.pastOf worker ∧ statement.Verified config past := by
  obtain ⟨⟨author, call⟩, performed, running⟩ := Option.bind_eq_some_iff.mp carried
  cases call with
  | update statement' =>
      cases running
      exact attested.verified_of_performed admitted performed fun _ same => (by cases same)
  | transact statement' count =>
      simp only [ran] at running
      split at running
      · cases running
        exact attested.verified_of_performed admitted performed fun _ same => (by cases same)
      · cases running
  | _ => cases running

end

end SdcoreNest.UploadedFile
