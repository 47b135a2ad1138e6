/-
# UploadedFile.Obedience -- the programs follow the discipline

`Follows (discipline deployment) p past post`: continued after the worker's own steps `past`, the
service program `p` asks only what the discipline allows and ends in `post`.  There
is one lemma per method, assembled bottom-up; the result is `launch_follows`.
-/
import SdcoreNest.UploadedFile.Service
import SdcoreNest.UploadedFile.Discipline
import SdcoreNest.UploadedFile.System

namespace SdcoreNest.UploadedFile

open SdcoreNest.Theory

set_option autoImplicit false

section Programs

variable {deployment : Deployment} {past : Past}

/-! ## Deleting claimed rows -/

/-- The worker holds the claim, however far the deletion has come. -/
def Held (past : Past) (rows : List Row) (claim : Int) (access : Option Access) : Prop :=
  ∃ phase, holding past = some ⟨rows, claim, access, phase⟩

/-- The claim is given back with a retry time taken from the clock read just before. -/
theorem releaseDeletionClaim_follows {rows : List Row} {claim : Int} {access : Option Access}
    (held : Held past rows claim access) :
    Follows (discipline deployment) (releaseDeletionClaim rows claim access) past anyhow := by
  unfold releaseDeletionClaim
  split
  · trivial
  · refine Follows.ask_bind trivial (fun now _ => ?_) fun _ => trivial
    obtain ⟨phase, held⟩ := held
    exact Follows.ask_bind ⟨⟨phase, held⟩, now, rfl, rfl⟩ (fun _ _ => trivial) fun _ => trivial

/-- The marker goes only after the soft delete, and only on rows without an upload marker. -/
theorem clearFinalizedDeletionClaim_follows {rows : List Row} {claim : Int}
    {access : Option Access}
    (held : holding past = some ⟨rows, claim, access, .finalized⟩) :
    Follows (discipline deployment) (clearFinalizedDeletionClaim rows claim access) past anyhow := by
  unfold clearFinalizedDeletionClaim
  split
  · trivial
  · rename_i unmarked
    refine Follows.ask_bind ⟨held, by simpa using unmarked⟩ (fun affected _ => ?_)
      fun _ => trivial
    split <;> trivial

/-- Deleting the objects of claimed rows and finalising them. -/
theorem deleteAndFinalizePendingRows_follows {rows : List Row} {claim : Int}
    {access : Option Access}
    (held : holding past = some ⟨rows, claim, access, .claimed⟩) :
    Follows (discipline deployment) (deleteAndFinalizePendingRows rows claim access) past anyhow := by
  unfold deleteAndFinalizePendingRows
  split
  · trivial
  · rename_i nonempty
    -- every failure below is handled by releasing a claim that is still held
    have released : ∀ (error : ServiceError) past', Held past' rows claim access →
        Follows (discipline deployment)
          (do swallow (releaseDeletionClaim rows claim access); throw error : Service Nat)
          past' anyhow := by
      intro error past' held'
      rw [follows_bind]
      exact (releaseDeletionClaim_follows held').swallowed fun _ _ => trivial
    rw [follows_tryCatch]
    refine Follows.ask_bind ⟨_, held, rfl, rfl⟩ (fun _ _ => ?_) fun _ => released _ _ ⟨_, held⟩
    have erased : holding (⟨.delete (objectKeys rows), some ()⟩ :: past) =
        some ⟨rows, claim, access, .erased⟩ := by
      simp [holding, Hold.after, held]
    simp only [finalizePendingRows, nonempty]
    refine Follows.ask_bind erased (fun finalized _ => ?_) fun _ => released _ _ ⟨_, erased⟩
    split
    · rename_i all
      rw [follows_bind]
      refine Follows.swallowed (clearFinalizedDeletionClaim_follows ?_) fun _ _ => trivial
      simp [holding, Hold.after, Hold.afterUpdate, Statement.claims, held, all]
    · rename_i short
      refine released _ _ ⟨.erased, ?_⟩
      simp [holding, Hold.after, Hold.afterUpdate, Statement.claims, held, short]

/-! ## Activation and its failure -/

/-- A file goes live only after its own write was acknowledged. -/
theorem activatePendingUpload_follows {saved : Row} {marker : Int} (access : Access)
    (saves : Saved past saved) (server : saved.uploadExpiredAt = none)
    (permanent : saved.isTemporary = false) (marked : saved.uploadPendingAt = some marker)
    (wrote : Wrote past saved.key) :
    Follows (discipline deployment) (activatePendingUpload saved access marker) past anyhow := by
  unfold activatePendingUpload
  refine Follows.ask_bind ⟨saves, server, permanent, marked, wrote⟩ (fun affected _ => ?_)
    fun _ => trivial
  split <;> trivial

/-- The same for a temporary file, whose activation reads the clock for its expiry. -/
theorem activateTemporaryPendingUpload_follows {saved : Row} {marker : Int} (access : Access)
    (saves : Saved past saved) (server : saved.uploadExpiredAt = none)
    (temporary : saved.isTemporary = true) (marked : saved.uploadPendingAt = some marker)
    (wrote : Wrote past saved.key) :
    Follows (discipline deployment) (activateTemporaryPendingUpload saved access marker) past anyhow := by
  unfold activateTemporaryPendingUpload
  refine Follows.ask_bind trivial (fun completedAt _ => ?_) fun _ => trivial
  have longer := List.suffix_cons (⟨.now, some completedAt⟩ : Step sig) past
  refine Follows.ask_bind ⟨saves.mono longer, server, temporary, marked, wrote.mono longer⟩
    (fun affected _ => ?_) fun _ => trivial
  split <;> trivial

/-- Every attempt reads the row again, so the claim it draws is aimed at that reading. The
induction is on the attempts left. -/
theorem deleteWrittenObject_follows {saved : Row} {access : Access} {marker : Int}
    (attempts : Nat) (saves : Saved past saved) (abandoned : Abandoned past saved) :
    Follows (discipline deployment)
      (deleteWrittenObjectWhenActivationIsImpossible saved access marker attempts) past
      anyhow := by
  induction attempts generalizing past with
  | zero => trivial
  | succ attempts ih =>
      refine Follows.tryAsk_bind trivial fun reply found => ?_
      match reply, found with
      | none, _ => trivial
      | some none, _ => trivial
      | some (some current), ⟨chosen, _⟩ =>
          simp only
          split
          · trivial
          · rename_i hidden
            refine Follows.ask_bind trivial (fun claim _ => ?_) fun threw => threw.elim
            -- the three steps so far: the read, the drawn claim, the settling update
            let read : Past := ⟨.findOne (.currentUpload saved access), some (some current)⟩ ::
              past
            let drawn : Past := ⟨.nextDeletionClaim
              (some (current.deletionPendingAt.getD marker)), some claim⟩ :: read
            have longer : past <:+ drawn := ⟨[_, _], rfl⟩
            refine Follows.tryAsk_bind ⟨⟨saved, saves.mono longer, abandoned.mono longer, ?_⟩,
              ⟨⟨_, _, read⟩, rfl, rfl, .inl ⟨_, List.mem_cons_self⟩, ?_⟩, ?_⟩ fun reply _ => ?_
            · simp only [Query.chosen, Bool.and_eq_true, decide_eq_true_eq] at chosen
              exact chosen.1
            · intro deletion present
              simp [present]
            · simpa using hidden
            · match reply with
              | none => trivial
              | some affected =>
                  simp only
                  split
                  · rename_i one
                    subst one
                    exact (deleteAndFinalizePendingRows_follows rfl).swallowed
                      fun _ _ => trivial
                  · have longer' : past <:+ ⟨.update (.settleFailedUpload current access claim),
                        some affected⟩ :: drawn := longer.trans (List.suffix_cons _ _)
                    exact ih (saves.mono longer') (abandoned.mono longer')

/-- The clean-up claims the row by the marker it was saved with; when that fails, the attempts of the
settlement claim it as they read it. -/
theorem cleanupFailedUpload_follows {saved : Row} {access : Access} {marker : Int}
    (saves : Saved past saved) (abandoned : Abandoned past saved)
    (marked : saved.uploadPendingAt = some marker) :
    Follows (discipline deployment) (cleanupFailedUpload saved access marker) past anyhow := by
  refine Follows.ask_bind trivial (fun claim _ => ?_) fun threw => threw.elim
  have longer := List.suffix_cons
    (⟨.nextDeletionClaim (some marker), some claim⟩ : Step sig) past
  refine Follows.tryAsk_bind ⟨saves.mono longer, abandoned.mono longer, marked, past, rfl⟩
    fun claimed _ => ?_
  split
  · rename_i one
    subst one
    exact (deleteAndFinalizePendingRows_follows rfl).swallowed fun _ _ => trivial
  · have longer' := longer.trans (List.suffix_cons (⟨.update
      (.claimFailedUpload saved access marker claim), claimed⟩ : Step sig) _)
    exact deleteWrittenObject_follows 3 (saves.mono longer') (abandoned.mono longer')

end Programs

section DirectUploads

variable {config : Config} {past : Past}

/-! ## Completion -/

/-- Signing asks for nothing the discipline restricts. -/
theorem resolveRowUrl_follows (row : Row) :
    Follows (discipline config.toDeployment) (resolveRowUrl config row) past anyhow := by
  unfold resolveRowUrl
  refine Follows.ask_bind trivial (fun now _ => ?_) fun _ => trivial
  refine Follows.check_bind (fun _ _ => ?_) fun _ => trivial
  split
  · trivial
  · split
    · trivial
    · split
      · trivial
      · refine Follows.tryAsk_bind trivial fun reply _ => ?_
        cases reply <;> trivial

theorem toUploadedFileResult_follows (row : Row) :
    Follows (discipline config.toDeployment) (toUploadedFileResult config row) past anyhow := by
  unfold toUploadedFileResult
  exact Follows.seq (fun _ _ => True) (resolveRowUrl_follows row) (fun _ _ _ _ => trivial)
    fun _ _ _ => trivial

/-- It never returns, so any postcondition of a returned value holds. -/
theorem failRetryable_follows {α : Type} {row : Row} {access : Access} {marker : Int}
    {post : α → Past → Prop} (error : ServiceError) (leased : Leased past row marker) :
    Follows (discipline config.toDeployment) (failRetryable row access marker error : Service α) past
      (returning post) := by
  unfold failRetryable markCompletionRetryable
  rw [follows_bind]
  refine Follows.ask_bind trivial (fun now _ => ?_) fun _ => trivial
  have longer := List.suffix_cons (⟨.now, some now⟩ : Step sig) past
  refine Follows.tryAsk_bind ⟨leased.mono longer, now, List.mem_cons_self, rfl⟩ fun _ _ => ?_
  trivial

/-- What a claim of the completion lease leaves behind. -/
def leaseGranted (row : Row) (marker : Int) (claimed : Claimed) (past : Past) : Prop :=
  match claimed with
  | .lease leased => Leased past leased marker ∧ leased.key = row.key
  | .settled _ => True

/-- Another run settled the row: its result is handed on. -/
theorem settledResult_follows {row : Row} {marker : Int} (current : Row) :
    Follows (discipline config.toDeployment)
      (do let result ← toUploadedFileResult config current; pure (.settled result) :
        Service Claimed) past (returning (leaseGranted row marker)) := by
  exact Follows.seq (fun _ _ => True) (toUploadedFileResult_follows current)
    (fun _ _ _ _ => trivial) fun _ _ _ => trivial

/-- A pending row is leased only with its staging object seen and the clock read. -/
theorem claimPendingCompletion_follows {row : Row} {access : Access} {time : Int}
    {key : StorageKey} {staging : ObjectMetadata} (read : Read past row)
    (pending : row.status = .pending) (managed : row.uploadExpiredAt ≠ none)
    (keyed : row.pendingKey = some key) (headed : Headed past key)
    (clock : ReadClock past time) :
    Follows (discipline config.toDeployment)
      (claimPendingCompletion config row access (time + uploadActivationLeaseMs) staging) past
      (returning (leaseGranted row (time + uploadActivationLeaseMs))) := by
  unfold claimPendingCompletion
  refine Follows.ask_bind ⟨read, pending, managed, ⟨key, keyed, headed⟩, time, clock, rfl⟩
    (fun affected _ => ?_) fun _ => trivial
  split
  · rename_i one
    subst one
    refine ⟨⟨row, access, staging.etag, .inl List.mem_cons_self,
      read.mono (List.suffix_cons _ _), ?_, rfl⟩, rfl⟩
    exact ⟨rfl, rfl, rfl, rfl, rfl, rfl, rfl, rfl, rfl, rfl, rfl⟩
  · refine Follows.ask_bind trivial (fun current _ => ?_) fun _ => trivial
    match current with
    | none => trivial
    | some current =>
        simp only
        split
        · exact settledResult_follows current
        · trivial
        · trivial

/-- A lease is taken over only when the clock has reached its end. -/
theorem reclaimCompletion_follows {row : Row} {access : Access} {time : Int}
    {staging : ObjectMetadata} (read : Read past row) (completing : row.status = .completing)
    (clock : ReadClock past time) :
    Follows (discipline config.toDeployment)
      (reclaimCompletion config row access time (time + uploadActivationLeaseMs) staging) past
      (returning (leaseGranted row (time + uploadActivationLeaseMs))) := by
  unfold reclaimCompletion
  split
  · trivial
  · split
    · trivial
    · rename_i ended
      refine Follows.ask_bind ⟨read, completing, time, clock, rfl, ?_⟩ (fun affected _ => ?_)
        fun _ => trivial
      · intro previous present
        simpa [present] using ended
      · split
        · rename_i one
          subst one
          refine ⟨⟨row, access, staging.etag, .inr List.mem_cons_self,
            read.mono (List.suffix_cons _ _), ?_, rfl⟩, rfl⟩
          exact ⟨rfl, rfl, rfl, rfl, rfl, rfl, rfl, rfl, rfl, rfl, rfl⟩
        · refine Follows.ask_bind trivial (fun current _ => ?_) fun _ => trivial
          match current with
          | none => trivial
          | some current =>
              simp only
              split
              · exact settledResult_follows current
              · trivial

/-- The object goes from staging to the final key of a direct upload, on both drivers. -/
theorem promoteObject_follows {source destination : StorageKey} {etag : Option Etag}
    (staged : source.space = .pending) (direct : DirectKey past destination) :
    Follows (discipline config.toDeployment) (promoteObject config source destination etag) past anyhow := by
  unfold promoteObject
  split
  · refine Follows.ask_bind direct (fun copied _ => ?_) fun _ => trivial
    split <;> trivial
  · rename_i disk
    refine Follows.ask_bind direct (fun linked _ => ?_) fun _ => trivial
    split
    · refine Follows.ask_bind ⟨staged, disk⟩ (fun removed _ => ?_) fun _ => trivial
      split <;> trivial
    · trivial

/-- The promotion answers an object only if the store has reported one under the final key. -/
theorem promotedObject_follows {row : Row} {pendingKey : StorageKey} {etag : Option Etag}
    (staged : pendingKey.space = .pending) (direct : DirectKey past row.key) :
    Follows (discipline config.toDeployment) (promotedObject config row pendingKey etag) past
      (returning fun final past' => final.isSome → Headed past' row.key) := by
  unfold promotedObject
  refine Follows.ask_bind trivial (fun existing _ => ?_) fun _ => trivial
  match existing with
  | some metadata => exact fun _ => ⟨metadata, List.mem_cons_self⟩
  | none =>
      have longer := List.suffix_cons (⟨.headObject row.key, some none⟩ : Step sig) past
      obtain ⟨known, read, managed, keyed⟩ := direct
      refine Follows.seq (fun _ _ => True) (promoteObject_follows staged
        ⟨known, read.mono longer, managed, keyed⟩) ?_ fun _ _ _ => trivial
      intro _ past' _ _
      refine Follows.ask trivial (fun final _ present => ?_) fun _ => trivial
      obtain ⟨metadata, rfl⟩ := Option.isSome_iff_exists.mp present
      exact ⟨metadata, List.mem_cons_self⟩

/-- The row becomes ready under the lease, with the final object seen; the staging key is dropped
where the bytes are already gone. -/
theorem finalizeCompletion_follows {row : Row} {access : Access} {marker : Int}
    {final : ObjectMetadata} (leased : Leased past row marker)
    (headed : Headed past row.key) :
    Follows (discipline config.toDeployment) (finalizeCompletion config row access marker final) past
      anyhow := by
  unfold finalizeCompletion
  refine Follows.ask_bind trivial (fun completedAt _ => ?_) fun _ => trivial
  have longer := List.suffix_cons (⟨.now, some completedAt⟩ : Step sig) past
  refine Follows.tryAsk_bind ⟨leased.mono longer, headed.mono longer, rfl⟩ fun reply _ => ?_
  have longer' := longer.trans (List.suffix_cons (⟨.update (.finalizeCompletion row access
    marker completedAt final.etag (final.checksum.filter (· ≠ ""))
    (decide (config.driver = .localDisk))), reply⟩ : Step sig) _)
  match reply with
  | none =>
      refine Follows.tryAsk_bind trivial fun current _ => ?_
      have leased' := (leased.mono longer').mono (List.suffix_cons
        (⟨.findOne (.lifecycle access row.id), current⟩ : Step sig) _)
      split
      · split
        · exact toUploadedFileResult_follows _
        · exact failRetryable_follows _ leased'
      · exact failRetryable_follows _ leased'
  | some affected =>
      simp only
      split
      · exact toUploadedFileResult_follows _
      · refine Follows.ask_bind trivial (fun current _ => ?_) fun _ => trivial
        match current with
        | none => trivial
        | some current =>
            simp only
            split
            · exact toUploadedFileResult_follows _
            · trivial

/-- A failure after the lease makes the row retryable, under that same lease. -/
theorem completeUnderLease_follows {row : Row} {access : Access} {marker : Int}
    {pendingKey : StorageKey} {etag : Option Etag} (leased : Leased past row marker)
    (staged : pendingKey.space = .pending) (direct : DirectKey past row.key) :
    Follows (discipline config.toDeployment)
      (completeUnderLease config row access marker pendingKey etag) past anyhow := by
  unfold completeUnderLease
  refine Follows.seq
    (fun final past' => Leased past' row marker ∧ (final.isSome → Headed past' row.key))
    ?_ ?_ fun _ _ _ => trivial
  · rw [follows_tryCatch]
    refine (promotedObject_follows staged direct).mono fun result past' longer held => ?_
    match result with
    | .ok final => exact ⟨leased.mono longer, held⟩
    | .error error => exact failRetryable_follows _ (leased.mono longer)
  · rintro final past' longer ⟨leased', headed⟩
    match final with
    | none => exact failRetryable_follows _ leased'
    | some metadata =>
        simp only
        split
        · split
          · exact finalizeCompletion_follows leased' (headed rfl)
          · refine Follows.tryAsk_bind staged fun removed _ => ?_
            match removed with
            | none => exact failRetryable_follows _ (leased'.mono (List.suffix_cons _ _))
            | some _ =>
                exact finalizeCompletion_follows (leased'.mono (List.suffix_cons _ _))
                  ((headed rfl).mono (List.suffix_cons _ _))
        · exact failRetryable_follows _ leased'

/-- A completion reads, leases, promotes and finalises, in this order. -/
theorem completeManagedUpload_follows {row : Row} {access : Access} (read : Read past row)
    (sound : row.Sound) :
    Follows (discipline config.toDeployment) (completeManagedUpload config row access) past anyhow := by
  unfold completeManagedUpload
  split
  · exact toUploadedFileResult_follows row
  · trivial
  · rename_i status notReady notFailed
    refine Follows.ask_bind trivial (fun now _ => ?_) fun _ => trivial
    have clocked := List.suffix_cons (⟨.now, some now⟩ : Step sig) past
    split
    · rename_i pendingKey uploadExpiredAt keyed expires
      obtain ⟨staged, managed⟩ := sound.staging pendingKey keyed
      split
      · trivial
      · refine Follows.tryAsk_bind trivial fun staging _ => ?_
        match staging with
        | none => trivial
        | some none => trivial
        | some (some metadata) =>
            have longer := clocked.trans (List.suffix_cons
              (⟨.headObject pendingKey, some (some metadata)⟩ : Step sig) _)
            have clock : ReadClock (⟨.headObject pendingKey, some (some metadata)⟩ ::
                ⟨.now, some now⟩ :: past) now := List.mem_cons_of_mem _ List.mem_cons_self
            simp only
            split
            · refine Follows.seq (leaseGranted row (now + uploadActivationLeaseMs)) ?_ ?_
                fun _ _ _ => trivial
              · unfold claimCompletionLease
                split
                · rename_i pending
                  exact claimPendingCompletion_follows (read.mono longer) pending managed keyed
                    ⟨metadata, List.mem_cons_self⟩ clock
                · rename_i notPending
                  refine reclaimCompletion_follows (read.mono longer) ?_ clock
                  cases here : row.status <;> simp_all
              · intro claimed past' longer' granted
                match claimed, granted with
                | .settled result, _ => trivial
                | .lease leased, ⟨held, sameKey⟩ =>
                    refine completeUnderLease_follows held (by rw [staged]) ?_
                    exact ⟨row, (read.mono longer).mono longer', managed, sameKey.symm⟩
            · trivial
    · trivial

/-- A row found under `lifecycleWhere`. -/
def foundLifecycle (found : Access × Row) (past : Past) : Prop :=
  Read past found.2 ∧ found.2.Sound ∧ found.1.lifecycleWhere found.2.id found.2 = true

/-- What the lookup hands on was read, and is sound. -/
theorem findLifecycleAuthorized_follows (caller : Caller) (id : Option Uuid)
    (operation : Operation) :
    Follows (discipline config.toDeployment) (findLifecycleAuthorized caller id operation) past
      (returning foundLifecycle) := by
  unfold findLifecycleAuthorized
  refine Follows.check_bind (fun id _ => ?_) fun _ => trivial
  refine Follows.check_bind (fun access _ => ?_) fun _ => trivial
  refine Follows.ask_bind trivial (fun found credits => ?_) fun _ => trivial
  match found, credits with
  | none, _ => trivial
  | some row, ⟨chosen, sound⟩ =>
      have same : row.id = id := (Access.lifecycleWhere_eq_true.mp chosen).1
      exact ⟨.inl ⟨_, List.mem_cons_self⟩, sound, by rw [same]; exact chosen⟩

theorem completeUpload_follows (caller : Caller) (id : Option Uuid) :
    Follows (discipline config.toDeployment) (completeUpload config caller id) past anyhow := by
  unfold completeUpload
  refine Follows.seq foundLifecycle (findLifecycleAuthorized_follows caller id .complete) ?_
    fun _ _ _ => trivial
  rintro ⟨access, row⟩ past' _ ⟨read, sound, _⟩
  exact completeManagedUpload_follows read sound

/-- The upload through the server writes the staging key of the local driver only. -/
theorem putUploadContent_follows (caller : Caller) (id : Option Uuid) (buffer : Bytes) :
    Follows (discipline config.toDeployment) (putUploadContent config caller id buffer) past anyhow := by
  unfold putUploadContent
  split
  · trivial
  · rename_i disk
    refine Follows.seq foundLifecycle (findLifecycleAuthorized_follows caller id .complete) ?_
      fun _ _ _ => trivial
    rintro ⟨access, row⟩ past' _ ⟨read, sound, _⟩
    refine Follows.ask_bind trivial (fun now _ => ?_) fun _ => trivial
    split
    · rename_i pendingKey uploadExpiredAt _ keyed _
      split
      · trivial
      · split
        · trivial
        · split
          · trivial
          · refine Follows.tryAsk_bind (.inl ⟨?_, by simpa using disk⟩) fun stored _ => ?_
            · rw [(sound.staging _ keyed).1]
            · split
              · exact completeUpload_follows caller id
              · trivial
    · trivial

/-- Asking for a live lease leaves a drawn claim unused; a row that passes has no lease that still
runs. -/
theorem completionIsActive_follows {row : Row} :
    Follows (discipline config.toDeployment) (completionIsActive row) past
      (returning fun active past' => minted past' = minted past ∧
        (active = false → LeaseOver past' row)) := by
  unfold completionIsActive
  split
  · rename_i marker _ marked
    refine Follows.ask_bind trivial (fun now _ => ⟨rfl, ?_⟩) fun _ => trivial
    intro inactive _ other present
    refine ⟨now, List.mem_cons_self, ?_⟩
    rw [marked] at present
    cases present
    simpa using inactive
  · rename_i other
    refine ⟨rfl, ?_⟩
    intro _ completing marker marked
    exact absurd marked (other _ completing)

/-- An abort claims the row it read against the upload marker it saw, with no lease in the way. -/
theorem abortUpload_follows (caller : Caller) (id : Option Uuid) :
    Follows (discipline config.toDeployment) (abortUpload caller id) past anyhow := by
  unfold abortUpload
  refine Follows.seq foundLifecycle (findLifecycleAuthorized_follows caller id .abort) ?_
    fun _ _ _ => trivial
  rintro ⟨access, row⟩ past' _ ⟨read, _, _⟩
  simp only
  split
  · trivial
  · rename_i unfinished
    refine Follows.seq _ completionIsActive_follows ?_ fun _ _ _ => trivial
    rintro active past'' longer ⟨_, ended⟩
    split
    · trivial
    · rename_i inactive
      refine Follows.ask_bind trivial (fun claim _ => ?_) fun threw => threw.elim
      have drawn := List.suffix_cons
        (⟨.nextDeletionClaim row.uploadPendingAt, some claim⟩ : Step sig) past''
      refine Follows.ask_bind ⟨(read.mono longer).mono drawn, ?_, ?_, past'', rfl⟩
        (fun affected _ => ?_) fun _ => trivial
      · by_contra neither
        simp only [not_or] at neither
        exact unfinished neither
      · intro completing marker marked
        obtain ⟨time, clock, past⟩ := ended (by simpa using inactive) completing marker marked
        exact ⟨time, clock.mono drawn, past⟩
      · split
        · rename_i one
          subst one
          refine Follows.catching ?_ (fun _ _ _ => trivial) fun _ _ _ => trivial
          exact Follows.seq (fun _ _ => True) (deleteAndFinalizePendingRows_follows rfl)
            (fun _ _ _ _ => trivial) fun _ _ _ => trivial
        · trivial

/-! ## Initiation and server-side uploads -/

/-- What an initiation inserts is hidden, marked and sound: a temporary file is private. -/
theorem managedRow_newborn {access : Access} {file : Validated} {visibility : Visibility}
    {disposition : Disposition} {metadata : Meta} {checksum : Option String}
    {temporary : Bool} {id : Uuid} {now : Int}
    (hidden : temporary = true → visibility = .privateFile) :
    (managedRow config access file visibility disposition metadata checksum temporary id
      now).Newborn where
  sound :=
    { keyId := rfl
      keySpace := by
        simp only [managedRow, buildStorageKeyForId, managedNamespace]
        split
        · simp
        · cases visibility <;> simp
      staging := by
        intro key keyed
        simp only [managedRow, buildStorageKeyForId, Option.some.injEq] at keyed ⊢
        exact ⟨keyed.symm, by simp⟩
      stagingKept := by simp [managedRow]
      permanent := by simp [managedRow]
      temporary := by simp [managedRow]
      managed := by simp [managedRow]
      unfinished := by simp [managedRow]
      waiting := by simp [managedRow]
      failed := by simp [managedRow]
      hidden := hidden
      lifetime := by simp [managedRow]
      lasting := by simp [managedRow] }
  untouched := rfl
  marked := by simp [managedRow]
  unclaimed := by simp [managedRow]

/-- What a server-side upload inserts is hidden, marked and sound. -/
theorem legacyRow_newborn {access : Access} {file : Validated} {size : Nat} {metadata : Meta}
    {extraData : Option String} {id : Uuid} {now : Int} :
    (legacyRow config access file size metadata extraData id now).Newborn where
  sound := by
    refine ⟨rfl, ?_, ?_, ?_, ?_, ?_, ?_, ?_, ?_, ?_, ?_, ?_, ?_⟩ <;>
      simp [legacyRow, buildStorageKeyForId]
  untouched := rfl
  marked := by simp [legacyRow]
  unclaimed := by simp [legacyRow]

theorem legacyTemporaryRow_newborn {access : Access} {file : Validated} {size : Nat} {id : Uuid}
    {now : Int} : (legacyTemporaryRow config access file size id now).Newborn where
  sound := by
    refine ⟨rfl, ?_, ?_, ?_, ?_, ?_, ?_, ?_, ?_, ?_, ?_, ?_, ?_⟩ <;>
      simp [legacyTemporaryRow, legacyRow, buildStorageKeyForId]
  untouched := rfl
  marked := by simp [legacyTemporaryRow, legacyRow]
  unclaimed := by simp [legacyTemporaryRow]

/-- The first URL of a saved row; after one, the discipline allows no other. -/
theorem createUploadUrl_follows {key : StorageKey} {file : Validated}
    {checksum : Option String} {saved : Row} (saves : Saved past saved)
    (keyed : saved.pendingKey = some key)
    (first : ∀ contentType size expiresIn uploadId checksum reply,
      (⟨.createUploadUrl key contentType size expiresIn uploadId checksum, reply⟩ : Step sig)
        ∉ past) :
    Follows (discipline config.toDeployment) (createUploadUrl config key file checksum) past
      (returning fun target past' => (∀ made, target = some made → made.key = key) ∧
        (target = none → Abandoned past' saved)) := by
  unfold createUploadUrl
  split
  · refine ⟨?_, ?_⟩
    · rintro _ ⟨⟩
      rfl
    · rintro ⟨⟩
  · rename_i s3
    refine Follows.tryAsk_bind ⟨s3, ⟨saved, saves, keyed⟩, first⟩ fun reply _ => ?_
    cases reply with
    | none =>
        refine ⟨?_, fun _ => .inr ⟨key, _, _, _, _, _, keyed, List.mem_cons_self⟩⟩
        rintro _ ⟨⟩
    | some url =>
        refine ⟨?_, ?_⟩
        · rintro _ ⟨⟩
          rfl
        · rintro ⟨⟩

/-- A temporary upload that asks for anything but private is refused. -/
theorem directVisibility_temporary {requested : Option Visibility} {temporary : Bool}
    {visibility : Visibility}
    (passed : directVisibility config requested temporary = .ok visibility) :
    temporary = true → visibility = .privateFile := by
  rintro rfl
  simp only [directVisibility, if_true, Except.ok.injEq] at passed
  exact passed.symm

/-- Initiation hands out a staging key. -/
theorem initiateManagedUpload_follows (caller : Caller) (input : InitiateInput)
    (options : InitiateOptions) :
    Follows (discipline config.toDeployment) (initiateManagedUpload config caller input options) []
      (returning fun result _ => result.target.key.space = .pending) := by
  unfold initiateManagedUpload
  refine Follows.check_bind (fun access _ => ?_) fun _ => trivial
  refine Follows.check_bind (fun _ _ => ?_) fun _ => trivial
  refine Follows.check_bind (fun limits _ => ?_) fun _ => trivial
  refine Follows.check_bind (fun file _ => ?_) fun _ => trivial
  refine Follows.check_bind (fun visibility visible => ?_) fun _ => trivial
  refine Follows.check_bind (fun metadata _ => ?_) fun _ => trivial
  refine Follows.check_bind (fun checksum _ => ?_) fun _ => trivial
  refine Follows.ask_bind trivial (fun id _ => ?_) fun threw => threw.elim
  refine Follows.ask_bind trivial (fun now _ => ?_) fun threw => threw.elim
  refine Follows.tryAsk_bind ⟨managedRow_newborn (directVisibility_temporary visible),
    List.mem_cons_of_mem _ List.mem_cons_self, ?_⟩ fun reply credits => ?_
  · intro row reply member
    simp at member
  · match reply, credits with
    | none, _ => trivial
    | some saved, ⟨time, stamped⟩ =>
        subst stamped
        refine Follows.seq _ (createUploadUrl_follows ⟨_, List.mem_cons_self⟩ rfl ?_) ?_
          fun _ _ _ => trivial
        · intro _ _ _ _ _ _ member
          simp at member
        · rintro target past' longer ⟨addressed, abandoned⟩
          match target with
          | some target =>
              show target.key.space = .pending
              rw [addressed target rfl]
              rfl
          | none =>
              refine Follows.seq (fun _ _ => True) (cleanupFailedUpload_follows
                (Saved.mono longer ⟨_, List.mem_cons_self⟩) (abandoned rfl) rfl)
                (fun _ _ _ _ => trivial) fun _ _ _ => trivial

/-- One write of the saved row's key, then its activation; a failure of either leads to the
clean-up. -/
theorem writeAndActivate_follows {saved : Row} {access : Access} {marker : Int}
    {object : StoredObject} {activate : Service Row} (saves : Saved past saved)
    (server : saved.uploadExpiredAt = none) (marked : saved.uploadPendingAt = some marker)
    (first : ∀ object reply, (⟨.putObject saved.key object, reply⟩ : Step sig) ∉ past)
    (activates : ∀ past', past <:+ past' → Wrote past' saved.key →
      Follows (discipline config.toDeployment) activate past' anyhow) :
    Follows (discipline config.toDeployment) (writeAndActivate saved access marker object activate) past
      anyhow := by
  have cleaned : ∀ past', past <:+ past' → Follows (discipline config.toDeployment)
      (do cleanupFailedUpload saved access marker; throw uploadFailed : Service Row) past'
      anyhow := by
    intro past' longer
    exact Follows.seq (fun _ _ => True)
      (cleanupFailedUpload_follows (saves.mono longer) (.inl server) marked)
      (fun _ _ _ _ => trivial) fun _ _ _ => trivial
  unfold writeAndActivate
  refine Follows.tryAsk_bind (.inr ⟨⟨saved, saves, rfl, server⟩, first⟩) fun stored _ => ?_
  have longer := List.suffix_cons (⟨.putObject saved.key object, stored⟩ : Step sig) past
  split
  · rename_i written
    subst written
    refine Follows.catching (activates _ longer ⟨object, List.mem_cons_self⟩)
      (fun _ _ _ => trivial) fun _ past' longer' => ?_
    unfold confirmedActiveUpload
    rw [follows_bind]
    refine Follows.tryAsk_bind trivial fun reply _ => ?_
    have longer'' := (longer.trans longer').trans (List.suffix_cons
      (⟨.findOne (.confirmedActiveUpload saved access), reply⟩ : Step sig) _)
    simp only [follows_pure, Program.handling_ok]
    split
    · trivial
    · exact cleaned _ longer''
  · exact cleaned _ longer

/-- The row is inserted before the write, so nothing is ever stored without a row. -/
theorem uploadLegacy_follows (caller : Caller) (buffer : Bytes) (fileName : Option String)
    (meta? : MetaInput) (extraData : Option String) (options : UploadOptions) :
    Follows (discipline config.toDeployment)
      (uploadLegacy config caller buffer fileName meta? extraData options) [] anyhow := by
  unfold uploadLegacy
  refine Follows.check_bind (fun access _ => ?_) fun _ => trivial
  refine Follows.check_bind (fun file _ => ?_) fun _ => trivial
  refine Follows.check_bind (fun metadata _ => ?_) fun _ => trivial
  refine Follows.ask_bind trivial (fun id _ => ?_) fun threw => threw.elim
  refine Follows.ask_bind trivial (fun now _ => ?_) fun threw => threw.elim
  refine Follows.tryAsk_bind ⟨legacyRow_newborn, List.mem_cons_of_mem _ List.mem_cons_self, ?_⟩
    fun reply credits => ?_
  · intro row reply member
    simp at member
  · match reply, credits with
    | none, _ => trivial
    | some saved, ⟨time, stamped⟩ =>
        subst stamped
        refine writeAndActivate_follows ⟨_, List.mem_cons_self⟩ rfl rfl ?_ ?_
        · intro _ _ member
          simp at member
        · intro past' longer wrote
          exact activatePendingUpload_follows access (Saved.mono longer ⟨_, List.mem_cons_self⟩)
            rfl rfl rfl wrote

theorem uploadTemporaryLegacy_follows (caller : Caller) (buffer : Bytes)
    (fileName : Option String) (options : UploadOptions) :
    Follows (discipline config.toDeployment) (uploadTemporaryLegacy config caller buffer fileName options) []
      anyhow := by
  unfold uploadTemporaryLegacy
  refine Follows.check_bind (fun access _ => ?_) fun _ => trivial
  split
  · refine Follows.check_bind (fun file _ => ?_) fun _ => trivial
    refine Follows.ask_bind trivial (fun id _ => ?_) fun threw => threw.elim
    refine Follows.ask_bind trivial (fun now _ => ?_) fun threw => threw.elim
    refine Follows.tryAsk_bind
      ⟨legacyTemporaryRow_newborn, List.mem_cons_of_mem _ List.mem_cons_self, ?_⟩
      fun reply credits => ?_
    · intro row reply member
      simp at member
    · match reply, credits with
      | none, _ => trivial
      | some saved, ⟨time, stamped⟩ =>
          subst stamped
          refine writeAndActivate_follows ⟨_, List.mem_cons_self⟩ rfl rfl ?_ ?_
          · intro _ _ member
            simp at member
          · intro past' longer wrote
            exact activateTemporaryPendingUpload_follows access
              (Saved.mono longer ⟨_, List.mem_cons_self⟩) rfl rfl rfl wrote
  · trivial

/-- What runs outside the `try` is a completion, whatever its own past is. -/
theorem transportUpload_follows (caller : Caller) (source : Source) (initiated : InitiateResult)
    (staged : initiated.target.key.space = .pending) :
    Follows (discipline config.toDeployment) (transportUpload config caller source initiated) past
      (returning fun rest _ => ∀ past', Follows (discipline config.toDeployment) rest past' anyhow) := by
  unfold transportUpload
  split
  · exact fun _ => putUploadContent_follows caller _ _
  · rename_i disk
    refine Follows.seq foundLifecycle (findLifecycleAuthorized_follows caller _ .complete) ?_
      fun _ _ _ => trivial
    rintro ⟨access, row⟩ past' _ ⟨_, sound, _⟩
    simp only
    split
    · trivial
    · rename_i pendingKey keyed
      refine Follows.ask_bind (.inl ⟨?_, disk⟩) (fun stored _ => ?_) fun _ => trivial
      · rw [(sound.staging _ keyed).1]
      · split
        · exact fun _ => completeUpload_follows caller _
        · trivial
  · refine Follows.ask_bind staged (fun stored _ => ?_) fun _ => trivial
    split
    · exact Follows.seq (fun _ _ => True) (completeUpload_follows caller _)
        (fun _ _ _ _ _ => trivial) fun _ _ _ => trivial
    · trivial

/-- The managed overload initiates, transports and completes; the transport runs after what the
initiation has asked. -/
theorem uploadManaged_follows (caller : Caller) (source : Source) (originalName : String)
    (context : MetaInput) (ownerId : Option Uuid) (options : UploadOptions) (temporary : Bool) :
    Follows (discipline config.toDeployment)
      (uploadManaged config caller source originalName context ownerId options temporary) []
      anyhow := by
  unfold uploadManaged
  refine Follows.check_bind (fun access _ => ?_) fun _ => trivial
  refine Follows.check_bind (fun _ _ => ?_) fun _ => trivial
  refine Follows.check_bind (fun input _ => ?_) fun _ => trivial
  refine Follows.seq _ (initiateManagedUpload_follows caller input _) ?_ fun _ _ _ => trivial
  intro initiated past' _ staged
  refine Follows.seq (fun rest _ => ∀ past', Follows (discipline config.toDeployment) rest past' anyhow) ?_
    (fun rest past'' _ follows => follows past'') fun _ _ _ => trivial
  rw [follows_tryCatch]
  refine (transportUpload_follows caller source initiated staged).mono ?_
  intro result past'' _ held
  match result with
  | .ok rest => exact held
  | .error error =>
      exact Follows.seq (fun _ _ => True)
        ((abortUpload_follows caller _).swallowed fun _ _ => trivial)
        (fun _ _ _ _ => trivial) fun _ _ _ => trivial

end DirectUploads

section Requests

variable {config : Config} {past : Past}

/-! ## Reading, changing and deleting -/

theorem findAuthorized_follows (caller : Caller) (id : Option Uuid) :
    Follows (discipline config.toDeployment) (findAuthorized caller id) past anyhow := by
  unfold findAuthorized
  refine Follows.check_bind (fun id _ => ?_) fun _ => trivial
  refine Follows.check_bind (fun access _ => ?_) fun _ => trivial
  refine Follows.ask_bind trivial (fun found _ => ?_) fun _ => trivial
  match found with
  | none => trivial
  | some row =>
      refine Follows.ask_bind trivial (fun now _ => ?_) fun _ => trivial
      exact Follows.check_bind (fun _ _ => trivial) fun _ => trivial

theorem openStream_follows (row : Row) :
    Follows (discipline config.toDeployment) (openStream row) past anyhow := by
  unfold openStream
  refine Follows.tryAsk_bind trivial fun reply _ => ?_
  split <;> trivial

theorem downloadAttached_follows (caller : Caller) (id : Option Uuid)
    (attachment : Option Attachment) :
    Follows (discipline config.toDeployment) (downloadAttached caller id attachment) past anyhow := by
  unfold downloadAttached
  refine Follows.check_bind (fun id _ => ?_) fun _ => trivial
  split
  · split
    · refine Follows.ask_bind trivial (fun found _ => ?_) fun _ => trivial
      match found with
      | none => trivial
      | some row =>
          refine Follows.ask_bind trivial (fun now _ => ?_) fun _ => trivial
          exact Follows.check_bind (fun _ _ => openStream_follows row) fun _ => trivial
    · trivial
  · trivial

theorem find_follows (caller : Caller) (id : Option Uuid) :
    Follows (discipline config.toDeployment) (find config caller id) past anyhow := by
  unfold find
  refine Follows.seq foundLifecycle (findLifecycleAuthorized_follows caller id .read) ?_
    fun _ _ _ => trivial
  rintro ⟨access, row⟩ past' _ _
  simp only
  split
  · exact toUploadedFileResult_follows row
  · trivial

theorem setExtraData_follows (caller : Caller) (id : Option Uuid) (extraData : Option String) :
    Follows (discipline config.toDeployment) (setExtraData caller id extraData) past anyhow := by
  unfold setExtraData
  refine Follows.check_bind (fun id _ => ?_) fun _ => trivial
  refine Follows.check_bind (fun access _ => ?_) fun _ => trivial
  refine Follows.ask_bind trivial (fun affected _ => ?_) fun _ => trivial
  split <;> trivial

theorem markUsed_follows (caller : Caller) (ids : List (Option SentId)) (meta? : MetaInput) :
    Follows (discipline config.toDeployment) (markUsed config caller ids meta?) past anyhow := by
  unfold markUsed
  refine Follows.check_bind (fun unique _ => ?_) fun _ => trivial
  split
  · trivial
  · refine Follows.check_bind (fun access _ => ?_) fun _ => trivial
    refine Follows.check_bind (fun metadata _ => ?_) fun _ => trivial
    unfold mutateIds
    refine Follows.ask_bind trivial (fun rows _ => ?_) fun _ => trivial
    split
    · trivial
    · refine Follows.ask_bind ⟨trivial, ?_⟩ (fun committed _ => ?_) fun _ => trivial
      · rintro _ _ _ ⟨⟩
      · split <;> trivial

/-- The rows come from one query, so no id is among them twice. -/
theorem rowsForReferences_follows (access : Access) (references : List String) :
    Follows (discipline config.toDeployment) (rowsForReferences config access references) past
      (returning fun rows past' => (∀ row ∈ rows, Read past' row) ∧ (rows.map Row.id).Nodup ∧
        minted past' = minted past) := by
  unfold rowsForReferences
  refine Follows.ask_bind trivial (fun rows credits => ?_) fun _ => trivial
  split
  · exact ⟨fun row inside => .inr ⟨_, rows, List.mem_cons_self, inside⟩, credits.1, rfl⟩
  · trivial

theorem useFiles_follows (caller : Caller) (references : List String)
    (entity entityId : Option String) :
    Follows (discipline config.toDeployment) (useFiles config caller references entity entityId) past
      anyhow := by
  unfold useFiles
  refine Follows.check_bind (fun unique _ => ?_) fun _ => trivial
  split
  · trivial
  · refine Follows.check_bind (fun access _ => ?_) fun _ => trivial
    refine Follows.check_bind (fun metadata _ => ?_) fun _ => trivial
    refine Follows.seq _ (rowsForReferences_follows access unique) ?_ fun _ _ _ => trivial
    intro rows past' _ _
    refine Follows.ask_bind ⟨trivial, ?_⟩ (fun committed _ => ?_) fun _ => trivial
    · rintro _ _ _ ⟨⟩
    · split <;> trivial

/-- The claim is drawn before the rows are read: it is a fresh value, not one aimed at a marker. -/
theorem delete_follows (caller : Caller) (references : List String) :
    Follows (discipline config.toDeployment) (delete config caller references) past anyhow := by
  unfold delete
  refine Follows.check_bind (fun unique _ => ?_) fun _ => trivial
  split
  · trivial
  · refine Follows.check_bind (fun access _ => ?_) fun _ => trivial
    refine Follows.ask_bind trivial (fun claim _ => ?_) fun threw => threw.elim
    refine Follows.seq _ (rowsForReferences_follows access unique) ?_ fun _ _ _ => trivial
    rintro rows past' _ ⟨read, distinct, drawn⟩
    refine Follows.ask_bind ⟨⟨read, distinct, past, drawn⟩, ?_⟩ (fun committed _ => ?_) fun _ => trivial
    · rintro _ _ _ ⟨⟩
      simp
    · split
      · rename_i done
        subst done
        refine Follows.catching ?_ (fun _ _ _ => trivial) fun _ _ _ => trivial
        refine Follows.seq (fun _ _ => True) (deleteAndFinalizePendingRows_follows ?_)
          (fun _ _ _ _ => trivial) fun _ _ _ => trivial
        simp [holding, Hold.after, Hold.afterUpdate, Statement.claims]
      · trivial

/-- The row is claimed only with no completion lease running on it. -/
theorem deleteById_follows (caller : Caller) (id : Option Uuid) :
    Follows (discipline config.toDeployment) (deleteById caller id) past anyhow := by
  unfold deleteById
  refine Follows.check_bind (fun id _ => ?_) fun _ => trivial
  refine Follows.check_bind (fun access _ => ?_) fun _ => trivial
  refine Follows.ask_bind trivial (fun claim _ => ?_) fun threw => threw.elim
  refine Follows.ask_bind trivial (fun found _ => ?_) fun _ => trivial
  match found with
  | none => trivial
  | some current =>
      refine Follows.seq _ completionIsActive_follows ?_ fun _ _ _ => trivial
      rintro active past' longer ⟨drawn, ended⟩
      split
      · trivial
      · rename_i inactive
        refine Follows.ask_bind ⟨⟨Read.mono longer (.inl ⟨_, List.mem_cons_self⟩),
          ended (by simpa using inactive), past, drawn⟩, ?_⟩ (fun committed _ => ?_)
          fun _ => trivial
        · rintro _ _ _ ⟨⟩
          rfl
        · split
          · rename_i done
            subst done
            refine Follows.catching ?_ (fun _ _ _ => trivial) fun _ _ _ => trivial
            exact Follows.seq (fun _ _ => True) (deleteAndFinalizePendingRows_follows rfl)
              (fun _ _ _ _ => trivial) fun _ _ _ => trivial
          · trivial

theorem changeFiles_follows (caller : Caller) (olds news : List String)
    (entity entityId : Option String) :
    Follows (discipline config.toDeployment) (changeFiles config caller olds news entity entityId) past
      anyhow := by
  unfold changeFiles
  refine Follows.check_bind (fun oldReferences _ => ?_) fun _ => trivial
  refine Follows.check_bind (fun newReferences _ => ?_) fun _ => trivial
  exact Follows.seq (fun _ _ => True) (useFiles_follows caller _ entity entityId)
    (fun _ _ _ _ => delete_follows caller _) fun _ _ _ => trivial

end Requests

section Sweeps

variable {deployment : Deployment} {past : Past}

/-! ## Maintenance -/

theorem deleteClaimedRow_follows {row : Row} {claim : Int}
    (held : holding past = some ⟨[row], claim, none, .claimed⟩) :
    Follows (discipline deployment) (deleteClaimedRow row claim) past anyhow :=
  Follows.catching (deleteAndFinalizePendingRows_follows held) (fun _ _ _ => trivial)
    fun _ _ _ => trivial

/-- What the loop of the direct-upload sweep knows of each row it will claim. -/
def ExpiredDirect (past : Past) (row : Row) : Prop :=
  Read past row ∧ (row.status = .pending ∨ row.status = .completing) ∧
    ∃ time, ReadClock past time ∧
      (∀ marker, row.uploadPendingAt = some marker → marker ≤ time) ∧
      ∀ previous, row.deletionPendingAt = some previous → previous < time

/-- Later steps do not undo what was read. -/
theorem ExpiredDirect.mono {past past' : Past} (longer : past <:+ past') {row : Row}
    (known : ExpiredDirect past row) : ExpiredDirect past' row := by
  obtain ⟨read, status, time, clock, ended, expired⟩ := known
  exact ⟨read.mono longer, status, time, clock.mono longer, ended, expired⟩

/-- Each row gets a claim of its own, aimed at that row. The induction is on the rows left; what
is known of them outlives the steps between. -/
theorem cleanupExpiredDirectRows_follows {rows : List Row} (finalized : Nat)
    (known : ∀ row ∈ rows, ExpiredDirect past row) :
    Follows (discipline deployment) (cleanupExpiredDirectRows rows finalized) past anyhow := by
  induction rows generalizing past finalized with
  | nil => trivial
  | cons row rows ih =>
      have rest : ∀ past', past <:+ past' → ∀ count,
          Follows (discipline deployment) (cleanupExpiredDirectRows rows count) past' anyhow :=
        fun past' longer count => ih count fun other inside =>
          (known other (List.mem_cons_of_mem _ inside)).mono longer
      unfold cleanupExpiredDirectRows
      split
      · exact rest past (List.suffix_refl _) finalized
      · rename_i marker marked
        obtain ⟨read, status, time, clock, ended, expired⟩ := known row List.mem_cons_self
        refine Follows.ask_bind trivial (fun claim _ => ?_) fun threw => threw.elim
        have drawn := List.suffix_cons (⟨.nextDeletionClaim
          (some (row.deletionPendingAt.getD marker)), some claim⟩ : Step sig) past
        refine Follows.ask_bind ⟨status, ⟨⟨_, _, past⟩, rfl, rfl, read, ?_⟩, time, marker,
          clock.mono drawn, marked, ended marker marked, expired⟩ (fun affected _ => ?_)
          fun _ => trivial
        · intro previous present
          simp [present]
        · have longer := drawn.trans (List.suffix_cons
            (⟨.update (.claimExpiredDirectUpload row claim), some affected⟩ : Step sig) _)
          split
          · rename_i one
            subst one
            exact Follows.seq (fun _ _ => True) (deleteClaimedRow_follows rfl)
              (fun count past' longer' _ => rest past' (longer.trans longer') _)
              fun _ _ _ => trivial
          · exact rest _ longer finalized

theorem cleanupExpiredDirectUploads_follows (limit : Option Int) :
    Follows (discipline deployment) (unsafeSystemCleanupExpiredDirectUploads limit) past anyhow := by
  unfold unsafeSystemCleanupExpiredDirectUploads
  refine Follows.ask_bind trivial (fun now _ => ?_) fun _ => trivial
  refine Follows.ask_bind trivial (fun rows credits => ?_) fun _ => trivial
  refine cleanupExpiredDirectRows_follows 0 fun row inside => ?_
  have chosen := (credits.2 row inside).1
  simp only [Query.chosen, Bool.and_eq_true, Bool.or_eq_true, decide_eq_true_eq,
    notAfter_eq_true, before_eq_true, Option.isNone_iff_eq_none] at chosen
  obtain ⟨⟨⟨⟨status, _⟩, _⟩, marker, marked, ended⟩, deletion⟩ := chosen
  refine ⟨.inr ⟨_, rows, List.mem_cons_self, inside⟩, status, now,
    List.mem_cons_of_mem _ List.mem_cons_self, ?_, ?_⟩
  · intro other present
    rw [marked] at present
    cases present
    exact ended
  · intro previous present
    rcases deletion with absent | ⟨moment, present', expired⟩
    · rw [absent] at present
      cases present
    · rw [present'] at present
      cases present
      exact expired

/-- The sweep touches staging keys only. -/
theorem cleanupCompletedStagingRows_follows {rows : List Row} (cleaned : Nat)
    (known : ∀ row ∈ rows, Read past row ∧ row.Sound) :
    Follows (discipline deployment) (cleanupCompletedStagingRows rows cleaned) past anyhow := by
  induction rows generalizing past cleaned with
  | nil => trivial
  | cons row rows ih =>
      have rest : ∀ past', past <:+ past' → ∀ count,
          Follows (discipline deployment) (cleanupCompletedStagingRows rows count) past' anyhow :=
        fun past' longer count => ih count fun other inside =>
          ⟨(known other (List.mem_cons_of_mem _ inside)).1.mono longer,
            (known other (List.mem_cons_of_mem _ inside)).2⟩
      unfold cleanupCompletedStagingRows
      split
      · exact rest past (List.suffix_refl _) cleaned
      · rename_i pendingKey keyed
        obtain ⟨read, sound⟩ := known row List.mem_cons_self
        refine Follows.seq (fun _ _ => True) ?_
          (fun count past' longer _ => rest past' longer _) fun _ _ _ => trivial
        refine Follows.catching ?_ (fun _ _ _ => trivial) fun _ _ _ => trivial
        refine Follows.ask_bind ?_ (fun _ _ => ?_) fun _ => trivial
        · show pendingKey.space = .pending
          rw [(sound.staging _ keyed).1]
        · exact Follows.ask (read.mono (List.suffix_cons _ _)) (fun _ _ => trivial)
            fun _ => trivial

theorem cleanupCompletedStaging_follows (limit : Option Int) :
    Follows (discipline deployment) (unsafeSystemCleanupCompletedStaging limit) past anyhow := by
  unfold unsafeSystemCleanupCompletedStaging
  refine Follows.ask_bind trivial (fun now _ => ?_) fun _ => trivial
  refine Follows.ask_bind trivial (fun rows credits => ?_) fun _ => trivial
  exact cleanupCompletedStagingRows_follows 0 fun row inside =>
    ⟨.inr ⟨_, rows, List.mem_cons_self, inside⟩, (credits.2 row inside).2⟩

/-- An expired temporary file is claimed against the expiry it was read with. -/
theorem cleanupExpiredTemporaryRows_follows {rows : List Row} (finalized : Nat)
    (known : ∀ row ∈ rows, Read past row) :
    Follows (discipline deployment) (cleanupExpiredTemporaryRows rows finalized) past anyhow := by
  induction rows generalizing past finalized with
  | nil => trivial
  | cons row rows ih =>
      have rest : ∀ past', past <:+ past' → ∀ count,
          Follows (discipline deployment) (cleanupExpiredTemporaryRows rows count) past' anyhow :=
        fun past' longer count => ih count fun other inside =>
          (known other (List.mem_cons_of_mem _ inside)).mono longer
      unfold cleanupExpiredTemporaryRows
      refine Follows.ask_bind trivial (fun claim _ => ?_) fun threw => threw.elim
      have drawn := List.suffix_cons
        (⟨.nextDeletionClaim row.expiredAt, some claim⟩ : Step sig) past
      refine Follows.ask_bind ⟨(known row List.mem_cons_self).mono drawn, past, rfl⟩
        (fun affected _ => ?_) fun _ => trivial
      have longer := drawn.trans (List.suffix_cons
        (⟨.update (.claimExpiredTemporaryFile row claim), some affected⟩ : Step sig) _)
      split
      · rename_i one
        subst one
        exact Follows.seq (fun _ _ => True) (deleteClaimedRow_follows rfl)
          (fun count past' longer' _ => rest past' (longer.trans longer') _)
          fun _ _ _ => trivial
      · exact rest _ longer finalized

theorem cleanupExpiredTemporaryFiles_follows (now? : Option Int) (limit : Option Int) :
    Follows (discipline deployment) (cleanupExpiredTemporaryFiles now? limit) past anyhow := by
  have swept : ∀ now past', Follows (discipline deployment) (do
      let rows ← ask (.find (.expiredTemporaryFiles now (systemDeletionLimit limit)))
      cleanupExpiredTemporaryRows rows 0) past' anyhow := by
    intro now past'
    refine Follows.ask_bind trivial (fun rows _ => ?_) fun _ => trivial
    exact cleanupExpiredTemporaryRows_follows 0 fun row inside =>
      .inr ⟨_, rows, List.mem_cons_self, inside⟩
  unfold cleanupExpiredTemporaryFiles
  cases now? with
  | some now => exact swept now past
  | none => exact Follows.ask_bind trivial (fun now _ => swept now _) fun _ => trivial

/-- A row is tried again against the very marker that made it eligible at the clock read first. -/
theorem retryPendingDeletionRows_follows {now : Int} {rows : List Row} (finalized : Nat)
    (clock : ReadClock past now) (known : ∀ row ∈ rows, Read past row) :
    Follows (discipline deployment) (retryPendingDeletionRows now rows finalized) past anyhow := by
  induction rows generalizing past finalized with
  | nil => trivial
  | cons row rows ih =>
      have rest : ∀ past', past <:+ past' → ∀ count,
          Follows (discipline deployment) (retryPendingDeletionRows now rows count) past' anyhow :=
        fun past' longer count => ih count (clock.mono longer) fun other inside =>
          (known other (List.mem_cons_of_mem _ inside)).mono longer
      unfold retryPendingDeletionRows
      split
      · exact rest past (List.suffix_refl _) finalized
      · rename_i marker selected
        refine Follows.ask_bind trivial (fun claim _ => ?_) fun threw => threw.elim
        have drawn := List.suffix_cons
          (⟨.nextDeletionClaim (some marker), some claim⟩ : Step sig) past
        have aimed : ∀ previous, row.deletionPendingAt = some previous → marker = previous := by
          intro previous present
          simp only [selectedMarker, present] at selected
          split at selected
          · exact (Option.some.inj selected).symm
          · simp at selected
        refine Follows.tryAsk_bind ⟨⟨⟨_, _, past⟩, rfl, rfl, known row List.mem_cons_self, ?_⟩,
          ⟨⟨_, _, past⟩, now, marker, rfl, clock, selected, rfl⟩⟩ fun reply _ => ?_
        · intro previous present
          rw [aimed previous present]
        · have longer := drawn.trans (List.suffix_cons
            (⟨.update (.claimPendingDeletion row claim), reply⟩ : Step sig) _)
          split
          · rename_i one
            subst one
            exact Follows.seq (fun _ _ => True) (deleteClaimedRow_follows rfl)
              (fun count past' longer' _ => rest past' (longer.trans longer') _)
              fun _ _ _ => trivial
          · exact rest _ longer finalized

/-- Whatever the alternation picks is from one of the two pages. -/
theorem mem_unresolvedTombstones {remaining : Nat} {initial retry : List Row} {row : Row}
    (inside : row ∈ unresolvedTombstones remaining initial retry) :
    row ∈ initial ∨ row ∈ retry := by
  simp only [unresolvedTombstones, List.mem_append] at inside
  rcases inside with (first | second) | leftover
  · exact .inl (List.mem_of_mem_take first)
  · exact .inr (List.mem_of_mem_take second)
  · rcases List.mem_append.mp (List.mem_of_mem_take leftover) with first | second
    · exact .inl (List.mem_of_mem_drop first)
    · exact .inr (List.mem_of_mem_drop second)

/-- All pages are read after the clock and before the first claim. -/
theorem retryPendingDeletions_follows (limit : Option Int) :
    Follows (discipline deployment) (unsafeSystemRetryPendingDeletions limit) past anyhow := by
  unfold unsafeSystemRetryPendingDeletions
  refine Follows.ask_bind trivial (fun now _ => ?_) fun _ => trivial
  refine Follows.ask_bind trivial (fun settled _ => ?_) fun _ => trivial
  simp only
  split
  · exact retryPendingDeletionRows_follows 0 (List.mem_cons_of_mem _ List.mem_cons_self)
      fun row inside => .inr ⟨_, settled, List.mem_cons_self, inside⟩
  · refine Follows.ask_bind trivial (fun initial _ => ?_) fun _ => trivial
    refine Follows.ask_bind trivial (fun retry _ => ?_) fun _ => trivial
    refine retryPendingDeletionRows_follows 0 (by simp [ReadClock]) fun row inside => ?_
    rcases List.mem_append.mp inside with first | second
    · exact .inr ⟨_, settled, List.mem_cons_of_mem _ (List.mem_cons_of_mem _ List.mem_cons_self),
        first⟩
    · rcases mem_unresolvedTombstones second with one | two
      · exact .inr ⟨_, initial, List.mem_cons_of_mem _ List.mem_cons_self, one⟩
      · exact .inr ⟨_, retry, List.mem_cons_self, two⟩

theorem cleanupPendingUploads_follows (limit : Option Int) :
    Follows (discipline deployment) (cleanupPendingUploads limit) past anyhow := by
  unfold cleanupPendingUploads
  refine Follows.seq (fun _ _ => True) (cleanupExpiredDirectUploads_follows _)
    (fun expired _ _ _ => ?_) fun _ _ _ => trivial
  refine Follows.seq (fun _ _ => True) (cleanupCompletedStaging_follows _)
    (fun staged _ _ _ => ?_) fun _ _ _ => trivial
  exact Follows.seq (fun _ _ => True) (retryPendingDeletions_follows _)
    (fun _ _ _ _ => trivial) fun _ _ _ => trivial

/-- A tombstone is retired only after its marker, to a time in the past. -/
theorem retireUploadTombstone_follows (id : Option Uuid) :
    Follows (discipline deployment) (unsafeSystemRetireUploadTombstone id) past anyhow := by
  unfold unsafeSystemRetireUploadTombstone
  refine Follows.check_bind (fun id _ => ?_) fun _ => trivial
  refine Follows.ask_bind trivial (fun found _ => ?_) fun _ => trivial
  match found with
  | none => trivial
  | some row =>
      simp only
      split
      · trivial
      · rename_i marker marked
        refine Follows.ask_bind trivial (fun now _ => ?_) fun _ => trivial
        split
        · trivial
        · rename_i expired
          simp only [not_or, ge_iff_le, not_le] at expired
          refine Follows.ask_bind trivial (fun moment _ => ?_) fun _ => trivial
          refine Follows.ask_bind ⟨.inl ⟨_, List.mem_cons_of_mem _ (List.mem_cons_of_mem _
            List.mem_cons_self)⟩, now, moment, marker, List.mem_cons_of_mem _
            List.mem_cons_self, rfl, marked, expired.1, ?_, rfl⟩ (fun _ _ => trivial)
            fun _ => trivial
          intro previous present
          simpa [present] using expired.2

/-- The candidates are claimed in one transaction, and no id is among them twice. -/
theorem purgeUnusedBefore_follows (cutoff : Int) :
    Follows (discipline deployment) (unsafeSystemPurgeUnusedBefore cutoff) past anyhow := by
  unfold unsafeSystemPurgeUnusedBefore
  refine Follows.ask_bind trivial (fun claim _ => ?_) fun threw => threw.elim
  refine Follows.ask_bind trivial (fun candidates credits => ?_) fun _ => trivial
  split
  · trivial
  · refine Follows.ask_bind ⟨⟨fun row inside => .inr ⟨_, candidates, List.mem_cons_self, inside⟩,
      credits.1, past, rfl⟩, ?_⟩ (fun committed _ => ?_) fun _ => trivial
    · rintro _ _ _ ⟨⟩
      simp
    · split
      · rename_i done
        subst done
        refine Follows.catching ?_ (fun _ _ _ => trivial) fun _ _ _ => trivial
        refine Follows.seq (fun _ _ => True) (deleteAndFinalizePendingRows_follows ?_)
          (fun _ _ _ _ => trivial) fun _ _ _ => trivial
        simp [holding, Hold.after, Hold.afterUpdate, Statement.claims]
      · trivial

end Sweeps

/-- Every request and job follows the discipline. -/
theorem launch_follows (config : Config) (request : Request) :
    Program.Obeys (discipline config.toDeployment) (launch config request) []
      fun _ _ => True := by
  have wrapped : ∀ {α : Type} (wrap : α → Reply) {body : Service α},
      Follows (discipline config.toDeployment) body [] anyhow →
      Program.Obeys (discipline config.toDeployment) (replying wrap body) [] fun _ _ => True := by
    intro α wrap body follows
    exact Follows.seq (fun _ _ => True) follows (fun _ _ _ _ => trivial) fun _ _ _ => trivial
  cases request with
  | uploadLegacy caller buffer fileName meta? extraData options =>
      exact wrapped _ (uploadLegacy_follows caller buffer fileName meta? extraData options)
  | uploadTemporaryLegacy caller buffer fileName options =>
      exact wrapped _ (uploadTemporaryLegacy_follows caller buffer fileName options)
  | uploadManaged caller source originalName context ownerId options temporary =>
      exact wrapped _
        (uploadManaged_follows caller source originalName context ownerId options temporary)
  | initiateUpload caller input =>
      exact wrapped _ ((initiateManagedUpload_follows caller input _).mono
        fun result _ _ _ => by cases result <;> trivial)
  | initiateTemporaryUpload caller input =>
      exact wrapped _ ((initiateManagedUpload_follows caller input _).mono
        fun result _ _ _ => by cases result <;> trivial)
  | putUploadContent caller id buffer =>
      exact wrapped _ (putUploadContent_follows caller id buffer)
  | completeUpload caller id => exact wrapped _ (completeUpload_follows caller id)
  | abortUpload caller id => exact wrapped _ (abortUpload_follows caller id)
  | find caller id => exact wrapped _ (find_follows caller id)
  | findById caller id => exact wrapped _ (findAuthorized_follows caller id)
  | resolveUrl caller id =>
      exact wrapped _ (Follows.seq (fun _ _ => True) (findAuthorized_follows caller id)
        (fun row _ _ _ => resolveRowUrl_follows row) fun _ _ _ => trivial)
  | download caller id =>
      exact wrapped _ (Follows.seq (fun _ _ => True) (findAuthorized_follows caller id)
        (fun row _ _ _ => openStream_follows row) fun _ _ _ => trivial)
  | downloadAttached caller id attachment =>
      exact wrapped _ (downloadAttached_follows caller id attachment)
  | setExtraData caller id extraData =>
      exact wrapped _ (setExtraData_follows caller id extraData)
  | markUsed caller ids meta? => exact wrapped _ (markUsed_follows caller ids meta?)
  | useFiles caller references entity entityId =>
      exact wrapped _ (useFiles_follows caller references entity entityId)
  | delete caller references => exact wrapped _ (delete_follows caller references)
  | deleteById caller id => exact wrapped _ (deleteById_follows caller id)
  | changeFiles caller olds news entity entityId =>
      exact wrapped _ (changeFiles_follows caller olds news entity entityId)
  | cleanupExpiredTemporaryFiles now? limit =>
      exact wrapped _ (cleanupExpiredTemporaryFiles_follows now? limit)
  | cleanupPendingUploads limit => exact wrapped _ (cleanupPendingUploads_follows limit)
  | unsafeSystemCleanupCompletedStaging limit =>
      exact wrapped _ (cleanupCompletedStaging_follows limit)
  | unsafeSystemRetryPendingDeletions limit =>
      exact wrapped _ (retryPendingDeletions_follows limit)
  | unsafeSystemRetireUploadTombstone id => exact wrapped _ (retireUploadTombstone_follows id)
  | unsafeSystemPurgeUnusedBefore cutoff =>
      exact wrapped _ (purgeUnusedBefore_follows cutoff)

end SdcoreNest.UploadedFile
