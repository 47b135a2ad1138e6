/-
# UploadedFile.Leases -- clocks, signed URLs and the completion lease

`Clocked` adds to `Chronicle` what the completion lease rests on.  A clock a worker
read is not ahead of that clock now.  A signed upload URL is made once, by the worker
that saved the row; on S3 nothing is in the staging area that no URL was handed out
for, so a row whose URL could not be made is never completed.  A completing row whose
deletion has begun has a lease that ran out.

`changed_under_lease` is the result: while a row is completing and its lease is in the
future on every clock, only an UPDATE that carries the same marker changes it.
-/
import SdcoreNest.UploadedFile.History

namespace SdcoreNest.UploadedFile

open SdcoreNest.Theory
open SdcoreNest.Theory.Machine

set_option autoImplicit false

variable {config : Config}

/-- The worker asked for a signed upload URL; `none` is a failure. -/
def Signing (past : Past) (key : StorageKey) (reply : Option String) : Prop :=
  ∃ contentType size expiresIn uploadId checksum,
    (⟨.createUploadUrl key contentType size expiresIn uploadId checksum, reply⟩ : Step sig) ∈ past

theorem Signing.mono {past past' : Past} (longer : past <:+ past') {key : StorageKey}
    {reply : Option String} (signing : Signing past key reply) : Signing past' key reply := by
  obtain ⟨contentType, size, expiresIn, uploadId, checksum, member⟩ := signing
  exact ⟨contentType, size, expiresIn, uploadId, checksum, longer.subset member⟩

structure Clocked (core : SystemCore config) : Prop extends Chronicle core where
  clocks : ∀ worker time, ReadClock (core.pastOf worker) time →
    time ≤ core.world.clock (.process worker.process)
  savedBy : ∀ worker row, Saved (core.pastOf worker) row →
    core.world.drawnBy row.id = some worker
  signing : ∀ worker key reply, Signing (core.pastOf worker) key reply →
    config.driver = .s3 ∧ ∃ saved, Saved (core.pastOf worker) saved ∧ saved.pendingKey = some key
  issuedTo : ∀ key ∈ core.world.issued, ∃ worker url, Signing (core.pastOf worker) key (some url)
  once : ∀ worker key url, Signing (core.pastOf worker) key none →
    ¬ Signing (core.pastOf worker) key (some url)
  staged : config.driver = .s3 → ∀ key, key.space = .pending → core.world.Stores key →
    key ∈ core.world.issued
  headed : config.driver = .s3 → ∀ worker key, key.space = .pending →
    Headed (core.pastOf worker) key → key ∈ core.world.issued
  completing : config.driver = .s3 → ∀ row ∈ core.world.table, row.status = .completing →
    ∀ key, row.pendingKey = some key → key ∈ core.world.issued
  overdue : ∀ row ∈ core.world.table, row.touched = true → row.status = .completing →
    ∀ marker, row.uploadPendingAt = some marker → ∃ host, marker ≤ core.world.clock host

theorem clocked_initial (time : Int) :
    Clocked (⟨World.initial time, [], []⟩ : SystemCore config) where
  toChronicle := chronicle_initial time
  clocks _ _ read := absurd read List.not_mem_nil
  savedBy _ row saved := absurd (.inl saved) (not_seen_nil row)
  signing _ _ _ signing := by
    obtain ⟨_, _, _, _, _, member⟩ := signing
    exact absurd member List.not_mem_nil
  issuedTo _ member := absurd member List.not_mem_nil
  once _ _ _ signing := by
    obtain ⟨_, _, _, _, _, member⟩ := signing
    exact absurd member List.not_mem_nil
  staged _ _ _ stored := absurd rfl stored
  headed _ _ _ _ headed := by
    obtain ⟨_, member⟩ := headed
    exact absurd member List.not_mem_nil
  completing _ row member := absurd member (Keyed.not_mem_empty row)
  overdue row member := absurd member (Keyed.not_mem_empty row)

/-! ## What one call does to objects and signed URLs -/

theorem exec_issued {deployment : Deployment} {world : World} {worker : Worker} {call : Call}
    {key : StorageKey} (issued : key ∈ (exec deployment world worker call).2.issued) :
    key ∈ world.issued ∨ ∃ contentType size expiresIn uploadId checksum,
      call = .createUploadUrl key contentType size expiresIn uploadId checksum := by
  cases call with
  | createUploadUrl key' contentType size expiresIn uploadId checksum =>
      rcases List.mem_cons.mp issued with rfl | old
      · exact .inr ⟨contentType, size, expiresIn, uploadId, checksum, rfl⟩
      · exact .inl old
  | transact statement count =>
      simp only [exec] at issued
      split at issued <;> exact .inl issued
  | putObject key object =>
      simp only [exec] at issued
      split at issued <;> exact .inl issued
  | uploadSigned key object =>
      simp only [exec] at issued
      split at issued <;> exact .inl issued
  | copyObject source destination sourceEtag =>
      simp only [exec] at issued
      split at issued
      · split at issued <;> exact .inl issued
      · exact .inl issued
  | link source destination =>
      simp only [exec] at issued
      split at issued <;> exact .inl issued
  | unlink key =>
      simp only [exec] at issued
      split at issued <;> exact .inl issued
  | _ => exact .inl issued

/-- The calls that store an object under a key. -/
def Call.writes (key : StorageKey) : Call → Prop
  | .putObject key' _ | .uploadSigned key' _ | .copyObject _ key' _ | .link _ key' => key' = key
  | _ => False

theorem exec_stores {deployment : Deployment} {world : World} {worker : Worker} {call : Call}
    {key : StorageKey} (stored : (exec deployment world worker call).2.Stores key) :
    world.Stores key ∨
      (call.writes key ∧ ∀ key' object, call = .uploadSigned key' object → key ∈ world.issued) := by
  have put : ∀ {key' object}, (world.objects.put key' object) key ≠ none →
      world.Stores key ∨ key' = key := by
    intro key' object present
    by_cases same : key' = key
    · exact .inr same
    · rw [Objects.put_of_ne _ _ (Ne.symm same)] at present
      exact .inl present
  cases call with
  | putObject key' object =>
      simp only [exec] at stored
      split at stored
      · exact .inl stored
      · exact (put stored).imp_right fun same => ⟨same, fun _ _ wrong => (by cases wrong)⟩
  | uploadSigned key' object =>
      simp only [exec] at stored
      split at stored
      · rename_i issued
        refine (put stored).imp_right fun same => ⟨same, fun _ _ _ => ?_⟩
        rw [← same]
        exact issued
      · exact .inl stored
  | copyObject source destination sourceEtag =>
      simp only [exec] at stored
      split at stored
      · split at stored
        · exact (put stored).imp_right fun same => ⟨same, fun _ _ wrong => (by cases wrong)⟩
        · exact .inl stored
      · exact .inl stored
  | link source destination =>
      simp only [exec] at stored
      split at stored
      · exact (put stored).imp_right fun same => ⟨same, fun _ _ wrong => (by cases wrong)⟩
      · exact .inl stored
  | unlink key' =>
      simp only [exec] at stored
      split at stored
      · left
        intro absent
        apply stored
        simp only [World.setObjects, Objects.remove]
        split
        · rfl
        · exact absent
      · exact .inl stored
  | delete keys =>
      left
      intro absent
      apply stored
      simp only [exec, World.setObjects, Objects.removeAll]
      split
      · rfl
      · exact absent
  | deleteObject key' =>
      left
      intro absent
      apply stored
      simp only [exec, World.setObjects, Objects.remove]
      split
      · rfl
      · exact absent
  | transact statement count =>
      simp only [exec] at stored
      split at stored <;> exact .inl stored
  | _ => exact .inl stored

/-- Only a client that was handed the URL stores an object from outside. -/
theorem move_stores {deployment : Deployment} {world world' : World} {m : Move}
    (moved : move deployment world m = some world') {key : StorageKey}
    (stored : world'.Stores key) : world.Stores key ∨ key ∈ world.issued := by
  cases m with
  | advance ms =>
      cases moved
      exact .inl stored
  | drift host ms =>
      cases moved
      exact .inl stored
  | clientPut key' object =>
      simp only [move] at moved
      split at moved
      · rename_i issued
        cases moved
        by_cases same : key = key'
        · rw [same]
          exact .inr issued.2
        · left
          simpa [World.Stores, World.setObjects, Objects.put_of_ne _ _ same] using stored
      · cases moved

/-! ## What one statement does to lease and status -/

namespace Statement

variable (clock : Moment) {statement : Statement} {row : Row}

/-- On a row whose deletion has begun `uploadPendingAt` stays or is dropped. -/
theorem uploadPendingAt_patch (chosen : statement.chosen row = true)
    (touched : row.touched = true) :
    (statement.patch clock row).uploadPendingAt = row.uploadPendingAt ∨
      (statement.patch clock row).uploadPendingAt = none := by
  rw [Row.touched_eq_true] at touched
  cases statement <;>
    simp_all [Statement.chosen, patch, Access.lifecycleWhere_eq_true]

/-- Only a claim of a pending upload begins a completion. -/
theorem completing_patch (completing : (statement.patch clock row).status = .completing) :
    row.status = .completing ∨
      ∃ snapshot access marker etag, statement = .claimCompletion snapshot access marker etag := by
  cases statement with
  | claimCompletion snapshot access marker etag => exact .inr ⟨snapshot, access, marker, etag, rfl⟩
  | claimById current access claim =>
      simp only [patch] at completing
      split at completing <;> cases completing
  | activateTemporaryPendingUpload saved access marker completedAt => cases completing
  | finalizeCompletion snapshot access marker completedAt etag checksum drop => cases completing
  | claimAbort snapshot access claim => cases completing
  | claimExpiredDirectUpload snapshot claim => cases completing
  | _ => exact .inl completing

/-- Only the retry sweep begins the deletion of a row and leaves its upload marker. -/
theorem touching_patch (chosen : statement.chosen row = true) (untouched : row.touched = false)
    (touched : (statement.patch clock row).touched = true)
    (marked : (statement.patch clock row).uploadPendingAt ≠ none) :
    ∃ snapshot claim, statement = .claimPendingDeletion snapshot claim := by
  rw [Row.touched_eq_false] at untouched
  rw [Row.touched_eq_true] at touched
  cases statement <;>
    simp_all [Statement.chosen, patch, Access.active_eq_true, Row.visible_eq_true,
      unusedBefore_eq_true, pendingDeletionWhere_eq_true]

end Statement

/-! ## Every admitted act keeps it -/

namespace Clocked

variable {core core' : SystemCore config} {act : Act (system config)}
  {ok : SystemCore config → Act (system config) → Prop}

section

variable (clocked : Clocked core)

include clocked

/-- The key of a staging object names the worker that saved the row. -/
theorem worker_of_key {worker other : Worker} {saved saved' : Row} {key : StorageKey}
    (mine : Saved (core.pastOf worker) saved) (staging : saved.pendingKey = some key)
    (theirs : Saved (core.pastOf other) saved') (staging' : saved'.pendingKey = some key) :
    worker = other := by
  have sound := clocked.shape worker saved (.inl mine)
  have sound' := clocked.shape other saved' (.inl theirs)
  have same : saved.id = saved'.id :=
    (sound.stagingId staging).symm.trans (sound'.stagingId staging')
  have drawn := clocked.savedBy worker saved mine
  rw [same, clocked.savedBy other saved' theirs] at drawn
  exact (Option.some.inj drawn).symm

/-- A key whose signing failed was never handed out. -/
theorem refused {worker : Worker} {key : StorageKey}
    (failed : Signing (core.pastOf worker) key none) : key ∉ core.world.issued := by
  intro issued
  obtain ⟨other, url, signed⟩ := clocked.issuedTo key issued
  obtain ⟨-, saved, mine, staging⟩ := clocked.signing worker key none failed
  obtain ⟨-, saved', theirs, staging'⟩ := clocked.signing other key (some url) signed
  have same := clocked.worker_of_key mine staging theirs staging'
  exact clocked.once worker key url failed (same ▸ signed)

end

variable (clocked : Clocked core)
  (admitted : Core.Admits (discipline config.toDeployment) ok core act core')

include clocked admitted

theorem clocks_step {worker : Worker} {time : Int} (read : ReadClock (core'.pastOf worker) time) :
    time ≤ core'.world.clock (.process worker.process) := by
  have forward := clocked.toKnown.forward admitted
  rcases admitted.answered read with old | ⟨-, rfl, -, -⟩
  · exact Int.le_trans (clocked.clocks worker time old) (forward.clock _)
  · exact forward.clock (.process worker.process)

theorem savedBy_step {worker : Worker} {row : Row} (saved : Saved (core'.pastOf worker) row) :
    core'.world.drawnBy row.id = some worker := by
  have forward := clocked.toKnown.forward admitted
  obtain ⟨given, member⟩ := saved
  rcases admitted.answered member with old | ⟨-, rfl, allows, -⟩
  · exact forward.drawnBy _ _ (clocked.savedBy worker row ⟨given, old⟩)
  · exact forward.drawnBy _ _ (clocked.drawn worker given.id allows.2.1)

theorem signing_step {worker : Worker} {key : StorageKey} {reply : Option String}
    (signing : Signing (core'.pastOf worker) key reply) :
    config.driver = .s3 ∧
      ∃ saved, Saved (core'.pastOf worker) saved ∧ saved.pendingKey = some key := by
  have longer := admitted.pastOf_suffix worker
  obtain ⟨contentType, size, expiresIn, uploadId, checksum, member⟩ := signing
  rcases admitted.mem_pastOf member with old | ⟨-, -, -, allows⟩
  · obtain ⟨driver, saved, mine, staging⟩ := clocked.signing worker key reply
      ⟨contentType, size, expiresIn, uploadId, checksum, old⟩
    exact ⟨driver, saved, mine.mono longer, staging⟩
  · obtain ⟨driver, ⟨saved, mine, staging⟩, -⟩ := allows
    exact ⟨driver, saved, mine.mono longer, staging⟩

theorem issuedTo_step {key : StorageKey} (issued : key ∈ core'.world.issued) :
    ∃ worker url, Signing (core'.pastOf worker) key (some url) := by
  have old : key ∈ core.world.issued → ∃ worker url, Signing (core'.pastOf worker) key (some url) := by
    intro there
    obtain ⟨worker, url, signed⟩ := clocked.issuedTo key there
    exact ⟨worker, url, signed.mono (admitted.pastOf_suffix worker)⟩
  cases performed : act.performed with
  | none =>
      rcases admitted.world_of_idle performed with same | ⟨m, -, moved⟩
      · rw [same] at issued
        exact old issued
      · rw [(clocked.toKnown.move_cases moved).2.2.2.2] at issued
        exact old issued
  | some done =>
      obtain ⟨worker, call⟩ := done
      have world : core'.world = (exec config.toDeployment core.world worker call).2 :=
        admitted.world_of_performed performed
      rw [world] at issued
      rcases exec_issued issued with there |
        ⟨contentType, size, expiresIn, uploadId, checksum, rfl⟩
      · exact old there
      · have acted := admitted.answer_of_performed clocked.due performed rfl
          fun other residual => by
            rcases mem_residue residual with rfl | ⟨_, _, -, -, wrong⟩
            · exact absurd residual List.not_mem_nil
            · cases wrong
        subst acted
        cases admitted with
        | issue allows alive enabled met =>
            refine ⟨worker, config.signedUploadUrl key, contentType, size, expiresIn, uploadId, checksum, ?_⟩
            rw [Core.pastOf_issue_self]
            exact List.mem_cons_self

theorem once_step {worker : Worker} {key : StorageKey} {url : String}
    (failed : Signing (core'.pastOf worker) key none)
    (signed : Signing (core'.pastOf worker) key (some url)) : False := by
  obtain ⟨contentType, size, expiresIn, uploadId, checksum, member⟩ := failed
  obtain ⟨contentType', size', expiresIn', uploadId', checksum', member'⟩ := signed
  rcases admitted.mem_pastOf member with old | ⟨mode, acted, replied, allows⟩
  · rcases admitted.mem_pastOf member' with old' | ⟨mode', acted', replied', allows'⟩
    · exact clocked.once worker key url ⟨_, _, _, _, _, old⟩ ⟨_, _, _, _, _, old'⟩
    · exact allows'.2.2 _ _ _ _ _ _ old
  · rcases admitted.mem_pastOf member' with old' | ⟨mode', acted', replied', allows'⟩
    · exact allows.2.2 _ _ _ _ _ _ old'
    · rw [acted] at acted'
      cases acted'
      cases mode with
      | answer => cases replied
      | refuse => cases replied'
      | lose => cases replied'
      | defer => cases replied'

theorem staged_step (driver : config.driver = .s3) {key : StorageKey}
    (staging : key.space = .pending) (stored : core'.world.Stores key) :
    key ∈ core'.world.issued := by
  have forward := clocked.toKnown.forward admitted
  have old : core.world.Stores key → key ∈ core'.world.issued :=
    fun there => forward.issued key (clocked.staged driver key staging there)
  cases performed : act.performed with
  | none =>
      rcases admitted.world_of_idle performed with same | ⟨m, -, moved⟩
      · rw [same] at stored
        exact old stored
      · rcases move_stores moved stored with there | issued
        · exact old there
        · exact forward.issued key issued
  | some done =>
      obtain ⟨worker, call⟩ := done
      have world : core'.world = (exec config.toDeployment core.world worker call).2 :=
        admitted.world_of_performed performed
      rw [world] at stored
      rcases exec_stores stored with there | ⟨writes, signed⟩
      · exact old there
      · have single : ∀ key', call ≠ .deleteObject key' := by
          rintro key' rfl
          exact writes
        obtain ⟨past, suffix, allows⟩ :=
          clocked.allowed_of_performed admitted performed single
        -- the final key of a row is not a staging key
        have direct : DirectKey past key → key ∈ core'.world.issued := by
          rintro ⟨row, read, -, rfl⟩
          exact absurd staging (clocked.toKnown.keySpace (.inr (read.mono suffix)))
        cases call with
        | putObject key' object =>
            cases writes
            rcases allows with ⟨-, local_⟩ | ⟨⟨saved, mine, rfl, -⟩, -⟩
            · rw [driver] at local_
              cases local_
            · exact absurd staging (clocked.toKnown.keySpace (.inl (mine.mono suffix)))
        | uploadSigned key' object => exact forward.issued key (signed key' object rfl)
        | copyObject source destination sourceEtag =>
            cases writes
            exact direct allows
        | link source destination =>
            cases writes
            exact direct allows
        | _ => exact writes.elim

theorem headed_step (driver : config.driver = .s3) {worker : Worker} {key : StorageKey}
    (staging : key.space = .pending) (headed : Headed (core'.pastOf worker) key) :
    key ∈ core'.world.issued := by
  have forward := clocked.toKnown.forward admitted
  obtain ⟨metadata, member⟩ := headed
  rcases admitted.answered member with old | ⟨-, found, -, -⟩
  · exact forward.issued key (clocked.headed driver worker key staging ⟨metadata, old⟩)
  · refine forward.issued key (clocked.staged driver key staging fun absent => ?_)
    have found : some metadata = (core.world.objects key).map (StoredObject.head _) := found
    rw [absent] at found
    cases found

theorem completing_step (driver : config.driver = .s3) {row : Row}
    (member : row ∈ core'.world.table) (completing : row.status = .completing)
    {key : StorageKey} (staging : row.pendingKey = some key) : key ∈ core'.world.issued := by
  have forward := clocked.toKnown.forward admitted
  rcases clocked.row_cases admitted member with ⟨there, -⟩ |
    ⟨old, there, worker, statement, -, chosen, ⟨past, suffix, allowed⟩, rfl⟩ | ⟨newborn, -⟩
  · exact forward.issued key (clocked.completing driver row there completing key staging)
  · have kept : old.pendingKey = some key := by
      rcases Statement.staging_patch core.world.timestamp statement old with same | gone
      · exact same ▸ staging
      · rw [gone] at staging
        cases staging
    rcases Statement.completing_patch _ completing with already |
      ⟨snapshot, access, marker, etag, rfl⟩
    · exact forward.issued key (clocked.completing driver old there already key kept)
    · -- the claim followed a HEAD request that found the staging object
      obtain ⟨read, -, -, ⟨key', staging', headed⟩, -⟩ := allowed
      obtain ⟨current, present, later⟩ := clocked.seen worker snapshot (.inr (read.mono suffix))
      simp only [Statement.chosen, Bool.and_eq_true] at chosen
      have named := (Access.lifecycleWhere_eq_true.mp chosen.1.1).1
      have itself := Keyed.eq_of_key there present (named.trans later.sameFile.id.symm)
      subst itself
      have same : key' = key := by
        rcases later.staging with equal | gone
        · rw [equal, staging'] at kept
          exact Option.some.inj kept
        · rw [gone] at kept
          cases kept
      have space : key'.space = .pending := by
        have sound := clocked.shape worker snapshot (.inr (read.mono suffix))
        rw [(sound.staging key' staging').1]
      rw [← same]
      exact forward.issued key' (clocked.headed driver worker key' space (headed.mono suffix))
  · exact absurd completing newborn.unclaimed

theorem overdue_step {row : Row} (member : row ∈ core'.world.table) (touched : row.touched = true)
    (completing : row.status = .completing) {marker : Int}
    (marked : row.uploadPendingAt = some marker) :
    ∃ host, marker ≤ core'.world.clock host := by
  have forward := clocked.toKnown.forward admitted
  have later : (∃ host, marker ≤ core.world.clock host) →
      ∃ host, marker ≤ core'.world.clock host := fun ⟨host, reached⟩ =>
    ⟨host, Int.le_trans reached (forward.clock host)⟩
  rcases clocked.row_cases admitted member with ⟨there, -⟩ |
    ⟨old, there, worker, statement, -, chosen, ⟨past, suffix, allowed⟩, rfl⟩ | ⟨newborn, -⟩
  · exact later (clocked.overdue row there touched completing marker marked)
  · cases begun : old.touched with
    | true =>
        have marked' : old.uploadPendingAt = some marker := by
          rcases Statement.uploadPendingAt_patch _ chosen begun with same | gone
          · exact same ▸ marked
          · rw [gone] at marked
            cases marked
        have completing' : old.status = .completing := by
          rcases Statement.completing_patch _ completing with already | ⟨_, _, _, _, rfl⟩
          · exact already
          · simp only [Statement.chosen, Bool.and_eq_true] at chosen
            obtain ⟨-, -, deleted, pending⟩ := Access.lifecycleWhere_eq_true.mp chosen.1.1
            rw [Row.touched_eq_false.mpr ⟨deleted, pending⟩] at begun
            cases begun
        exact later (clocked.overdue old there begun completing' marker marked')
    | false =>
        obtain ⟨snapshot, claim, rfl⟩ := Statement.touching_patch _ chosen begun touched
          (by simp [marked])
        obtain ⟨-, mint, time, due, drawn, read, selected, -⟩ := allowed
        obtain ⟨-, -, uploading, deleting⟩ := Row.sameMarkers_eq_true.mp chosen
        obtain ⟨-, unclaimed⟩ := Row.touched_eq_false.mp begun
        have marked : old.uploadPendingAt = some marker := marked
        -- no deletion marker: the sweep selected the row by its upload marker
        have passed : marker < time := by
          rw [unclaimed] at deleting
          rw [marked] at uploading
          simp [selectedMarker, ← deleting, ← uploading] at selected
          exact selected.1
        have clock := clocked.clocks worker time
          ((read.mono (minted_older drawn)).mono suffix)
        exact later ⟨_, Int.le_trans (Int.le_of_lt passed) clock⟩
  · rw [newborn.untouched] at touched
    cases touched

end Clocked

theorem clocked_keeps (config : Config) :
    Keeps (discipline config.toDeployment) (fun _ _ => True) (@Clocked config) where
  credible clocked := (known_keeps config).credible clocked.toKnown
  admits clocked admitted :=
    { toChronicle := (chronicle_keeps config).admits clocked.toChronicle admitted
      clocks := fun _ _ => clocked.clocks_step admitted
      savedBy := fun _ _ => clocked.savedBy_step admitted
      signing := fun _ _ _ => clocked.signing_step admitted
      issuedTo := fun _ => clocked.issuedTo_step admitted
      once := fun _ _ _ => clocked.once_step admitted
      staged := fun driver _ => clocked.staged_step admitted driver
      headed := fun driver _ _ => clocked.headed_step admitted driver
      completing := fun driver _ member completing _ =>
        clocked.completing_step admitted driver member completing
      overdue := fun _ member touched completing _ =>
        clocked.overdue_step admitted member touched completing }

/-! ## Under a running lease -/

/-- The statements a completion issues under its lease, with the lease's marker. -/
def Statement.leaseMarker : Statement → Option Int
  | .markCompletionRetryable _ _ marker _ => some marker
  | .finalizeCompletion _ _ marker _ _ _ _ => some marker
  | _ => none

/-- The worker's claim or re-claim of the completion of the row was answered: it was granted
the lease `marker`. -/
def LeaseGranted (past : Past) (id : Uuid) (marker : Int) : Prop :=
  ∃ snapshot access etag, snapshot.id = id ∧
    ((⟨.update (.claimCompletion snapshot access marker etag), some 1⟩ : Step sig) ∈ past ∨
      (⟨.update (.reclaimCompletion snapshot access marker etag), some 1⟩ : Step sig) ∈ past)

theorem Leased.granted {past past' : Past} (longer : past <:+ past') {row : Row} {marker : Int}
    (leased : Leased past row marker) : LeaseGranted past' row.id marker := by
  obtain ⟨snapshot, access, etag, granted, -, same, -⟩ := leased.mono longer
  exact ⟨snapshot, access, etag, same.id.symm, granted⟩

namespace Clocked

variable {core core' : SystemCore config} {act : Act (system config)}
  {ok : SystemCore config → Act (system config) → Prop} (clocked : Clocked core)

include clocked

/-- The row of an upload that failed before a client could use it is not completing. -/
theorem not_completing_of_abandoned {worker : Worker} {saved row : Row}
    (mine : Saved (core.pastOf worker) saved) (abandoned : Abandoned (core.pastOf worker) saved)
    (member : row ∈ core.world.table) (same : row.id = saved.id) : row.status ≠ .completing := by
  intro completing
  obtain ⟨current, present, later⟩ := clocked.seen worker saved (.inl mine)
  have itself := Keyed.eq_of_key member present (same.trans later.sameFile.id.symm)
  subst itself
  have sound := clocked.good.sound row member
  rcases abandoned with server | ⟨key, _, _, _, _, _, staging, failed⟩
  · -- rows that the server writes itself are never completing
    have server : row.uploadExpiredAt = none := later.sameFile.uploadExpiredAt.trans server
    cases temporary : row.isTemporary with
    | false => simp [(sound.permanent server temporary).1] at completing
    | true => exact (sound.temporary server temporary).1 completing
  · have failed : Signing (core.pastOf worker) key none := ⟨_, _, _, _, _, failed⟩
    have driver := (clocked.signing worker key none failed).1
    have kept : row.pendingKey = some key := by
      rcases later.staging with equal | gone
      · exact equal.trans staging
      · have direct : row.uploadExpiredAt ≠ none := by
          rw [later.sameFile.uploadExpiredAt]
          exact ((clocked.shape worker saved (.inl mine)).staging key staging).2
        exact absurd gone (sound.stagingKept direct (by simp [completing]))
    exact clocked.refused failed (clocked.completing driver row member completing key kept)

/-- A statement that chooses a row under a running lease carries the lease's marker. -/
theorem leaseMarker_of_chosen {worker : Worker} {statement : Statement} {past : Past}
    (suffix : past <:+ core.pastOf worker) (allowed : statement.Allowed config.driver past)
    {row : Row} (member : row ∈ core.world.table) (chosen : statement.chosen row = true)
    (completing : row.status = .completing) {marker : Int}
    (marked : row.uploadPendingAt = some marker)
    (future : ∀ host, core.world.clock host < marker) :
    statement.leaseMarker = some marker ∧ LeaseGranted (core.pastOf worker) row.id marker := by
  have untouched : row.touched = false := by
    cases touched : row.touched with
    | false => rfl
    | true =>
        obtain ⟨host, reached⟩ := clocked.overdue row member touched completing marker marked
        have := future host
        omega
  have markers := Row.touched_eq_false.mp untouched
  -- no worker has read a clock that the lease has reached
  have early : ∀ time, ReadClock past time → time < marker := by
    intro time read
    have read := clocked.clocks worker time (read.mono suffix)
    have := future (.process worker.process)
    omega
  have sound := clocked.good.sound row member
  have fits := World.fits_of_rooted (clocked.toKnown.rooted suffix allowed) member chosen
  have wrong : ∀ {p : Prop}, row.visible = true → p := by
    intro p visible
    have none := (Row.visible_eq_true.mp visible).2.1
    rw [marked] at none
    cases none
  cases statement with
  | finalizeCompletion snapshot access marker' completedAt etag checksum drop =>
      simp only [Statement.chosen, Bool.and_eq_true, decide_eq_true_eq] at chosen
      obtain ⟨⟨where_, -⟩, same⟩ := chosen
      rw [marked, Option.some.injEq] at same
      rw [(Access.lifecycleWhere_eq_true.mp where_).1, same]
      exact ⟨rfl, allowed.1.granted suffix⟩
  | markCompletionRetryable snapshot access marker' retryAt =>
      simp only [Statement.chosen, Bool.and_eq_true, decide_eq_true_eq] at chosen
      obtain ⟨⟨where_, -⟩, same⟩ := chosen
      rw [marked, Option.some.injEq] at same
      rw [(Access.lifecycleWhere_eq_true.mp where_).1, same]
      exact ⟨rfl, allowed.1.granted suffix⟩
  | activatePendingUpload saved access marker' =>
      simp [(sound.permanent fits.1 fits.2).1] at completing
  | activateTemporaryPendingUpload saved access marker' completedAt =>
      exact absurd completing (sound.temporary fits.1 fits.2).1
  | claimFailedUpload saved access marker' claim =>
      refine absurd completing (clocked.not_completing_of_abandoned (allowed.1.mono suffix)
        (allowed.2.1.mono suffix) member ?_)
      exact (Access.pendingUploadWhere_eq_true.mp chosen).1
  | settleFailedUpload current access claim =>
      obtain ⟨⟨saved, mine, abandoned, named⟩, -, -⟩ := allowed
      simp only [Statement.chosen, Bool.and_eq_true] at chosen
      refine absurd completing (clocked.not_completing_of_abandoned (mine.mono suffix)
        (abandoned.mono suffix) member ?_)
      exact (Row.sameMarkers_eq_true.mp chosen.2).1.trans named
  | releaseDeletionClaim rows claim access retryAt =>
      have claimed := (pendingDeletionWhere_eq_true.mp chosen).2.2.2.2
      rw [markers.2] at claimed
      cases claimed
  | finalizePendingRows rows claim access =>
      have claimed := (pendingDeletionWhere_eq_true.mp chosen).2.2.2.2
      rw [markers.2] at claimed
      cases claimed
  | clearFinalizedDeletionClaim rows claim access =>
      simp [Statement.chosen, markers.1] at chosen
  | claimCompletion snapshot access marker' etag =>
      simp [Statement.chosen, completing] at chosen
  | reclaimCompletion snapshot access marker' etag =>
      obtain ⟨-, -, time, read, -, ended⟩ := allowed
      simp only [Statement.chosen, Bool.and_eq_true, decide_eq_true_eq] at chosen
      have := ended marker (chosen.1.2.symm.trans marked)
      have := early time read
      omega
  | claimAbort snapshot access claim =>
      simp only [Statement.chosen, Bool.and_eq_true, decide_eq_true_eq] at chosen
      obtain ⟨time, read, ended⟩ := allowed.2.2.1 (chosen.1.2.symm.trans completing) marker
        (chosen.2.symm.trans marked)
      have := early time read
      omega
  | claimById current access claim =>
      simp only [Statement.chosen, Bool.and_eq_true, decide_eq_true_eq] at chosen
      obtain ⟨time, read, ended⟩ := allowed.2.1 (chosen.1.2.symm.trans completing) marker
        (chosen.2.symm.trans marked)
      have := early time read
      omega
  | claimExpiredDirectUpload snapshot claim =>
      obtain ⟨-, -, time, due, read, held, ended, -⟩ := allowed
      simp only [Statement.chosen, Bool.and_eq_true] at chosen
      obtain ⟨-, -, uploading, -⟩ := Row.sameMarkers_eq_true.mp chosen.1
      rw [marked, held, Option.some.injEq] at uploading
      have := early time read
      omega
  | claimPendingDeletion snapshot claim =>
      obtain ⟨-, mint, time, due, drawn, read, selected, -⟩ := allowed
      obtain ⟨-, -, uploading, deleting⟩ := Row.sameMarkers_eq_true.mp chosen
      rw [markers.2] at deleting
      rw [marked] at uploading
      simp [selectedMarker, ← deleting, ← uploading] at selected
      have := early time (read.mono (minted_older drawn))
      omega
  | retireUploadTombstone snapshot retryAt =>
      obtain ⟨-, time, moment, due, read, -, held, ended, -⟩ := allowed
      obtain ⟨-, -, uploading, -⟩ := Row.sameMarkers_eq_true.mp chosen
      rw [marked, held, Option.some.injEq] at uploading
      have := early time read
      omega
  | clearPendingKey snapshot => simp [Statement.chosen, completing] at chosen
  | claimReferences rows access claim =>
      simp only [Statement.chosen, Bool.and_eq_true] at chosen
      exact wrong (Access.active_eq_true.mp chosen.1).2
  | claimExpiredTemporaryFile snapshot claim =>
      simp only [Statement.chosen, Bool.and_eq_true] at chosen
      exact wrong chosen.2
  | claimUnused rows cutoff claim =>
      simp only [Statement.chosen, Bool.and_eq_true] at chosen
      exact wrong (unusedBefore_eq_true.mp chosen.1).1
  | markUsed ids access metadata =>
      simp only [Statement.chosen, Bool.and_eq_true] at chosen
      exact wrong (Access.active_eq_true.mp chosen.1).2
  | setExtraData id access extraData =>
      simp only [Statement.chosen, Bool.and_eq_true] at chosen
      exact wrong (Access.active_eq_true.mp chosen.1).2

/-- While a row is completing and its lease is in the future on every clock, only an UPDATE
under the same marker changes it, issued by a worker that was granted that marker. -/
theorem changed_under_lease
    (admitted : Core.Admits (discipline config.toDeployment) ok core act core') {row row' : Row}
    (member : row ∈ core.world.table) (member' : row' ∈ core'.world.table)
    (same : row'.id = row.id) (completing : row.status = .completing) {marker : Int}
    (marked : row.uploadPendingAt = some marker)
    (future : ∀ host, core.world.clock host < marker) (changed : row' ≠ row) :
    ∃ worker statement, statementOf ⟨act, core.world⟩ = some (worker, statement) ∧
      statement.leaseMarker = some marker ∧ LeaseGranted (core.pastOf worker) row.id marker := by
  rcases clocked.row_step admitted member member' same with unchanged |
    ⟨worker, statement, carried, chosen, ⟨past, suffix, allowed⟩, -⟩
  · exact absurd unchanged changed
  · exact ⟨worker, statement, carried,
      clocked.leaseMarker_of_chosen suffix allowed member chosen completing marked future⟩

end Clocked

end SdcoreNest.UploadedFile
