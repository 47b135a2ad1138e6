/-
# UploadedFile.Confinement -- what a request with one access asks for

A request carries its access into every statement: each query and each update of it has the scope
columns of that access in its criteria, each row it inserts is one of that access, and each object it
touches belongs to a row that it read or is about to save.  `confinement access` is the conduct that
says so, call by call, and every request of the service follows it.
-/
import SdcoreNest.UploadedFile.Discipline
import SdcoreNest.UploadedFile.System

namespace SdcoreNest.UploadedFile

open SdcoreNest.Theory

set_option autoImplicit false

/-! ## Criteria -/

/-- The access whose columns are in the WHERE clause. -/
def Statement.access : Statement → Option Access
  | .activatePendingUpload _ access _
  | .activateTemporaryPendingUpload _ access _ _
  | .claimFailedUpload _ access _ _
  | .settleFailedUpload _ access _
  | .markCompletionRetryable _ access _ _
  | .claimCompletion _ access _ _
  | .reclaimCompletion _ access _ _
  | .finalizeCompletion _ access _ _ _ _ _
  | .claimAbort _ access _
  | .claimReferences _ access _
  | .claimById _ access _
  | .markUsed _ access _
  | .setExtraData _ access _ => some access
  | .releaseDeletionClaim _ _ access _
  | .finalizePendingRows _ _ access
  | .clearFinalizedDeletionClaim _ _ access => access
  | .claimExpiredDirectUpload _ _
  | .clearPendingKey _
  | .claimExpiredTemporaryFile _ _
  | .claimPendingDeletion _ _
  | .retireUploadTombstone _ _
  | .claimUnused _ _ _ => none

/-- The access a query asks the row to have, if it asks. -/
def Query.access : Query → Option Access
  | .confirmedActiveUpload _ access
  | .currentUpload _ access
  | .lifecycle access _
  | .authorized access _
  | .byReferences access _ _
  | .byIds access _ => some access
  | _ => none

/-- A statement with an access changes rows that the access covers. -/
theorem Statement.covers_of_chosen {statement : Statement} {access : Access} {row : Row}
    (carried : statement.access = some access) (chosen : statement.chosen row = true) :
    access.covers row = true := by
  cases statement <;> simp only [Statement.access, Option.some.injEq, reduceCtorEq] at carried <;>
    subst carried <;> simp only [Statement.chosen] at chosen
  case activatePendingUpload | activateTemporaryPendingUpload | claimFailedUpload =>
      exact Access.covers_of_owns (Access.pendingUploadWhere_eq_true.mp chosen).2.1
  case settleFailedUpload => exact Access.covers_of_owns (by simp_all)
  case releaseDeletionClaim | finalizePendingRows =>
      exact (pendingDeletionWhere_eq_true.mp chosen).2.1
  case clearFinalizedDeletionClaim =>
      simp only [Bool.and_eq_true] at chosen
      exact chosen.1.1.1.2
  case markUsed | setExtraData | claimReferences =>
      simp only [Bool.and_eq_true] at chosen
      exact (Access.active_eq_true.mp chosen.1).1
  all_goals
    simp only [Bool.and_eq_true, Access.lifecycleWhere_eq_true] at chosen
    simp_all

/-- A query with an access finds rows that the access covers. -/
theorem Query.covers_of_chosen {keyText : StorageKey → String} {query : Query} {access : Access}
    {row : Row} (carried : query.access = some access) (chosen : query.chosen keyText row = true) :
    access.covers row = true := by
  cases query <;> simp only [Query.access, Option.some.injEq, reduceCtorEq] at carried <;>
    subst carried <;> simp only [Query.chosen] at chosen
  case confirmedActiveUpload | currentUpload => exact Access.covers_of_owns (by simp_all)
  case lifecycle => exact (Access.lifecycleWhere_eq_true.mp chosen).2.1
  all_goals
    simp only [Bool.and_eq_true] at chosen
    exact (Access.active_eq_true.mp chosen.1).1

/-! ## The conduct -/

/-- The key belongs to a row that was read, or its id was drawn. -/
def Reached (past : Past) (key : StorageKey) : Prop :=
  (∃ row, Read past row ∧ key ∈ row.keys) ∨ (⟨.randomUUID, some key.id⟩ : Step sig) ∈ past

/-- The objects of a row are reached. -/
def KeysReached (past : Past) (row : Row) : Prop := ∀ key ∈ row.keys, Reached past key

/-- Which call a request with an access may issue. -/
def Confined (access : Access) (past : Past) : Call → Prop
  | .findOne query => query.access = some access
  | .find query => query.access = some access
  | .save row => access.owns row = true ∧ (⟨.randomUUID, some row.id⟩ : Step sig) ∈ past ∧
      ∀ key ∈ row.keys, key.id = row.id
  | .update statement => statement.access = some access
  | .transact statement _ => statement.access = some access
  | .headObject key => Reached past key
  | .putObject key _ => Reached past key
  | .uploadSigned _ _ => False
  | .copyObject source destination _ => Reached past source ∧ Reached past destination
  | .link source destination => Reached past source ∧ Reached past destination
  | .unlink key => Reached past key
  | .delete keys => ∀ key ∈ keys, Reached past key
  | .deleteObject key => Reached past key
  | .download key => Reached past key
  | _ => True

/-- A saved row comes back as it was sent, but for the time the database stamps on it. -/
def confinement (access : Access) : Conduct sig where
  allows := Confined access
  credible
    | ⟨.save row, some saved⟩ => ∃ time, saved = { row with createdAt := time }
    | _ => True

section Monotone

variable {past past' : Past} (longer : past <:+ past')

include longer

/-- What was read or drawn stays so. -/
theorem Reached.mono {key : StorageKey} (held : Reached past key) : Reached past' key := by
  rcases held with ⟨row, read, listed⟩ | drawn
  · exact .inl ⟨row, read.mono longer, listed⟩
  · exact .inr (longer.subset drawn)

theorem KeysReached.mono {row : Row} (held : KeysReached past row) : KeysReached past' row :=
  fun key listed => (held key listed).mono longer

end Monotone

section

variable {past : Past} {row : Row}

/-- The keys of a row that was read are reached. -/
theorem keysReached_of_read (read : Read past row) : KeysReached past row :=
  fun _ listed => .inl ⟨row, read, listed⟩

theorem KeysReached.final (held : KeysReached past row) : Reached past row.key :=
  held row.key (List.mem_cons_self ..)

theorem KeysReached.staging (held : KeysReached past row) {key : StorageKey}
    (keyed : row.pendingKey = some key) : Reached past key :=
  held key (List.mem_cons_of_mem _ (by simp [keyed]))

/-- A row with the same keys is as good. -/
theorem KeysReached.same (held : KeysReached past row) {other : Row} (key : other.key = row.key)
    (pendingKey : other.pendingKey = row.pendingKey) : KeysReached past other := by
  intro inside listed
  unfold Row.keys at listed
  rw [key, pendingKey] at listed
  exact held inside listed

/-- So are the keys of many rows, which a deletion hands to the store at once. -/
theorem reached_objectKeys {rows : List Row} (held : ∀ row ∈ rows, KeysReached past row) :
    ∀ key ∈ objectKeys rows, Reached past key := by
  intro key listed
  obtain ⟨row, member, inside⟩ := List.mem_flatMap.mp (List.mem_eraseDups.mp listed)
  exact held row member key inside

end

/-! ## Deleting claimed rows -/

section Programs

variable {access : Access} {past : Past}

theorem releaseDeletionClaim_confined (rows : List Row) (claim : Int) :
    Follows (confinement access) (releaseDeletionClaim rows claim (some access)) past anyhow := by
  unfold releaseDeletionClaim
  split
  · trivial
  · refine Follows.ask_bind trivial (fun now _ => ?_) fun _ => trivial
    exact Follows.ask_bind rfl (fun _ _ => trivial) fun _ => trivial

theorem clearFinalizedDeletionClaim_confined (rows : List Row) (claim : Int) :
    Follows (confinement access) (clearFinalizedDeletionClaim rows claim (some access)) past anyhow := by
  unfold clearFinalizedDeletionClaim
  split
  · trivial
  · refine Follows.ask_bind rfl (fun affected _ => ?_) fun _ => trivial
    split <;> trivial

/-- The deletion goes to the keys of the claimed rows, and its UPDATEs carry the access of the
claim. -/
theorem deleteAndFinalizePendingRows_confined {rows : List Row} (claim : Int)
    (held : ∀ row ∈ rows, KeysReached past row) :
    Follows (confinement access) (deleteAndFinalizePendingRows rows claim (some access)) past anyhow := by
  unfold deleteAndFinalizePendingRows
  split
  · trivial
  · rename_i nonempty
    have released : ∀ (error : ServiceError) past', Follows (confinement access)
        (do swallow (releaseDeletionClaim rows claim (some access)); throw error : Service Nat)
        past' anyhow := by
      intro error past'
      rw [follows_bind]
      exact (releaseDeletionClaim_confined rows claim).swallowed fun _ _ => trivial
    rw [follows_tryCatch]
    refine Follows.ask_bind (reached_objectKeys held) (fun _ _ => ?_) fun _ => released _ _
    simp only [finalizePendingRows, nonempty]
    refine Follows.ask_bind rfl (fun finalized _ => ?_) fun _ => released _ _
    split
    · rw [follows_bind]
      exact (clearFinalizedDeletionClaim_confined rows claim).swallowed fun _ _ => trivial
    · exact released _ _

/-- Every attempt reads the row again within the access. The induction is on the attempts left. -/
theorem deleteWrittenObject_confined (saved : Row) (marker : Int) (attempts : Nat) :
    Follows (confinement access)
      (deleteWrittenObjectWhenActivationIsImpossible saved access marker attempts) past anyhow := by
  induction attempts generalizing past with
  | zero => trivial
  | succ attempts ih =>
      refine Follows.tryAsk_bind rfl fun reply _ => ?_
      match reply with
      | none => trivial
      | some none => trivial
      | some (some current) =>
          simp only
          split
          · trivial
          · refine Follows.ask_bind trivial (fun claim _ => ?_) fun _ => trivial
            refine Follows.tryAsk_bind rfl fun claimed _ => ?_
            match claimed with
            | none => trivial
            | some affected =>
                simp only
                split
                · refine (deleteAndFinalizePendingRows_confined claim ?_).swallowed fun _ _ => trivial
                  intro row listed
                  obtain rfl := List.mem_singleton.mp listed
                  have read : KeysReached (⟨.findOne (.currentUpload saved access),
                      some (some current)⟩ :: past) current :=
                    keysReached_of_read (.inl ⟨_, List.mem_cons_self⟩)
                  exact (read.mono ⟨[_, _], rfl⟩).same rfl rfl
                · exact ih

/-- A failed upload deletes the object of the row it inserted itself. -/
theorem cleanupFailedUpload_confined {saved : Row} (marker : Int) (held : KeysReached past saved) :
    Follows (confinement access) (cleanupFailedUpload saved access marker) past anyhow := by
  refine Follows.ask_bind trivial (fun claim _ => ?_) fun _ => trivial
  refine Follows.tryAsk_bind rfl fun claimed _ => ?_
  split
  · refine (deleteAndFinalizePendingRows_confined claim ?_).swallowed fun _ _ => trivial
    intro row listed
    obtain rfl := List.mem_singleton.mp listed
    exact (held.mono ⟨[_, _], rfl⟩).same rfl rfl
  · exact deleteWrittenObject_confined saved marker 3

end Programs

/-! ## Completion -/

section DirectUploads

variable {config : Config} {access : Access} {past : Past}

/-- Signing touches no row and no object. -/
theorem resolveRowUrl_confined (row : Row) :
    Follows (confinement access) (resolveRowUrl config row) past anyhow := by
  unfold resolveRowUrl
  refine Follows.ask_bind trivial (fun now _ => ?_) fun _ => trivial
  refine Follows.check_bind (fun _ _ => ?_) fun _ => trivial
  split
  · trivial
  · split
    · trivial
    · split
      · trivial
      · refine Follows.tryAsk_bind trivial fun reply _ => ?_
        cases reply <;> trivial

theorem toUploadedFileResult_confined (row : Row) :
    Follows (confinement access) (toUploadedFileResult config row) past anyhow := by
  unfold toUploadedFileResult
  exact Follows.seq (fun _ _ => True) (resolveRowUrl_confined row) (fun _ _ _ _ => trivial)
    fun _ _ _ => trivial

/-- It never returns, so any postcondition of a returned value holds. -/
theorem failRetryable_confined {α : Type} {post : α → Past → Prop} (row : Row) (marker : Int)
    (error : ServiceError) :
    Follows (confinement access) (failRetryable row access marker error : Service α) past
      (returning post) := by
  unfold failRetryable markCompletionRetryable
  rw [follows_bind]
  refine Follows.ask_bind trivial (fun now _ => ?_) fun _ => trivial
  exact Follows.tryAsk_bind rfl fun _ _ => trivial

/-- The lease is on the row itself. -/
def sameKeys (row : Row) : Claimed → Past → Prop
  | .lease leased, _ => leased.key = row.key ∧ leased.pendingKey = row.pendingKey
  | .settled _, _ => True

theorem settledResult_confined (row current : Row) :
    Follows (confinement access)
      (do let result ← toUploadedFileResult config current; pure (.settled result) :
        Service Claimed) past (returning (sameKeys row)) :=
  Follows.seq (fun _ _ => True) (toUploadedFileResult_confined current)
    (fun _ _ _ _ => trivial) fun _ _ _ => trivial

/-- The lease is asked for within the access, and the leased row has the keys that were read. -/
theorem claimPendingCompletion_confined (row : Row) (marker : Int) (staging : ObjectMetadata) :
    Follows (confinement access) (claimPendingCompletion config row access marker staging) past
      (returning (sameKeys row)) := by
  unfold claimPendingCompletion
  refine Follows.ask_bind rfl (fun affected _ => ?_) fun _ => trivial
  split
  · exact ⟨rfl, rfl⟩
  · refine Follows.ask_bind rfl (fun current _ => ?_) fun _ => trivial
    match current with
    | none => trivial
    | some current =>
        simp only
        split
        · exact settledResult_confined row current
        · trivial
        · trivial

theorem reclaimCompletion_confined (row : Row) (now marker : Int) (staging : ObjectMetadata) :
    Follows (confinement access) (reclaimCompletion config row access now marker staging) past
      (returning (sameKeys row)) := by
  unfold reclaimCompletion
  split
  · trivial
  · split
    · trivial
    · refine Follows.ask_bind rfl (fun affected _ => ?_) fun _ => trivial
      split
      · exact ⟨rfl, rfl⟩
      · refine Follows.ask_bind rfl (fun current _ => ?_) fun _ => trivial
        match current with
        | none => trivial
        | some current =>
            simp only
            split
            · exact settledResult_confined row current
            · trivial

/-- Either lease, with the keys unchanged. -/
theorem claimCompletionLease_confined (row : Row) (now : Int) (staging : ObjectMetadata) :
    Follows (confinement access) (claimCompletionLease config row access now staging) past
      (returning (sameKeys row)) := by
  unfold claimCompletionLease
  split
  · exact claimPendingCompletion_confined row _ staging
  · exact reclaimCompletion_confined row now _ staging

/-- The object moves between two keys that are both reached. -/
theorem promoteObject_confined {source destination : StorageKey} (etag : Option Etag)
    (staged : Reached past source) (final : Reached past destination) :
    Follows (confinement access) (promoteObject config source destination etag) past anyhow := by
  unfold promoteObject
  split
  · refine Follows.ask_bind ⟨staged, final⟩ (fun copied _ => ?_) fun _ => trivial
    split <;> trivial
  · refine Follows.ask_bind ⟨staged, final⟩ (fun linked _ => ?_) fun _ => trivial
    split
    · refine Follows.ask_bind (staged.mono (List.suffix_cons _ _)) (fun removed _ => ?_)
        fun _ => trivial
      split <;> trivial
    · trivial

theorem promotedObject_confined {row : Row} {pendingKey : StorageKey} (etag : Option Etag)
    (staged : Reached past pendingKey) (final : Reached past row.key) :
    Follows (confinement access) (promotedObject config row pendingKey etag) past anyhow := by
  unfold promotedObject
  refine Follows.ask_bind final (fun existing _ => ?_) fun _ => trivial
  match existing with
  | some metadata => trivial
  | none =>
      have longer := List.suffix_cons (⟨.headObject row.key, some none⟩ : Step sig) past
      refine Follows.seq (fun _ _ => True)
        (promoteObject_confined etag (staged.mono longer) (final.mono longer)) ?_ fun _ _ _ => trivial
      intro _ past' longer' _
      exact Follows.ask ((final.mono longer).mono longer') (fun _ _ => trivial) fun _ => trivial

/-- The last UPDATE is within the access; when it misses, the row is read again within it. -/
theorem finalizeCompletion_confined (row : Row) (marker : Int) (final : ObjectMetadata) :
    Follows (confinement access) (finalizeCompletion config row access marker final) past anyhow := by
  unfold finalizeCompletion
  refine Follows.ask_bind trivial (fun completedAt _ => ?_) fun _ => trivial
  refine Follows.tryAsk_bind rfl fun reply _ => ?_
  match reply with
  | none =>
      refine Follows.tryAsk_bind rfl fun current _ => ?_
      split
      · split
        · exact toUploadedFileResult_confined _
        · exact failRetryable_confined row marker _
      · exact failRetryable_confined row marker _
  | some affected =>
      simp only
      split
      · exact toUploadedFileResult_confined _
      · refine Follows.ask_bind rfl (fun current _ => ?_) fun _ => trivial
        match current with
        | none => trivial
        | some current =>
            simp only
            split
            · exact toUploadedFileResult_confined _
            · trivial

/-- Under a lease only the two keys of the leased row are touched. -/
theorem completeUnderLease_confined {row : Row} {pendingKey : StorageKey} (marker : Int)
    (etag : Option Etag) (staged : Reached past pendingKey) (final : Reached past row.key) :
    Follows (confinement access) (completeUnderLease config row access marker pendingKey etag) past
      anyhow := by
  unfold completeUnderLease
  refine Follows.seq (fun _ _ => True) ?_ ?_ fun _ _ _ => trivial
  · exact Follows.catching (promotedObject_confined etag staged final) (fun _ _ _ => trivial)
      fun _ _ _ => failRetryable_confined row marker _
  · intro found past' longer _
    match found with
    | none => exact failRetryable_confined row marker _
    | some metadata =>
        simp only
        split
        · split
          · exact finalizeCompletion_confined row marker metadata
          · refine Follows.tryAsk_bind (staged.mono longer) fun removed _ => ?_
            match removed with
            | none => exact failRetryable_confined row marker _
            | some _ => exact finalizeCompletion_confined row marker metadata
        · exact failRetryable_confined row marker _

/-- A completion stays with the row it was started on. -/
theorem completeManagedUpload_confined {row : Row} (held : KeysReached past row) :
    Follows (confinement access) (completeManagedUpload config row access) past anyhow := by
  unfold completeManagedUpload
  split
  · exact toUploadedFileResult_confined row
  · trivial
  · refine Follows.ask_bind trivial (fun now _ => ?_) fun _ => trivial
    have held := held.mono (List.suffix_cons (⟨.now, some now⟩ : Step sig) past)
    split
    · rename_i pendingKey uploadExpiredAt keyed expires
      split
      · trivial
      · refine Follows.tryAsk_bind (held.staging keyed) fun staging _ => ?_
        match staging with
        | none => trivial
        | some none => trivial
        | some (some metadata) =>
            simp only
            split
            · refine Follows.seq (sameKeys row) (claimCompletionLease_confined row now metadata) ?_
                fun _ _ _ => trivial
              intro claimed past' longer' same
              have held := (held.mono (List.suffix_cons _ _)).mono longer'
              match claimed, same with
              | .settled result, _ => trivial
              | .lease leased, ⟨key, _⟩ =>
                  refine completeUnderLease_confined _ _ (held.staging keyed) ?_
                  rw [key]
                  exact held.final
            · trivial
    · trivial

end DirectUploads

/-! ## Requests -/

/-- The body of `markUsed` in a transaction of the caller, who commits it or rolls it back. -/
def mutateIdsWithManager (access : Access) (ids : List SentId) (metadata : Meta) : Service Unit := do
  let rows ← ask (.find (.byIds access (ids.map SentId.uuid)))
  if rows.length ≠ ids.length then throw .notFound
  else do
    let affected ← ask (.update (.markUsed (ids.map SentId.uuid) access metadata))
    if affected = ids.length then pure () else throw .notFound

/-- `markUsed` within a transaction of the caller: its checks, then the body above. -/
def markUsedWithManager (config : Config) (caller : Caller) (ids : List (Option SentId))
    (meta? : MetaInput) : Service Unit := do
  let unique ← check (batchIds ids)
  if unique.isEmpty then pure ()
  else do
    let access ← check (authorize caller .markUsed (unique.map SentId.uuid))
    let metadata ← check (normalizeMeta config meta?)
    mutateIdsWithManager access unique metadata

/-- Whatever the caller may do, it may do with this access. -/
def Caller.Grants (caller : Caller) (access : Access) : Prop :=
  ∀ operation ids references granted,
    authorize caller operation ids references = .ok granted → granted = access

section Requests

variable {config : Config} {access : Access} {caller : Caller} {past : Past}

theorem createUploadUrl_confined (key : StorageKey) (file : Validated) (checksum : Option String) :
    Follows (confinement access) (createUploadUrl config key file checksum) past anyhow := by
  unfold createUploadUrl
  split
  · trivial
  · exact Follows.tryAsk_bind trivial fun _ _ => trivial

theorem completionIsActive_confined (row : Row) :
    Follows (confinement access) (completionIsActive row) past anyhow := by
  unfold completionIsActive
  split
  · exact Follows.ask_bind trivial (fun _ _ => trivial) fun _ => trivial
  · trivial

theorem openStream_confined {row : Row} (held : KeysReached past row) :
    Follows (confinement access) (openStream row) past anyhow := by
  unfold openStream
  refine Follows.tryAsk_bind held.final fun reply _ => ?_
  split <;> trivial

variable (grants : caller.Grants access)

include grants

/-- The inserted row is owned as the access says, and its keys carry the id drawn for it. -/
theorem initiateManagedUpload_confined (input : InitiateInput) (options : InitiateOptions)
    (own : options.access = none) :
    Follows (confinement access) (initiateManagedUpload config caller input options) past anyhow := by
  unfold initiateManagedUpload
  refine Follows.check_bind (fun granted authorized => ?_) fun _ => trivial
  rw [own] at authorized
  obtain rfl := grants _ _ _ _ authorized
  refine Follows.check_bind (fun _ _ => ?_) fun _ => trivial
  refine Follows.check_bind (fun limits _ => ?_) fun _ => trivial
  refine Follows.check_bind (fun file _ => ?_) fun _ => trivial
  refine Follows.check_bind (fun visibility _ => ?_) fun _ => trivial
  refine Follows.check_bind (fun metadata _ => ?_) fun _ => trivial
  refine Follows.check_bind (fun checksum _ => ?_) fun _ => trivial
  refine Follows.ask_bind trivial (fun id _ => ?_) fun _ => trivial
  refine Follows.ask_bind trivial (fun now _ => ?_) fun _ => trivial
  have drawn : (⟨.randomUUID, some id⟩ : Step sig) ∈
      (⟨.now, some now⟩ :: ⟨.randomUUID, some id⟩ :: past : Past) :=
    List.mem_cons_of_mem _ List.mem_cons_self
  have keyed : ∀ key ∈ (managedRow config granted file visibility (options.disposition.getD .attachment)
      metadata checksum options.temporary id now).keys, key.id = id := by
    intro key listed
    simp only [Row.keys, managedRow, buildStorageKeyForId, Option.toList_some, List.mem_cons,
      List.not_mem_nil, or_false] at listed
    rcases listed with rfl | rfl <;> rfl
  refine Follows.tryAsk_bind ⟨by simp [Access.owns, managedRow], drawn, keyed⟩ fun reply credits => ?_
  rcases reply with _ | saved
  · trivial
  · obtain ⟨time, stamped⟩ := credits
    refine Follows.seq (fun _ _ => True) (createUploadUrl_confined _ file checksum) ?_
      fun _ _ _ => trivial
    intro target past' longer _
    rcases target with _ | target
    · refine Follows.seq (fun _ _ => True) (cleanupFailedUpload_confined _ ?_)
        (fun _ _ _ _ => trivial) fun _ _ _ => trivial
      intro key listed
      rw [stamped] at listed
      refine .inr (longer.subset (List.mem_cons_of_mem _ ?_))
      rw [keyed key listed]
      exact drawn
    · trivial

theorem initiateUpload_confined (input : InitiateInput) :
    Follows (confinement access) (initiateUpload config caller input) past anyhow :=
  initiateManagedUpload_confined grants input _ rfl

theorem initiateTemporaryUpload_confined (input : InitiateInput) :
    Follows (confinement access) (initiateTemporaryUpload config caller input) past anyhow :=
  initiateManagedUpload_confined grants input _ rfl

/-- The lookup answers the access that was granted and a row read under it. -/
theorem findLifecycleAuthorized_confined (id : Option Uuid) (operation : Operation) :
    Follows (confinement access) (findLifecycleAuthorized caller id operation) past
      (returning fun found past' => found.1 = access ∧ KeysReached past' found.2) := by
  unfold findLifecycleAuthorized
  refine Follows.check_bind (fun id _ => ?_) fun _ => trivial
  refine Follows.check_bind (fun granted authorized => ?_) fun _ => trivial
  obtain rfl := grants _ _ _ _ authorized
  refine Follows.ask_bind rfl (fun found _ => ?_) fun _ => trivial
  match found with
  | none => trivial
  | some row => exact ⟨rfl, keysReached_of_read (.inl ⟨_, List.mem_cons_self⟩)⟩

theorem completeUpload_confined (id : Option Uuid) :
    Follows (confinement access) (completeUpload config caller id) past anyhow := by
  unfold completeUpload
  refine Follows.seq _ (findLifecycleAuthorized_confined grants id .complete) ?_ fun _ _ _ => trivial
  rintro ⟨granted, row⟩ past' _ ⟨rfl, held⟩
  exact completeManagedUpload_confined held

/-- The bytes go to the staging key of the row that was read. -/
theorem putUploadContent_confined (id : Option Uuid) (buffer : Bytes) :
    Follows (confinement access) (putUploadContent config caller id buffer) past anyhow := by
  unfold putUploadContent
  split
  · trivial
  · refine Follows.seq _ (findLifecycleAuthorized_confined grants id .complete) ?_ fun _ _ _ => trivial
    rintro ⟨granted, row⟩ past' _ ⟨rfl, held⟩
    refine Follows.ask_bind trivial (fun now _ => ?_) fun _ => trivial
    split
    · rename_i keyed _
      split
      · trivial
      · split
        · trivial
        · split
          · trivial
          · refine Follows.tryAsk_bind ((held.mono (List.suffix_cons _ _)).staging keyed)
              fun stored _ => ?_
            split
            · exact completeUpload_confined grants id
            · trivial
    · trivial

/-- An abort claims within the access and deletes what the row names. -/
theorem abortUpload_confined (id : Option Uuid) :
    Follows (confinement access) (abortUpload caller id) past anyhow := by
  unfold abortUpload
  refine Follows.seq _ (findLifecycleAuthorized_confined grants id .abort) ?_ fun _ _ _ => trivial
  rintro ⟨granted, row⟩ past' _ ⟨rfl, held⟩
  simp only
  split
  · trivial
  · refine Follows.seq (fun _ _ => True) (completionIsActive_confined row) ?_ fun _ _ _ => trivial
    intro active past'' longer _
    split
    · trivial
    · refine Follows.ask_bind trivial (fun claim _ => ?_) fun _ => trivial
      refine Follows.ask_bind rfl (fun affected _ => ?_) fun _ => trivial
      split
      · refine Follows.catching ?_ (fun _ _ _ => trivial) fun _ _ _ => trivial
        refine Follows.seq (fun _ _ => True) (deleteAndFinalizePendingRows_confined claim ?_)
          (fun _ _ _ _ => trivial) fun _ _ _ => trivial
        intro claimed listed
        obtain rfl := List.mem_singleton.mp listed
        exact ((held.mono longer).mono ⟨[_, _], rfl⟩).same rfl rfl
      · trivial

/-- A read under the access reaches the keys of what it finds. -/
theorem findAuthorized_confined (id : Option Uuid) :
    Follows (confinement access) (findAuthorized caller id) past
      (returning fun row past' => KeysReached past' row) := by
  unfold findAuthorized
  refine Follows.check_bind (fun id _ => ?_) fun _ => trivial
  refine Follows.check_bind (fun granted authorized => ?_) fun _ => trivial
  obtain rfl := grants _ _ _ _ authorized
  refine Follows.ask_bind rfl (fun found _ => ?_) fun _ => trivial
  match found with
  | none => trivial
  | some row =>
      have read : KeysReached (⟨.findOne (.authorized granted id), some (some row)⟩ :: past) row :=
        keysReached_of_read (.inl ⟨_, List.mem_cons_self⟩)
      refine Follows.ask_bind trivial (fun now _ => ?_) fun _ => trivial
      exact Follows.check_bind (fun _ _ => read.mono (List.suffix_cons _ _)) fun _ => trivial

theorem resolveUrl_confined (id : Option Uuid) :
    Follows (confinement access) (resolveUrl config caller id) past anyhow :=
  Follows.seq _ (findAuthorized_confined grants id) (fun row _ _ _ => resolveRowUrl_confined row)
    fun _ _ _ => trivial

theorem download_confined (id : Option Uuid) :
    Follows (confinement access) (download caller id) past anyhow :=
  Follows.seq _ (findAuthorized_confined grants id) (fun _ _ _ held => openStream_confined held)
    fun _ _ _ => trivial

theorem findById_confined (id : Option Uuid) :
    Follows (confinement access) (findById caller id) past anyhow :=
  (findAuthorized_confined grants id).mono fun result _ _ _ => by cases result <;> trivial

theorem find_confined (id : Option Uuid) :
    Follows (confinement access) (find config caller id) past anyhow := by
  unfold find
  refine Follows.seq _ (findLifecycleAuthorized_confined grants id .read) ?_ fun _ _ _ => trivial
  rintro ⟨granted, row⟩ past' _ _
  simp only
  split
  · exact toUploadedFileResult_confined row
  · trivial

/-! ## Changing and deleting -/

theorem setExtraData_confined (id : Option Uuid) (extraData : Option String) :
    Follows (confinement access) (setExtraData caller id extraData) past anyhow := by
  unfold setExtraData
  refine Follows.check_bind (fun id _ => ?_) fun _ => trivial
  refine Follows.check_bind (fun granted authorized => ?_) fun _ => trivial
  obtain rfl := grants _ _ _ _ authorized
  refine Follows.ask_bind rfl (fun affected _ => ?_) fun _ => trivial
  split <;> trivial

/-- The rows are counted and marked within the access, in one transaction. -/
theorem markUsed_confined (ids : List (Option SentId)) (meta? : MetaInput) :
    Follows (confinement access) (markUsed config caller ids meta?) past anyhow := by
  unfold markUsed
  refine Follows.check_bind (fun unique _ => ?_) fun _ => trivial
  split
  · trivial
  · refine Follows.check_bind (fun granted authorized => ?_) fun _ => trivial
    obtain rfl := grants _ _ _ _ authorized
    refine Follows.check_bind (fun metadata _ => ?_) fun _ => trivial
    unfold mutateIds
    refine Follows.ask_bind rfl (fun rows _ => ?_) fun _ => trivial
    split
    · trivial
    · refine Follows.ask_bind rfl (fun committed _ => ?_) fun _ => trivial
      split <;> trivial

theorem markUsedWithManager_confined (ids : List (Option SentId)) (meta? : MetaInput) :
    Follows (confinement access) (markUsedWithManager config caller ids meta?) past anyhow := by
  unfold markUsedWithManager
  refine Follows.check_bind (fun unique _ => ?_) fun _ => trivial
  split
  · trivial
  · refine Follows.check_bind (fun granted authorized => ?_) fun _ => trivial
    obtain rfl := grants _ _ _ _ authorized
    refine Follows.check_bind (fun metadata _ => ?_) fun _ => trivial
    unfold mutateIdsWithManager
    refine Follows.ask_bind rfl (fun rows _ => ?_) fun _ => trivial
    split
    · trivial
    · refine Follows.ask_bind rfl (fun affected _ => ?_) fun _ => trivial
      split <;> trivial

omit grants in
/-- References find rows of the access only, whatever they name. -/
theorem rowsForReferences_confined (references : List String) :
    Follows (confinement access) (rowsForReferences config access references) past
      (returning fun rows past' => ∀ row ∈ rows, KeysReached past' row) := by
  unfold rowsForReferences
  refine Follows.ask_bind rfl (fun rows _ => ?_) fun _ => trivial
  split
  · exact fun row listed => keysReached_of_read (.inr ⟨_, rows, List.mem_cons_self, listed⟩)
  · trivial

theorem useFiles_confined (references : List String) (entity entityId : Option String) :
    Follows (confinement access) (useFiles config caller references entity entityId) past anyhow := by
  unfold useFiles
  refine Follows.check_bind (fun unique _ => ?_) fun _ => trivial
  split
  · trivial
  · refine Follows.check_bind (fun granted authorized => ?_) fun _ => trivial
    obtain rfl := grants _ _ _ _ authorized
    refine Follows.check_bind (fun metadata _ => ?_) fun _ => trivial
    refine Follows.seq _ (rowsForReferences_confined unique) ?_ fun _ _ _ => trivial
    intro rows past' _ _
    refine Follows.ask_bind rfl (fun committed _ => ?_) fun _ => trivial
    split <;> trivial

/-- The claims carry the access, so nothing outside of it is erased. -/
theorem delete_confined (references : List String) :
    Follows (confinement access) (delete config caller references) past anyhow := by
  unfold delete
  refine Follows.check_bind (fun unique _ => ?_) fun _ => trivial
  split
  · trivial
  · refine Follows.check_bind (fun granted authorized => ?_) fun _ => trivial
    obtain rfl := grants _ _ _ _ authorized
    refine Follows.ask_bind trivial (fun claim _ => ?_) fun _ => trivial
    refine Follows.seq _ (rowsForReferences_confined unique) ?_ fun _ _ _ => trivial
    intro rows past' _ held
    refine Follows.ask_bind rfl (fun committed _ => ?_) fun _ => trivial
    split
    · refine Follows.catching ?_ (fun _ _ _ => trivial) fun _ _ _ => trivial
      refine Follows.seq (fun _ _ => True) (deleteAndFinalizePendingRows_confined claim ?_)
        (fun _ _ _ _ => trivial) fun _ _ _ => trivial
      intro claimed listed
      obtain ⟨row, member, rfl⟩ := List.mem_map.mp listed
      exact ((held row member).mono (List.suffix_cons _ _)).same rfl rfl
    · trivial

/-- One row, read and claimed within the access. -/
theorem deleteById_confined (id : Option Uuid) :
    Follows (confinement access) (deleteById caller id) past anyhow := by
  unfold deleteById
  refine Follows.check_bind (fun id _ => ?_) fun _ => trivial
  refine Follows.check_bind (fun granted authorized => ?_) fun _ => trivial
  obtain rfl := grants _ _ _ _ authorized
  refine Follows.ask_bind trivial (fun claim _ => ?_) fun _ => trivial
  refine Follows.ask_bind rfl (fun found _ => ?_) fun _ => trivial
  match found with
  | none => trivial
  | some current =>
      refine Follows.seq (fun _ past' => KeysReached past' current) ?_ ?_ fun _ _ _ => trivial
      · refine (completionIsActive_confined current).mono fun result past' longer _ => ?_
        cases result with
        | error error => trivial
        | ok active => exact (keysReached_of_read (.inl ⟨_, List.mem_cons_self⟩)).mono longer
      · intro active past' _ held
        split
        · trivial
        · refine Follows.ask_bind rfl (fun committed _ => ?_) fun _ => trivial
          split
          · refine Follows.catching ?_ (fun _ _ _ => trivial) fun _ _ _ => trivial
            refine Follows.seq (fun _ _ => True) (deleteAndFinalizePendingRows_confined claim ?_)
              (fun _ _ _ _ => trivial) fun _ _ _ => trivial
            intro claimed listed
            obtain rfl := List.mem_singleton.mp listed
            exact (held.mono (List.suffix_cons _ _)).same rfl rfl
          · trivial

theorem changeFiles_confined (olds news : List String) (entity entityId : Option String) :
    Follows (confinement access) (changeFiles config caller olds news entity entityId) past anyhow := by
  unfold changeFiles
  refine Follows.check_bind (fun oldReferences _ => ?_) fun _ => trivial
  refine Follows.check_bind (fun newReferences _ => ?_) fun _ => trivial
  exact Follows.seq (fun _ _ => True) (useFiles_confined grants newReferences entity entityId)
    (fun _ _ _ _ => delete_confined grants _) fun _ _ _ => trivial

end Requests

/-- The caller of a request that a user sends; jobs, uploads by the server itself and attachments have
none. -/
def Request.caller? : Request → Option Caller
  | .initiateUpload caller _
  | .initiateTemporaryUpload caller _
  | .putUploadContent caller _ _
  | .completeUpload caller _
  | .abortUpload caller _
  | .find caller _
  | .findById caller _
  | .resolveUrl caller _
  | .download caller _
  | .setExtraData caller _ _
  | .markUsed caller _ _
  | .useFiles caller _ _ _
  | .delete caller _
  | .deleteById caller _
  | .changeFiles caller _ _ _ _ => some caller
  | _ => none

/-- What a caller can start. -/
inductive Facing (config : Config) (caller : Caller) : Program sig Outcome → Prop where
  | request (request : Request) (sent : request.caller? = some caller) :
      Facing config caller (launch config request)
  | markUsedWithManager (ids : List (Option SentId)) (meta? : MetaInput) :
      Facing config caller (replying (fun _ => .nothing) (markUsedWithManager config caller ids meta?))

/-- Wrapping the answer asks for nothing more. -/
theorem replying_confined {α : Type} {access : Access} {wrap : α → Reply} {body : Service α}
    {past : Past} (follows : Follows (confinement access) body past anyhow) :
    Program.Obeys (confinement access) (replying wrap body) past fun _ _ => True := by
  refine Program.obeys_mono (Follows.seq (fun _ _ => True) follows (fun _ _ _ _ => ?_)
    fun _ _ _ => ?_ : Follows (confinement access) (do let value ← body; pure (wrap value)) past anyhow)
    fun _ _ _ => trivial
  · trivial
  · trivial

/-- Every request of a caller is confined to each access the caller is granted. The case split is
over the requests. -/
theorem launch_confined {config : Config} {access : Access} {request : Request} {caller : Caller}
    (facing : request.caller? = some caller) (grants : caller.Grants access) :
    Program.Obeys (confinement access) (launch config request) [] fun _ _ => True := by
  cases request <;> simp only [Request.caller?, Option.some.injEq, reduceCtorEq] at facing <;>
    subst facing <;> refine replying_confined ?_
  case initiateUpload input => exact initiateUpload_confined grants input
  case initiateTemporaryUpload input => exact initiateTemporaryUpload_confined grants input
  case putUploadContent id buffer => exact putUploadContent_confined grants id buffer
  case completeUpload id => exact completeUpload_confined grants id
  case abortUpload id => exact abortUpload_confined grants id
  case find id => exact find_confined grants id
  case findById id => exact findById_confined grants id
  case resolveUrl id => exact resolveUrl_confined grants id
  case download id => exact download_confined grants id
  case setExtraData id extraData => exact setExtraData_confined grants id extraData
  case markUsed ids meta? => exact markUsed_confined grants ids meta?
  case useFiles references entity entityId => exact useFiles_confined grants references entity entityId
  case delete references => exact delete_confined grants references
  case deleteById id => exact deleteById_confined grants id
  case changeFiles olds news entity entityId =>
      exact changeFiles_confined grants olds news entity entityId

/-- Whatever a caller starts is confined to the access that it is granted. -/
theorem facing_confined {config : Config} {access : Access} {caller : Caller} {program : Program sig Outcome}
    (facing : Facing config caller program) (grants : caller.Grants access) :
    Program.Obeys (confinement access) program [] fun _ _ => True := by
  cases facing with
  | request request sent => exact launch_confined sent grants
  | markUsedWithManager ids meta? => exact replying_confined (markUsedWithManager_confined grants ids meta?)

end SdcoreNest.UploadedFile
