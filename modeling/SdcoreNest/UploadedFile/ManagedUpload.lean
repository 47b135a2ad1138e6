/-
# UploadedFile.ManagedUpload -- what becomes of a managed upload that fails

`uploadManaged` initiates a direct upload, transports the bytes and completes it, in one
`try` whose `catch` aborts the upload and throws the error on.  With the local driver the
last step of the `try` body is returned without being awaited, so it runs outside the
`try`: when it fails, nothing aborts the upload.

An abort that is denied at once asks no call, so the steps of a run do not always tell
whether one was attempted.  `finishNoted` is the part after initiation with errors that
remember which ids were aborted before they got out; `uploadManaged_eq` says that the
method is this program with the memory dropped.
-/
import SdcoreNest.UploadedFile.Routine

namespace SdcoreNest.UploadedFile

open SdcoreNest.Theory
open SdcoreNest.Theory.Program

set_option autoImplicit false

/-- An error on its way out, and the ids that were aborted before. -/
structure Rejection where
  error : ServiceError
  aborted : List Uuid
deriving DecidableEq, Repr

abbrev Noted := ExceptT Rejection (Program sig)

section

variable {α β : Type}

/-- A part whose errors start without memory. -/
def noting (body : Service α) : Noted α :=
  ExceptT.mk (body.run >>= fun result => .done (result.mapError fun error => ⟨error, []⟩))

/-- The memory dropped. -/
def forgetting (body : Noted α) : Service α :=
  ExceptT.mk (body.run >>= fun result => .done (result.mapError Rejection.error))

theorem forgetting_noting (body : Service α) : forgetting (noting body) = body := by
  refine (bind_assoc body.run _ _).trans ((congrArg (body.run >>= ·) ?_).trans (bind_done body.run))
  funext result
  cases result <;> rfl

theorem forgetting_throw (rejection : Rejection) :
    forgetting (throw rejection : Noted α) = throw rejection.error := rfl

theorem forgetting_bind (body : Noted α) (next : α → Noted β) :
    forgetting (body >>= next) = (do let value ← forgetting body; forgetting (next value)) := by
  refine (bind_assoc body.run _ _).trans (Eq.trans ?_ (bind_assoc body.run _ _).symm)
  congr 1
  funext result
  cases result <;> rfl

/-- A handler that is given an error without memory. -/
theorem forgetting_tryCatch (body : Service α) (handler : Rejection → Noted α) :
    forgetting (tryCatch (noting body) handler) =
      tryCatch body fun error => forgetting (handler ⟨error, []⟩) := by
  refine (bind_assoc (body.run >>= _) _ _).trans ((bind_assoc body.run _ _).trans ?_)
  refine congrArg (body.run >>= ·) ?_
  funext result
  cases result <;> rfl

theorem ends_noting {body : Service α} {past : Past} {result : Except Rejection α} :
    Ends (noting body).run past result ↔
      ∃ outcome, Ends body.run past outcome ∧
        outcome.mapError (fun error => ⟨error, []⟩) = result := by
  refine ends_bind.trans ⟨?_, ?_⟩
  · rintro ⟨older, newer, outcome, rfl, ended, last⟩
    obtain ⟨rfl, same⟩ := ends_done.mp last
    exact ⟨outcome, ended, same⟩
  · rintro ⟨outcome, ended, same⟩
    exact ⟨past, [], outcome, rfl, ended, ends_done.mpr ⟨rfl, same⟩⟩

end

section

variable (config : Config) (caller : Caller) (source : Source) (initiated : InitiateResult)

/-- Transport and completion, wherever they run. -/
def managedWork : Service FileResult := do
  let rest ← transportUpload config caller source initiated
  rest

/-- What `uploadManaged` does after initiation, with the aborts remembered. -/
def finishNoted : Noted FileResult := do
  let rest ← tryCatch (noting (transportUpload config caller source initiated)) fun rejection => do
    noting (swallow (abortUpload caller (some initiated.id)))
    throw { rejection with aborted := initiated.id :: rejection.aborted }
  noting rest

theorem forgetting_finishNoted :
    forgetting (finishNoted config caller source initiated) = (do
      let rest ← tryCatch (transportUpload config caller source initiated) fun error => do
        swallow (abortUpload caller (some initiated.id))
        throw error
      rest) := by
  simp only [finishNoted, forgetting_bind, forgetting_tryCatch, forgetting_noting,
    forgetting_throw]

theorem uploadManaged_eq (originalName : String) (context : MetaInput) (ownerId : Option Uuid)
    (options : UploadOptions) (temporary : Bool) :
    uploadManaged config caller source originalName context ownerId options temporary = (do
      let access ← check (authorize caller .create)
      check (verifyRequestedOwner ownerId access)
      let input ← check (managedSource config source originalName options)
      let initiated ← initiateManagedUpload config caller input
        { access := some access
          context := context
          ownerId := ownerId
          visibility := if temporary then some .privateFile
            else some (options.visibility.getD config.defaultVisibility)
          disposition := options.disposition
          temporary := temporary
          limits := options }
      forgetting (finishNoted config caller source initiated)) := by
  simp only [forgetting_finishNoted]
  rfl

/-- The upload was aborted once before it was rejected: its work had failed with the error of
the rejection, and the abort ran after that, to its end. -/
def AbortedFirst (past : Past) (rejection : Rejection) : Prop :=
  rejection.aborted = [initiated.id] ∧
    ∃ failed aborting outcome, past = aborting ++ failed ∧
      Ends (managedWork config caller source initiated).run failed (.error rejection.error) ∧
      Ends (abortUpload caller (some initiated.id)).run aborting outcome

end

/-- The storage acknowledged an object that the service wrote itself. -/
def Delivered (past : Past) : Prop :=
  ∃ key object, (⟨.putObject key object, some true⟩ : Step sig) ∈ past

theorem Delivered.append {newer older : Past} :
    Delivered (newer ++ older) ↔ Delivered newer ∨ Delivered older := by
  simp only [Delivered, List.mem_append, exists_or]

variable {config : Config} {caller : Caller} {source : Source} {initiated : InitiateResult}
  {past : Past} {rejection : Rejection}

/-! ## Inside and outside the `try` -/

theorem ends_swallow {α : Type} {body : Service α} {result : Except ServiceError Unit}
    (ends : Ends (swallow body).run past result) :
    result = .ok () ∧ ∃ outcome, Ends body.run past outcome := by
  rcases ends_run_tryCatch.mp ends with ⟨value, rfl, returned⟩ |
    ⟨older, newer, error, rfl, thrown, handled⟩
  · rcases ends_run_bind.mp returned with ⟨older, newer, outcome, rfl, body, last⟩ | ⟨_, ⟨⟩, -⟩
    obtain ⟨rfl, -⟩ := ends_done.mp last
    exact ⟨rfl, .ok outcome, body⟩
  · obtain ⟨rfl, rfl⟩ := ends_done.mp handled
    rcases ends_run_bind.mp thrown with ⟨_, _, _, rfl, body, last⟩ | ⟨error', ⟨⟩, body⟩
    · cases (ends_done.mp last).2
    · exact ⟨rfl, .error error, body⟩

/-- The handler of the `try`: the abort runs to its end, then the error is thrown on. -/
theorem ends_handler {α : Type} {result : Except Rejection α}
    (ends : Ends (do
      noting (swallow (abortUpload caller (some initiated.id)))
      throw { rejection with aborted := initiated.id :: rejection.aborted } : Noted α).run
        past result) :
    result = .error ⟨rejection.error, initiated.id :: rejection.aborted⟩ ∧
      ∃ outcome, Ends (abortUpload caller (some initiated.id)).run past outcome := by
  rcases ends_run_bind.mp ends with ⟨older, newer, value, rfl, cleaned, last⟩ |
    ⟨error, rfl, cleaned⟩
  · obtain ⟨rfl, rfl⟩ := ends_done.mp last
    obtain ⟨_, swallowed, -⟩ := ends_noting.mp cleaned
    exact ⟨rfl, (ends_swallow swallowed).2⟩
  · obtain ⟨_, swallowed, same⟩ := ends_noting.mp cleaned
    rw [(ends_swallow swallowed).1] at same
    cases same

/-- An upload is rejected where its transport fails, and then it is aborted, or where the work
that the transport handed back fails, and then it is not. -/
theorem rejected_cases
    (rejected : Ends (finishNoted config caller source initiated).run past (.error rejection)) :
    (∃ failed aborting outcome, past = aborting ++ failed ∧
        rejection.aborted = [initiated.id] ∧
        Ends (transportUpload config caller source initiated).run failed
          (.error rejection.error) ∧
        Ends (abortUpload caller (some initiated.id)).run aborting outcome) ∨
      ∃ older newer rest, past = newer ++ older ∧ rejection.aborted = [] ∧
        Ends (transportUpload config caller source initiated).run older (.ok rest) ∧
        Ends rest.run newer (.error rejection.error) := by
  have handled : ∀ {past : Past} {result : Except Rejection (Service FileResult)},
      Ends (tryCatch (noting (transportUpload config caller source initiated)) fun rejection => do
        noting (swallow (abortUpload caller (some initiated.id)))
        throw { rejection with aborted := initiated.id :: rejection.aborted } :
          Noted (Service FileResult)).run past result →
      (∃ rest, result = .ok rest ∧
        Ends (transportUpload config caller source initiated).run past (.ok rest)) ∨
      ∃ failed aborting error outcome, past = aborting ++ failed ∧
        result = .error ⟨error, [initiated.id]⟩ ∧
        Ends (transportUpload config caller source initiated).run failed (.error error) ∧
        Ends (abortUpload caller (some initiated.id)).run aborting outcome := by
    intro past result ends
    rcases ends_run_tryCatch.mp ends with ⟨rest, rfl, returned⟩ |
      ⟨failed, aborting, thrown, rfl, transported, caught⟩
    · left
      obtain ⟨outcome, transported, same⟩ := ends_noting.mp returned
      cases outcome with
      | error error => cases same
      | ok value =>
          cases same
          exact ⟨rest, rfl, transported⟩
    · right
      obtain ⟨outcome, threw, same⟩ := ends_noting.mp transported
      cases outcome with
      | ok value => cases same
      | error error =>
          cases same
          obtain ⟨rfl, outcome, aborted⟩ := ends_handler caught
          exact ⟨failed, aborting, error, outcome, rfl, rfl, threw, aborted⟩
  rcases ends_run_bind.mp rejected with ⟨older, newer, rest, rfl, returned, failed⟩ |
    ⟨_, same, thrown⟩
  · right
    rcases handled returned with ⟨_, same, transported⟩ | ⟨_, _, _, _, -, wrong, -, -⟩
    · cases same
      obtain ⟨outcome, threw, same⟩ := ends_noting.mp failed
      cases outcome with
      | ok value => cases same
      | error error =>
          cases same
          exact ⟨older, newer, rest, rfl, rfl, transported, threw⟩
    · cases wrong
  · left
    cases same
    rcases handled thrown with ⟨_, wrong, -⟩ |
      ⟨failed, aborting, error, outcome, rfl, same, transported, aborted⟩
    · cases wrong
    · cases same
      exact ⟨failed, aborting, outcome, rfl, rfl, transported, aborted⟩

/-! ## Which part fails -/

/-- With S3 the completion is awaited. -/
theorem awaited_of_s3 (s3 : config.driver = .s3) {older newer : Past}
    {rest : Service FileResult} {error : ServiceError}
    (transported : Ends (transportUpload config caller source initiated).run older (.ok rest)) :
    ¬ Ends rest.run newer (.error error) := by
  unfold transportUpload at transported
  rw [s3] at transported
  simp only at transported
  rcases ends_run_bind.mp transported with ⟨_, _, stored, -, -, continued⟩ | ⟨_, wrong, -⟩
  · split at continued
    · rcases ends_run_bind.mp continued with ⟨_, _, result, -, -, last⟩ | ⟨_, wrong, -⟩
      · obtain ⟨-, same⟩ := ends_done.mp last
        cases same
        intro failed
        cases (ends_done.mp failed).2
      · cases wrong
    · cases (ends_done.mp continued).2
  · cases wrong

/-- The conduct of what writes neither a row nor an object. -/
def storingNothing : Conduct sig where
  allows _ call := call.stores = false
  credible _ := True

theorem storingNothing_storeless : Storeless storingNothing where
  routine _ storeless := storeless

theorem undelivered {α : Type} {body : Service α} {result : Except ServiceError α}
    (follows : Follows storingNothing body [] anyhow) (ends : Ends body.run past result) :
    ¬ Delivered past := by
  rintro ⟨key, object, delivered⟩
  obtain ⟨newer, earlier, rfl⟩ := List.append_of_mem delivered
  have unstored : Call.stores (.putObject key object) = false :=
    allowed_after follows ends (fun _ _ => trivial) (List.suffix_append newer _)
  cases unstored

/-- A streamed upload is handed back exactly when its object was delivered. -/
theorem delivered_iff_returned (disk : config.driver = .localDisk) {bytes : Bytes}
    {result : Except ServiceError (Service FileResult)}
    (transported : Ends (transportUpload config caller (.stream bytes) initiated).run past
      result) : Delivered past ↔ ∃ rest, result = .ok rest := by
  unfold transportUpload at transported
  rw [disk] at transported
  simp only at transported
  have storeless : Follows storingNothing
      (findLifecycleAuthorized caller (some initiated.id) .complete) [] anyhow :=
    storingNothing_storeless.findLifecycleAuthorized caller _ _
  rcases ends_run_bind.mp transported with ⟨older, newer, ⟨access, row⟩, rfl, looked, continued⟩ |
    ⟨error, rfl, looked⟩
  · have before := undelivered storeless looked
    simp only at continued
    split at continued
    · obtain ⟨rfl, rfl⟩ := ends_done.mp continued
      simpa using before
    · rename_i key _
      rcases ends_run_bind.mp continued with ⟨wrote, last, stored, rfl, asked, finished⟩ |
        ⟨error, rfl, asked⟩
      · rcases ends_run_perform.mp asked with ⟨answer, same, rfl⟩ | ⟨wrong, -⟩
        · cases same
          cases stored with
          | false =>
              obtain ⟨rfl, rfl⟩ := ends_done.mp finished
              refine iff_of_false ?_ (by simp)
              rintro ⟨_, _, delivered⟩
              simp at delivered
              exact before ⟨_, _, delivered⟩
          | true =>
              obtain ⟨rfl, rfl⟩ := ends_done.mp finished
              exact iff_of_true ⟨key, { body := bytes }, by simp⟩ ⟨_, rfl⟩
        · cases wrong
      · rcases ends_run_perform.mp asked with ⟨_, wrong, -⟩ | ⟨-, rfl⟩
        · cases wrong
        · refine iff_of_false ?_ (by simp)
          rintro ⟨_, _, delivered⟩
          simp at delivered
          exact before ⟨_, _, delivered⟩
  · simpa using undelivered storeless looked

/-- **A managed upload that is rejected was aborted**, with the original error, exactly when it
failed in a part that the `try` awaits: anywhere with S3, before the storage acknowledged the
object of a stream with the local driver, and never from memory with the local driver. -/
theorem failed_upload_aborted_iff
    (rejected : Ends (finishNoted config caller source initiated).run past (.error rejection)) :
    AbortedFirst config caller source initiated past rejection ↔
      config.driver = .s3 ∨ ((∃ bytes, source = .stream bytes) ∧ ¬ Delivered past) := by
  have awaited : ∀ {failed aborting : Past} {outcome : Except ServiceError Unit},
      past = aborting ++ failed → rejection.aborted = [initiated.id] →
      Ends (transportUpload config caller source initiated).run failed
        (.error rejection.error) →
      Ends (abortUpload caller (some initiated.id)).run aborting outcome →
      AbortedFirst config caller source initiated past rejection := by
    intro failed aborting outcome split once transported aborted
    refine ⟨once, failed, aborting, outcome, split, ?_, aborted⟩
    exact ends_run_bind.mpr (.inr ⟨rejection.error, rfl, transported⟩)
  rcases rejected_cases rejected with
    ⟨failed, aborting, outcome, split, once, transported, aborted⟩ |
    ⟨older, newer, rest, split, never, transported, failed⟩
  · refine iff_of_true (awaited split once transported aborted) ?_
    cases disk : config.driver with
    | s3 => exact .inl rfl
    | localDisk =>
        right
        cases source with
        | buffered bytes =>
            unfold transportUpload at transported
            rw [disk] at transported
            cases (ends_done.mp transported).2
        | stream bytes =>
            refine ⟨⟨bytes, rfl⟩, ?_⟩
            rw [split, Delivered.append, delivered_iff_returned disk transported]
            have unstored := undelivered
              (storingNothing_storeless.abortUpload caller (some initiated.id)) aborted
            simp [unstored]
  · refine iff_of_false (fun wrong => ?_) ?_
    · cases never.symm.trans wrong.1
    · rintro (s3 | ⟨⟨bytes, rfl⟩, undelivered⟩)
      · exact awaited_of_s3 s3 transported failed
      · cases disk : config.driver with
        | s3 => exact awaited_of_s3 disk transported failed
        | localDisk =>
            refine undelivered ?_
            rw [split, Delivered.append]
            exact .inr ((delivered_iff_returned disk transported).mpr ⟨rest, rfl⟩)

/-- The answer to an initiation with the local driver. -/
def smallInitiated : InitiateResult :=
  ⟨0, ⟨"local", ⟨.pending, "t", 0, "a.txt"⟩, "text/plain", none, none⟩, 3600000⟩

/-- The row that an initiation saved. -/
def smallPending : Row :=
  managedRow (smallConfig .localDisk) ⟨.owner, ⟨"t", none, 7⟩⟩ ⟨"a.txt", "text/plain", 2⟩
    .privateFile .attachment {} none false 0 0

/-- The storage throws on the object of a stream; the abort deletes what there is. -/
def streamRefused : Past :=
  [ ⟨.update (.clearFinalizedDeletionClaim
      [{ smallPending with
        status := .failed
        uploadPendingAt := none
        deletionPendingAt := some 9 }] 9 (some ⟨.owner, ⟨"t", none, 7⟩⟩)), some 1⟩,
    ⟨.update (.finalizePendingRows
      [{ smallPending with
        status := .failed
        uploadPendingAt := none
        deletionPendingAt := some 9 }] 9 (some ⟨.owner, ⟨"t", none, 7⟩⟩)), some 1⟩,
    ⟨.delete (objectKeys [smallPending]), some ()⟩,
    ⟨.update (.claimAbort smallPending ⟨.owner, ⟨"t", none, 7⟩⟩ 9), some 1⟩,
    ⟨.nextDeletionClaim smallPending.uploadPendingAt, some 9⟩,
    ⟨.findOne (.lifecycle ⟨.owner, ⟨"t", none, 7⟩⟩ 0), some (some smallPending)⟩,
    ⟨.putObject ⟨.pending, "t", 0, "a.txt"⟩ { body := [1, 2] }, none⟩,
    ⟨.findOne (.lifecycle ⟨.owner, ⟨"t", none, 7⟩⟩ 0), some (some smallPending)⟩ ]

theorem failed_upload_aborted_streamRefused :
    Ends (finishNoted (smallConfig .localDisk) smallCaller (.stream [1, 2]) smallInitiated).run
        streamRefused (.error ⟨.thrown, [0]⟩) ∧
      AbortedFirst (smallConfig .localDisk) smallCaller (.stream [1, 2]) smallInitiated
        streamRefused ⟨.thrown, [0]⟩ := by
  have rejected : Ends (finishNoted (smallConfig .localDisk) smallCaller (.stream [1, 2])
      smallInitiated).run streamRefused (.error ⟨.thrown, [0]⟩) := by
    refine ends_ask.mpr ⟨some (some smallPending), streamRefused.take 7, rfl, ?_⟩
    refine ends_ask.mpr ⟨none, streamRefused.take 6, rfl, ?_⟩
    refine ends_ask.mpr ⟨some (some smallPending), streamRefused.take 5, rfl, ?_⟩
    refine ends_ask.mpr ⟨some 9, streamRefused.take 4, rfl, ?_⟩
    refine ends_ask.mpr ⟨some 1, streamRefused.take 3, rfl, ?_⟩
    refine ends_ask.mpr ⟨some (), streamRefused.take 2, rfl, ?_⟩
    refine ends_ask.mpr ⟨some 1, streamRefused.take 1, rfl, ?_⟩
    refine ends_ask.mpr ⟨some 1, [], rfl, ?_⟩
    exact ends_done.mpr ⟨rfl, rfl⟩
  refine ⟨rejected, (failed_upload_aborted_iff rejected).mpr (.inr ⟨⟨[1, 2], rfl⟩, ?_⟩)⟩
  rintro ⟨key, object, delivered⟩
  simp [streamRefused] at delivered

/-- The request has ended with an error. -/
def rejected : Program sig Outcome → Bool
  | .done (.error _) => true
  | _ => false

/-- A managed upload from memory is initiated; the lookup of its completion throws. -/
def lookupThrows : List (SystemLabel (smallConfig .localDisk)) :=
  .spawn 0 (.uploadManaged smallCaller (.buffered [1, 2]) "a.txt" {} none
    { contentType := some "text/plain" } false) :: answering 0 3 ++ [.issue .refuse 0]

/-- The upload is rejected while its row is pending and no abort has claimed it. -/
theorem failed_upload_left_pending :
    (∃ state : SystemConfig (smallConfig .localDisk),
      Reachable (smallConfig .localDisk) 0 state ∧
      (state.threads 0).any (fun thread => rejected thread.program) = true ∧
      state.core.world.table.rows.map (fun row => (row.status, row.deletionPendingAt)) =
        [(.pending, none)]) ∧
      ∃ past rejection,
        Ends (finishNoted (smallConfig .localDisk) smallCaller (.buffered [1, 2])
          smallInitiated).run past (.error rejection) ∧
        ¬ AbortedFirst (smallConfig .localDisk) smallCaller (.buffered [1, 2]) smallInitiated past
          rejection := by
  constructor
  · have observed : (after (smallConfig .localDisk) lookupThrows).any (fun state =>
        (state.threads 0).any (fun thread => rejected thread.program) &&
          decide (state.core.world.table.rows.map
            (fun row => (row.status, row.deletionPendingAt)) = [(.pending, none)])) = true := by
      decide +kernel
    obtain ⟨state, followed, seen⟩ := (Option.any_eq_true _ _).mp observed
    simp only [Bool.and_eq_true, decide_eq_true_eq] at seen
    exact ⟨state, reachable_after followed, seen⟩
  · refine ⟨[⟨.findOne (.lifecycle ⟨.owner, ⟨"t", none, 7⟩⟩ 0), none⟩], ⟨.thrown, []⟩, ?_, ?_⟩
    · exact ends_ask.mpr ⟨none, [], rfl, ends_done.mpr ⟨rfl, rfl⟩⟩
    · rintro ⟨wrong, -⟩
      cases wrong

end SdcoreNest.UploadedFile
