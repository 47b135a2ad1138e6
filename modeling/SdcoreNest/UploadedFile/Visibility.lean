/-
# UploadedFile.Visibility -- who is handed the bytes of a file

Five operations hand out access to the bytes of a file.  They look the row up with two
different criteria: `where` finds active rows only, `lifecycleWhere` finds rows that are
still being uploaded too, and leaves it to the status to keep those back.  A legacy upload
is `ready` from its INSERT on, so `find` and `completeUpload` hand out a URL before its
object is written.  Apart from that every such row is active, ready and unexpired.

`Vouched` is what an operation's own steps say when it returns, `Shown` what that means in
the run: at some moment it was told the row, and after that it read the clock.
-/
import SdcoreNest.UploadedFile.History
import SdcoreNest.UploadedFile.Routine

namespace SdcoreNest.UploadedFile

open SdcoreNest.Theory
open SdcoreNest.Theory.Machine

set_option autoImplicit false

variable {config : Config}

/-- The operation hands out access to the bytes of this file. -/
def Request.grants : Request → Outcome → Option Uuid
  | .find _ id, .ok (.result result) => if result.resolved.url.isSome then id else none
  | .completeUpload _ id, .ok (.result result) => if result.resolved.url.isSome then id else none
  | .resolveUrl _ id, .ok (.url _) => id
  | .download _ id, .ok (.stream _) => id
  | .downloadAttached _ id _, .ok (.stream _) => id
  | _, _ => none

/-- The operations that find a row by `lifecycleWhere` and may hand out its URL. -/
def Request.looksUpLifecycle : Request → Bool
  | .find _ _ | .completeUpload _ _ => true
  | _ => false

/-- The row is active, ready and unexpired at `now`. -/
structure Row.Readable (row : Row) (now : Int) : Prop where
  active : row.deletedAt = none ∧ row.uploadPendingAt = none ∧ row.deletionPendingAt = none
  ready : row.status = .ready
  unexpired : row.isTemporary = true → ∃ expiry, row.expiredAt = some expiry ∧ now < expiry

/-- The calls that tell a worker what a row is. -/
def Call.tells : Call → Bool
  | .findOne _ | .update _ => true
  | _ => false

/-- The worker was told the row, right then in the table, and read the clock after that; at that
time the row was readable. -/
def Shown (core : SystemCore config) (worker : Worker) (id : Uuid) : Prop :=
  ∃ reading older telling call, reading :: older <:+ core.history ∧ telling ∈ older ∧
    reading.act = .issue .answer worker .now ∧ telling.act = .issue .answer worker call ∧
    call.tells = true ∧
    ∃ row ∈ (exec config.toDeployment telling.before worker call).2.table, row.id = id ∧
      row.Readable (World.clock reading.before (.process worker.process))

/-- Access to bytes is handed out for rows that are readable. -/
def HiddenWhilePending (state : SystemConfig config) : Prop :=
  ∀ number worker request outcome id,
    state.threads number = some ⟨worker, request, .done outcome⟩ →
    request.grants outcome = some id → Shown state.core worker id

/-- The condition on runs: `find` and `completeUpload` look up no row that is ready while its
upload is pending. -/
def LooksUpSettled (state : SystemConfig config) : Prop :=
  ∀ number thread, state.threads number = some thread → thread.origin.looksUpLifecycle = true →
    ∀ event ∈ state.core.history, ∀ access id,
      event.act = .issue .answer thread.worker (.findOne (.lifecycle access id)) →
      ∀ row ∈ World.table event.before, access.lifecycleWhere id row = true →
        row.status = .ready → row.uploadPendingAt = none

/-! ## What an operation's own steps say -/

/-- How a worker comes to know a row: by a lookup of active rows, by a lookup of rows at any
point of their life (`anyLife`), or by its own UPDATE that finalised a completion. -/
inductive Told (anyLife : Bool) (past : Past) (row : Row) : Prop
  | active (query : Query) (step : (⟨.findOne query, some (some row)⟩ : Step sig) ∈ past)
      (visible : row.visible = true)
  | lifecycle (allowed : anyLife = true) (access : Access) (id : Uuid)
      (step : (⟨.findOne (.lifecycle access id), some (some row)⟩ : Step sig) ∈ past)
      (chosen : access.lifecycleWhere id row = true)
  | finalized (seen snapshot : Row) (access : Access) (marker completedAt : Int)
      (etag : Option Etag) (checksum : Option String) (drop : Bool)
      (step : (⟨.update (.finalizeCompletion snapshot access marker completedAt etag checksum
        drop), some 1⟩ : Step sig) ∈ past)
      (named : row.id = snapshot.id) (temporary : row.isTemporary = snapshot.isTemporary)
      (expires : row.expiredAt =
        if snapshot.isTemporary then some (completedAt + temporaryFileLifetimeMs) else none)
      (read : Read past seen) (same : seen.id = snapshot.id)
      (kind : snapshot.isTemporary = seen.isTemporary)

/-- The worker came to know a row, then read the clock, and found the row ready and unexpired. -/
def Vouched (anyLife : Bool) (past : Past) (id : Uuid) : Prop :=
  ∃ time older row, (⟨.now, some time⟩ : Step sig) :: older <:+ past ∧ row.id = id ∧
    row.status = .ready ∧ Told anyLife older row ∧
    (row.isTemporary = true → ∃ expiry, row.expiredAt = some expiry ∧ time < expiry)

theorem Vouched.mono {anyLife : Bool} {past past' : Past} {id : Uuid} (longer : past <:+ past')
    (vouched : Vouched anyLife past id) : Vouched anyLife past' id := by
  obtain ⟨time, older, row, suffix, rest⟩ := vouched
  exact ⟨time, older, row, suffix.trans longer, rest⟩

/-- Any call at all, under the replies that a store can give. -/
def unbound (config : Config) : Conduct sig where
  allows _ _ := True
  credible := credible config.keyText

theorem unbound_obeys {α : Type} (program : Program sig α) (past : Past) :
    Program.Obeys (unbound config) program past fun _ _ => True := by
  induction program generalizing past with
  | done value => trivial
  | ask call next ih => exact ⟨trivial, fun reply _ => ih reply _⟩

theorem unbound_follows {α : Type} (body : Service α) (past : Past) :
    Follows (unbound config) body past anyhow :=
  Program.obeys_mono (unbound_obeys body.run past) fun result _ _ => by cases result <;> trivial

theorem assertReadyAndUnexpired_eq_ok {row : Row} {now : Int} {value : Unit}
    (passed : assertReadyAndUnexpired row now = .ok value) :
    row.status = .ready ∧ ¬ (row.isTemporary = true ∧ notAfter row.expiredAt now = true) := by
  unfold assertReadyAndUnexpired at passed
  split at passed
  · cases passed
  · rename_i ready
    split at passed
    · cases passed
    · rename_i unexpired
      exact ⟨not_not.mp ready, unexpired⟩

section Programs

variable {past : Past} {anyLife : Bool}

/-- A row that passed the check right after the clock was read. -/
theorem vouched_of_passed {row : Row} {now : Int} {value : Unit} (told : Told anyLife past row)
    (lasts : row.status = .ready → row.isTemporary = true → row.expiredAt ≠ none)
    (passed : assertReadyAndUnexpired row now = .ok value) :
    Vouched anyLife (⟨.now, some now⟩ :: past) row.id := by
  obtain ⟨ready, unexpired⟩ := assertReadyAndUnexpired_eq_ok passed
  refine ⟨now, past, row, List.suffix_refl _, rfl, ready, told, fun temporary => ?_⟩
  obtain ⟨expiry, expires⟩ := Option.ne_none_iff_exists'.mp (lasts ready temporary)
  refine ⟨expiry, expires, ?_⟩
  by_contra late
  exact unexpired ⟨temporary, by simpa [expires] using late⟩

theorem Row.Sound.lasts {row : Row} (sound : row.Sound) (ready : row.status = .ready)
    (temporary : row.isTemporary = true) : row.expiredAt ≠ none := by
  obtain ⟨completedAt, -, expires⟩ := sound.lifetime ready temporary
  simp [expires]

theorem resolveRowUrl_vouches {row : Row} (told : Told anyLife past row)
    (lasts : row.status = .ready → row.isTemporary = true → row.expiredAt ≠ none) :
    Follows (unbound config) (resolveRowUrl config row) past
      (returning fun _ past' => Vouched anyLife past' row.id) := by
  unfold resolveRowUrl
  refine Follows.ask_bind trivial (fun now _ => ?_) fun _ => trivial
  refine Follows.check_bind (fun _ passed => ?_) fun _ => trivial
  have vouched := vouched_of_passed told lasts passed
  split
  · exact vouched
  · split
    · exact vouched
    · split
      · exact vouched
      · refine Follows.tryAsk_bind trivial fun reply _ => ?_
        cases reply with
        | none => trivial
        | some url => exact vouched.mono (List.suffix_cons _ _)

theorem toUploadedFileResult_vouches {row : Row} {id : Uuid} (named : row.id = id)
    (told : Told anyLife past row)
    (lasts : row.status = .ready → row.isTemporary = true → row.expiredAt ≠ none) :
    Follows (unbound config) (toUploadedFileResult config row) past
      (returning fun _ past' => Vouched anyLife past' id) :=
  Follows.seq _ (resolveRowUrl_vouches told lasts) (fun _ _ _ vouched => named ▸ vouched)
    fun _ _ _ => trivial

/-- A row that a lifecycle lookup just returned. -/
theorem told_of_lifecycle {access : Access} {id : Uuid} {row : Row}
    (credits : credible config.keyText ⟨.findOne (.lifecycle access id), some (some row)⟩) :
    Told true (⟨.findOne (.lifecycle access id), some (some row)⟩ :: past) row ∧ row.id = id ∧
      (row.status = .ready → row.isTemporary = true → row.expiredAt ≠ none) :=
  ⟨.lifecycle rfl access id List.mem_cons_self credits.1,
    (Access.lifecycleWhere_eq_true.mp credits.1).1, credits.2.lasts⟩

/-- What a claim of the completion lease returns: the row with its lease, or a result that another
run vouches for. -/
def leasedOrVouched (row : Row) (claimed : Claimed) (past : Past) : Prop :=
  match claimed with
  | .lease row' => row'.id = row.id ∧ row'.isTemporary = row.isTemporary
  | .settled _ => Vouched true past row.id

theorem settled_vouches {row current : Row} (told : Told true past current) (same : current.id = row.id)
    (lasts : current.status = .ready → current.isTemporary = true → current.expiredAt ≠ none) :
    Follows (unbound config)
      (do
        let result ← toUploadedFileResult config current
        pure (.settled result) : Service Claimed) past (returning (leasedOrVouched row)) :=
  Follows.seq _ (toUploadedFileResult_vouches same told lasts) (fun _ _ _ vouched => vouched)
    fun _ _ _ => trivial

theorem claimPendingCompletion_vouches (row : Row) (access : Access) (marker : Int)
    (staging : ObjectMetadata) :
    Follows (unbound config) (claimPendingCompletion config row access marker staging) past
      (returning (leasedOrVouched row)) := by
  unfold claimPendingCompletion
  refine Follows.ask_bind trivial (fun affected _ => ?_) fun _ => trivial
  split
  · exact ⟨rfl, rfl⟩
  · refine Follows.ask_bind trivial (fun found credits => ?_) fun _ => trivial
    cases found with
    | none => trivial
    | some current =>
        obtain ⟨told, same, lasts⟩ := told_of_lifecycle credits
        simp only
        split
        · exact settled_vouches told same lasts
        · trivial
        · trivial

theorem reclaimCompletion_vouches (row : Row) (access : Access) (now marker : Int)
    (staging : ObjectMetadata) :
    Follows (unbound config) (reclaimCompletion config row access now marker staging) past
      (returning (leasedOrVouched row)) := by
  unfold reclaimCompletion
  split
  · trivial
  · split
    · trivial
    · refine Follows.ask_bind trivial (fun affected _ => ?_) fun _ => trivial
      split
      · exact ⟨rfl, rfl⟩
      · refine Follows.ask_bind trivial (fun found credits => ?_) fun _ => trivial
        cases found with
        | none => trivial
        | some current =>
            obtain ⟨told, same, lasts⟩ := told_of_lifecycle credits
            simp only
            split
            · exact settled_vouches told same lasts
            · trivial

theorem finalizeCompletion_vouches {row seen : Row} {access : Access} {marker : Int}
    {final : ObjectMetadata} (read : Read past seen) (same : seen.id = row.id)
    (kind : row.isTemporary = seen.isTemporary) :
    Follows (unbound config) (finalizeCompletion config row access marker final) past
      (returning fun _ past' => Vouched true past' row.id) := by
  have retryable : ∀ (past : Past) (error : ServiceError),
      Follows (unbound config) (failRetryable row access marker error : Service FileResult) past
        (returning fun _ past' => Vouched true past' row.id) := by
    intro past error
    exact Follows.seq (fun _ _ => True) (unbound_follows _ past) (fun _ _ _ _ => trivial)
      fun _ _ _ => trivial
  unfold finalizeCompletion
  refine Follows.ask_bind trivial (fun completedAt _ => ?_) fun _ => trivial
  refine Follows.tryAsk_bind trivial fun reply _ => ?_
  match reply with
  | none =>
      refine Follows.tryAsk_bind trivial fun current credits => ?_
      match current with
      | none => exact retryable _ _
      | some none => exact retryable _ _
      | some (some current) =>
          obtain ⟨told, named, lasts⟩ := told_of_lifecycle credits
          simp only
          split
          · exact toUploadedFileResult_vouches named told lasts
          · exact retryable _ _
  | some affected =>
      simp only
      split
      · rename_i one
        subst one
        refine toUploadedFileResult_vouches rfl (.finalized seen row access marker completedAt _ _ _
          List.mem_cons_self rfl rfl rfl ?_ same kind) fun _ temporary => ?_
        · exact read.mono ((List.suffix_cons _ _).trans (List.suffix_cons _ _))
        · have temporary : row.isTemporary = true := temporary
          simp [temporary]
      · refine Follows.ask_bind trivial (fun current credits => ?_) fun _ => trivial
        match current with
        | none => trivial
        | some current =>
            obtain ⟨told, named, lasts⟩ := told_of_lifecycle credits
            simp only
            split
            · exact toUploadedFileResult_vouches named told lasts
            · trivial

theorem completeUnderLease_vouches {row seen : Row} {access : Access} {marker : Int}
    {pendingKey : StorageKey} {sourceEtag : Option Etag} (read : Read past seen)
    (same : seen.id = row.id) (kind : row.isTemporary = seen.isTemporary) :
    Follows (unbound config) (completeUnderLease config row access marker pendingKey sourceEtag)
      past (returning fun _ past' => Vouched true past' row.id) := by
  have retryable : ∀ (past : Past) (error : ServiceError),
      Follows (unbound config) (failRetryable row access marker error : Service FileResult) past
        (returning fun _ past' => Vouched true past' row.id) := by
    intro past error
    exact Follows.seq (fun _ _ => True) (unbound_follows _ past) (fun _ _ _ _ => trivial)
      fun _ _ _ => trivial
  unfold completeUnderLease
  refine Follows.seq (fun _ _ => True) (unbound_follows _ past) ?_ fun _ _ _ => trivial
  intro final past' longer _
  match final with
  | none => exact retryable _ _
  | some metadata =>
      simp only
      split
      · split
        · exact finalizeCompletion_vouches (read.mono longer) same kind
        · refine Follows.tryAsk_bind trivial fun removed _ => ?_
          match removed with
          | none => exact retryable _ _
          | some _ =>
              exact finalizeCompletion_vouches
                (read.mono (longer.trans (List.suffix_cons _ _))) same kind
      · exact retryable _ _

theorem completeManagedUpload_vouches {row : Row} (access : Access) (told : Told true past row)
    (read : Read past row)
    (lasts : row.status = .ready → row.isTemporary = true → row.expiredAt ≠ none) :
    Follows (unbound config) (completeManagedUpload config row access) past
      (returning fun _ past' => Vouched true past' row.id) := by
  unfold completeManagedUpload
  split
  · exact toUploadedFileResult_vouches rfl told lasts
  · trivial
  · refine Follows.ask_bind trivial (fun now _ => ?_) fun _ => trivial
    split
    · split
      · trivial
      · refine Follows.tryAsk_bind trivial fun staging _ => ?_
        match staging with
        | none => trivial
        | some none => trivial
        | some (some metadata) =>
            simp only
            split
            · refine Follows.seq (leasedOrVouched row) ?_ ?_ fun _ _ _ => trivial
              · unfold claimCompletionLease
                split
                · exact claimPendingCompletion_vouches row access _ metadata
                · exact reclaimCompletion_vouches row access now _ metadata
              · intro claimed past' longer leased
                match claimed with
                | .settled result => exact leased
                | .lease row' =>
                    rw [← leased.1]
                    have suffix := ((List.suffix_cons _ past).trans (List.suffix_cons _ _)).trans
                      longer
                    exact completeUnderLease_vouches (read.mono suffix) leased.1.symm leased.2
            · trivial
    · trivial

theorem findLifecycleAuthorized_tells (caller : Caller) (id : Option Uuid) (operation : Operation) :
    Follows (unbound config) (findLifecycleAuthorized caller id operation) past
      (returning fun found past' => some found.2.id = id ∧ Told true past' found.2 ∧
        Read past' found.2 ∧ (found.2.status = .ready → found.2.isTemporary = true →
          found.2.expiredAt ≠ none)) := by
  unfold findLifecycleAuthorized
  refine Follows.check_bind (fun id' parsed => ?_) fun _ => trivial
  refine Follows.check_bind (fun access _ => ?_) fun _ => trivial
  refine Follows.ask_bind trivial (fun found credits => ?_) fun _ => trivial
  cases found with
  | none => trivial
  | some row =>
      obtain ⟨told, named, lasts⟩ := told_of_lifecycle credits
      have known : id = some id' := by
        cases id with
        | none => cases parsed
        | some given => exact congrArg some (Except.ok.inj parsed)
      refine ⟨?_, told, .inl ⟨_, List.mem_cons_self⟩, lasts⟩
      rw [known, named]

theorem completeUpload_vouches (caller : Caller) (id : Option Uuid) :
    Follows (unbound config) (completeUpload config caller id) past
      (returning fun _ past' => ∀ file, id = some file → Vouched true past' file) := by
  refine Follows.seq _ (findLifecycleAuthorized_tells caller id .complete) ?_ fun _ _ _ => trivial
  rintro ⟨access, row⟩ past' - ⟨named, told, read, lasts⟩
  refine (completeManagedUpload_vouches access told read lasts).mono fun result _ _ vouched => ?_
  cases result with
  | error error => trivial
  | ok value =>
      intro file same
      obtain rfl : row.id = file := Option.some.inj (named.trans same)
      exact vouched

theorem find_vouches (caller : Caller) (id : Option Uuid) :
    Follows (unbound config) (find config caller id) past
      (returning fun result past' => result.resolved.url.isSome = true →
        ∀ file, id = some file → Vouched true past' file) := by
  refine Follows.seq _ (findLifecycleAuthorized_tells caller id .read) ?_ fun _ _ _ => trivial
  rintro ⟨access, row⟩ past' - ⟨named, told, read, lasts⟩
  simp only
  split
  · refine (toUploadedFileResult_vouches rfl told lasts).mono fun result _ _ vouched => ?_
    cases result with
    | error error => trivial
    | ok value =>
        intro _ file same
        obtain rfl : row.id = file := Option.some.inj (named.trans same)
        exact vouched
  · intro wrong
    cases wrong

theorem findAuthorized_vouches (caller : Caller) (id : Option Uuid) :
    Follows (unbound config) (findAuthorized caller id) past
      (returning fun _ past' => ∀ file, id = some file → Vouched false past' file) := by
  unfold findAuthorized
  refine Follows.check_bind (fun id' parsed => ?_) fun _ => trivial
  refine Follows.check_bind (fun access _ => ?_) fun _ => trivial
  refine Follows.ask_bind trivial (fun found credits => ?_) fun _ => trivial
  cases found with
  | none => trivial
  | some row =>
      obtain ⟨chosen, sound⟩ := credits
      simp only [Query.chosen, Bool.and_eq_true, decide_eq_true_eq] at chosen
      refine Follows.ask_bind trivial (fun now _ => ?_) fun _ => trivial
      refine Follows.check_bind (fun _ passed => ?_) fun _ => trivial
      have visible : row.visible = true := (Access.active_eq_true.mp chosen.1).2
      intro file same
      obtain rfl : row.id = file := by
        rw [same] at parsed
        exact chosen.2.trans (Except.ok.inj parsed).symm
      exact vouched_of_passed (.active _ List.mem_cons_self visible) sound.lasts passed

theorem resolveUrl_vouches (caller : Caller) (id : Option Uuid) :
    Follows (unbound config) (resolveUrl config caller id) past
      (returning fun _ past' => ∀ file, id = some file → Vouched false past' file) := by
  refine Follows.seq _ (findAuthorized_vouches caller id) ?_ fun _ _ _ => trivial
  intro row past' _ vouched
  refine (unbound_follows _ past').mono fun result _ longer _ => ?_
  cases result with
  | error error => trivial
  | ok value => exact fun file same => (vouched file same).mono longer

theorem download_vouches (caller : Caller) (id : Option Uuid) :
    Follows (unbound config) (download caller id) past
      (returning fun _ past' => ∀ file, id = some file → Vouched false past' file) := by
  refine Follows.seq _ (findAuthorized_vouches caller id) ?_ fun _ _ _ => trivial
  intro row past' _ vouched
  refine (unbound_follows _ past').mono fun result _ longer _ => ?_
  cases result with
  | error error => trivial
  | ok value => exact fun file same => (vouched file same).mono longer

theorem downloadAttached_vouches (caller : Caller) (id : Option Uuid)
    (attachment : Option Attachment) :
    Follows (unbound config) (downloadAttached caller id attachment) past
      (returning fun _ past' => ∀ file, id = some file → Vouched false past' file) := by
  unfold downloadAttached
  refine Follows.check_bind (fun id' parsed => ?_) fun _ => trivial
  split
  · split
    · refine Follows.ask_bind trivial (fun found credits => ?_) fun _ => trivial
      cases found with
      | none => trivial
      | some row =>
          obtain ⟨chosen, sound⟩ := credits
          simp only [Query.chosen, Bool.and_eq_true, decide_eq_true_eq] at chosen
          refine Follows.ask_bind trivial (fun now _ => ?_) fun _ => trivial
          refine Follows.check_bind (fun _ passed => ?_) fun _ => trivial
          refine (unbound_follows _ _).mono fun result _ longer _ => ?_
          cases result with
          | error error => trivial
          | ok value =>
              intro file same
              obtain rfl : row.id = file := by
                rw [same] at parsed
                exact chosen.1.1.1.1.1.1.trans (Except.ok.inj parsed).symm
              exact (vouched_of_passed (.active _ List.mem_cons_self chosen.2) sound.lasts
                passed).mono longer
    · trivial
  · trivial

end Programs

/-! ## Every request -/

/-- A request ends as the method behind it does. -/
theorem replying_ends {α : Type} {C : Conduct sig} (wrap : α → Reply) {body : Service α}
    {post : α → Past → Prop} {ending : Outcome → Past → Prop}
    (follows : Follows C body [] (returning post))
    (returned : ∀ value past, post value past → ending (.ok (wrap value)) past)
    (failed : ∀ error past, ending (.error error) past) :
    Program.Obeys C (replying wrap body) [] ending := by
  have sequence : Follows C (do let value ← body; pure (wrap value) : Service Reply) []
      ending := Follows.seq _ follows (fun value past _ held => returned value past held)
    fun error past _ => failed error past
  exact sequence

/-- Whatever request hands out access to a file vouches for it. -/
theorem launch_vouches (request : Request) :
    Program.Obeys (unbound config) (launch config request) [] fun outcome past =>
      ∀ id, request.grants outcome = some id → Vouched request.looksUpLifecycle past id := by
  cases request with
  | find caller id =>
      refine replying_ends _ (find_vouches caller id) (fun result past vouched file grants => ?_)
        fun _ _ _ wrong => (by cases wrong)
      simp only [Request.grants] at grants
      split at grants
      · rename_i url
        exact vouched url file grants
      · cases grants
  | completeUpload caller id =>
      refine replying_ends _ (completeUpload_vouches caller id)
        (fun result past vouched file grants => ?_) fun _ _ _ wrong => (by cases wrong)
      simp only [Request.grants] at grants
      split at grants
      · exact vouched file grants
      · cases grants
  | resolveUrl caller id =>
      exact replying_ends _ (resolveUrl_vouches caller id) (fun _ _ vouched => vouched)
        fun _ _ _ wrong => (by cases wrong)
  | download caller id =>
      exact replying_ends _ (download_vouches caller id) (fun _ _ vouched => vouched)
        fun _ _ _ wrong => (by cases wrong)
  | downloadAttached caller id attachment =>
      exact replying_ends _ (downloadAttached_vouches caller id attachment)
        (fun _ _ vouched => vouched) fun _ _ _ wrong => (by cases wrong)
  | _ =>
      exact Program.obeys_mono (unbound_obeys _ _) fun _ _ _ _ wrong => (by cases wrong)

/-! ## Over a run -/

section Run

variable {core : SystemCore config} {worker : Worker}

/-- A row that a lookup returned was in the table. -/
theorem mem_of_findOne {world : World} {query : Query} {row : Row}
    (found : some row = (query.select config.keyText world.table.rows).head?) :
    row ∈ world.table :=
  (Query.mem_of_mem_select (List.mem_of_mem_head? found.symm)).1

/-- The row that a finalising UPDATE took, as the UPDATE left it. -/
theorem row_of_finalize (chronicle : Chronicle core) {event : Event (system config)}
    (member : event ∈ core.history) {seen snapshot : Row} {access : Access}
    {marker completedAt : Int} {etag : Option Etag} {checksum : Option String} {drop : Bool}
    (counted : 1 = (exec config.toDeployment event.before worker (.update
      (.finalizeCompletion snapshot access marker completedAt etag checksum drop))).1)
    (read : Read (core.pastOf worker) seen) (same : seen.id = snapshot.id)
    (kind : snapshot.isTemporary = seen.isTemporary) :
    ∃ row ∈ (exec config.toDeployment event.before worker (.update
        (.finalizeCompletion snapshot access marker completedAt etag checksum drop))).2.table,
      row.id = snapshot.id ∧ row.deletedAt = none ∧ row.uploadPendingAt = none ∧
        row.deletionPendingAt = none ∧ row.status = .ready ∧
        row.isTemporary = snapshot.isTemporary ∧ row.expiredAt =
          if snapshot.isTemporary then some (completedAt + temporaryFileLifetimeMs) else none := by
  obtain ⟨row, there, chosen, named⟩ := World.row_of_affected (fun row chosen => by
    simp only [Statement.chosen, Bool.and_eq_true] at chosen
    exact (Access.lifecycleWhere_eq_true.mp chosen.1.1).1) counted.symm
  refine ⟨_, World.mem_apply.mpr ⟨row, there, rfl⟩, ?_⟩
  rw [if_pos chosen]
  simp only [Statement.chosen, Bool.and_eq_true] at chosen
  obtain ⟨-, -, deleted, deleting⟩ := Access.lifecycleWhere_eq_true.mp chosen.1.1
  have temporary : row.isTemporary = snapshot.isTemporary := by
    obtain ⟨current, present, later⟩ := chronicle.seen worker seen (.inr read)
    have later' := chronicle.later member there present
      (later.sameFile.id.trans (same.trans named.symm))
    rw [kind, ← later.isTemporary, later'.isTemporary]
  exact ⟨named, deleted, rfl, deleting, rfl, temporary, rfl⟩

/-- What an operation vouches for was readable, if its lookups met settled rows. -/
theorem shown_of_vouched (chronicle : Chronicle core) {anyLife : Bool} {id : Uuid}
    (vouched : Vouched anyLife (core.pastOf worker) id)
    (settled : anyLife = true → ∀ event ∈ core.history, ∀ access id,
      event.act = .issue .answer worker (.findOne (.lifecycle access id)) →
      ∀ row ∈ World.table event.before, access.lifecycleWhere id row = true →
        row.status = .ready → row.uploadPendingAt = none) :
    Shown core worker id := by
  obtain ⟨time, earlier, row, suffix, rfl, ready, told, unexpired⟩ := vouched
  obtain ⟨reading, older, after, readClock, rfl, rfl⟩ := Core.event_of_suffix suffix
  refine ⟨reading, older, ?_⟩
  have inside : ∀ event ∈ older, event ∈ core.history := fun event member =>
    after.subset (List.mem_cons_of_mem _ member)
  cases told with
  | active query step visible =>
      obtain ⟨telling, member, stepped⟩ := List.mem_filterMap.mp step
      obtain ⟨asked, found⟩ := Core.answered_of_stepOf stepped
      refine ⟨telling, .findOne query, after, member, readClock, asked, rfl, row,
        mem_of_findOne found, rfl, ?_⟩
      exact ⟨Row.visible_eq_true.mp visible, ready, unexpired⟩
  | lifecycle allowed access id step chosen =>
      obtain ⟨telling, member, stepped⟩ := List.mem_filterMap.mp step
      obtain ⟨asked, found⟩ := Core.answered_of_stepOf stepped
      have there := mem_of_findOne found
      have pending := settled allowed telling (inside telling member) access id asked row there
        chosen ready
      obtain ⟨-, -, deleted, deleting⟩ := Access.lifecycleWhere_eq_true.mp chosen
      refine ⟨telling, _, after, member, readClock, asked, rfl, row, there, rfl, ?_⟩
      exact ⟨⟨deleted, pending, deleting⟩, ready, unexpired⟩
  | finalized seen snapshot access marker completedAt etag checksum drop step named temporary expires
      read same kind =>
      obtain ⟨telling, member, stepped⟩ := List.mem_filterMap.mp step
      obtain ⟨asked, counted⟩ := Core.answered_of_stepOf stepped
      have longer : older.filterMap (Event.stepOf worker) <:+ core.pastOf worker :=
        (List.suffix_cons _ _).trans suffix
      obtain ⟨row', there, id, deleted, pending, deleting, ready', temporary', expires'⟩ :=
        row_of_finalize chronicle (inside telling member) counted (read.mono longer) same kind
      refine ⟨telling, _, after, member, readClock, asked, rfl, row', there,
        id.trans named.symm, ⟨deleted, pending, deleting⟩, ready', ?_⟩
      rw [expires', ← expires, temporary', ← temporary]
      exact unexpired

end Run

/-- **Hidden while pending**: in every run in which `find` and `completeUpload` look up no row
that is ready while its upload is pending, access to the bytes of a file is handed out only for
an active, ready and unexpired row. -/
theorem hidden_while_pending {time : Int} {state : SystemConfig config}
    (reached : Reachable config time state) (settled : LooksUpSettled state) :
    HiddenWhilePending state := by
  have maintained := Reach.keeps (chronicle_keeps config) (launch_follows config)
    (chronicle_initial time) reached
  intro number worker request outcome id finished grants
  have ends := Program.obeys_after (launch_vouches request) (maintained.runs number _ finished).1
    (maintained.credited worker)
  refine shown_of_vouched maintained.inv (ends id grants) fun lifecycle event member => ?_
  exact settled number _ finished lifecycle event member

/-! ## Two runs -/

/-- The thread has handed out access to the file. -/
def handsOut (state : SystemConfig config) (number : Nat) (id : Uuid) : Bool :=
  (state.threads number).any fun thread =>
    match thread.program with
    | .done outcome => decide (thread.origin.grants outcome = some id)
    | .ask _ _ => false

theorem handsOut_eq_true {state : SystemConfig config} {number : Nat} {id : Uuid}
    (hands : handsOut state number id = true) :
    ∃ worker request outcome, state.threads number = some ⟨worker, request, .done outcome⟩ ∧
      request.grants outcome = some id := by
  obtain ⟨⟨worker, request, program⟩, found, granted⟩ := (Option.any_eq_true _ _).mp hands
  cases program with
  | done outcome => exact ⟨worker, request, outcome, found, of_decide_eq_true granted⟩
  | ask call next => cases granted

/-- Every lookup of the history met settled rows only. -/
def meetsSettled (core : SystemCore config) : Bool :=
  core.history.all fun event =>
    match event.act with
    | .issue .answer _ (.findOne (.lifecycle _ _)) =>
        (World.table event.before).rows.all fun row => row.uploadPendingAt.isNone
    | _ => true

theorem looksUpSettled_of_meetsSettled {state : SystemConfig config}
    (checked : meetsSettled state.core = true) : LooksUpSettled state := by
  intro number thread found lifecycle event member access id asked row there chosen ready
  have met := List.all_eq_true.mp checked event member
  rw [asked] at met
  exact Option.isNone_iff_eq_none.mp (List.all_eq_true.mp met row there)

/-- A legacy upload, then a lookup of its file. -/
def foundAfterwards : List (SystemLabel (smallConfig .s3)) :=
  .spawn 0 (.uploadLegacy smallCaller [1, 2] (some "a.txt") {} none {}) :: answering 0 5 ++
    .spawn 0 (.find smallCaller (some 0)) :: answering 1 3

theorem hidden_while_pending_found :
    ∃ state : SystemConfig (smallConfig .s3), Reachable (smallConfig .s3) 0 state ∧
      LooksUpSettled state ∧ handsOut state 1 0 = true ∧ HiddenWhilePending state := by
  have observed : (after (smallConfig .s3) foundAfterwards).any (fun state =>
      meetsSettled state.core && handsOut state 1 0) = true := by
    decide +kernel
  obtain ⟨state, followed, seen⟩ := (Option.any_eq_true _ _).mp observed
  obtain ⟨checked, hands⟩ := Bool.and_eq_true_iff.mp seen
  have settled := looksUpSettled_of_meetsSettled checked
  have reached := reachable_after followed
  exact ⟨state, reached, settled, hands, hidden_while_pending reached settled⟩

/-- The same lookup right after the INSERT of the upload. -/
def foundTooEarly : List (SystemLabel (smallConfig .s3)) :=
  .spawn 0 (.uploadLegacy smallCaller [1, 2] (some "a.txt") {} none {}) :: answering 0 3 ++
    .spawn 0 (.find smallCaller (some 0)) :: answering 1 3

/-- After every call of the history, the upload of every row was still pending. -/
def allPending (core : SystemCore config) : Bool :=
  core.history.all fun event =>
    match event.act with
    | .issue _ worker call =>
        (exec config.toDeployment event.before worker call).2.table.rows.all fun row =>
          row.uploadPendingAt.isSome
    | _ => true

/-- `find` hands out the URL of a file whose object is not stored yet. -/
theorem url_before_the_object_is_written :
    ∃ state : SystemConfig (smallConfig .s3), Reachable (smallConfig .s3) 0 state ∧
      handsOut state 1 0 = true ∧
      (∀ row ∈ state.core.world.table, state.core.world.objects row.key = none) ∧
      ¬ HiddenWhilePending state := by
  have observed : (after (smallConfig .s3) foundTooEarly).any (fun state =>
      handsOut state 1 0 && allPending state.core && state.core.world.table.rows.all fun row =>
        decide (state.core.world.objects row.key = none)) = true := by
    decide +kernel
  obtain ⟨state, followed, seen⟩ := (Option.any_eq_true _ _).mp observed
  simp only [Bool.and_eq_true] at seen
  obtain ⟨⟨hands, pending⟩, absent⟩ := seen
  refine ⟨state, reachable_after followed, hands, fun row member => ?_, fun hidden => ?_⟩
  · exact of_decide_eq_true (List.all_eq_true.mp absent row member)
  · obtain ⟨worker, request, outcome, found, granted⟩ := handsOut_eq_true hands
    obtain ⟨reading, older, telling, call, suffix, member, -, asked, -, row, there, -, readable⟩ :=
      hidden 1 worker request outcome 0 found granted
    have marked := List.all_eq_true.mp pending telling
      (suffix.subset (List.mem_cons_of_mem _ member))
    rw [asked] at marked
    have still := List.all_eq_true.mp marked row there
    rw [readable.active.2.1] at still
    cases still

end SdcoreNest.UploadedFile
