/-
# UploadedFile.Recovery -- completing again after a completion that failed

A completion that was cut off, by a call that threw or by the end of its process, leaves the row
`completing` or `ready`, and each of its two objects is missing or the object that the client stored.
The next completion returns the ready file just when the row is ready already or the staging object is
still there.  The local driver removes the staging object before the row is ready.

* `CutOff` -- a request up to any of its calls, each answered or thrown;
* `interrupted_cutOff` -- what a completion leaves behind then;
* `failed_completion_recovers_iff` -- what the next completion makes of it.
-/
import SdcoreNest.UploadedFile.Service
import SdcoreNest.UploadedFile.FaultFree

namespace SdcoreNest.UploadedFile

open SdcoreNest.Theory
open SdcoreNest.Theory.Program

set_option autoImplicit false

/-! ## What a completion asks for -/

/-- The updates of a completion, with the version of the staging object in them. -/
def Statement.Completes (staged : ObjectMetadata) : Statement → Prop
  | .claimCompletion _ _ _ etag => etag = staged.etag
  | .reclaimCompletion snapshot _ _ etag =>
      etag = staged.etag ∧ (snapshot.etag = none ∨ snapshot.etag = staged.etag)
  | .markCompletionRetryable .. => True
  | .finalizeCompletion .. => True
  | _ => False

/-- The calls of a completion that changes these two objects and no others. -/
def CompletionCall (driver : Driver) (staging final : StorageKey) (staged : ObjectMetadata) : Call → Prop
  | .update statement => statement.Completes staged
  | .copyObject source destination _ => source = staging ∧ destination = final
  | .link source destination => source = staging ∧ destination = final
  | .unlink key => key = staging ∧ driver = .localDisk
  | .deleteObject key => key = staging ∧ driver = .localDisk
  | .now | .findOne _ | .headObject _ | .createDownloadUrl .. => True
  | _ => False

/-- What is staged is known. -/
def completion (driver : Driver) (staging final : StorageKey) (staged : ObjectMetadata) : Conduct sig where
  allows _ := CompletionCall driver staging final staged
  credible
    | ⟨.headObject key, some (some metadata)⟩ => key = staging → metadata = staged
    | _ => True

section Follows

variable {config : Config} {access : Access} {past : Past} {row : Row} {staging final : StorageKey}
  {staged : ObjectMetadata}

theorem resolveRowUrl_completes (row : Row) :
    Follows (completion config.driver staging final staged) (resolveRowUrl config row) past anyhow := by
  unfold resolveRowUrl
  refine Follows.ask_bind trivial (fun now _ => ?_) fun _ => trivial
  refine Follows.check_bind (fun _ _ => ?_) fun _ => trivial
  split
  · trivial
  · split
    · trivial
    · split
      · trivial
      · refine Follows.tryAsk_bind trivial fun reply _ => ?_
        cases reply <;> trivial

theorem toUploadedFileResult_completes (row : Row) :
    Follows (completion config.driver staging final staged) (toUploadedFileResult config row) past
      anyhow := by
  unfold toUploadedFileResult
  exact Follows.seq (fun _ _ => True) (resolveRowUrl_completes row) (fun _ _ _ _ => trivial)
    fun _ _ _ => trivial

theorem failRetryable_completes {α : Type} {post : α → Past → Prop} (row : Row) (marker : Int)
    (error : ServiceError) :
    Follows (completion config.driver staging final staged)
      (failRetryable row access marker error : Service α) past (returning post) := by
  unfold failRetryable markCompletionRetryable
  rw [follows_bind]
  refine Follows.ask_bind trivial (fun now _ => ?_) fun _ => trivial
  exact Follows.tryAsk_bind trivial fun _ _ => trivial

/-- A lease is on the row itself. -/
def leasesKey (row : Row) : Claimed → Past → Prop
  | .lease leased, _ => leased.key = row.key
  | .settled _, _ => True

theorem settledResult_completes (row current : Row) :
    Follows (completion config.driver staging final staged)
      (do let result ← toUploadedFileResult config current; pure (.settled result) :
        Service Claimed) past (returning (leasesKey row)) :=
  Follows.seq (fun _ _ => True) (toUploadedFileResult_completes current)
    (fun _ _ _ _ => trivial) fun _ _ _ => trivial

theorem claimPendingCompletion_completes (row : Row) (marker : Int) :
    Follows (completion config.driver staging final staged)
      (claimPendingCompletion config row access marker staged) past (returning (leasesKey row)) := by
  unfold claimPendingCompletion
  refine Follows.ask_bind rfl (fun affected _ => ?_) fun _ => trivial
  split
  · exact (rfl : row.key = row.key)
  · refine Follows.ask_bind trivial (fun current _ => ?_) fun _ => trivial
    match current with
    | none => trivial
    | some current =>
        simp only
        split
        · exact settledResult_completes row current
        · trivial
        · trivial

theorem reclaimCompletion_completes (row : Row) (now marker : Int)
    (version : row.etag = none ∨ row.etag = staged.etag) :
    Follows (completion config.driver staging final staged)
      (reclaimCompletion config row access now marker staged) past (returning (leasesKey row)) := by
  unfold reclaimCompletion
  split
  · trivial
  · split
    · trivial
    · refine Follows.ask_bind ⟨rfl, version⟩ (fun affected _ => ?_) fun _ => trivial
      split
      · exact (rfl : row.key = row.key)
      · refine Follows.ask_bind trivial (fun current _ => ?_) fun _ => trivial
        match current with
        | none => trivial
        | some current =>
            simp only
            split
            · exact settledResult_completes row current
            · trivial

theorem promoteObject_completes (etag : Option Etag) :
    Follows (completion config.driver staging final staged) (promoteObject config staging final etag) past
      anyhow := by
  unfold promoteObject
  split
  · refine Follows.ask_bind ⟨rfl, rfl⟩ (fun copied _ => ?_) fun _ => trivial
    split <;> trivial
  · rename_i disk
    refine Follows.ask_bind ⟨rfl, rfl⟩ (fun linked _ => ?_) fun _ => trivial
    split
    · refine Follows.ask_bind ⟨rfl, disk⟩ (fun removed _ => ?_) fun _ => trivial
      split <;> trivial
    · trivial

theorem promotedObject_completes (etag : Option Etag) (final_ : row.key = final) :
    Follows (completion config.driver staging final staged) (promotedObject config row staging etag) past
      anyhow := by
  unfold promotedObject
  refine Follows.ask_bind trivial (fun existing _ => ?_) fun _ => trivial
  match existing with
  | some metadata => trivial
  | none =>
      rw [final_]
      refine Follows.seq (fun _ _ => True) (promoteObject_completes etag) ?_ fun _ _ _ => trivial
      exact fun _ _ _ _ => Follows.ask trivial (fun _ _ => trivial) fun _ => trivial

theorem finalizeCompletion_completes (row : Row) (marker : Int) (metadata : ObjectMetadata) :
    Follows (completion config.driver staging final staged)
      (finalizeCompletion config row access marker metadata) past anyhow := by
  unfold finalizeCompletion
  refine Follows.ask_bind trivial (fun completedAt _ => ?_) fun _ => trivial
  refine Follows.tryAsk_bind trivial fun reply _ => ?_
  match reply with
  | none =>
      refine Follows.tryAsk_bind trivial fun current _ => ?_
      split
      · split
        · exact toUploadedFileResult_completes _
        · exact failRetryable_completes row marker _
      · exact failRetryable_completes row marker _
  | some affected =>
      simp only
      split
      · exact toUploadedFileResult_completes _
      · refine Follows.ask_bind trivial (fun current _ => ?_) fun _ => trivial
        match current with
        | none => trivial
        | some current =>
            simp only
            split
            · exact toUploadedFileResult_completes _
            · trivial

theorem completeUnderLease_completes (marker : Int) (etag : Option Etag) (final_ : row.key = final) :
    Follows (completion config.driver staging final staged)
      (completeUnderLease config row access marker staging etag) past anyhow := by
  unfold completeUnderLease
  refine Follows.seq (fun _ _ => True) ?_ ?_ fun _ _ _ => trivial
  · exact Follows.catching (promotedObject_completes etag final_) (fun _ _ _ => trivial)
      fun _ _ _ => failRetryable_completes row marker _
  · intro found past' longer _
    match found with
    | none => exact failRetryable_completes row marker _
    | some metadata =>
        simp only
        split
        · split
          · exact finalizeCompletion_completes row marker metadata
          · rename_i disk
            refine Follows.tryAsk_bind ⟨rfl, disk⟩ fun removed _ => ?_
            match removed with
            | none => exact failRetryable_completes row marker _
            | some _ => exact finalizeCompletion_completes row marker metadata
        · exact failRetryable_completes row marker _

theorem completeManagedUpload_completes (keyed : row.pendingKey = some staging) (final_ : row.key = final)
    (version : row.etag = none ∨ row.etag = staged.etag) :
    Follows (completion config.driver staging final staged) (completeManagedUpload config row access) past
      anyhow := by
  unfold completeManagedUpload
  rw [keyed]
  split
  · exact toUploadedFileResult_completes row
  · trivial
  · refine Follows.ask_bind trivial (fun now _ => ?_) fun _ => trivial
    split
    · rename_i key uploadExpiredAt isKey expires
      obtain rfl := Option.some.inj isKey
      split
      · trivial
      · refine Follows.tryAsk_bind trivial fun found credits => ?_
        match found, credits with
        | none, _ => trivial
        | some none, _ => trivial
        | some (some metadata), isStaged =>
            obtain rfl := isStaged rfl
            simp only
            split
            · refine Follows.seq (leasesKey row) ?_ ?_ fun _ _ _ => trivial
              · unfold claimCompletionLease
                split
                · exact claimPendingCompletion_completes row _
                · exact reclaimCompletion_completes row now _ version
              · intro claimed past' _ same
                match claimed, same with
                | .settled result, _ => trivial
                | .lease leased, isKey => exact completeUnderLease_completes _ _ (isKey.trans final_)
            · trivial
    · trivial

end Follows

/-! ## A request that is cut off -/

/-- A request ran up to one of its calls or to its end, and left a world behind.  Every call before
was answered or thrown; of a call that threw, parts may have taken effect.  Time passes meanwhile. -/
inductive CutOff (deployment : Deployment) (worker : Worker) {β : Type} :
    Program sig β → World → World → Prop where
  | here (p : Program sig β) (world : World) : CutOff deployment worker p world world
  | answered {call : Call} {next : Option call.Answer → Program sig β} {world world' : World}
      (rest : CutOff deployment worker (next (some (exec deployment world worker call).1))
        (exec deployment world worker call).2 world') :
      CutOff deployment worker (.ask call next) world world'
  | thrown {call : Call} {next : Option call.Answer → Program sig β} {world world' : World}
      (landed : List Call) (unsure : sure call = false) (part : landed.Sublist (residue call))
      (rest : CutOff deployment worker (next none) (landAll deployment worker world landed) world') :
      CutOff deployment worker (.ask call next) world world'
  | waited {p : Program sig β} {world world' : World} (clock : Host → Int)
      (rest : CutOff deployment worker p { world with clock := clock } world') :
      CutOff deployment worker p world world'

section

variable {deployment : Deployment} {worker : Worker} {α : Type}

/-- A request under faults runs to its end. -/
theorem cutOff_run {faults : Faults} (possible : faults.Possible) (p : Program sig α) (solo : Solo) :
    CutOff deployment worker p solo.world (run (serve deployment worker faults) p solo).2.world := by
  induction p generalizing solo with
  | done value => exact .here _ _
  | ask call next ih =>
      cases thrown : faults solo.log call with
      | none =>
          have served : serve deployment worker faults solo call =
              (some (exec deployment solo.world worker call).1,
                ⟨(exec deployment solo.world worker call).2,
                  ⟨call, some (exec deployment solo.world worker call).1⟩ :: solo.log⟩) := by
            simp only [serve, thrown]
          refine .answered ?_
          simp only [run, served]
          exact ih _ ⟨_, _⟩
      | some landed =>
          obtain ⟨unsure, part⟩ := possible _ _ _ thrown
          have served : serve deployment worker faults solo call =
              (none, ⟨landAll deployment worker solo.world landed, ⟨call, none⟩ :: solo.log⟩) := by
            simp only [serve, thrown]
          refine .thrown landed unsure part ?_
          simp only [run, served]
          exact ih _ ⟨_, _⟩

/-- What every call keeps, answered or thrown, a request that is cut off has kept. -/
theorem CutOff.keeps {holds : World → Prop} {C : Conduct sig} {p : Program sig α} {past : Past}
    {post : α → Past → Prop} {world world' : World} (cut : CutOff deployment worker p world world')
    (obeys : Obeys C p past post)
    (kept : ∀ {world : World} {past : Past} {call : Call}, C.allows past call → holds world →
      holds (exec deployment world worker call).2)
    (lost : ∀ {past : Past} {call : Call}, C.allows past call → residue call = [] ∨ residue call = [call])
    (waits : ∀ {world : World} (clock : Host → Int), holds world → holds { world with clock := clock })
    (credible : ∀ {world : World} {call : Call}, holds world →
      C.credible ⟨call, some (exec deployment world worker call).1⟩ ∧ C.credible ⟨call, none⟩)
    (before : holds world) : holds world' := by
  induction cut generalizing past with
  | here => exact before
  | @answered call next world world' rest ih =>
      exact ih (obeys.2 _ (credible before).1) (kept obeys.1 before)
  | @thrown call next world world' landed unsure part rest ih =>
      refine ih (obeys.2 _ (@credible world call before).2) ?_
      rcases lost obeys.1 with nothing | itself
      · obtain rfl := List.sublist_nil.mp (nothing ▸ part)
        exact before
      · rcases List.sublist_singleton.mp (itself ▸ part) with rfl | rfl
        · exact before
        · exact kept obeys.1 before
  | waited clock rest ih => exact ih obeys (waits clock before)

end

/-! ## What a completion leaves behind -/

/-- The row is the one that was to be completed, and it can be completed or is. -/
structure Underway (driver : Driver) (staging : StorageKey) (object : StoredObject) (row current : Row) :
    Prop where
  same : Statement.SameFile row current
  checksum : current.status = .ready ∨ current.checksum = row.checksum
  untouched : current.deletedAt = none ∧ current.deletionPendingAt = none
  status : current.status = .pending ∨ current.status = .completing ∨ current.status = .ready
  pendingKey : current.status = .ready ∨ current.pendingKey = some staging
  etag : current.status = .ready ∨ current.etag = none ∨ current.etag = (object.head driver).etag

/-- Between two completions: the staged object is there or, with the local driver, may be gone, and
the final object is a copy of it. -/
structure Interrupted (driver : Driver) (staging : StorageKey) (object : StoredObject) (row : Row)
    (world : World) : Prop where
  current : ∀ current ∈ world.table, current.id = row.id → Underway driver staging object row current
  staged : world.objects staging = some object ∨ driver = .localDisk ∧ world.objects staging = none
  promoted : world.objects row.key = none ∨ world.objects row.key = some object
  apart : row.key ≠ staging

section

variable {driver : Driver} {staging : StorageKey} {object : StoredObject} {row current : Row}
  {world : World}

/-- The updates of a completion leave the row under way. -/
theorem Underway.patched (underway : Underway driver staging object row current)
    {statement : Statement} (completes : statement.Completes (object.head driver))
    (chosen : statement.chosen current = true) (clock : Moment) :
    Underway driver staging object row (statement.patch clock current) := by
  obtain ⟨same, checksum, untouched, status, pendingKey, etag⟩ := underway
  have file := same.trans (Statement.patch_sameFile clock statement current)
  have completing : current.status = .completing → current.checksum = row.checksum ∧
      current.pendingKey = some staging ∧
      (current.etag = none ∨ current.etag = (object.head driver).etag) := by
    intro completing
    rw [completing] at checksum pendingKey etag
    exact ⟨checksum.resolve_left (by decide), pendingKey.resolve_left (by decide), etag.resolve_left (by decide)⟩
  cases statement with
  | claimCompletion snapshot access marker etag' =>
      simp only [Statement.chosen, Bool.and_eq_true, decide_eq_true_eq] at chosen
      have pending := chosen.1.2
      rw [pending] at checksum pendingKey
      exact ⟨file, .inr (checksum.resolve_left (by decide)), untouched, .inr (.inl rfl),
        .inr (pendingKey.resolve_left (by decide)), .inr (.inr completes)⟩
  | reclaimCompletion snapshot access marker etag' =>
      simp only [Statement.chosen, Bool.and_eq_true, decide_eq_true_eq] at chosen
      have now := chosen.1.1.2
      obtain ⟨sum, key, -⟩ := completing now
      obtain ⟨rfl, version⟩ := completes
      refine ⟨file, .inr sum, untouched, .inr (.inl now), .inr key, .inr ?_⟩
      rcases version with none | same
      · exact .inr (by simp [Statement.patch, none])
      · refine .inr ?_
        simp only [Statement.patch, same]
        cases (object.head driver).etag <;> rfl
  | markCompletionRetryable snapshot access marker retryAt =>
      simp only [Statement.chosen, Bool.and_eq_true, decide_eq_true_eq] at chosen
      have now := chosen.1.2
      obtain ⟨sum, key, tag⟩ := completing now
      exact ⟨file, .inr sum, untouched, .inr (.inl now), .inr key, .inr tag⟩
  | finalizeCompletion snapshot access marker completedAt etag' checksum' dropPendingKey =>
      exact ⟨file, .inl rfl, untouched, .inr (.inr rfl), .inl rfl, .inl rfl⟩
  | _ => cases completes

theorem Interrupted.updated (interrupted : Interrupted driver staging object row world)
    {statement : Statement} (completes : statement.Completes (object.head driver)) :
    Interrupted driver staging object row (world.apply statement) := by
  refine ⟨fun current member named => ?_, interrupted.staged, interrupted.promoted, interrupted.apart⟩
  obtain ⟨old, inside, rfl⟩ :=
    (Keyed.mem_update (statement.patch_id world.timestamp)).mp member
  by_cases chosen : statement.chosen old = true
  · rw [if_pos chosen] at named ⊢
    rw [Statement.patch_id] at named
    exact (interrupted.current old inside named).patched completes chosen _
  · rw [if_neg chosen] at named ⊢
    exact interrupted.current old inside named

/-- The staged object is copied to the final key. -/
theorem Interrupted.copied (interrupted : Interrupted driver staging object row world)
    {copy : StoredObject} (stored : world.objects staging = some copy) :
    Interrupted driver staging object row (world.setObjects (world.objects.put row.key copy)) := by
  have known : copy = object := by
    rcases interrupted.staged with there | ⟨-, gone⟩
    · exact Option.some.inj (stored.symm.trans there)
    · rw [stored] at gone
      cases gone
  subst known
  exact ⟨interrupted.current, .inl ((Objects.put_of_ne _ _ interrupted.apart.symm).trans stored),
    .inr (Objects.put_self _ _ _), interrupted.apart⟩

theorem Interrupted.unstaged (interrupted : Interrupted driver staging object row world)
    (disk : driver = .localDisk) :
    Interrupted driver staging object row (world.setObjects (world.objects.remove staging)) := by
  refine ⟨interrupted.current, .inr ⟨disk, Objects.remove_self _ _⟩, ?_, interrupted.apart⟩
  have kept : (world.objects.remove staging) row.key = world.objects row.key :=
    Objects.remove_of_ne _ interrupted.apart
  simp only [World.setObjects, kept]
  exact interrupted.promoted

theorem Interrupted.exec {deployment : Deployment} {worker : Worker} {call : Call}
    (interrupted : Interrupted deployment.driver staging object row world)
    (allowed : CompletionCall deployment.driver staging row.key (object.head deployment.driver) call) :
    Interrupted deployment.driver staging object row (exec deployment world worker call).2 := by
  cases call with
  | update statement => exact interrupted.updated allowed
  | copyObject source destination etag =>
      obtain ⟨rfl, rfl⟩ := allowed
      simp only [UploadedFile.exec]
      split
      · rename_i copy stored
        split
        · exact interrupted.copied stored
        · exact interrupted
      · exact interrupted
  | link source destination =>
      obtain ⟨rfl, rfl⟩ := allowed
      simp only [UploadedFile.exec]
      split
      · rename_i copy stored _
        exact interrupted.copied stored
      · exact interrupted
  | unlink key =>
      obtain ⟨rfl, disk⟩ := allowed
      simp only [UploadedFile.exec]
      split
      · exact interrupted.unstaged disk
      · exact interrupted
  | deleteObject key =>
      obtain ⟨rfl, disk⟩ := allowed
      exact interrupted.unstaged disk
  | now | findOne | headObject | createDownloadUrl => exact interrupted
  | _ => cases allowed

end

section

variable {config : Config} {worker : Worker} {world world' : World} {row : Row} {access : Access}
  {staging : StorageKey} {object : StoredObject}

/-- Wherever a completion is cut off, what it leaves behind is known. -/
theorem interrupted_cutOff (member : row ∈ world.table) (open_ : row.status ≠ .ready)
    (interrupted : Interrupted config.driver staging object row world)
    (cut : CutOff config.toDeployment worker (completeManagedUpload config row access).run world world') :
    Interrupted config.driver staging object row world' := by
  obtain ⟨-, -, -, -, pendingKey, etag⟩ := interrupted.current row member rfl
  have follows := @completeManagedUpload_completes config access [] row staging row.key
    (object.head config.driver) (pendingKey.resolve_left open_) rfl (etag.resolve_left open_)
  refine cut.keeps (C := completion config.driver staging row.key (object.head config.driver)) follows
    (fun allowed before => before.exec allowed) ?_
    (fun _ before => ⟨before.current, before.staged, before.promoted, before.apart⟩) ?_ interrupted
  · intro past call allowed
    cases call with
    | update | copyObject | link | unlink | deleteObject => exact .inr rfl
    | now | findOne | headObject | createDownloadUrl => exact .inl rfl
    | _ => cases allowed
  · intro world call before
    cases call with
    | headObject key =>
        refine ⟨?_, trivial⟩
        simp only [exec, completion]
        rcases found : world.objects key with _ | stored
        · trivial
        · rintro rfl
          rcases before.staged with there | ⟨-, gone⟩
          · rw [found] at there
            rw [Option.some.inj there]
          · rw [found] at gone
            cases gone
    | _ => exact ⟨trivial, trivial⟩

/-! ## What the next completion makes of it -/

/-- A completion whose lease ran out is taken over while the staged object is there. -/
theorem effect_reclaimed {marker? : Option Int} {expiredAt : Int} (member : row ∈ world.table)
    (covered : access.covers row = true)
    (untouched : row.deletedAt = none ∧ row.deletionPendingAt = none)
    (status : row.status = .completing) (staged : row.pendingKey = some staging)
    (until_ : row.uploadExpiredAt = some expiredAt)
    (version : row.etag = none ∨ row.etag = (object.head config.driver).etag)
    (leased : row.uploadPendingAt = marker?)
    (ended : ∀ marker, marker? = some marker → marker ≤ world.clock (.process worker.process))
    (stored : world.objects staging = some object)
    (final : world.objects row.key = none ∨ world.objects row.key = some object)
    (apart : row.key ≠ staging)
    (matching : metadataMatches config row (some (object.head config.driver)) = true) :
    ∃ file world', effect config.toDeployment worker (completeManagedUpload config row access) world =
        (.ok file, world') ∧ file.id = row.id ∧ file.status = .ready := by
  have names : ∀ marker etag, Names (.reclaimCompletion row access marker etag) row world := by
    intro marker etag other inside
    simp only [Statement.chosen, Bool.and_eq_true, decide_eq_true_eq, Access.lifecycleWhere_eq_true]
    constructor
    · exact fun chosen => chosen.1.1.1.1
    · intro named
      obtain rfl := Keyed.eq_of_key inside member named
      exact ⟨⟨⟨⟨rfl, covered, untouched⟩, status⟩, rfl⟩, rfl⟩
  have claimed : ∀ marker etag, exec config.toDeployment world worker
      (.update (.reclaimCompletion row access marker etag)) =
        (1, world.apply (.reclaimCompletion row access marker etag)) := fun marker etag =>
    Prod.ext ((names marker etag).affected member) rfl
  have sameVersion : ¬(row.etag.isSome = true ∧ (object.head config.driver).etag.isSome = true ∧
      row.etag ≠ (object.head config.driver).etag) := by
    rintro ⟨given, -, differs⟩
    rcases version with none | same
    · rw [none] at given
      cases given
    · exact differs same
  have free : ¬ (row.uploadPendingAt.any fun previous =>
      decide (previous > world.clock (.process worker.process))) = true := by
    rw [leased]
    intro held
    obtain ⟨marker, given, later⟩ := (Option.any_eq_true _ _).mp held
    have passed := ended marker given
    have later := of_decide_eq_true later
    omega
  unfold completeManagedUpload
  simp only [status, staged, until_]
  rw [effect_now, if_neg (by rintro ⟨⟨⟩, -⟩), effect_tryAsk_bind]
  simp only [exec, stored, Option.map_some, matching, if_true]
  unfold claimCompletionLease reclaimCompletion
  rw [if_neg (by simp [status]), if_neg sameVersion, if_neg free]
  rw [effect_bind, effect_ask_bind, claimed, if_pos rfl, effect_pure, andThen_ok]
  obtain ⟨file, world', ran, id, ready, -⟩ :=
    effect_completeUnderLease (((names _ _).replaced member).mem member) covered untouched status rfl
      stored final apart matching
  exact ⟨file, world', ran, id, ready⟩

/-- The verification reads what no completion changes. -/
theorem metadataMatches_same {current : Row} (same : Statement.SameFile row current)
    (checksum : current.checksum = row.checksum) (metadata? : Option ObjectMetadata) :
    metadataMatches config current metadata? = metadataMatches config row metadata? := by
  unfold metadataMatches
  rw [same.sizeBytes, same.contentType, same.id, checksum]

/-- An upload that a completion may claim: its object was stored and meets what was declared. -/
structure Completable (config : Config) (row : Row) (staging : StorageKey) (object : StoredObject)
    (world : World) : Prop where
  member : row ∈ world.table
  incomplete : row.status ≠ .ready
  expires : ∃ expiredAt, row.uploadExpiredAt = some expiredAt
  matching : metadataMatches config row (some (object.head config.driver)) = true
  interrupted : Interrupted config.driver staging object row world

/-- A completion of `row` was cut off after the row was claimed and left `world'`, with the row as
`current`.  In `later` its lease is over and nobody touched the upload meanwhile. -/
structure FailedCompletion (config : Config) (caller : Caller) (worker retrier : Worker) (access : Access)
    (row current : Row) (staging : StorageKey) (object : StoredObject) (world world' later : World) :
    Prop where
  completable : Completable config row staging object world
  cut : CutOff config.toDeployment worker (completeManagedUpload config row access).run world world'
  left : current ∈ world'.table ∧ current.id = row.id
  claimed : current.status ≠ .pending
  kept : current ∈ later.table
  objects : later.objects staging = world'.objects staging ∧ later.objects row.key = world'.objects row.key
  ended : ∀ marker, current.uploadPendingAt = some marker → marker ≤ later.clock (.process retrier.process)
  granted : ∃ scope decision, caller.scope = some scope ∧
    caller.policy .complete [row.id] [] = some decision ∧ (Access.mk decision scope).covers current = true

/-- `completeUpload` of an id returns the ready result when nothing throws. -/
def Recovers (config : Config) (caller : Caller) (worker : Worker) (id : Uuid) (world : World) : Prop :=
  ∃ file, (effect config.toDeployment worker (completeUpload config caller (some id)) world).1 = .ok file ∧
    file.id = id ∧ file.status = .ready

theorem effect_completeUpload {caller : Caller} {scope : Scope} {decision : Decision}
    (own : caller.scope = some scope) (granted : caller.policy .complete [row.id] [] = some decision)
    (member : row ∈ world.table) (covered : (Access.mk decision scope).covers row = true)
    (untouched : row.deletedAt = none ∧ row.deletionPendingAt = none) :
    effect config.toDeployment worker (completeUpload config caller (some row.id)) world =
      effect config.toDeployment worker (completeManagedUpload config row ⟨decision, scope⟩) world := by
  unfold completeUpload
  rw [effect_bind, effect_findLifecycle own granted member covered untouched]
  rfl

/-- A row that is ready: the result is shown unless the file has outlived its time. -/
theorem effect_ready_iff (ready : row.status = .ready) :
    (∃ file, (effect config.toDeployment worker (completeManagedUpload config row access) world).1 =
          .ok file ∧ file.id = row.id ∧ file.status = .ready) ↔
      assertReadyAndUnexpired row (world.clock (.process worker.process)) = .ok () := by
  unfold completeManagedUpload
  rw [ready]
  constructor
  · rintro ⟨file, ran, -⟩
    cases shown : assertReadyAndUnexpired row (world.clock (.process worker.process)) with
    | ok => rfl
    | error refusal =>
        simp only [toUploadedFileResult, resolveRowUrl] at ran
        rw [effect_bind, effect_now, effect_check_bind, shown] at ran
        cases ran
  · intro unexpired
    obtain ⟨file, world', ran, id, shown, -⟩ :=
      @effect_unexpired config worker world row unexpired
    exact ⟨file, congrArg Prod.fst ran, id, shown⟩

/-- A completion whose staged object is gone fails the verification. -/
theorem effect_unstaged {expiredAt : Int} (status : row.status = .completing)
    (staged : row.pendingKey = some staging) (until_ : row.uploadExpiredAt = some expiredAt)
    (gone : world.objects staging = none) :
    effect config.toDeployment worker (completeManagedUpload config row access) world =
      (.error (verificationFailed "Uploaded object failed verification"), world) := by
  unfold completeManagedUpload
  simp only [status, staged, until_]
  rw [effect_now, if_neg (by rintro ⟨⟨⟩, -⟩), effect_tryAsk_bind]
  simp only [exec, gone, Option.map_none]
  rfl

/-- **A failed completion is recoverable** exactly when the row is ready already and may be shown, or
its staging object is still stored.  With S3 the staging object always is. -/
theorem failed_completion_recovers_iff {caller : Caller} {retrier : Worker} {current : Row} {later : World}
    (failed : FailedCompletion config caller worker retrier access row current staging object world world'
      later) :
    (Recovers config caller retrier row.id later ↔
      assertReadyAndUnexpired current (later.clock (.process retrier.process)) = .ok () ∨
        current.status = .completing ∧ (later.objects staging).isSome = true) ∧
      (config.driver = .s3 → (later.objects staging).isSome = true) := by
  obtain ⟨completable, cut, ⟨left, named⟩, claimed, kept, ⟨sameStaging, sameFinal⟩, ended, granted⟩ := failed
  obtain ⟨scope, decision, own, allowed, covered⟩ := granted
  have interrupted := interrupted_cutOff completable.member completable.incomplete
    completable.interrupted cut
  have underway := interrupted.current current left named
  obtain ⟨expiredAt, expires⟩ := completable.expires
  have expires : current.uploadExpiredAt = some expiredAt := underway.same.uploadExpiredAt.trans expires
  have steps := @effect_completeUpload config retrier later current caller scope decision own
    (named ▸ allowed) kept covered underway.untouched
  refine ⟨?_, ?_⟩
  · unfold Recovers
    rw [← named, steps]
    rcases underway.status with pending | completing | ready
    · exact absurd pending claimed
    · have hidden : assertReadyAndUnexpired current (later.clock (.process retrier.process)) ≠ .ok () := by
        rw [assertReadyAndUnexpired, if_pos (by rw [completing]; decide)]
        intro shown
        cases shown
      have checksum := underway.checksum.resolve_left (by rw [completing]; decide)
      have staged := underway.pendingKey.resolve_left (by rw [completing]; decide)
      have version := underway.etag.resolve_left (by rw [completing]; decide)
      have key : current.key = row.key := underway.same.key
      cases there : later.objects staging with
      | none =>
          rw [effect_unstaged completing staged expires there]
          refine ⟨?_, ?_⟩
          · rintro ⟨_, ran, -⟩
            cases ran
          · rintro (shown | ⟨-, stored⟩)
            · exact absurd shown hidden
            · cases stored
      | some stored =>
          have same : stored = object := by
            rcases interrupted.staged with before | ⟨-, gone⟩
            · exact Option.some.inj (there.symm.trans (sameStaging.trans before))
            · rw [sameStaging.trans gone] at there
              cases there
          subst same
          obtain ⟨file, world'', ran, id, ready⟩ :=
            @effect_reclaimed config retrier later current ⟨decision, scope⟩ staging stored _ expiredAt kept
              covered underway.untouched completing staged expires version rfl ended there
              (by rw [key, sameFinal]; exact interrupted.promoted) (key ▸ interrupted.apart)
              (by rw [metadataMatches_same underway.same checksum]; exact completable.matching)
          exact ⟨fun _ => .inr ⟨completing, rfl⟩, fun _ => ⟨file, congrArg Prod.fst ran, id, ready⟩⟩
    · rw [effect_ready_iff ready]
      refine ⟨.inl, ?_⟩
      rintro (shown | ⟨completing, -⟩)
      · exact shown
      · rw [ready] at completing
        cases completing
  · intro s3
    rcases interrupted.staged with there | ⟨disk, -⟩
    · rw [sameStaging, there]
      rfl
    · rw [s3] at disk
      cases disk

end

/-! ## Two bytes on a local disk -/

def smallGrant : Access := ⟨.owner, ⟨"t", none, 7⟩⟩

def smallRow : Row :=
  managedRow (smallConfig .localDisk) smallGrant ⟨"a.txt", "text/plain", 2⟩ .privateFile .attachment {}
    none false 0 0

def smallStaging : StorageKey := ⟨.pending, "t", 0, "a.txt"⟩

def smallObject : StoredObject := { body := [1, 2] }

def smallWorld : World :=
  { World.initial 0 with
    table := (Keyed.empty : Table).save smallRow
    objects := Objects.put (fun _ => none) smallStaging smallObject }

/-- These calls throw and do nothing. -/
def throwing (refused : Call → Bool) : Faults := fun _ call =>
  if sure call = false ∧ refused call = true then some [] else none

theorem throwing_possible (refused : Call → Bool) : (throwing refused).Possible := by
  intro log call landed thrown
  unfold throwing at thrown
  split at thrown
  · rename_i both
    cases thrown
    exact ⟨both.1, List.nil_sublist _⟩
  · cases thrown

/-- What the completion of the two bytes leaves behind. -/
def cutWorld (refused : Call → Bool) : World :=
  (runAlone (smallConfig .localDisk).toDeployment ⟨0, 0⟩ (throwing refused)
    (completeManagedUpload (smallConfig .localDisk) smallRow smallGrant) ⟨smallWorld, []⟩).2.world

/-- The row when its completion has failed and can be tried again. -/
def retryableRow : Row := { smallRow with status := .completing, uploadPendingAt := some (-1) }

theorem smallRow_completable :
    Completable (smallConfig .localDisk) smallRow smallStaging smallObject smallWorld where
  member := Keyed.mem_save.mpr (.inl rfl)
  incomplete := nofun
  expires := ⟨3600000, rfl⟩
  matching := rfl
  interrupted :=
    { current := by
        intro current member named
        rcases Keyed.mem_save.mp member with rfl | ⟨other, -⟩
        · exact ⟨.refl _, .inr rfl, ⟨rfl, rfl⟩, .inl rfl, .inr rfl, .inr (.inl rfl)⟩
        · cases other
      staged := .inl rfl
      promoted := .inl rfl
      apart := nofun }

theorem smallRow_failed {refused : Call → Bool} (left : (cutWorld refused).table.rows = [retryableRow]) :
    FailedCompletion (smallConfig .localDisk) smallCaller ⟨0, 0⟩ ⟨0, 0⟩ smallGrant smallRow retryableRow
      smallStaging smallObject smallWorld (cutWorld refused)
      { cutWorld refused with clock := fun _ => 0 } := by
  have member : retryableRow ∈ (cutWorld refused).table := by
    change retryableRow ∈ (cutWorld refused).table.rows
    rw [left]
    exact List.mem_singleton_self _
  exact
    { completable := smallRow_completable
      cut := cutOff_run (throwing_possible refused) _ ⟨smallWorld, []⟩
      left := ⟨member, rfl⟩
      claimed := nofun
      kept := member
      objects := ⟨rfl, rfl⟩
      ended := by
        rintro marker ⟨⟩
        exact (by decide : (-1 : Int) ≤ 0)
      granted := ⟨⟨"t", none, 7⟩, .owner, rfl, rfl, rfl⟩ }

/-- The link of the final object throws. -/
def isLink : Call → Bool
  | .link .. => true
  | _ => false

/-- The update that makes the row ready throws. -/
def isFinalize : Call → Bool
  | .update (.finalizeCompletion ..) => true
  | _ => false

/-- The completion whose link failed is completed by the next. -/
theorem failed_link_recovers : Recovers (smallConfig .localDisk) smallCaller ⟨0, 0⟩ smallRow.id
    { cutWorld isLink with clock := fun _ => 0 } :=
  (failed_completion_recovers_iff (@smallRow_failed isLink rfl)).1.mpr (.inr ⟨rfl, rfl⟩)

/-- The completion whose last update failed has removed its staging object: the next one fails. -/
theorem failed_finalize_lost :
    FailedCompletion (smallConfig .localDisk) smallCaller ⟨0, 0⟩ ⟨0, 0⟩ smallGrant smallRow retryableRow
        smallStaging smallObject smallWorld (cutWorld isFinalize)
        { cutWorld isFinalize with clock := fun _ => 0 } ∧
      ¬ Recovers (smallConfig .localDisk) smallCaller ⟨0, 0⟩ smallRow.id
        { cutWorld isFinalize with clock := fun _ => 0 } := by
  refine ⟨smallRow_failed rfl, ?_⟩
  rintro ⟨file, ran, -⟩
  cases ran

end SdcoreNest.UploadedFile
