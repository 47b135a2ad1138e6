/-
# UploadedFile.Lifecycle -- what one statement can do to one row

`Row.Sound` is the shape every stored row has, `Row.Later` says what never goes
back in the life of a row: its identity, a begun deletion, its status along the
upload status machine, the completion stamps, the staging key.

`Statement.Fits` is what a statement relies on besides its WHERE clause; the two
lemmas that the rest of the development cites are `Statement.sound_patch` and
`Statement.later_patch`: a fitting statement keeps a sound row sound and only moves
it forward.
-/
import SdcoreNest.UploadedFile.Statements

namespace SdcoreNest.UploadedFile

open SdcoreNest.Theory

set_option autoImplicit false

/-- The moves of the upload status machine, reflexive and transitive. -/
def Status.leads : Status → Status → Bool
  | .pending, _ => true
  | .completing, next => decide (next ≠ .pending)
  | .ready, next => decide (next = .ready)
  | .failed, next => decide (next = .failed)

@[simp] theorem Status.leads_refl (status : Status) : status.leads status = true := by
  cases status <;> rfl

theorem Status.leads_failed {status : Status} (unfinished : status ≠ .ready) :
    status.leads .failed = true := by
  cases status <;> simp_all [Status.leads]

theorem Status.leads_trans {first second third : Status} (h : first.leads second = true)
    (h' : second.leads third = true) : first.leads third = true := by
  cases first <;> cases second <;> cases third <;> simp_all [Status.leads]

namespace Row

/-- The shape of a stored row.  A row without `uploadExpiredAt` was written by the
server itself: permanently (born ready) or as a temporary file (born pending). -/
structure Sound (row : Row) : Prop where
  keyId : row.key.id = row.id
  keySpace : row.key.space ≠ .pending
  staging : ∀ key, row.pendingKey = some key →
    key = { row.key with space := .pending } ∧ row.uploadExpiredAt ≠ none
  stagingKept : row.uploadExpiredAt ≠ none → row.status ≠ .ready → row.pendingKey ≠ none
  permanent : row.uploadExpiredAt = none → row.isTemporary = false →
    row.status = .ready ∧ row.completedAt = none ∧ row.expiredAt = none
  temporary : row.uploadExpiredAt = none → row.isTemporary = true →
    row.status ≠ .completing ∧ (row.uploadPendingAt ≠ none → row.status = .pending)
  managed : row.uploadExpiredAt ≠ none → row.uploadPendingAt ≠ none →
    row.status = .pending ∨ row.status = .completing
  unfinished : row.status ≠ .ready → row.completedAt = none ∧ row.expiredAt = none
  waiting : row.status ≠ .ready → row.touched = true ∨ row.uploadPendingAt ≠ none
  failed : row.status = .failed → row.touched = true
  hidden : row.isTemporary = true → row.visibility = .privateFile
  lifetime : row.status = .ready → row.isTemporary = true →
    ∃ completedAt, row.completedAt = some completedAt ∧
      row.expiredAt = some (completedAt + temporaryFileLifetimeMs)
  lasting : row.isTemporary = false → row.expiredAt = none

theorem Sound.stagingId {row : Row} (sound : row.Sound) {key : StorageKey}
    (staging : row.pendingKey = some key) : key.id = row.id := by
  rw [(sound.staging key staging).1]
  exact sound.keyId

/-- What never goes back between two versions of a row. -/
structure Later (row row' : Row) : Prop where
  sameFile : Statement.SameFile row row'
  isTemporary : row'.isTemporary = row.isTemporary
  touched : row.touched = true → row'.touched = true
  status : row.status.leads row'.status = true
  stamps : row.status = .ready →
    row'.completedAt = row.completedAt ∧ row'.expiredAt = row.expiredAt
  staging : row'.pendingKey = row.pendingKey ∨ row'.pendingKey = none
  settled : row.touched = true → row.uploadPendingAt = none → row'.uploadPendingAt = none

theorem Later.refl (row : Row) : row.Later row where
  sameFile := .refl row
  isTemporary := rfl
  touched touched := touched
  status := Status.leads_refl _
  stamps _ := ⟨rfl, rfl⟩
  staging := .inl rfl
  settled _ none := none

theorem Later.trans {row row' row'' : Row} (first : row.Later row') (second : row'.Later row'') :
    row.Later row'' where
  sameFile := first.sameFile.trans second.sameFile
  isTemporary := second.isTemporary.trans first.isTemporary
  touched := second.touched ∘ first.touched
  status := Status.leads_trans first.status second.status
  stamps ready := by
    have ready' : row'.status = .ready := by
      have leads := first.status
      rw [ready] at leads
      simpa [Status.leads] using leads
    obtain ⟨completedAt, expiredAt⟩ := first.stamps ready
    obtain ⟨completedAt', expiredAt'⟩ := second.stamps ready'
    exact ⟨completedAt'.trans completedAt, expiredAt'.trans expiredAt⟩
  staging := by
    rcases second.staging with kept | dropped
    · rw [kept]
      exact first.staging
    · exact .inr dropped
  settled touched none := second.settled (first.touched touched) (first.settled touched none)

/-- Once ready, always ready. -/
theorem Later.ready {row row' : Row} (later : row.Later row') (ready : row.status = .ready) :
    row'.status = .ready := by
  have leads := later.status
  rw [ready] at leads
  simpa [Status.leads] using leads

end Row

namespace Statement

/-- What a statement relies on besides its WHERE clause. -/
def Fits : Statement → Row → Prop
  | .activatePendingUpload _ _ _, row => row.uploadExpiredAt = none ∧ row.isTemporary = false
  | .activateTemporaryPendingUpload _ _ _ _, row =>
      row.uploadExpiredAt = none ∧ row.isTemporary = true
  | .claimCompletion _ _ _ _, row => row.uploadExpiredAt ≠ none
  | .finalizeCompletion snapshot _ _ _ _ _ _, row => snapshot.isTemporary = row.isTemporary
  | .claimAbort _ _ _, row
  | .claimExpiredDirectUpload _ _, row => row.status ≠ .ready ∧ row.status ≠ .failed
  | _, _ => True

variable (clock : Moment) {statement : Statement} {row : Row}

/-! ## One statement, one row -/

/-- A begun deletion stays begun: the statements that reset `deletedAt` set a claim,
the one that drops a claim finds the row deleted. -/
theorem touched_patch (chosen : statement.chosen row = true) (touched : row.touched = true) :
    (statement.patch clock row).touched = true := by
  rw [Row.touched_eq_true] at touched ⊢
  cases statement <;>
    simp_all [Statement.chosen, patch, Row.visible_eq_true, Access.active_eq_true,
      Access.lifecycleWhere_eq_true, Access.pendingUploadWhere_eq_true,
      pendingDeletionWhere_eq_true, unusedBefore_eq_true, Option.isSome_iff_ne_none]

/-- Only the completion lease moves `uploadPendingAt` to a new value, and only on a
row whose deletion has not begun. -/
theorem settled_patch (chosen : statement.chosen row = true) (touched : row.touched = true)
    (none : row.uploadPendingAt = none) :
    (statement.patch clock row).uploadPendingAt = .none := by
  rw [Row.touched_eq_true] at touched
  cases statement <;> try exact none
  all_goals try rfl
  all_goals simp_all [Statement.chosen, Access.lifecycleWhere_eq_true]

theorem status_patch (sound : row.Sound) (chosen : statement.chosen row = true)
    (fits : statement.Fits row) :
    row.status.leads (statement.patch clock row).status = true := by
  cases statement with
  | activateTemporaryPendingUpload saved access marker completedAt =>
      have pending : row.status = .pending := by
        refine (sound.temporary fits.1 fits.2).2 ?_
        simp [(Access.pendingUploadWhere_eq_true.mp chosen).2.2.2.1]
      simp [pending, patch, Status.leads]
  | claimCompletion snapshot access marker etag =>
      simp only [Statement.chosen, Bool.and_eq_true, decide_eq_true_eq] at chosen
      simp [chosen.1.2, patch, Status.leads]
  | finalizeCompletion snapshot access marker completedAt etag checksum drop =>
      simp only [Statement.chosen, Bool.and_eq_true, decide_eq_true_eq] at chosen
      simp [chosen.1.2, patch, Status.leads]
  | claimAbort snapshot access claim => exact Status.leads_failed fits.1
  | claimExpiredDirectUpload snapshot claim => exact Status.leads_failed fits.1
  | claimById current access claim =>
      simp only [Statement.chosen, Bool.and_eq_true, decide_eq_true_eq] at chosen
      simp only [patch, chosen.1.2]
      cases current.status <;> rfl
  | _ => exact Status.leads_refl _

theorem stamps_patch (sound : row.Sound) (chosen : statement.chosen row = true)
    (fits : statement.Fits row) (ready : row.status = .ready) :
    (statement.patch clock row).completedAt = row.completedAt ∧
      (statement.patch clock row).expiredAt = row.expiredAt := by
  cases statement with
  | activateTemporaryPendingUpload saved access marker completedAt =>
      have marked := (Access.pendingUploadWhere_eq_true.mp chosen).2.2.2.1
      have pending := (sound.temporary fits.1 fits.2).2 (by simp [marked])
      simp [ready] at pending
  | finalizeCompletion snapshot access marker completedAt etag checksum drop =>
      simp [Statement.chosen, ready] at chosen
  | _ => exact ⟨rfl, rfl⟩

theorem staging_patch (statement : Statement) (row : Row) :
    (statement.patch clock row).pendingKey = row.pendingKey ∨
      (statement.patch clock row).pendingKey = none := by
  cases statement with
  | finalizeCompletion snapshot access marker completedAt etag checksum drop =>
      cases drop with
      | true => exact .inr rfl
      | false => exact .inl rfl
  | clearPendingKey snapshot => exact .inr rfl
  | _ => exact .inl rfl

theorem isTemporary_patch (fits : statement.Fits row) :
    (statement.patch clock row).isTemporary = row.isTemporary := by
  cases statement with
  | activateTemporaryPendingUpload saved access marker completedAt => exact fits.2.symm
  | _ => rfl

/-- A fitting statement only moves a row forward. -/
theorem later_patch (sound : row.Sound) (chosen : statement.chosen row = true)
    (fits : statement.Fits row) : row.Later (statement.patch clock row) where
  sameFile := patch_sameFile clock statement row
  isTemporary := isTemporary_patch clock fits
  touched := touched_patch clock chosen
  status := status_patch clock sound chosen fits
  stamps := stamps_patch clock sound chosen fits
  staging := staging_patch clock statement row
  settled := settled_patch clock chosen

/-- The rules that tie the status to the kind of the row. -/
theorem status_rules_patch (sound : row.Sound) (chosen : statement.chosen row = true)
    (fits : statement.Fits row) :
    let row' := statement.patch clock row
    (row'.uploadExpiredAt ≠ none → row'.status ≠ .ready → row'.pendingKey ≠ none) ∧
    (row'.uploadExpiredAt = none → row'.isTemporary = false →
      row'.status = .ready ∧ row'.completedAt = none ∧ row'.expiredAt = none) ∧
    (row'.uploadExpiredAt = none → row'.isTemporary = true →
      row'.status ≠ .completing ∧ (row'.uploadPendingAt ≠ none → row'.status = .pending)) ∧
    (row'.uploadExpiredAt ≠ none → row'.uploadPendingAt ≠ none →
      row'.status = .pending ∨ row'.status = .completing) := by
  refine ⟨?_, ?_, ?_, ?_⟩
  · have stagingKept := sound.stagingKept
    clear sound
    cases statement <;> simp_all [Statement.chosen, patch, Fits]
  · have permanent := sound.permanent
    clear sound
    cases statement <;> simp_all [Statement.chosen, patch, Fits]
  · have temporary := sound.temporary
    clear sound
    cases statement with
    | claimById current access claim =>
        intro _ _
        refine ⟨?_, fun marked => absurd rfl marked⟩
        simp only [patch]
        split <;> simp
    | _ => simp_all [Statement.chosen, patch, Fits]
  · have managed := sound.managed
    clear sound
    cases statement <;> simp_all [Statement.chosen, patch, Fits]

/-- The rules that tie the status to the markers and the stamps. -/
theorem marker_rules_patch (sound : row.Sound) (chosen : statement.chosen row = true)
    (fits : statement.Fits row) :
    let row' := statement.patch clock row
    (row'.status ≠ .ready → row'.completedAt = none ∧ row'.expiredAt = none) ∧
    (row'.status ≠ .ready → row'.touched = true ∨ row'.uploadPendingAt ≠ none) ∧
    (row'.status = .failed → row'.touched = true) ∧
    (row'.status = .ready → row'.isTemporary = true →
      ∃ completedAt, row'.completedAt = some completedAt ∧
        row'.expiredAt = some (completedAt + temporaryFileLifetimeMs)) ∧
    (row'.isTemporary = false → row'.expiredAt = none) := by
  simp only [Row.touched_eq_true]
  refine ⟨?_, ?_, ?_, ?_, ?_⟩
  · have unfinished := sound.unfinished
    clear sound
    cases statement <;> simp_all [Statement.chosen, patch, Fits]
  · have waiting := sound.waiting
    have permanent := sound.permanent
    clear sound
    rw [Row.touched_eq_true] at waiting
    cases statement <;>
      simp_all [Statement.chosen, patch, Fits, pendingDeletionWhere_eq_true,
        Option.isSome_iff_ne_none]
  · have failed := sound.failed
    clear sound
    rw [Row.touched_eq_true] at failed
    cases statement <;>
      simp_all [Statement.chosen, patch, Fits, pendingDeletionWhere_eq_true,
        Option.isSome_iff_ne_none]
  · have lifetime := sound.lifetime
    clear sound
    cases statement <;> simp_all [Statement.chosen, patch, Fits]
  · have lasting := sound.lasting
    clear sound
    cases statement <;> simp_all [Statement.chosen, patch, Fits]

/-- A fitting statement keeps a sound row sound. -/
theorem sound_patch (sound : row.Sound) (chosen : statement.chosen row = true)
    (fits : statement.Fits row) : (statement.patch clock row).Sound := by
  have same := patch_sameFile clock statement row
  obtain ⟨stagingKept, permanent, temporary, managed⟩ := status_rules_patch clock sound chosen fits
  obtain ⟨unfinished, waiting, failed, lifetime, lasting⟩ :=
    marker_rules_patch clock sound chosen fits
  refine ⟨?_, ?_, ?_, stagingKept, permanent, temporary, managed, unfinished, waiting, failed,
    ?_, lifetime, lasting⟩
  · rw [same.key, same.id]
    exact sound.keyId
  · rw [same.key]
    exact sound.keySpace
  · intro key present
    rw [same.key, same.uploadExpiredAt]
    rcases staging_patch clock statement row with kept | dropped
    · exact sound.staging key (kept ▸ present)
    · rw [dropped] at present
      cases present
  · rw [same.visibility, isTemporary_patch clock fits]
    exact sound.hidden

end Statement

end SdcoreNest.UploadedFile
