/-
# UploadedFile.SignedUrls -- how long the URL of a file is valid

`resolveRowUrl` reads the clock once and signs for whole seconds.  With an accepted
configuration (`UploadedFile.Settings`) the signature is never longer than the configured
limits, and for a temporary file it ends no later than the file does.
-/
import SdcoreNest.UploadedFile.Settings
import SdcoreNest.UploadedFile.System

namespace SdcoreNest.UploadedFile

open SdcoreNest.Theory
open SdcoreNest.Theory.Program
open SdcoreNest.Theory.JsString (js)

set_option autoImplicit false

variable {config : Config} {row : Row} {now : Int} {past : List (Step sig)}
  {outcome : Except ServiceError ResolvedUrl}

/-- The longest signature of a configuration, in seconds. -/
def Config.signatureLimit (config : Config) : Nat :=
  min (min config.privateDownloadUrlTtlSeconds config.maxPrivateDownloadUrlTtlSeconds) 3600

/-- What a file that expired is answered with. -/
def fileExpired : ServiceError := .gone "core.file.expired" "Temporary file has expired"

/-- What one resolution at `now` asked of the storage and what it reported. -/
structure UrlWithinLimits (config : Config) (row : Row) (now : Int) (past : List (Step sig))
    (outcome : Except ServiceError ResolvedUrl) : Prop where
  /-- A URL is signed for a private S3 object only, within the limits, and its end is reported. -/
  signed : ∀ {key seconds contentType disposition url reply},
    ⟨.createDownloadUrl key seconds contentType disposition url, reply⟩ ∈ past →
      config.driver = .s3 ∧ row.visibility = .privateFile ∧
        1 ≤ seconds ∧ seconds ≤ config.signatureLimit ∧
        ∀ resolved, outcome = .ok resolved → resolved.urlExpiredAt = some (now + seconds * 1000)
  /-- No reported end is after the end of a temporary file. -/
  withinFile : ∀ {resolved expiredAt urlExpiredAt}, row.isTemporary = true →
    row.expiredAt = some expiredAt → outcome = .ok resolved →
      resolved.urlExpiredAt = some urlExpiredAt → urlExpiredAt ≤ expiredAt
  /-- Before its end a temporary file has a URL, if the storage answers. -/
  given : ∀ {expiredAt}, row.isTemporary = true → row.expiredAt = some expiredAt →
    now < expiredAt → (∀ step ∈ past, step.reply.isSome) →
      ∃ resolved url, outcome = .ok resolved ∧ resolved.url = some url
  /-- From its end on it has none. -/
  refused : ∀ {expiredAt}, row.isTemporary = true → row.expiredAt = some expiredAt →
    expiredAt ≤ now → outcome = .error fileExpired
  /-- A public or local file is not signed for. -/
  stable : row.visibility = .publicFile ∨ config.driver = .localDisk →
    past = [] ∧ ∀ resolved, outcome = .ok resolved → resolved.urlExpiredAt = none

/-! ## The seconds of a signature -/

theorem signedSeconds_le {seconds : Nat} (signed : signedSeconds config row now = some seconds) :
    seconds ≤ config.signatureLimit := by
  unfold signedSeconds at signed
  simp only at signed
  split at signed
  · split at signed
    · cases signed
    · obtain rfl := Option.some.inj signed
      exact Nat.min_le_left _ _
  · obtain rfl := Option.some.inj signed
    exact Nat.le_refl _

theorem signedSeconds_pos (positive : 0 < config.signatureLimit) {seconds : Nat}
    (signed : signedSeconds config row now = some seconds) : 1 ≤ seconds := by
  unfold signedSeconds at signed
  simp only at signed
  split at signed
  · split at signed
    · cases signed
    · next whole =>
      obtain rfl := Option.some.inj signed
      exact Nat.le_min.mpr ⟨positive, by omega⟩
  · obtain rfl := Option.some.inj signed
    exact positive

/-- Whole seconds from now on end before the file does. -/
theorem signedSeconds_within {expiredAt : Int} (temporary : row.isTemporary = true)
    (expires : row.expiredAt = some expiredAt) {seconds : Nat}
    (signed : signedSeconds config row now = some seconds) :
    now + seconds * 1000 ≤ expiredAt := by
  unfold signedSeconds at signed
  rw [temporary, expires] at signed
  simp only at signed
  split at signed
  · cases signed
  · obtain rfl := Option.some.inj signed
    have shorter : min (min (min config.privateDownloadUrlTtlSeconds
        config.maxPrivateDownloadUrlTtlSeconds) 3600) ((expiredAt - now) / 1000).toNat ≤
        ((expiredAt - now) / 1000).toNat := Nat.min_le_right _ _
    omega

/-! ## One resolution -/

/-- `resolveRowUrl` once the clock has answered. -/
def urlAt (config : Config) (row : Row) (now : Int) : Service ResolvedUrl := do
  check (assertReadyAndUnexpired row now)
  if row.visibility = .publicFile then pure ⟨some (config.publicUrl row.key), none⟩
  else if config.driver = .localDisk then
    pure ⟨some (config.privateDownloadUrl row.id), none⟩
  else
    match signedSeconds config row now with
    | none => pure ⟨some (config.privateDownloadUrl row.id), row.expiredAt⟩
    | some seconds => do
        let reply ← tryAsk (.createDownloadUrl row.key seconds
          (resolvedContentType config row)
          (config.contentDisposition row.fileName row.disposition)
          (config.privateDownloadUrl row.id))
        match reply with
        | none => throw .notFound
        | some url => pure ⟨some url, some (now + seconds * 1000)⟩

theorem ends_urlAt (ends : Ends (resolveRowUrl config row).run (past ++ [⟨.now, some now⟩]) outcome) :
    Ends (urlAt config row now).run past outcome := by
  obtain ⟨reply, newer, same, continued⟩ := ends_ask.mp ends
  obtain ⟨rfl, last⟩ := List.append_inj' same rfl
  cases last
  exact continued

/-- A temporary file has not reached its end. -/
def Row.Unexpired (row : Row) (now : Int) : Prop :=
  row.isTemporary = true → ∀ expiredAt, row.expiredAt = some expiredAt → now < expiredAt

/-- The ways a resolution of a ready row ends, with the calls it made. -/
inductive Resolution (config : Config) (row : Row) (now : Int) :
    List (Step sig) → Except ServiceError ResolvedUrl → Prop where
  | expired {expiredAt : Int} (temporary : row.isTemporary = true)
      (expires : row.expiredAt = some expiredAt) (due : expiredAt ≤ now) :
      Resolution config row now [] (.error fileExpired)
  | stable (unexpired : row.Unexpired now)
      (exposed : row.visibility = .publicFile ∨ config.driver = .localDisk) (url : String) :
      Resolution config row now [] (.ok ⟨some url, none⟩)
  | lastSecond (unexpired : row.Unexpired now) (visible : row.visibility = .privateFile)
      (driver : config.driver = .s3) (url : String) :
      Resolution config row now [] (.ok ⟨some url, row.expiredAt⟩)
  | unsigned {seconds : Nat} {contentType disposition url : String}
      (unexpired : row.Unexpired now) (visible : row.visibility = .privateFile)
      (driver : config.driver = .s3) (signed : signedSeconds config row now = some seconds) :
      Resolution config row now
        [⟨.createDownloadUrl row.key seconds contentType disposition url, none⟩] (.error .notFound)
  | signed {seconds : Nat} {contentType disposition url signature : String}
      (unexpired : row.Unexpired now) (visible : row.visibility = .privateFile)
      (driver : config.driver = .s3) (signed : signedSeconds config row now = some seconds) :
      Resolution config row now
        [⟨.createDownloadUrl row.key seconds contentType disposition url, some signature⟩]
        (.ok ⟨some signature, some (now + seconds * 1000)⟩)

theorem assertReadyAndUnexpired_cases (ready : row.status = .ready) :
    (assertReadyAndUnexpired row now = .error fileExpired ∧ row.isTemporary = true ∧
        ∃ expiredAt, row.expiredAt = some expiredAt ∧ expiredAt ≤ now) ∨
      assertReadyAndUnexpired row now = .ok () ∧ row.Unexpired now := by
  unfold assertReadyAndUnexpired
  rw [if_neg (by simp [ready])]
  by_cases due : row.isTemporary = true ∧ notAfter row.expiredAt now = true
  · rw [if_pos due]
    left
    refine ⟨rfl, due.1, ?_⟩
    cases expires : row.expiredAt with
    | none => simp [notAfter, expires] at due
    | some expiredAt => exact ⟨expiredAt, rfl, by simpa [notAfter, expires] using due.2⟩
  · rw [if_neg due]
    refine .inr ⟨rfl, fun temporary expiredAt expires => ?_⟩
    by_contra late
    exact due ⟨temporary, by simp [notAfter, expires]; omega⟩

theorem resolution_of_ends (ready : row.status = .ready)
    (ends : Ends (urlAt config row now).run past outcome) :
    Resolution config row now past outcome := by
  unfold urlAt at ends
  rcases @assertReadyAndUnexpired_cases row now ready with
    ⟨failed, temporary, expiredAt, expires, due⟩ | ⟨passed, unexpired⟩
  · rw [failed] at ends
    obtain ⟨rfl, rfl⟩ := ends_done.mp ends
    exact .expired temporary expires due
  · rw [passed] at ends
    replace ends := ends_run_bind.mp ends
    rcases ends with ⟨older, newer, value, rfl, checked, continued⟩ | ⟨error, -, checked⟩
    · obtain ⟨rfl, -⟩ := ends_done.mp checked
      rw [List.append_nil]
      split at continued
      next exposed =>
        obtain ⟨rfl, rfl⟩ := ends_done.mp continued
        exact .stable unexpired (.inl exposed) _
      next visible =>
        have visible : row.visibility = .privateFile := by
          cases shown : row.visibility with
          | publicFile => exact absurd shown visible
          | privateFile => rfl
        split at continued
        next disk =>
          obtain ⟨rfl, rfl⟩ := ends_done.mp continued
          exact .stable unexpired (.inr disk) _
        next remote =>
          have remote : config.driver = .s3 := by
            cases driver : config.driver with
            | s3 => rfl
            | localDisk => exact absurd driver remote
          split at continued
          next whole =>
            obtain ⟨rfl, rfl⟩ := ends_done.mp continued
            exact .lastSecond unexpired visible remote _
          next seconds signed =>
            obtain ⟨reply, newer', rfl, answered⟩ := ends_ask.mp continued
            cases reply with
            | none =>
                obtain ⟨rfl, rfl⟩ := ends_done.mp answered
                exact .unsigned unexpired visible remote signed
            | some signature =>
                obtain ⟨rfl, rfl⟩ := ends_done.mp answered
                exact .signed unexpired visible remote signed
    · cases (ends_done.mp checked).2

theorem Resolution.withinLimits (positive : 0 < config.signatureLimit)
    (resolution : Resolution config row now past outcome) :
    UrlWithinLimits config row now past outcome := by
  cases resolution with
  | expired temporary expires due =>
      exact
        { signed := fun asked => (List.not_mem_nil asked).elim
          withinFile := fun _ _ wrong => (nomatch wrong)
          given := fun _ expires' early _ => by
            rw [expires] at expires'
            cases expires'
            omega
          refused := fun _ _ _ => rfl
          stable := fun _ => ⟨rfl, fun _ wrong => (nomatch wrong)⟩ }
  | stable unexpired exposed url =>
      exact
        { signed := fun asked => (List.not_mem_nil asked).elim
          withinFile := fun _ _ same expires => by
            cases same
            cases expires
          given := fun _ _ _ _ => ⟨_, url, rfl, rfl⟩
          refused := fun temporary expires late =>
            absurd (unexpired temporary _ expires) (by omega)
          stable := fun _ => ⟨rfl, fun _ same => by cases same; rfl⟩ }
  | lastSecond unexpired visible driver url =>
      exact
        { signed := fun asked => (List.not_mem_nil asked).elim
          withinFile := fun _ expires same reported => by
            cases same
            rw [expires] at reported
            exact (Option.some.inj reported).ge
          given := fun _ _ _ _ => ⟨_, url, rfl, rfl⟩
          refused := fun temporary expires late =>
            absurd (unexpired temporary _ expires) (by omega)
          stable := fun exposed => by simp [visible, driver] at exposed }
  | unsigned unexpired visible driver signed =>
      exact
        { signed := fun asked => by
            cases List.mem_singleton.mp asked
            exact ⟨driver, visible, signedSeconds_pos positive signed, signedSeconds_le signed,
              fun _ wrong => (nomatch wrong)⟩
          withinFile := fun _ _ wrong => (nomatch wrong)
          given := fun _ _ _ answered => by simp at answered
          refused := fun temporary expires late =>
            absurd (unexpired temporary _ expires) (by omega)
          stable := fun exposed => by simp [visible, driver] at exposed }
  | signed unexpired visible driver signed =>
      exact
        { signed := fun asked => by
            cases List.mem_singleton.mp asked
            exact ⟨driver, visible, signedSeconds_pos positive signed, signedSeconds_le signed,
              fun _ same => by cases same; rfl⟩
          withinFile := fun temporary expires same reported => by
            cases same
            cases reported
            exact signedSeconds_within temporary expires signed
          given := fun _ _ _ _ => ⟨_, _, rfl, rfl⟩
          refused := fun temporary expires late =>
            absurd (unexpired temporary _ expires) (by omega)
          stable := fun exposed => by simp [visible, driver] at exposed }

/-- An accepted configuration signs for at least a second. -/
theorem signatureLimit_pos {platform : Platform} {raw : UploadedFileConfig}
    {normalized : NormalizedUploadedFileConfig}
    (accepted : normalizeUploadedFileConfig platform raw = .ok normalized)
    (configured : config.Configured normalized) : 0 < config.signatureLimit := by
  have sane := normalizeUploadedFileConfig_limits accepted
  have ttl := sane.privateDownload
  unfold Config.signatureLimit
  rw [configured.privateDownloadUrlTtlSeconds, configured.maxPrivateDownloadUrlTtlSeconds]
  simp only at ttl
  omega

/-- **No signed URL outlives its file or its limit.** -/
theorem url_within_limits {platform : Platform} {raw : UploadedFileConfig}
    {normalized : NormalizedUploadedFileConfig}
    (accepted : normalizeUploadedFileConfig platform raw = .ok normalized)
    (configured : config.Configured normalized) (ready : row.status = .ready)
    (ends : Ends (resolveRowUrl config row).run (past ++ [⟨.now, some now⟩]) outcome) :
    UrlWithinLimits config row now past outcome :=
  (resolution_of_ends ready (ends_urlAt ends)).withinLimits
    (signatureLimit_pos accepted configured)

/-- A consumer's settings for S3, with URLs of five minutes. -/
def smallSettings : UploadedFileConfig where
  driver := some (js "s3")
  bucket := some (js "b")
  privateDownloadUrlTtlSeconds := some (.finite 300)
  uploadUrlTtlSeconds := some (.finite 3600)
  maxFileSizeBytes := some (.finite 1000)
  allowedMimeTypes := some [js "text/plain"]

def smallPlatform : Platform := ⟨id, id, id, js "upload"⟩

/-- A temporary file that expires in twelve and a half seconds. -/
def shortLived : Row :=
  { managedRow (smallConfig .s3) ⟨.owner, ⟨"t", none, 7⟩⟩ ⟨"a.txt", "text/plain", 2⟩ .privateFile
      .attachment {} none true 0 0 with
    status := .ready
    expiredAt := some 12500 }

theorem url_within_limits_shortLived :
    UrlWithinLimits (smallConfig .s3) shortLived 0
      [⟨.createDownloadUrl shortLived.key 12 "text/plain" "attachment" "private", some "download"⟩]
      (.ok ⟨some "download", some 12000⟩) := by
  have observed : (normalizeUploadedFileConfig smallPlatform smallSettings).toOption.any
      (fun normalized => decide (normalized.driver = .s3) && !normalized.publicFiles &&
        decide (normalized.defaultVisibility = .privateFile) && !normalized.allowPublicUploads &&
        decide (normalized.uploadUrlTtlSeconds = 3600) &&
        decide (normalized.privateDownloadUrlTtlSeconds = 300) &&
        decide (normalized.maxPrivateDownloadUrlTtlSeconds = 3600) &&
        decide (normalized.maxFileSizeBytes = 1000)) = true := by
    decide +kernel
  cases accepted : normalizeUploadedFileConfig smallPlatform smallSettings with
  | error message => simp [accepted, Except.toOption] at observed
  | ok normalized =>
      simp only [accepted, Except.toOption, Option.any_some, Bool.and_eq_true, decide_eq_true_eq,
        Bool.not_eq_true'] at observed
      obtain ⟨⟨⟨⟨⟨⟨⟨driver, closed⟩, visibility⟩, uploads⟩, upload⟩, ttl⟩, ceiling⟩, bytes⟩ :=
        observed
      have configured : (smallConfig .s3).Configured normalized :=
        ⟨driver.symm, closed.symm, visibility.symm, uploads.symm, upload.symm, ttl.symm,
          ceiling.symm, bytes.symm⟩
      refine url_within_limits accepted configured rfl
        (ends_ask.mpr ⟨some 0, [_], rfl, ends_ask.mpr ⟨some "download", [], rfl, ?_⟩⟩)
      exact ends_done.mpr ⟨rfl, rfl⟩

end SdcoreNest.UploadedFile
