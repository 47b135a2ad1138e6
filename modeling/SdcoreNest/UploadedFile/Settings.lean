/-
# UploadedFile.Settings -- the configuration a consumer gives, and what the module makes of it

`normalizeUploadedFileConfig` checks the consumer's configuration once, at start-up, and
fills in the defaults.  `Config.Configured` says that the service runs with the outcome.
-/
import SdcoreNest.Theory.JsNumber
import SdcoreNest.UploadedFile.Service

namespace SdcoreNest.UploadedFile

open SdcoreNest.Theory
open SdcoreNest.Theory.JsString

set_option autoImplicit false

/-- What the module asks of the language and the operating system about text. -/
structure Platform where
  slugify : JsString → JsString
  toLowerCase : JsString → JsString
  resolve : JsString → JsString
  uploadDirectory : JsString

inductive PublicAccessMode where
  | objectAcl
  | external
deriving DecidableEq, Repr

structure RemoteCloneConfig where
  enabled : Bool := false
  timeoutMs : Option JsNumber := none
  maxBytes : Option JsNumber := none
  maxRedirects : Option JsNumber := none
  allowedHosts : Option (List JsString) := none

/-- The consumer's configuration, `UploadedFileConfig`; `none` is `undefined`.  The policies,
the scope resolver and `cleanupAfterDays` are passed on unread. -/
structure UploadedFileConfig where
  driver : Option JsString := none
  accessId : Option JsString := none
  accessKey : Option JsString := none
  region : Option JsString := none
  endpoint : Option JsString := none
  forcePathStyle : Bool := false
  bucket : Option JsString := none
  folder : Option JsString := none
  localRoot : Option JsString := none
  host : Option JsString := none
  cdnBaseUrl : Option JsString := none
  publicFiles : Bool := false
  defaultVisibility : Option JsString := none
  allowPublicUploads : Option Bool := none
  publicAccessMode : Option JsString := none
  uploadUrlTtlSeconds : Option JsNumber := none
  privateDownloadUrlTtlSeconds : Option JsNumber := none
  maxPrivateDownloadUrlTtlSeconds : Option JsNumber := none
  pendingCleanupInterval : Option JsString := none
  temporaryCleanupInterval : Option JsString := none
  cleanupBatchSize : Option JsNumber := none
  downloadPath : Option JsString := none
  maxFileSizeBytes : Option JsNumber := none
  allowedMimeTypes : Option (List JsString) := none
  validateMagicBytes : Option Bool := none
  remoteClone : Option RemoteCloneConfig := none

structure NormalizedUploadedFileConfig where
  driver : Driver
  accessId : Option JsString
  accessKey : Option JsString
  bucket : Option JsString
  region : Option JsString
  endpoint : Option JsString
  forcePathStyle : Bool
  folder : JsString
  localRoot : JsString
  host : JsString
  cdnBaseUrl : JsString
  publicFiles : Bool
  defaultVisibility : Visibility
  allowPublicUploads : Bool
  publicAccessMode : PublicAccessMode
  uploadUrlTtlSeconds : Nat
  privateDownloadUrlTtlSeconds : Nat
  maxPrivateDownloadUrlTtlSeconds : Nat
  pendingCleanupInterval : JsString
  temporaryCleanupInterval : JsString
  cleanupBatchSize : Nat
  downloadPath : JsString
  maxFileSizeBytes : Nat
  allowedMimeTypes : List JsString
  validateMagicBytes : Bool
  remoteClone : RemoteCloneConfig

def absoluteMaxUploadBytes : Nat := 25 * 1024 * 1024

def maxPrivateDownloadUrlTtl : Nat := 60 * 60

def defaultMaxUploadBytes : Nat := 10 * 1024 * 1024

def defaultAllowedMimeTypes : List JsString :=
  [js "application/json", js "application/pdf",
    js "application/vnd.openxmlformats-officedocument.presentationml.presentation",
    js "application/vnd.openxmlformats-officedocument.spreadsheetml.sheet",
    js "application/vnd.openxmlformats-officedocument.wordprocessingml.document",
    js "application/zip", js "image/gif", js "image/jpeg", js "image/png", js "image/webp",
    js "text/csv", js "text/plain"]

/-! ## The checks of single fields -/

def positiveInteger (value : Option JsNumber) (fallback : Nat) (name : String) :
    Except String Nat :=
  match value.getD (.finite fallback) with
  | .finite resolved =>
      if !(JsNumber.finite resolved).isSafeInteger || resolved ≤ 0 then
        .error ("UploadedFileConfig." ++ name ++ " must be a positive integer")
      else .ok resolved.num.toNat
  | _ => .error ("UploadedFileConfig." ++ name ++ " must be a positive integer")

/-- `value || undefined` for a text. -/
def nonEmpty (text : JsString) : Option JsString := if text = [] then none else some text

/-- The number of parts of `split(/\s+/)`: one more than there are runs of white space. -/
def partCount (text : JsString) : Nat := 1 + runs false text
where
  /-- Runs of white space in what follows; a run may already have begun. -/
  runs (within : Bool) : JsString → Nat
    | [] => 0
    | u :: rest =>
        if isSpace u then (if within then 0 else 1) + runs true rest else runs false rest

def cronExpression (value : Option JsString) (fallback : JsString) (name : String) :
    Except String JsString :=
  let resolved := ((value.map trim).bind nonEmpty).getD fallback
  if resolved = [] ∨ 128 < resolved.length ∨ partCount resolved < 5 then
    .error ("UploadedFileConfig." ++ name ++ " must be a non-empty cron expression")
  else .ok resolved

/-- `replace(/\/+$/, '')`. -/
def stripTrailingSlashes (text : JsString) : JsString :=
  (text.reverse.dropWhile (· = 0x2F)).reverse

def normalizeStoragePrefix (platform : Platform) (input : Option JsString) :
    Except String JsString :=
  let slashed := ((input.bind nonEmpty).getD (js "core")).map fun u => if u = 0x5C then 0x2F else u
  let value := stripTrailingSlashes (slashed.dropWhile (· = 0x2F))
  let parts := splitOn 0x2F value
  if value = [] ∨ parts.any (fun part => part = [] || part = js "." || part = js ".." ||
      part.contains 0) then .error "Invalid storage key prefix"
  else
    let normalizedParts := parts.map platform.slugify
    if normalizedParts.any (· = []) then .error "Invalid storage key prefix"
    else .ok (joinWith [0x2F] normalizedParts)

/-- `Math.max(1, Math.min(Math.floor(value), limit))`, with a fallback for what is not finite. -/
def boundedBytes (value : Option JsNumber) (fallback limit : Nat) : Nat :=
  let requested : Int :=
    match value with
    | some (.finite value) => value.floor
    | _ => fallback
  (max 1 (min requested limit)).toNat

/-- An enumerated setting, with the text of its error. -/
def oneOf {α : Type} (value : JsString) (choices : List (JsString × α)) (message : String) :
    Except String α :=
  match choices.find? (·.1 = value) with
  | some (_, choice) => .ok choice
  | none => .error message

/-- The error of a failed `if`. -/
def require (condition : Bool) (message : String) : Except String Unit :=
  if condition then .ok () else .error message

/-! ## Drivers and time limits -/

/-- The driver with its trimmed credentials and bucket. -/
def resolvedDriver (config : UploadedFileConfig) : Except String (Driver × JsString) := do
  let explicit ← config.driver.mapM fun driver =>
    oneOf driver [(js "s3", Driver.s3), (js "local", Driver.localDisk)]
      "UploadedFileConfig.driver must be either 's3' or 'local'"
  let accessId := (config.accessId.map trim).getD []
  let accessKey := (config.accessKey.map trim).getD []
  require (config.accessId.isSome = config.accessKey.isSome &&
      (config.accessId.isNone || (accessId ≠ [] && accessKey ≠ [])))
    "UploadedFileConfig S3 credentials require both non-empty accessId and accessKey"
  let driver := explicit.getD (if config.accessId.isSome then .s3 else .localDisk)
  let bucket := (config.bucket.map trim).getD []
  require (driver ≠ .s3 || bucket ≠ [])
    "UploadedFileConfig.bucket must be a non-empty string when the S3 driver is selected"
  pure (driver, bucket)

structure TimeLimits where
  uploadUrlTtlSeconds : Nat
  privateDownloadUrlTtlSeconds : Nat
  maxPrivateDownloadUrlTtlSeconds : Nat
  cleanupBatchSize : Nat
deriving DecidableEq, Repr

def resolvedLimits (config : UploadedFileConfig) : Except String TimeLimits := do
  let maxPrivate ← positiveInteger config.maxPrivateDownloadUrlTtlSeconds
    maxPrivateDownloadUrlTtl "maxPrivateDownloadUrlTtlSeconds"
  let privateTtl ← positiveInteger config.privateDownloadUrlTtlSeconds (15 * 60)
    "privateDownloadUrlTtlSeconds"
  require (maxPrivate ≤ maxPrivateDownloadUrlTtl && privateTtl ≤ maxPrivateDownloadUrlTtl)
    "UploadedFileConfig private signed URL TTL must not exceed one hour"
  require (privateTtl ≤ maxPrivate)
    "UploadedFileConfig.privateDownloadUrlTtlSeconds must not exceed maxPrivateDownloadUrlTtlSeconds"
  let uploadTtl ← positiveInteger config.uploadUrlTtlSeconds (10 * 60) "uploadUrlTtlSeconds"
  require (uploadTtl ≤ 60 * 60)
    "UploadedFileConfig.uploadUrlTtlSeconds must not exceed one hour"
  let batch ← positiveInteger config.cleanupBatchSize 100 "cleanupBatchSize"
  require (batch ≤ 100) "UploadedFileConfig.cleanupBatchSize must not exceed 100"
  pure ⟨uploadTtl, privateTtl, maxPrivate, batch⟩

/-! ## The whole configuration -/

def normalizeUploadedFileConfig (platform : Platform) (config : UploadedFileConfig) :
    Except String NormalizedUploadedFileConfig := do
  let (driver, bucket) ← resolvedDriver config
  let maxFileSizeBytes := boundedBytes config.maxFileSizeBytes defaultMaxUploadBytes
    absoluteMaxUploadBytes
  let listed := (config.allowedMimeTypes.bind fun mimes =>
    if mimes = [] then none else some mimes).getD defaultAllowedMimeTypes
  let allowedMimeTypes :=
    ((listed.map fun mime => platform.toLowerCase (trim mime)).reverse.dedup.reverse).filter (· ≠ [])
  require (allowedMimeTypes ≠ []) "UploadedFileConfig.allowedMimeTypes must not be empty"
  let defaultVisibility ← oneOf
    (config.defaultVisibility.getD (if config.publicFiles then js "public" else js "private"))
    [(js "public", Visibility.publicFile), (js "private", Visibility.privateFile)]
    "UploadedFileConfig.defaultVisibility must be either 'public' or 'private'"
  let allowPublicUploads := config.allowPublicUploads.getD config.publicFiles
  require (defaultVisibility ≠ .publicFile || allowPublicUploads)
    "UploadedFileConfig.defaultVisibility public requires allowPublicUploads=true"
  let publicAccessMode ← oneOf (config.publicAccessMode.getD (js "external"))
    [(js "object-acl", PublicAccessMode.objectAcl), (js "external", PublicAccessMode.external)]
    "UploadedFileConfig.publicAccessMode must be either 'object-acl' or 'external'"
  let limits ← resolvedLimits config
  let folder ← normalizeStoragePrefix platform config.folder
  let pendingCleanupInterval ← cronExpression config.pendingCleanupInterval (js "0 3 * * *")
    "pendingCleanupInterval"
  let temporaryCleanupInterval ← cronExpression config.temporaryCleanupInterval
    (js "*/15 * * * *") "temporaryCleanupInterval"
  let downloadPath ← normalizeStoragePrefix platform
    (some (config.downloadPath.getD (js "uploaded-file")))
  let remote := config.remoteClone.getD {}
  pure
    { driver := driver
      accessId := config.accessId.map trim
      accessKey := config.accessKey.map trim
      bucket := nonEmpty bucket
      region := (config.region.map trim).bind nonEmpty
      endpoint := (config.endpoint.map fun text => stripTrailingSlashes (trim text)).bind nonEmpty
      forcePathStyle := config.forcePathStyle
      folder := folder
      localRoot := (config.localRoot.map platform.resolve).getD platform.uploadDirectory
      host := config.host.getD []
      cdnBaseUrl := config.cdnBaseUrl.getD []
      publicFiles := defaultVisibility = .publicFile
      defaultVisibility := defaultVisibility
      allowPublicUploads := allowPublicUploads
      publicAccessMode := publicAccessMode
      uploadUrlTtlSeconds := limits.uploadUrlTtlSeconds
      privateDownloadUrlTtlSeconds := limits.privateDownloadUrlTtlSeconds
      maxPrivateDownloadUrlTtlSeconds := limits.maxPrivateDownloadUrlTtlSeconds
      pendingCleanupInterval := pendingCleanupInterval
      temporaryCleanupInterval := temporaryCleanupInterval
      cleanupBatchSize := limits.cleanupBatchSize
      downloadPath := downloadPath
      maxFileSizeBytes := maxFileSizeBytes
      allowedMimeTypes := allowedMimeTypes
      validateMagicBytes := config.validateMagicBytes.getD true
      remoteClone :=
        { remote with
          maxBytes := some (.finite (boundedBytes remote.maxBytes maxFileSizeBytes
            maxFileSizeBytes)) } }

/-- The service runs with this outcome. -/
structure Config.Configured (config : Config) (normalized : NormalizedUploadedFileConfig) :
    Prop where
  driver : config.driver = normalized.driver
  publicFiles : config.publicFiles = normalized.publicFiles
  defaultVisibility : config.defaultVisibility = normalized.defaultVisibility
  allowPublicUploads : config.allowPublicUploads = normalized.allowPublicUploads
  uploadUrlTtlSeconds : config.uploadUrlTtlSeconds = normalized.uploadUrlTtlSeconds
  privateDownloadUrlTtlSeconds :
    config.privateDownloadUrlTtlSeconds = normalized.privateDownloadUrlTtlSeconds
  maxPrivateDownloadUrlTtlSeconds :
    config.maxPrivateDownloadUrlTtlSeconds = normalized.maxPrivateDownloadUrlTtlSeconds
  maxFileSizeBytes : config.maxFileSizeBytes = normalized.maxFileSizeBytes

/-! ## What an accepted configuration promises -/

theorem positiveInteger_pos {value : Option JsNumber} {fallback : Nat} {name : String}
    {resolved : Nat} (accepted : positiveInteger value fallback name = .ok resolved) :
    0 < resolved := by
  unfold positiveInteger at accepted
  split at accepted
  next number chosen =>
    split at accepted
    · cases accepted
    · next passed =>
      simp only [Bool.or_eq_true, Bool.not_eq_true', decide_eq_true_eq, not_or,
        Bool.not_eq_false, not_le] at passed
      obtain rfl := Except.ok.inj accepted
      have positive : 0 < number.num := Rat.num_pos.mpr passed.2
      omega
  next => cases accepted

theorem require_ok {condition : Bool} {message : String}
    (accepted : require condition message = .ok ()) : condition = true := by
  unfold require at accepted
  split at accepted
  · assumption
  · cases accepted

/-- Every accepted time limit is positive and at most an hour; every batch has 1 to 100 rows. -/
structure TimeLimits.Sane (limits : TimeLimits) : Prop where
  upload : 0 < limits.uploadUrlTtlSeconds ∧ limits.uploadUrlTtlSeconds ≤ 3600
  privateDownload : 0 < limits.privateDownloadUrlTtlSeconds ∧
    limits.privateDownloadUrlTtlSeconds ≤ limits.maxPrivateDownloadUrlTtlSeconds
  maxPrivate : limits.maxPrivateDownloadUrlTtlSeconds ≤ 3600
  batch : 0 < limits.cleanupBatchSize ∧ limits.cleanupBatchSize ≤ 100

theorem resolvedLimits_sane {config : UploadedFileConfig} {limits : TimeLimits}
    (accepted : resolvedLimits config = .ok limits) : limits.Sane := by
  obtain ⟨maxPrivate, ceiling, accepted⟩ := of_bind_ok accepted
  obtain ⟨privateTtl, ttl, accepted⟩ := of_bind_ok accepted
  obtain ⟨⟨⟩, hour, accepted⟩ := of_bind_ok accepted
  obtain ⟨⟨⟩, ordered, accepted⟩ := of_bind_ok accepted
  obtain ⟨uploadTtl, upload, accepted⟩ := of_bind_ok accepted
  obtain ⟨⟨⟩, uploadHour, accepted⟩ := of_bind_ok accepted
  obtain ⟨batch, size, accepted⟩ := of_bind_ok accepted
  obtain ⟨⟨⟩, hundred, accepted⟩ := of_bind_ok accepted
  obtain rfl := Except.ok.inj accepted
  have hours := require_ok hour
  simp only [Bool.and_eq_true, decide_eq_true_eq] at hours
  exact
    { upload := ⟨positiveInteger_pos upload, of_decide_eq_true (require_ok uploadHour)⟩
      privateDownload := ⟨positiveInteger_pos ttl, of_decide_eq_true (require_ok ordered)⟩
      maxPrivate := hours.1
      batch := ⟨positiveInteger_pos size, of_decide_eq_true (require_ok hundred)⟩ }

/-- The time limits of the outcome are those that were checked. -/
theorem normalizeUploadedFileConfig_limits {platform : Platform} {raw : UploadedFileConfig}
    {normalized : NormalizedUploadedFileConfig}
    (accepted : normalizeUploadedFileConfig platform raw = .ok normalized) :
    TimeLimits.Sane ⟨normalized.uploadUrlTtlSeconds, normalized.privateDownloadUrlTtlSeconds,
      normalized.maxPrivateDownloadUrlTtlSeconds, normalized.cleanupBatchSize⟩ := by
  obtain ⟨⟨driver, bucket⟩, -, accepted⟩ := of_bind_ok accepted
  obtain ⟨⟨⟩, -, accepted⟩ := of_bind_ok accepted
  obtain ⟨visibility, -, accepted⟩ := of_bind_ok accepted
  obtain ⟨⟨⟩, -, accepted⟩ := of_bind_ok accepted
  obtain ⟨access, -, accepted⟩ := of_bind_ok accepted
  obtain ⟨limits, passed, accepted⟩ := of_bind_ok accepted
  obtain ⟨folder, -, accepted⟩ := of_bind_ok accepted
  obtain ⟨pending, -, accepted⟩ := of_bind_ok accepted
  obtain ⟨temporary, -, accepted⟩ := of_bind_ok accepted
  obtain ⟨path, -, accepted⟩ := of_bind_ok accepted
  obtain rfl := Except.ok.inj accepted
  exact resolvedLimits_sane passed

end SdcoreNest.UploadedFile
