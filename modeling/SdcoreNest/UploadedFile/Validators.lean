/-
# UploadedFile.Validators -- the two validators of an upload agree

`validateUploadMetadata` and `validateUploadBuffer` of `upload-security.ts` on JavaScript strings, and
the checks that `uploadManaged`, `initiateManagedUpload` and `putUploadContent` make with them.  A text
column stores UTF-8, so a row gives a name back with its lone surrogates replaced.  `toLowerCase` and
the inspection of the bytes are parameters.
-/
import SdcoreNest.Theory.JsNumber
import SdcoreNest.UploadedFile.FileNames
import SdcoreNest.UploadedFile.UploadSecurity

namespace SdcoreNest.UploadedFile.FileNames

open SdcoreNest.Theory SdcoreNest.Theory.JsString

set_option autoImplicit false

/-! ## The validators -/

/-- No buffer is longer than `buffer.constants.MAX_LENGTH`. -/
structure Buffer where
  bytes : Bytes
  bounded : bytes.length ≤ 9007199254740991

def Buffer.byteLength (buffer : Buffer) : JsNumber := .finite buffer.bytes.length

structure ValidatedUpload where
  contentType : JsString
  originalName : JsString

structure ValidatedUploadMetadata extends ValidatedUpload where
  size : JsNumber

/-- `EXTENSION_MIME[extension]`; what the table inherits is no type that an upload may have. -/
def EXTENSION_MIME (extension : JsString) : Option JsString :=
  (extensionMime.map fun entry => (js entry.1, js entry.2)).lookup extension

def isOoxml (mime : JsString) : Bool := (ooxmlMimes.map js).contains mime

section

variable (toLowerCase : JsString → JsString) (validatePracticalSignature : Bytes → JsString → Bool)

/-- `split(';', 1)[0].trim().toLowerCase()` -/
def mimeEssence (declared : JsString) : JsString := toLowerCase (trim (JsString.before 0x3B declared))

/-- `toLowerCase().split('.').pop()` -/
def fileExtension (name : JsString) : JsString := afterLast 0x2E (toLowerCase name)

def isAllowed (allowedMimeTypes : List JsString) (contentType : JsString) : Bool :=
  (allowedMimeTypes.map toLowerCase).contains contentType

def validateUploadMetadata (fileName declaredContentType : JsString) (size : JsNumber)
    (allowedMimeTypes : List JsString) (maxBytes : JsNumber) : Option ValidatedUploadMetadata := do
  guard (size.isSafeInteger ∧ !size.le (.finite 0) ∧ !maxBytes.lt size)
  let originalName := sanitizeOriginalFileName (some fileName)
  let extensionMime ← EXTENSION_MIME (fileExtension toLowerCase originalName)
  let contentType := mimeEssence toLowerCase declaredContentType
  guard (contentType ≠ [] ∧ isAllowed toLowerCase allowedMimeTypes contentType ∧
    extensionMime = contentType)
  return ⟨⟨contentType, originalName⟩, size⟩

/-- `declared || (detected === 'application/zip' && extensionIsOoxml ? extensionMime : detected) ||
extensionMime` -/
def bufferType (declared : JsString) (detected : Option JsString) (extensionMime : JsString) : JsString :=
  if declared ≠ [] then declared
  else
    match detected with
    | none => extensionMime
    | some detected =>
        if detected = js "application/zip" ∧ isOoxml extensionMime then extensionMime else detected

/-- What was detected is the type, or the archive that the type is stored in. -/
def detectedAgrees (detected : Option JsString) (contentType : JsString) : Bool :=
  detected.all fun detected =>
    detected = contentType || (detected = js "application/zip" && isOoxml contentType)

def validateUploadBuffer (buffer : Buffer) (fileName declaredContentType : Option JsString)
    (allowedMimeTypes : List JsString) (validateSignature : Bool) (maxBytes : JsNumber) :
    Option ValidatedUpload := do
  guard (buffer.bytes ≠ [] ∧ !maxBytes.lt buffer.byteLength)
  let originalName := sanitizeOriginalFileName fileName
  let extensionMime ← EXTENSION_MIME (fileExtension toLowerCase originalName)
  let declared := (declaredContentType.map (mimeEssence toLowerCase)).getD []
  let detected := (detectStrongMime buffer.bytes).map js
  let contentType := bufferType declared detected extensionMime
  guard (contentType ≠ [] ∧ isAllowed toLowerCase allowedMimeTypes contentType ∧
    extensionMime = contentType ∧ detectedAgrees detected contentType ∧
    (!validateSignature || validatePracticalSignature buffer.bytes contentType))
  return ⟨contentType, originalName⟩

/-! ## The checks of the service -/

/-- What the checks read of the configuration, normalized. -/
structure UploadConfig where
  allowedMimeTypes : List JsString
  maxFileSizeBytes : JsNumber
  validateMagicBytes : Bool

/-- What the checks read of `UploadedFileUploadOptions`. -/
structure CallOptions where
  contentType : Option JsString := none
  size : Option JsNumber := none
  allowedMimeTypes : Option (List JsString) := none
  maxFileSizeBytes : Option JsNumber := none

structure CallLimits where
  allowedMimeTypes : List JsString
  maxFileSizeBytes : JsNumber

/-- The configured types that the call asks for. -/
def callAllowlist (config : UploadConfig) : Option (List JsString) → Option (List JsString)
  | none => some config.allowedMimeTypes
  | some mimes =>
      let requested := (mimes.map fun mime => toLowerCase (trim mime)).filter (· ≠ [])
      let allowed := config.allowedMimeTypes.filter fun mime => requested.contains mime
      if allowed = [] then none else some allowed

def callSizeLimit (config : UploadConfig) : Option JsNumber → Option JsNumber
  | none => some config.maxFileSizeBytes
  | some most =>
      if most.isFinite ∧ JsNumber.lt (.finite 0) most then
        some (JsNumber.min config.maxFileSizeBytes most.floor)
      else none

def uploadValidationLimits (config : UploadConfig) (options : CallOptions) : Option CallLimits := do
  let allowedMimeTypes ← callAllowlist toLowerCase config options.allowedMimeTypes
  let maxFileSizeBytes ← callSizeLimit config options.maxFileSizeBytes
  return ⟨allowedMimeTypes, maxFileSizeBytes⟩

/-- The input that `uploadManaged` hands to `initiateManagedUpload` for a buffer. -/
structure InitiateInput where
  originalName : JsString
  contentType : JsString
  size : JsNumber
deriving DecidableEq

def uploadManaged (config : UploadConfig) (options : CallOptions) (buffer : Buffer)
    (originalName : JsString) : Option InitiateInput := do
  let limits ← uploadValidationLimits toLowerCase config options
  let validated ← validateUploadBuffer toLowerCase validatePracticalSignature buffer (some originalName)
    options.contentType limits.allowedMimeTypes config.validateMagicBytes limits.maxFileSizeBytes
  guard (options.size.all fun size => size = buffer.byteLength)
  return ⟨validated.originalName, validated.contentType, buffer.byteLength⟩

/-- The columns that `putUploadContent` reads. -/
structure UploadRow where
  fileName : JsString
  contentType : JsString
  sizeBytes : JsNumber
  disposition : Disposition

/-- The row that is saved, as it is read back. -/
def initiateManagedUpload (config : UploadConfig) (options : CallOptions) (input : InitiateInput)
    (disposition : Disposition) : Option UploadRow := do
  let limits ← uploadValidationLimits toLowerCase config options
  let validated ← validateUploadMetadata toLowerCase input.originalName input.contentType input.size
    limits.allowedMimeTypes limits.maxFileSizeBytes
  return ⟨toWellFormed validated.originalName, toWellFormed validated.contentType, validated.size,
    disposition⟩

/-- The content type and the header that the object is stored with. -/
def putUploadContent (config : UploadConfig) (row : UploadRow) (buffer : Buffer) :
    Option (JsString × JsString) := do
  let _ ← validateUploadBuffer toLowerCase validatePracticalSignature buffer (some row.fileName)
    (some row.contentType) config.allowedMimeTypes config.validateMagicBytes row.sizeBytes
  guard (buffer.byteLength = row.sizeBytes)
  let header ← contentDisposition row.fileName row.disposition
  return (row.contentType, header)

end

/-! ## Accepted types and names -/

/-- What is used of `toLowerCase`: lower-case ASCII stays, so does white space at the end, and a lone
surrogate has no case, as the replacement character has none. -/
structure LowerCases (toLowerCase : JsString → JsString) : Prop where
  ascii : ∀ text : JsString, (∀ u ∈ text, u.toNat < 128 ∧ lowerAscii u = u) → toLowerCase text = text
  blank : ∀ (text : JsString) (u : UInt16), isSpace u = true →
    toLowerCase (text ++ [u]) = toLowerCase text ++ [u]
  wellFormed : ∀ text : JsString, toLowerCase text.toWellFormed = (toLowerCase text).toWellFormed

/-- An extension of letters and digits, and a lower-case type without parameters. -/
def plainEntry (extension contentType : JsString) : Bool :=
  extension.all (fun u => !isSpace u && !isLeading u && !isTrailing u) &&
    contentType.all (fun u => u.toNat < 128 && lowerAscii u == u) && contentType != [] &&
    trim (JsString.before 0x3B contentType) == contentType

theorem plainEntries :
    (extensionMime.all fun entry => plainEntry (js entry.1) (js entry.2)) = true := by
  decide +kernel

theorem EXTENSION_MIME_plain {extension contentType : JsString}
    (found : EXTENSION_MIME extension = some contentType) :
    (∀ u ∈ extension, isSpace u = false ∧ isLeading u = false ∧ isTrailing u = false) ∧
      (∀ u ∈ contentType, u.toNat < 128 ∧ lowerAscii u = u) ∧ contentType ≠ [] ∧
      trim (JsString.before 0x3B contentType) = contentType := by
  obtain ⟨front, back, shape, -⟩ := List.lookup_eq_some_iff.mp found
  have listed : (extension, contentType) ∈ extensionMime.map fun entry => (js entry.1, js entry.2) := by
    rw [shape]
    simp
  obtain ⟨entry, inside, same⟩ := List.mem_map.mp listed
  have plain := List.all_eq_true.mp plainEntries entry inside
  obtain ⟨rfl, rfl⟩ := Prod.mk.inj same
  simp only [plainEntry, Bool.and_eq_true, List.all_eq_true, Bool.not_eq_true', decide_eq_true_eq,
    beq_iff_eq, bne_iff_ne] at plain
  obtain ⟨⟨⟨extension, contentType⟩, nonempty⟩, whole⟩ := plain
  exact ⟨fun u held => ⟨(extension u held).1.1, (extension u held).1.2, (extension u held).2⟩, contentType,
    nonempty, whole⟩

section

variable {toLowerCase : JsString → JsString} {validatePracticalSignature : Bytes → JsString → Bool}
  (lower : LowerCases toLowerCase)

include lower

/-- A type of the table is in the form in which types are compared. -/
theorem mimeEssence_tabled {extension contentType : JsString}
    (found : EXTENSION_MIME extension = some contentType) :
    mimeEssence toLowerCase contentType = contentType := by
  obtain ⟨-, ascii, -, whole⟩ := EXTENSION_MIME_plain found
  rw [mimeEssence, whole, lower.ascii contentType ascii]

/-- A name with a known extension does not end in white space. -/
theorem ends_of_tabled {name contentType : JsString}
    (found : EXTENSION_MIME (fileExtension toLowerCase name) = some contentType) :
    ∀ u ∈ name.getLast?, isSpace u = false := by
  intro u last
  by_contra space
  have space : isSpace u = true := by simpa using space
  obtain ⟨nonempty, final⟩ := List.mem_getLast?_eq_getLast last
  have shape : name = name.dropLast ++ [u] := by rw [final, List.dropLast_append_getLast]
  have dot : u ≠ 0x2E := by
    rintro rfl
    revert space
    decide
  rw [shape, fileExtension, lower.blank _ u space, afterLast_concat dot] at found
  have plain := (EXTENSION_MIME_plain found).1 u (by simp)
  rw [space] at plain
  cases plain.1

/-- The extension of a name as a text column gives it back. -/
theorem fileExtension_toWellFormed {name contentType : JsString}
    (found : EXTENSION_MIME (fileExtension toLowerCase name) = some contentType) :
    fileExtension toLowerCase name.toWellFormed = fileExtension toLowerCase name := by
  have plain := (EXTENSION_MIME_plain found).1
  obtain ⟨outside, shape⟩ := afterLast_spec 0x2E (toLowerCase name)
  have kept : (afterLast 0x2E (toLowerCase name)).toWellFormed = afterLast 0x2E (toLowerCase name) :=
    toWellFormed_of (wellFormed_of_scalars fun u held => (plain u held).2)
  show afterLast 0x2E (toLowerCase name.toWellFormed) = afterLast 0x2E (toLowerCase name)
  rw [lower.wellFormed]
  rcases shape with whole | ⟨front, whole⟩
  · rw [← whole] at kept
    rw [kept]
  · have parted : (toLowerCase name).toWellFormed =
        front.toWellFormed ++ 0x2E :: afterLast 0x2E (toLowerCase name) :=
      calc (toLowerCase name).toWellFormed
          = (front ++ 0x2E :: afterLast 0x2E (toLowerCase name)).toWellFormed := congrArg _ whole
        _ = front.toWellFormed ++ 0x2E :: (afterLast 0x2E (toLowerCase name)).toWellFormed :=
          toWellFormed_append rfl rfl _ _
        _ = front.toWellFormed ++ 0x2E :: afterLast 0x2E (toLowerCase name) := by rw [kept]
    rw [parted, afterLast_append outside]

end

/-! ## The validators agree -/

section

variable {toLowerCase : JsString → JsString} {validatePracticalSignature : Bytes → JsString → Bool}
  {buffer : Buffer} {allowedMimeTypes : List JsString} {validateSignature : Bool} {maxBytes : JsNumber}

/-- What the checks of a buffer say of it and of the name and type they accept. -/
structure Fits (toLowerCase : JsString → JsString) (validatePracticalSignature : Bytes → JsString → Bool)
    (buffer : Buffer) (allowedMimeTypes : List JsString) (validateSignature : Bool) (maxBytes : JsNumber)
    (file : ValidatedUpload) : Prop where
  nonempty : buffer.bytes ≠ []
  bounded : maxBytes.lt buffer.byteLength = false
  tabled : EXTENSION_MIME (fileExtension toLowerCase file.originalName) = some file.contentType
  allowed : isAllowed toLowerCase allowedMimeTypes file.contentType = true
  detected : detectedAgrees ((detectStrongMime buffer.bytes).map js) file.contentType = true
  signed : (!validateSignature || validatePracticalSignature buffer.bytes file.contentType) = true

theorem fits_of_validateUploadBuffer {fileName declared : Option JsString} {file : ValidatedUpload}
    (accepted : validateUploadBuffer toLowerCase validatePracticalSignature buffer fileName declared
      allowedMimeTypes validateSignature maxBytes = some file) :
    Fits toLowerCase validatePracticalSignature buffer allowedMimeTypes validateSignature maxBytes file ∧
      file.originalName = sanitizeOriginalFileName fileName := by
  simp only [validateUploadBuffer, Option.bind_eq_bind, Option.bind_eq_some_iff, Option.guard_eq_some',
    Option.pure_def, Option.some.injEq] at accepted
  obtain ⟨-, ⟨nonempty, bounded⟩, extensionMime, tabled, -, ⟨-, allowed, same, detected, signed⟩, rfl⟩ :=
    accepted
  rw [same] at tabled
  exact ⟨⟨nonempty, by simpa using bounded, tabled, allowed, detected, signed⟩, rfl⟩

/-- A buffer that fits is accepted under its own name and type. -/
theorem Fits.validateUploadBuffer (lower : LowerCases toLowerCase) {file : ValidatedUpload}
    (fits : Fits toLowerCase validatePracticalSignature buffer allowedMimeTypes validateSignature maxBytes
      file) {fileName : Option JsString} (named : sanitizeOriginalFileName fileName = file.originalName) :
    FileNames.validateUploadBuffer toLowerCase validatePracticalSignature buffer fileName
      (some file.contentType) allowedMimeTypes validateSignature maxBytes = some file := by
  have present := (EXTENSION_MIME_plain fits.tabled).2.2.1
  have essence := mimeEssence_tabled lower fits.tabled
  simp only [FileNames.validateUploadBuffer, Option.bind_eq_bind, Option.bind_eq_some_iff,
    Option.guard_eq_some', Option.pure_def, named, Option.map_some, Option.getD_some, essence, bufferType,
    if_pos present]
  exact ⟨(), ⟨fits.nonempty, by simpa using fits.bounded⟩, file.contentType, fits.tabled, (),
    ⟨present, fits.allowed, rfl, fits.detected, fits.signed⟩, trivial⟩

theorem isSafeInteger_byteLength (buffer : Buffer) : buffer.byteLength.isSafeInteger = true := by
  have bounded : (buffer.bytes.length : ℚ) ≤ 9007199254740991 := by exact_mod_cast buffer.bounded
  simpa [Buffer.byteLength, JsNumber.isSafeInteger] using bounded

theorem byteLength_positive {buffer : Buffer} (nonempty : buffer.bytes ≠ []) :
    buffer.byteLength.le (.finite 0) = false := by
  have positive : (0 : ℚ) < buffer.bytes.length := by exact_mod_cast List.length_pos_iff.mpr nonempty
  simp [Buffer.byteLength, JsNumber.le, JsNumber.lt, nonempty]

/-- What fits as a buffer is accepted by its metadata. -/
theorem Fits.validateUploadMetadata (lower : LowerCases toLowerCase) {file : ValidatedUpload}
    (fits : Fits toLowerCase validatePracticalSignature buffer allowedMimeTypes validateSignature maxBytes
      file) (clean : Clean file.originalName) :
    FileNames.validateUploadMetadata toLowerCase file.originalName file.contentType buffer.byteLength
      allowedMimeTypes maxBytes = some ⟨file, buffer.byteLength⟩ := by
  have present := (EXTENSION_MIME_plain fits.tabled).2.2.1
  have essence := mimeEssence_tabled lower fits.tabled
  simp only [FileNames.validateUploadMetadata, Option.bind_eq_bind, Option.bind_eq_some_iff,
    Option.guard_eq_some', Option.pure_def, clean.sanitize, essence]
  exact ⟨(), ⟨isSafeInteger_byteLength buffer, by simp [byteLength_positive fits.nonempty],
    by simpa using fits.bounded⟩, file.contentType, fits.tabled, (), ⟨present, fits.allowed, rfl⟩, trivial⟩

/-- A name that was accepted is clean. -/
theorem clean_of_fits (lower : LowerCases toLowerCase) {fileName : Option JsString} {file : ValidatedUpload}
    (fits : Fits toLowerCase validatePracticalSignature buffer allowedMimeTypes validateSignature maxBytes
      file) (named : file.originalName = sanitizeOriginalFileName fileName) : Clean file.originalName := by
  have ends := ends_of_tabled lower fits.tabled
  rw [named] at ends ⊢
  exact clean_of_ends ends

end

/-! ## The service -/

section

variable {toLowerCase : JsString → JsString} {validatePracticalSignature : Bytes → JsString → Bool}

theorem isAllowed_of_subset {fewer more : List JsString} {contentType : JsString}
    (sub : ∀ mime ∈ fewer, mime ∈ more) (allowed : isAllowed toLowerCase fewer contentType = true) :
    isAllowed toLowerCase more contentType = true := by
  rw [isAllowed, List.contains_iff_mem] at allowed ⊢
  obtain ⟨mime, inside, same⟩ := List.mem_map.mp allowed
  exact List.mem_map.mpr ⟨mime, sub mime inside, same⟩

/-- The limits of a call only narrow those of the configuration. -/
theorem uploadValidationLimits_allowed {config : UploadConfig} {options : CallOptions} {limits : CallLimits}
    (resolved : uploadValidationLimits toLowerCase config options = some limits) :
    ∀ mime ∈ limits.allowedMimeTypes, mime ∈ config.allowedMimeTypes := by
  simp only [uploadValidationLimits, Option.bind_eq_bind, Option.bind_eq_some_iff, Option.pure_def,
    Option.some.injEq] at resolved
  obtain ⟨allowed, listed, _, -, rfl⟩ := resolved
  intro mime inside
  cases mimes : options.allowedMimeTypes with
  | none =>
      rw [mimes, callAllowlist] at listed
      obtain rfl := Option.some.inj listed
      exact inside
  | some requested =>
      rw [mimes, callAllowlist] at listed
      simp only [Option.ite_none_left_eq_some, Option.some.injEq] at listed
      obtain ⟨-, rfl⟩ := listed
      exact (List.mem_filter.mp inside).1

/-- What a row gives back of an accepted upload is stored with a header. -/
theorem putUploadContent_stored (lower : LowerCases toLowerCase) {config : UploadConfig} {buffer : Buffer}
    {limits : CallLimits} {file : ValidatedUpload}
    (sub : ∀ mime ∈ limits.allowedMimeTypes, mime ∈ config.allowedMimeTypes)
    (fits : Fits toLowerCase validatePracticalSignature buffer limits.allowedMimeTypes
      config.validateMagicBytes limits.maxFileSizeBytes file) (clean : Clean file.originalName)
    (disposition : Disposition) :
    ∃ stored, putUploadContent toLowerCase validatePracticalSignature config
      ⟨file.originalName.toWellFormed, file.contentType.toWellFormed, buffer.byteLength, disposition⟩
      buffer = some stored := by
  have ascii := (EXTENSION_MIME_plain fits.tabled).2.1
  have type : file.contentType.toWellFormed = file.contentType := by
    refine toWellFormed_of (wellFormed_of_scalars fun u inside => ?_)
    have small := (ascii u inside).1
    simp only [isScalar, isLeading, isTrailing, Bool.and_eq_false_iff, decide_eq_false_iff_not]
    omega
  have tabled := fits.tabled
  rw [← fileExtension_toWellFormed lower fits.tabled] at tabled
  have again : Fits toLowerCase validatePracticalSignature buffer config.allowedMimeTypes
      config.validateMagicBytes buffer.byteLength ⟨file.contentType, file.originalName.toWellFormed⟩ :=
    ⟨fits.nonempty, by simp [Buffer.byteLength, JsNumber.lt], tabled, isAllowed_of_subset sub fits.allowed,
      fits.detected, fits.signed⟩
  have named := clean.toWellFormed.sanitize
  obtain ⟨header, written⟩ : ∃ header, contentDisposition file.originalName.toWellFormed disposition =
      some header := by
    rw [contentDisposition_written, named]
    exact wellFormed_toWellFormed _
  refine ⟨(file.contentType, header), ?_⟩
  rw [type]
  simp only [putUploadContent, Option.bind_eq_bind, Option.bind_eq_some_iff, Option.guard_eq_some',
    Option.pure_def, Option.some.injEq]
  exact ⟨_, again.validateUploadBuffer lower named, (), trivial, header, written, rfl⟩

/-- **The two validators agree**, so that a managed upload that was validated from its buffer is refused
neither when it is initiated nor when its content is put. -/
theorem upload_validators_agree (lower : LowerCases toLowerCase) :
    (∀ (buffer : Buffer) (fileName declared : Option JsString) (allowedMimeTypes : List JsString)
        (validateSignature : Bool) (maxBytes : JsNumber) (file : ValidatedUpload),
      validateUploadBuffer toLowerCase validatePracticalSignature buffer fileName declared
          allowedMimeTypes validateSignature maxBytes = some file →
        validateUploadMetadata toLowerCase file.originalName file.contentType buffer.byteLength
          allowedMimeTypes maxBytes = some ⟨file, buffer.byteLength⟩ ∧
        validateUploadBuffer toLowerCase validatePracticalSignature buffer (some file.originalName)
          (some file.contentType) allowedMimeTypes validateSignature maxBytes = some file ∧
        sanitizeOriginalFileName (some file.originalName) = file.originalName) ∧
    ∀ (config : UploadConfig) (options : CallOptions) (buffer : Buffer) (originalName : JsString)
        (disposition : Disposition) (input : InitiateInput),
      uploadManaged toLowerCase validatePracticalSignature config options buffer originalName =
          some input →
        ∃ row stored, initiateManagedUpload toLowerCase config options input disposition = some row ∧
          putUploadContent toLowerCase validatePracticalSignature config row buffer = some stored := by
  refine ⟨?_, ?_⟩
  · intro buffer fileName declared allowedMimeTypes validateSignature maxBytes file accepted
    obtain ⟨fits, named⟩ := fits_of_validateUploadBuffer accepted
    have clean := clean_of_fits lower fits named
    exact ⟨fits.validateUploadMetadata lower clean, fits.validateUploadBuffer lower clean.sanitize,
      clean.sanitize⟩
  · intro config options buffer originalName disposition input passed
    simp only [uploadManaged, Option.bind_eq_bind, Option.bind_eq_some_iff, Option.guard_eq_some',
      Option.pure_def, Option.some.injEq] at passed
    obtain ⟨limits, resolved, file, accepted, -, -, rfl⟩ := passed
    obtain ⟨fits, named⟩ := fits_of_validateUploadBuffer accepted
    have clean := clean_of_fits lower fits named
    obtain ⟨stored, put⟩ := putUploadContent_stored lower (uploadValidationLimits_allowed resolved) fits
      clean disposition
    refine ⟨_, stored, ?_, put⟩
    simp only [initiateManagedUpload, Option.bind_eq_bind, Option.bind_eq_some_iff, Option.pure_def,
      Option.some.injEq]
    exact ⟨limits, resolved, _, fits.validateUploadMetadata lower clean, rfl⟩

end

/-! ## A text file -/

theorem lowerAscii_scalarUnit (u : UInt16) : lowerAscii (scalarUnit u) = scalarUnit (lowerAscii u) ∧
    isLeading (lowerAscii u) = isLeading u ∧ isTrailing (lowerAscii u) = isTrailing u := by
  unfold lowerAscii
  by_cases letter : 0x41 ≤ u.toNat ∧ u.toNat ≤ 0x5A
  · have number : (UInt16.ofNat (u.toNat + 0x20)).toNat = u.toNat + 0x20 := by
      rw [UInt16.toNat_ofNat']
      omega
    have plain : isLeading u = false ∧ isTrailing u = false := by
      simp only [isLeading, isTrailing, Bool.and_eq_false_iff, decide_eq_false_iff_not]
      omega
    have plain' : isLeading (.ofNat (u.toNat + 0x20)) = false ∧
        isTrailing (.ofNat (u.toNat + 0x20)) = false := by
      simp only [isLeading, isTrailing, number, Bool.and_eq_false_iff, decide_eq_false_iff_not]
      omega
    rw [if_pos letter, scalarUnit, scalarUnit, plain.1, plain.2, plain'.1, plain'.2]
    exact ⟨if_pos letter, rfl, rfl⟩
  · rw [if_neg letter]
    refine ⟨?_, rfl, rfl⟩
    unfold scalarUnit
    split
    · rfl
    · rfl

theorem toWellFormed_lowerAscii (s : JsString) :
    toWellFormed (s.map lowerAscii) = s.toWellFormed.map lowerAscii := by
  induction s using toText.induct with
  | case1 => rfl
  | case2 u =>
      rw [List.map_singleton, toWellFormed_cons (by simp), toWellFormed_cons (by simp),
        List.map_cons, (lowerAscii_scalarUnit u).1]
      rfl
  | case3 u v rest pair ih =>
      obtain ⟨leading, trailing⟩ := Bool.and_eq_true_iff.mp pair
      have high := (lowerAscii_scalarUnit u).2.1.trans leading
      have low := (lowerAscii_scalarUnit v).2.2.trans trailing
      rw [List.map_cons, List.map_cons, toWellFormed_pair high low, toWellFormed_pair leading trailing, ih]
      rfl
  | case4 u v rest single ih =>
      have single : (isLeading u && isTrailing v) = false := by simpa using single
      have single' : (isLeading (lowerAscii u) && isTrailing (lowerAscii v)) = false := by
        rw [(lowerAscii_scalarUnit u).2.1, (lowerAscii_scalarUnit v).2.2, single]
      rw [List.map_cons, @toWellFormed_cons (lowerAscii u) ((v :: rest).map lowerAscii) single', ih,
        @toWellFormed_cons u (v :: rest) single, List.map_cons, (lowerAscii_scalarUnit u).1]

theorem lowerCases_ascii : LowerCases (List.map lowerAscii) where
  ascii text small := by
    refine (List.map_congr_left fun u inside => ?_).trans (List.map_id text)
    exact (small u inside).2
  blank text u space := by
    have kept : lowerAscii u = u := by
      unfold lowerAscii
      refine if_neg fun letter => ?_
      simp only [isSpace, Bool.or_eq_true, Bool.and_eq_true, decide_eq_true_eq, beq_iff_eq] at space
      omega
    rw [List.map_append, List.map_singleton, kept]
  wellFormed text := (toWellFormed_lowerAscii text).symm

def smallBuffer : Buffer := ⟨[104, 105], by decide⟩

def smallUploads : UploadConfig where
  allowedMimeTypes := [js "text/plain"]
  maxFileSizeBytes := .finite 10
  validateMagicBytes := true

theorem text_upload_stored : ∃ row stored,
    initiateManagedUpload (List.map lowerAscii) smallUploads {} ⟨js "a.TXT", js "text/plain", .finite 2⟩
      .attachment = some row ∧
    putUploadContent (List.map lowerAscii) (fun _ _ => true) smallUploads row smallBuffer = some stored :=
  (upload_validators_agree lowerCases_ascii).2 smallUploads {} smallBuffer (js "a.TXT") .attachment _
    (by decide +kernel)

end SdcoreNest.UploadedFile.FileNames
