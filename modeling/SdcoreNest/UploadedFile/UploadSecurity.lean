/-
# UploadedFile.UploadSecurity -- the checks of `upload-security.ts`

Names, extensions, declared types and sizes of an upload, and the buffer that is sent for it.
Text is a sequence of characters; `slice(0, 1024)` counts code units, and half of a pair that
it leaves is the replacement character, as the database stores it.  `toLowerCase` and the
inspection of the bytes (`validatePracticalSignature`) are parameters.
-/
import SdcoreNest.UploadedFile.Service
import Mathlib.Data.List.TakeWhile

namespace SdcoreNest.UploadedFile

set_option autoImplicit false

/-! ## Names -/

/-- White space and line terminators, which `trim` removes. -/
def isBlank (c : Char) : Bool :=
  let n := c.toNat
  (9 ≤ n && n ≤ 13) || n == 0x20 || n == 0xA0 || n == 0x1680 ||
    (0x2000 ≤ n && n ≤ 0x200A) || n == 0x2028 || n == 0x2029 || n == 0x202F ||
    n == 0x205F || n == 0x3000 || n == 0xFEFF

/-- `trim` -/
def trimmed (text : List Char) : List Char :=
  ((text.dropWhile isBlank).reverse.dropWhile isBlank).reverse

/-- The code units of a character. -/
def codeUnits (c : Char) : Nat := if c.toNat < 0x10000 then 1 else 2

/-- `slice(0, count)` -/
def sliceUnits : Nat → List Char → List Char
  | _, [] => []
  | 0, _ => []
  | count, c :: rest =>
      if codeUnits c ≤ count then c :: sliceUnits (count - codeUnits c) rest else ['\uFFFD']

/-- What follows the last slash of either kind. -/
def leafName (text : List Char) : List Char :=
  (text.reverse.takeWhile fun c => c ≠ '/' && c ≠ '\\').reverse

def isPrintable (c : Char) : Bool := 32 ≤ c.toNat && c.toNat ≠ 127

def sanitizeOriginalFileName (input : String) : String :=
  let leaf := leafName (if input = "" then "TEMP" else input).toList
  let cleaned := sliceUnits 1024 (trimmed (leaf.filter isPrintable))
  if cleaned = [] then "TEMP" else String.ofList cleaned

/-- `EXTENSION_MIME` -/
def extensionMime : List (String × String) :=
  [("csv", "text/csv"),
    ("docx", "application/vnd.openxmlformats-officedocument.wordprocessingml.document"),
    ("gif", "image/gif"),
    ("jpeg", "image/jpeg"),
    ("jpg", "image/jpeg"),
    ("json", "application/json"),
    ("pdf", "application/pdf"),
    ("png", "image/png"),
    ("pptx", "application/vnd.openxmlformats-officedocument.presentationml.presentation"),
    ("txt", "text/plain"),
    ("webp", "image/webp"),
    ("xlsx", "application/vnd.openxmlformats-officedocument.spreadsheetml.sheet"),
    ("zip", "application/zip")]

/-- The types of `OOXML_MIME_MAIN_PART`. -/
def ooxmlMimes : List String :=
  ["application/vnd.openxmlformats-officedocument.wordprocessingml.document",
    "application/vnd.openxmlformats-officedocument.spreadsheetml.sheet",
    "application/vnd.openxmlformats-officedocument.presentationml.presentation"]

/-! ## Signatures -/

def startsWith (buffer : Bytes) (signature : List UInt8) : Bool := signature.isPrefixOf buffer

/-- The first bytes decoded as `ascii`, which drops the highest bit of each. -/
def startsWithText (buffer : Bytes) (text : String) : Bool :=
  startsWith (buffer.map (· &&& 0x7F)) (text.toList.map fun c => c.toNat.toUInt8)

def detectStrongMime (buffer : Bytes) : Option String :=
  if startsWith buffer [0x89, 0x50, 0x4E, 0x47, 0x0D, 0x0A, 0x1A, 0x0A] then some "image/png"
  else if startsWith buffer [0xFF, 0xD8, 0xFF] then some "image/jpeg"
  else if startsWithText buffer "GIF87a" ∨ startsWithText buffer "GIF89a" then some "image/gif"
  else if startsWithText buffer "RIFF" ∧ startsWithText (buffer.drop 8) "WEBP" then some "image/webp"
  else if startsWithText buffer "%PDF-" then some "application/pdf"
  else if startsWith buffer [0x50, 0x4B, 0x03, 0x04] ∨ startsWith buffer [0x50, 0x4B, 0x05, 0x06] then
    some "application/zip"
  else none

/-! ## Uploads -/

section

variable (toLowerCase : String → String)

/-- `split(';', 1)[0].trim().toLowerCase()` -/
def mimeEssence (declared : String) : String :=
  toLowerCase (String.ofList (trimmed (declared.toList.takeWhile (· ≠ ';'))))

/-- What follows the last dot. -/
def fileExtension (name : String) : String :=
  String.ofList ((toLowerCase name).toList.reverse.takeWhile (· ≠ '.')).reverse

/-- The allowlist, and the agreement of extension and type. -/
def agreedType (name contentType : String) (limits : Limits) : Bool :=
  decide (contentType ∈ limits.allowedMimeTypes.map toLowerCase) &&
    decide (extensionMime.lookup (fileExtension toLowerCase name) = some contentType)

def validateUploadMetadata (fileName declaredContentType : String) (size : Nat) (limits : Limits) :
    Option Validated :=
  if size > 9007199254740991 ∨ size = 0 ∨ size > limits.maxFileSizeBytes then none
  else
    let originalName := sanitizeOriginalFileName fileName
    let contentType := mimeEssence toLowerCase declaredContentType
    if contentType ≠ "" ∧ agreedType toLowerCase originalName contentType limits then
      some ⟨originalName, contentType, size⟩
    else none

variable (validateMagicBytes : Bool) (validatePracticalSignature : Bytes → String → Bool)

/-- The bytes are those of a file of the type. -/
def validContent (buffer : Bytes) (contentType : String) : Bool :=
  (match detectStrongMime buffer with
    | none => true
    | some detected => decide (detected = contentType) ||
        (decide (detected = "application/zip") && decide (contentType ∈ ooxmlMimes))) &&
    (!validateMagicBytes || validatePracticalSignature buffer contentType)

/-- The type of a buffer: the declared one, else the detected, else that of the extension. -/
def bufferType (buffer : Bytes) (declaredContentType : Option String) (extensionType : String) : String :=
  let declared := (declaredContentType.map (mimeEssence toLowerCase)).getD ""
  if declared ≠ "" then declared
  else
    match detectStrongMime buffer with
    | none => extensionType
    | some detected =>
        if detected = "application/zip" ∧ extensionType ∈ ooxmlMimes then extensionType else detected

def validateUploadBuffer (buffer : Bytes) (fileName declaredContentType : Option String)
    (limits : Limits) : Option Validated :=
  if buffer = [] ∨ buffer.length > limits.maxFileSizeBytes then none
  else
    let originalName := sanitizeOriginalFileName (fileName.getD "")
    match extensionMime.lookup (fileExtension toLowerCase originalName) with
    | none => none
    | some extensionType =>
        let contentType := bufferType toLowerCase buffer declaredContentType extensionType
        if agreedType toLowerCase originalName contentType limits ∧
            validContent validateMagicBytes validatePracticalSignature buffer contentType then
          some ⟨originalName, contentType, buffer.length⟩
        else none

end

/-! ## A name that was accepted is accepted again -/

/-- What is used of `toLowerCase`: lower-case ASCII stays, and so does white space at the end. -/
structure LowerCases (toLowerCase : String → String) : Prop where
  ascii : ∀ text : List Char, (∀ c ∈ text, c.toNat < 128 ∧ c.isUpper = false) →
    toLowerCase (String.ofList text) = String.ofList text
  blank : ∀ (text : List Char) (c : Char), isBlank c = true →
    toLowerCase (String.ofList (text ++ [c])) =
      String.ofList ((toLowerCase (String.ofList text)).toList ++ [c])

theorem mem_sliceUnits {count : Nat} {text : List Char} {c : Char} (inside : c ∈ sliceUnits count text) :
    c ∈ text ∨ c = '\uFFFD' := by
  induction text generalizing count with
  | nil => cases count <;> cases inside
  | cons d rest ih =>
      cases count with
      | zero => cases inside
      | succ count =>
          rw [sliceUnits] at inside
          split at inside
          · rcases List.mem_cons.mp inside with rfl | later
            · exact .inl List.mem_cons_self
            · rcases ih later with there | replaced
              · exact .inl (.tail _ there)
              · exact .inr replaced
          · exact .inr (List.mem_singleton.mp inside)
          · simp

/-- The length in code units. -/
def unitLength (text : List Char) : Nat := text.foldr (fun c length => codeUnits c + length) 0

theorem sliceUnits_length (count : Nat) (text : List Char) : unitLength (sliceUnits count text) ≤ count := by
  induction text generalizing count with
  | nil => cases count <;> simp [sliceUnits, unitLength]
  | cons d rest ih =>
      cases count with
      | zero => simp [sliceUnits, unitLength]
      | succ count =>
          rw [sliceUnits]
          split
          · have later := ih (count + 1 - codeUnits d)
            simp only [unitLength, List.foldr_cons] at later ⊢
            omega
          · have one : unitLength ['\uFFFD'] = 1 := by decide
            omega
          · simp

theorem sliceUnits_of_le {count : Nat} {text : List Char} (fits : unitLength text ≤ count) :
    sliceUnits count text = text := by
  induction text generalizing count with
  | nil => cases count <;> rfl
  | cons d rest ih =>
      have positive : 1 ≤ codeUnits d := by
        unfold codeUnits
        split <;> omega
      simp only [unitLength, List.foldr_cons] at fits
      cases count with
      | zero => omega
      | succ count =>
          rw [sliceUnits, if_pos (by omega), ih (by simp only [unitLength]; omega)]
          simp

theorem trimmed_of_ends {text : List Char} (front : ∀ c ∈ text.head?, isBlank c = false)
    (back : ∀ c ∈ text.getLast?, isBlank c = false) : trimmed text = text := by
  have first : text.dropWhile isBlank = text := by
    cases text with
    | nil => rfl
    | cons c rest => rw [List.dropWhile_cons, front c rfl, if_neg Bool.false_ne_true]
  have last : text.reverse.dropWhile isBlank = text.reverse := by
    cases shape : text.reverse with
    | nil => rfl
    | cons c rest =>
        have final : text.getLast? = some c := by
          rw [List.getLast?_eq_head?_reverse, shape]
          rfl
        rw [List.dropWhile_cons, back c final, if_neg Bool.false_ne_true]
  rw [trimmed, first, last, List.reverse_reverse]

theorem trimmed_begins (text : List Char) : trimmed text <+: text.dropWhile isBlank := by
  have suffix := List.dropWhile_suffix isBlank (l := (text.dropWhile isBlank).reverse)
  have reversed := List.reverse_prefix.mpr suffix
  rwa [List.reverse_reverse] at reversed

theorem trimmed_head {text : List Char} {c : Char} {rest : List Char} (shape : trimmed text = c :: rest) :
    isBlank c = false := by
  obtain ⟨after, whole⟩ := trimmed_begins text
  rw [shape] at whole
  have kept := List.head?_dropWhile_not isBlank text
  rw [← whole] at kept
  exact kept

theorem leafName_of_plain {text : List Char} (plain : ∀ c ∈ text, c ≠ '/' ∧ c ≠ '\\') :
    leafName text = text := by
  unfold leafName
  rw [List.takeWhile_eq_self_iff.mpr, List.reverse_reverse]
  intro c inside
  have both := plain c (List.mem_reverse.mp inside)
  simp [both.1, both.2]

/-- The name that the checks go on with. -/
def cleanedName (input : String) : List Char :=
  sliceUnits 1024 (trimmed ((leafName (if input = "" then "TEMP" else input).toList).filter isPrintable))

theorem sanitize_eq (input : String) : sanitizeOriginalFileName input =
    if cleanedName input = [] then "TEMP" else String.ofList (cleanedName input) := rfl

theorem mem_cleanedName {input : String} {c : Char} (inside : c ∈ cleanedName input) :
    isPrintable c = true ∧ c ≠ '/' ∧ c ≠ '\\' := by
  rcases mem_sliceUnits inside with there | rfl
  · have dropped := (trimmed_begins _).sublist.subset there
    have kept := (List.dropWhile_suffix isBlank).sublist.subset dropped
    obtain ⟨leaf, printable⟩ := List.mem_filter.mp kept
    have apart := List.mem_takeWhile_imp (List.mem_reverse.mp leaf)
    exact ⟨printable, by simpa using apart⟩
  · decide

theorem sliceUnits_head {count : Nat} {text : List Char} {c : Char} {rest : List Char}
    (shape : sliceUnits count text = c :: rest) : c = '\uFFFD' ∨ ∃ others, text = c :: others := by
  cases text with
  | nil => cases count <;> cases shape
  | cons d later =>
      cases count with
      | zero => cases shape
      | succ count =>
          rw [sliceUnits] at shape
          · split at shape
            · exact .inr ⟨later, by rw [(List.cons.inj shape).1]⟩
            · exact .inl (List.cons.inj shape).1.symm
          · simp

/-- A name that does not end in white space stays as it is. -/
theorem sanitize_sanitize {input : String}
    (ends : ∀ c ∈ (cleanedName input).getLast?, isBlank c = false) :
    sanitizeOriginalFileName (sanitizeOriginalFileName input) = sanitizeOriginalFileName input := by
  by_cases empty : cleanedName input = []
  · rw [sanitize_eq input, if_pos empty]
    decide +kernel
  · have same : cleanedName (String.ofList (cleanedName input)) = cleanedName input := by
      have nonempty : String.ofList (cleanedName input) ≠ "" := by
        intro wrong
        exact empty (by simpa using congrArg String.toList wrong)
      have fits : unitLength (cleanedName input) ≤ 1024 := sliceUnits_length 1024 _
      rw [cleanedName, if_neg nonempty, String.toList_ofList,
        leafName_of_plain fun c inside => (mem_cleanedName inside).2,
        List.filter_eq_self.mpr fun c inside => (mem_cleanedName inside).1, trimmed_of_ends ?_ ends,
        sliceUnits_of_le fits]
      intro c first
      cases shape : cleanedName input with
      | nil => exact absurd shape empty
      | cons d rest =>
          rw [shape] at first
          obtain rfl := Option.some.inj first
          rcases sliceUnits_head shape with rfl | ⟨others, start⟩
          · decide
          · exact trimmed_head start
    rw [sanitize_eq input, if_neg empty, sanitize_eq, same, if_neg empty]

/-- An extension without white space and a lower-case type without parameters. -/
def plainEntry (extension contentType : List Char) : Bool :=
  extension.all (fun c => !isBlank c) && contentType.all (fun c => c.toNat < 128 && !c.isUpper) &&
    trimmed (contentType.takeWhile (· ≠ ';')) == contentType

theorem extensionMime_plainEntry :
    extensionMime.all (fun entry => plainEntry entry.1.toList entry.2.toList) = true := by
  decide +kernel

theorem extensionMime_plain {entry : String × String} (inside : entry ∈ extensionMime) :
    (∀ c ∈ entry.1.toList, isBlank c = false) ∧
    (∀ c ∈ entry.2.toList, c.toNat < 128 ∧ c.isUpper = false) ∧
    trimmed (entry.2.toList.takeWhile (· ≠ ';')) = entry.2.toList := by
  have plain := List.all_eq_true.mp extensionMime_plainEntry entry inside
  simp only [plainEntry, Bool.and_eq_true, List.all_eq_true, Bool.not_eq_true', decide_eq_true_eq,
    beq_iff_eq] at plain
  exact ⟨plain.1.1, plain.1.2, plain.2⟩

theorem mem_of_lookup_extension {extension contentType : String}
    (found : extensionMime.lookup extension = some contentType) :
    (extension, contentType) ∈ extensionMime := by
  obtain ⟨before, after, shape, -⟩ := List.lookup_eq_some_iff.mp found
  rw [shape]
  simp

section

variable {toLowerCase : String → String}

/-- What was accepted is what was declared, with a type of the table. -/
theorem of_validateUploadMetadata {fileName declared : String} {size : Nat} {limits : Limits}
    {file : Validated}
    (accepted : validateUploadMetadata toLowerCase fileName declared size limits = some file) :
    file.size = size ∧ file.contentType = mimeEssence toLowerCase declared ∧
      ∃ extension, extensionMime.lookup extension = some file.contentType := by
  unfold validateUploadMetadata at accepted
  split at accepted
  · cases accepted
  · simp only [] at accepted
    split at accepted
    next agreed =>
      cases accepted
      exact ⟨rfl, rfl, _, of_decide_eq_true (Bool.and_eq_true_iff.mp agreed.2).2⟩
    · cases accepted

variable (lower : LowerCases toLowerCase)

include lower

/-- A type of the table is in the form in which types are compared. -/
theorem tabled_type {extension contentType : String}
    (found : extensionMime.lookup extension = some contentType) :
    toLowerCase contentType = contentType ∧ mimeEssence toLowerCase contentType = contentType := by
  obtain ⟨-, ascii, whole⟩ := extensionMime_plain (mem_of_lookup_extension found)
  have same := lower.ascii contentType.toList ascii
  rw [String.ofList_toList] at same
  refine ⟨same, ?_⟩
  rw [mimeEssence, whole, String.ofList_toList, same]

/-- A name with a known extension does not end in white space. -/
theorem cleanedName_ends {input contentType : String}
    (found : extensionMime.lookup
      (fileExtension toLowerCase (sanitizeOriginalFileName input)) = some contentType) :
    ∀ c ∈ (cleanedName input).getLast?, isBlank c = false := by
  intro c last
  by_contra blank
  have blank : isBlank c = true := by simpa using blank
  obtain ⟨front, shape⟩ : ∃ front, cleanedName input = front ++ [c] := by
    obtain ⟨nonempty, final⟩ := List.mem_getLast?_eq_getLast last
    exact ⟨(cleanedName input).dropLast, by rw [final, List.dropLast_append_getLast]⟩
  have dot : c ≠ '.' := by
    rintro rfl
    revert blank
    decide
  have extension : fileExtension toLowerCase (sanitizeOriginalFileName input) = String.ofList
      ((((toLowerCase (String.ofList front)).toList.reverse.takeWhile (· ≠ '.')).reverse) ++ [c]) := by
    rw [sanitize_eq, if_neg (by rw [shape]; simp), shape, fileExtension, lower.blank front c blank,
      String.toList_ofList, List.reverse_append, List.reverse_singleton, List.singleton_append,
      List.takeWhile_cons, if_pos (by simpa using dot), List.reverse_cons]
  obtain ⟨plain, -⟩ := extensionMime_plain (mem_of_lookup_extension found)
  have wrong := plain c (by rw [extension]; simp)
  rw [blank] at wrong
  cases wrong

/-- Bytes of the declared size and type are accepted under the name that was accepted. -/
theorem validateUploadBuffer_accepts {fileName declared : String} {size : Nat} {limits : Limits}
    {file : Validated} (accepted : validateUploadMetadata toLowerCase fileName declared size limits = some file)
    {validateMagicBytes : Bool} {validatePracticalSignature : Bytes → String → Bool} {buffer : Bytes}
    (length : buffer.length = size)
    (valid : validContent validateMagicBytes validatePracticalSignature buffer file.contentType = true) :
    validateUploadBuffer toLowerCase validateMagicBytes validatePracticalSignature buffer
      (some file.originalName) (some file.contentType) ⟨limits.allowedMimeTypes, size⟩ = some file := by
  unfold validateUploadMetadata at accepted
  split at accepted
  · cases accepted
  next bounded =>
    simp only [] at accepted
    split at accepted
    next agreed =>
      cases accepted
      obtain ⟨nonempty, agreed⟩ := agreed
      obtain ⟨-, found⟩ := Bool.and_eq_true_iff.mp agreed
      have found := of_decide_eq_true found
      have again := sanitize_sanitize (cleanedName_ends lower found)
      have type : bufferType toLowerCase buffer (some (mimeEssence toLowerCase declared))
          (mimeEssence toLowerCase declared) = mimeEssence toLowerCase declared := by
        simp only [bufferType, Option.map_some, Option.getD_some, (tabled_type lower found).2]
        rw [if_pos nonempty]
      have present : buffer ≠ [] := by
        rintro rfl
        rw [List.length_nil] at length
        omega
      unfold validateUploadBuffer
      rw [if_neg (by
        rintro (empty | large)
        · exact present empty
        · exact absurd large (by rw [length]; exact Nat.lt_irrefl _))]
      simp only [Option.getD_some, again, found, type]
      rw [if_pos ⟨agreed, valid⟩, length]
    · cases accepted

end

end SdcoreNest.UploadedFile
