/-
# UploadedFile.StorageKeys -- the keys of stored objects, and where they lie on a disk

`buildStorageKeyForId` puts a key together from the folder, a namespace, the tenant, the id and the
name; `SafeLocalPathResolver` splits it again below its root.  The folder was normalized when the
configuration was read, and is normalized once more with each key: a part whose slug is `.` or `..`
passes the first time only.
-/
import SdcoreNest.UploadedFile.Settings
import SdcoreNest.UploadedFile.Slugs
import SdcoreNest.UploadedFile.Validators

namespace SdcoreNest.UploadedFile.FileNames

open SdcoreNest.Theory SdcoreNest.Theory.JsString

set_option autoImplicit false

/-! ## Keys -/

def namespaceText : Namespace → JsString
  | .tenant => js "tenant"
  | .publicFile => js "public"
  | .privateFile => js "private"
  | .temporary => js "temporary"
  | .pending => js "pending"

structure GeneratedStorageKey where
  id : JsString
  key : JsString
  originalName : JsString
deriving DecidableEq

def safeName (platform : Platform) (originalName : JsString) : JsString :=
  let name := (platform.slugify originalName).take 240
  if name = [] then js "file" else name

/-- `Buffer.from(tenantId, 'utf8').toString('base64url')` -/
def safeTenant (tenantId : JsString) : JsString := base64url (utf8Bytes tenantId)

def buildStorageKeyForId (platform : Platform) (folder tenantId id : JsString)
    (fileName : Option JsString) (space : Namespace) : Except String GeneratedStorageKey := do
  let normalizedPrefix ← normalizeStoragePrefix platform (some folder)
  let originalName := sanitizeOriginalFileName fileName
  if safeTenant tenantId = [] then .error "Missing tenant storage namespace"
  else
    return {
      id := id
      key := joinWith [0x2F] [normalizedPrefix, namespaceText space, safeTenant tenantId, id,
        safeName platform originalName]
      originalName := originalName }

/-! ## Local paths -/

def slashed (s : JsString) : JsString := s.map fun u => if u = 0x5C then 0x2F else u

def isPosixAbsolute (key : JsString) : Bool := key.head? = some 0x2F

/-- A slash of either kind in front, or behind a drive letter. -/
def isWin32Absolute (key : JsString) : Bool :=
  match slashed key with
  | 0x2F :: _ => true
  | drive :: 0x3A :: 0x2F :: _ => isLetter drive
  | _ => false

/-- `/%(?:2e|2f|5c)/i` -/
def hasEscape (key : JsString) : Bool :=
  key.tails.any fun rest =>
    [js "%2e", js "%2f", js "%5c"].any fun escape => escape.isPrefixOf (rest.map lowerAscii)

/-- A part that leads nowhere or up. -/
def isLoose (part : JsString) : Bool := part = [] || part = js "." || part = js ".."

def segments (key : JsString) : Except String (List JsString) :=
  if key = [] || key.contains 0 || isPosixAbsolute key || isWin32Absolute key || hasEscape key then
    .error "Invalid local storage key"
  else
    let parts := splitOn 0x2F (slashed key)
    if parts.any isLoose then .error "Invalid local storage key" else .ok parts

/-- `resolve(root, ...parts)` of an absolute root, as the names on the way. -/
def resolveFrom (root parts : List JsString) : List JsString :=
  parts.foldl (fun path part =>
    if part = [] || part = js "." then path
    else if part = js ".." then path.dropLast
    else path ++ [part]) root

/-- `relative(root, target)` -/
def relative : List JsString → List JsString → List JsString
  | first :: root, second :: target =>
      if first = second then relative root target
      else (first :: root).map (fun _ => js "..") ++ second :: target
  | root, target => root.map (fun _ => js "..") ++ target

/-- The lexical part of `resolveForWrite` and `resolveExisting`: `segments`, `resolve` and
`assertContained`. -/
def resolveLocal (root : List JsString) (key : JsString) : Except String (List JsString) := do
  let parts ← segments key
  let target := resolveFrom root parts
  if (relative root target).head? = some (js "..") then
    .error "Resolved path is outside the local storage root"
  else return target

/-- No segment is loose, and the key is resolved strictly below the root. -/
structure SafeKey (root : List JsString) (key : JsString) : Prop where
  segments : ∀ part ∈ splitOn 0x2F key, isLoose part = false
  below : ∃ parts, parts ≠ [] ∧ resolveLocal root key = .ok (root ++ parts)

/-! ## Parts of kept units -/

structure KeptPart (part : JsString) : Prop where
  nonempty : part ≠ []
  kept : ∀ u ∈ part, isKept u = true

/-- A segment that every step leaves as it is. -/
structure PlainPart (part : JsString) : Prop extends KeptPart part where
  tight : isLoose part = false

theorem isKept_apart {u : UInt16} (kept : isKept u = true) :
    u ≠ 0 ∧ u ≠ 0x2F ∧ u ≠ 0x5C ∧ u ≠ 0x25 ∧ u ≠ 0x3A := by
  simp only [isKept, isLetter, isDigit, Bool.or_eq_true, Bool.and_eq_true, decide_eq_true_eq,
    beq_iff_eq, ← UInt16.toNat_inj, UInt16.reduceToNat] at kept
  simp only [ne_eq, ← UInt16.toNat_inj, UInt16.reduceToNat]
  omega

theorem plainPart_of_kept {part : JsString} (tight : isLoose part = false)
    (kept : ∀ u ∈ part, isKept u = true) : PlainPart part := by
  refine ⟨⟨?_, kept⟩, tight⟩
  rintro rfl
  cases tight

section

variable {parts : List JsString}

/-- A joined key has the units of its parts and slashes. -/
theorem joined_units (parted : ∀ part ∈ parts, KeptPart part) :
    ∀ u ∈ joinWith [0x2F] parts, u = 0x2F ∨ isKept u = true := by
  intro u inside
  rcases of_mem_joinWith inside with same | ⟨part, listed, inside⟩
  · exact .inl same
  · exact .inr ((parted part listed).kept u inside)

theorem splitOn_joined (nonempty : parts ≠ []) (parted : ∀ part ∈ parts, KeptPart part) :
    splitOn 0x2F (joinWith [0x2F] parts) = parts :=
  splitOn_joinWith nonempty fun part listed inside =>
    (isKept_apart ((parted part listed).kept _ inside)).2.1 rfl

theorem slashed_joined (parted : ∀ part ∈ parts, KeptPart part) :
    slashed (joinWith [0x2F] parts) = joinWith [0x2F] parts := by
  refine (List.map_congr_left fun u inside => ?_).trans (List.map_id _)
  rcases joined_units parted u inside with rfl | kept
  · rfl
  · exact if_neg (isKept_apart kept).2.2.1

/-- The first unit of a joined key is kept. -/
theorem joined_head (nonempty : parts ≠ []) (parted : ∀ part ∈ parts, KeptPart part) :
    ∃ u rest, joinWith [0x2F] parts = u :: rest ∧ isKept u = true := by
  obtain ⟨part, others, rfl⟩ := List.exists_cons_of_ne_nil nonempty
  obtain ⟨u, more, shape⟩ := List.exists_cons_of_ne_nil (parted part List.mem_cons_self).nonempty
  have kept : isKept u = true := (parted part List.mem_cons_self).kept u (shape ▸ List.mem_cons_self)
  by_cases alone : others = []
  · exact ⟨u, more, by rw [alone, joinWith_singleton, shape], kept⟩
  · exact ⟨u, _, by rw [joinWith_cons _ _ alone, shape, List.cons_append], kept⟩

/-- So is the last. -/
theorem joined_last (nonempty : parts ≠ []) (parted : ∀ part ∈ parts, KeptPart part) :
    ∃ rest u, joinWith [0x2F] parts = rest ++ [u] ∧ isKept u = true := by
  induction parts with
  | nil => exact absurd rfl nonempty
  | cons part others ih =>
      by_cases alone : others = []
      · obtain ⟨rest, u, shape⟩ :=
          (List.eq_nil_or_concat' part).resolve_left (parted part List.mem_cons_self).nonempty
        refine ⟨rest, u, by rw [alone, joinWith_singleton, shape], ?_⟩
        exact (parted part List.mem_cons_self).kept u (shape ▸ List.mem_append_right _ List.mem_cons_self)
      · obtain ⟨rest, u, shape, kept⟩ := ih alone fun other listed => parted other (.tail _ listed)
        refine ⟨part ++ 0x2F :: rest, u, ?_, kept⟩
        rw [joinWith_cons _ _ alone, shape, List.append_assoc, List.cons_append]

theorem segments_joined (nonempty : parts ≠ []) (plain : ∀ part ∈ parts, PlainPart part) :
    segments (joinWith [0x2F] parts) = .ok parts := by
  have parted : ∀ part ∈ parts, KeptPart part := fun part listed => (plain part listed).toKeptPart
  have units := joined_units parted
  obtain ⟨u, rest, shape, kept⟩ := joined_head nonempty parted
  have apart := isKept_apart kept
  have zero : (joinWith [0x2F] parts).contains 0 = false := by
    rw [← Bool.not_eq_true, List.contains_iff_mem]
    intro inside
    rcases units 0 inside with same | kept
    · cases same
    · exact (isKept_apart kept).1 rfl
  have posix : isPosixAbsolute (joinWith [0x2F] parts) = false := by
    rw [isPosixAbsolute, shape]
    exact decide_eq_false fun same => apart.2.1 (Option.some.inj same)
  have win32 : isWin32Absolute (joinWith [0x2F] parts) = false := by
    rw [isWin32Absolute, slashed_joined parted]
    split
    next rest' same =>
      rw [shape] at same
      exact absurd (List.cons.inj same).1 apart.2.1
    next drive rest' same =>
      have colon : (0x3A : UInt16) ∈ joinWith [0x2F] parts := by
        rw [same]
        exact .tail _ List.mem_cons_self
      rcases units _ colon with other | kept
      · cases other
      · exact absurd rfl (isKept_apart kept).2.2.2.2
    next => rfl
  have escape : hasEscape (joinWith [0x2F] parts) = false := by
    rw [hasEscape, List.any_eq_false]
    intro rest' tail found
    have percent : ∃ v ∈ rest', lowerAscii v = 0x25 := by
      obtain ⟨code, listed, front⟩ := List.any_eq_true.mp found
      have starts : code.head? = some 0x25 := by
        simp only [List.mem_cons, List.not_mem_nil, or_false] at listed
        rcases listed with rfl | rfl | rfl <;> decide
      obtain ⟨more, rfl⟩ := List.head?_eq_some_iff.mp starts
      obtain ⟨back, same⟩ := List.isPrefixOf_iff_prefix.mp front
      have inside : (0x25 : UInt16) ∈ rest'.map lowerAscii := by
        rw [← same]
        exact List.mem_cons_self
      exact List.mem_map.mp inside
    obtain ⟨v, inside, lowered⟩ := percent
    rcases units v (((List.mem_tails _ _).mp tail).subset inside) with rfl | kept
    · revert lowered
      decide
    · have slug := lowerAscii_kept kept
      rw [lowered] at slug
      revert slug
      decide
  have tight : parts.any isLoose = false := by
    rw [List.any_eq_false]
    exact fun part listed => Bool.eq_false_iff.mp (plain part listed).tight
  have some' : joinWith [0x2F] parts ≠ [] := by
    rw [shape]
    exact List.cons_ne_nil _ _
  rw [segments, zero, posix, win32, escape, decide_eq_false some']
  simp only [Bool.or_self, Bool.false_eq_true, if_false, slashed_joined parted,
    splitOn_joined nonempty parted, tight]

theorem resolveFrom_plain (plain : ∀ part ∈ parts, PlainPart part) (root : List JsString) :
    resolveFrom root parts = root ++ parts := by
  induction parts generalizing root with
  | nil => exact (List.append_nil root).symm
  | cons part rest ih =>
      have tight := (plain part List.mem_cons_self).tight
      simp only [isLoose, Bool.or_eq_false_iff] at tight
      obtain ⟨⟨empty, dot⟩, dots⟩ := tight
      have later := ih (fun other listed => plain other (.tail _ listed)) (root ++ [part])
      rw [resolveFrom, List.foldl_cons, empty, dot, if_neg (by simp), if_neg (of_decide_eq_false dots)]
      rw [resolveFrom] at later
      rw [later, List.append_assoc]
      rfl

theorem relative_append (root parts : List JsString) : relative root (root ++ parts) = parts := by
  induction root with
  | nil => rw [List.nil_append, relative.eq_def]; rfl
  | cons first root ih => rw [List.cons_append, relative, if_pos rfl, ih]

/-- A key of plain parts is safe. -/
theorem safeKey_joined (nonempty : parts ≠ []) (plain : ∀ part ∈ parts, PlainPart part)
    (root : List JsString) : SafeKey root (joinWith [0x2F] parts) := by
  refine ⟨fun part listed => ?_, parts, nonempty, ?_⟩
  · rw [splitOn_joined nonempty fun part listed => (plain part listed).toKeptPart] at listed
    exact (plain part listed).tight
  · obtain ⟨part, others, rfl⟩ := List.exists_cons_of_ne_nil nonempty
    have inside : ¬(relative root (root ++ part :: others)).head? = some (js "..") := by
      rw [relative_append, List.head?_cons]
      intro same
      have tight := (plain part List.mem_cons_self).tight
      rw [Option.some.inj same] at tight
      revert tight
      decide
    rw [resolveLocal, segments_joined nonempty plain]
    change (if (relative root (resolveFrom root (part :: others))).head? = some (js "..") then _ else _) = _
    rw [resolveFrom_plain plain, if_neg inside]
    rfl

end

/-! ## The folder -/

/-- The parts of a folder setting before they are normalized. -/
def folderParts (input : Option JsString) : List JsString :=
  splitOn 0x2F (stripTrailingSlashes ((slashed ((input.bind nonEmpty).getD (js "core"))).dropWhile (· = 0x2F)))

/-- A folder that was accepted has a slug for each part. -/
theorem of_normalizeStoragePrefix_ok {platform : Platform} {input : Option JsString} {folder : JsString}
    (accepted : normalizeStoragePrefix platform input = .ok folder) :
    folder = joinWith [0x2F] ((folderParts input).map platform.slugify) ∧
      ∀ part ∈ folderParts input, platform.slugify part ≠ [] := by
  unfold normalizeStoragePrefix at accepted
  simp only at accepted
  split at accepted
  · cases accepted
  · split at accepted
    · cases accepted
    next named =>
      refine ⟨(Except.ok.inj accepted).symm, fun part listed empty => named ?_⟩
      exact List.any_eq_true.mpr ⟨[], List.mem_map.mpr ⟨part, listed, empty⟩, by decide⟩

section

variable {unicode : Unicode} {platform : Platform} (sluggish : platform.slugify = slugify unicode)
  (lawful : unicode.Lawful) {slugs : List JsString}

/-- A part that is a slug. -/
def SlugPart (part : JsString) : Prop := IsSlug part ∧ part ≠ []

theorem SlugPart.kept {part : JsString} (slug : SlugPart part) : KeptPart part := by
  refine ⟨slug.2, fun u inside => ?_⟩
  have unit := slug.1.units u inside
  rw [isSlugUnit, Bool.and_eq_true] at unit
  exact unit.1

/-- Joined slugs have no other slashes than those between them. -/
theorem stripped_slugs (nonempty : slugs ≠ []) (parts : ∀ part ∈ slugs, SlugPart part) :
    stripTrailingSlashes ((slashed ((((some (joinWith [0x2F] slugs)).bind nonEmpty)).getD (js "core"))).dropWhile
      (· = 0x2F)) = joinWith [0x2F] slugs := by
  have parted : ∀ part ∈ slugs, KeptPart part := fun part listed => (parts part listed).kept
  obtain ⟨u, rest, head, keptHead⟩ := joined_head nonempty parted
  obtain ⟨rest', v, last, keptLast⟩ := joined_last nonempty parted
  have some' : joinWith [0x2F] slugs ≠ [] := by
    rw [head]
    exact List.cons_ne_nil _ _
  have front : (joinWith [0x2F] slugs).dropWhile (· = 0x2F) = joinWith [0x2F] slugs := by
    rw [head, List.dropWhile_cons, if_neg (by simpa using (isKept_apart keptHead).2.1)]
  have back : stripTrailingSlashes (joinWith [0x2F] slugs) = joinWith [0x2F] slugs := by
    rw [stripTrailingSlashes, last, List.reverse_append, List.reverse_singleton, List.singleton_append,
      List.dropWhile_cons, if_neg (by simpa using (isKept_apart keptLast).2.1), List.reverse_cons,
      List.reverse_reverse]
  rw [Option.bind_some, nonEmpty, if_neg some', Option.getD_some, slashed_joined parted, front, back]

include sluggish lawful

/-- A normalized folder is normalized once more to itself, or refused for a loose part. -/
theorem normalizeStoragePrefix_slugs (nonempty : slugs ≠ []) (parts : ∀ part ∈ slugs, SlugPart part) :
    normalizeStoragePrefix platform (some (joinWith [0x2F] slugs)) =
      if slugs.any isLoose then .error "Invalid storage key prefix" else .ok (joinWith [0x2F] slugs) := by
  have parted : ∀ part ∈ slugs, KeptPart part := fun part listed => (parts part listed).kept
  obtain ⟨u, rest, head, -⟩ := joined_head nonempty parted
  have some' : joinWith [0x2F] slugs ≠ [] := by
    rw [head]
    exact List.cons_ne_nil _ _
  have same : slugs.map platform.slugify = slugs := by
    rw [sluggish]
    exact (List.map_congr_left fun part listed => (parts part listed).1.slugify (parts part listed).2 lawful).trans
      (List.map_id _)
  have loose : (slugs.any fun part => part = [] || part = js "." || part = js ".." || part.contains 0) =
      slugs.any isLoose := by
    have each : ∀ part ∈ slugs, (part = [] || part = js "." || part = js ".." || part.contains 0) =
        isLoose part := by
      intro part listed
      have zero : part.contains 0 = false := by
        rw [← Bool.not_eq_true, List.contains_iff_mem]
        exact fun inside => (isKept_apart ((parted part listed).kept 0 inside)).1 rfl
      rw [zero, Bool.or_false, isLoose]
    rw [Bool.eq_iff_iff, List.any_eq_true, List.any_eq_true]
    constructor
    · rintro ⟨part, listed, found⟩
      exact ⟨part, listed, each part listed ▸ found⟩
    · rintro ⟨part, listed, found⟩
      exact ⟨part, listed, (each part listed).symm ▸ found⟩
  have named : (slugs.any fun part => decide (part = [])) = false := by
    rw [List.any_eq_false]
    exact fun part listed => by simpa using (parts part listed).2
  have value := stripped_slugs nonempty parts
  unfold slashed at value
  unfold normalizeStoragePrefix
  simp only [value, splitOn_joined nonempty parted, same, loose, named, some', false_or, Bool.false_eq_true,
    if_false]

end

/-! ## The other parts -/

/-- The texts of random ids: hexadecimal digits in groups of 8, 4, 4, 4 and 12. -/
structure UuidText where
  text : JsString
  groups : (splitOn 0x2D text).map List.length = [8, 4, 4, 4, 12]
  digits : ∀ u ∈ text, (hexValue u).isSome = true ∨ u = 0x2D

/-- What is used of `toLowerCase` besides: a small letter comes from a letter, but for `i` and `k`. -/
def LowersLetters (toLowerCase : JsString → JsString) : Prop :=
  ∀ (text : JsString) (u : UInt16), u ∈ toLowerCase text → 0x61 ≤ u.toNat → u.toNat ≤ 0x7A →
    u ≠ 0x69 → u ≠ 0x6B → ∃ v ∈ text, lowerAscii v = u

/-- One of the validators of uploads accepts the name. -/
def AcceptedName (toLowerCase : JsString → JsString) (name : JsString) : Prop :=
  (∃ declared size allowed maxBytes file,
    validateUploadMetadata toLowerCase name declared size allowed maxBytes = some file) ∨
  ∃ (validatePracticalSignature : Bytes → JsString → Bool) (buffer : Buffer) (declared : Option JsString)
    (allowed : List JsString) (validateSignature : Bool) (maxBytes : JsNumber) (file : ValidatedUpload),
    validateUploadBuffer toLowerCase validatePracticalSignature buffer (some name) declared allowed
      validateSignature maxBytes = some file

theorem namespaceText_plain (space : Namespace) : PlainPart (namespaceText space) := by
  have kept : (namespaceText space).all isKept = true := by cases space <;> decide
  exact plainPart_of_kept (by cases space <;> decide) (List.all_eq_true.mp kept)

theorem namespaceText_injective : Function.Injective namespaceText := by
  intro space other same
  cases space <;> cases other <;> first | rfl | exact absurd same (by decide)

theorem UuidText.plain (id : UuidText) : PlainPart id.text := by
  refine plainPart_of_kept ?_ fun u inside => ?_
  · have long {text : JsString} (same : id.text = text)
        (short : (splitOn 0x2D text).map List.length ≠ [8, 4, 4, 4, 12]) : False := by
      have groups := id.groups
      rw [same] at groups
      exact short groups
    simp only [isLoose, Bool.or_eq_false_iff, decide_eq_false_iff_not]
    exact ⟨⟨fun same => long same (by decide), fun same => long same (by decide)⟩,
      fun same => long same (by decide)⟩
  · rcases id.digits u inside with digit | rfl
    · unfold hexValue at digit
      simp only at digit
      simp only [isKept, isLetter, isDigit, Bool.or_eq_true, Bool.and_eq_true, decide_eq_true_eq]
      split_ifs at digit
      · exact .inl (.inl (.inl (.inr (by omega))))
      · exact .inl (.inl (.inl (.inl (by omega))))
      · exact .inl (.inl (.inl (.inl (by omega))))
      · cases digit
    · decide

theorem utf8Bytes_ne_nil {s : JsString} (nonempty : s ≠ []) : utf8Bytes s ≠ [] := by
  intro empty
  have text : toText s = [] := Text.bytes_injective empty
  have long := length_toWellFormed s
  rw [toWellFormed, text] at long
  exact nonempty (List.length_eq_zero_iff.mp long.symm)

theorem safeTenant_plain {tenantId : JsString} (nonempty : tenantId ≠ []) : PlainPart (safeTenant tenantId) := by
  have units : ∀ u ∈ safeTenant tenantId, isKept u = true ∧ u ≠ 0x2E := by
    intro u inside
    have unit := isBase64url_of_mem inside
    simp only [isBase64url, isDigit, Bool.or_eq_true, Bool.and_eq_true, decide_eq_true_eq,
      ← UInt16.toNat_inj, UInt16.reduceToNat] at unit
    simp only [isKept, isLetter, isDigit, Bool.or_eq_true, Bool.and_eq_true, decide_eq_true_eq,
      beq_iff_eq, ne_eq, ← UInt16.toNat_inj, UInt16.reduceToNat]
    omega
  refine plainPart_of_kept ?_ fun u inside => (units u inside).1
  have point {rest : JsString} (same : safeTenant tenantId = 0x2E :: rest) : False :=
    (units 0x2E (same ▸ List.mem_cons_self)).2 rfl
  have some' : safeTenant tenantId ≠ [] :=
    fun empty => utf8Bytes_ne_nil nonempty (base64url_eq_nil.mp empty)
  simp only [isLoose, Bool.or_eq_false_iff, decide_eq_false_iff_not]
  exact ⟨⟨some', point⟩, point⟩

/-- Codes share a text in keys exactly when they differ in lone surrogates only. -/
theorem safeTenant_eq_iff {first second : JsString} :
    safeTenant first = safeTenant second ↔ toWellFormed first = toWellFormed second := by
  constructor
  · intro same
    have texts : toText first = toText second := Text.bytes_injective (base64url_injective same)
    rw [toWellFormed, texts, toWellFormed]
  · intro same
    have texts := congrArg toText same
    rw [toWellFormed, toWellFormed, toText_units, toText_units] at texts
    rw [safeTenant, utf8Bytes, texts, safeTenant, utf8Bytes]

/-- Every extension of the table has a small letter other than `i` and `k`. -/
theorem extension_letters : (extensionMime.all fun entry => (js entry.1).any fun u =>
    0x61 ≤ u.toNat && u.toNat ≤ 0x7A && u != 0x69 && u != 0x6B) = true := by
  decide

/-- An accepted name has a letter. -/
theorem exists_letter {toLowerCase : JsString → JsString} (letters : LowersLetters toLowerCase)
    {name : JsString} (accepted : AcceptedName toLowerCase name) :
    ∃ v ∈ sanitizeOriginalFileName (some name), isLetter v = true := by
  obtain ⟨contentType, tabled⟩ : ∃ contentType,
      EXTENSION_MIME (fileExtension toLowerCase (sanitizeOriginalFileName (some name))) = some contentType := by
    rcases accepted with ⟨declared, size, allowed, most, file, accepted⟩ |
      ⟨signature, buffer, declared, allowed, signed, most, file, accepted⟩
    · simp only [validateUploadMetadata, Option.bind_eq_bind, Option.bind_eq_some_iff] at accepted
      obtain ⟨-, -, contentType, tabled, -⟩ := accepted
      exact ⟨contentType, tabled⟩
    · obtain ⟨fits, named⟩ := fits_of_validateUploadBuffer accepted
      rw [← named]
      exact ⟨_, fits.tabled⟩
  generalize sanitizeOriginalFileName (some name) = text at tabled
  obtain ⟨front, back, shape, -⟩ := List.lookup_eq_some_iff.mp tabled
  have listed : (fileExtension toLowerCase text, contentType) ∈
      extensionMime.map fun entry => (js entry.1, js entry.2) := by
    rw [shape]
    simp
  obtain ⟨entry, inside, same⟩ := List.mem_map.mp listed
  obtain ⟨u, held, small⟩ := List.any_eq_true.mp (List.all_eq_true.mp extension_letters entry inside)
  simp only [Bool.and_eq_true, decide_eq_true_eq, bne_iff_ne] at small
  obtain ⟨⟨⟨low, high⟩, notI⟩, notK⟩ := small
  have lowered : u ∈ toLowerCase text := by
    rw [(Prod.mk.inj same).1] at held
    obtain ⟨-, whole | ⟨before', whole⟩⟩ := afterLast_spec 0x2E (toLowerCase text)
    · rwa [fileExtension, ← whole] at held
    · rw [whole]
      exact List.mem_append_right _ (.tail _ held)
  obtain ⟨v, found, same⟩ := letters text u lowered low high notI notK
  refine ⟨v, found, ?_⟩
  rcases lowerAscii_cases v with plain | ⟨first, last, -⟩
  · rw [plain] at same
    simp only [isLetter, same, Bool.or_eq_true, Bool.and_eq_true, decide_eq_true_eq]
    exact .inr ⟨low, high⟩
  · simp only [isLetter, Bool.or_eq_true, Bool.and_eq_true, decide_eq_true_eq]
    exact .inl ⟨first, last⟩

theorem safeName_plain {unicode : Unicode} {platform : Platform} (sluggish : platform.slugify = slugify unicode)
    (lawful : unicode.Lawful) (letters : LowersLetters platform.toLowerCase) {name : JsString}
    (accepted : AcceptedName platform.toLowerCase name) :
    PlainPart (safeName platform (sanitizeOriginalFileName (some name))) := by
  obtain ⟨v, found, letter⟩ := exists_letter letters accepted
  have held := mem_slugify lawful found letter
  rw [← sluggish] at held
  have slug : IsSlug (platform.slugify (sanitizeOriginalFileName (some name))) := sluggish ▸ isSlug_slugify _ _
  unfold safeName
  simp only
  generalize platform.slugify (sanitizeOriginalFileName (some name)) = text at held slug
  -- a cut slug is long, and one that is not cut has the letter
  have tight : isLoose (text.take 240) = false := by
    have long : 240 ≤ text.length ∨ lowerAscii v ∈ text.take 240 := by
      rcases Nat.le_total text.length 240 with short | long
      · exact .inr ((List.take_of_length_le short).symm ▸ held)
      · exact .inl long
    have other {short : JsString} (small : short.length < 240) (outside : lowerAscii v ∉ short) :
        text.take 240 ≠ short := by
      intro same
      rcases long with long | inside
      · have length := congrArg List.length same
        rw [List.length_take] at length
        omega
      · exact outside (same ▸ inside)
    have point : lowerAscii v ≠ 0x2E := by
      intro same
      rcases lowerAscii_cases v with plain | ⟨first, last, lowered⟩
      · rw [plain] at same
        rw [same] at letter
        cases letter
      · rw [same] at lowered
        have dot : (0x2E : UInt16).toNat = 0x2E := rfl
        omega
    simp only [isLoose, Bool.or_eq_false_iff, decide_eq_false_iff_not]
    refine ⟨⟨other (by decide) List.not_mem_nil, other (by decide) fun inside => ?_⟩,
      other (by decide) fun inside => ?_⟩
    · exact point (List.mem_singleton.mp inside)
    · rcases List.mem_pair.mp inside with same | same
      · exact point same
      · exact point same
  have kept : ∀ u ∈ text.take 240, isKept u = true := by
    intro u inside
    have unit := slug.units u (List.mem_of_mem_take inside)
    rw [isSlugUnit, Bool.and_eq_true] at unit
    exact unit.1
  have plain := plainPart_of_kept tight kept
  rwa [if_neg plain.nonempty]

/-! ## Whole keys -/

section

variable {unicode : Unicode} {platform : Platform} (sluggish : platform.slugify = slugify unicode)
  (lawful : unicode.Lawful)

include sluggish lawful

/-- A key is made of the slugs of the folder and four other parts, unless a slug is loose. -/
theorem buildStorageKeyForId_eq {slugs : List JsString} (nonempty : slugs ≠ [])
    (parts : ∀ part ∈ slugs, SlugPart part) {tenantId : JsString} (tenant : tenantId ≠ []) (id : JsString)
    (fileName : Option JsString) (space : Namespace) :
    buildStorageKeyForId platform (joinWith [0x2F] slugs) tenantId id fileName space =
      if slugs.any isLoose then .error "Invalid storage key prefix"
      else .ok ⟨id, joinWith [0x2F] (slugs ++ [namespaceText space, safeTenant tenantId, id,
        safeName platform (sanitizeOriginalFileName fileName)]), sanitizeOriginalFileName fileName⟩ := by
  have some' : safeTenant tenantId ≠ [] := (safeTenant_plain tenant).nonempty
  rw [buildStorageKeyForId, normalizeStoragePrefix_slugs sluggish lawful nonempty parts]
  by_cases loose : slugs.any isLoose = true
  · rw [if_pos loose, if_pos loose]
    rfl
  · rw [if_neg loose, if_neg loose]
    simp only [bind, Except.bind, if_neg some', pure, Except.pure,
      joinWith_joinWith 0x2F nonempty (List.cons_ne_nil _ _)]

end

section

variable (platform : Platform) (root : List JsString) (folder : JsString)

/-- Every key that is built below a folder for one of two tenants is safe, and two keys tell
namespaces, tenants and ids apart; the folder stays what it is. -/
def KeysSafe (first second : JsString) : Prop :=
  normalizeStoragePrefix platform (some folder) = .ok folder ∧
    ∀ (id id' : UuidText) (name name' : JsString) (space space' : Namespace),
      AcceptedName platform.toLowerCase name → AcceptedName platform.toLowerCase name' →
      ∃ generated generated',
        buildStorageKeyForId platform folder first id.text (some name) space = .ok generated ∧
        buildStorageKeyForId platform folder second id'.text (some name') space' = .ok generated' ∧
        SafeKey root generated.key ∧ SafeKey root generated'.key ∧
        (generated.key = generated'.key → space = space' ∧ first = second ∧ id.text = id'.text)

end

/-- `a.pdf` is accepted wherever PDF is. -/
theorem acceptedName_pdf {toLowerCase : JsString → JsString} (lower : LowerCases toLowerCase) :
    AcceptedName toLowerCase (js "a.pdf") := by
  have name : toLowerCase (js "a.pdf") = js "a.pdf" :=
    lower.ascii _ fun u inside => by
      have small := List.all_eq_true.mp
        (by decide : (js "a.pdf").all (fun u => u.toNat < 128 && lowerAscii u == u) = true) u inside
      rwa [Bool.and_eq_true, decide_eq_true_eq, beq_iff_eq] at small
  have kept : sanitizeOriginalFileName (some (js "a.pdf")) = js "a.pdf" := by decide
  have tabled : EXTENSION_MIME (fileExtension toLowerCase (js "a.pdf")) = some (js "application/pdf") := by
    rw [fileExtension, name]
    decide
  have type := mimeEssence_tabled lower tabled
  have lowered : toLowerCase (js "application/pdf") = js "application/pdf" :=
    lower.ascii _ (EXTENSION_MIME_plain tabled).2.1
  have size : JsNumber.isSafeInteger (.finite 1) = true ∧ JsNumber.le (.finite 1) (.finite 0) = false ∧
      JsNumber.lt (.finite 1) (.finite 1) = false := by
    refine ⟨?_, ?_, ?_⟩ <;> norm_num [JsNumber.isSafeInteger, JsNumber.le, JsNumber.lt]
  refine .inl ⟨js "application/pdf", .finite 1, [js "application/pdf"], .finite 1,
    ⟨⟨js "application/pdf", js "a.pdf"⟩, .finite 1⟩, ?_⟩
  simp only [validateUploadMetadata, Option.bind_eq_bind, Option.bind_eq_some_iff, Option.guard_eq_some',
    Option.pure_def, kept, type]
  refine ⟨(), ⟨size.1, ?_, ?_⟩, js "application/pdf", tabled, (), ⟨by decide, ?_, rfl⟩, trivial⟩
  · rw [size.2.1]
    rfl
  · rw [size.2.2]
    rfl
  · rw [isAllowed, List.map_singleton, lowered]
    decide

/-- The folder is the normalized setting. -/
theorem normalizeUploadedFileConfig_folder {platform : Platform} {config : UploadedFileConfig}
    {settings : NormalizedUploadedFileConfig}
    (accepted : normalizeUploadedFileConfig platform config = .ok settings) :
    normalizeStoragePrefix platform config.folder = .ok settings.folder := by
  obtain ⟨⟨driver, bucket⟩, -, accepted⟩ := of_bind_ok accepted
  obtain ⟨⟨⟩, -, accepted⟩ := of_bind_ok accepted
  obtain ⟨visibility, -, accepted⟩ := of_bind_ok accepted
  obtain ⟨⟨⟩, -, accepted⟩ := of_bind_ok accepted
  obtain ⟨access, -, accepted⟩ := of_bind_ok accepted
  obtain ⟨limits, -, accepted⟩ := of_bind_ok accepted
  obtain ⟨folder, normalized, accepted⟩ := of_bind_ok accepted
  obtain ⟨pending, -, accepted⟩ := of_bind_ok accepted
  obtain ⟨temporary, -, accepted⟩ := of_bind_ok accepted
  obtain ⟨path, -, accepted⟩ := of_bind_ok accepted
  obtain rfl := Except.ok.inj accepted
  exact normalized

def sampleId : UuidText where
  text := js "00000000-0000-4000-8000-000000000000"
  groups := by decide
  digits u inside := by
    have unit := List.all_eq_true.mp (by decide : (js "00000000-0000-4000-8000-000000000000").all
      (fun u => (hexValue u).isSome || u == 0x2D) = true) u inside
    rwa [Bool.or_eq_true, beq_iff_eq] at unit

/-- Keys are safe and tell everything apart exactly when no part of the folder has a loose slug, and
two tenants do not differ in lone surrogates only. -/
theorem storageKeys_safe_iff {unicode : Unicode} {platform : Platform}
    (sluggish : platform.slugify = slugify unicode) (lawful : unicode.Lawful)
    (lower : LowerCases platform.toLowerCase) (letters : LowersLetters platform.toLowerCase)
    {config : UploadedFileConfig} {settings : NormalizedUploadedFileConfig}
    (accepted : normalizeUploadedFileConfig platform config = .ok settings) (root : List JsString)
    {first second : JsString} (firstTenant : first ≠ []) (secondTenant : second ≠ []) :
    KeysSafe platform root settings.folder first second ↔
      (∀ part ∈ folderParts config.folder, slugify unicode part ≠ js "." ∧ slugify unicode part ≠ js "..") ∧
        (toWellFormed first = toWellFormed second → first = second) := by
  obtain ⟨joined, named⟩ := of_normalizeStoragePrefix_ok (normalizeUploadedFileConfig_folder accepted)
  have nonempty : (folderParts config.folder).map platform.slugify ≠ [] :=
    fun empty => splitOn_ne_nil _ _ (List.map_eq_nil_iff.mp empty)
  have parts : ∀ slug ∈ (folderParts config.folder).map platform.slugify, SlugPart slug := by
    intro slug listed
    obtain ⟨part, held, rfl⟩ := List.mem_map.mp listed
    exact ⟨sluggish ▸ isSlug_slugify _ _, named part held⟩
  have tight : ((folderParts config.folder).map platform.slugify).any isLoose = false ↔
      ∀ part ∈ folderParts config.folder, slugify unicode part ≠ js "." ∧ slugify unicode part ≠ js ".." := by
    rw [List.any_eq_false, List.forall_mem_map]
    refine forall₂_congr fun part listed => ?_
    have some' := named part listed
    rw [← sluggish]
    simp only [isLoose, Bool.or_eq_true, decide_eq_true_eq, some', false_or, not_or, ne_eq]
  rw [joined, ← tight]
  generalize (folderParts config.folder).map platform.slugify = slugs at nonempty parts
  have again := normalizeStoragePrefix_slugs sluggish lawful nonempty parts
  have build {tenantId : JsString} (tenant : tenantId ≠ []) (id : JsString) (fileName : Option JsString)
      (space : Namespace) :=
    buildStorageKeyForId_eq sluggish lawful nonempty parts tenant id fileName space
  constructor
  · rintro ⟨stable, keys⟩
    have loose : slugs.any isLoose = false := by
      rw [again] at stable
      by_contra loose
      rw [Bool.not_eq_false] at loose
      rw [if_pos loose] at stable
      cases stable
    refine ⟨loose, fun same => ?_⟩
    have named := acceptedName_pdf lower
    obtain ⟨generated, generated', built, built', -, -, apart⟩ :=
      keys sampleId sampleId _ _ .tenant .tenant named named
    rw [build firstTenant, loose, if_neg Bool.false_ne_true] at built
    rw [build secondTenant, loose, if_neg Bool.false_ne_true] at built'
    cases built
    cases built'
    exact (apart (by rw [safeTenant_eq_iff.mpr same])).2.1
  · rintro ⟨loose, distinct⟩
    refine ⟨by rw [again, loose, if_neg Bool.false_ne_true], ?_⟩
    intro id id' name name' space space' accepted accepted'
    have all {tenantId : JsString} (tenant : tenantId ≠ []) (id : UuidText) {name : JsString}
        (accepted : AcceptedName platform.toLowerCase name) (space : Namespace) :
        ∀ part ∈ slugs ++ [namespaceText space, safeTenant tenantId, id.text,
          safeName platform (sanitizeOriginalFileName (some name))], PlainPart part := by
      intro part listed
      rcases List.mem_append.mp listed with listed | listed
      · exact ⟨(parts part listed).kept, Bool.eq_false_iff.mpr (List.any_eq_false.mp loose part listed)⟩
      · simp only [List.mem_cons, List.not_mem_nil, or_false] at listed
        rcases listed with rfl | rfl | rfl | rfl
        · exact namespaceText_plain space
        · exact safeTenant_plain tenant
        · exact id.plain
        · exact safeName_plain sluggish lawful letters accepted
    have whole := all firstTenant id accepted space
    have whole' := all secondTenant id' accepted' space'
    have long {rest : List JsString} : slugs ++ rest ≠ [] := List.append_ne_nil_of_left_ne_nil nonempty _
    refine ⟨_, _, by rw [build firstTenant, loose, if_neg Bool.false_ne_true],
      by rw [build secondTenant, loose, if_neg Bool.false_ne_true], safeKey_joined long whole root,
      safeKey_joined long whole' root, fun same => ?_⟩
    have split := congrArg (splitOn 0x2F) same
    rw [splitOn_joined long fun part listed => (whole part listed).toKeptPart,
      splitOn_joined long fun part listed => (whole' part listed).toKeptPart] at split
    have last := List.append_cancel_left split
    simp only [List.cons.injEq] at last
    exact ⟨namespaceText_injective last.1, distinct (safeTenant_eq_iff.mp last.2.1), last.2.2.1⟩

/-! ### A folder that is refused with its first file -/

/-- Text without accents. -/
def asciiUnicode : Unicode := ⟨id, fun character => character = [0x5E] || character = [0x60]⟩

theorem asciiUnicode_lawful : asciiUnicode.Lawful where
  ascii _ _ := rfl
  keeps _ _ inside _ := inside
  plain u kept := by
    simp only [asciiUnicode, Bool.or_eq_false_iff, decide_eq_false_iff_not, List.cons.injEq, and_true]
    constructor
    · rintro rfl
      cases kept
    · rintro rfl
      cases kept

def asciiPlatform : Platform := ⟨slugify asciiUnicode, List.map lowerAscii, id, js "upload"⟩

theorem storageKeys_of_files : ∃ settings,
    normalizeUploadedFileConfig asciiPlatform { folder := some (js "files") } = .ok settings ∧
      (KeysSafe asciiPlatform [js "upload"] settings.folder (js "t") (js "u") ↔
        (∀ part ∈ folderParts (some (js "files")),
          slugify asciiUnicode part ≠ js "." ∧ slugify asciiUnicode part ≠ js "..") ∧
        (toWellFormed (js "t") = toWellFormed (js "u") → js "t" = js "u")) := by
  have observed : (normalizeUploadedFileConfig asciiPlatform { folder := some (js "files") }).toOption.isSome =
      true := by decide +kernel
  have letters : LowersLetters asciiPlatform.toLowerCase :=
    fun _ _ inside _ _ _ _ => List.mem_map.mp inside
  cases accepted : normalizeUploadedFileConfig asciiPlatform { folder := some (js "files") } with
  | error reason =>
    rw [accepted] at observed
    cases observed
  | ok settings =>
    exact ⟨settings, rfl, storageKeys_safe_iff rfl asciiUnicode_lawful lowerCases_ascii letters accepted _
      (by decide) (by decide)⟩

/-- The folder `-.` is normalized to `.` and refused with each key, and two halves of pairs are one
tenant. -/
theorem folder_refused_later :
    ((normalizeUploadedFileConfig asciiPlatform { folder := some (js "-.") }).toOption.map (·.folder)) =
        some (js ".") ∧
      buildStorageKeyForId asciiPlatform (js ".") (js "t") sampleId.text (some (js "a.pdf")) .tenant =
        .error "Invalid storage key prefix" ∧
      ((normalizeUploadedFileConfig asciiPlatform {}).toOption.map (·.folder)) = some (js "core") ∧
      buildStorageKeyForId asciiPlatform (js "core") [0xD800] sampleId.text (some (js "a.pdf")) .tenant =
        buildStorageKeyForId asciiPlatform (js "core") [0xD801] sampleId.text (some (js "a.pdf")) .tenant := by
  decide +kernel

end SdcoreNest.UploadedFile.FileNames
