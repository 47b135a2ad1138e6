/-
# UploadedFile.OoxmlFormat -- what a container is

The format on the level of bytes: an end record, the central directory it points to, and the
local entries that the directory points to.  Names are the bytes they are stored as; the path
that they denote is ASCII or, with a flag, UTF-8.
-/
import Mathlib
import SdcoreNest.UploadedFile.OoxmlSecurity

namespace SdcoreNest.UploadedFile.Ooxml

open SdcoreNest.Theory.Binary

set_option autoImplicit false

/-! ## Names -/

/-- UTF-8 -/
def encode (path : List Char) : Bytes := path.flatMap String.utf8EncodeChar

/-- The stored bytes of a path. -/
structure Denotes (flags : Nat) (name : Bytes) (path : List Char) : Prop where
  encoded : encode path = name
  plain : flags &&& utf8NameFlag = 0 → ∀ c ∈ path, 0x20 ≤ c.toNat ∧ c.toNat ≤ 0x7e

/-- A relative path that stays below the directory it is taken in. -/
structure SafePath (path : List Char) : Prop where
  nul : '\x00' ∉ path
  backslash : '\\' ∉ path
  drive : hasDrivePrefix path = false
  parts : ∀ part ∈ segments path, part ≠ [] ∧ part ≠ ['.'] ∧ part ≠ ['.', '.']

/-- The path as the inspection sees it. -/
def seen (flags : Nat) (path : List Char) : List Char :=
  if flags &&& utf8NameFlag ≠ 0 then dropMark path else path

theorem encode_ascii {path : List Char} (plain : ∀ c ∈ path, c.toNat ≤ 0x7f) :
    encode path = path.map fun c => c.toNat.toUInt8 := by
  induction path with
  | nil => rfl
  | cons c rest ih =>
      have small := plain c List.mem_cons_self
      have single : String.utf8EncodeChar c = [c.toNat.toUInt8] := by
        simp only [String.utf8EncodeChar]
        rw [if_pos (show c.val.toNat ≤ 0x7f from small)]
        rfl
      have split : encode (c :: rest) = String.utf8EncodeChar c ++ encode rest := rfl
      rw [split, single, ih fun d inside => plain d (.tail _ inside)]
      rfl

theorem toByteArray_encode (text : String) : (encode text.toList).toByteArray = text.toByteArray := by
  have whole : (String.ofList text.toList).toByteArray = text.toList.utf8Encode := String.toByteArray_ofList
  rw [String.ofList_toList] at whole
  exact whole.symm

theorem toByteArray_injective {bytes bytes' : Bytes} (same : bytes.toByteArray = bytes'.toByteArray) :
    bytes = bytes' := by
  have lists := congrArg (fun array : ByteArray => array.data.toList) same
  simpa using lists

theorem fromUTF8?_eq_some {bytes : Bytes} {text : String} :
    String.fromUTF8? bytes.toByteArray = some text ↔ encode text.toList = bytes := by
  unfold String.fromUTF8?
  split
  next valid =>
    rw [Option.some.injEq, ← String.toByteArray_inj]
    constructor
    · intro same
      exact toByteArray_injective ((toByteArray_encode text).trans same.symm)
    · rintro rfl
      exact toByteArray_encode text
  next invalid =>
    refine iff_of_false (by simp) ?_
    rintro rfl
    refine invalid ?_
    rw [toByteArray_encode]
    exact text.isValidUTF8

theorem encode_injective {path path' : List Char} (same : encode path = encode path') : path = path' := by
  have first : String.fromUTF8? (encode path).toByteArray = some (String.ofList path) :=
    fromUTF8?_eq_some.mpr (by rw [String.toList_ofList])
  have second : String.fromUTF8? (encode path).toByteArray = some (String.ofList path') :=
    fromUTF8?_eq_some.mpr (by rw [String.toList_ofList, same])
  have texts := congrArg String.toList (Option.some.inj (first.symm.trans second))
  rwa [String.toList_ofList, String.toList_ofList] at texts

theorem toNat_ofNat_of_lt {n : Nat} (small : n < 128) : (Char.ofNat n).toNat = n := by
  have valid : n.isValidChar := .inl (by omega)
  unfold Char.ofNat
  rw [dif_pos valid]
  rfl

theorem nameText_eq_some {flags : Nat} {name : Bytes} {text : List Char} :
    nameText name flags = some text ↔ ∃ path, Denotes flags name path ∧ text = seen flags path := by
  unfold nameText seen
  by_cases flagged : flags &&& utf8NameFlag ≠ 0
  · simp only [if_pos flagged]
    constructor
    · intro read
      obtain ⟨whole, decoded, rfl⟩ := Option.map_eq_some_iff.mp read
      exact ⟨whole.toList, ⟨fromUTF8?_eq_some.mp decoded, fun plain => absurd plain flagged⟩, rfl⟩
    · rintro ⟨path, ⟨rfl, -⟩, rfl⟩
      have decoded : String.fromUTF8? (encode path).toByteArray = some (String.ofList path) :=
        fromUTF8?_eq_some.mpr (by rw [String.toList_ofList])
      unfold decodeUtf8
      rw [decoded, Option.map_some, String.toList_ofList]
  · simp only [if_neg flagged]
    have unflagged : flags &&& utf8NameFlag = 0 := by simpa using flagged
    constructor
    · intro read
      split at read
      · cases read
      next printable =>
        cases read
        have bounds : ∀ byte ∈ name, 0x20 ≤ byte.toNat ∧ byte.toNat ≤ 0x7e := by
          intro byte inside
          have checked : ¬(byte < 0x20 || byte > 0x7e) = true := fun bad =>
            printable (List.any_eq_true.mpr ⟨byte, inside, bad⟩)
          simp only [Bool.or_eq_true, decide_eq_true_eq, not_or, UInt8.lt_iff_toNat_lt, gt_iff_lt,
            UInt8.reduceToNat, not_lt] at checked
          exact checked
        have asChar : ∀ byte ∈ name, (Char.ofNat byte.toNat).toNat = byte.toNat := by
          intro byte inside
          exact toNat_ofNat_of_lt (by have := bounds byte inside; omega)
        refine ⟨_, ⟨?_, ?_⟩, rfl⟩
        · rw [encode_ascii, List.map_map]
          · refine (List.map_congr_left fun byte inside => ?_).trans (List.map_id _)
            simp [asChar byte inside]
          · intro c inside
            obtain ⟨byte, there, rfl⟩ := List.mem_map.mp inside
            rw [asChar byte there]
            have := bounds byte there
            omega
        · intro _ c inside
          obtain ⟨byte, there, rfl⟩ := List.mem_map.mp inside
          rw [asChar byte there]
          exact bounds byte there
    · rintro ⟨path, ⟨rfl, plain⟩, same⟩
      rw [same]
      have bounds := plain unflagged
      have ascii := encode_ascii fun c inside => Nat.le_succ_of_le (bounds c inside).2
      have back : ∀ c ∈ path, c.toNat.toUInt8.toNat = c.toNat := by
        intro c inside
        have := bounds c inside
        simp only [Nat.toUInt8_eq, UInt8.toNat_ofNat']
        omega
      rw [ascii, if_neg]
      · rw [List.map_map]
        refine congrArg some ((List.map_congr_left fun c inside => ?_).trans (List.map_id _))
        simp only [Function.comp_apply, back c inside, Char.ofNat_toNat, id]
      · intro bad
        obtain ⟨byte, inside, bad⟩ := List.any_eq_true.mp bad
        obtain ⟨c, there, rfl⟩ := List.mem_map.mp inside
        have := bounds c there
        simp only [Bool.or_eq_true, decide_eq_true_eq, UInt8.lt_iff_toNat_lt, gt_iff_lt,
          UInt8.reduceToNat, back c there] at bad
        omega

/-- A directory: what stands before the slash at the end. -/
theorem segments_directory (front : List Char) : segments (front ++ ['/']) = front.splitOn '/' := by
  unfold segments
  rw [if_pos (by simp), List.splitOn_append_cons_self, List.splitOn_nil, List.dropLast_concat]

theorem segments_file {name : List Char} (file : name.getLast? ≠ some '/') :
    segments name = name.splitOn '/' := if_neg file

theorem segments_ne_nil (name : List Char) : segments name ≠ [] := by
  by_cases directory : name.getLast? = some '/'
  · obtain ⟨front, rfl⟩ := List.getLast?_eq_some_iff.mp directory
    rw [segments_directory]
    exact List.splitOn_ne_nil _ _
  · rw [segments_file directory]
    exact List.splitOn_ne_nil _ _

/-- An absolute path begins with an empty segment. -/
theorem nil_mem_segments (rest : List Char) : [] ∈ segments ('/' :: rest) := by
  have first : ∀ text : List Char, [] ∈ ('/' :: text).splitOn '/' := by
    intro text
    rw [List.splitOn_cons_eq_if_modifyHead]
    simp
  by_cases directory : ('/' :: rest).getLast? = some '/'
  · obtain ⟨front, shape⟩ := List.getLast?_eq_some_iff.mp directory
    rw [shape, segments_directory]
    cases front with
    | nil => simp
    | cons c front =>
        obtain ⟨rfl, -⟩ := List.cons.inj shape
        exact first front
  · rw [segments_file directory]
    exact first rest

theorem intercalate_segments (name : List Char) :
    ['/'].intercalate (segments name) ++ (if name.getLast? = some '/' then ['/'] else []) = name := by
  by_cases directory : name.getLast? = some '/'
  · rw [if_pos directory]
    obtain ⟨front, rfl⟩ := List.getLast?_eq_some_iff.mp directory
    rw [segments_directory, List.intercalate_splitOn]
  · rw [if_neg directory, segments_file directory, List.intercalate_splitOn, List.append_nil]

theorem canonicalEntryName_eq_some {name text : List Char} :
    canonicalEntryName name = some text ↔
      text = name ∧ ∀ part ∈ segments name, part ≠ [] ∧ part ≠ ['.'] ∧ part ≠ ['.', '.'] := by
  unfold canonicalEntryName
  rw [intercalate_segments]
  constructor
  · intro read
    split at read
    · cases read
    next clean =>
      cases read
      refine ⟨rfl, fun part inside => ?_⟩
      have fine : ¬(segments name).any (fun part => part = [] || part = ['.'] || part = ['.', '.']) =
          true := fun bad => clean (.inr bad)
      by_contra bad
      refine fine (List.any_eq_true.mpr ⟨part, inside, ?_⟩)
      simp only [Bool.or_eq_true, decide_eq_true_eq]
      tauto
  · rintro ⟨rfl, fine⟩
    rw [if_neg]
    rintro (empty | bad)
    · exact segments_ne_nil _ empty
    · obtain ⟨part, inside, bad⟩ := List.any_eq_true.mp bad
      have := fine part inside
      simp only [Bool.or_eq_true, decide_eq_true_eq] at bad
      tauto

/-- The name of an entry, as the inspection compares it. -/
def entryName (name : Bytes) (flags : Nat) : Option (List Char) :=
  (decodeEntryName name flags).bind canonicalEntryName

theorem entryName_eq_some {flags : Nat} {name : Bytes} {text : List Char} :
    entryName name flags = some text ↔
      ∃ path, Denotes flags name path ∧ text = seen flags path ∧ SafePath text := by
  have emptyUnsafe : ¬SafePath [] := fun safe => (safe.parts [] (by decide)).1 rfl
  unfold entryName decodeEntryName
  constructor
  · intro read
    obtain ⟨decoded, inner, canonical⟩ := Option.bind_eq_some_iff.mp read
    obtain ⟨rfl, parts⟩ := canonicalEntryName_eq_some.mp canonical
    split at inner
    · cases inner
    obtain ⟨raw, given, checked⟩ := Option.bind_eq_some_iff.mp inner
    split at checked
    · cases checked
    next clean =>
      cases checked
      obtain ⟨path, denotes, same⟩ := nameText_eq_some.mp given
      simp only [not_or] at clean
      exact ⟨path, denotes, same, clean.1, clean.2.1, by simpa using clean.2.2.2, parts⟩
  · rintro ⟨path, denotes, same, safe⟩
    have given : nameText name flags = some text := nameText_eq_some.mpr ⟨path, denotes, same⟩
    have present : name ≠ [] := by
      rintro rfl
      have nothing : path = [] := encode_injective denotes.encoded
      subst nothing
      rw [same] at safe
      exact emptyUnsafe (by simpa [seen, dropMark] using safe)
    have relative : text.head? ≠ some '/' := by
      intro absolute
      obtain ⟨rest, rfl⟩ := List.head?_eq_some_iff.mp absolute
      exact (safe.parts [] (nil_mem_segments rest)).1 rfl
    rw [if_neg present, given, Option.bind_some, if_neg, Option.bind_some]
    · exact canonicalEntryName_eq_some.mpr ⟨rfl, safe.parts⟩
    · simp [safe.nul, safe.backslash, safe.drive, relative]

theorem segments_cons {c : Char} (other : c ≠ '/') (rest : List Char) :
    segments (c :: rest) = (segments rest).modifyHead (c :: ·) := by
  have split : ∀ text : List Char, (c :: text).splitOn '/' = (text.splitOn '/').modifyHead (c :: ·) := by
    intro text
    rw [List.splitOn_cons_eq_if_modifyHead, if_neg (by simpa using other)]
  by_cases directory : rest.getLast? = some '/'
  · obtain ⟨front, rfl⟩ := List.getLast?_eq_some_iff.mp directory
    rw [segments_directory, ← split, ← segments_directory]
    rfl
  · rw [segments_file directory, segments_file, split]
    cases rest with
    | nil => simpa using other
    | cons d rest => rwa [List.getLast?_cons_cons]

/-- A path with a mark in front of a safe one is safe itself. -/
theorem SafePath.of_dropMark {path : List Char} (safe : SafePath (dropMark path)) : SafePath path := by
  cases path with
  | nil => exact safe
  | cons c rest =>
      have shape : dropMark (c :: rest) = if c = '\uFEFF' then rest else c :: rest := rfl
      rw [shape] at safe
      split at safe
      next mark =>
        have parts : ∀ part ∈ segments (c :: rest), part ≠ [] ∧ part ≠ ['.'] ∧ part ≠ ['.', '.'] := by
          intro part inside
          rw [segments_cons (by rw [mark]; decide)] at inside
          cases shape : segments rest with
          | nil =>
              rw [shape] at inside
              cases inside
          | cons first others =>
              rw [shape, List.modifyHead_cons] at inside
              rcases List.mem_cons.mp inside with rfl | later
              · have dot : c ≠ '.' := by
                  rw [mark]
                  decide
                simp [dot]
              · exact safe.parts part (by rw [shape]; exact .tail _ later)
        refine ⟨?_, ?_, ?_, parts⟩
        · have nul : '\x00' ≠ c := by
            rw [mark]
            decide
          simp [safe.nul, nul]
        · have backslash : '\\' ≠ c := by
            rw [mark]
            decide
          simp [safe.backslash, backslash]
        · rw [mark]
          unfold hasDrivePrefix
          split
          next letter _ same =>
            rw [← (List.cons.inj same).1]
            decide
          next => rfl
      next => exact safe

theorem SafePath.of_seen {flags : Nat} {path : List Char} (safe : SafePath (seen flags path)) :
    SafePath path := by
  unfold seen at safe
  split at safe
  · exact safe.of_dropMark
  · exact safe

/-! ## Headers -/

/-- A directory record stands at an offset. -/
structure CentralHeader.At (header : CentralHeader) (buffer : Bytes) (offset : Nat) : Prop where
  signature : readLE 4 buffer offset = some centralDirectorySignature
  flags : readLE 2 buffer (offset + 8) = some header.flags
  method : readLE 2 buffer (offset + 10) = some header.method
  compressedSize : readLE 4 buffer (offset + 20) = some header.compressedSize
  uncompressedSize : readLE 4 buffer (offset + 24) = some header.uncompressedSize
  nameLength : readLE 2 buffer (offset + 28) = some header.nameLength
  extraLength : readLE 2 buffer (offset + 30) = some header.extraLength
  commentLength : readLE 2 buffer (offset + 32) = some header.commentLength
  diskStart : readLE 2 buffer (offset + 34) = some header.diskStart
  localHeaderOffset : readLE 4 buffer (offset + 42) = some header.localHeaderOffset

/-- A local header stands at an offset. -/
structure LocalHeader.At (header : LocalHeader) (buffer : Bytes) (offset : Nat) : Prop where
  signature : readLE 4 buffer offset = some localFileHeaderSignature
  flags : readLE 2 buffer (offset + 6) = some header.flags
  method : readLE 2 buffer (offset + 8) = some header.method
  compressedSize : readLE 4 buffer (offset + 18) = some header.compressedSize
  uncompressedSize : readLE 4 buffer (offset + 22) = some header.uncompressedSize
  nameLength : readLE 2 buffer (offset + 26) = some header.nameLength
  extraLength : readLE 2 buffer (offset + 28) = some header.extraLength

/-- An end record of a single disk stands at an offset and ends with the buffer. -/
structure EndRecord.At (record : EndRecord) (buffer : Bytes) (offset : Nat) : Prop where
  signature : readLE 4 buffer offset = some endOfCentralDirectorySignature
  disk : readLE 2 buffer (offset + 4) = some 0
  directoryDisk : readLE 2 buffer (offset + 6) = some 0
  entriesOnDisk : readLE 2 buffer (offset + 8) = some record.entries
  entries : readLE 2 buffer (offset + 10) = some record.entries
  directorySize : readLE 4 buffer (offset + 12) = some record.directorySize
  directoryOffset : readLE 4 buffer (offset + 16) = some record.directoryOffset
  ends : ∃ commentLength, readLE 2 buffer (offset + 20) = some commentLength ∧
    offset + 22 + commentLength = buffer.length

theorem readCentralHeader_eq_some {buffer : Bytes} {offset : Nat} {header : CentralHeader} :
    readCentralHeader buffer offset = some header ↔ header.At buffer offset := by
  unfold readCentralHeader readUInt16 readUInt32
  constructor
  · intro read
    obtain ⟨signature, found, read⟩ := Option.bind_eq_some_iff.mp read
    split at read
    · cases read
    next same =>
      obtain ⟨flags, hFlags, read⟩ := Option.bind_eq_some_iff.mp read
      obtain ⟨method, hMethod, read⟩ := Option.bind_eq_some_iff.mp read
      obtain ⟨compressed, hCompressed, read⟩ := Option.bind_eq_some_iff.mp read
      obtain ⟨uncompressed, hUncompressed, read⟩ := Option.bind_eq_some_iff.mp read
      obtain ⟨name, hName, read⟩ := Option.bind_eq_some_iff.mp read
      obtain ⟨extra, hExtra, read⟩ := Option.bind_eq_some_iff.mp read
      obtain ⟨comment, hComment, read⟩ := Option.bind_eq_some_iff.mp read
      obtain ⟨disk, hDisk, read⟩ := Option.bind_eq_some_iff.mp read
      obtain ⟨start, hStart, read⟩ := Option.bind_eq_some_iff.mp read
      cases read
      rw [not_not.mp same] at found
      exact ⟨found, hFlags, hMethod, hCompressed, hUncompressed, hName, hExtra, hComment, hDisk, hStart⟩
  · rintro ⟨signature, flags, method, compressed, uncompressed, name, extra, comment, disk, start⟩
    simp only [signature, flags, method, compressed, uncompressed, name, extra, comment, disk, start,
      Option.bind_eq_bind, Option.bind_some, ne_eq, not_true_eq_false, if_false]

theorem readLocalHeader_eq_some {buffer : Bytes} {offset : Nat} {header : LocalHeader} :
    readLocalHeader buffer offset = some header ↔ header.At buffer offset := by
  unfold readLocalHeader readUInt16 readUInt32
  constructor
  · intro read
    obtain ⟨signature, found, read⟩ := Option.bind_eq_some_iff.mp read
    split at read
    · cases read
    next same =>
      obtain ⟨flags, hFlags, read⟩ := Option.bind_eq_some_iff.mp read
      obtain ⟨method, hMethod, read⟩ := Option.bind_eq_some_iff.mp read
      obtain ⟨compressed, hCompressed, read⟩ := Option.bind_eq_some_iff.mp read
      obtain ⟨uncompressed, hUncompressed, read⟩ := Option.bind_eq_some_iff.mp read
      obtain ⟨name, hName, read⟩ := Option.bind_eq_some_iff.mp read
      obtain ⟨extra, hExtra, read⟩ := Option.bind_eq_some_iff.mp read
      cases read
      rw [not_not.mp same] at found
      exact ⟨found, hFlags, hMethod, hCompressed, hUncompressed, hName, hExtra⟩
  · rintro ⟨signature, flags, method, compressed, uncompressed, name, extra⟩
    simp only [signature, flags, method, compressed, uncompressed, name, extra, Option.bind_eq_bind,
      Option.bind_some, ne_eq, not_true_eq_false, if_false]

/-! ## Entries -/

/-- The bytes of a directory record. -/
def CentralHeader.size (header : CentralHeader) : Nat :=
  46 + header.nameLength + header.extraLength + header.commentLength

/-- A record and the name stored with it. -/
abbrev Entry := CentralHeader × Bytes

/-- Records fill the directory without gaps, from an offset to another. -/
inductive Tiled (buffer : Bytes) : Nat → List Entry → Nat → Prop where
  | nil (offset : Nat) : Tiled buffer offset [] offset
  | cons {offset stop : Nat} {entry : Entry} {rest : List Entry} (here : entry.1.At buffer offset)
      (named : slice buffer (offset + 46) entry.1.nameLength = entry.2)
      (later : Tiled buffer (offset + entry.1.size) rest stop) : Tiled buffer offset (entry :: rest) stop

theorem Tiled.le {buffer : Bytes} {offset stop : Nat} {entries : List Entry}
    (tiled : Tiled buffer offset entries stop) : offset ≤ stop := by
  induction tiled with
  | nil offset => exact Nat.le_refl offset
  | cons _ _ _ ih => exact Nat.le_of_add_right_le ih

/-- Unencrypted, on one disk, stored or deflated, and of moderate size. -/
structure CentralHeader.Allowed (header : CentralHeader) : Prop where
  unencrypted : header.flags &&& encryptionFlags = 0
  method : header.method = 0 ∨ header.method = 8
  disk : header.diskStart = 0
  size : header.uncompressedSize ≤ maxEntryUncompressedBytes
  ratio : header.uncompressedSize ≤ maxCompressionRatio * header.compressedSize
  compressed : header.compressedSize ≠ zip64UInt32
  offset : header.localHeaderOffset ≠ zip64UInt32

/-- What the directory says about an entry stands before the directory. -/
structure Stored (buffer : Bytes) (directoryOffset : Nat) (header : CentralHeader) (name : Bytes)
    (stored : LocalHeader) : Prop where
  placed : stored.At buffer header.localHeaderOffset
  flags : stored.flags = header.flags
  method : stored.method = header.method
  nameLength : stored.nameLength = header.nameLength
  sizes : header.flags &&& dataDescriptorFlag = 0 →
    stored.compressedSize = header.compressedSize ∧ stored.uncompressedSize = header.uncompressedSize
  named : slice buffer (header.localHeaderOffset + 30) header.nameLength = name
  inside : header.localHeaderOffset + 30 + header.nameLength + stored.extraLength +
    header.compressedSize ≤ directoryOffset

/-- The uncompressed bytes of all entries. -/
def totalSize (entries : List Entry) : Nat :=
  entries.foldr (fun entry total => entry.1.uncompressedSize + total) 0

theorem allowed_iff (header : CentralHeader) :
    (header.refused = false ∧ header.inflated = false) ↔ header.Allowed := by
  constructor
  · rintro ⟨refused, inflated⟩
    simp only [CentralHeader.refused, CentralHeader.inflated, Bool.or_eq_false_iff, Bool.and_eq_false_iff,
      decide_eq_false_iff_not, not_not] at refused inflated
    refine ⟨refused.1.1.1.1.1, refused.1.1.1.1.2, refused.1.2, by omega, ?_, refused.1.1.1.2, refused.2⟩
    have ratio := inflated.2
    have nothing := inflated.1.2
    by_cases empty : header.compressedSize = 0
    · rw [empty]
      omega
    · omega
  · rintro ⟨unencrypted, method, disk, size, ratio, compressed, offset⟩
    have width : header.uncompressedSize ≠ zip64UInt32 := by
      unfold maxEntryUncompressedBytes at size
      unfold zip64UInt32
      omega
    simp only [CentralHeader.refused, CentralHeader.inflated, Bool.or_eq_false_iff, Bool.and_eq_false_iff,
      decide_eq_false_iff_not, not_not]
    refine ⟨⟨⟨⟨⟨⟨unencrypted, method⟩, compressed⟩, width⟩, disk⟩, offset⟩, ⟨⟨by omega, ?_⟩, ?_⟩⟩
    · unfold maxCompressionRatio at ratio
      omega
    · right
      omega

theorem addWithinLimit_eq_some {left right limit total : Nat} :
    addWithinLimit left right limit = some total ↔ left + right ≤ limit ∧ total = left + right := by
  unfold addWithinLimit
  split
  next fits => simp [fits, eq_comm]
  next exceeds => simp [exceeds]

theorem agrees_iff {stored : LocalHeader} {header : CentralHeader} :
    stored.agrees header = true ↔ stored.flags = header.flags ∧ stored.method = header.method ∧
      stored.nameLength = header.nameLength ∧
      (header.flags &&& dataDescriptorFlag = 0 → stored.compressedSize = header.compressedSize ∧
        stored.uncompressedSize = header.uncompressedSize) := by
  simp only [LocalHeader.agrees, Bool.and_eq_true, Bool.or_eq_true, decide_eq_true_eq]
  tauto

theorem inspectLocal_eq_some {buffer : Bytes} {directoryOffset : Nat} {header : CentralHeader}
    {name : Bytes} :
    inspectLocal buffer directoryOffset header name = some () ↔
      ∃ stored, Stored buffer directoryOffset header name stored := by
  unfold inspectLocal
  constructor
  · intro read
    split at read
    · cases read
    obtain ⟨stored, found, read⟩ := Option.bind_eq_some_iff.mp read
    split at read
    · cases read
    next agreed =>
      obtain ⟨nameEnd, fits, read⟩ := Option.bind_eq_some_iff.mp read
      split at read
      · cases read
      next same =>
        obtain ⟨dataStart, fits', read⟩ := Option.bind_eq_some_iff.mp read
        obtain ⟨dataEnd, fits'', -⟩ := Option.bind_eq_some_iff.mp read
        obtain ⟨-, rfl⟩ := addWithinLimit_eq_some.mp fits
        obtain ⟨-, rfl⟩ := addWithinLimit_eq_some.mp fits'
        obtain ⟨inside, -⟩ := addWithinLimit_eq_some.mp fits''
        have agreed := agrees_iff.mp (by simpa using agreed)
        rw [agreed.2.2.1] at same inside
        exact ⟨stored, readLocalHeader_eq_some.mp found, agreed.1, agreed.2.1, agreed.2.2.1,
          agreed.2.2.2, not_not.mp same, inside⟩
  · rintro ⟨stored, here, flags, method, length, sizes, named, inside⟩
    have agreed := agrees_iff.mpr ⟨flags, method, length, sizes⟩
    rw [if_neg (by omega), readLocalHeader_eq_some.mpr here]
    simp only [Option.bind_eq_bind, Option.bind_some, agreed, Bool.not_true, Bool.false_eq_true, if_false,
      length, named, ne_eq, not_true_eq_false]
    rw [addWithinLimit_eq_some.mpr ⟨by omega, rfl⟩, Option.bind_some,
      addWithinLimit_eq_some.mpr ⟨by omega, rfl⟩, Option.bind_some,
      addWithinLimit_eq_some.mpr ⟨inside, rfl⟩, Option.bind_some]

/-- One turn of the loop. -/
theorem inspectEntry_eq_some {buffer : Bytes} {directoryOffset directoryEnd : Nat}
    {state next : Inspection} :
    inspectEntry buffer directoryOffset directoryEnd state = some next ↔
      ∃ header text, header.At buffer state.centralOffset ∧
        state.centralOffset + header.size ≤ directoryEnd ∧ header.Allowed ∧
        (∃ stored, Stored buffer directoryOffset header
          (slice buffer (state.centralOffset + 46) header.nameLength) stored) ∧
        entryName (slice buffer (state.centralOffset + 46) header.nameLength) header.flags = some text ∧
        text ∉ state.names ∧
        state.totalUncompressedBytes + header.uncompressedSize ≤ maxTotalUncompressedBytes ∧
        next = ⟨text :: state.names, state.totalUncompressedBytes + header.uncompressedSize,
          state.centralOffset + header.size⟩ := by
  unfold inspectEntry
  constructor
  · intro read
    split at read
    · cases read
    obtain ⟨header, found, read⟩ := Option.bind_eq_some_iff.mp read
    split at read
    · cases read
    next unrefused =>
      obtain ⟨after, fits, read⟩ := Option.bind_eq_some_iff.mp read
      simp only [] at read
      obtain ⟨decoded, isDecoded, read⟩ := Option.bind_eq_some_iff.mp read
      obtain ⟨text, canonical, read⟩ := Option.bind_eq_some_iff.mp read
      split at read
      · cases read
      next fresh =>
        obtain ⟨total, bounded, read⟩ := Option.bind_eq_some_iff.mp read
        obtain ⟨_, held, read⟩ := Option.bind_eq_some_iff.mp read
        cases read
        obtain ⟨within, rfl⟩ := addWithinLimit_eq_some.mp fits
        obtain ⟨small, rfl⟩ := addWithinLimit_eq_some.mp bounded
        rw [Bool.or_eq_true, List.contains_iff_mem, not_or] at fresh
        obtain ⟨new, uninflated⟩ := fresh
        have size : state.centralOffset + header.size =
            state.centralOffset + 46 + (header.nameLength + header.extraLength + header.commentLength) := by
          unfold CentralHeader.size
          omega
        refine ⟨header, text, readCentralHeader_eq_some.mp found, by omega,
          (allowed_iff header).mp ⟨by simpa using unrefused, by simpa using uninflated⟩,
          inspectLocal_eq_some.mp held, ?_, new, small, by rw [size]⟩
        unfold entryName
        rw [isDecoded]
        exact canonical
  · rintro ⟨header, text, here, within, allowed, held, named, new, bounded, rfl⟩
    obtain ⟨unrefused, uninflated⟩ := (allowed_iff header).mpr allowed
    obtain ⟨decoded, isDecoded, canonical⟩ := Option.bind_eq_some_iff.mp named
    unfold CentralHeader.size at within
    rw [if_neg (by omega), readCentralHeader_eq_some.mpr here]
    simp only [Option.bind_eq_bind, Option.bind_some, unrefused, Bool.false_eq_true, if_false]
    rw [addWithinLimit_eq_some.mpr ⟨by omega, rfl⟩, Option.bind_some, isDecoded, Option.bind_some,
      canonical, Option.bind_some, if_neg (by simp [new, uninflated]),
      addWithinLimit_eq_some.mpr ⟨bounded, rfl⟩, Option.bind_some, inspectLocal_eq_some.mpr held,
      Option.bind_some]
    unfold CentralHeader.size
    rw [Nat.add_assoc 46, Nat.add_assoc 46, ← Nat.add_assoc _ 46]

/-- The names of entries, as the inspection compares them. -/
def Named (entries : List Entry) (texts : List (List Char)) : Prop :=
  List.Forall₂ (fun entry text => entryName entry.2 entry.1.flags = some text) entries texts

/-- What the loop has found out about some entries. -/
structure Inspected (buffer : Bytes) (directoryOffset directoryEnd : Nat) (entries : List Entry)
    (texts : List (List Char)) (state final : Inspection) : Prop where
  tiled : Tiled buffer state.centralOffset entries final.centralOffset
  within : final.centralOffset ≤ directoryEnd
  allowed : ∀ entry ∈ entries, entry.1.Allowed
  stored : ∀ entry ∈ entries, ∃ stored, Stored buffer directoryOffset entry.1 entry.2 stored
  named : Named entries texts
  names : final.names = texts.reverse ++ state.names
  distinct : texts.Nodup
  fresh : ∀ text ∈ texts, text ∉ state.names
  total : final.totalUncompressedBytes = state.totalUncompressedBytes + totalSize entries
  bounded : final.totalUncompressedBytes ≤ maxTotalUncompressedBytes

theorem inspectEntries_eq_some {buffer : Bytes} {directoryOffset directoryEnd : Nat} (count : Nat)
    {state final : Inspection} (within : state.centralOffset ≤ directoryEnd)
    (bounded : state.totalUncompressedBytes ≤ maxTotalUncompressedBytes) :
    inspectEntries buffer directoryOffset directoryEnd count state = some final ↔
      ∃ entries texts, entries.length = count ∧
        Inspected buffer directoryOffset directoryEnd entries texts state final := by
  induction count generalizing state with
  | zero =>
      constructor
      · intro read
        cases read
        exact ⟨[], [], rfl, .nil _, within, by simp, by simp, .nil, rfl, List.nodup_nil, by simp, rfl,
          bounded⟩
      · rintro ⟨entries, texts, none, inspected⟩
        obtain rfl := List.length_eq_zero_iff.mp none
        have tiled := inspected.tiled
        have named := inspected.named
        cases named
        have names := inspected.names
        have total := inspected.total
        obtain ⟨names', total', offset'⟩ := final
        cases tiled
        rw [List.reverse_nil, List.nil_append] at names
        simp only [totalSize, List.foldr_nil, Nat.add_zero] at names total
        subst names total
        rfl
  | succ count ih =>
      constructor
      · intro read
        obtain ⟨between, first, rest⟩ := Option.bind_eq_some_iff.mp read
        obtain ⟨header, text, here, fits, allowed, held, named, new, small, rfl⟩ :=
          inspectEntry_eq_some.mp first
        obtain ⟨entries, texts, length, inspected⟩ := (ih fits small).mp rest
        refine ⟨(header, slice buffer (state.centralOffset + 46) header.nameLength) :: entries,
          text :: texts, by rw [List.length_cons, length], .cons here rfl inspected.tiled,
          inspected.within, ?_, ?_, .cons named inspected.named, ?_, ?_, ?_, ?_, inspected.bounded⟩
        · exact List.forall_mem_cons.mpr ⟨allowed, inspected.allowed⟩
        · exact List.forall_mem_cons.mpr ⟨held, inspected.stored⟩
        · rw [inspected.names, List.reverse_cons, List.append_assoc, List.singleton_append]
        · refine List.nodup_cons.mpr ⟨fun later => ?_, inspected.distinct⟩
          exact inspected.fresh text later List.mem_cons_self
        · intro other inside
          rcases List.mem_cons.mp inside with rfl | later
          · exact new
          · exact fun among => inspected.fresh other later (.tail _ among)
        · rw [inspected.total, Nat.add_assoc]
          rfl
      · rintro ⟨entries, texts, length, inspected⟩
        obtain ⟨tiled, inside, allowed, stored, named, names, distinct, fresh, total, small⟩ := inspected
        cases named with
        | nil => cases length
        | @cons entry text entries texts first later =>
            obtain ⟨header, name⟩ := entry
            cases tiled with
            | cons here same tiled =>
                simp only [] at here same tiled first
                subst same
                have total' : final.totalUncompressedBytes =
                    state.totalUncompressedBytes + header.uncompressedSize + totalSize entries := by
                  rw [total, Nat.add_assoc]
                  rfl
                have fits : state.centralOffset + header.size ≤ directoryEnd := tiled.le.trans inside
                have small' : state.totalUncompressedBytes + header.uncompressedSize ≤
                    maxTotalUncompressedBytes := by omega
                have step := inspectEntry_eq_some.mpr ⟨header, text, here, fits,
                  allowed _ List.mem_cons_self, stored _ List.mem_cons_self, first,
                  fresh text List.mem_cons_self, small', rfl⟩
                refine Option.bind_eq_some_iff.mpr ⟨_, step, (ih fits small').mpr
                  ⟨entries, texts, Nat.succ.inj length, tiled, inside, ?_, ?_, later, ?_,
                    (List.nodup_cons.mp distinct).2, ?_, total', small⟩⟩
                · exact fun entry among => allowed entry (.tail _ among)
                · exact fun entry among => stored entry (.tail _ among)
                · rw [names, List.reverse_cons, List.append_assoc, List.singleton_append]
                · intro other among clash
                  rcases List.mem_cons.mp clash with rfl | old
                  · exact (List.nodup_cons.mp distinct).1 among
                  · exact fresh other (.tail _ among) old

/-! ## The whole container -/

theorem isEndRecord_iff {buffer : Bytes} {offset : Nat} :
    isEndRecord buffer offset = true ↔ readLE 4 buffer offset = some endOfCentralDirectorySignature ∧
      ∃ commentLength, readLE 2 buffer (offset + 20) = some commentLength ∧
        offset + 22 + commentLength = buffer.length := by
  unfold isEndRecord readUInt16 readUInt32
  rw [Bool.and_eq_true_iff, Option.any_eq_true]
  constructor
  · rintro ⟨signature, length, read, ends⟩
    exact ⟨of_decide_eq_true signature, length, read, of_decide_eq_true ends⟩
  · rintro ⟨signature, length, read, ends⟩
    exact ⟨decide_eq_true signature, length, read, decide_eq_true ends⟩

theorem searchEndRecord_eq_some {buffer : Bytes} {firstCandidate start offset : Nat} :
    searchEndRecord buffer firstCandidate start = some offset ↔
      firstCandidate ≤ offset ∧ offset ≤ start ∧ isEndRecord buffer offset = true ∧
        ∀ later, offset < later → later ≤ start → isEndRecord buffer later = false := by
  induction start with
  | zero =>
      unfold searchEndRecord
      constructor
      · intro read
        split at read
        next both =>
          cases read
          exact ⟨by omega, by omega, both.2, fun later above below => by omega⟩
        · cases read
      · rintro ⟨low, high, here, -⟩
        obtain rfl : offset = 0 := by omega
        rw [if_pos ⟨by omega, here⟩]
  | succ start ih =>
      unfold searchEndRecord
      constructor
      · intro read
        split at read
        · cases read
        split at read
        next here =>
          cases read
          exact ⟨by omega, by omega, here, fun later above below => by omega⟩
        next missing =>
          obtain ⟨low, high, here, none⟩ := ih.mp read
          refine ⟨low, by omega, here, fun later above below => ?_⟩
          by_cases top : later = start + 1
          · rw [top]
            simpa using missing
          · exact none later above (by omega)
      · rintro ⟨low, high, here, none⟩
        rw [if_neg (by omega)]
        by_cases top : offset = start + 1
        · rw [← top, if_pos here]
        · have missing := none (start + 1) (by omega) (by omega)
          rw [if_neg (by simp [missing])]
          exact ih.mpr ⟨low, by omega, here, fun later above below => none later above (by omega)⟩

/-- The last end record that ends with the buffer is found. -/
theorem findEndRecord_eq_some {buffer : Bytes} {offset : Nat} :
    findEndRecord buffer = some offset ↔ isEndRecord buffer offset = true ∧
      ∀ later, offset < later → isEndRecord buffer later = false := by
  have low : ∀ {at_ : Nat}, isEndRecord buffer at_ = true →
      buffer.length - endRecordBytes - maxZipCommentBytes ≤ at_ ∧ at_ + endRecordBytes ≤ buffer.length := by
    intro at_ here
    obtain ⟨-, length, read, ends⟩ := isEndRecord_iff.mp here
    have small := lt_of_readLE read
    unfold endRecordBytes maxZipCommentBytes
    omega
  unfold findEndRecord
  constructor
  · intro read
    split at read
    · cases read
    obtain ⟨-, -, here, none⟩ := searchEndRecord_eq_some.mp read
    refine ⟨here, fun later above => ?_⟩
    by_contra there
    have there : isEndRecord buffer later = true := by simpa using there
    have high := (low there).2
    rw [none later above (by omega)] at there
    cases there
  · rintro ⟨here, none⟩
    obtain ⟨lowest, highest⟩ := low here
    rw [if_neg (by omega)]
    exact searchEndRecord_eq_some.mpr ⟨lowest, by omega, here, fun later above _ => none later above⟩

theorem readEndRecord_eq_some {buffer : Bytes} {offset : Nat} {record : EndRecord}
    (here : isEndRecord buffer offset = true) :
    readEndRecord buffer offset = some record ↔ record.At buffer offset ∧ record.entries ≤ maxEntries ∧
      record.directorySize ≠ zip64UInt32 ∧ record.directoryOffset ≠ zip64UInt32 := by
  obtain ⟨signature, ends⟩ := isEndRecord_iff.mp here
  unfold readEndRecord readUInt16 readUInt32
  constructor
  · intro read
    obtain ⟨disk, hDisk, read⟩ := Option.bind_eq_some_iff.mp read
    obtain ⟨directoryDisk, hDirectoryDisk, read⟩ := Option.bind_eq_some_iff.mp read
    obtain ⟨onDisk, hOnDisk, read⟩ := Option.bind_eq_some_iff.mp read
    obtain ⟨total, hTotal, read⟩ := Option.bind_eq_some_iff.mp read
    obtain ⟨size, hSize, read⟩ := Option.bind_eq_some_iff.mp read
    obtain ⟨start, hStart, read⟩ := Option.bind_eq_some_iff.mp read
    split at read
    · cases read
    next fine =>
      cases read
      simp only [not_or, not_not, not_lt] at fine
      obtain ⟨rfl, rfl, rfl, -, -, wide, far, few⟩ := fine
      exact ⟨⟨signature, hDisk, hDirectoryDisk, hOnDisk, hTotal, hSize, hStart, ends⟩, few, wide, far⟩
  · rintro ⟨⟨-, disk, directoryDisk, onDisk, total, size, start, -⟩, few, wide, far⟩
    have unequal : record.entries ≠ zip64UInt16 := by
      unfold maxEntries at few
      unfold zip64UInt16
      omega
    simp only [disk, directoryDisk, onDisk, total, size, start, Option.bind_eq_bind, Option.bind_some]
    rw [if_neg]
    simp only [not_or, not_not, not_lt, true_and]
    exact ⟨unequal, unequal, wide, far, few⟩

/-- The end record, the directory and the entries of an archive, whatever the names are. -/
structure Container (buffer : Bytes) (endOffset : Nat) (record : EndRecord) (entries : List Entry) :
    Prop where
  placed : record.At buffer endOffset
  directory : record.directoryOffset + record.directorySize = endOffset
  tiled : Tiled buffer record.directoryOffset entries endOffset
  counted : record.entries = entries.length
  few : entries.length ≤ maxEntries
  allowed : ∀ entry ∈ entries, entry.1.Allowed
  total : totalSize entries ≤ maxTotalUncompressedBytes
  stored : ∀ entry ∈ entries, ∃ stored, Stored buffer record.directoryOffset entry.1 entry.2 stored
  wide : record.directorySize ≠ zip64UInt32
  far : record.directoryOffset ≠ zip64UInt32

/-- The stored names are those of an office document of a kind. -/
structure Document (mainPart : String) (entries : List Entry) : Prop where
  distinct : (entries.map Prod.snd).Nodup
  safe : ∀ entry ∈ entries, ∃ path, Denotes entry.1.flags entry.2 path ∧ SafePath path
  contentTypes : encode contentTypes.toList ∈ entries.map Prod.snd
  main : encode mainPart.toList ∈ entries.map Prod.snd

/-- What the inspection accepts: the names that it compares are distinct, and two of them known. -/
structure Recognized (mainPart : String) (entries : List Entry) (texts : List (List Char)) : Prop where
  named : Named entries texts
  distinct : texts.Nodup
  contentTypes : contentTypes.toList ∈ texts
  main : mainPart.toList ∈ texts

theorem inspectContainer_eq_true {buffer : Bytes} {mainPart : String} :
    inspectContainer buffer mainPart = some true ↔ ∃ endOffset record entries texts,
      Container buffer endOffset record entries ∧ Recognized mainPart entries texts ∧
        ∀ later, endOffset < later → isEndRecord buffer later = false := by
  unfold inspectContainer
  constructor
  · intro read
    obtain ⟨endOffset, found, read⟩ := Option.bind_eq_some_iff.mp read
    obtain ⟨here, last⟩ := findEndRecord_eq_some.mp found
    obtain ⟨record, isRecord, read⟩ := Option.bind_eq_some_iff.mp read
    obtain ⟨placed, few, wide, far⟩ := (readEndRecord_eq_some here).mp isRecord
    obtain ⟨directoryEnd, fits, read⟩ := Option.bind_eq_some_iff.mp read
    obtain ⟨within, rfl⟩ := addWithinLimit_eq_some.mp fits
    split at read
    · cases read
    next ends =>
      have ends := not_not.mp ends
      obtain ⟨final, inspected, read⟩ := Option.bind_eq_some_iff.mp read
      obtain ⟨entries, texts, length, inspected⟩ :=
        (@inspectEntries_eq_some buffer _ _ record.entries ⟨[], 0, record.directoryOffset⟩ final
          (Nat.le_add_right _ _) (Nat.zero_le _)).mp inspected
      have last' := Option.some.inj read
      simp only [Bool.and_eq_true, decide_eq_true_eq, List.contains_iff_mem] at last'
      obtain ⟨⟨stop, types⟩, main⟩ := last'
      have names := inspected.names
      simp only [List.append_nil] at names
      have tiled := inspected.tiled
      have total := inspected.total
      have bounded := inspected.bounded
      rw [stop, ends] at tiled
      simp only [Nat.zero_add] at total
      refine ⟨endOffset, record, entries, texts, ⟨placed, ends, tiled, length.symm, by omega,
        inspected.allowed, by omega, inspected.stored, wide, far⟩, ⟨inspected.named, inspected.distinct,
        ?_, ?_⟩, last⟩
      · rw [names] at types
        exact List.mem_reverse.mp types
      · rw [names] at main
        exact List.mem_reverse.mp main
  · rintro ⟨endOffset, record, entries, texts, container, recognized, last⟩
    have here : isEndRecord buffer endOffset = true :=
      isEndRecord_iff.mpr ⟨container.placed.signature, container.placed.ends⟩
    have counted := container.counted
    have few := container.few
    simp only [Option.bind_eq_bind]
    rw [findEndRecord_eq_some.mpr ⟨here, last⟩, Option.bind_some,
      (readEndRecord_eq_some here).mpr ⟨container.placed, by omega, container.wide, container.far⟩,
      Option.bind_some,
      addWithinLimit_eq_some.mpr ⟨Nat.le_of_eq container.directory, container.directory.symm⟩,
      Option.bind_some, if_neg (by simp)]
    have inspected : inspectEntries buffer record.directoryOffset endOffset record.entries
        ⟨[], 0, record.directoryOffset⟩ = some ⟨texts.reverse, totalSize entries, endOffset⟩ := by
      refine (inspectEntries_eq_some _ ?_ (Nat.zero_le _)).mpr ⟨entries, texts, counted.symm, ?_⟩
      · exact Nat.le_of_add_right_le (Nat.le_of_eq container.directory)
      · exact ⟨container.tiled, Nat.le_refl _, container.allowed, container.stored, recognized.named,
          (List.append_nil _).symm, recognized.distinct, by simp, (Nat.zero_add _).symm, container.total⟩
    rw [inspected, Option.bind_some]
    simp [recognized.contentTypes, recognized.main]

end SdcoreNest.UploadedFile.Ooxml
