/-
# UploadedFile.OoxmlSecurity -- the ZIP container of an office document

`validateOoxmlContainer` of `ooxml-security.ts`: a bounded inspection of a ZIP archive that does
not decompress anything.  The code answers false or throws into a `catch` that answers false;
both are `none` here.  Offsets are sums of a few fields of four bytes, so they are safe integers
whatever the archive says.  The ratio of two sizes is compared as a product: below the limit of
an entry no quotient rounds across 100.
-/
import SdcoreNest.Theory.Binary
import SdcoreNest.UploadedFile.Entity

namespace SdcoreNest.UploadedFile

open SdcoreNest.Theory.Binary

set_option autoImplicit false

namespace Ooxml

/-- `OOXML_MIME_MAIN_PART` -/
def mainPart : List (String × String) :=
  [("application/vnd.openxmlformats-officedocument.wordprocessingml.document", "word/document.xml"),
    ("application/vnd.openxmlformats-officedocument.spreadsheetml.sheet", "xl/workbook.xml"),
    ("application/vnd.openxmlformats-officedocument.presentationml.presentation",
      "ppt/presentation.xml")]

def contentTypes : String := "[Content_Types].xml"

def maxEntries : Nat := 2048
def maxTotalUncompressedBytes : Nat := 104857600
def maxEntryUncompressedBytes : Nat := 52428800
def maxCompressionRatio : Nat := 100

def centralDirectorySignature : Nat := 0x02014b50
def endOfCentralDirectorySignature : Nat := 0x06054b50
def localFileHeaderSignature : Nat := 0x04034b50
def zip64UInt16 : Nat := 0xffff
def zip64UInt32 : Nat := 0xffffffff
def endRecordBytes : Nat := 22
def maxZipCommentBytes : Nat := 0xffff
/-- Bits 0, 6 and 13 of the flags. -/
def encryptionFlags : Nat := 0x2041
def utf8NameFlag : Nat := 0x0800
def dataDescriptorFlag : Nat := 0x0008

def readUInt16 (buffer : Bytes) (offset : Nat) : Option Nat := readLE 2 buffer offset

def readUInt32 (buffer : Bytes) (offset : Nat) : Option Nat := readLE 4 buffer offset

/-- A sum that is refused when it passes the limit. -/
def addWithinLimit (left right limit : Nat) : Option Nat :=
  if left + right ≤ limit then some (left + right) else none

/-! ## The end record -/

/-- An end record stands at an offset and ends with the buffer. -/
def isEndRecord (buffer : Bytes) (offset : Nat) : Bool :=
  readUInt32 buffer offset = some endOfCentralDirectorySignature &&
    (readUInt16 buffer (offset + 20)).any fun commentLength =>
      offset + endRecordBytes + commentLength = buffer.length

/-- The loop of `findEndRecord`, from an offset downwards. -/
def searchEndRecord (buffer : Bytes) (firstCandidate : Nat) : Nat → Option Nat
  | 0 => if firstCandidate = 0 ∧ isEndRecord buffer 0 then some 0 else none
  | offset + 1 =>
      if offset + 1 < firstCandidate then none
      else if isEndRecord buffer (offset + 1) then some (offset + 1)
      else searchEndRecord buffer firstCandidate offset

/-- Searched from the end, no further back than the longest comment allows. -/
def findEndRecord (buffer : Bytes) : Option Nat :=
  if buffer.length < endRecordBytes then none
  else searchEndRecord buffer (buffer.length - endRecordBytes - maxZipCommentBytes)
    (buffer.length - endRecordBytes)

structure EndRecord where
  entries : Nat
  directorySize : Nat
  directoryOffset : Nat
deriving DecidableEq, Repr

/-- Refused when the archive has several disks, needs ZIP64 or has too many entries. -/
def readEndRecord (buffer : Bytes) (endOffset : Nat) : Option EndRecord := do
  let diskNumber ← readUInt16 buffer (endOffset + 4)
  let centralDirectoryDisk ← readUInt16 buffer (endOffset + 6)
  let entriesOnDisk ← readUInt16 buffer (endOffset + 8)
  let totalEntries ← readUInt16 buffer (endOffset + 10)
  let centralDirectorySize ← readUInt32 buffer (endOffset + 12)
  let centralDirectoryOffset ← readUInt32 buffer (endOffset + 16)
  if diskNumber ≠ 0 ∨ centralDirectoryDisk ≠ 0 ∨ entriesOnDisk ≠ totalEntries ∨
      entriesOnDisk = zip64UInt16 ∨ totalEntries = zip64UInt16 ∨
      centralDirectorySize = zip64UInt32 ∨ centralDirectoryOffset = zip64UInt32 ∨
      totalEntries > maxEntries then none
  else some ⟨totalEntries, centralDirectorySize, centralDirectoryOffset⟩

/-! ## Names -/

/-- A byte order mark at the front is no part of the text. -/
def dropMark : List Char → List Char
  | [] => []
  | c :: rest => if c = '\uFEFF' then rest else c :: rest

/-- `new TextDecoder('utf-8', { fatal: true }).decode(bytes)` -/
def decodeUtf8 (bytes : Bytes) : Option (List Char) :=
  (String.fromUTF8? bytes.toByteArray).map fun text => dropMark text.toList

/-- `/^[A-Za-z]:/` -/
def hasDrivePrefix : List Char → Bool
  | letter :: ':' :: _ => letter.isAlpha
  | _ => false

/-- The text of a name: UTF-8 where the flag says so, else printable ASCII. -/
def nameText (bytes : Bytes) (flags : Nat) : Option (List Char) :=
  if flags &&& utf8NameFlag ≠ 0 then decodeUtf8 bytes
  else if bytes.any fun byte => byte < 0x20 || byte > 0x7e then none
  else some (bytes.map fun byte => Char.ofNat byte.toNat)

def decodeEntryName (bytes : Bytes) (flags : Nat) : Option (List Char) :=
  if bytes = [] then none
  else
    (nameText bytes flags).bind fun name =>
      if '\x00' ∈ name ∨ '\\' ∈ name ∨ name.head? = some '/' ∨ hasDrivePrefix name then none
      else some name

/-- The segments of a path; a directory ends with a slash. -/
def segments (name : List Char) : List (List Char) :=
  if name.getLast? = some '/' then (name.splitOn '/').dropLast else name.splitOn '/'

/-- A name with an empty segment, a single dot or two of them is refused. -/
def canonicalEntryName (name : List Char) : Option (List Char) :=
  if segments name = [] ∨ (segments name).any (fun part => part = [] || part = ['.'] || part = ['.', '.'])
  then none
  else some (['/'].intercalate (segments name) ++ if name.getLast? = some '/' then ['/'] else [])

/-! ## Entries -/

structure CentralHeader where
  flags : Nat
  method : Nat
  compressedSize : Nat
  uncompressedSize : Nat
  nameLength : Nat
  extraLength : Nat
  commentLength : Nat
  diskStart : Nat
  localHeaderOffset : Nat
deriving DecidableEq, Repr

def readCentralHeader (buffer : Bytes) (offset : Nat) : Option CentralHeader := do
  let signature ← readUInt32 buffer offset
  if signature ≠ centralDirectorySignature then none
  else
    let flags ← readUInt16 buffer (offset + 8)
    let method ← readUInt16 buffer (offset + 10)
    let compressedSize ← readUInt32 buffer (offset + 20)
    let uncompressedSize ← readUInt32 buffer (offset + 24)
    let nameLength ← readUInt16 buffer (offset + 28)
    let extraLength ← readUInt16 buffer (offset + 30)
    let commentLength ← readUInt16 buffer (offset + 32)
    let diskStart ← readUInt16 buffer (offset + 34)
    let localHeaderOffset ← readUInt32 buffer (offset + 42)
    some ⟨flags, method, compressedSize, uncompressedSize, nameLength, extraLength, commentLength,
      diskStart, localHeaderOffset⟩

/-- Encrypted, of an unknown method, or with an entry elsewhere than in this file. -/
def CentralHeader.refused (header : CentralHeader) : Bool :=
  header.flags &&& encryptionFlags ≠ 0 || (header.method ≠ 0 && header.method ≠ 8) ||
    header.compressedSize = zip64UInt32 || header.uncompressedSize = zip64UInt32 ||
    header.diskStart ≠ 0 || header.localHeaderOffset = zip64UInt32

/-- Refused for what it would take to unpack. -/
def CentralHeader.inflated (header : CentralHeader) : Bool :=
  header.uncompressedSize > maxEntryUncompressedBytes ||
    (header.uncompressedSize > 0 && header.compressedSize = 0) ||
    (header.compressedSize > 0 &&
      header.uncompressedSize > maxCompressionRatio * header.compressedSize)

structure LocalHeader where
  flags : Nat
  method : Nat
  compressedSize : Nat
  uncompressedSize : Nat
  nameLength : Nat
  extraLength : Nat
deriving DecidableEq, Repr

def readLocalHeader (buffer : Bytes) (offset : Nat) : Option LocalHeader := do
  let signature ← readUInt32 buffer offset
  if signature ≠ localFileHeaderSignature then none
  else
    let flags ← readUInt16 buffer (offset + 6)
    let method ← readUInt16 buffer (offset + 8)
    let compressedSize ← readUInt32 buffer (offset + 18)
    let uncompressedSize ← readUInt32 buffer (offset + 22)
    let nameLength ← readUInt16 buffer (offset + 26)
    let extraLength ← readUInt16 buffer (offset + 28)
    some ⟨flags, method, compressedSize, uncompressedSize, nameLength, extraLength⟩

/-- The sizes of a local header are left open where a data descriptor follows the data. -/
def LocalHeader.agrees (stored : LocalHeader) (header : CentralHeader) : Bool :=
  stored.flags = header.flags && stored.method = header.method &&
    stored.nameLength = header.nameLength &&
    (header.flags &&& dataDescriptorFlag ≠ 0 ||
      (stored.compressedSize = header.compressedSize &&
        stored.uncompressedSize = header.uncompressedSize))

/-- The local header, name, extra field and data of an entry lie before the directory. -/
def inspectLocal (buffer : Bytes) (directoryOffset : Nat) (header : CentralHeader) (name : Bytes) :
    Option Unit :=
  if header.localHeaderOffset + 30 > directoryOffset then none
  else do
    let stored ← readLocalHeader buffer header.localHeaderOffset
    if !stored.agrees header then none
    else
      let nameEnd ← addWithinLimit (header.localHeaderOffset + 30) stored.nameLength directoryOffset
      if slice buffer (header.localHeaderOffset + 30) stored.nameLength ≠ name then none
      else
        let dataStart ← addWithinLimit nameEnd stored.extraLength directoryOffset
        let _ ← addWithinLimit dataStart header.compressedSize directoryOffset
        some ()

/-- The variables of the loop; names stand in the order they were added, the last first. -/
structure Inspection where
  names : List (List Char)
  totalUncompressedBytes : Nat
  centralOffset : Nat

/-- One turn of the loop over the central directory. -/
def inspectEntry (buffer : Bytes) (directoryOffset directoryEnd : Nat) (state : Inspection) :
    Option Inspection :=
  if state.centralOffset + 46 > directoryEnd then none
  else do
    let header ← readCentralHeader buffer state.centralOffset
    if header.refused then none
    else
      let next ← addWithinLimit (state.centralOffset + 46)
        (header.nameLength + header.extraLength + header.commentLength) directoryEnd
      let nameBytes := slice buffer (state.centralOffset + 46) header.nameLength
      let decoded ← decodeEntryName nameBytes header.flags
      let name ← canonicalEntryName decoded
      if state.names.contains name || header.inflated then none
      else
        let total ← addWithinLimit state.totalUncompressedBytes header.uncompressedSize
          maxTotalUncompressedBytes
        let _ ← inspectLocal buffer directoryOffset header nameBytes
        some ⟨name :: state.names, total, next⟩

/-- As many entries as the end record counts, one after the other. -/
def inspectEntries (buffer : Bytes) (directoryOffset directoryEnd : Nat) :
    Nat → Inspection → Option Inspection
  | 0, state => some state
  | count + 1, state => do
      let state ← inspectEntry buffer directoryOffset directoryEnd state
      inspectEntries buffer directoryOffset directoryEnd count state

def inspectContainer (buffer : Bytes) (mainPart : String) : Option Bool := do
  let endOffset ← findEndRecord buffer
  let record ← readEndRecord buffer endOffset
  let directoryEnd ← addWithinLimit record.directoryOffset record.directorySize endOffset
  if directoryEnd ≠ endOffset then none
  else
    let state ← inspectEntries buffer record.directoryOffset directoryEnd record.entries
      ⟨[], 0, record.directoryOffset⟩
    some (state.centralOffset = directoryEnd && state.names.contains contentTypes.toList &&
      state.names.contains mainPart.toList)

end Ooxml

/-- Every failure on the way answers `false`. -/
def validateOoxmlContainer (buffer : Bytes) (mime : String) : Bool :=
  match Ooxml.mainPart.lookup mime with
  | none => false
  | some mainPart => (Ooxml.inspectContainer buffer mainPart).getD false

end SdcoreNest.UploadedFile
