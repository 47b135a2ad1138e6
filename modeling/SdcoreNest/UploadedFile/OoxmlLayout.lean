/-
# UploadedFile.OoxmlLayout -- archives laid out byte by byte

An archive of parts: local headers with names, extra fields and data, the central directory and
the end record.  Fields that decide nothing (versions, times, checksums, attributes) are free.
The inspection reads back what was laid out, so an archive that meets the limits is accepted
exactly if its names can be told apart without byte order marks.
-/
import SdcoreNest.UploadedFile.OoxmlFormat

namespace SdcoreNest.UploadedFile.Ooxml

open SdcoreNest.Theory.Binary

set_option autoImplicit false

/-! ## Layout -/

/-- One file of an archive, with the header fields that do not follow from its bytes. -/
structure Part where
  flags : Nat
  method : Nat
  name : Bytes
  data : Bytes
  uncompressedSize : Nat
  /-- What follows the data, as a data descriptor does. -/
  trailer : Bytes := []
  localExtra : Bytes := []
  localCompressedSize : Nat
  localUncompressedSize : Nat
  extra : Bytes := []
  comment : Bytes := []
  madeBy : Nat := 20
  version : Nat := 20
  time : Nat := 0
  date : Nat := 0
  crc : Nat := 0
  localCrc : Nat := 0
  internalAttributes : Nat := 0
  externalAttributes : Nat := 0

namespace Part

def localRow (part : Part) : List (Nat × Nat) :=
  [(4, localFileHeaderSignature), (2, part.version), (2, part.flags), (2, part.method),
    (2, part.time), (2, part.date), (4, part.localCrc), (4, part.localCompressedSize),
    (4, part.localUncompressedSize), (2, part.name.length), (2, part.localExtra.length)]

def localBytes (part : Part) : Bytes :=
  fields part.localRow ++ (part.name ++ (part.localExtra ++ (part.data ++ part.trailer)))

def centralRow (part : Part) (offset : Nat) : List (Nat × Nat) :=
  [(4, centralDirectorySignature), (2, part.madeBy), (2, part.version), (2, part.flags),
    (2, part.method), (2, part.time), (2, part.date), (4, part.crc), (4, part.data.length),
    (4, part.uncompressedSize), (2, part.name.length), (2, part.extra.length),
    (2, part.comment.length), (2, 0), (2, part.internalAttributes), (4, part.externalAttributes),
    (4, offset)]

def centralBytes (part : Part) (offset : Nat) : Bytes :=
  fields (part.centralRow offset) ++ (part.name ++ (part.extra ++ part.comment))

/-- What the directory says about a part. -/
def header (part : Part) (offset : Nat) : CentralHeader where
  flags := part.flags
  method := part.method
  compressedSize := part.data.length
  uncompressedSize := part.uncompressedSize
  nameLength := part.name.length
  extraLength := part.extra.length
  commentLength := part.comment.length
  diskStart := 0
  localHeaderOffset := offset

def localHeader (part : Part) : LocalHeader where
  flags := part.flags
  method := part.method
  compressedSize := part.localCompressedSize
  uncompressedSize := part.localUncompressedSize
  nameLength := part.name.length
  extraLength := part.localExtra.length

/-- Every field holds its value. -/
structure Sized (part : Part) : Prop where
  flags : part.flags < 256 ^ 2
  method : part.method < 256 ^ 2
  name : part.name.length < 256 ^ 2
  data : part.data.length < 256 ^ 4
  uncompressedSize : part.uncompressedSize < 256 ^ 4
  localExtra : part.localExtra.length < 256 ^ 2
  localCompressedSize : part.localCompressedSize < 256 ^ 4
  localUncompressedSize : part.localUncompressedSize < 256 ^ 4
  extra : part.extra.length < 256 ^ 2
  comment : part.comment.length < 256 ^ 2

end Part

/-- The local headers and data, part after part. -/
def localArea (parts : List Part) : Bytes := parts.flatMap Part.localBytes

/-- The directory of parts that are laid out from an offset on. -/
def directory : Nat → List Part → Bytes
  | _, [] => []
  | offset, part :: rest =>
      part.centralBytes offset ++ directory (offset + part.localBytes.length) rest

/-- What a reader of the directory meets, with the offset of each part. -/
def entriesFrom : Nat → List Part → List Entry
  | _, [] => []
  | offset, part :: rest =>
      (part.header offset, part.name) :: entriesFrom (offset + part.localBytes.length) rest

/-- The parts, and what follows them. -/
structure Archive where
  parts : List Part
  comment : Bytes := []

namespace Archive

def record (archive : Archive) : EndRecord where
  entries := archive.parts.length
  directorySize := (directory 0 archive.parts).length
  directoryOffset := (localArea archive.parts).length

def endRow (archive : Archive) : List (Nat × Nat) :=
  [(4, endOfCentralDirectorySignature), (2, 0), (2, 0), (2, archive.parts.length),
    (2, archive.parts.length), (4, archive.record.directorySize), (4, archive.record.directoryOffset),
    (2, archive.comment.length)]

/-- The file: local area, directory, end record. -/
def layout (archive : Archive) : Bytes :=
  localArea archive.parts ++ (directory 0 archive.parts ++ (fields archive.endRow ++ archive.comment))

def entries (archive : Archive) : List Entry := entriesFrom 0 archive.parts

/-- Where the end record stands. -/
def endOffset (archive : Archive) : Nat :=
  (localArea archive.parts).length + (directory 0 archive.parts).length

end Archive

/-! ## Reading back -/

@[simp] theorem Part.widths_localRow (part : Part) : widths part.localRow = 30 := by
  simp [Part.localRow, widths]

@[simp] theorem Part.widths_centralRow (part : Part) (offset : Nat) :
    widths (part.centralRow offset) = 46 := by
  simp [Part.centralRow, widths]

@[simp] theorem Archive.widths_endRow (archive : Archive) : widths archive.endRow = 22 := by
  simp [Archive.endRow, widths]

/-- The fields of a directory entry are read where they were written. -/
theorem Part.header_at {part : Part} (sized : part.Sized) {offset : Nat} (near : offset < 256 ^ 4)
    (front rest : Bytes) :
    (part.header offset).At (front ++ (part.centralBytes offset ++ rest)) front.length := by
  have split : part.centralBytes offset ++ rest = fields (part.centralRow offset) ++
      (part.name ++ (part.extra ++ part.comment) ++ rest) := by
    simp [Part.centralBytes]
  rw [split]
  have read := fun {index width number place : Nat}
      (listed : (part.centralRow offset)[index]? = some (width, number))
      (placed : widths ((part.centralRow offset).take index) = place) (fits : number < 256 ^ width) =>
    readLE_row listed placed fits front (part.name ++ (part.extra ++ part.comment) ++ rest)
  refine ⟨@read 0 4 centralDirectorySignature 0 rfl ?_ (by norm_num [centralDirectorySignature]),
    @read 3 2 part.flags 8 rfl ?_ sized.flags, @read 4 2 part.method 10 rfl ?_ sized.method,
    @read 8 4 part.data.length 20 rfl ?_ sized.data,
    @read 9 4 part.uncompressedSize 24 rfl ?_ sized.uncompressedSize,
    @read 10 2 part.name.length 28 rfl ?_ sized.name, @read 11 2 part.extra.length 30 rfl ?_ sized.extra,
    @read 12 2 part.comment.length 32 rfl ?_ sized.comment, @read 13 2 0 34 rfl ?_ (by norm_num),
    @read 16 4 offset 42 rfl ?_ near⟩
  all_goals simp [Part.centralRow, widths]

/-- The same for a local header. -/
theorem Part.localHeader_at {part : Part} (sized : part.Sized) (front rest : Bytes) :
    part.localHeader.At (front ++ (part.localBytes ++ rest)) front.length := by
  have split : part.localBytes ++ rest = fields part.localRow ++
      (part.name ++ (part.localExtra ++ (part.data ++ part.trailer)) ++ rest) := by
    simp [Part.localBytes]
  rw [split]
  have read := fun {index width number place : Nat}
      (listed : part.localRow[index]? = some (width, number))
      (placed : widths (part.localRow.take index) = place) (fits : number < 256 ^ width) =>
    readLE_row listed placed fits front
      (part.name ++ (part.localExtra ++ (part.data ++ part.trailer)) ++ rest)
  refine ⟨@read 0 4 localFileHeaderSignature 0 rfl ?_ (by norm_num [localFileHeaderSignature]),
    @read 2 2 part.flags 6 rfl ?_ sized.flags, @read 3 2 part.method 8 rfl ?_ sized.method,
    @read 7 4 part.localCompressedSize 18 rfl ?_ sized.localCompressedSize,
    @read 8 4 part.localUncompressedSize 22 rfl ?_ sized.localUncompressedSize,
    @read 9 2 part.name.length 26 rfl ?_ sized.name,
    @read 10 2 part.localExtra.length 28 rfl ?_ sized.localExtra⟩
  all_goals simp [Part.localRow, widths]

/-- The name behind a directory record. -/
theorem Part.slice_centralBytes (part : Part) (offset : Nat) (front rest : Bytes) :
    slice (front ++ (part.centralBytes offset ++ rest)) (front.length + 46) part.name.length =
      part.name := by
  have split : part.centralBytes offset ++ rest = fields (part.centralRow offset) ++
      (part.name ++ (part.extra ++ part.comment ++ rest)) := by
    simp [Part.centralBytes]
  have read := slice_row front (part.centralRow offset) part.name (part.extra ++ part.comment ++ rest)
  rwa [part.widths_centralRow, ← split] at read

/-- The name behind a local header. -/
theorem Part.slice_localBytes (part : Part) (front rest : Bytes) :
    slice (front ++ (part.localBytes ++ rest)) (front.length + 30) part.name.length = part.name := by
  have split : part.localBytes ++ rest = fields part.localRow ++
      (part.name ++ (part.localExtra ++ (part.data ++ part.trailer) ++ rest)) := by
    simp [Part.localBytes]
  have read := slice_row front part.localRow part.name
    (part.localExtra ++ (part.data ++ part.trailer) ++ rest)
  rwa [part.widths_localRow, ← split] at read

theorem Part.length_centralBytes (part : Part) (offset : Nat) :
    (part.centralBytes offset).length = (part.header offset).size := by
  simp only [Part.centralBytes, List.length_append, length_fields, Part.widths_centralRow,
    CentralHeader.size, Part.header]
  omega

/-- The sizes of the local header are those of the directory, unless a descriptor follows. -/
def Part.Agreeing (part : Part) : Prop :=
  part.flags &&& dataDescriptorFlag = 0 →
    part.localCompressedSize = part.data.length ∧ part.localUncompressedSize = part.uncompressedSize

/-- A written part lies before the directory, and both of its headers agree. -/
theorem Part.stored {part : Part} (sized : part.Sized) (agreeing : part.Agreeing) (front rest : Bytes)
    {directoryOffset : Nat} (inside : front.length + part.localBytes.length ≤ directoryOffset) :
    Stored (front ++ (part.localBytes ++ rest)) directoryOffset (part.header front.length) part.name
      part.localHeader where
  placed := part.localHeader_at sized front rest
  flags := rfl
  method := rfl
  nameLength := rfl
  sizes := agreeing
  named := part.slice_localBytes front rest
  inside := by
    simp only [Part.localBytes, List.length_append, length_fields, Part.widths_localRow] at inside
    simp only [Part.header, Part.localHeader]
    omega

/-- The entries of the directory follow one another without a gap. The induction is on the parts. -/
theorem tiled_directory {parts : List Part} (sized : ∀ part ∈ parts, part.Sized) {offset : Nat}
    (near : offset + (localArea parts).length < 256 ^ 4) (front rest : Bytes) :
    Tiled (front ++ (directory offset parts ++ rest)) front.length (entriesFrom offset parts)
      (front.length + (directory offset parts).length) := by
  induction parts generalizing offset front with
  | nil => exact .nil _
  | cons part parts ih =>
      have area : (localArea (part :: parts)).length = part.localBytes.length + (localArea parts).length := by
        simp [localArea]
      have later := @ih (fun other inside => sized other (.tail _ inside))
        (offset + part.localBytes.length) (by omega) (front ++ part.centralBytes offset)
      have shape : front ++ part.centralBytes offset ++
          (directory (offset + part.localBytes.length) parts ++ rest) =
            front ++ (directory offset (part :: parts) ++ rest) := by
        simp [directory]
      have stop : (front ++ part.centralBytes offset).length +
          (directory (offset + part.localBytes.length) parts).length =
            front.length + (directory offset (part :: parts)).length := by
        simp only [directory, List.length_append]
        omega
      rw [shape, stop, List.length_append, part.length_centralBytes] at later
      have whole : front ++ (directory offset (part :: parts) ++ rest) = front ++
          (part.centralBytes offset ++ (directory (offset + part.localBytes.length) parts ++ rest)) := by
        simp [directory]
      refine .cons ?_ ?_ later
      · rw [whole]
        exact part.header_at (sized part List.mem_cons_self) (by omega) front _
      · rw [whole]
        exact part.slice_centralBytes offset front _

/-- Every entry of the directory has its part in the local area. -/
theorem stored_localArea {parts : List Part} (sized : ∀ part ∈ parts, part.Sized)
    (agreeing : ∀ part ∈ parts, part.Agreeing) (front rest : Bytes) {directoryOffset : Nat}
    (inside : front.length + (localArea parts).length ≤ directoryOffset) :
    ∀ entry ∈ entriesFrom front.length parts, ∃ stored,
      Stored (front ++ (localArea parts ++ rest)) directoryOffset entry.1 entry.2 stored := by
  induction parts generalizing front with
  | nil => intro entry none; cases none
  | cons part parts ih =>
      have area : (localArea (part :: parts)).length = part.localBytes.length + (localArea parts).length := by
        simp [localArea]
      have whole : front ++ (localArea (part :: parts) ++ rest) =
          front ++ (part.localBytes ++ (localArea parts ++ rest)) := by
        simp [localArea]
      intro entry listed
      rcases List.mem_cons.mp listed with rfl | later
      · rw [whole]
        exact ⟨_, part.stored (sized part List.mem_cons_self) (agreeing part List.mem_cons_self) front _
          (by omega)⟩
      · have held := ih (fun other among => sized other (.tail _ among))
          (fun other among => agreeing other (.tail _ among)) (front ++ part.localBytes)
          (by rw [List.length_append]; omega) entry (by rwa [List.length_append])
        rw [whole]
        rwa [List.append_assoc] at held

theorem length_entriesFrom (offset : Nat) (parts : List Part) :
    (entriesFrom offset parts).length = parts.length := by
  induction parts generalizing offset with
  | nil => rfl
  | cons part parts ih => simp [entriesFrom, ih]

namespace Archive

/-- Within the limits of the inspection, and every field holds its value. -/
structure Admissible (archive : Archive) : Prop where
  sized : ∀ part ∈ archive.parts, part.Sized
  agreeing : ∀ part ∈ archive.parts, part.Agreeing
  allowed : ∀ entry ∈ archive.entries, entry.1.Allowed
  few : archive.parts.length ≤ maxEntries
  total : totalSize archive.entries ≤ maxTotalUncompressedBytes
  localArea : (localArea archive.parts).length < zip64UInt32
  directory : (directory 0 archive.parts).length < zip64UInt32
  comment : archive.comment.length < 256 ^ 2

theorem Admissible.placed {archive : Archive} (admissible : archive.Admissible) :
    archive.record.At archive.layout archive.endOffset := by
  have few := admissible.few
  have near := admissible.localArea
  have small := admissible.directory
  unfold maxEntries at few
  unfold zip64UInt32 at near small
  have length : (Ooxml.localArea archive.parts ++ Ooxml.directory 0 archive.parts).length =
      archive.endOffset := List.length_append
  have shape : archive.layout = (Ooxml.localArea archive.parts ++ Ooxml.directory 0 archive.parts) ++
      (fields archive.endRow ++ archive.comment) := by
    simp [layout]
  have read := fun {index width number place : Nat}
      (listed : archive.endRow[index]? = some (width, number))
      (placed : widths (archive.endRow.take index) = place) (fits : number < 256 ^ width) =>
    readLE_row listed placed fits (Ooxml.localArea archive.parts ++ Ooxml.directory 0 archive.parts)
      archive.comment
  rw [length, ← shape] at read
  refine ⟨@read 0 4 endOfCentralDirectorySignature 0 rfl ?_ (by norm_num [endOfCentralDirectorySignature]),
    @read 1 2 0 4 rfl ?_ (by norm_num), @read 2 2 0 6 rfl ?_ (by norm_num),
    @read 3 2 archive.parts.length 8 rfl ?_ (by omega), @read 4 2 archive.parts.length 10 rfl ?_ (by omega),
    @read 5 4 archive.record.directorySize 12 rfl ?_ (Nat.lt_trans small (by norm_num)),
    @read 6 4 archive.record.directoryOffset 16 rfl ?_ (Nat.lt_trans near (by norm_num)),
    archive.comment.length, @read 7 2 archive.comment.length 20 rfl ?_ admissible.comment, ?_⟩
  case refine_9 =>
    rw [shape, List.length_append, length, List.length_append, length_fields, archive.widths_endRow]
    omega
  all_goals simp [endRow, widths]

/-- What was laid out is what the format says about the bytes. -/
theorem Admissible.container {archive : Archive} (admissible : archive.Admissible) :
    Container archive.layout archive.endOffset archive.record archive.entries where
  placed := admissible.placed
  directory := rfl
  tiled := by
    have near := admissible.localArea
    unfold zip64UInt32 at near
    exact @tiled_directory _ admissible.sized 0 (by omega) (Ooxml.localArea archive.parts) _
  counted := (length_entriesFrom 0 archive.parts).symm
  few := (length_entriesFrom 0 archive.parts).trans_le admissible.few
  allowed := admissible.allowed
  total := admissible.total
  stored := stored_localArea admissible.sized admissible.agreeing [] _ (Nat.le_of_eq (Nat.zero_add _))
  wide := Nat.ne_of_lt admissible.directory
  far := Nat.ne_of_lt admissible.localArea

end Archive

end SdcoreNest.UploadedFile.Ooxml
