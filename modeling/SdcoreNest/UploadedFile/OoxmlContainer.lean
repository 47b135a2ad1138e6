/-
# UploadedFile.OoxmlContainer -- what the container inspection accepts

The inspection compares names as texts, and a text loses a byte order mark at its front when it
is decoded.  Else it accepts exactly the format: an accepted buffer is a container of an office
document unless a required part is there only behind a mark, and an archive of a document is
accepted unless a mark makes two names equal or a name unsafe.
-/
import SdcoreNest.UploadedFile.OoxmlLayout

namespace SdcoreNest.UploadedFile.Ooxml

open SdcoreNest.Theory.Binary

set_option autoImplicit false

/-! ## One reading -/

theorem CentralHeader.At.unique {buffer : Bytes} {offset : Nat} {header header' : CentralHeader}
    (here : header.At buffer offset) (here' : header'.At buffer offset) : header = header' :=
  Option.some.inj ((readCentralHeader_eq_some.mpr here).symm.trans (readCentralHeader_eq_some.mpr here'))

theorem EndRecord.At.unique {buffer : Bytes} {offset : Nat} {record record' : EndRecord}
    (here : record.At buffer offset) (here' : record'.At buffer offset) : record = record' := by
  have entries := Option.some.inj (here.entries.symm.trans here'.entries)
  have size := Option.some.inj (here.directorySize.symm.trans here'.directorySize)
  have start := Option.some.inj (here.directoryOffset.symm.trans here'.directoryOffset)
  cases record
  cases record'
  subst entries size start
  rfl

/-- As many records from one offset on are the same records. -/
theorem Tiled.unique {buffer : Bytes} {offset stop stop' : Nat} {entries entries' : List Entry}
    (tiled : Tiled buffer offset entries stop) (tiled' : Tiled buffer offset entries' stop')
    (length : entries.length = entries'.length) : entries = entries' := by
  induction tiled generalizing entries' with
  | nil offset => exact (List.length_eq_zero_iff.mp length.symm).symm
  | @cons offset stop entry rest here named later ih =>
      cases tiled' with
      | nil => cases length
      | @cons _ _ entry' rest' here' named' later' =>
          obtain ⟨header, name⟩ := entry
          obtain ⟨header', name'⟩ := entry'
          obtain rfl : header = header' := here.unique here'
          obtain rfl : name = name' := named.symm.trans named'
          rw [ih later' (Nat.succ.inj length)]

/-- The end record that counts: the last one. -/
def Last (buffer : Bytes) (endOffset : Nat) : Prop :=
  ∀ later, endOffset < later → isEndRecord buffer later = false

theorem Container.isEndRecord {buffer : Bytes} {endOffset : Nat} {record : EndRecord}
    {entries : List Entry} (container : Container buffer endOffset record entries) :
    isEndRecord buffer endOffset = true :=
  isEndRecord_iff.mpr ⟨container.placed.signature, container.placed.ends⟩

theorem Last.unique {buffer : Bytes} {endOffset endOffset' : Nat}
    (here : isEndRecord buffer endOffset = true) (here' : isEndRecord buffer endOffset' = true)
    (last : Last buffer endOffset) (last' : Last buffer endOffset') : endOffset = endOffset' := by
  rcases Nat.lt_trichotomy endOffset endOffset' with before | same | after
  · rw [last _ before] at here'
    cases here'
  · exact same
  · rw [last' _ after] at here
    cases here

/-- An end record has the entries of one directory. -/
theorem Container.unique {buffer : Bytes} {endOffset : Nat} {record record' : EndRecord}
    {entries entries' : List Entry} (container : Container buffer endOffset record entries)
    (container' : Container buffer endOffset record' entries') : entries = entries' := by
  obtain rfl := container.placed.unique container'.placed
  exact container.tiled.unique container'.tiled (container.counted.symm.trans container'.counted)

/-! ## Names behind marks -/

theorem dropMark_ascii {path : List Char} (plain : ∀ c ∈ path, c.toNat ≤ 0x7e) : dropMark path = path := by
  cases path with
  | nil => rfl
  | cons c rest =>
      have small := plain c List.mem_cons_self
      have other : c ≠ '\uFEFF' := by
        rintro rfl
        revert small
        decide
      exact if_neg other

theorem seen_ascii (flags : Nat) {path : List Char} (plain : ∀ c ∈ path, c.toNat ≤ 0x7e) :
    seen flags path = path := by
  unfold seen
  split
  · exact dropMark_ascii plain
  · rfl

/-- Bytes that are a name with a flag and without are the same name. -/
theorem entryName_flags {flags flags' : Nat} {name : Bytes} {text text' : List Char}
    (read : entryName name flags = some text) (read' : entryName name flags' = some text') :
    text = text' := by
  obtain ⟨path, denotes, rfl, -⟩ := entryName_eq_some.mp read
  obtain ⟨path', denotes', rfl, -⟩ := entryName_eq_some.mp read'
  obtain rfl : path = path' := encode_injective (denotes.encoded.trans denotes'.encoded.symm)
  by_cases flagged : flags &&& utf8NameFlag = 0
  · have plain := fun c inside => (denotes.plain flagged c inside).2
    rw [seen_ascii flags plain, seen_ascii flags' plain]
  by_cases flagged' : flags' &&& utf8NameFlag = 0
  · have plain := fun c inside => (denotes'.plain flagged' c inside).2
    rw [seen_ascii flags plain, seen_ascii flags' plain]
  · unfold seen
    rw [if_pos flagged, if_pos flagged']

theorem Named.mem {entries : List Entry} {texts : List (List Char)} (named : Named entries texts)
    {entry : Entry} (listed : entry ∈ entries) :
    ∃ text ∈ texts, entryName entry.2 entry.1.flags = some text := by
  induction named with
  | nil => cases listed
  | cons first later ih =>
      rcases List.mem_cons.mp listed with rfl | inside
      · exact ⟨_, List.mem_cons_self, first⟩
      · obtain ⟨text, among, read⟩ := ih inside
        exact ⟨text, .tail _ among, read⟩

/-- Distinct texts come from distinct bytes. -/
theorem Named.distinct {entries : List Entry} {texts : List (List Char)} (named : Named entries texts)
    (distinct : texts.Nodup) : (entries.map Prod.snd).Nodup := by
  induction named with
  | nil => exact List.nodup_nil
  | @cons entry text entries texts first later ih =>
      obtain ⟨fresh, distinct⟩ := List.nodup_cons.mp distinct
      refine List.nodup_cons.mpr ⟨fun clash => ?_, ih distinct⟩
      obtain ⟨other, inside, same⟩ := List.mem_map.mp clash
      obtain ⟨text', among, read⟩ := Named.mem later inside
      rw [same] at read
      rw [entryName_flags first read] at fresh
      exact fresh among

theorem Named.safe {entries : List Entry} {texts : List (List Char)} (named : Named entries texts) :
    ∀ entry ∈ entries, ∃ path, Denotes entry.1.flags entry.2 path ∧ SafePath path := by
  intro entry listed
  obtain ⟨text, -, read⟩ := named.mem listed
  obtain ⟨path, denotes, rfl, safe⟩ := entryName_eq_some.mp read
  exact ⟨path, denotes, safe.of_seen⟩

/-- Plain names are found under their own text. -/
theorem Named.plain {entries : List Entry} {texts : List (List Char)} (named : Named entries texts)
    {path : List Char} (plain : ∀ c ∈ path, c.toNat ≤ 0x7e)
    (stored : encode path ∈ entries.map Prod.snd) : path ∈ texts := by
  obtain ⟨entry, listed, same⟩ := List.mem_map.mp stored
  obtain ⟨text, among, read⟩ := named.mem listed
  obtain ⟨path', denotes, rfl, -⟩ := entryName_eq_some.mp read
  obtain rfl : path' = path := encode_injective (denotes.encoded.trans same)
  rwa [seen_ascii _ plain] at among

/-! ## The format -/

/-- The container of a document of a type. -/
def Format (buffer : Bytes) (mime : String) : Prop :=
  ∃ part, mainPart.lookup mime = some part ∧ ∃ endOffset record entries,
    Container buffer endOffset record entries ∧ Last buffer endOffset ∧ Document part entries

/-- A required part is there behind a mark only. -/
def Masked (buffer : Bytes) (mime : String) : Prop :=
  ∃ part, mainPart.lookup mime = some part ∧ ∃ endOffset record entries texts,
    Container buffer endOffset record entries ∧ Last buffer endOffset ∧ Recognized part entries texts ∧
      ¬(encode contentTypes.toList ∈ entries.map Prod.snd ∧ encode part.toList ∈ entries.map Prod.snd)

/-- Names without their marks are safe and distinct. -/
def Distinguished (entries : List Entry) : Prop := ∃ texts, Named entries texts ∧ texts.Nodup

theorem validateOoxmlContainer_eq_true {buffer : Bytes} {mime : String} :
    validateOoxmlContainer buffer mime = true ↔ ∃ part, mainPart.lookup mime = some part ∧
      ∃ endOffset record entries texts, Container buffer endOffset record entries ∧
        Recognized part entries texts ∧ Last buffer endOffset := by
  unfold validateOoxmlContainer
  cases known : mainPart.lookup mime with
  | none => simp
  | some part =>
      simp only [Option.some.injEq, exists_eq_left']
      refine Iff.trans ?_ inspectContainer_eq_true
      cases inspectContainer buffer part with
      | none => simp
      | some answer => simp

theorem contentTypes_plain : ∀ c ∈ contentTypes.toList, c.toNat ≤ 0x7e := by
  have checked : contentTypes.toList.all (fun c => c.toNat ≤ 0x7e) = true := by decide
  intro c inside
  exact of_decide_eq_true (List.all_eq_true.mp checked c inside)

theorem mainPart_plain {mime part : String} (known : mainPart.lookup mime = some part) :
    ∀ c ∈ part.toList, c.toNat ≤ 0x7e := by
  have checked : mainPart.all (fun pair => pair.2.toList.all fun c => c.toNat ≤ 0x7e) = true := by decide
  obtain ⟨front, rest, shape, -⟩ := List.lookup_eq_some_iff.mp known
  intro c inside
  have whole := List.all_eq_true.mp checked (mime, part) (by simp [shape])
  exact of_decide_eq_true (List.all_eq_true.mp whole c inside)

/-- Names that are recognized are those of a document, where the required ones are stored as such. -/
theorem document_of_recognized {part : String} {entries : List Entry} {texts : List (List Char)}
    (recognized : Recognized part entries texts)
    (stored : encode contentTypes.toList ∈ entries.map Prod.snd ∧
      encode part.toList ∈ entries.map Prod.snd) : Document part entries :=
  ⟨recognized.named.distinct recognized.distinct, recognized.named.safe, stored.1, stored.2⟩

/-- An accepted buffer is a container of the format, unless a mark hides that a part is missing. -/
theorem format_iff_unmasked (buffer : Bytes) (mime : String) :
    (validateOoxmlContainer buffer mime = true → Format buffer mime) ↔ ¬Masked buffer mime := by
  constructor
  · rintro sound ⟨part, known, endOffset, record, entries, texts, container, last, recognized, missing⟩
    have accepted := validateOoxmlContainer_eq_true.mpr
      ⟨part, known, endOffset, record, entries, texts, container, recognized, last⟩
    obtain ⟨part', known', endOffset', record', entries', container', last', document⟩ := sound accepted
    obtain rfl : part = part' := Option.some.inj (known.symm.trans known')
    obtain rfl := last.unique container.isEndRecord container'.isEndRecord last'
    obtain rfl := container.unique container'
    exact missing ⟨document.contentTypes, document.main⟩
  · intro unmasked accepted
    obtain ⟨part, known, endOffset, record, entries, texts, container, recognized, last⟩ :=
      validateOoxmlContainer_eq_true.mp accepted
    refine ⟨part, known, endOffset, record, entries, container, last, document_of_recognized recognized ?_⟩
    by_contra missing
    exact unmasked ⟨part, known, endOffset, record, entries, texts, container, last, recognized, missing⟩

/-- The comment holds an end record of its own, and the container that this one ends is recognized. -/
def Archive.Reread (archive : Archive) (part : String) : Prop :=
  ∃ endOffset record entries texts, archive.endOffset < endOffset ∧
    Container archive.layout endOffset record entries ∧ Recognized part entries texts ∧
      Last archive.layout endOffset

theorem Archive.accepted_iff {archive : Archive} (admissible : archive.Admissible) {mime part : String}
    (known : mainPart.lookup mime = some part) (document : Document part archive.entries) :
    validateOoxmlContainer archive.layout mime = true ↔
      (Last archive.layout archive.endOffset ∧ Distinguished archive.entries) ∨ archive.Reread part := by
  rw [validateOoxmlContainer_eq_true]
  constructor
  · rintro ⟨part', known', endOffset, record, entries, texts, container, recognized, last⟩
    obtain rfl : part = part' := Option.some.inj (known.symm.trans known')
    rcases Nat.lt_trichotomy endOffset archive.endOffset with before | same | after
    · have missed := last _ before
      rw [admissible.container.isEndRecord] at missed
      cases missed
    · rw [same] at container last
      rw [container.unique admissible.container] at recognized
      exact .inl ⟨last, texts, recognized.named, recognized.distinct⟩
    · exact .inr ⟨endOffset, record, entries, texts, after, container, recognized, last⟩
  · rintro (⟨last, texts, named, distinct⟩ | ⟨endOffset, record, entries, texts, -, container, reread⟩)
    · exact ⟨part, known, archive.endOffset, archive.record, archive.entries, texts,
        admissible.container, ⟨named, distinct, named.plain contentTypes_plain document.contentTypes,
          named.plain (mainPart_plain known) document.main⟩, last⟩
    · exact ⟨part, known, endOffset, record, entries, texts, container, reread⟩

/-- Without a comment nothing follows the end record. -/
theorem Archive.last_of_comment {archive : Archive} (none : archive.comment = []) :
    Last archive.layout archive.endOffset := by
  intro later above
  by_contra found
  obtain ⟨-, length, read, ends⟩ := isEndRecord_iff.mp (by simpa using found)
  have whole : archive.layout.length = archive.endOffset + 22 := by
    simp only [layout, endOffset, none, List.append_nil, List.length_append, length_fields, widths_endRow]
    omega
  omega

/-- Soundness up to parts behind a mark, completeness up to names that only a mark tells apart. -/
theorem validateOoxmlContainer_format (mime : String) :
    (∀ buffer, (validateOoxmlContainer buffer mime = true → Format buffer mime) ↔ ¬Masked buffer mime) ∧
      ∀ part, mainPart.lookup mime = some part → ∀ archive : Archive, archive.Admissible →
        Document part archive.entries →
          (validateOoxmlContainer archive.layout mime = true ↔
            (Last archive.layout archive.endOffset ∧ Distinguished archive.entries) ∨
              archive.Reread part) :=
  ⟨fun buffer => format_iff_unmasked buffer mime,
    fun _ known _ admissible document => Archive.accepted_iff admissible known document⟩

/-! ### Two small archives -/

def wordMime : String := "application/vnd.openxmlformats-officedocument.wordprocessingml.document"

/-- An empty part with a name. -/
def emptyPart (flags : Nat) (path : List Char) : Part where
  flags := flags
  method := 0
  name := encode path
  data := []
  uncompressedSize := 0
  localCompressedSize := 0
  localUncompressedSize := 0

def wordArchive (flags : Nat) (path : List Char) : Archive where
  parts := [emptyPart flags path, emptyPart 0 "word/document.xml".toList]

theorem emptyPart_sized {flags : Nat} {path : List Char} (small : flags < 256 ^ 2)
    (short : (encode path).length < 256) : (emptyPart flags path).Sized where
  flags := small
  method := by norm_num [emptyPart]
  name := Nat.lt_trans short (by norm_num)
  data := by norm_num [emptyPart]
  uncompressedSize := by norm_num [emptyPart]
  localExtra := by norm_num [emptyPart]
  localCompressedSize := by norm_num [emptyPart]
  localUncompressedSize := by norm_num [emptyPart]
  extra := by norm_num [emptyPart]
  comment := by norm_num [emptyPart]

theorem emptyPart_allowed {flags offset : Nat} {path : List Char} (clear : flags &&& encryptionFlags = 0)
    (near : offset < zip64UInt32) : ((emptyPart flags path).header offset).Allowed where
  unencrypted := clear
  method := .inl rfl
  disk := rfl
  size := Nat.zero_le _
  ratio := Nat.zero_le _
  compressed := by norm_num [Part.header, emptyPart, zip64UInt32]
  offset := Nat.ne_of_lt near

theorem emptyPart_localBytes (flags : Nat) (path : List Char) :
    (emptyPart flags path).localBytes.length = 30 + (encode path).length := by
  simp [Part.localBytes, emptyPart, length_fields, Part.localRow, widths]

theorem emptyPart_centralBytes (flags : Nat) (path : List Char) (offset : Nat) :
    ((emptyPart flags path).centralBytes offset).length = 46 + (encode path).length := by
  rw [Part.length_centralBytes]
  rfl

theorem wordArchive_admissible {flags : Nat} {path : List Char} (clear : flags &&& encryptionFlags = 0)
    (small : flags < 256 ^ 2) (short : (encode path).length < 256) :
    (wordArchive flags path).Admissible := by
  have main : (encode "word/document.xml".toList).length = 17 := by decide
  refine ⟨?_, ?_, ?_, Nat.le_of_ble_eq_true rfl, Nat.zero_le _, ?_, ?_, Nat.pos_of_ne_zero (by norm_num)⟩
  · exact List.forall_mem_cons.mpr ⟨emptyPart_sized small short,
      List.forall_mem_singleton.mpr (emptyPart_sized (by norm_num) (by omega))⟩
  · exact List.forall_mem_cons.mpr ⟨fun _ => ⟨rfl, rfl⟩, List.forall_mem_singleton.mpr fun _ => ⟨rfl, rfl⟩⟩
  · refine List.forall_mem_cons.mpr ⟨emptyPart_allowed clear (by norm_num [zip64UInt32]),
      List.forall_mem_singleton.mpr (emptyPart_allowed (by decide) ?_)⟩
    rw [emptyPart_localBytes]
    unfold zip64UInt32
    omega
  · simp only [wordArchive, localArea, List.flatMap_cons, List.flatMap_nil, List.append_nil,
      List.length_append, emptyPart_localBytes]
    unfold zip64UInt32
    omega
  · simp only [wordArchive, directory, List.append_nil, List.length_append, emptyPart_centralBytes]
    unfold zip64UInt32
    omega

theorem printable_of_all {path : List Char}
    (checked : path.all (fun c => 0x20 ≤ c.toNat && c.toNat ≤ 0x7e) = true) :
    ∀ c ∈ path, 0x20 ≤ c.toNat ∧ c.toNat ≤ 0x7e := by
  intro c inside
  have both := List.all_eq_true.mp checked c inside
  simpa using both

theorem main_safe : SafePath "word/document.xml".toList :=
  ⟨by decide, by decide, by decide, by decide⟩

theorem contentTypes_safe : SafePath contentTypes.toList :=
  ⟨by decide, by decide, by decide, by decide⟩

theorem wordArchive_named {flags : Nat} {path : List Char}
    (plain : flags &&& utf8NameFlag = 0 → ∀ c ∈ path, 0x20 ≤ c.toNat ∧ c.toNat ≤ 0x7e)
    (same : seen flags path = contentTypes.toList) :
    Named (wordArchive flags path).entries [contentTypes.toList, "word/document.xml".toList] := by
  have main : seen 0 "word/document.xml".toList = "word/document.xml".toList := by decide
  refine .cons ?_ (.cons ?_ .nil)
  · exact entryName_eq_some.mpr ⟨path, ⟨rfl, plain⟩, same.symm, contentTypes_safe⟩
  · exact entryName_eq_some.mpr
      ⟨_, ⟨rfl, fun _ => printable_of_all (by decide)⟩, main.symm, main_safe⟩

/-- A document with nothing in it. -/
theorem wordArchive_accepted :
    validateOoxmlContainer (wordArchive 0 contentTypes.toList).layout wordMime = true := by
  have named := @wordArchive_named 0 contentTypes.toList (fun _ => printable_of_all (by decide)) rfl
  refine ((validateOoxmlContainer_format wordMime).2 "word/document.xml" (by decide) _
    (wordArchive_admissible (by decide) (by decide) (by decide)) ?_).mpr
    (.inl ⟨Archive.last_of_comment rfl, _, named, by decide⟩)
  exact ⟨named.distinct (by decide), named.safe, List.mem_cons_self, .tail _ List.mem_cons_self⟩

/-- The content types under a name with a mark in front, which the decoder drops. -/
def markedArchive : Archive := wordArchive utf8NameFlag ('\uFEFF' :: contentTypes.toList)

/-- No other end record ends with the buffer. -/
theorem markedArchive_isEndRecord {offset : Nat}
    (here : isEndRecord markedArchive.layout offset = true) : offset = markedArchive.endOffset := by
  have single : (List.range 300).all
      (fun place => !isEndRecord markedArchive.layout place || place == markedArchive.endOffset) = true := by
    decide +kernel
  have length : markedArchive.layout.length < 300 := by decide +kernel
  obtain ⟨signature, -⟩ := isEndRecord_iff.mp here
  have below := fits_of_readLE signature
  have checked := List.all_eq_true.mp single offset (List.mem_range.mpr (by omega))
  simpa [here] using checked

theorem markedArchive_accepted :
    validateOoxmlContainer markedArchive.layout wordMime = true ∧
      ∀ endOffset record entries, Container markedArchive.layout endOffset record entries →
        encode contentTypes.toList ∉ entries.map Prod.snd := by
  have admissible : markedArchive.Admissible := wordArchive_admissible (by decide) (by decide) (by decide)
  have named : Named markedArchive.entries [contentTypes.toList, "word/document.xml".toList] :=
    wordArchive_named (fun unflagged => absurd unflagged (by decide)) (by decide)
  refine ⟨validateOoxmlContainer_eq_true.mpr ⟨"word/document.xml", by decide, _, _, _, _,
    admissible.container, ⟨named, by decide, List.mem_cons_self, .tail _ List.mem_cons_self⟩,
    Archive.last_of_comment rfl⟩, ?_⟩
  intro endOffset record entries container
  have place := markedArchive_isEndRecord container.isEndRecord
  rw [place] at container
  rw [container.unique admissible.container]
  have absent : (markedArchive.entries.map Prod.snd).contains (encode contentTypes.toList) = false := by
    decide +kernel
  intro listed
  rw [List.contains_iff_mem.mpr listed] at absent
  cases absent

end SdcoreNest.UploadedFile.Ooxml
