/-
# UploadedFile.FileNames -- display names and the header that carries them

`sanitizeOriginalFileName` and `contentDisposition` of `upload-security.ts`, on code units: a name is
any JavaScript string, and `slice(0, 1024)` may cut a surrogate pair in two.

* `clean_of_ends` -- a sanitized name is sanitized once for all, unless the cut left white space at its end;
* `contentDisposition_safe_iff` -- when the header can be written, and then it is safe.
-/
import SdcoreNest.Theory.Utf8
import SdcoreNest.UploadedFile.Entity

namespace SdcoreNest.UploadedFile.FileNames

open SdcoreNest.Theory SdcoreNest.Theory.JsString

set_option autoImplicit false

/-! ## Names -/

/-- `Array.from(text)`: a text for each pair and for each other code unit. -/
def characters : JsString → List JsString
  | [] => []
  | [u] => [[u]]
  | u :: v :: rest =>
      if isLeading u && isTrailing v then [u, v] :: characters rest
      else [u] :: characters (v :: rest)

def isPrintable (u : UInt16) : Bool := 32 ≤ u.toNat && u.toNat ≠ 127

/-- What follows the last slash of either kind. -/
def leafName (text : JsString) : JsString :=
  ((splitOn 0x2F (text.map fun u => if u = 0x5C then 0x2F else u)).getLast?).getD (js "TEMP")

/-- The leaf without control characters and without white space at its ends. -/
def cleanedName (input : JsString) : JsString :=
  let leaf := leafName (if input = [] then js "TEMP" else input)
  trim ((characters leaf).filter fun character => character.head?.any isPrintable).flatten

def sanitizeOriginalFileName (input : Option JsString) : JsString :=
  let cleaned := (cleanedName (input.getD [])).take 1024
  if cleaned = [] then js "TEMP" else cleaned

/-- A trailing surrogate is printable, so the characters can be filtered unit by unit. -/
theorem flatten_printable (s : JsString) :
    ((characters s).filter fun character => character.head?.any isPrintable).flatten =
      s.filter isPrintable := by
  induction s using characters.induct with
  | case1 => rfl
  | case2 u =>
      rw [characters]
      cases printable : isPrintable u <;> simp [printable]
  | case3 u v rest pair ih =>
      obtain ⟨leading, trailing⟩ := Bool.and_eq_true_iff.mp pair
      simp only [isLeading, isTrailing, Bool.and_eq_true, decide_eq_true_eq] at leading trailing
      have first : isPrintable u = true := by
        simp only [isPrintable, Bool.and_eq_true, decide_eq_true_eq]
        omega
      have second : isPrintable v = true := by
        simp only [isPrintable, Bool.and_eq_true, decide_eq_true_eq]
        omega
      rw [characters, if_pos pair, List.filter_cons_of_pos (by simpa using first), List.flatten_cons, ih,
        List.filter_cons_of_pos first, List.filter_cons_of_pos second]
      rfl
  | case4 u v rest single ih =>
      rw [characters, if_neg single]
      cases printable : isPrintable u with
      | true =>
          rw [List.filter_cons_of_pos (by simpa using printable), List.flatten_cons, ih,
            List.filter_cons_of_pos printable]
          rfl
      | false =>
          rw [List.filter_cons_of_neg (by simpa using printable), ih]
          exact (List.filter_cons_of_neg (by simpa using printable)).symm

theorem cleanedName_eq (input : JsString) : cleanedName input =
    trim ((leafName (if input = [] then js "TEMP" else input)).filter isPrintable) := by
  rw [cleanedName, flatten_printable]

/-! ### A clean name stays -/

theorem mem_leafName {text : JsString} {u : UInt16} (inside : u ∈ leafName text) :
    u ≠ 0x2F ∧ u ≠ 0x5C := by
  unfold leafName at inside
  cases last : (splitOn 0x2F (text.map fun u => if u = 0x5C then 0x2F else u)).getLast? with
  | none =>
      exact absurd (List.getLast?_eq_none_iff.mp last) (splitOn_ne_nil _ _)
  | some part =>
      rw [last] at inside
      obtain ⟨there, apart⟩ := of_mem_splitOn (List.mem_of_getLast? last) inside
      refine ⟨apart, ?_⟩
      rintro rfl
      obtain ⟨v, -, same⟩ := List.mem_map.mp there
      split at same
      · cases same
      · contradiction

theorem leafName_of_plain {text : JsString} (plain : ∀ u ∈ text, u ≠ 0x2F ∧ u ≠ 0x5C) :
    leafName text = text := by
  have same : (text.map fun u => if u = 0x5C then 0x2F else u) = text := by
    refine (List.map_congr_left fun u inside => ?_).trans (List.map_id text)
    exact if_neg (plain u inside).2
  rw [leafName, same, splitOn_of_not_mem fun inside => (plain 0x2F inside).1 rfl]
  rfl

/-- What trimming leaves alone. -/
def Trimmed (s : JsString) : Prop :=
  (∀ u ∈ s.head?, isSpace u = false) ∧ ∀ u ∈ s.getLast?, isSpace u = false

theorem trimStart_eq_self {s : JsString} (front : ∀ u ∈ s.head?, isSpace u = false) : trimStart s = s := by
  cases s with
  | nil => rfl
  | cons u rest => rw [trimStart, List.dropWhile_cons, front u rfl, if_neg Bool.false_ne_true]

theorem trim_eq_self {s : JsString} (trimmed : Trimmed s) : trim s = s := by
  rw [trim, trimStart_eq_self trimmed.1, trimStart_eq_self, List.reverse_reverse]
  rw [List.head?_reverse]
  exact trimmed.2

theorem trim_within (s : JsString) : trim s <+: trimStart s := by
  have suffix := List.dropWhile_suffix isSpace (l := (trimStart s).reverse)
  have reversed := List.reverse_prefix.mpr suffix
  rwa [List.reverse_reverse] at reversed

theorem trim_head {s : JsString} : ∀ u ∈ (trim s).head?, isSpace u = false := by
  intro u first
  obtain ⟨after, whole⟩ := trim_within s
  have kept := List.head?_dropWhile_not isSpace s
  cases shape : trim s with
  | nil => rw [shape] at first; cases first
  | cons v rest =>
      rw [shape] at first whole
      obtain rfl := Option.some.inj first
      rw [trimStart] at whole
      rw [← whole] at kept
      exact kept

theorem mem_cleanedName {input : JsString} {u : UInt16} (inside : u ∈ cleanedName input) :
    isPrintable u = true ∧ u ≠ 0x2F ∧ u ≠ 0x5C := by
  rw [cleanedName_eq] at inside
  have kept := (List.dropWhile_suffix isSpace).subset ((trim_within _).subset inside)
  obtain ⟨leaf, printable⟩ := List.mem_filter.mp kept
  exact ⟨printable, mem_leafName leaf⟩

/-- A name that sanitizing leaves alone. -/
structure Clean (name : JsString) : Prop where
  nonempty : name ≠ []
  plain : ∀ u ∈ name, isPrintable u = true ∧ u ≠ 0x2F ∧ u ≠ 0x5C
  trimmed : Trimmed name
  bounded : name.length ≤ 1024

theorem Clean.sanitize {name : JsString} (clean : Clean name) :
    sanitizeOriginalFileName (some name) = name := by
  have cleaned : cleanedName name = name := by
    rw [cleanedName_eq, if_neg clean.nonempty, leafName_of_plain fun u inside => (clean.plain u inside).2,
      List.filter_eq_self.mpr fun u inside => (clean.plain u inside).1, trim_eq_self clean.trimmed]
  simp only [sanitizeOriginalFileName, Option.getD_some, cleaned, List.take_of_length_le clean.bounded,
    if_neg clean.nonempty]

theorem clean_temp : Clean (js "TEMP") where
  nonempty := by decide
  plain u inside := by
    have each : (js "TEMP").all (fun u => isPrintable u && !(u == 0x2F) && !(u == 0x5C)) = true := rfl
    simpa [and_assoc] using List.all_eq_true.mp each u inside
  trimmed := ⟨fun u first => by cases first; rfl, fun u last => by cases last; rfl⟩
  bounded := by decide

/-- A sanitized name is clean, but for white space that the cut may leave at its end. -/
theorem clean_of_ends {input : Option JsString}
    (ends : ∀ u ∈ (sanitizeOriginalFileName input).getLast?, isSpace u = false) :
    Clean (sanitizeOriginalFileName input) := by
  by_cases empty : (cleanedName (input.getD [])).take 1024 = []
  · rw [sanitizeOriginalFileName, if_pos empty]
    exact clean_temp
  · rw [sanitizeOriginalFileName, if_neg empty] at ends ⊢
    refine ⟨empty, fun u inside => mem_cleanedName (List.mem_of_mem_take inside), ⟨?_, ends⟩,
      List.length_take_le _ _⟩
    intro u first
    rw [List.head?_take, if_neg (by decide), cleanedName_eq] at first
    exact trim_head u first

/-- What a text column gives back of a clean name is clean. -/
theorem Clean.toWellFormed {name : JsString} (clean : Clean name) : Clean name.toWellFormed := by
  have each := forall₂_toWellFormed name
  have replaced : isPrintable 0xFFFD = true ∧ (0xFFFD : UInt16) ≠ 0x2F ∧ (0xFFFD : UInt16) ≠ 0x5C ∧
      isSpace 0xFFFD = false := by decide
  have first : ∀ {s t : JsString}, List.Forall₂ (fun u v => v = u ∨ v = 0xFFFD) s t →
      (∀ u ∈ s.head?, isSpace u = false) → ∀ u ∈ t.head?, isSpace u = false := by
    rintro s t pairs heads u head
    cases pairs with
    | nil => cases head
    | cons related _ =>
        obtain rfl := Option.some.inj head
        rcases related with rfl | rfl
        · exact heads _ rfl
        · exact replaced.2.2.2
  refine ⟨?_, fun u inside => ?_, ⟨first each clean.trimmed.1, ?_⟩, ?_⟩
  · intro empty
    refine clean.nonempty (List.length_eq_zero_iff.mp ?_)
    rw [← length_toWellFormed, empty, List.length_nil]
  · rcases mem_toWellFormed inside with there | rfl
    · exact clean.plain u there
    · exact ⟨replaced.1, replaced.2.1, replaced.2.2.1⟩
  · rw [List.getLast?_eq_head?_reverse]
    refine first (List.forall₂_reverse_iff.mpr each) ?_
    rw [List.head?_reverse]
    exact clean.trimmed.2
  · rw [length_toWellFormed]
    exact clean.bounded

/-! ## `contentDisposition` -/

def dispositionText : Disposition → JsString
  | .inline => js "inline"
  | .attachment => js "attachment"

/-- Printable ASCII. -/
def isVisible (u : UInt16) : Bool := 0x20 ≤ u.toNat && u.toNat ≤ 0x7E

/-- `/[^\x20-\x7e]|["\\]/g`, replaced by an underscore. -/
def quotable (u : UInt16) : UInt16 := if isVisible u ∧ u ≠ 0x22 ∧ u ≠ 0x5C then u else 0x5F

def contentDisposition (fileName : JsString) (disposition : Disposition) : Option JsString :=
  let originalName := sanitizeOriginalFileName (some fileName)
  let fallback := originalName.map quotable
  -- `encodeURIComponent` throws at a lone surrogate
  (encodeURIComponent originalName).map fun encoded =>
    dispositionText disposition ++ js "; filename=\"" ++ fallback ++ js "\"; filename*=UTF-8''" ++ encoded

/-- Printable ASCII, a quoted name without quotes and backslashes, and an extended name that decodes. -/
structure HeaderSafe (fileName : JsString) (disposition : Disposition) (value : JsString) : Prop where
  ascii : ∀ u ∈ value, isVisible u = true
  parts : ∃ quoted extended,
    value = dispositionText disposition ++ js "; filename=\"" ++ quoted ++
        js "\"; filename*=UTF-8''" ++ extended ∧
      0x22 ∉ quoted ∧ 0x5C ∉ quoted ∧
      decodeURIComponent extended = some (sanitizeOriginalFileName (some fileName))

theorem quotable_plain (u : UInt16) :
    isVisible (quotable u) = true ∧ quotable u ≠ 0x22 ∧ quotable u ≠ 0x5C := by
  unfold quotable
  split
  next plain => exact plain
  next => decide

theorem encodeByte_plain : ∀ n : Fin 256, (encodeByte n).all isVisible = true := by
  decide +kernel

theorem dispositionText_plain (disposition : Disposition) :
    (dispositionText disposition).all isVisible = true := by
  cases disposition <;> decide +kernel

theorem separators_plain : (js "; filename=\"").all isVisible = true ∧
    (js "\"; filename*=UTF-8''").all isVisible = true := by
  decide +kernel

theorem headerSafe {fileName : JsString} {disposition : Disposition} {value : JsString}
    (written : contentDisposition fileName disposition = some value) :
    HeaderSafe fileName disposition value := by
  obtain ⟨encoded, found, rfl⟩ := Option.map_eq_some_iff.mp written
  have outside : ∀ mark : UInt16, (∀ u, quotable u ≠ mark) →
      mark ∉ (sanitizeOriginalFileName (some fileName)).map quotable := by
    intro mark apart inside
    obtain ⟨u, -, same⟩ := List.mem_map.mp inside
    exact apart u same
  refine ⟨fun u inside => ?_, _, encoded, rfl, outside 0x22 fun u => (quotable_plain u).2.1,
    outside 0x5C fun u => (quotable_plain u).2.2, decodeURIComponent_encode found⟩
  rw [List.mem_append, List.mem_append, List.mem_append, List.mem_append] at inside
  rcases inside with (((text | opening) | quoted) | closing) | extended
  · exact List.all_eq_true.mp (dispositionText_plain disposition) u text
  · exact List.all_eq_true.mp separators_plain.1 u opening
  · obtain ⟨unit, -, rfl⟩ := List.mem_map.mp quoted
    exact (quotable_plain unit).1
  · exact List.all_eq_true.mp separators_plain.2 u closing
  · obtain ⟨n, held⟩ := mem_encodeURIComponent found extended
    exact List.all_eq_true.mp (encodeByte_plain n) u held

/-- The name that is displayed is well formed just when what the cut leaves is. -/
theorem wellFormed_sanitize {input : JsString} :
    WellFormed (sanitizeOriginalFileName (some input)) ↔ WellFormed ((cleanedName input).take 1024) := by
  rw [sanitizeOriginalFileName]
  simp only [Option.getD_some]
  split
  next empty =>
    rw [empty]
    exact iff_of_true (wellFormed_units _) wellFormed_nil
  next => exact Iff.rfl

theorem contentDisposition_written {fileName : JsString} {disposition : Disposition} :
    (∃ value, contentDisposition fileName disposition = some value) ↔
      WellFormed (sanitizeOriginalFileName (some fileName)) := by
  rw [← encodeURIComponent_isSome, ← Option.isSome_iff_exists, contentDisposition, Option.isSome_map]

/-- **When the header can be written.** -/
theorem contentDisposition_safe_iff (fileName : JsString) (disposition : Disposition) :
    (∃ value, contentDisposition fileName disposition = some value ∧
      HeaderSafe fileName disposition value) ↔ WellFormed ((cleanedName fileName).take 1024) := by
  rw [← wellFormed_sanitize, ← @contentDisposition_written fileName disposition]
  constructor
  · rintro ⟨value, written, -⟩
    exact ⟨value, written⟩
  · rintro ⟨value, written⟩
    exact ⟨value, written, headerSafe written⟩

/-- A name of 1,025 code units whose last character the cut halves. -/
theorem halved_name_throws : ¬∀ (fileName : JsString) (disposition : Disposition),
    ∃ value, contentDisposition fileName disposition = some value ∧
      HeaderSafe fileName disposition value := by
  intro always
  obtain ⟨value, written, -⟩ := always (List.replicate 1023 0x61 ++ [0xD83D, 0xDE00]) .attachment
  have throws : contentDisposition (List.replicate 1023 0x61 ++ [0xD83D, 0xDE00]) .attachment = none := by
    decide +kernel
  rw [throws] at written
  cases written

end SdcoreNest.UploadedFile.FileNames
