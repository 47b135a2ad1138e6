/-
# UploadedFile.Slugs -- the part of a storage key that a name becomes

`slugify` of `utils.ts`: ASCII letters, digits, points and underscores, with one hyphen for
whatever else stood between them.  A slug is its own slug.  Decomposition and the diacritics are
those of Unicode.
-/
import SdcoreNest.UploadedFile.FileNames
import Mathlib.Data.List.Chain

namespace SdcoreNest.UploadedFile.FileNames

open SdcoreNest.Theory SdcoreNest.Theory.JsString

set_option autoImplicit false

/-! ## The function -/

/-- `normalize('NFD')`, and the property `\p{Diacritic}` of a character. -/
structure Unicode where
  nfd : JsString → JsString
  isDiacritic : JsString → Bool

/-- `[a-zA-Z0-9.\-_]` -/
def isKept (u : UInt16) : Bool := isLetter u || isDigit u || u == 0x2E || u == 0x2D || u == 0x5F

def isDash (u : UInt16) : Bool := u == 0x2D

/-- Every run of such units becomes one hyphen; a run may already have begun. -/
def replaceRuns (run : UInt16 → Bool) (within : Bool) : JsString → JsString
  | [] => []
  | u :: rest =>
      if run u then (if within then [] else [0x2D]) ++ replaceRuns run true rest
      else u :: replaceRuns run false rest

def stripFirst (s : JsString) : JsString := if s.head? = some 0x2D then s.tail else s

def stripLast (s : JsString) : JsString := if s.getLast? = some 0x2D then s.dropLast else s

/-- `replace(/^-|-$/g, '')` -/
def stripDashes (s : JsString) : JsString := stripLast (stripFirst s)

/-- The letter `đ` of either case, which does not decompose. -/
def plainUnit (u : UInt16) : UInt16 := if u = 0x111 then 0x64 else if u = 0x110 then 0x44 else u

def slugify (unicode : Unicode) (input : JsString) : JsString :=
  let text := unicode.nfd (if input = [] then js "TEMP" else input)
  let bare := ((characters text).filter fun character => !unicode.isDiacritic character).flatten
  let dashed := replaceRuns (fun u => !isKept u) false (bare.map plainUnit)
  (stripDashes (replaceRuns isDash false dashed)).map lowerAscii

/-! ## Slugs -/

/-- `[a-z0-9.\-_]` -/
def isSlugUnit (u : UInt16) : Bool := isKept u && lowerAscii u == u

/-- Two units that may stand next to each other. -/
def Adjacent (u v : UInt16) : Prop := ¬(isDash u = true ∧ isDash v = true)

/-- Kept units in lower case, without a hyphen at an end or two in a row. -/
structure IsSlug (s : JsString) : Prop where
  units : ∀ u ∈ s, isSlugUnit u = true
  single : s.IsChain Adjacent
  first : s.head? ≠ some 0x2D
  last : s.getLast? ≠ some 0x2D

section

variable {run : UInt16 → Bool} {within : Bool} {s : JsString}

theorem of_mem_replaceRuns {u : UInt16} (inside : u ∈ replaceRuns run within s) :
    u = 0x2D ∨ (u ∈ s ∧ run u = false) := by
  induction s generalizing within with
  | nil => cases inside
  | cons v rest ih =>
      have later (found : u = 0x2D ∨ (u ∈ rest ∧ run u = false)) :
          u = 0x2D ∨ (u ∈ v :: rest ∧ run u = false) :=
        found.imp id fun found => ⟨.tail _ found.1, found.2⟩
      rw [replaceRuns] at inside
      by_cases replaced : run v = true
      · rw [if_pos replaced] at inside
        rcases List.mem_append.mp inside with inside | inside
        · cases within
          · exact .inl (List.mem_singleton.mp inside)
          · cases inside
        · exact later (ih inside)
      · rw [if_neg replaced] at inside
        rcases List.mem_cons.mp inside with rfl | inside
        · exact .inr ⟨List.mem_cons_self, Bool.eq_false_iff.mpr replaced⟩
        · exact later (ih inside)

theorem mem_replaceRuns {u : UInt16} (inside : u ∈ s) (kept : run u = false) : u ∈ replaceRuns run within s := by
  induction s generalizing within with
  | nil => cases inside
  | cons v rest ih =>
      rw [replaceRuns]
      rcases List.mem_cons.mp inside with rfl | inside
      · rw [if_neg (Bool.eq_false_iff.mp kept)]
        exact List.mem_cons_self
      · by_cases replaced : run v = true
        · rw [if_pos replaced]
          exact List.mem_append_right _ (ih inside)
        · rw [if_neg replaced]
          exact .tail _ (ih inside)

theorem replaceRuns_of_none (kept : ∀ u ∈ s, run u = false) : replaceRuns run within s = s := by
  induction s generalizing within with
  | nil => rfl
  | cons v rest ih =>
      rw [replaceRuns, if_neg (Bool.eq_false_iff.mp (kept v List.mem_cons_self)),
        ih fun u inside => kept u (.tail _ inside)]

/-- Runs of hyphens leave single ones. -/
theorem replaceRuns_single : (replaceRuns isDash within s).IsChain Adjacent ∧
    (within = true → (replaceRuns isDash within s).head? ≠ some 0x2D) := by
  induction s generalizing within with
  | nil => exact ⟨.nil, fun _ other => by cases other⟩
  | cons u rest ih =>
      rw [replaceRuns]
      by_cases dash : isDash u = true
      · rw [if_pos dash]
        obtain ⟨chain, head⟩ := @ih true
        cases within with
        | true => exact ⟨chain, head⟩
        | false =>
            refine ⟨List.isChain_cons.mpr ⟨fun v front both => ?_, chain⟩, fun other => by cases other⟩
            rw [isDash, isDash, beq_iff_eq, beq_iff_eq] at both
            exact head rfl (both.2 ▸ front)
      · rw [if_neg dash]
        refine ⟨List.isChain_cons.mpr ⟨fun v _ both => dash both.1, (@ih false).1⟩, fun _ other => dash ?_⟩
        rw [List.head?_cons, Option.some.injEq] at other
        rw [isDash, other]
        rfl

theorem replaceRuns_dash (chain : s.IsChain Adjacent) : replaceRuns isDash false s = s ∧
    (s.head? ≠ some 0x2D → replaceRuns isDash true s = s) := by
  induction s with
  | nil => exact ⟨rfl, fun _ => rfl⟩
  | cons u rest ih =>
      obtain ⟨adjacent, chain⟩ := List.isChain_cons.mp chain
      obtain ⟨start, later⟩ := ih chain
      by_cases dash : isDash u = true
      · have same : u = 0x2D := beq_iff_eq.mp dash
        have apart : rest.head? ≠ some 0x2D := fun front => adjacent 0x2D front ⟨dash, rfl⟩
        refine ⟨?_, fun other => absurd (same ▸ rfl) other⟩
        rw [replaceRuns, if_pos dash, later apart, same]
        rfl
      · refine ⟨?_, fun _ => ?_⟩
        · rw [replaceRuns, if_neg dash, start]
        · rw [replaceRuns, if_neg dash, start]

end

theorem stripFirst_back (s : JsString) : stripFirst s <:+ s := by
  unfold stripFirst
  split
  · exact List.tail_suffix s
  · exact List.suffix_refl s

theorem stripLast_front (s : JsString) : stripLast s <+: s := by
  unfold stripLast
  split
  · exact List.dropLast_prefix s
  · exact List.prefix_refl s

theorem stripDashes_within (s : JsString) : stripDashes s <:+: s :=
  (stripLast_front _).isInfix.trans (stripFirst_back s).isInfix

/-- A hyphen at an end has no other behind it. -/
theorem stripDashes_ends {s : JsString} (chain : s.IsChain Adjacent) :
    (stripDashes s).head? ≠ some 0x2D ∧ (stripDashes s).getLast? ≠ some 0x2D := by
  have front : (stripFirst s).head? ≠ some 0x2D := by
    unfold stripFirst
    split
    next head =>
      obtain ⟨rest, rfl⟩ := List.head?_eq_some_iff.mp head
      exact fun second => (List.isChain_cons.mp chain).1 0x2D second ⟨rfl, rfl⟩
    next head => exact head
  have chain' : (stripFirst s).IsChain Adjacent := chain.infix (stripFirst_back s).isInfix
  unfold stripDashes
  generalize stripFirst s = t at front chain'
  constructor
  · intro head
    obtain ⟨rest, shape⟩ := List.head?_eq_some_iff.mp head
    obtain ⟨back, whole⟩ := stripLast_front t
    rw [shape, List.cons_append] at whole
    rw [← whole] at front
    exact front rfl
  · unfold stripLast
    split
    next last =>
      obtain ⟨rest, rfl⟩ := List.getLast?_eq_some_iff.mp last
      rw [List.dropLast_concat]
      exact fun second => (List.isChain_append.mp chain').2.2 0x2D second 0x2D rfl ⟨rfl, rfl⟩
    next last => exact last

theorem mem_stripDashes {s : JsString} {u : UInt16} (inside : u ∈ s) (other : u ≠ 0x2D) : u ∈ stripDashes s := by
  have front : u ∈ stripFirst s := by
    unfold stripFirst
    split
    next head =>
      obtain ⟨rest, rfl⟩ := List.head?_eq_some_iff.mp head
      exact (List.mem_cons.mp inside).resolve_left other
    next => exact inside
  unfold stripDashes stripLast
  split
  next last =>
    obtain ⟨rest, shape⟩ := List.getLast?_eq_some_iff.mp last
    rw [shape] at front ⊢
    rw [List.dropLast_concat]
    exact (List.mem_append.mp front).resolve_right fun inside => other (List.mem_singleton.mp inside)
  next => exact front

/-! ## A slug is its own slug -/

/-- What is used of Unicode: ASCII decomposes to itself, and stays when other text decomposes; no
unit of a slug and no letter is a diacritic. -/
structure Unicode.Lawful (unicode : Unicode) : Prop where
  ascii : ∀ s : JsString, (∀ u ∈ s, u.toNat < 0x80) → unicode.nfd s = s
  keeps : ∀ (s : JsString) (u : UInt16), u ∈ s → u.toNat < 0x80 → u ∈ unicode.nfd s
  plain : ∀ u : UInt16, isKept u = true → unicode.isDiacritic [u] = false

theorem isKept_ascii {u : UInt16} (kept : isKept u = true) : u.toNat < 0x80 ∧ plainUnit u = u := by
  have small : u.toNat < 0x80 := by
    simp only [isKept, isLetter, isDigit, Bool.or_eq_true, Bool.and_eq_true, decide_eq_true_eq,
      beq_iff_eq, ← UInt16.toNat_inj, UInt16.reduceToNat] at kept
    omega
  refine ⟨small, ?_⟩
  unfold plainUnit
  rw [if_neg, if_neg]
  · rintro rfl
    revert small
    decide
  · rintro rfl
    revert small
    decide

theorem lowerAscii_cases (u : UInt16) : lowerAscii u = u ∨
    (0x41 ≤ u.toNat ∧ u.toNat ≤ 0x5A ∧ (lowerAscii u).toNat = u.toNat + 0x20) := by
  unfold lowerAscii
  by_cases upper : 0x41 ≤ u.toNat ∧ u.toNat ≤ 0x5A
  · rw [if_pos upper]
    refine .inr ⟨upper.1, upper.2, UInt16.toNat_ofNat_of_lt ?_⟩
    have size : UInt16.size = 65536 := rfl
    omega
  · rw [if_neg upper]
    exact .inl rfl

theorem lowerAscii_kept {u : UInt16} (kept : isKept u = true) : isSlugUnit (lowerAscii u) = true := by
  have again : lowerAscii (lowerAscii u) = lowerAscii u := by
    rcases lowerAscii_cases u with same | ⟨low, high, lowered⟩
    · rw [same, same]
    · rcases lowerAscii_cases (lowerAscii u) with same | ⟨low', high', -⟩
      · exact same
      · omega
  have kept' : isKept (lowerAscii u) = true := by
    rcases lowerAscii_cases u with same | ⟨low, high, lowered⟩
    · rwa [same]
    · have letter : isLetter (lowerAscii u) = true := by
        simp only [isLetter, lowered, Bool.or_eq_true, Bool.and_eq_true, decide_eq_true_eq]
        omega
      rw [isKept, letter]
      rfl
  rw [isSlugUnit, kept', again, beq_self_eq_true]
  rfl

theorem isDash_lowerAscii (u : UInt16) : isDash (lowerAscii u) = isDash u := by
  rcases lowerAscii_cases u with same | ⟨low, high, lowered⟩
  · rw [same]
  · have other (v : UInt16) (letter : 0x41 ≤ v.toNat) : isDash v = false := by
      rw [isDash, beq_eq_false_iff_ne]
      rintro rfl
      revert letter
      decide
    rw [other u low, other (lowerAscii u) (by omega)]

theorem characters_of_ascii {s : JsString} (ascii : ∀ u ∈ s, u.toNat < 0x80) :
    characters s = s.map fun u => [u] := by
  induction s using characters.induct with
  | case1 => rfl
  | case2 u => rfl
  | case3 u v rest pair ih =>
      have small := ascii u List.mem_cons_self
      simp only [isLeading, Bool.and_eq_true, decide_eq_true_eq] at pair
      omega
  | case4 u v rest single ih =>
      rw [characters, if_neg single, ih fun w inside => ascii w (.tail _ inside)]
      rfl

theorem mem_characters {s : JsString} {u : UInt16} (inside : u ∈ s) (ascii : u.toNat < 0x80) :
    [u] ∈ characters s := by
  induction s using characters.induct with
  | case1 => cases inside
  | case2 v => exact List.mem_singleton.mpr (congrArg (fun w => [w]) (List.mem_singleton.mp inside))
  | case3 v w rest pair ih =>
      simp only [isLeading, isTrailing, Bool.and_eq_true, decide_eq_true_eq] at pair
      rw [characters, if_pos (by simpa [isLeading, isTrailing] using pair)]
      rcases List.mem_cons.mp inside with rfl | inside
      · omega
      rcases List.mem_cons.mp inside with rfl | inside
      · omega
      exact .tail _ (ih inside)
  | case4 v w rest single ih =>
      rw [characters, if_neg single]
      rcases List.mem_cons.mp inside with rfl | inside
      · exact List.mem_cons_self
      · exact .tail _ (ih inside)

theorem isSlug_slugify (unicode : Unicode) (input : JsString) : IsSlug (slugify unicode input) := by
  unfold slugify
  simp only
  generalize unicode.nfd (if input = [] then js "TEMP" else input) = text
  generalize (((characters text).filter fun character => !unicode.isDiacritic character).flatten.map plainUnit)
    = plain
  have chain := (@replaceRuns_single false (replaceRuns (fun u => !isKept u) false plain)).1
  have kept : ∀ u ∈ replaceRuns isDash false (replaceRuns (fun u => !isKept u) false plain),
      isKept u = true := by
    intro u inside
    rcases of_mem_replaceRuns inside with rfl | ⟨inside, -⟩
    · decide
    · rcases of_mem_replaceRuns inside with rfl | ⟨-, kept⟩
      · decide
      · rwa [Bool.not_eq_false'] at kept
  generalize replaceRuns isDash false (replaceRuns (fun u => !isKept u) false plain) = single at chain kept
  obtain ⟨first, last⟩ := stripDashes_ends chain
  have chain' : (stripDashes single).IsChain Adjacent := chain.infix (stripDashes_within single)
  have dash {u : UInt16} (lowered : lowerAscii u = 0x2D) : u = 0x2D := by
    have same := isDash_lowerAscii u
    rw [lowered] at same
    exact beq_iff_eq.mp same.symm
  refine ⟨?_, ?_, ?_, ?_⟩
  · intro v inside
    obtain ⟨u, held, rfl⟩ := List.mem_map.mp inside
    exact lowerAscii_kept (kept u ((stripDashes_within single).subset held))
  · refine (List.isChain_map lowerAscii).mpr (chain'.imp fun u v apart => ?_)
    rwa [Adjacent, isDash_lowerAscii, isDash_lowerAscii]
  · intro head
    rw [List.head?_map, Option.map_eq_some_iff] at head
    obtain ⟨u, head, lowered⟩ := head
    exact first (dash lowered ▸ head)
  · intro head
    rw [List.getLast?_map, Option.map_eq_some_iff] at head
    obtain ⟨u, head, lowered⟩ := head
    exact last (dash lowered ▸ head)

/-- The text that is left of kept units without diacritics is the text. -/
theorem bare_of_kept {unicode : Unicode} (lawful : unicode.Lawful) {s : JsString}
    (kept : ∀ u ∈ s, isKept u = true) :
    ((characters (unicode.nfd s)).filter fun character => !unicode.isDiacritic character).flatten.map plainUnit
      = s := by
  have ascii : ∀ u ∈ s, u.toNat < 0x80 := fun u inside => (isKept_ascii (kept u inside)).1
  have all : (s.map fun u => [u]).filter (fun character => !unicode.isDiacritic character) =
      s.map fun u => [u] := by
    refine List.filter_eq_self.mpr fun character listed => ?_
    obtain ⟨u, inside, rfl⟩ := List.mem_map.mp listed
    rw [lawful.plain u (kept u inside)]
    rfl
  have flat : (s.map fun u => [u]).flatten = s := by
    rw [← List.flatMap_def]
    exact List.flatMap_singleton' s
  rw [lawful.ascii s ascii, characters_of_ascii ascii, all, flat]
  exact (List.map_congr_left fun u inside => (isKept_ascii (kept u inside)).2).trans (List.map_id s)

theorem IsSlug.slugify {s : JsString} (slug : IsSlug s) (nonempty : s ≠ []) {unicode : Unicode}
    (lawful : unicode.Lawful) : FileNames.slugify unicode s = s := by
  have parts : ∀ u ∈ s, isKept u = true ∧ lowerAscii u = u := fun u inside => by
    have unit := slug.units u inside
    rwa [isSlugUnit, Bool.and_eq_true, beq_iff_eq] at unit
  have kept : ∀ u ∈ s, isKept u = true := fun u inside => (parts u inside).1
  have dashed : replaceRuns (fun u => !isKept u) false s = s :=
    replaceRuns_of_none fun u inside => by rw [kept u inside]; rfl
  have stripped : stripDashes s = s := by
    rw [stripDashes, stripFirst, if_neg slug.first, stripLast, if_neg slug.last]
  unfold FileNames.slugify
  simp only
  rw [if_neg nonempty, bare_of_kept lawful kept, dashed, (replaceRuns_dash slug.single).1, stripped]
  exact (List.map_congr_left fun u inside => (parts u inside).2).trans (List.map_id s)

/-- A letter of a text stays in its slug. -/
theorem mem_slugify {unicode : Unicode} (lawful : unicode.Lawful) {input : JsString} {u : UInt16}
    (inside : u ∈ input) (letter : isLetter u = true) : lowerAscii u ∈ FileNames.slugify unicode input := by
  have kept : isKept u = true := by
    rw [isKept, letter]
    rfl
  have noDash : isDash u = false := by
    rw [isDash, beq_eq_false_iff_ne]
    rintro rfl
    cases letter
  obtain ⟨ascii, plain⟩ := isKept_ascii kept
  unfold FileNames.slugify
  simp only
  rw [if_neg (List.ne_nil_of_mem inside)]
  refine List.mem_map_of_mem (mem_stripDashes (mem_replaceRuns (mem_replaceRuns ?_ ?_) noDash) ?_)
  · refine List.mem_map.mpr ⟨u, List.mem_flatten.mpr ⟨[u], List.mem_filter.mpr ⟨?_, ?_⟩, ?_⟩, plain⟩
    · exact mem_characters (lawful.keeps input u inside ascii) ascii
    · rw [lawful.plain u kept]
      rfl
    · exact List.mem_cons_self
  · rw [kept]
    rfl
  · rintro rfl
    cases letter

end SdcoreNest.UploadedFile.FileNames
