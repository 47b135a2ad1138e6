/-
# I18n.AcceptLanguage -- headers by the grammar, and as the resolver reads them

A header is a list of language ranges with optional weights and white space.  The resolver
finds a weight only behind the text `;q=`.  Where it finds none it reads the range with full
weight if the tag has a region, and finds no base code otherwise; a zero weight is the least
weight to it.  It meets the grammar on exactly the headers in which this leaves the order of
the base codes as it is.
-/
import SdcoreNest.I18n.LanguageResolver
import SdcoreNest.Theory.Preference

namespace SdcoreNest.I18n

open SdcoreNest.Theory SdcoreNest.Theory.JsString

set_option autoImplicit false

/-! ## The grammar -/

/-- `OWS = *( SP / HTAB )` -/
structure Blank where
  text : JsString
  blank : ∀ u ∈ text, u = 0x20 ∨ u = 0x09

/-- `language-range = ( 1*8ALPHA *( "-" 1*8alphanum ) ) / "*"` -/
structure LanguageRange where
  primary : JsString
  subtags : List JsString
  primaryForm : primary = [0x2A] ∧ subtags = [] ∨
    (primary ≠ [] ∧ primary.length ≤ 8 ∧ ∀ u ∈ primary, isLetter u = true)
  subtagForm : ∀ subtag ∈ subtags, subtag ≠ [] ∧ subtag.length ≤ 8 ∧
    ∀ u ∈ subtag, (isLetter u || isDigit u) = true

def LanguageRange.text (range : LanguageRange) : JsString := joinWith [0x2D] (range.primary :: range.subtags)

/-- The primary subtag in lower case. -/
def LanguageRange.base (range : LanguageRange) : JsString := range.primary.map lowerAscii

/-- The digits behind the point of a weight, `0*3DIGIT`. -/
structure Fraction where
  text : JsString
  digits : ∀ u ∈ text, isDigit u = true
  short : text.length ≤ 3

/-- `qvalue = ( "0" [ "." 0*3DIGIT ] ) / ( "1" [ "." 0*3("0") ] )` -/
inductive QValue where
  | zero
  | below (fraction : Fraction)
  | one
  | full (zeros : Fin 4)

def QValue.text : QValue → JsString
  | .zero => [0x30]
  | .below fraction => 0x30 :: 0x2E :: fraction.text
  | .one => [0x31]
  | .full zeros => 0x31 :: 0x2E :: List.replicate zeros 0x30

def QValue.thousandths : QValue → Nat
  | .zero => 0
  | .below fraction => digitsValue 10 fraction.text * 10 ^ (3 - fraction.text.length)
  | .one | .full _ => 1000

/-- `weight = OWS ";" OWS "q=" qvalue`, where the letter has either case. -/
structure Weight where
  ahead : Blank
  behind : Blank
  capital : Bool
  qvalue : QValue

def Weight.text (weight : Weight) : JsString :=
  weight.ahead.text ++ 0x3B :: (weight.behind.text ++
    (if weight.capital then 0x51 else 0x71) :: 0x3D :: weight.qvalue.text)

/-- A member of the list with the white space around it. -/
structure Element where
  ahead : Blank
  range : LanguageRange
  weight : Option Weight
  behind : Blank

def Element.core (element : Element) : JsString :=
  element.range.text ++ element.weight.elim [] Weight.text

def Element.text (element : Element) : JsString :=
  element.ahead.text ++ element.core ++ element.behind.text

def Element.base (element : Element) : JsString := element.range.base

/-- What a range weighs by the grammar; zero is a refusal. -/
def Element.meant (element : Element) : Option Nat :=
  match element.weight with
  | none => some 1000
  | some weight => if weight.qvalue.thousandths = 0 then none else some weight.qvalue.thousandths

/-- What a range weighs to the resolver. -/
def Element.read (element : Element) : Option Nat :=
  match element.weight with
  | none => some 1000
  | some weight =>
      if weight.behind.text = [] ∧ weight.capital = false then some weight.qvalue.thousandths
      else if element.range.subtags = [] then none else some 1000

def headerText (header : List Element) : JsString := joinWith [0x2C] (header.map Element.text)

/-- A base code in lower case. -/
def IsCode (code : JsString) : Prop := ∀ u ∈ code, 0x61 ≤ u.toNat ∧ u.toNat ≤ 0x7A

/-! ## Texts and their separators -/

theorem cut_of_not_mem {first : UInt16} {more s : JsString} (outside : first ∉ s) :
    cut (first :: more) s = (s, none) := by
  induction s with
  | nil => rfl
  | cons u rest ih =>
      have other : ¬(first :: more).isPrefixOf (u :: rest) = true := by
        intro front
        rw [List.isPrefixOf_iff_prefix, List.cons_prefix_cons] at front
        exact outside (front.1 ▸ List.mem_cons_self)
      rw [cut, if_neg other, ih fun inside => outside (.tail _ inside)]

theorem cut_append {first : UInt16} {more s t : JsString} (outside : first ∉ s) :
    cut (first :: more) (s ++ t) = (s ++ (cut (first :: more) t).1, (cut (first :: more) t).2) := by
  induction s with
  | nil => rfl
  | cons u rest ih =>
      have other : ¬(first :: more).isPrefixOf (u :: (rest ++ t)) = true := by
        intro front
        rw [List.isPrefixOf_iff_prefix, List.cons_prefix_cons] at front
        exact outside (front.1 ▸ List.mem_cons_self)
      rw [List.cons_append, cut, if_neg other, ih fun inside => outside (.tail _ inside)]
      rfl

theorem cut_separator {first : UInt16} {more t : JsString} :
    cut (first :: more) (first :: (more ++ t)) = ([], some t) := by
  have front : (first :: more).isPrefixOf (first :: (more ++ t)) = true :=
    List.isPrefixOf_iff_prefix.mpr ⟨t, rfl⟩
  rw [cut, if_pos front, ← List.cons_append, List.drop_left]

/-- A separator that only starts is none. -/
theorem cut_of_start {first second u : UInt16} {more t : JsString} (other : second ≠ u)
    (outside : first ∉ u :: t) :
    cut (first :: second :: more) (first :: u :: t) = (first :: u :: t, none) := by
  have apart : ¬(first :: second :: more).isPrefixOf (first :: u :: t) = true := by
    intro front
    rw [List.isPrefixOf_iff_prefix, List.cons_prefix_cons, List.cons_prefix_cons] at front
    exact other front.2.1
  rw [cut, if_neg apart, cut_of_not_mem outside]

theorem trim_between {front core back : JsString} (ahead : ∀ u ∈ front, isSpace u = true)
    (behind : ∀ u ∈ back, isSpace u = true) (first : ∃ u rest, core = u :: rest ∧ isSpace u = false)
    (last : ∃ rest u, core = rest ++ [u] ∧ isSpace u = false) : trim (front ++ core ++ back) = core := by
  obtain ⟨u, rest, starts, shown⟩ := first
  obtain ⟨rest', v, ends, shown'⟩ := last
  have start (tail : JsString) : trimStart (core ++ tail) = core ++ tail := by
    rw [starts, List.cons_append, trimStart, List.dropWhile_cons, shown, if_neg Bool.false_ne_true]
  have back' : ∀ u ∈ back.reverse, isSpace u = true := fun u inside => behind u (List.mem_reverse.mp inside)
  have finish : trimStart (core ++ back).reverse = core.reverse := by
    rw [List.reverse_append, trimStart, List.dropWhile_append_of_pos back', ends, List.reverse_append,
      List.reverse_singleton, List.singleton_append, List.dropWhile_cons, shown', if_neg Bool.false_ne_true]
  rw [trim, List.append_assoc]
  have whole : trimStart (front ++ (core ++ back)) = core ++ back := by
    rw [trimStart, List.dropWhile_append_of_pos ahead]
    exact start back
  rw [whole, finish, List.reverse_reverse]

theorem before_append {separator : UInt16} {s t : JsString} (outside : separator ∉ s) :
    before separator (s ++ separator :: t) = s := by
  have apart : ∀ u ∈ s, decide (u ≠ separator) = true :=
    fun u inside => decide_eq_true fun same => outside (same ▸ inside)
  rw [before, List.takeWhile_append_of_pos apart, List.takeWhile_cons,
    if_neg (by simp), List.append_nil]

theorem before_of_not_mem {separator : UInt16} {s : JsString} (outside : separator ∉ s) :
    before separator s = s :=
  List.takeWhile_eq_self_iff.mpr fun _ inside => decide_eq_true fun same => outside (same ▸ inside)

/-! ## The units of an element -/

/-- A unit of a language range. -/
def isTagUnit (u : UInt16) : Bool := isLetter u || isDigit u || u == 0x2A || u == 0x2D

theorem isTagUnit_apart {u : UInt16} (unit : isTagUnit u = true) :
    isSpace u = false ∧ u ≠ 0x2C ∧ u ≠ 0x3B ∧ u.toNat < 0x80 := by
  simp only [isTagUnit, isLetter, isDigit, Bool.or_eq_true, Bool.and_eq_true, decide_eq_true_eq,
    beq_iff_eq, ← UInt16.toNat_inj, UInt16.reduceToNat] at unit
  simp only [isSpace, Bool.or_eq_false_iff, Bool.and_eq_false_iff, decide_eq_false_iff_not,
    beq_eq_false_iff_ne, ne_eq, ← UInt16.toNat_inj, UInt16.reduceToNat]
  omega

theorem Blank.isSpace (blank : Blank) : ∀ u ∈ blank.text, JsString.isSpace u = true := by
  intro u inside
  rcases blank.blank u inside with same | same
  · rw [same]
    decide
  · rw [same]
    decide

theorem Blank.not_mem (blank : Blank) {u : UInt16} (other : u ≠ 0x20 ∧ u ≠ 0x09) : u ∉ blank.text := by
  intro inside
  rcases blank.blank u inside with same | same
  · exact other.1 same
  · exact other.2 same

namespace LanguageRange

variable (range : LanguageRange)

theorem primary_units : ∀ u ∈ range.primary, isTagUnit u = true ∧ u ≠ 0x2D := by
  rcases range.primaryForm with ⟨star, -⟩ | ⟨-, -, letters⟩
  · intro u inside
    rw [star] at inside
    cases List.mem_singleton.mp inside
    decide
  · intro u inside
    have letter := letters u inside
    refine ⟨by simp [isTagUnit, letter], ?_⟩
    rintro rfl
    cases letter

theorem primary_ne_nil : range.primary ≠ [] := by
  rcases range.primaryForm with ⟨star, -⟩ | ⟨nonempty, -⟩
  · rw [star]
    exact List.cons_ne_nil _ _
  · exact nonempty

/-- The tag behind the primary subtag: nothing, or a region after a hyphen. -/
theorem text_cases : range.subtags = [] ∧ range.text = range.primary ∨
    range.subtags ≠ [] ∧ ∃ rest, range.text = range.primary ++ 0x2D :: rest := by
  cases listed : range.subtags with
  | nil => exact .inl ⟨rfl, by rw [text, listed, joinWith_singleton]⟩
  | cons subtag more =>
      refine .inr ⟨List.cons_ne_nil _ _, joinWith [0x2D] (subtag :: more), ?_⟩
      rw [text, listed, joinWith_cons_cons]

theorem text_units : ∀ u ∈ range.text, isTagUnit u = true := by
  intro u inside
  rcases of_mem_joinWith inside with rfl | ⟨part, listed, inside⟩
  · decide
  · rcases List.mem_cons.mp listed with rfl | listed
    · exact (range.primary_units u inside).1
    · have form := (range.subtagForm part listed).2.2 u inside
      simp [isTagUnit, form]

theorem text_ne_nil : range.text ≠ [] := by
  intro empty
  rcases range.text_cases with ⟨-, same⟩ | ⟨-, rest, same⟩
  · exact range.primary_ne_nil (same.symm.trans empty)
  · rw [empty] at same
    exact List.append_ne_nil_of_right_ne_nil _ (List.cons_ne_nil _ _) same.symm

/-- What is read before the first hyphen. -/
theorem before_text_append {t : JsString} (outside : 0x2D ∉ t) :
    before 0x2D (range.text ++ t) = range.primary ++ (if range.subtags = [] then t else []) := by
  have apart : 0x2D ∉ range.primary := fun inside => (range.primary_units _ inside).2 rfl
  rcases range.text_cases with ⟨bare, same⟩ | ⟨region, rest, same⟩
  · rw [same, if_pos bare]
    exact before_of_not_mem fun inside => (List.mem_append.mp inside).elim apart outside
  · rw [same, if_neg region, List.append_assoc, List.cons_append, before_append apart, List.append_nil]

end LanguageRange

namespace QValue

theorem units (value : QValue) : ∀ u ∈ value.text, isDigit u = true ∨ u = 0x2E := by
  intro u inside
  cases value with
  | zero => exact .inl (by cases List.mem_singleton.mp inside; decide)
  | one => exact .inl (by cases List.mem_singleton.mp inside; decide)
  | below fraction =>
      rcases List.mem_cons.mp inside with rfl | inside
      · exact .inl (by decide)
      · rcases List.mem_cons.mp inside with rfl | inside
        · exact .inr rfl
        · exact .inl (fraction.digits u inside)
  | full zeros =>
      rcases List.mem_cons.mp inside with rfl | inside
      · exact .inl (by decide)
      · rcases List.mem_cons.mp inside with rfl | inside
        · exact .inr rfl
        · rw [(List.mem_replicate.mp inside).2]
          exact .inl (by decide)

theorem text_ne_nil (value : QValue) : value.text ≠ [] := by
  cases value <;> exact List.cons_ne_nil _ _

theorem thousandths_le (value : QValue) : value.thousandths ≤ 1000 := by
  cases value with
  | zero => exact Nat.zero_le _
  | one => exact Nat.le_refl _
  | full zeros => exact Nat.le_refl _
  | below fraction =>
      have small := JsNumber.digitsValue_lt fraction.digits
      have parts : 10 ^ fraction.text.length * 10 ^ (3 - fraction.text.length) = 1000 := by
        rw [← Nat.pow_add, Nat.add_sub_cancel' fraction.short]
      calc digitsValue 10 fraction.text * 10 ^ (3 - fraction.text.length)
          ≤ 10 ^ fraction.text.length * 10 ^ (3 - fraction.text.length) :=
            Nat.mul_le_mul_right _ small.le
        _ = 1000 := parts

/-- A weight is read as the double nearest to it. -/
theorem parseFloat_text (value : QValue) :
    JsNumber.parseFloat value.text = JsNumber.thousandths value.thousandths := by
  have whole {u : UInt16} {rest : JsString} {q : ℚ} {n : Nat} (digit : isDigit u = true)
      (reads : JsNumber.decimal? (u :: rest) = some q) (same : q = (n : ℚ) / 1000) :
      JsNumber.parseFloat (u :: rest) = JsNumber.thousandths n := by
    refine JsNumber.parseFloat_of_literal (JsNumber.trimStart_of_digit digit) ?_
    rw [JsNumber.literal?_of_digit digit, reads, same]
    rfl
  have one {u : UInt16} (digit : isDigit u = true) : ∀ v ∈ [u], isDigit v = true := by
    intro v inside
    rwa [List.mem_singleton.mp inside]
  cases value with
  | zero =>
      have reads := JsNumber.decimal?_digits (List.cons_ne_nil 0x30 []) (one (by decide))
      have none : digitsValue 10 [0x30] = 0 := by decide
      refine whole (by decide) reads ?_
      rw [none]
      norm_num [thousandths]
  | one =>
      have reads := JsNumber.decimal?_digits (List.cons_ne_nil 0x31 []) (one (by decide))
      have unit : digitsValue 10 [0x31] = 1 := by decide
      refine whole (by decide) reads ?_
      rw [unit]
      norm_num [thousandths]
  | below fraction =>
      have reads := JsNumber.decimal?_point (List.cons_ne_nil 0x30 []) (one (by decide)) fraction.digits
      have leading : digitsValue 10 ([0x30] ++ fraction.text) = digitsValue 10 fraction.text := rfl
      have parts : (10 : ℚ) ^ fraction.text.length * 10 ^ (3 - fraction.text.length) = 1000 := by
        rw [← pow_add, Nat.add_sub_cancel' fraction.short]
        norm_num
      refine whole (by decide) reads ?_
      rw [leading, thousandths, ← parts]
      push_cast
      field_simp
  | full zeros =>
      have digits : ∀ u ∈ List.replicate zeros.val (0x30 : UInt16), isDigit u = true := by
        intro u inside
        rw [(List.mem_replicate.mp inside).2]
        decide
      have reads := JsNumber.decimal?_point (List.cons_ne_nil 0x31 []) (one (by decide)) digits
      have power : ∀ zeros : Fin 4,
          digitsValue 10 ([0x31] ++ List.replicate zeros.val (0x30 : UInt16)) = 10 ^ zeros.val := by decide
      refine whole (by decide) reads ?_
      rw [power zeros, List.length_replicate, thousandths]
      push_cast
      rw [div_self (pow_ne_zero _ (by norm_num))]
      norm_num

end QValue

/-- Blanks, `;`, `q`, `Q`, `=`, digits and the point. -/
def isWeightUnit (u : UInt16) : Bool :=
  isDigit u || u == 0x20 || u == 0x09 || u == 0x3B || u == 0x51 || u == 0x71 || u == 0x3D || u == 0x2E

namespace Weight

theorem units (weight : Weight) : ∀ u ∈ weight.text, isWeightUnit u = true := by
  have blank (some' : Blank) : ∀ u ∈ some'.text, isWeightUnit u = true := by
    intro u inside
    rcases some'.blank u inside with same | same
    · rw [same]
      decide
    · rw [same]
      decide
  intro u inside
  rcases List.mem_append.mp inside with inside | inside
  · exact blank _ u inside
  rcases List.mem_cons.mp inside with rfl | inside
  · decide
  rcases List.mem_append.mp inside with inside | inside
  · exact blank _ u inside
  rcases List.mem_cons.mp inside with rfl | inside
  · cases weight.capital <;> decide
  rcases List.mem_cons.mp inside with rfl | inside
  · decide
  rcases weight.qvalue.units u inside with digit | rfl
  · rw [isWeightUnit, digit]
    rfl
  · decide

theorem not_mem (weight : Weight) {u : UInt16} (other : isWeightUnit u = false) : u ∉ weight.text := by
  intro inside
  rw [weight.units u inside] at other
  cases other

theorem ascii (weight : Weight) : ∀ u ∈ weight.text, u.toNat < 0x80 := by
  intro u inside
  have unit := weight.units u inside
  simp only [isWeightUnit, isDigit, Bool.or_eq_true, Bool.and_eq_true, decide_eq_true_eq, beq_iff_eq,
    ← UInt16.toNat_inj, UInt16.reduceToNat] at unit
  omega

theorem hyphen_not_mem (weight : Weight) : 0x2D ∉ weight.text := weight.not_mem (by decide)

end Weight

/-! ## How an element is read -/

theorem exists_first {s t : JsString} (nonempty : s ≠ []) (shown : ∀ u ∈ s, isSpace u = false) :
    ∃ u rest, s ++ t = u :: rest ∧ isSpace u = false := by
  obtain ⟨u, rest, rfl⟩ := List.exists_cons_of_ne_nil nonempty
  exact ⟨u, rest ++ t, rfl, shown u List.mem_cons_self⟩

theorem exists_last {s t : JsString} (nonempty : s ≠ []) (shown : ∀ u ∈ s, isSpace u = false) :
    ∃ rest u, t ++ s = rest ++ [u] ∧ isSpace u = false := by
  obtain ⟨rest, u, rfl⟩ := List.eq_nil_or_concat' s |>.resolve_left nonempty
  exact ⟨t ++ rest, u, (List.append_assoc _ _ _).symm, shown u (List.mem_append_right _ List.mem_cons_self)⟩

namespace Element

variable (element : Element)

theorem range_shown : ∀ u ∈ element.range.text, isSpace u = false :=
  fun u inside => (isTagUnit_apart (element.range.text_units u inside)).1

theorem core_last : ∃ rest u, element.core = rest ++ [u] ∧ isSpace u = false := by
  unfold core
  cases element.weight with
  | none =>
      obtain ⟨rest, u, same, shown⟩ := @exists_last _ [] element.range.text_ne_nil element.range_shown
      exact ⟨rest, u, (List.append_nil _).trans same, shown⟩
  | some weight =>
      have shown : ∀ u ∈ weight.qvalue.text, isSpace u = false := by
        intro u inside
        rcases weight.qvalue.units u inside with digit | rfl
        · exact JsNumber.isSpace_of_isDigit digit
        · decide
      obtain ⟨rest, u, same, shown⟩ := @exists_last _
        (element.range.text ++ (weight.ahead.text ++ 0x3B ::
          (weight.behind.text ++ [if weight.capital then 0x51 else 0x71, 0x3D])))
        weight.qvalue.text_ne_nil shown
      refine ⟨rest, u, Eq.trans ?_ same, shown⟩
      rw [Option.elim_some, Weight.text]
      simp only [List.append_assoc, List.cons_append, List.nil_append]

theorem trim_text : trim element.text = element.core :=
  trim_between element.ahead.isSpace element.behind.isSpace
    (exists_first element.range.text_ne_nil element.range_shown) element.core_last

/-- The first part of an element and its second, if the resolver finds one. -/
theorem splitPair_core : splitPair (js ";q=") element.core =
    element.weight.elim (element.core, none) fun weight =>
      if weight.behind.text = [] ∧ weight.capital = false then
        (element.range.text ++ weight.ahead.text, some weight.qvalue.text)
      else (element.core, none) := by
  have outside : 0x3B ∉ element.range.text :=
    fun inside => (isTagUnit_apart (element.range.text_units _ inside)).2.2.1 rfl
  have separator : js ";q=" = [0x3B, 0x71, 0x3D] := by decide
  rw [separator]
  cases has : element.weight with
  | none =>
      have bare : 0x3B ∉ element.core := by rwa [core, has, Option.elim_none, List.append_nil]
      rw [splitPair, cut_of_not_mem bare]
      rfl
  | some weight =>
      have ahead : 0x3B ∉ element.range.text ++ weight.ahead.text := fun inside =>
        (List.mem_append.mp inside).elim outside (weight.ahead.not_mem (by decide))
      have value : 0x3B ∉ weight.qvalue.text := by
        intro inside
        rcases weight.qvalue.units _ inside with digit | same
        · cases digit
        · cases same
      have whole : element.core = (element.range.text ++ weight.ahead.text) ++ 0x3B ::
          (weight.behind.text ++ (if weight.capital then 0x51 else 0x71) :: 0x3D :: weight.qvalue.text) := by
        rw [core, has, Option.elim_some, Weight.text, List.append_assoc]
      rw [Option.elim_some]
      by_cases plain : weight.behind.text = [] ∧ weight.capital = false
      · rw [if_pos plain, whole, plain.1, plain.2, splitPair, cut_append ahead]
        have found := @cut_separator 0x3B [0x71, 0x3D] weight.qvalue.text
        rw [List.cons_append, List.singleton_append] at found
        rw [List.nil_append, if_neg Bool.false_ne_true, found, List.append_nil, Option.map_some,
          cut_of_not_mem value]
      · have rest : cut [0x3B, 0x71, 0x3D] (0x3B :: (weight.behind.text ++
            (if weight.capital then 0x51 else 0x71) :: 0x3D :: weight.qvalue.text)) =
            (0x3B :: (weight.behind.text ++ (if weight.capital then 0x51 else 0x71) :: 0x3D ::
              weight.qvalue.text), none) := by
          have behind : 0x3B ∉ weight.behind.text ++
              (if weight.capital then 0x51 else 0x71) :: 0x3D :: weight.qvalue.text := by
            intro inside
            rcases List.mem_append.mp inside with inside | inside
            · exact weight.behind.not_mem (by decide) inside
            rcases List.mem_cons.mp inside with same | inside
            · cases capital : weight.capital <;> rw [capital] at same <;> cases same
            rcases List.mem_cons.mp inside with same | inside
            · cases same
            · exact value inside
          cases blank : weight.behind.text with
          | nil =>
              have capital : weight.capital = true := by
                rw [not_and, Bool.not_eq_false] at plain
                exact plain blank
              rw [blank, capital, List.nil_append, if_pos rfl] at behind
              rw [capital, List.nil_append, if_pos rfl]
              exact cut_of_start (by decide) behind
          | cons u more =>
              rw [blank] at behind
              have space := weight.behind.blank u (blank ▸ List.mem_cons_self)
              refine cut_of_start ?_ behind
              rcases space with rfl | rfl <;> decide
        rw [if_neg plain, whole, splitPair, cut_append ahead, rest]
        rfl

section

variable {toLowerCase : JsString → JsString}
  (ascii : ∀ s : JsString, (∀ u ∈ s, u.toNat < 0x80) → toLowerCase s = s.map lowerAscii)

include ascii

theorem toLowerCase_primary : toLowerCase element.range.primary = element.base :=
  ascii _ fun u inside => (isTagUnit_apart (element.range.primary_units u inside).1).2.2.2

omit ascii in
theorem trim_primary_append (blank : Blank) :
    trim (element.range.primary ++ blank.text) = element.range.primary := by
  have shown : ∀ u ∈ element.range.primary, isSpace u = false :=
    fun u inside => (isTagUnit_apart (element.range.primary_units u inside).1).1
  have first := @exists_first _ [] element.range.primary_ne_nil shown
  rw [List.append_nil] at first
  exact @trim_between [] element.range.primary blank.text (fun _ inside => by cases inside)
    blank.isSpace first (@exists_last _ [] element.range.primary_ne_nil shown)

omit ascii in
theorem trim_primary : trim element.range.primary = element.range.primary := by
  have bare := element.trim_primary_append ⟨[], fun _ inside => by cases inside⟩
  rwa [List.append_nil] at bare

/-- An element whose weight the resolver reads has its base code. -/
theorem rankedPart_text {n : Nat} (reads : element.read = some n) :
    rankedPart toLowerCase element.text = ⟨element.base, JsNumber.thousandths n⟩ := by
  unfold read at reads
  rw [rankedPart, trim_text, splitPair_core]
  cases has : element.weight with
  | none =>
      rw [has] at reads
      cases reads
      have tag := element.range.before_text_append (List.not_mem_nil (a := (0x2D : UInt16)))
      rw [ite_self, List.append_nil, List.append_nil] at tag
      simp only [Option.elim_none, core, has, List.append_nil, tag, trim_primary,
        toLowerCase_primary element ascii, JsNumber.thousandths_one]
      rfl
  | some weight =>
      rw [has] at reads
      simp only at reads
      by_cases plain : weight.behind.text = [] ∧ weight.capital = false
      · rw [if_pos plain] at reads
        cases reads
        have hyphen : 0x2D ∉ weight.ahead.text := weight.ahead.not_mem (by decide)
        have tag := element.range.before_text_append hyphen
        have primary : trim (before 0x2D (element.range.text ++ weight.ahead.text)) =
            element.range.primary := by
          rw [tag]
          split
          · exact element.trim_primary_append weight.ahead
          · rw [List.append_nil]
            exact element.trim_primary
        rw [Option.elim_some, if_pos plain]
        simp only [primary, toLowerCase_primary element ascii, Option.elim_some,
          weight.qvalue.parseFloat_text]
        rw [if_neg (JsNumber.thousandths_ne_nan weight.qvalue.thousandths_le)]
      · rw [if_neg plain] at reads
        by_cases bare : element.range.subtags = []
        · rw [if_pos bare] at reads
          cases reads
        · rw [if_neg bare] at reads
          cases reads
          have tag := element.range.before_text_append weight.hyphen_not_mem
          rw [if_neg bare, List.append_nil] at tag
          rw [Option.elim_some, if_neg plain]
          simp only [Option.elim_none, core, has, Option.elim_some, tag, trim_primary,
            toLowerCase_primary element ascii, JsNumber.thousandths_one]
          rfl

/-- An element whose weight the resolver does not see, and with it no base code. -/
theorem rankedPart_unread (unread : element.read = none) :
    ∃ base, rankedPart toLowerCase element.text = ⟨base, JsNumber.thousandths 1000⟩ ∧ 0x3B ∈ base := by
  unfold read at unread
  cases has : element.weight with
  | none =>
      rw [has] at unread
      cases unread
  | some weight =>
      rw [has] at unread
      simp only at unread
      by_cases plain : weight.behind.text = [] ∧ weight.capital = false
      · rw [if_pos plain] at unread
        cases unread
      · rw [if_neg plain] at unread
        by_cases bare : element.range.subtags = []
        · have tag := element.range.before_text_append weight.hyphen_not_mem
          rw [if_pos bare] at tag
          have text : element.range.text = element.range.primary := by
            rcases element.range.text_cases with ⟨-, same⟩ | ⟨region, -⟩
            · exact same
            · exact absurd bare region
          have core : element.range.primary ++ weight.text = element.core := by
            rw [Element.core, has, Option.elim_some, text]
          have semicolon : 0x3B ∈ element.core := by
            rw [← core]
            exact List.mem_append_right _ (List.mem_append_right _ List.mem_cons_self)
          have units : ∀ u ∈ element.core, u.toNat < 0x80 := by
            intro u inside
            rw [← core] at inside
            rcases List.mem_append.mp inside with inside | inside
            · exact (isTagUnit_apart (element.range.primary_units u inside).1).2.2.2
            · exact weight.ascii u inside
          have first := element.trim_text
          have whole : trim element.core = element.core := by
            have shown := @trim_between [] element.core [] (fun _ inside => by cases inside)
              (fun _ inside => by cases inside) (exists_first element.range.text_ne_nil element.range_shown)
              element.core_last
            rwa [List.nil_append, List.append_nil] at shown
          refine ⟨element.core.map lowerAscii, ?_, List.mem_map.mpr ⟨0x3B, semicolon, by decide⟩⟩
          rw [rankedPart, first, splitPair_core, has, Option.elim_some, if_neg plain]
          have before' : before 0x2D element.core = element.core := by
            rw [← core, ← text, tag, text]
          simp only [Option.elim_none, before', whole, ascii _ units, JsNumber.thousandths_one]
          rfl
        · rw [if_neg bare] at unread
          cases unread

end

end Element

/-! ## What the resolver finds -/

section

variable {toLowerCase : JsString → JsString}
  (ascii : ∀ s : JsString, (∀ u ∈ s, u.toNat < 0x80) → toLowerCase s = s.map lowerAscii)

include ascii

/-- The rank of an element in the list that is sorted. -/
def Element.rank (element : Element) : Nat := element.read.getD 1000

omit ascii in
theorem Element.read_le {element : Element} {n : Nat} (reads : element.read = some n) : n ≤ 1000 := by
  unfold read at reads
  cases has : element.weight with
  | none =>
      rw [has] at reads
      cases reads
      exact Nat.le_refl _
  | some weight =>
      rw [has] at reads
      simp only at reads
      split_ifs at reads with plain bare
      · cases reads
        exact weight.qvalue.thousandths_le
      · cases reads
        exact Nat.le_refl _

omit ascii in
theorem Element.rank_le (element : Element) : element.rank ≤ 1000 := by
  unfold rank
  cases reads : element.read with
  | none => exact Nat.le_refl _
  | some n => exact Element.read_le reads

theorem rankedPart_weight (element : Element) :
    (rankedPart toLowerCase element.text).weight = JsNumber.thousandths element.rank := by
  unfold Element.rank
  cases reads : element.read with
  | none =>
      obtain ⟨base, ranked, -⟩ := element.rankedPart_unread ascii reads
      rw [ranked]
      rfl
  | some n =>
      rw [element.rankedPart_text ascii reads]
      rfl

/-- The base code of an element is found exactly when its weight is read. -/
theorem rankedPart_base (element : Element) {code : JsString} (isCode : IsCode code) :
    (rankedPart toLowerCase element.text).base = code ↔ element.base = code ∧ element.read ≠ none := by
  cases reads : element.read with
  | none =>
      obtain ⟨base, ranked, semicolon⟩ := element.rankedPart_unread ascii reads
      rw [ranked]
      refine iff_of_false ?_ fun found => found.2 rfl
      rintro rfl
      exact absurd (isCode 0x3B semicolon) (by decide)
  | some n =>
      rw [element.rankedPart_text ascii reads]
      exact (and_iff_left (Option.some_ne_none n)).symm

theorem rankedPart_base_ne_nil (element : Element) : (rankedPart toLowerCase element.text).base ≠ [] := by
  cases reads : element.read with
  | none =>
      obtain ⟨base, ranked, semicolon⟩ := element.rankedPart_unread ascii reads
      rw [ranked]
      exact List.ne_nil_of_mem semicolon
  | some n =>
      rw [element.rankedPart_text ascii reads]
      exact fun empty => element.range.primary_ne_nil (List.map_eq_nil_iff.mp empty)

omit ascii in
theorem Element.comma_not_mem (element : Element) : 0x2C ∉ element.text := by
  intro inside
  have core : 0x2C ∉ element.core := by
    intro inside
    rcases List.mem_append.mp inside with inside | inside
    · exact (isTagUnit_apart (element.range.text_units _ inside)).2.1 rfl
    · cases has : element.weight with
      | none =>
          rw [has] at inside
          cases inside
      | some weight =>
          rw [has] at inside
          exact weight.not_mem (by decide) inside
  rcases List.mem_append.mp inside with inside | inside
  · exact (List.mem_append.mp inside).elim (element.ahead.not_mem (by decide)) core
  · exact element.behind.not_mem (by decide) inside

/-- The elements of a header in the order of their ranks. -/
theorem ranked_headerText {header : List Element} (nonempty : header ≠ []) :
    ranked toLowerCase (headerText header) =
      (header.insertionSort fun a b => b.rank ≤ a.rank).map
        fun element => rankedPart toLowerCase element.text := by
  have parts : splitOn 0x2C (headerText header) = header.map Element.text := by
    refine splitOn_joinWith (fun empty => nonempty (List.map_eq_nil_iff.mp empty)) fun part listed => ?_
    obtain ⟨element, -, rfl⟩ := List.mem_map.mp listed
    exact element.comma_not_mem
  have kept : ((header.map Element.text).map (rankedPart toLowerCase)).filter (fun t => t.base ≠ []) =
      header.map fun element => rankedPart toLowerCase element.text := by
    rw [List.map_map]
    refine List.filter_eq_self.mpr fun t listed => ?_
    obtain ⟨element, -, rfl⟩ := List.mem_map.mp listed
    exact decide_eq_true (rankedPart_base_ne_nil ascii element)
  rw [ranked, parts, kept]
  refine (List.map_insertionSort _ _ _ _ fun first _ second _ => ?_).symm
  rw [staysBefore, rankedPart_weight ascii, rankedPart_weight ascii, ← Bool.not_eq_true,
    JsNumber.lt_sub_thousandths second.rank_le first.rank_le, not_lt]

omit ascii in
theorem headerText_ne_nil {header : List Element} (nonempty : header ≠ []) : headerText header ≠ [] := by
  obtain ⟨element, rest, rfl⟩ := List.exists_cons_of_ne_nil nonempty
  have text : element.text ≠ [] := by
    refine List.append_ne_nil_of_left_ne_nil (List.append_ne_nil_of_right_ne_nil _ ?_) _
    exact List.append_ne_nil_of_left_ne_nil element.range.text_ne_nil _
  by_cases alone : rest.map Element.text = []
  · rwa [headerText, List.map_cons, alone, joinWith_singleton]
  · rw [headerText, List.map_cons, joinWith_cons _ _ alone]
    exact List.append_ne_nil_of_left_ne_nil text _

/-- The resolver chooses by the weights that it reads. -/
theorem resolve_chosen (header : List Element) (labels : List JsString) (fallback : JsString)
    (codes : ∀ code ∈ labels, IsCode code) :
    Chosen Element.read Element.base header labels fallback
      (resolve toLowerCase ⟨labels, fallback⟩ (some (headerText header))) := by
  by_cases nonempty : header = []
  · subst nonempty
    exact .inr ⟨fun element listed => (by cases listed), rfl⟩
  have supported (element : Element) :
      labels.contains (rankedPart toLowerCase element.text).base = true ↔
        element.base ∈ labels ∧ element.read ≠ none := by
    rw [List.contains_iff_mem]
    constructor
    · intro among
      obtain ⟨same, reads⟩ := (rankedPart_base ascii element (codes _ among)).mp rfl
      exact ⟨same ▸ among, reads⟩
    · rintro ⟨among, reads⟩
      rwa [(rankedPart_base ascii element (codes _ among)).mpr ⟨rfl, reads⟩]
  rw [resolve_some toLowerCase (headerText_ne_nil nonempty), ranked_headerText ascii nonempty,
    List.find?_map, Option.map_map]
  cases sorted : (header.insertionSort fun a b => b.rank ≤ a.rank).find?
      ((fun t => labels.contains t.base) ∘ fun element => rankedPart toLowerCase element.text) with
  | none =>
      refine .inr ⟨fun element listed among => ?_, rfl⟩
      by_contra reads
      have absent := List.find?_eq_none.mp sorted element ((List.mem_insertionSort _).mpr listed)
      exact absent ((supported element).mpr ⟨among, reads⟩)
  | some element =>
      have taken := List.find?_some sorted
      have kept := (supported element).mp taken
      obtain ⟨i, w, listed, weighs, above⟩ := heaviest_of_find?_insertionSort sorted
      have same := (rankedPart_base ascii element (codes _ kept.1)).mpr ⟨rfl, kept.2⟩
      have rank {other : Element} (reads : other.read ≠ none) : other.read = some other.rank := by
        obtain ⟨n, reads⟩ := Option.ne_none_iff_exists'.mp reads
        rw [Element.rank, reads]
        rfl
      cases weighs
      rw [Option.map_some, Option.getD_some, Function.comp_apply, same]
      refine .inl ⟨element, rfl, kept.1, i, element.rank, listed, rank kept.2, ?_⟩
      intro j other v listed' among reads
      have some' : other.read ≠ none := by
        rw [reads]
        exact Option.some_ne_none v
      have atRank : v = other.rank := Option.some.inj (reads.symm.trans (rank some'))
      rw [atRank]
      exact above j other other.rank listed' ((supported other).mpr ⟨among, some'⟩) rfl

end

/-! ## The grammar and the resolver -/

/-- A header is resolved by the grammar, whatever is supported, exactly when the weights that are
read put its base codes into the order of the weights that are meant. -/
theorem resolve_preferred_iff (toLowerCase : JsString → JsString)
    (ascii : ∀ s : JsString, (∀ u ∈ s, u.toNat < 0x80) → toLowerCase s = s.map lowerAscii)
    (header : List Element) :
    (∀ supported fallback, (∀ code ∈ supported, IsCode code) →
        Chosen Element.meant Element.base header supported fallback
          (resolve toLowerCase ⟨supported, fallback⟩ (some (headerText header)))) ↔
      ∀ first second, IsCode first → IsCode second →
        (Leads Element.read Element.base header first second ↔
          Leads Element.meant Element.base header first second) :=
  forall_chosen_iff fun supported fallback codes => resolve_chosen ascii header supported fallback codes

/-- No weight, or one that stands right behind its semicolon, with a small letter, and refuses nothing. -/
def Element.Tight (element : Element) : Prop :=
  ∀ weight ∈ element.weight, weight.behind.text = [] ∧ weight.capital = false ∧
    weight.qvalue.thousandths ≠ 0

theorem Element.read_eq_meant {element : Element} (tight : element.Tight) : element.read = element.meant := by
  unfold read meant
  cases weighted : element.weight with
  | none => rfl
  | some weight =>
      obtain ⟨close, small, positive⟩ := tight weight weighted
      show (if _ then some _ else _) = if _ then _ else some _
      rw [if_pos ⟨close, small⟩, if_neg positive]

/-- Headers of such elements are resolved by the grammar. -/
theorem resolve_preferred_of_tight {toLowerCase : JsString → JsString}
    (ascii : ∀ s : JsString, (∀ u ∈ s, u.toNat < 0x80) → toLowerCase s = s.map lowerAscii)
    {header : List Element} (tight : ∀ element ∈ header, element.Tight) {supported : List JsString}
    (fallback : JsString) (codes : ∀ code ∈ supported, IsCode code) :
    Chosen Element.meant Element.base header supported fallback
      (resolve toLowerCase ⟨supported, fallback⟩ (some (headerText header))) := by
  have chosen : ∀ labels fallback, (∀ code ∈ labels, IsCode code) →
      Chosen Element.read Element.base header labels fallback
        (resolve toLowerCase ⟨labels, fallback⟩ (some (headerText header))) :=
    fun labels fallback codes => resolve_chosen ascii header labels fallback codes
  refine (forall_chosen_iff chosen).mpr (fun first second _ _ => ?_) supported fallback codes
  exact Leads.congr (fun element listed => Element.read_eq_meant (tight element listed)) first second

/-! ### Refused and misread ranges -/

def noBlank : Blank := ⟨[], fun _ inside => (by cases inside)⟩

def oneBlank : Blank := ⟨[0x20], fun _ inside => .inl (List.mem_singleton.mp inside)⟩

/-- The range of the tag `en`. -/
def english : LanguageRange where
  primary := [0x65, 0x6E]
  subtags := []
  primaryForm := .inr ⟨List.cons_ne_nil _ _, by decide, fun u inside => by
    rcases List.mem_pair.mp inside with rfl | rfl <;> rfl⟩
  subtagForm := fun _ listed => by cases listed

/-- The element `en;q=0`. -/
def refusedEnglish : Element := ⟨noBlank, english, some ⟨noBlank, noBlank, false, .zero⟩, noBlank⟩

/-- The element `en; q=1`. -/
def spacedEnglish : Element := ⟨noBlank, english, some ⟨noBlank, oneBlank, false, .one⟩, noBlank⟩

/-- The element `en;q=0.5`. -/
def halfEnglish : Element :=
  ⟨noBlank, english, some ⟨noBlank, noBlank, false,
    .below ⟨[0x35], List.forall_mem_singleton.mpr rfl, by decide⟩⟩, noBlank⟩

/-- The range of the tag `vi`. -/
def vietnamese : LanguageRange where
  primary := [0x76, 0x69]
  subtags := []
  primaryForm := .inr ⟨List.cons_ne_nil _ _, by decide, fun u inside => by
    rcases List.mem_pair.mp inside with rfl | rfl <;> rfl⟩
  subtagForm := fun _ listed => by cases listed

/-- The element ` vi`. -/
def plainVietnamese : Element := ⟨oneBlank, vietnamese, none, noBlank⟩

/-- `en;q=0.5, vi` is resolved by the grammar, whatever is supported. -/
theorem halfEnglish_preferred :
    headerText [halfEnglish, plainVietnamese] = js "en;q=0.5, vi" ∧
      ∀ supported fallback, (∀ code ∈ supported, IsCode code) →
        Chosen Element.meant Element.base [halfEnglish, plainVietnamese] supported fallback
          (resolve (List.map lowerAscii) ⟨supported, fallback⟩
            (some (headerText [halfEnglish, plainVietnamese]))) := by
  refine ⟨by decide, (resolve_preferred_iff (List.map lowerAscii) (fun _ _ => rfl)
    [halfEnglish, plainVietnamese]).mpr fun first second _ _ => Leads.congr ?_ first second⟩
  intro element listed
  rcases List.mem_pair.mp listed with rfl | rfl
  · rfl
  · rfl

/-- `en;q=0` is a refusal and `en; q=1` is not, to the grammar. -/
theorem english_misread :
    headerText [refusedEnglish] = js "en;q=0" ∧ headerText [spacedEnglish] = js "en; q=1" ∧
      resolve (List.map lowerAscii) ⟨[js "en"], js "vi"⟩ (some (js "en;q=0")) = js "en" ∧
      resolve (List.map lowerAscii) ⟨[js "en"], js "vi"⟩ (some (js "en; q=1")) = js "vi" ∧
      ¬Chosen Element.meant Element.base [refusedEnglish] [js "en"] (js "vi") (js "en") ∧
      ¬Chosen Element.meant Element.base [spacedEnglish] [js "en"] (js "vi") (js "vi") := by
  refine ⟨by decide, by decide, by decide, by decide, ?_, ?_⟩
  · rintro (⟨item, -, -, heaviest⟩ | ⟨-, same⟩)
    · obtain ⟨listed, weighs⟩ := heaviest.weighs
      rw [List.mem_singleton.mp listed] at weighs
      exact weighs rfl
    · exact absurd same (by decide)
  · rintro (⟨item, -, among, -⟩ | ⟨none, -⟩)
    · exact absurd (List.mem_singleton.mp among) (by decide)
    · cases none spacedEnglish List.mem_cons_self (List.mem_singleton.mpr (by decide))

end SdcoreNest.I18n
