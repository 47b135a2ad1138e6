/-
# Theory.Like -- what a pattern without signs describes, and one with signs

Texts are folded character by character before they are compared.  Put between `%`, a folded
text without signs describes the texts it occurs in; a folded text with signs always describes
some text it does not occur in, or fails to describe itself.

* `like_iff_occurs` -- the first half;
* `Folding.exists_shortest`, `Folding.like_cases` -- the second half.
-/
import SdcoreNest.Theory.SqlText
import Mathlib.Data.List.Infix

namespace SdcoreNest.Theory

set_option autoImplicit false

/-! ## Occurrences -/

/-- The characters with a meaning in a pattern. -/
def isSign (c : Char) : Bool := c == '%' || c == '_' || c == '\\'

/-- A text that a pattern can only mean literally. -/
def IsPlain (text : Text) : Prop := ∀ c ∈ text, isSign c = false

def mark (wanted : Bool) : Text := if wanted then ['%'] else []

/-- The word occurs in the text: at its start unless something may stand before, at its end unless
something may stand after. -/
def Occurs (before : Bool) (word : Text) (after : Bool) (text : Text) : Prop :=
  ∃ front back, text = front ++ word ++ back ∧ (before = false → front = []) ∧ (after = false → back = [])

/-- With a percent sign on both sides, the word is looked for anywhere, -/
theorem occurs_anywhere {word text : Text} : Occurs true word true text ↔ word <:+: text := by
  constructor
  · rintro ⟨front, back, rfl, -, -⟩
    exact ⟨front, back, rfl⟩
  · rintro ⟨front, back, rfl⟩
    exact ⟨front, back, rfl, by simp, by simp⟩

/-- with one after it at the start, -/
theorem occurs_atStart {word text : Text} : Occurs false word true text ↔ word <+: text := by
  constructor
  · rintro ⟨front, back, rfl, nothing, -⟩
    rw [nothing rfl]
    exact ⟨back, rfl⟩
  · rintro ⟨back, rfl⟩
    exact ⟨[], back, rfl, by simp, by simp⟩

/-- and with one before it at the end. -/
theorem occurs_atEnd {word text : Text} : Occurs true word false text ↔ word <:+ text := by
  constructor
  · rintro ⟨front, back, rfl, -, nothing⟩
    rw [nothing rfl, List.append_nil]
    exact ⟨front, rfl⟩
  · rintro ⟨front, rfl⟩
    exact ⟨front, [], by simp, by simp, by simp⟩

theorem Occurs.eq_of_length {before after : Bool} {word text : Text}
    (occurs : Occurs before word after text) (short : text.length ≤ word.length) : text = word := by
  obtain ⟨front, back, rfl, -, -⟩ := occurs
  simp only [List.length_append] at short
  obtain rfl : front = [] := List.eq_nil_of_length_eq_zero (by omega)
  obtain rfl : back = [] := List.eq_nil_of_length_eq_zero (by omega)
  simp

theorem occurs_self (before after : Bool) (word : Text) : Occurs before word after word :=
  ⟨[], [], by simp, by simp, by simp⟩

/-! ## Plain patterns -/

namespace Sign

theorem parse_cons_plain {c : Char} (plain : isSign c = false) (rest : Text) :
    parse (c :: rest) = (parse rest).map (.exactly c :: ·) := by
  simp only [isSign, Bool.or_eq_false_iff, beq_eq_false_iff_ne] at plain
  obtain ⟨⟨notPercent, notUnderscore⟩, notBackslash⟩ := plain
  rw [parse] <;> simp_all

/-- Plain text stands for itself, sign by sign. -/
theorem parse_plain_append {word : Text} (plain : IsPlain word) (rest : Text) :
    parse (word ++ rest) = (parse rest).map (word.map .exactly ++ ·) := by
  induction word with
  | nil => simp
  | cons c word ih =>
      obtain ⟨first, others⟩ := List.forall_mem_cons.mp plain
      rw [List.cons_append, parse_cons_plain first, ih others, Option.map_map]
      rfl

/-- Literal signs take their characters off the text. -/
theorem describes_exactly_append (word : Text) (signs : List Sign) (text : Text) :
    describes (word.map .exactly ++ signs) text = true ↔
      ∃ rest, text = word ++ rest ∧ describes signs rest = true := by
  induction word generalizing text with
  | nil => simp
  | cons c word ih =>
      cases text with
      | nil => simp [describes]
      | cons d text =>
          simp only [List.map_cons, List.cons_append, describes, Bool.and_eq_true, beq_iff_eq, ih,
            List.cons.injEq]
          constructor
          · rintro ⟨rfl, rest, rfl, described⟩
            exact ⟨rest, ⟨rfl, rfl⟩, described⟩
          · rintro ⟨rest, ⟨rfl, rfl⟩, described⟩
            exact ⟨rfl, rest, rfl, described⟩

/-- A percent sign takes any front of the text, also none. -/
theorem describes_anything {signs : List Sign} {text : Text} :
    describes (.anything :: signs) text = true ↔ ∃ front rest, text = front ++ rest ∧ describes signs rest = true := by
  simp only [describes, List.any_eq_true, List.mem_tails]
  constructor
  · rintro ⟨rest, ⟨front, rfl⟩, described⟩
    exact ⟨front, rest, rfl, described⟩
  · rintro ⟨front, rest, rfl, described⟩
    exact ⟨rest, ⟨front, rfl⟩, described⟩

/-- The signs that `mark` puts around a pattern. -/
def marks (wanted : Bool) : List Sign := if wanted then [.anything] else []

theorem describes_marks_before {before : Bool} {signs : List Sign} {text : Text} :
    describes (marks before ++ signs) text = true ↔
      ∃ front rest, text = front ++ rest ∧ (before = false → front = []) ∧ describes signs rest = true := by
  cases before with
  | true =>
      rw [marks, if_pos rfl, List.singleton_append, describes_anything]
      simp
  | false => simp [marks]

theorem describes_marks {after : Bool} {text : Text} :
    describes (marks after) text = true ↔ (after = false → text = []) := by
  cases after with
  | true =>
      rw [marks, if_pos rfl, describes_anything]
      simp only [Bool.true_eq_false, false_implies, iff_true]
      exact ⟨text, [], by simp, rfl⟩
  | false => simp [marks, describes]

theorem parse_mark_append (before : Bool) (pattern : Text) :
    parse (mark before ++ pattern) = (parse pattern).map (marks before ++ ·) := by
  cases before with
  | true => rfl
  | false => simp [mark, marks]

theorem parse_mark (after : Bool) : parse (mark after) = some (marks after) := by
  cases after <;> rfl

end Sign

/-- Without signs a pattern describes the texts that its word occurs in. -/
theorem like_iff_occurs {before after : Bool} {word text : Text} (plain : IsPlain word) :
    like text (mark before ++ word ++ mark after) = true ↔ Occurs before word after text := by
  rw [List.append_assoc, like, Sign.parse_mark_append, Sign.parse_plain_append plain, Sign.parse_mark]
  simp only [Option.map_some, Sign.describes_marks_before, Sign.describes_exactly_append,
    Sign.describes_marks]
  constructor
  · rintro ⟨front, -, rfl, start, back, rfl, ending⟩
    exact ⟨front, back, by simp, start, ending⟩
  · rintro ⟨front, back, rfl, start, ending⟩
    exact ⟨front, word ++ back, by simp, start, back, rfl, ending⟩

/-! ## Foldings -/

/-- A folding of texts, character by character.  A sign comes out of it only alone. -/
structure Folding where
  foldChar : Char → Text
  percent : foldChar '%' = ['%']
  letter : foldChar 'a' = ['a']
  whole : ∀ c sign, sign ∈ foldChar c → isSign sign = true → foldChar c = [sign]

namespace Folding

variable (folding : Folding)

def fold (text : Text) : Text := text.flatMap folding.foldChar

theorem fold_append (text others : Text) :
    folding.fold (text ++ others) = folding.fold text ++ folding.fold others := List.flatMap_append

theorem fold_mark (wanted : Bool) : folding.fold (mark wanted) = mark wanted := by
  cases wanted with
  | true => simp [mark, fold, folding.percent]
  | false => rfl

/-- A character folds to plain text or to one sign. -/
theorem foldChar_cases (c : Char) :
    IsPlain (folding.foldChar c) ∨ ∃ sign, isSign sign = true ∧ folding.foldChar c = [sign] := by
  by_cases plain : IsPlain (folding.foldChar c)
  · exact .inl plain
  · simp only [IsPlain, not_forall, Bool.not_eq_false] at plain
    obtain ⟨sign, inside, isSign⟩ := plain
    exact .inr ⟨sign, isSign, folding.whole c sign inside isSign⟩

/-- What follows a backslash is taken as it is. -/
def parseEscaped : Text → Option (List Sign)
  | [] => none
  | c :: rest => (Sign.parse rest).map (.exactly c :: ·)

theorem parse_backslash (rest : Text) : Sign.parse ('\\' :: rest) = parseEscaped rest := by
  cases rest <;> rfl

/-- A text that a pattern describes, no longer than the pattern and other than it if the pattern
has a sign: without the `%`, with a letter for every `_`, without the backslashes. -/
structure Shortest (signs : List Sign) (word other : Text) : Prop where
  describes : Sign.describes signs (folding.fold other) = true
  short : (folding.fold other).length ≤ word.length

/-- A pattern with signs in it describes some text that is not its own word. The induction is on
the text, and carries the state after a backslash beside the plain one. -/
theorem exists_shortest {text ending : Text} (isMark : ending = [] ∨ ending = ['%']) :
    (∀ signs, Sign.parse (folding.fold text ++ ending) = some signs →
      ∃ other, folding.Shortest signs (folding.fold text) other ∧
        (¬IsPlain (folding.fold text) → folding.fold other ≠ folding.fold text)) ∧
    (∀ signs, parseEscaped (folding.fold text ++ ending) = some signs →
      ∃ other, folding.Shortest signs ('\\' :: folding.fold text) other ∧
        folding.fold other ≠ '\\' :: folding.fold text) := by
  induction text with
  | nil =>
      constructor
      · intro signs parsed
        refine ⟨[], ⟨?_, by simp [fold]⟩, fun signed => absurd (by simp [IsPlain, fold]) signed⟩
        rcases isMark with rfl | rfl <;> cases parsed <;> rfl
      · intro signs parsed
        rcases isMark with rfl | rfl
        · cases parsed
        · -- the backslash escapes the mark
          cases parsed
          refine ⟨['%'], ⟨?_, ?_⟩, ?_⟩ <;> simp [fold, folding.percent, Sign.describes]
  | cons c rest ih =>
      obtain ⟨unescaped, escaped⟩ := ih
      have folded : folding.fold (c :: rest) = folding.foldChar c ++ folding.fold rest := rfl
      constructor
      · intro signs parsed
        rcases folding.foldChar_cases c with plain | ⟨sign, isSign, single⟩
        · rw [folded, List.append_assoc, Sign.parse_plain_append plain] at parsed
          obtain ⟨others, parsedRest, rfl⟩ := Option.map_eq_some_iff.mp parsed
          obtain ⟨other, shortest, differs⟩ := unescaped others parsedRest
          have foldedOther : folding.fold (c :: other) = folding.foldChar c ++ folding.fold other := rfl
          refine ⟨c :: other, ⟨?_, ?_⟩, ?_⟩
          · rw [foldedOther, Sign.describes_exactly_append]
            exact ⟨_, rfl, shortest.describes⟩
          · rw [foldedOther, folded, List.length_append, List.length_append]
            have := shortest.short
            omega
          · intro signed same
            rw [foldedOther, folded, List.append_cancel_left_eq] at same
            refine differs (fun plainRest => signed ?_) same
            intro d inside
            rw [folded] at inside
            rcases List.mem_append.mp inside with inside | inside
            · exact plain d inside
            · exact plainRest d inside
        · rw [folded, single, List.singleton_append, List.cons_append] at parsed
          simp only [Theory.isSign, Bool.or_eq_true, beq_iff_eq] at isSign
          rcases isSign with (rfl | rfl) | rfl
          · obtain ⟨others, parsedRest, rfl⟩ := Option.map_eq_some_iff.mp parsed
            obtain ⟨other, shortest, -⟩ := unescaped others parsedRest
            have shorter : (folding.fold other).length < (folding.fold (c :: rest)).length := by
              rw [folded, single, List.singleton_append, List.length_cons]
              have := shortest.short
              omega
            refine ⟨other, ⟨?_, shorter.le⟩, fun _ same => by rw [same] at shorter; omega⟩
            exact Sign.describes_anything.mpr ⟨[], _, rfl, shortest.describes⟩
          · obtain ⟨others, parsedRest, rfl⟩ := Option.map_eq_some_iff.mp parsed
            obtain ⟨other, shortest, -⟩ := unescaped others parsedRest
            have foldedOther : folding.fold ('a' :: other) = 'a' :: folding.fold other := by
              simp [fold, folding.letter]
            refine ⟨'a' :: other, ⟨?_, ?_⟩, ?_⟩
            · rw [foldedOther, Sign.describes]
              exact shortest.describes
            · rw [foldedOther, folded, single, List.singleton_append, List.length_cons, List.length_cons]
              have := shortest.short
              omega
            · intro _ same
              rw [foldedOther, folded, single] at same
              simp at same
          · rw [parse_backslash] at parsed
            obtain ⟨other, shortest, differs⟩ := escaped signs parsed
            rw [folded, single, List.singleton_append]
            exact ⟨other, shortest, fun _ => differs⟩
      · intro signs parsed
        cases pieces : folding.foldChar c with
        | nil =>
            rw [folded, pieces, List.nil_append] at parsed ⊢
            exact escaped signs parsed
        | cons first more =>
            -- whatever the first character is, it stands for itself; what follows it is plain
            have plain : IsPlain more := by
              rcases folding.foldChar_cases c with plain | ⟨sign, -, single⟩
              · rw [pieces] at plain
                exact (List.forall_mem_cons.mp plain).2
              · rw [pieces] at single
                cases single
                simp [IsPlain]
            rw [folded, pieces, List.cons_append, List.cons_append, parseEscaped, List.append_assoc,
              Sign.parse_plain_append plain, Option.map_map] at parsed
            obtain ⟨others, parsedRest, rfl⟩ := Option.map_eq_some_iff.mp parsed
            obtain ⟨other, shortest, -⟩ := unescaped others parsedRest
            have foldedOther : folding.fold (c :: other) = first :: more ++ folding.fold other := by
              rw [← pieces]
              rfl
            have shorter : (folding.fold (c :: other)).length <
                ('\\' :: folding.fold (c :: rest)).length := by
              rw [foldedOther, folded, pieces]
              simp only [List.length_append, List.length_cons]
              have := shortest.short
              omega
            refine ⟨c :: other, ⟨?_, shorter.le⟩, fun same => by rw [same] at shorter; omega⟩
            rw [foldedOther]
            have described := (Sign.describes_exactly_append (first :: more) others
              (first :: more ++ folding.fold other)).mpr ⟨_, rfl, shortest.describes⟩
            exact described

/-- A folded text with signs describes nothing, or something as short that is not it. -/
theorem like_cases {text : Text} (signed : ¬IsPlain (folding.fold text)) (before after : Bool) :
    (∀ value, like value (mark before ++ folding.fold text ++ mark after) = false) ∨
      ∃ other, like (folding.fold other) (mark before ++ folding.fold text ++ mark after) = true ∧
        (folding.fold other).length ≤ (folding.fold text).length ∧
        folding.fold other ≠ folding.fold text := by
  have parsed : Sign.parse (mark before ++ folding.fold text ++ mark after) =
      (Sign.parse (folding.fold text ++ mark after)).map (Sign.marks before ++ ·) := by
    rw [List.append_assoc, Sign.parse_mark_append]
  cases signs : Sign.parse (folding.fold text ++ mark after) with
  | none =>
      left
      intro value
      rw [like, parsed, signs]
      rfl
  | some signs' =>
      right
      have isMark : mark after = [] ∨ mark after = ['%'] := by cases after <;> simp [mark]
      obtain ⟨other, shortest, differs⟩ := (folding.exists_shortest isMark).1 signs' signs
      refine ⟨other, ?_, shortest.short, differs signed⟩
      rw [like, parsed, signs]
      exact Sign.describes_marks_before.mpr ⟨[], _, rfl, fun _ => rfl, shortest.describes⟩

/-- Among folded texts, a pattern describes those that its word occurs in just when the word has
no signs. -/
theorem like_iff_occurs_iff (before after : Bool) (text : Text) :
    (∀ value, like (folding.fold value) (mark before ++ folding.fold text ++ mark after) = true ↔
      Occurs before (folding.fold text) after (folding.fold value)) ↔ IsPlain (folding.fold text) := by
  constructor
  · intro agree
    by_contra signed
    rcases folding.like_cases signed before after with nothing | ⟨other, described, short, differs⟩
    · have described := (agree text).mpr (occurs_self before after _)
      rw [nothing] at described
      cases described
    · exact differs (((agree other).mp described).eq_of_length short)
  · intro plain value
    exact like_iff_occurs plain

end Folding

end SdcoreNest.Theory
