/-
# Theory.SqlText -- text as a database reads it

What a database makes of a JavaScript string, the patterns of LIKE, and where in a statement
the quotes of identifiers and strings open and close.
-/
import SdcoreNest.Theory.Text

namespace SdcoreNest.Theory

set_option autoImplicit false

namespace Text

/-! ## From code units -/

/-- A code unit that is not part of a pair; a surrogate becomes the replacement character. -/
def ofUnit (u : UInt16) : Char :=
  if JsString.isLeading u || JsString.isTrailing u then '\uFFFD' else Char.ofNat u.toNat

/-- The text that UTF-8 encoding makes of a JavaScript string. -/
def ofUnits : JsString → Text
  | [] => []
  | [u] => [ofUnit u]
  | u :: v :: rest =>
      if JsString.isLeading u && JsString.isTrailing v then
        Char.ofNat (0x10000 + (u.toNat - 0xD800) * 0x400 + (v.toNat - 0xDC00)) :: ofUnits rest
      else ofUnit u :: ofUnits (v :: rest)

end Text

/-! ## LIKE -/

/-- One sign of a pattern. -/
inductive Sign where
  /-- The sign `%`. -/
  | anything
  /-- The sign `_`. -/
  | anyone
  | exactly (c : Char)
deriving DecidableEq

namespace Sign

/-- A pattern that ends in a backslash is an error. -/
def parse : Text → Option (List Sign)
  | [] => some []
  | '\\' :: c :: rest => (parse rest).map (.exactly c :: ·)
  | ['\\'] => none
  | '%' :: rest => (parse rest).map (.anything :: ·)
  | '_' :: rest => (parse rest).map (.anyone :: ·)
  | c :: rest => (parse rest).map (.exactly c :: ·)

/-- The pattern describes the whole text. -/
def describes : List Sign → Text → Bool
  | [], text => text.isEmpty
  | .anything :: rest, text => text.tails.any (describes rest)
  | .anyone :: _, [] => false
  | .anyone :: rest, _ :: text => describes rest text
  | .exactly _ :: _, [] => false
  | .exactly c :: rest, d :: text => c == d && describes rest text

end Sign

def like (text pattern : Text) : Bool :=
  match Sign.parse pattern with
  | some signs => Sign.describes signs text
  | none => false

/-! ## Quotes -/

/-- Where a reader of a statement stands. -/
inductive Quoting where
  | outside
  /-- Between double quotes. -/
  | identifier
  /-- Between single quotes. -/
  | string
deriving DecidableEq

namespace Quoting

/-- A doubled quote closes and opens again. -/
def step : Quoting → Char → Quoting
  | .outside, '"' => .identifier
  | .outside, '\'' => .string
  | .identifier, '"' => .outside
  | .string, '\'' => .outside
  | quoting, _ => quoting

/-- After a text. -/
def after (quoting : Quoting) (text : Text) : Quoting := text.foldl step quoting

def isQuote (c : Char) : Bool := c == '"' || c == '\''

theorem after_append (quoting : Quoting) (text others : Text) :
    after quoting (text ++ others) = after (after quoting text) others := List.foldl_append

theorem step_of_not_isQuote {c : Char} (plain : isQuote c = false) (quoting : Quoting) :
    step quoting c = quoting := by
  simp only [isQuote, Bool.or_eq_false_iff, beq_eq_false_iff_ne] at plain
  unfold step
  split <;> simp_all

/-- A text without quotes neither opens nor closes one. -/
theorem after_of_not_isQuote {text : Text} (plain : ∀ c ∈ text, isQuote c = false) (quoting : Quoting) :
    after quoting text = quoting := by
  induction text with
  | nil => rfl
  | cons c rest ih =>
      obtain ⟨first, others⟩ := List.forall_mem_cons.mp plain
      rw [after, List.foldl_cons, step_of_not_isQuote first]
      exact ih others

end Quoting

end SdcoreNest.Theory
