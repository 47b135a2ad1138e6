/-
# Theory.JsNumber -- numbers as JavaScript has them

A number is a rational that a double can hold, an infinity, or not a number.  `ofText` is
the conversion `Number(text)`: the numeric grammar of the language, rounded to the nearest
double, ties to even.
-/
import SdcoreNest.Theory.JsString
import Mathlib.Data.List.TakeWhile
import Mathlib.Data.Rat.Floor

namespace SdcoreNest.Theory

set_option autoImplicit false

inductive JsNumber where
  | finite (value : ℚ)
  | infinity (negative : Bool)
  | nan
deriving DecidableEq

namespace JsNumber

open JsString

def isFinite : JsNumber → Bool
  | .finite _ => true
  | _ => false

/-! ## Rounding -/

/-- Round to the nearest integer, ties to even. -/
def roundHalfEven (q : ℚ) : Int :=
  let below := q.floor
  if q - below < 1 / 2 then below
  else if 1 / 2 < q - below then below + 1
  else if below % 2 = 0 then below else below + 1

/-- The exponent of the binade of a positive rational. -/
def binade (q : ℚ) : Int :=
  let guess : Int := (q.num.natAbs.log2 : Int) - q.den.log2
  if q < (2 : ℚ) ^ guess then guess - 1 else guess

/-- The double nearest to a rational. -/
def nearest (q : ℚ) : JsNumber :=
  if q = 0 then .finite 0
  else
    let unit : ℚ := (2 : ℚ) ^ (max (binade |q|) (-1022) - 52)
    let rounded : ℚ := roundHalfEven (q / unit) * unit
    if (2 : ℚ) ^ (1024 : Int) ≤ |rounded| then .infinity (q < 0) else .finite rounded

/-! ## Comparison and addition -/

/-- The operator `<`; no number is less or greater than NaN. -/
def lt : JsNumber → JsNumber → Bool
  | .finite a, .finite b => a < b
  | .infinity n, .finite _ => n
  | .finite _, .infinity n => !n
  | .infinity n, .infinity m => n && !m
  | .nan, _ | _, .nan => false

/-- The operator `<=`. -/
def le : JsNumber → JsNumber → Bool
  | .nan, _ | _, .nan => false
  | a, b => a = b || lt a b

/-- The operator `+` on numbers. -/
def add : JsNumber → JsNumber → JsNumber
  | .finite a, .finite b => nearest (a + b)
  | .infinity n, .infinity m => if n = m then .infinity n else .nan
  | .infinity n, .finite _ | .finite _, .infinity n => .infinity n
  | .nan, _ | _, .nan => .nan

/-- The operator `*` on numbers. -/
def mul : JsNumber → JsNumber → JsNumber
  | .finite a, .finite b => nearest (a * b)
  | .infinity n, .infinity m => .infinity (n != m)
  | .infinity n, .finite a | .finite a, .infinity n =>
      if a = 0 then .nan else .infinity (n != decide (a < 0))
  | .nan, _ | _, .nan => .nan

/-- `Math.min` -/
def min (a b : JsNumber) : JsNumber :=
  if a = .nan ∨ b = .nan then .nan else if lt b a then b else a

/-- `Math.floor` -/
def floor : JsNumber → JsNumber
  | .finite a => .finite a.floor
  | a => a

def isSafeInteger : JsNumber → Bool
  | .finite a => a.den = 1 && |a| ≤ 9007199254740991
  | _ => false

/-! ### Numbers not below zero -/

/-- Zero or more. -/
def Nonneg (a : JsNumber) : Prop := a = .finite 0 ∨ lt (.finite 0) a = true

theorem nonneg_finite {q : ℚ} : Nonneg (.finite q) ↔ 0 ≤ q := by
  rw [Nonneg, JsNumber.finite.injEq, lt, decide_eq_true_eq, eq_comm, le_iff_eq_or_lt]

theorem nonneg_infinity {negative : Bool} : Nonneg (.infinity negative) ↔ negative = false := by
  cases negative <;> simp [Nonneg, lt]

theorem not_nonneg_nan : ¬Nonneg .nan := by simp [Nonneg, lt]

theorem le_roundHalfEven {q : ℚ} {n : Int} (above : n ≤ q) : n ≤ roundHalfEven q := by
  have below : n ≤ q.floor := Int.le_floor.mpr above
  unfold roundHalfEven
  simp only
  split_ifs <;> omega

theorem roundHalfEven_le {q : ℚ} {n : Int} (below : q ≤ n) : roundHalfEven q ≤ n := by
  have low : (q.floor : ℚ) ≤ q := Int.floor_le q
  have floor : q.floor ≤ n := by exact_mod_cast low.trans below
  by_cases whole : q.floor = n
  · -- the number is its own floor, so it is not rounded up
    have same : q - q.floor = 0 := by
      rw [whole] at low ⊢
      rw [le_antisymm below low, sub_self]
    have down : roundHalfEven q = q.floor := by
      unfold roundHalfEven
      simp only [same]
      exact if_pos (by norm_num)
    omega
  · unfold roundHalfEven
    simp only
    split_ifs <;> omega

/-- Rounding keeps the sign. -/
theorem nearest_nonneg {q : ℚ} (nonneg : 0 ≤ q) : Nonneg (nearest q) := by
  unfold nearest
  split
  · exact .inl rfl
  · set unit : ℚ := (2 : ℚ) ^ (max (binade |q|) (-1022) - 52) with atUnit
    have positive : 0 < unit := zpow_pos (by norm_num) _
    have rounded : (0 : ℚ) ≤ roundHalfEven (q / unit) * unit :=
      mul_nonneg (Int.cast_nonneg (le_roundHalfEven (n := 0) (by simpa using div_nonneg nonneg positive.le))) positive.le
    simp only
    split
    · rw [decide_eq_false (not_lt.mpr nonneg)]
      exact nonneg_infinity.mpr rfl
    · exact nonneg_finite.mpr rounded

theorem Nonneg.add {a b : JsNumber} (left : Nonneg a) (right : Nonneg b) : Nonneg (add a b) := by
  cases a with
  | finite p =>
      cases b with
      | finite q =>
          exact nearest_nonneg (add_nonneg (nonneg_finite.mp left) (nonneg_finite.mp right))
      | infinity n => exact right
      | nan => exact absurd right not_nonneg_nan
  | infinity n =>
      cases b with
      | finite q => exact left
      | infinity m =>
          rw [nonneg_infinity] at left right
          subst left right
          exact nonneg_infinity.mpr rfl
      | nan => exact absurd right not_nonneg_nan
  | nan => exact absurd left not_nonneg_nan

theorem nonneg_mul_finite {a : JsNumber} (positive : lt (.finite 0) a = true) {q : ℚ} (scale : 0 < q) :
    Nonneg (mul a (.finite q)) := by
  cases a with
  | finite p =>
      rw [lt, decide_eq_true_eq] at positive
      exact nearest_nonneg (mul_nonneg positive.le scale.le)
  | infinity n =>
      rw [lt, Bool.not_eq_true'] at positive
      subst positive
      rw [mul, if_neg scale.ne', decide_eq_false (not_lt.mpr scale.le)]
      exact nonneg_infinity.mpr rfl
  | nan => cases positive

/-! ## `Number(text)` -/

/-- An unsigned decimal literal: digits, a fraction, an exponent. -/
def decimal? (s : JsString) : Option ℚ :=
  let whole := s.takeWhile isDigit
  let rest := s.dropWhile isDigit
  let fraction := if rest.head? = some 0x2E then (rest.drop 1).takeWhile isDigit else []
  let rest := if rest.head? = some 0x2E then (rest.drop 1).dropWhile isDigit else rest
  let mantissa : ℚ := digitsValue 10 (whole ++ fraction) / 10 ^ fraction.length
  if whole = [] ∧ fraction = [] then none
  else if rest = [] then some mantissa
  else if rest.head? = some 0x65 ∨ rest.head? = some 0x45 then
    let signed := rest.drop 1
    let digits := if signed.head? = some 0x2B ∨ signed.head? = some 0x2D then signed.drop 1
      else signed
    let power : Int := digitsValue 10 digits
    if digits = [] ∨ !digits.all isDigit then none
    else some (mantissa * (10 : ℚ) ^ (if signed.head? = some 0x2D then -power else power))
  else none

/-- A literal with a base prefix, whose letter is given in lower case. -/
def prefixed? (letter : UInt16) (base : Nat) (s : JsString) : Option ℚ :=
  match s with
  | 0x30 :: l :: digits =>
      if lowerAscii l = letter ∧ digits ≠ [] ∧
        digits.all (fun u => (hexValue u).any (· < base)) then some (digitsValue base digits)
      else none
  | _ => none

def ofText (text : JsString) : JsNumber :=
  let s := trim text
  if s = [] then .finite 0
  else
    match prefixed? 0x78 16 s <|> prefixed? 0x6F 8 s <|> prefixed? 0x62 2 s with
    | some value => nearest value
    | none =>
        let negative := s.head? = some 0x2D
        let unsigned := if negative ∨ s.head? = some 0x2B then s.drop 1 else s
        if unsigned = js "Infinity" then .infinity negative
        else
          match decimal? unsigned with
          | some value => nearest (if negative then -value else value)
          | none => .nan

/-! ### Whole numbers -/

theorem binade_natCast_le {n bound : Nat} (small : n < 2 ^ (bound + 1)) : binade (n : ℚ) ≤ bound := by
  have guess : ((n : ℚ).num.natAbs.log2 : Int) - (n : ℚ).den.log2 ≤ bound := by
    have above : n.log2 ≤ bound := by
      by_cases zero : n = 0
      · subst zero
        exact Nat.zero_le bound
      · exact Nat.le_of_lt_succ ((Nat.log2_lt zero).mpr small)
    have one : Nat.log2 1 = 0 := by decide
    simpa [one] using above
  unfold binade
  simp only
  split
  · omega
  · exact guess

theorem roundHalfEven_intCast (z : Int) : roundHalfEven (z : ℚ) = z := by
  have whole : (z : ℚ).floor = z := Rat.floor_intCast z
  unfold roundHalfEven
  simp only [whole, sub_self]
  exact if_pos (by norm_num)

/-- A whole number of 53 bits, and any number of zero bits after them, is a double. -/
theorem nearest_dyadic {n u : Nat} (small : n < 2 ^ 53)
    (fits : ((n * 2 ^ u : Nat) : ℚ) < (2 : ℚ) ^ (1024 : Int)) :
    nearest ((n * 2 ^ u : Nat) : ℚ) = .finite ((n * 2 ^ u : Nat) : ℚ) := by
  unfold nearest
  split
  next zero => rw [zero]
  next positive =>
    have below : n * 2 ^ u < 2 ^ (u + 52 + 1) := by
      calc n * 2 ^ u < 2 ^ 53 * 2 ^ u := Nat.mul_lt_mul_of_pos_right small (Nat.two_pow_pos u)
        _ = 2 ^ (u + 52 + 1) := by rw [← Nat.pow_add]; congr 1; omega
    have low := binade_natCast_le below
    rw [Nat.abs_cast]
    obtain ⟨places, shift⟩ : ∃ places : Nat,
        max (binade ((n * 2 ^ u : Nat) : ℚ)) (-1022) - 52 = (u : Int) - places := by
      generalize binade ((n * 2 ^ u : Nat) : ℚ) = b at low
      refine ⟨(u + 52 - max b (-1022)).toNat, ?_⟩
      omega
    have unitPos : (2 : ℚ) ^ ((u : Int) - places) ≠ 0 := zpow_ne_zero _ (by norm_num)
    have scaled : ((n * 2 ^ u : Nat) : ℚ) / (2 : ℚ) ^ ((u : Int) - places) =
        ((n * 2 ^ places : Nat) : Int) := by
      rw [div_eq_iff unitPos, zpow_sub₀ (by norm_num), zpow_natCast, zpow_natCast]
      push_cast
      field_simp
    have rounded : (roundHalfEven (((n * 2 ^ u : Nat) : ℚ) / (2 : ℚ) ^ ((u : Int) - places)) : ℚ) *
        (2 : ℚ) ^ ((u : Int) - places) = (n * 2 ^ u : Nat) := by
      rw [scaled, roundHalfEven_intCast, ← scaled]
      exact div_mul_cancel₀ _ unitPos
    simp only [shift, rounded, Nat.abs_cast]
    exact if_neg (not_le.mpr fits)

/-- A whole number below `2 ^ 53` is a double. -/
theorem nearest_natCast {n : Nat} (small : n < 2 ^ 53) : nearest (n : ℚ) = .finite n := by
  have fits : (n : ℚ) < (2 : ℚ) ^ (1024 : Int) := by
    calc (n : ℚ) < (2 : ℚ) ^ 53 := by exact_mod_cast small
      _ ≤ (2 : ℚ) ^ (1024 : Int) := by
        rw [← zpow_natCast]
        exact zpow_le_zpow_right₀ (by norm_num) (by norm_num)
  have exact_ := @nearest_dyadic n 0 small
  rw [Nat.pow_zero, Nat.mul_one] at exact_
  exact exact_ fits

theorem isSpace_of_isDigit {u : UInt16} (digit : isDigit u = true) : isSpace u = false := by
  simp only [isDigit, Bool.and_eq_true, decide_eq_true_eq] at digit
  simp only [isSpace, Bool.or_eq_false_iff, Bool.and_eq_false_iff, decide_eq_false_iff_not, beq_eq_false_iff_ne]
  omega

theorem trimStart_digits {s : JsString} (digits : ∀ u ∈ s, isDigit u = true) : trimStart s = s := by
  cases s with
  | nil => rfl
  | cons u rest =>
      rw [trimStart, List.dropWhile_cons, isSpace_of_isDigit (digits u List.mem_cons_self),
        if_neg Bool.false_ne_true]

theorem trim_digits {s : JsString} (digits : ∀ u ∈ s, isDigit u = true) : trim s = s := by
  have back : ∀ u ∈ s.reverse, isDigit u = true := fun u inside => digits u (List.mem_reverse.mp inside)
  rw [trim, trimStart_digits digits, trimStart_digits back, List.reverse_reverse]

theorem prefixed?_digits {letter : UInt16} {base : Nat} {s : JsString} (other : isDigit letter = false)
    (digits : ∀ u ∈ s, isDigit u = true) : prefixed? letter base s = none := by
  unfold prefixed?
  split
  next l rest =>
    have digit : isDigit l = true := digits l (.tail _ List.mem_cons_self)
    have same : lowerAscii l = l := by
      simp only [isDigit, Bool.and_eq_true, decide_eq_true_eq] at digit
      exact if_neg (by omega)
    refine if_neg ?_
    rintro ⟨rfl, -⟩
    rw [same, digit] at other
    cases other
  next => rfl

theorem decimal?_digits {s : JsString} (nonempty : s ≠ []) (digits : ∀ u ∈ s, isDigit u = true) :
    decimal? s = some (digitsValue 10 s) := by
  have whole : s.takeWhile isDigit = s := List.takeWhile_eq_self_iff.mpr digits
  have rest : s.dropWhile isDigit = [] := List.dropWhile_eq_nil_iff.mpr digits
  simp [decimal?, whole, rest, nonempty]

/-- A text of digits is read as their value, rounded. -/
theorem ofText_digits {s : JsString} (nonempty : s ≠ []) (digits : ∀ u ∈ s, isDigit u = true) :
    ofText s = nearest (digitsValue 10 s) := by
  have first {mark : UInt16} (other : isDigit mark = false) : s.head? ≠ some mark := by
    intro front
    rw [digits mark (List.mem_of_mem_head? front)] at other
    cases other
  have unsigned : s ≠ js "Infinity" := by
    rintro rfl
    exact first (by decide : isDigit 0x49 = false) rfl
  have hex : prefixed? 0x78 16 s = none := prefixed?_digits (by decide) digits
  have octal : prefixed? 0x6F 8 s = none := prefixed?_digits (by decide) digits
  have binary : prefixed? 0x62 2 s = none := prefixed?_digits (by decide) digits
  have minus : s.head? ≠ some 0x2D := first (by decide)
  have plus : s.head? ≠ some 0x2B := first (by decide)
  have value := decimal?_digits nonempty digits
  simp [ofText, trim_digits digits, nonempty, hex, octal, binary, minus, plus, unsigned, value]

end JsNumber

end SdcoreNest.Theory
