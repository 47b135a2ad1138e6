/-
# Theory.ParseFloat -- the number at the front of a text

`parseFloat` reads the longest front of a text that is a decimal literal.  Decimals up to one
with three places keep their order when they are rounded to doubles, and so do their differences.
-/
import SdcoreNest.Theory.JsNumber
import Mathlib.Data.List.Induction
import Mathlib.Tactic.Linarith

namespace SdcoreNest.Theory

set_option autoImplicit false

namespace JsNumber

open JsString

/-! ## Definitions -/

def neg : JsNumber → JsNumber
  | .finite a => .finite (-a)
  | .infinity n => .infinity !n
  | .nan => .nan

/-- The operator `-` on numbers. -/
def sub (a b : JsNumber) : JsNumber := add a (neg b)

/-- A decimal literal with an optional sign. -/
def literal? (s : JsString) : Option JsNumber :=
  let negative := s.head? = some 0x2D
  let unsigned := if negative ∨ s.head? = some 0x2B then s.drop 1 else s
  if unsigned = js "Infinity" then some (.infinity negative)
  else (decimal? unsigned).map fun value => nearest (if negative then -value else value)

/-- `Number.parseFloat(text)` -/
def parseFloat (text : JsString) : JsNumber :=
  let s := trimStart text
  ((List.range (s.length + 1)).reverse.findSome? fun length => literal? (s.take length)).getD .nan

/-! ## A whole text -/

theorem parseFloat_of_literal {s : JsString} {value : JsNumber} (close : trimStart s = s)
    (literal : literal? s = some value) : parseFloat s = value := by
  rw [parseFloat, close, List.range_succ, List.reverse_append, List.reverse_singleton,
    List.singleton_append, List.findSome?_cons, List.take_length, literal]
  rfl

/-- A text that starts with a digit has no sign. -/
theorem literal?_of_digit {u : UInt16} {rest : JsString} (digit : isDigit u = true) :
    literal? (u :: rest) = (decimal? (u :: rest)).map nearest := by
  have other {mark : UInt16} (none : isDigit mark = false) : (u :: rest).head? ≠ some mark := by
    intro same
    cases same
    rw [digit] at none
    cases none
  have named : u :: rest ≠ js "Infinity" := by
    intro same
    have first : u = 0x49 := (List.cons.inj same).1
    subst first
    cases digit
  have minus := other (by decide : isDigit 0x2D = false)
  have plus := other (by decide : isDigit 0x2B = false)
  simp only [literal?, minus, plus, or_self, if_false, named]

theorem trimStart_of_digit {u : UInt16} {rest : JsString} (digit : isDigit u = true) :
    trimStart (u :: rest) = u :: rest := by
  rw [trimStart, List.dropWhile_cons, isSpace_of_isDigit digit, if_neg Bool.false_ne_true]

/-- Digits, a point and more digits, if any. -/
theorem decimal?_point {whole fraction : JsString} (nonempty : whole ≠ [])
    (digits : ∀ u ∈ whole, isDigit u = true) (more : ∀ u ∈ fraction, isDigit u = true) :
    decimal? (whole ++ 0x2E :: fraction) =
      some ((digitsValue 10 (whole ++ fraction) : ℚ) / 10 ^ fraction.length) := by
  have stop : isDigit 0x2E = false := by decide
  have front : (whole ++ 0x2E :: fraction).takeWhile isDigit = whole := by
    rw [List.takeWhile_append_of_pos digits, List.takeWhile_cons, stop, if_neg Bool.false_ne_true,
      List.append_nil]
  have back : (whole ++ 0x2E :: fraction).dropWhile isDigit = 0x2E :: fraction := by
    rw [List.dropWhile_append_of_pos digits, List.dropWhile_cons, stop, if_neg Bool.false_ne_true]
  have all : fraction.takeWhile isDigit = fraction := List.takeWhile_eq_self_iff.mpr more
  have none : fraction.dropWhile isDigit = [] := List.dropWhile_eq_nil_iff.mpr more
  simp [decimal?, front, back, all, none, nonempty]

theorem hexValue_lt_of_isDigit {u : UInt16} (digit : isDigit u = true) : (hexValue u).getD 0 < 10 := by
  simp only [isDigit, Bool.and_eq_true, decide_eq_true_eq] at digit
  rw [hexValue, if_pos digit]
  simp only [Option.getD_some]
  omega

/-- The value of some digits. -/
theorem digitsValue_lt {s : JsString} (digits : ∀ u ∈ s, isDigit u = true) :
    digitsValue 10 s < 10 ^ s.length := by
  induction s using List.reverseRecOn with
  | nil => decide
  | append_singleton s u ih =>
      have before := ih fun v inside => digits v (List.mem_append_left _ inside)
      have last := hexValue_lt_of_isDigit (digits u (List.mem_append_right _ List.mem_cons_self))
      rw [digitsValue, List.foldl_append, List.length_append, List.length_singleton, Nat.pow_succ]
      change digitsValue 10 s * 10 + (hexValue u).getD 0 < 10 ^ s.length * 10
      omega

/-! ## Rounding keeps the order -/

theorem roundHalfEven_close (q : ℚ) : |(roundHalfEven q : ℚ) - q| ≤ 1 / 2 := by
  have low : (q.floor : ℚ) ≤ q := Int.floor_le q
  have high : q < q.floor + 1 := Int.lt_floor_add_one q
  rw [abs_le]
  unfold roundHalfEven
  simp only
  split_ifs with down up even
  · constructor <;> linarith
  · push_cast
    constructor <;> linarith
  · rw [not_lt] at down up
    constructor <;> linarith
  · rw [not_lt] at down up
    push_cast
    constructor <;> linarith

/-- A decimal up to one is rounded by less than `2⁻⁵²`. -/
theorem nearest_close {q : ℚ} (nonneg : 0 ≤ q) (small : q ≤ 1) :
    ∃ value, nearest q = .finite value ∧ |value - q| ≤ 1 / 2 ^ 53 := by
  unfold nearest
  split
  next zero => exact ⟨0, rfl, by rw [zero]; norm_num⟩
  next nonzero =>
    have low : binade |q| ≤ 0 := by
      have order : q.num.natAbs ≤ q.den := by
        have scaled : (q.num : ℚ) ≤ q.den := by
          have whole := Rat.num_div_den q
          have positive : (0 : ℚ) < q.den := by exact_mod_cast q.den_pos
          rw [← whole, div_le_one positive] at small
          exact small
        have cast : q.num ≤ q.den := by exact_mod_cast scaled
        have sign := Rat.num_nonneg.mpr nonneg
        omega
      have some' : q.num.natAbs ≠ 0 := Int.natAbs_ne_zero.mpr (Rat.num_ne_zero.mpr nonzero)
      have logs : q.num.natAbs.log2 ≤ q.den.log2 :=
        (Nat.le_log2 q.den_pos.ne').mpr ((Nat.log2_self_le some').trans order)
      rw [abs_of_nonneg nonneg]
      unfold binade
      simp only
      split
      · omega
      · omega
    set unit : ℚ := (2 : ℚ) ^ (max (binade |q|) (-1022) - 52) with atUnit
    have positive : 0 < unit := zpow_pos (by norm_num) _
    have fine : unit ≤ 1 / 2 ^ 52 := by
      have less : max (binade |q|) (-1022) - 52 ≤ -52 := by omega
      calc unit ≤ (2 : ℚ) ^ (-52 : Int) := zpow_le_zpow_right₀ (by norm_num) less
        _ = 1 / 2 ^ 52 := by norm_num
    have close : |(roundHalfEven (q / unit) : ℚ) * unit - q| ≤ 1 / 2 ^ 53 := by
      have scaled : (roundHalfEven (q / unit) : ℚ) * unit - q =
          ((roundHalfEven (q / unit) : ℚ) - q / unit) * unit := by
        rw [sub_mul, div_mul_cancel₀ _ positive.ne']
      rw [scaled, abs_mul, abs_of_pos positive]
      calc |(roundHalfEven (q / unit) : ℚ) - q / unit| * unit ≤ 1 / 2 * unit :=
            mul_le_mul_of_nonneg_right (roundHalfEven_close _) positive.le
        _ ≤ 1 / 2 * (1 / 2 ^ 52) := mul_le_mul_of_nonneg_left fine (by norm_num)
        _ = 1 / 2 ^ 53 := by norm_num
    have finite : ¬(2 : ℚ) ^ (1024 : Int) ≤ |(roundHalfEven (q / unit) : ℚ) * unit| := by
      rw [not_le]
      have bounds := abs_le.mp close
      have large : (2 : ℚ) ≤ (2 : ℚ) ^ (1024 : Int) := by
        calc (2 : ℚ) = (2 : ℚ) ^ (1 : Int) := (zpow_one 2).symm
          _ ≤ (2 : ℚ) ^ (1024 : Int) := zpow_le_zpow_right₀ (by norm_num) (by norm_num)
      refine lt_of_lt_of_le (abs_lt.mpr ⟨?_, ?_⟩) large
      · linarith
      · linarith
    exact ⟨_, if_neg finite, close⟩

/-- The binade starts at or below the number. -/
theorem zpow_binade_le {q : ℚ} (positive : 0 < q) : (2 : ℚ) ^ binade q ≤ q := by
  have guess : (2 : ℚ) ^ ((q.num.natAbs.log2 : Int) - q.den.log2 - 1) ≤ q := by
    have num : (2 : ℚ) ^ (q.num.natAbs.log2 : Int) ≤ q.num := by
      have some' : q.num.natAbs ≠ 0 := Int.natAbs_ne_zero.mpr (Rat.num_ne_zero.mpr positive.ne')
      have whole : (q.num.natAbs : Int) = q.num := Int.natAbs_of_nonneg (Rat.num_pos.mpr positive).le
      have low := Nat.log2_self_le some'
      rw [zpow_natCast, ← whole]
      exact_mod_cast low
    have den : (q.den : ℚ) ≤ (2 : ℚ) ^ ((q.den.log2 : Int) + 1) := by
      have high : q.den < 2 ^ (q.den.log2 + 1) := Nat.lt_log2_self
      rw [← Nat.cast_succ, zpow_natCast]
      exact_mod_cast high.le
    have whole := Rat.num_div_den q
    have positive' : (0 : ℚ) < q.den := by exact_mod_cast q.den_pos
    calc (2 : ℚ) ^ ((q.num.natAbs.log2 : Int) - q.den.log2 - 1)
        = (2 : ℚ) ^ (q.num.natAbs.log2 : Int) / (2 : ℚ) ^ ((q.den.log2 : Int) + 1) := by
          rw [← zpow_sub₀ (by norm_num), sub_sub]
      _ ≤ q.num / q.den := div_le_div₀ (Rat.num_nonneg.mpr positive.le |> Int.cast_nonneg) num positive' den
      _ = q := whole
  unfold binade
  simp only
  split
  · exact guess
  next high => exact not_lt.mp high

/-- The binade ends above the number. -/
theorem lt_zpow_binade {q : ℚ} (positive : 0 < q) : q < (2 : ℚ) ^ (binade q + 1) := by
  have guess : q < (2 : ℚ) ^ ((q.num.natAbs.log2 : Int) - q.den.log2 + 1) := by
    have num : (q.num : ℚ) < (2 : ℚ) ^ ((q.num.natAbs.log2 : Int) + 1) := by
      have whole : (q.num.natAbs : Int) = q.num := Int.natAbs_of_nonneg (Rat.num_pos.mpr positive).le
      have high : q.num.natAbs < 2 ^ (q.num.natAbs.log2 + 1) := Nat.lt_log2_self
      rw [← Nat.cast_succ, zpow_natCast, ← whole]
      exact_mod_cast high
    have den : (2 : ℚ) ^ (q.den.log2 : Int) ≤ q.den := by
      rw [zpow_natCast]
      exact_mod_cast Nat.log2_self_le q.den_pos.ne'
    have denPos : (0 : ℚ) < (2 : ℚ) ^ (q.den.log2 : Int) := zpow_pos (by norm_num) _
    have numPos : (0 : ℚ) ≤ q.num := Int.cast_nonneg (Rat.num_pos.mpr positive).le
    calc q = q.num / q.den := (Rat.num_div_den q).symm
      _ ≤ q.num / (2 : ℚ) ^ (q.den.log2 : Int) := div_le_div_of_nonneg_left numPos denPos den
      _ < (2 : ℚ) ^ ((q.num.natAbs.log2 : Int) + 1) / (2 : ℚ) ^ (q.den.log2 : Int) :=
        div_lt_div_of_pos_right num denPos
      _ = (2 : ℚ) ^ ((q.num.natAbs.log2 : Int) - q.den.log2 + 1) := by
        rw [← zpow_sub₀ (by norm_num), sub_add_eq_add_sub]
  unfold binade
  simp only
  split
  next low => rwa [sub_add_cancel]
  next => exact guess

/-- What is not too small for a double stays above zero. -/
theorem nearest_pos {q : ℚ} (large : (2 : ℚ) ^ (-1022 : Int) ≤ q) : lt (.finite 0) (nearest q) = true := by
  have tiny : (0 : ℚ) < (2 : ℚ) ^ (-1022 : Int) := zpow_pos (by norm_num) _
  have positive := lt_of_lt_of_le tiny large
  unfold nearest
  rw [if_neg positive.ne', abs_of_pos positive]
  set unit : ℚ := (2 : ℚ) ^ (max (binade q) (-1022) - 52) with atUnit
  have unitPos : 0 < unit := zpow_pos (by norm_num) _
  have fits : unit ≤ q := by
    rcases le_total (binade q) (-1022) with low | high
    · rw [atUnit, max_eq_right low]
      exact (zpow_le_zpow_right₀ (by norm_num) (by norm_num)).trans large
    · rw [atUnit, max_eq_left high]
      exact (zpow_le_zpow_right₀ (by norm_num) (by omega)).trans (zpow_binade_le positive)
  have rounded : (1 : ℚ) ≤ roundHalfEven (q / unit) := by
    exact_mod_cast le_roundHalfEven (n := 1) (by simpa using (one_le_div₀ unitPos).mpr fits)
  have above : (0 : ℚ) < roundHalfEven (q / unit) * unit := mul_pos (by linarith) unitPos
  simp only
  split
  · rw [decide_eq_false (not_lt.mpr positive.le)]
    rfl
  · exact decide_eq_true above

theorem nearest_not_pos {q : ℚ} (nonpos : q ≤ 0) : lt (.finite 0) (nearest q) = false := by
  unfold nearest
  split
  next => exact decide_eq_false (lt_irrefl 0)
  next nonzero =>
    set unit : ℚ := (2 : ℚ) ^ (max (binade |q|) (-1022) - 52) with atUnit
    have unitPos : 0 < unit := zpow_pos (by norm_num) _
    have rounded : (roundHalfEven (q / unit) : ℚ) ≤ 0 := by
      exact_mod_cast roundHalfEven_le (n := 0) (by simpa using div_nonpos_of_nonpos_of_nonneg nonpos unitPos.le)
    have low : (roundHalfEven (q / unit) : ℚ) * unit ≤ 0 := mul_nonpos_of_nonpos_of_nonneg rounded unitPos.le
    simp only
    split
    · rw [decide_eq_true (lt_of_le_of_ne nonpos nonzero)]
      rfl
    · exact decide_eq_false (not_lt.mpr low)

/-! ### Thousandths -/

/-- The double nearest to some thousandths. -/
def thousandths (n : Nat) : JsNumber := nearest ((n : ℚ) / 1000)

theorem thousandths_close {n : Nat} (small : n ≤ 1000) :
    ∃ value, thousandths n = .finite value ∧ |value - (n : ℚ) / 1000| ≤ 1 / 2 ^ 53 := by
  have bound : (n : ℚ) ≤ 1000 := by exact_mod_cast small
  exact nearest_close (by positivity) ((div_le_one (by norm_num)).mpr bound)

theorem thousandths_ne_nan {n : Nat} (small : n ≤ 1000) : thousandths n ≠ .nan := by
  obtain ⟨value, same, -⟩ := thousandths_close small
  rw [same]
  exact fun other => by cases other

theorem thousandths_one : thousandths 1000 = .finite 1 := by
  have one := @nearest_natCast 1 (by decide)
  rw [thousandths]
  norm_num at one ⊢
  exact one

/-- A difference of thousandths is above zero exactly when it is. -/
theorem lt_sub_thousandths {n m : Nat} (first : n ≤ 1000) (second : m ≤ 1000) :
    lt (.finite 0) (sub (thousandths n) (thousandths m)) = true ↔ m < n := by
  obtain ⟨value, atValue, close⟩ := thousandths_close first
  obtain ⟨other, atOther, close'⟩ := thousandths_close second
  have difference : sub (thousandths n) (thousandths m) = nearest (value - other) := by
    rw [atValue, atOther, sub, neg, add, sub_eq_add_neg]
  obtain ⟨low, high⟩ := abs_le.mp close
  obtain ⟨low', high'⟩ := abs_le.mp close'
  constructor
  · intro positive
    by_contra not
    rw [not_lt] at not
    rcases Nat.eq_or_lt_of_le not with rfl | less
    · rw [atOther] at atValue
      cases atValue
      rw [difference, sub_self, nearest_not_pos (le_refl 0)] at positive
      cases positive
    · have step : (n : ℚ) + 1 ≤ m := by exact_mod_cast less
      have below : value - other ≤ 0 := by
        have gap : (n : ℚ) / 1000 + 1 / 1000 ≤ m / 1000 := by linarith
        have fine : (1 : ℚ) / 2 ^ 53 + 1 / 2 ^ 53 ≤ 1 / 1000 := by norm_num
        linarith
      rw [difference, nearest_not_pos below] at positive
      cases positive
  · intro less
    have step : (m : ℚ) + 1 ≤ n := by exact_mod_cast less
    have gap : (m : ℚ) / 1000 + 1 / 1000 ≤ n / 1000 := by linarith
    have fine : (1 : ℚ) / 2 ^ 53 + 1 / 2 ^ 53 + 1 / 2048 ≤ 1 / 1000 := by norm_num
    have above : 1 / 2048 ≤ value - other := by linarith
    rw [difference]
    refine nearest_pos (le_trans ?_ above)
    calc (2 : ℚ) ^ (-1022 : Int) ≤ (2 : ℚ) ^ (-11 : Int) := zpow_le_zpow_right₀ (by norm_num) (by norm_num)
      _ = 1 / 2048 := by norm_num

end JsNumber

end SdcoreNest.Theory
