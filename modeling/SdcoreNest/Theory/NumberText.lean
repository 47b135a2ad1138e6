/-
# Theory.NumberText -- the text of a number, and counts as doubles

`toText` is the conversion `String(number)`: the fewest digits that are read back as the number,
laid out with a point or an exponent.  A `Count` is a number that counting can reach, a whole
number that is a double, or Infinity; counts that differ have different texts.
-/
import SdcoreNest.Theory.ParseFloat
import SdcoreNest.Theory.Text
import Mathlib.Data.Int.Log

namespace SdcoreNest.Theory

set_option autoImplicit false

namespace JsNumber

open Text

/-! ## The fewest digits -/

/-- How many digits a positive rational has before its point. -/
def places (x : ℚ) : Int := Int.log 10 x + 1

/-- The digits above a place that are read back as `x`, the closest first. -/
def digits? (x : ℚ) (shift : Int) : Option Nat :=
  let unit : ℚ := (10 : ℚ) ^ shift
  let below := (x / unit).floor.toNat
  [(roundHalfEven (x / unit)).toNat, below, below + 1].find? fun digits =>
    nearest (digits * unit) = .finite x

/-- The fewest digits that are read back as `x`, and the power of ten they are multiplied by.  A
double is its own expansion, so there is always one to find. -/
def shortest (x : ℚ) : Option (Nat × Int) :=
  (List.range' 1 ((places x).toNat + x.den.log2)).findSome? fun (count : Nat) =>
    (digits? x (places x - count)).map fun digits =>
      if digits = 10 ^ count then (1, places x) else (digits, places x - count)

/-! ## Layout -/

/-- One digit before the point, and the others after it. -/
def pointed : Text → Text
  | first :: second :: rest => first :: '.' :: second :: rest
  | digits => digits

/-- `digits * 10 ^ shift` as `String` writes it. -/
def layout (digits : Nat) (shift : Int) : Text :=
  let figures := decimal digits
  let point : Int := figures.length + shift
  if 0 ≤ shift ∧ point ≤ 21 then figures ++ List.replicate shift.toNat '0'
  else if 0 < point ∧ point ≤ 21 then figures.take point.toNat ++ '.' :: figures.drop point.toNat
  else if -6 < point ∧ point ≤ 0 then
    '0' :: '.' :: (List.replicate (-point).toNat '0' ++ figures)
  else
    pointed figures ++ 'e' :: (if 0 < point then '+' else '-') :: decimal (point - 1).natAbs

/-- `String(number)` -/
def toText : JsNumber → Text
  | .nan => "NaN".toList
  | .infinity negative => (if negative then ['-'] else []) ++ "Infinity".toList
  | .finite x =>
      if x = 0 then ['0']
      else
        let (digits, shift) := (shortest |x|).getD (0, 0)
        (if x < 0 then ['-'] else []) ++ layout digits shift

/-! ## Counts -/

/-- A whole number that is a double, or Infinity. -/
def IsCount (a : JsNumber) : Prop :=
  a = .infinity false ∨ ∃ n : Nat, a = .finite n ∧ nearest n = .finite n

theorem nearest_dyadic_le {n u : Nat} (small : n ≤ 2 ^ 53)
    (fits : ((n * 2 ^ u : Nat) : ℚ) < (2 : ℚ) ^ (1024 : Int)) :
    nearest ((n * 2 ^ u : Nat) : ℚ) = .finite ((n * 2 ^ u : Nat) : ℚ) := by
  rcases Nat.lt_or_eq_of_le small with less | same
  · exact nearest_dyadic less fits
  · -- the carry into a 54th bit is one zero bit more
    have carried : n * 2 ^ u = 2 ^ 52 * 2 ^ (u + 1) := by
      rw [same, ← Nat.pow_add, ← Nat.pow_add]
      congr 1
      omega
    rw [carried] at fits ⊢
    exact nearest_dyadic (by norm_num) fits

/-- Whole numbers are rounded to counts. -/
theorem isCount_nearest (n : Nat) : IsCount (nearest (n : ℚ)) := by
  by_cases small : n < 2 ^ 53
  · have exact_ := nearest_natCast small
    exact .inr ⟨n, exact_, exact_⟩
  · have large : (2 : ℚ) ^ (53 : Int) ≤ n := by
      rw [show (53 : Int) = (53 : Nat) from rfl, zpow_natCast]
      exact_mod_cast Nat.le_of_not_lt small
    have positive : (0 : ℚ) < n := lt_of_lt_of_le (zpow_pos (by norm_num) _) large
    have above : (53 : Int) < binade (n : ℚ) + 1 :=
      (zpow_lt_zpow_iff_right₀ (by norm_num : (1 : ℚ) < 2)).mp (lt_of_le_of_lt large (lt_zpow_binade positive))
    obtain ⟨u, shift⟩ : ∃ u : Nat, max (binade (n : ℚ)) (-1022) - 52 = u := by
      refine ⟨(binade (n : ℚ) - 52).toNat, ?_⟩
      omega
    have unitPos : (0 : ℚ) < (2 : ℚ) ^ u := pow_pos (by norm_num) u
    have below : (n : ℚ) / 2 ^ u ≤ ((2 ^ 53 : Nat) : Int) := by
      rw [div_le_iff₀ unitPos]
      calc (n : ℚ) ≤ (2 : ℚ) ^ (binade (n : ℚ) + 1) := (lt_zpow_binade positive).le
        _ = (2 : ℚ) ^ ((53 + u : Nat) : Int) := by
          congr 1
          omega
        _ = (((2 ^ 53 : Nat) : Int) : ℚ) * 2 ^ u := by
          rw [zpow_natCast, pow_add]
          push_cast
          rfl
    obtain ⟨r, rounded⟩ : ∃ r : Nat, roundHalfEven ((n : ℚ) / 2 ^ u) = r :=
      Int.eq_ofNat_of_zero_le (le_roundHalfEven (by positivity))
    have bits : r ≤ 2 ^ 53 := by
      have high := roundHalfEven_le below
      omega
    have value : nearest (n : ℚ) = if (2 : ℚ) ^ (1024 : Int) ≤ ((r * 2 ^ u : Nat) : ℚ) then .infinity false
        else .finite ((r * 2 ^ u : Nat) : ℚ) := by
      have whole : (r : ℚ) * 2 ^ u = ((r * 2 ^ u : Nat) : ℚ) := by push_cast; rfl
      unfold nearest
      rw [if_neg positive.ne']
      simp only [Nat.abs_cast, shift, zpow_natCast, rounded, Int.cast_natCast, whole,
        decide_eq_false (not_lt.mpr positive.le)]
    rw [value]
    split
    next => exact .inl rfl
    next fits => exact .inr ⟨_, rfl, nearest_dyadic_le bits (not_le.mp fits)⟩

theorem IsCount.add {a b : JsNumber} (left : IsCount a) (right : IsCount b) : IsCount (add a b) := by
  rcases left with rfl | ⟨n, rfl, -⟩ <;> rcases right with rfl | ⟨m, rfl, -⟩
  · exact .inl rfl
  · exact .inl rfl
  · exact .inl rfl
  · rw [JsNumber.add, ← Nat.cast_add]
    exact isCount_nearest (n + m)

theorem IsCount.times {a : JsNumber} (count : IsCount a) {factor : Nat} (positive : 0 < factor) :
    IsCount (mul a (.finite factor)) := by
  have above : (0 : ℚ) < factor := by exact_mod_cast positive
  rcases count with rfl | ⟨n, rfl, -⟩
  · rw [mul, if_neg above.ne', decide_eq_false (not_lt.mpr above.le)]
    exact .inl rfl
  · rw [mul, ← Nat.cast_mul]
    exact isCount_nearest (n * factor)

/-! ## Texts of counts -/

theorem digits?_reads {x : ℚ} {shift : Int} {digits : Nat} (found : digits? x shift = some digits) :
    nearest (digits * (10 : ℚ) ^ shift) = .finite x := by
  unfold digits? at found
  simpa using List.find?_some found

/-- The digits that are found are read back as the number. -/
theorem shortest_reads {x : ℚ} {digits : Nat} {shift : Int} (found : shortest x = some (digits, shift)) :
    nearest (digits * (10 : ℚ) ^ shift) = .finite x := by
  obtain ⟨count, -, atCount⟩ := List.exists_of_findSome?_eq_some found
  obtain ⟨closest, isClosest, same⟩ := Option.map_eq_some_iff.mp atCount
  have reads := digits?_reads isClosest
  split at same
  next carried =>
    cases same
    rw [← reads, carried, Nat.cast_one, one_mul]
    push_cast
    rw [← zpow_natCast, ← zpow_add₀ (by norm_num), add_sub_cancel]
  next =>
    cases same
    exact reads

/-- A whole number has no digit after its point. -/
theorem shortest_whole {n digits : Nat} {shift : Int} (found : shortest (n : ℚ) = some (digits, shift)) :
    0 ≤ shift := by
  obtain ⟨count, member, atCount⟩ := List.exists_of_findSome?_eq_some found
  obtain ⟨closest, -, same⟩ := Option.map_eq_some_iff.mp atCount
  have range := List.mem_range'_1.mp member
  have one : Nat.log2 1 = 0 := by decide
  rw [Rat.den_natCast, one] at range
  split at same <;> cases same <;> omega

theorem exists_shortest {n : Nat} (double : nearest (n : ℚ) = .finite n) :
    ∃ digits shift, shortest (n : ℚ) = some (digits, shift) := by
  have size : places (n : ℚ) = Nat.log 10 n + 1 := by rw [places, Int.log_natCast]
  -- all the digits of the number are one way to write it
  have all : (digits? (n : ℚ) 0).isSome = true := by
    rw [digits?, List.find?_isSome]
    refine ⟨n, ?_, ?_⟩
    · have whole : roundHalfEven (n : ℚ) = n := roundHalfEven_intCast n
      simp [whole]
    · simpa using double
  have found : (shortest (n : ℚ)).isSome = true := by
    rw [shortest, List.findSome?_isSome_iff]
    refine ⟨Nat.log 10 n + 1, ?_, ?_⟩
    · rw [List.mem_range'_1, size]
      omega
    · rw [Option.isSome_map, size, Nat.cast_succ, sub_self]
      exact all
  obtain ⟨⟨digits, shift⟩, same⟩ := Option.isSome_iff_exists.mp found
  exact ⟨digits, shift, same⟩

/-- The text of a count is the layout of some digits that are read back as it. -/
theorem toText_count {n : Nat} (double : nearest (n : ℚ) = .finite n) :
    ∃ digits shift : Nat, toText (.finite n) = layout digits shift ∧
      nearest ((digits * 10 ^ shift : Nat) : ℚ) = .finite n := by
  rcases Nat.eq_zero_or_pos n with rfl | positive
  · exact ⟨0, 0, rfl, double⟩
  · obtain ⟨digits, shift, found⟩ := exists_shortest double
    have reads := shortest_reads found
    obtain ⟨shift, rfl⟩ := Int.eq_ofNat_of_zero_le (shortest_whole found)
    have nonzero : (n : ℚ) ≠ 0 := by exact_mod_cast positive.ne'
    have above : ¬(n : ℚ) < 0 := not_lt.mpr (Nat.cast_nonneg n)
    refine ⟨digits, shift, ?_, ?_⟩
    · rw [toText, if_neg nonzero, Nat.abs_cast, found, if_neg above]
      rfl
    · rw [← reads]
      push_cast
      rfl

/-! ### Reading a layout back -/

theorem isDigit_of_mem_decimal {n : Nat} {c : Char} (inside : c ∈ decimal n) : c.isDigit = true :=
  Nat.isDigit_of_mem_toDigits (by omega) (by omega) inside

theorem ofDigitChars_zeros (n start : Nat) :
    Nat.ofDigitChars 10 (List.replicate n '0') start = start * 10 ^ n := by
  induction n generalizing start with
  | zero => simp
  | succ n ih =>
      rw [List.replicate_succ, Nat.ofDigitChars_cons, ih, Nat.pow_succ]
      simp only [Nat.sub_self, Nat.add_zero]
      ring

theorem mem_pointed {digits : Text} {c : Char} (inside : c ∈ pointed digits) : c = '.' ∨ c ∈ digits := by
  unfold pointed at inside
  split at inside
  · rcases List.mem_cons.mp inside with rfl | inside
    · exact .inr List.mem_cons_self
    · rcases List.mem_cons.mp inside with rfl | inside
      · exact .inl rfl
      · exact .inr (.tail _ inside)
  · exact .inr inside

theorem filter_pointed {digits : Text} (outside : '.' ∉ digits) :
    (pointed digits).filter (· != '.') = digits := by
  have kept : digits.filter (· != '.') = digits := by
    rw [List.filter_eq_self]
    intro c inside
    rw [bne_iff_ne]
    rintro rfl
    exact outside inside
  unfold pointed
  split
  next first second rest =>
    have front : first ≠ '.' := by
      rintro rfl
      exact outside List.mem_cons_self
    rw [List.filter_cons_of_pos (by simpa using front)] at kept ⊢
    rw [List.filter_cons_of_neg (by simp)]
    exact kept
  next => exact kept

theorem layout_natCast (digits shift : Nat) :
    layout digits shift =
      if (decimal digits).length + shift ≤ 21 then decimal digits ++ List.replicate shift '0'
      else pointed (decimal digits) ++ 'e' :: '+' :: decimal ((decimal digits).length + shift - 1) := by
  have some' : 0 < (decimal digits).length := List.length_pos_iff.mpr Nat.toDigits_ne_nil
  rw [layout]
  by_cases short : (decimal digits).length + shift ≤ 21
  · rw [if_pos short, if_pos (by omega)]
    rfl
  · rw [if_neg short, if_neg (by omega), if_neg (by omega), if_neg (by omega), if_pos (by omega)]
    congr 4
    omega

theorem mem_layout {digits shift : Nat} {c : Char} (inside : c ∈ layout digits shift) :
    c.isDigit = true ∨ c = '.' ∨ c = 'e' ∨ c = '+' := by
  rw [layout_natCast] at inside
  split at inside
  · rcases List.mem_append.mp inside with inside | inside
    · exact .inl (isDigit_of_mem_decimal inside)
    · rw [List.eq_of_mem_replicate inside]
      exact .inl rfl
  · rcases List.mem_append.mp inside with inside | inside
    · exact (mem_pointed inside).elim (fun point => .inr (.inl point))
        fun inside => .inl (isDigit_of_mem_decimal inside)
    · rcases List.mem_cons.mp inside with rfl | inside
      · exact .inr (.inr (.inl rfl))
      · rcases List.mem_cons.mp inside with rfl | inside
        · exact .inr (.inr (.inr rfl))
        · exact .inl (isDigit_of_mem_decimal inside)

/-- A layout shows the value that was laid out. -/
theorem layout_injective {digits shift digits' shift' : Nat}
    (same : layout digits shift = layout digits' shift') : digits * 10 ^ shift = digits' * 10 ^ shift' := by
  have plain {digits shift : Nat} : 'e' ∉ decimal digits ++ List.replicate shift '0' := by
    intro inside
    rcases List.mem_append.mp inside with inside | inside
    · exact absurd (isDigit_of_mem_decimal inside) (by decide)
    · exact absurd (List.eq_of_mem_replicate inside) (by decide)
  have outside {digits : Nat} : 'e' ∉ pointed (decimal digits) := by
    intro inside
    rcases mem_pointed inside with point | inside
    · exact absurd point (by decide)
    · exact absurd (isDigit_of_mem_decimal inside) (by decide)
  have noPoint {digits : Nat} : '.' ∉ decimal digits := by
    intro inside
    exact absurd (isDigit_of_mem_decimal inside) (by decide)
  rw [layout_natCast, layout_natCast] at same
  split at same <;> split at same
  · have values := congrArg (Nat.ofDigitChars 10 · 0) same
    simpa only [Nat.ofDigitChars_append, ofDigitChars_zeros, decimal, Nat.ofDigitChars_ten_toDigits] using values
  · exact absurd (same ▸ List.mem_append_right _ List.mem_cons_self) plain
  · exact absurd (same ▸ List.mem_append_right _ List.mem_cons_self) plain
  · obtain ⟨figures, tails⟩ := append_mark_inj outside outside same
    have digits_ : decimal digits = decimal digits' := by
      rw [← filter_pointed (@noPoint digits), figures, filter_pointed noPoint]
    have exponents := decimal_injective (List.cons.inj tails).2
    obtain rfl := decimal_injective digits_
    have shifts : shift = shift' := by omega
    rw [shifts]

/-- What a text of a count is made of. -/
theorem mem_toText {a : JsNumber} (count : IsCount a) {c : Char} (inside : c ∈ toText a) :
    c.isDigit = true ∨ c ∈ ".e+Infinity".toList := by
  rcases count with rfl | ⟨n, rfl, double⟩
  · have infinite : toText (.infinity false) = "Infinity".toList := rfl
    rw [infinite] at inside
    exact .inr (List.mem_append_right ".e+".toList inside)
  · obtain ⟨digits, shift, isLayout, -⟩ := toText_count double
    rw [isLayout] at inside
    rcases mem_layout inside with digit | rfl | rfl | rfl
    · exact .inl digit
    all_goals exact .inr (by decide)

/-- Counts that differ have different texts. -/
theorem toText_injOn {a b : JsNumber} (left : IsCount a) (right : IsCount b)
    (same : toText a = toText b) : a = b := by
  have finite {n : Nat} (double : nearest (n : ℚ) = .finite n) : 'I' ∉ toText (.finite n) := by
    obtain ⟨digits, shift, isLayout, -⟩ := toText_count double
    rw [isLayout]
    intro inside
    rcases mem_layout inside with digit | other | other | other <;> exact absurd ‹_› (by decide)
  have infinite : 'I' ∈ toText (.infinity false) := by decide
  rcases left with rfl | ⟨n, rfl, double⟩ <;> rcases right with rfl | ⟨m, rfl, double'⟩
  · rfl
  · exact absurd (same ▸ infinite) (finite double')
  · exact absurd (same.symm ▸ infinite) (finite double)
  · obtain ⟨digits, shift, isLayout, reads⟩ := toText_count double
    obtain ⟨digits', shift', isLayout', reads'⟩ := toText_count double'
    rw [isLayout, isLayout'] at same
    rw [← reads, ← reads', layout_injective same]

end JsNumber

open JsNumber

/-- A number that counting can reach. -/
@[ext]
structure Count where
  number : JsNumber
  isCount : IsCount number
deriving DecidableEq

namespace Count

/-- The double of a whole number. -/
def ofNat (n : Nat) : Count := ⟨nearest n, isCount_nearest n⟩

/-- The operator `+`. -/
def plus (a b : Count) : Count := ⟨add a.number b.number, a.isCount.add b.isCount⟩

/-- The operator `*`. -/
def times (a : Count) (factor : Nat) (positive : 0 < factor) : Count :=
  ⟨mul a.number (.finite factor), a.isCount.times positive⟩

theorem ofNat_number {n : Nat} (small : n < 2 ^ 53) : (ofNat n).number = .finite n := nearest_natCast small

theorem plus_ofNat {n m : Nat} (left : n < 2 ^ 53) (right : m < 2 ^ 53) :
    (ofNat n).plus (ofNat m) = ofNat (n + m) := by
  apply Count.ext
  change add (ofNat n).number (ofNat m).number = _
  rw [ofNat_number left, ofNat_number right, add, ← Nat.cast_add]
  rfl

theorem times_ofNat {n : Nat} (small : n < 2 ^ 53) {factor : Nat} (positive : 0 < factor) :
    (ofNat n).times factor positive = ofNat (n * factor) := by
  apply Count.ext
  change mul (ofNat n).number (.finite factor) = _
  rw [ofNat_number small, mul, ← Nat.cast_mul]
  rfl

def text (a : Count) : Text := toText a.number

theorem text_injective : Function.Injective text := by
  rintro ⟨a, left⟩ ⟨b, right⟩ same
  obtain rfl := toText_injOn left right same
  rfl

theorem mem_text {a : Count} {c : Char} (inside : c ∈ a.text) :
    c.isDigit = true ∨ c ∈ ".e+Infinity".toList := mem_toText a.isCount inside

end Count

end SdcoreNest.Theory
