/-
# Theory.Encoding -- encodings of JavaScript text that can be read back

Joining at a separator, quoting as JSON and percent-encoding lose nothing: each code word
can be read off the front of whatever follows, so it delimits.  The readers exist for the
proofs only.
-/
import SdcoreNest.Theory.Text
import Mathlib

namespace SdcoreNest.Theory

set_option autoImplicit false

/-! ## Codes with a reader -/

section Readers

variable {α β : Type}

theorem Delimits.of_reader {code : α → List β} (reader : List β → Option (α × List β))
    (reads : ∀ a rest, reader (code a ++ rest) = some (a, rest)) : Delimits Eq code := by
  intro a b rest others same
  have found := reads a rest
  rw [same, reads b others] at found
  have pair := Option.some.inj found
  exact ⟨(congrArg Prod.fst pair).symm, (congrArg Prod.snd pair).symm⟩

end Readers

namespace JsString

/-! ## Joining and splitting -/

theorem joinWith_cons_cons (separator : UInt16) (first second : JsString) (rest : List JsString) :
    joinWith [separator] (first :: second :: rest) =
      first ++ separator :: joinWith [separator] (second :: rest) := by
  simp [joinWith, List.intersperse]

theorem joinWith_cons (separator : UInt16) (first : JsString) {rest : List JsString}
    (nonempty : rest ≠ []) : joinWith [separator] (first :: rest) =
      first ++ separator :: joinWith [separator] rest := by
  obtain ⟨second, later, rfl⟩ := List.exists_cons_of_ne_nil nonempty
  exact joinWith_cons_cons separator first second later

/-- Parts that were joined before join as they would one by one. -/
theorem joinWith_joinWith (separator : UInt16) :
    ∀ {parts others : List JsString}, parts ≠ [] → others ≠ [] →
      joinWith [separator] (joinWith [separator] parts :: others) =
        joinWith [separator] (parts ++ others)
  | [], _, nonempty, _ => absurd rfl nonempty
  | [part], others, _, nonempty => by
      have single : joinWith [separator] [part] = part := by simp [joinWith, List.intersperse]
      rw [single, List.singleton_append]
  | first :: second :: rest, others, _, nonempty => by
      have later := joinWith_joinWith separator (List.cons_ne_nil second rest) nonempty
      rw [joinWith_cons separator _ nonempty] at later ⊢
      rw [joinWith_cons_cons, List.append_assoc, List.cons_append, later]
      exact (joinWith_cons_cons separator first second (rest ++ others)).symm

theorem joinWith_singleton (separator : UInt16) (part : JsString) : joinWith [separator] [part] = part := by
  rw [joinWith, List.intersperse, List.flatten_singleton]

theorem of_mem_joinWith {separator u : UInt16} {parts : List JsString}
    (inside : u ∈ joinWith [separator] parts) : u = separator ∨ ∃ part ∈ parts, u ∈ part := by
  induction parts with
  | nil => cases inside
  | cons part rest ih =>
      by_cases alone : rest = []
      · subst alone
        rw [joinWith_singleton] at inside
        exact .inr ⟨part, List.mem_cons_self, inside⟩
      · rw [joinWith_cons separator part alone, List.mem_append, List.mem_cons] at inside
        rcases inside with inside | same | inside
        · exact .inr ⟨part, List.mem_cons_self, inside⟩
        · exact .inl same
        · rcases ih inside with same | ⟨other, listed, inside⟩
          · exact .inl same
          · exact .inr ⟨other, .tail _ listed, inside⟩

theorem splitOn_of_not_mem {separator : UInt16} {s : JsString} (outside : separator ∉ s) :
    splitOn separator s = [s] := by
  induction s with
  | nil => rfl
  | cons u rest ih =>
      obtain ⟨different, outside⟩ := not_or.mp (List.mem_cons.not.mp outside)
      rw [splitOn, if_neg (Ne.symm different), ih outside]

theorem splitOn_append {separator : UInt16} {s : JsString} (outside : separator ∉ s)
    (rest : JsString) : splitOn separator (s ++ separator :: rest) = s :: splitOn separator rest := by
  induction s with
  | nil => rw [List.nil_append, splitOn, if_pos rfl]
  | cons u tail ih =>
      obtain ⟨different, outside⟩ := not_or.mp (List.mem_cons.not.mp outside)
      rw [List.cons_append, splitOn, if_neg (Ne.symm different), ih outside]

/-- Parts without the separator are found again. -/
theorem splitOn_joinWith {separator : UInt16} :
    ∀ {parts : List JsString}, parts ≠ [] → (∀ part ∈ parts, separator ∉ part) →
      splitOn separator (joinWith [separator] parts) = parts
  | [], nonempty, _ => absurd rfl nonempty
  | [part], _, outside => by
      rw [joinWith, List.intersperse, List.flatten_singleton]
      exact splitOn_of_not_mem (outside part List.mem_cons_self)
  | first :: second :: rest, _, outside => by
      rw [joinWith_cons_cons, splitOn_append (outside first List.mem_cons_self),
        splitOn_joinWith (List.cons_ne_nil _ _) fun part inside => outside part (.tail _ inside)]

/-- What follows the last separator, as `split(separator).pop()`. -/
def afterLast (separator : UInt16) (s : JsString) : JsString :=
  ((splitOn separator s).getLast?).getD []

theorem afterLast_of_not_mem {separator : UInt16} {s : JsString} (outside : separator ∉ s) :
    afterLast separator s = s := by
  rw [afterLast, splitOn_of_not_mem outside]
  rfl

theorem splitOn_ne_nil (separator : UInt16) (s : JsString) : splitOn separator s ≠ [] := by
  cases s with
  | nil => exact List.cons_ne_nil _ _
  | cons u rest =>
      rw [splitOn]
      split
      · exact List.cons_ne_nil _ _
      · split <;> exact List.cons_ne_nil _ _

theorem of_mem_splitOn {separator u : UInt16} {s part : JsString} (inside : part ∈ splitOn separator s)
    (held : u ∈ part) : u ∈ s ∧ u ≠ separator := by
  induction s generalizing part with
  | nil =>
      rw [splitOn, List.mem_singleton] at inside
      subst inside
      cases held
  | cons v rest ih =>
      rw [splitOn] at inside
      split at inside
      · rcases List.mem_cons.mp inside with rfl | later
        · cases held
        · exact ⟨.tail _ (ih later held).1, (ih later held).2⟩
      next other =>
        split at inside
        next first parts shape =>
          rcases List.mem_cons.mp inside with rfl | later
          · rcases List.mem_cons.mp held with rfl | there
            · exact ⟨List.mem_cons_self, other⟩
            · have back := ih (by rw [shape]; exact List.mem_cons_self) there
              exact ⟨.tail _ back.1, back.2⟩
          · have back := ih (by rw [shape]; exact .tail _ later) held
            exact ⟨.tail _ back.1, back.2⟩
        next =>
          rw [List.mem_singleton] at inside
          subst inside
          rw [List.mem_singleton] at held
          subst held
          exact ⟨List.mem_cons_self, other⟩

theorem joinWith_splitOn (separator : UInt16) (s : JsString) :
    joinWith [separator] (splitOn separator s) = s := by
  induction s with
  | nil => rfl
  | cons u rest ih =>
      obtain ⟨part, parts, shape⟩ := List.exists_cons_of_ne_nil (splitOn_ne_nil separator rest)
      rw [splitOn]
      split
      next same => rw [joinWith_cons _ _ (splitOn_ne_nil separator rest), ih, List.nil_append, same]
      next =>
        rw [shape] at ih ⊢
        cases parts with
        | nil => simpa [joinWith, List.intersperse] using ih
        | cons second later =>
            rw [joinWith_cons_cons] at ih
            simp only
            rw [joinWith_cons_cons, List.cons_append, ih]

/-- Splitting at a separator splits both sides of it. -/
theorem splitOn_append_splitOn (separator : UInt16) (s t : JsString) :
    splitOn separator (s ++ separator :: t) = splitOn separator s ++ splitOn separator t := by
  induction s with
  | nil => simp [splitOn]
  | cons u rest ih =>
      obtain ⟨part, parts, shape⟩ := List.exists_cons_of_ne_nil (splitOn_ne_nil separator rest)
      rw [List.cons_append, splitOn, splitOn]
      split
      · rw [ih, List.cons_append]
      · rw [ih, shape, List.cons_append]
        rfl

/-- A map that neither makes nor loses a separator acts on each part. -/
theorem splitOn_map {separator : UInt16} {change : UInt16 → UInt16}
    (keeps : ∀ u, change u = separator ↔ u = separator) (s : JsString) :
    splitOn separator (s.map change) = (splitOn separator s).map (List.map change) := by
  induction s with
  | nil => rfl
  | cons u rest ih =>
      obtain ⟨part, parts, shape⟩ := List.exists_cons_of_ne_nil (splitOn_ne_nil separator rest)
      rw [List.map_cons, splitOn, splitOn, ih, shape]
      by_cases same : u = separator
      · rw [if_pos same, if_pos ((keeps u).mpr same)]
        rfl
      · rw [if_neg same, if_neg ((keeps u).not.mpr same)]
        rfl

theorem afterLast_cons {separator : UInt16} {first : JsString} (outside : separator ∉ first)
    (rest : JsString) : afterLast separator (first ++ separator :: rest) = afterLast separator rest := by
  rw [afterLast, splitOn_append outside, afterLast]
  obtain ⟨part, parts, shape⟩ := List.exists_cons_of_ne_nil (splitOn_ne_nil separator rest)
  rw [shape, List.getLast?_cons_cons]

theorem afterLast_append {separator : UInt16} {t : JsString} (outside : separator ∉ t) :
    ∀ s : JsString, afterLast separator (s ++ separator :: t) = t := by
  intro s
  induction length : s.length using Nat.strong_induction_on generalizing s with
  | _ n ih =>
      by_cases inside : separator ∈ s
      · obtain ⟨first, later, rfl, apart⟩ := List.eq_append_cons_of_mem inside
        rw [List.append_assoc, List.cons_append, afterLast_cons apart]
        exact ih later.length (by simp at length; omega) later rfl
      · rw [afterLast_cons inside, afterLast_of_not_mem outside]

/-- A text is what follows its last separator, or ends in the separator and that. -/
theorem afterLast_spec (separator : UInt16) (s : JsString) : separator ∉ afterLast separator s ∧
    (s = afterLast separator s ∨ ∃ front, s = front ++ separator :: afterLast separator s) := by
  induction length : s.length using Nat.strong_induction_on generalizing s with
  | _ n ih =>
      by_cases inside : separator ∈ s
      · obtain ⟨first, later, rfl, apart⟩ := List.eq_append_cons_of_mem inside
        obtain ⟨outside, shape⟩ := ih later.length (by simp at length; omega) later rfl
        rw [afterLast_cons apart]
        refine ⟨outside, .inr ?_⟩
        rcases shape with whole | ⟨front, whole⟩
        · exact ⟨first, by rw [← whole]⟩
        · exact ⟨first ++ separator :: front, by rw [List.append_assoc, List.cons_append, ← whole]⟩
      · rw [afterLast_of_not_mem inside]
        exact ⟨inside, .inl rfl⟩

theorem afterLast_concat {separator u : UInt16} (different : u ≠ separator) (s : JsString) :
    afterLast separator (s ++ [u]) = afterLast separator s ++ [u] := by
  obtain ⟨outside, shape⟩ := afterLast_spec separator s
  have outside : separator ∉ afterLast separator s ++ [u] := by
    simp [outside, Ne.symm different]
  rcases shape with whole | ⟨front, whole⟩
  · rw [← whole] at outside ⊢
    exact afterLast_of_not_mem outside
  · rw [whole, List.append_assoc, List.cons_append, afterLast_append outside, ← whole]

/-! ## Hexadecimal digits -/

theorem hexValue_upperHexDigit : ∀ n : Fin 16, hexValue (upperHexDigit n) = some n.val := by
  decide

theorem hexValue_hexDigit : ∀ n : Fin 16, hexValue (hexDigit n) = some n.val := by
  decide

/-! ## Percent-encoding -/

/-- The byte at the front, and what follows it. -/
def readByte : JsString → Option (Fin 256 × JsString)
  | [] => none
  | u :: rest =>
      if u = 0x25 then do
        let high ← hexValue (← rest[0]?)
        let low ← hexValue (← rest[1]?)
        return (.ofNat 256 (16 * high + low), rest.drop 2)
      else some (.ofNat 256 u.toNat, rest)

theorem isUnreserved_apart : ∀ n : Fin 256, isUnreserved n = true → UInt16.ofNat n ≠ 0x25 := by
  decide +kernel

theorem readByte_encodeByte (n : Fin 256) (rest : JsString) :
    readByte (encodeByte n ++ rest) = some (n, rest) := by
  have bound := n.isLt
  rw [encodeByte]
  split
  next plain =>
    have small : n.val % 65536 = n.val := by omega
    have back : Fin.ofNat 256 (UInt16.ofNat n.val).toNat = n := by
      ext
      simp [small]
    rw [List.singleton_append, readByte, if_neg (isUnreserved_apart n plain), back]
  next =>
    have high := hexValue_upperHexDigit ⟨n / 16, by omega⟩
    have low := hexValue_upperHexDigit ⟨n % 16, by omega⟩
    have whole := Nat.div_add_mod n.val 16
    simp [readByte, high, low, whole]

theorem encodeByte_delimits : Delimits Eq fun n : Fin 256 => encodeByte n :=
  .of_reader readByte readByte_encodeByte

/-- Bytes below `256` that encode alike are the same. -/
theorem flatMap_encodeByte_inj {bytes others : List Nat} (small : ∀ n ∈ bytes, n < 256)
    (small' : ∀ n ∈ others, n < 256) (same : bytes.flatMap encodeByte = others.flatMap encodeByte) :
    bytes = others := by
  lift bytes to List (Fin 256) using small
  lift others to List (Fin 256) using small'
  rw [List.flatMap_map, List.flatMap_map] at same
  have nonempty : ∀ n : Fin 256, encodeByte n ≠ [] := fun n => by
    rw [encodeByte]
    split <;> exact List.cons_ne_nil _ _
  rw [encodeByte_delimits.flatMap_injective nonempty same]

theorem slash_not_mem_encodeByte : ∀ n : Fin 256, (0x2F : UInt16) ∉ encodeByte n := by
  decide +kernel

theorem utf8_small (c : Char) : ∀ n ∈ utf8 c.toNat, n < 256 := by
  have valid := Text.scalar c
  unfold utf8
  split
  · simp; omega
  · split
    · simp; omega
    · split
      · simp; omega
      · simp; omega

/-- The first byte tells how many follow. -/
theorem utf8_delimits : Delimits Eq fun c : Char => utf8 c.toNat := by
  intro c d rest others same
  have first := Text.scalar c
  have second := Text.scalar d
  have heads : c.toNat = d.toNat := by
    simp only [utf8] at same
    split_ifs at same <;>
      simp only [List.cons_append, List.nil_append, List.cons.injEq] at same <;> omega
  obtain rfl := Char.toNat_inj.mp heads
  exact ⟨rfl, List.append_cancel_left same⟩

/-! ## Well-formed text -/

/-- A code unit that is a scalar value by itself. -/
def isScalar (u : UInt16) : Prop := isLeading u = false ∧ isTrailing u = false

theorem units_scalar {u : UInt16} (alone : isScalar u) :
    ∃ c : Char, unitsOf c = [u] ∧ c.toNat = u.toNat := by
  have bound := u.toNat_lt
  have valid : u.toNat.isValidChar := by
    obtain ⟨leading, trailing⟩ := alone
    simp only [isLeading, isTrailing, Bool.and_eq_false_iff, decide_eq_false_iff_not] at leading trailing
    simp only [Nat.isValidChar]
    omega
  refine ⟨Char.ofNatAux u.toNat valid, ?_, ?_⟩
  · have number : (Char.ofNatAux u.toNat valid).toNat = u.toNat := rfl
    simp only [unitsOf, number]
    rw [if_pos (by omega)]
    simp
  · rfl

theorem units_pair {u v : UInt16} (leading : isLeading u = true) (trailing : isTrailing v = true) :
    ∃ c : Char, unitsOf c = [u, v] ∧
      c.toNat = 0x10000 + (u.toNat - 0xD800) * 0x400 + (v.toNat - 0xDC00) := by
  simp only [isLeading, isTrailing, Bool.and_eq_true, decide_eq_true_eq] at leading trailing
  have valid : (0x10000 + (u.toNat - 0xD800) * 0x400 + (v.toNat - 0xDC00)).isValidChar := by
    simp only [Nat.isValidChar]
    omega
  refine ⟨Char.ofNatAux _ valid, ?_, ?_⟩
  · have number : (Char.ofNatAux _ valid).toNat =
      0x10000 + (u.toNat - 0xD800) * 0x400 + (v.toNat - 0xDC00) := rfl
    have high : 0xD800 + (0x10000 + (u.toNat - 0xD800) * 0x400 + (v.toNat - 0xDC00) - 0x10000) / 0x400 =
      u.toNat := by omega
    have low : 0xDC00 + (0x10000 + (u.toNat - 0xD800) * 0x400 + (v.toNat - 0xDC00) - 0x10000) % 0x400 =
      v.toNat := by omega
    simp only [unitsOf, number]
    rw [if_neg (by omega), high, low]
    simp
  · rfl

/-- The code points of a text are the scalar values it is made of. -/
theorem codePoints?_some {s : JsString} {points : List Nat} (found : codePoints? s = some points) :
    ∃ text : Text, text.units = s ∧ points = text.map Char.toNat := by
  induction s using codePoints?.induct generalizing points with
  | case1 =>
      cases found
      exact ⟨[], rfl, rfl⟩
  | case2 u half =>
      simp [codePoints?, half] at found
  | case3 u alone =>
      rw [codePoints?, if_neg alone] at found
      cases found
      obtain ⟨c, units, number⟩ := units_scalar (u := u) (by simpa [isScalar] using alone)
      exact ⟨[c], by simp [Text.units, units], by simp [number]⟩
  | case4 u v rest pair ih =>
      rw [codePoints?, if_pos pair] at found
      obtain ⟨later, tail, rfl⟩ := Option.map_eq_some_iff.mp found
      obtain ⟨text, rfl, rfl⟩ := ih tail
      obtain ⟨leading, trailing⟩ := Bool.and_eq_true_iff.mp pair
      obtain ⟨c, units, number⟩ := units_pair leading trailing
      exact ⟨c :: text, by simp [Text.units, units], by simp [number]⟩
  | case5 u v rest apart half =>
      simp [codePoints?, half, apart] at found
  | case6 u v rest apart alone ih =>
      rw [codePoints?, if_neg apart, if_neg alone] at found
      obtain ⟨later, tail, rfl⟩ := Option.map_eq_some_iff.mp found
      obtain ⟨text, units', rfl⟩ := ih tail
      obtain ⟨c, units, number⟩ := units_scalar (u := u) (by simpa [isScalar] using alone)
      exact ⟨c :: text, by simp [Text.units, units, ← units'], by simp [number]⟩

/-- What `encodeURIComponent` accepts, and what it gives for it. -/
theorem encodeURIComponent_some {s encoded : JsString}
    (found : encodeURIComponent s = some encoded) :
    ∃ text : Text, text.units = s ∧
      encoded = (text.flatMap fun c => utf8 c.toNat).flatMap encodeByte := by
  obtain ⟨points, read, rfl⟩ := Option.map_eq_some_iff.mp found
  obtain ⟨text, units, rfl⟩ := codePoints?_some read
  exact ⟨text, units, by rw [List.flatMap_map]⟩

theorem utf8_ne_nil (c : Char) : utf8 c.toNat ≠ [] := by
  unfold utf8
  split_ifs <;> exact List.cons_ne_nil _ _

theorem text_utf8_small {text : Text} :
    ∀ n ∈ text.flatMap fun c => utf8 c.toNat, n < 256 := by
  intro n member
  obtain ⟨c, -, inside⟩ := List.mem_flatMap.mp member
  exact utf8_small c n inside

/-- Texts that encode alike are the same. -/
theorem encodeURIComponent_inj {s t encoded : JsString} (first : encodeURIComponent s = some encoded)
    (second : encodeURIComponent t = some encoded) : s = t := by
  obtain ⟨text, rfl, rfl⟩ := encodeURIComponent_some first
  obtain ⟨other, rfl, same⟩ := encodeURIComponent_some second
  have bytes := flatMap_encodeByte_inj text_utf8_small text_utf8_small same
  rw [utf8_delimits.flatMap_injective utf8_ne_nil bytes]

theorem mem_encodeURIComponent {s encoded : JsString} (found : encodeURIComponent s = some encoded)
    {u : UInt16} (inside : u ∈ encoded) : ∃ n : Fin 256, u ∈ encodeByte n := by
  obtain ⟨text, -, rfl⟩ := encodeURIComponent_some found
  obtain ⟨n, member, held⟩ := List.mem_flatMap.mp inside
  exact ⟨⟨n, text_utf8_small n member⟩, held⟩

theorem slash_not_mem_encodeURIComponent {s encoded : JsString}
    (found : encodeURIComponent s = some encoded) : (0x2F : UInt16) ∉ encoded := by
  intro inside
  obtain ⟨n, held⟩ := mem_encodeURIComponent found inside
  exact slash_not_mem_encodeByte n held

/-! ## Quoting -/

/-- The code unit at the front, and what follows it. -/
def readUnit : JsString → Option (UInt16 × JsString)
  | [] => none
  | u :: rest =>
      if u = 0x5C then do
        let kind ← rest[0]?
        if kind = 0x75 then
          let a ← hexValue (← rest[1]?)
          let b ← hexValue (← rest[2]?)
          let c ← hexValue (← rest[3]?)
          let d ← hexValue (← rest[4]?)
          return (.ofNat (0x1000 * a + 0x100 * b + 0x10 * c + d), rest.drop 5)
        else
          let value ← [(0x62, 0x08), (0x74, 0x09), (0x6E, 0x0A), (0x66, 0x0C), (0x72, 0x0D),
            (0x22, 0x22), (0x5C, 0x5C)].lookup kind
          return (value, rest.drop 1)
      else some (u, rest)

theorem readUnit_unicodeEscape (u : UInt16) (rest : JsString) :
    readUnit (unicodeEscape u ++ rest) = some (u, rest) := by
  have bound := u.toNat_lt
  have a := hexValue_hexDigit ⟨u.toNat / 0x1000, by omega⟩
  have b := hexValue_hexDigit ⟨u.toNat / 0x100 % 0x10, by omega⟩
  have c := hexValue_hexDigit ⟨u.toNat / 0x10 % 0x10, by omega⟩
  have d := hexValue_hexDigit ⟨u.toNat % 0x10, by omega⟩
  have whole : 0x1000 * (u.toNat / 0x1000) + 0x100 * (u.toNat / 0x100 % 0x10) +
      0x10 * (u.toNat / 0x10 % 0x10) + u.toNat % 0x10 = u.toNat := by omega
  simp [unicodeEscape, readUnit, a, b, c, d, whole, -UInt16.ofNat_add, -UInt16.ofNat_mul]

theorem readUnit_plain {u : UInt16} (different : u ≠ 0x5C) (rest : JsString) :
    readUnit (u :: rest) = some (u, rest) := by
  rw [readUnit, if_neg different]

theorem readUnit_escapeUnit (u : UInt16) (rest : JsString) :
    readUnit (escapeUnit u ++ rest) = some (u, rest) := by
  unfold escapeUnit
  -- the seven short escapes, then the numbered ones
  iterate 7
    split
    next named =>
      subst named
      rfl
  split
  · exact readUnit_unicodeEscape u rest
  next different _ => exact readUnit_plain different rest

/-- A quotation mark inside is escaped. -/
theorem escapeUnit_apart (u : UInt16) : ∃ first rest, escapeUnit u = first :: rest ∧ first ≠ 0x22 := by
  unfold escapeUnit
  iterate 5
    split
    next => exact ⟨0x5C, _, rfl, by decide⟩
  split
  next => exact ⟨0x5C, _, rfl, by decide⟩
  next different =>
    split
    next => exact ⟨0x5C, _, rfl, by decide⟩
    split
    next => exact ⟨0x5C, _, rfl, by decide⟩
    next => exact ⟨u, [], rfl, different⟩

/-- The text up to the closing mark, and what follows that. -/
def readText : Nat → JsString → Option (JsString × JsString)
  | 0, _ => none
  | fuel + 1, s =>
      if s.head? = some 0x22 then some ([], s.tail)
      else do
        let (u, rest) ← readUnit s
        let (text, others) ← readText fuel rest
        return (u :: text, others)

theorem readText_cons {code later rest : JsString} {u : UInt16} {text : JsString} {fuel : Nat}
    (apart : ∃ first tail, code = first :: tail ∧ first ≠ 0x22)
    (front : readUnit (code ++ later) = some (u, later))
    (onward : readText fuel later = some (text, rest)) :
    readText (fuel + 1) (code ++ later) = some (u :: text, rest) := by
  obtain ⟨first, tail, rfl, different⟩ := apart
  rw [readText, if_neg (by simpa using different), front]
  simp [onward]

/-- A surrogate stands for itself. -/
theorem readUnit_half {u : UInt16} (half : isLeading u = true ∨ isTrailing u = true) (rest : JsString) :
    (∃ first tail, [u] = first :: tail ∧ first ≠ 0x22) ∧ readUnit ([u] ++ rest) = some (u, rest) := by
  refine ⟨⟨u, [], rfl, ?_⟩, readUnit_plain ?_ rest⟩
  · rintro rfl
    revert half
    decide
  · rintro rfl
    revert half
    decide

theorem readText_escape (s rest : JsString) {fuel : Nat} (enough : s.length < fuel) :
    readText fuel (escape s ++ 0x22 :: rest) = some (s, rest) := by
  induction s using escape.induct generalizing fuel with
  | case1 =>
      obtain ⟨fuel, rfl⟩ := Nat.exists_eq_succ_of_ne_zero (Nat.ne_zero_of_lt enough)
      rfl
  | case2 u =>
      obtain ⟨fuel, rfl⟩ := Nat.exists_eq_add_of_le' (show 2 ≤ fuel from enough)
      rw [escape]
      exact readText_cons (escapeUnit_apart u) (readUnit_escapeUnit u _) rfl
  | case3 u v later pair ih =>
      obtain ⟨fuel, rfl⟩ := Nat.exists_eq_add_of_le' (show 2 ≤ fuel from (by simp at enough; omega))
      obtain ⟨leading, trailing⟩ := Bool.and_eq_true_iff.mp pair
      rw [escape, if_pos pair]
      have onward := ih (show later.length < fuel from (by simp at enough; omega))
      obtain ⟨apart, front⟩ := readUnit_half (.inr trailing) (escape later ++ 0x22 :: rest)
      obtain ⟨apart', front'⟩ := readUnit_half (.inl leading) ([v] ++ (escape later ++ 0x22 :: rest))
      show readText (fuel + 2) ([u] ++ ([v] ++ (escape later ++ 0x22 :: rest))) = some (u :: v :: later, rest)
      exact readText_cons apart' front' (readText_cons apart front onward)
  | case4 u v later single ih =>
      obtain ⟨fuel, rfl⟩ := Nat.exists_eq_succ_of_ne_zero (Nat.ne_zero_of_lt enough)
      rw [escape, if_neg single, List.append_assoc]
      exact readText_cons (escapeUnit_apart u) (readUnit_escapeUnit u _)
        (ih (Nat.lt_of_succ_lt_succ enough))

/-- A quoted text shows where it ends. -/
theorem quote_delimits {s t rest others : JsString} (same : quote s ++ rest = quote t ++ others) :
    s = t ∧ rest = others := by
  simp only [quote, List.cons_append, List.append_assoc, List.nil_append, List.cons.injEq, true_and] at same
  have first := readText_escape s rest (show s.length < s.length + t.length + 1 from (by omega))
  have second := readText_escape t others (show t.length < s.length + t.length + 1 from (by omega))
  rw [same, second] at first
  obtain ⟨texts, ends⟩ := Prod.mk.inj (Option.some.inj first)
  exact ⟨texts.symm, ends.symm⟩

end JsString

end SdcoreNest.Theory
