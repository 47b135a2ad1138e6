/-
# Theory.Utf8 -- JavaScript text as bytes

`Buffer.from(text, 'utf8')` and `hash.update(text)` write the UTF-8 bytes of a text, with the
replacement character for a surrogate that stands alone; `toText` is the text they write.  Main lemmas:

* `toText_units`: well-formed text is written as it is;
* `base64url_injective`: base64url loses nothing;
* `decodeURIComponent_encode`: what `encodeURIComponent` wrote is read back.
-/
import SdcoreNest.Theory.Encoding

namespace SdcoreNest.Theory

set_option autoImplicit false

namespace JsString

/-! ## Well-formed text -/

/-- The scalar value of a code unit that is no half of a pair. -/
def scalarOf (u : UInt16) : Char :=
  if isLeading u || isTrailing u then '\uFFFD' else Char.ofNat u.toNat

/-- The scalar values of a text, a lone surrogate replaced. -/
def toText : JsString → Text
  | [] => []
  | [u] => [scalarOf u]
  | u :: v :: rest =>
      if isLeading u && isTrailing v then
        Char.ofNat (0x10000 + (u.toNat - 0xD800) * 0x400 + (v.toNat - 0xDC00)) :: toText rest
      else scalarOf u :: toText (v :: rest)

/-- `toWellFormed` -/
def toWellFormed (s : JsString) : JsString := (toText s).units

/-- `Buffer.from(s, 'utf8')` -/
def utf8Bytes (s : JsString) : List UInt8 := Text.bytes (toText s)

/-- No surrogate stands alone. -/
def WellFormed (s : JsString) : Prop := ∃ text : Text, text.units = s

theorem wellFormed_units (text : Text) : WellFormed text.units := ⟨text, rfl⟩

theorem wellFormed_toWellFormed (s : JsString) : WellFormed (toWellFormed s) := wellFormed_units _

theorem wellFormed_nil : WellFormed [] := ⟨[], rfl⟩

theorem WellFormed.append {s t : JsString} (first : WellFormed s) (second : WellFormed t) :
    WellFormed (s ++ t) := by
  obtain ⟨text, rfl⟩ := first
  obtain ⟨other, rfl⟩ := second
  exact ⟨text ++ other, by simp [Text.units]⟩

theorem wellFormed_of_scalars {s : JsString} (scalars : ∀ u ∈ s, isScalar u) : WellFormed s := by
  induction s with
  | nil => exact wellFormed_nil
  | cons u rest ih =>
      obtain ⟨c, units, -⟩ := units_scalar (scalars u List.mem_cons_self)
      have first : WellFormed [u] := ⟨[c], by simp [Text.units, units]⟩
      exact first.append (ih fun v inside => scalars v (.tail _ inside))

/-- The two shapes of the code units of a scalar value. -/
theorem unitsOf_cases (c : Char) :
    (∃ u : UInt16, unitsOf c = [u] ∧ isLeading u = false ∧ isTrailing u = false ∧ u.toNat = c.toNat) ∨
      ∃ u v : UInt16, unitsOf c = [u, v] ∧ isLeading u = true ∧ isTrailing v = true ∧
        isTrailing u = false ∧ isLeading v = false ∧
        0x10000 + (u.toNat - 0xD800) * 0x400 + (v.toNat - 0xDC00) = c.toNat := by
  have valid := Text.scalar c
  by_cases small : c.toNat < 0x10000
  · refine .inl ⟨.ofNat c.toNat, by simp only [unitsOf]; rw [if_pos small], ?_⟩
    have number : (UInt16.ofNat c.toNat).toNat = c.toNat := by
      rw [UInt16.toNat_ofNat']
      omega
    refine ⟨?_, ?_, number⟩
    · simp only [isLeading, number, Bool.and_eq_false_iff, decide_eq_false_iff_not]
      omega
    · simp only [isTrailing, number, Bool.and_eq_false_iff, decide_eq_false_iff_not]
      omega
  · refine .inr ⟨.ofNat (0xD800 + (c.toNat - 0x10000) / 0x400),
      .ofNat (0xDC00 + (c.toNat - 0x10000) % 0x400), by simp only [unitsOf]; rw [if_neg small], ?_⟩
    have high : (UInt16.ofNat (0xD800 + (c.toNat - 0x10000) / 0x400)).toNat =
        0xD800 + (c.toNat - 0x10000) / 0x400 := by
      rw [UInt16.toNat_ofNat']
      omega
    have low : (UInt16.ofNat (0xDC00 + (c.toNat - 0x10000) % 0x400)).toNat =
        0xDC00 + (c.toNat - 0x10000) % 0x400 := by
      rw [UInt16.toNat_ofNat']
      omega
    simp only [isLeading, isTrailing, high, low, Bool.and_eq_true, Bool.and_eq_false_iff, decide_eq_true_eq,
      decide_eq_false_iff_not]
    omega

/-- A scalar value at the front is read as itself. -/
theorem toText_cons (c : Char) (rest : JsString) : toText (unitsOf c ++ rest) = c :: toText rest := by
  rcases unitsOf_cases c with ⟨u, units, leading, trailing, number⟩ |
    ⟨u, v, units, leading, trailing, -, -, number⟩
  · have alone : scalarOf u = c := by rw [scalarOf, leading, trailing, number]; exact Char.ofNat_toNat c
    rw [units, List.singleton_append]
    cases rest with
    | nil => rw [toText, toText, alone]
    | cons v rest => rw [toText, leading, Bool.false_and, if_neg Bool.false_ne_true, alone]
  · rw [units, List.cons_append, List.singleton_append, toText, leading, trailing, number,
      if_pos (Bool.and_self true), Char.ofNat_toNat]

theorem toText_units (text : Text) : toText text.units = text := by
  induction text with
  | nil => rfl
  | cons c rest ih => rw [Text.units, List.flatMap_cons, toText_cons, ← Text.units, ih]

theorem toWellFormed_of {s : JsString} (wellFormed : WellFormed s) : toWellFormed s = s := by
  obtain ⟨text, rfl⟩ := wellFormed
  rw [toWellFormed, toText_units]

/-- Well-formed texts with the same bytes are the same. -/
theorem utf8Bytes_inj {s t : JsString} (first : WellFormed s) (second : WellFormed t)
    (same : utf8Bytes s = utf8Bytes t) : s = t := by
  obtain ⟨text, rfl⟩ := first
  obtain ⟨other, rfl⟩ := second
  rw [utf8Bytes, utf8Bytes, toText_units, toText_units] at same
  rw [Text.bytes_injective same]

/-! ### `toWellFormed`, unit by unit -/

theorem units_cons (c : Char) (text : Text) : Text.units (c :: text) = unitsOf c ++ Text.units text := rfl

theorem toWellFormed_pair {u v : UInt16} (leading : isLeading u = true) (trailing : isTrailing v = true)
    (rest : JsString) : toWellFormed (u :: v :: rest) = u :: v :: toWellFormed rest := by
  obtain ⟨c, units, number⟩ := units_pair leading trailing
  rw [toWellFormed, toText, leading, trailing, if_pos (Bool.and_self true), ← number, Char.ofNat_toNat,
    units_cons, units]
  rfl

/-- A code unit alone is kept, unless it is half of a pair. -/
def scalarUnit (u : UInt16) : UInt16 := if isLeading u || isTrailing u then 0xFFFD else u

theorem unitsOf_scalarOf (u : UInt16) : unitsOf (scalarOf u) = [scalarUnit u] := by
  unfold scalarOf scalarUnit
  split
  · rfl
  next alone =>
    simp only [Bool.or_eq_true, not_or, Bool.not_eq_true] at alone
    obtain ⟨c, units, number⟩ := units_scalar alone
    rw [← number, Char.ofNat_toNat, units]

theorem toWellFormed_cons {u : UInt16} {rest : JsString}
    (alone : (isLeading u && rest.head?.any isTrailing) = false) :
    toWellFormed (u :: rest) = scalarUnit u :: toWellFormed rest := by
  cases rest with
  | nil => rw [toWellFormed, toText, units_cons, unitsOf_scalarOf]; rfl
  | cons v rest =>
      rw [toWellFormed, toText, if_neg (by simpa using alone), units_cons, unitsOf_scalarOf]
      rfl

/-- Each unit is kept or replaced. -/
theorem forall₂_toWellFormed (s : JsString) :
    List.Forall₂ (fun u v => v = u ∨ v = 0xFFFD) s (toWellFormed s) := by
  induction s using toText.induct with
  | case1 => exact .nil
  | case2 u =>
      rw [toWellFormed_cons (by simp)]
      refine .cons ?_ .nil
      unfold scalarUnit
      split <;> simp
  | case3 u v rest pair ih =>
      obtain ⟨leading, trailing⟩ := Bool.and_eq_true_iff.mp pair
      rw [toWellFormed_pair leading trailing]
      exact .cons (.inl rfl) (.cons (.inl rfl) ih)
  | case4 u v rest single ih =>
      rw [toWellFormed_cons (by simpa using single)]
      refine .cons ?_ ih
      unfold scalarUnit
      split <;> simp

theorem length_toWellFormed (s : JsString) : (toWellFormed s).length = s.length :=
  (forall₂_toWellFormed s).length_eq.symm

theorem mem_toWellFormed {s : JsString} {u : UInt16} (inside : u ∈ toWellFormed s) :
    u ∈ s ∨ u = 0xFFFD := by
  obtain ⟨i, bound, rfl⟩ := List.getElem_of_mem inside
  have bound' : i < s.length := length_toWellFormed s ▸ bound
  rcases (forall₂_toWellFormed s).get bound' bound with same | replaced
  · left
    rw [List.get_eq_getElem, List.get_eq_getElem] at same
    rw [same]
    exact List.getElem_mem bound'
  · exact .inr replaced

/-- A unit that is no half of a pair parts the text. -/
theorem toWellFormed_append {u : UInt16} (leading : isLeading u = false) (trailing : isTrailing u = false)
    (s t : JsString) : toWellFormed (s ++ u :: t) = toWellFormed s ++ u :: toWellFormed t := by
  have plain : scalarUnit u = u := by rw [scalarUnit, leading, trailing]; rfl
  induction s using toText.induct with
  | case1 =>
      rw [List.nil_append, toWellFormed_cons (by rw [leading, Bool.false_and]), plain]
      rfl
  | case2 v =>
      rw [List.singleton_append, toWellFormed_cons (by simp [trailing]),
        toWellFormed_cons (by rw [leading, Bool.false_and]), plain, toWellFormed_cons (by simp)]
      rfl
  | case3 v w rest pair ih =>
      obtain ⟨high, low⟩ := Bool.and_eq_true_iff.mp pair
      rw [List.cons_append, List.cons_append, toWellFormed_pair high low, ih, toWellFormed_pair high low]
      rfl
  | case4 v w rest single ih =>
      rw [List.cons_append, toWellFormed_cons (by simpa using single), ih,
        @toWellFormed_cons v (w :: rest) (by simpa using single)]
      rfl

theorem codePoints?_cons (c : Char) (rest : JsString) :
    codePoints? (unitsOf c ++ rest) = (codePoints? rest).map (c.toNat :: ·) := by
  rcases unitsOf_cases c with ⟨u, units, leading, trailing, number⟩ |
    ⟨u, v, units, leading, trailing, -, -, number⟩
  · rw [units, List.singleton_append]
    cases rest with
    | nil => rw [codePoints?, codePoints?, leading, trailing, number]; rfl
    | cons v rest => rw [codePoints?, leading, trailing, number]; rfl
  · rw [units, List.cons_append, List.singleton_append, codePoints?, leading, trailing, number]
    rfl

theorem codePoints?_units (text : Text) : codePoints? text.units = some (text.map Char.toNat) := by
  induction text with
  | nil => rfl
  | cons c rest ih =>
      rw [Text.units, List.flatMap_cons, codePoints?_cons, ← Text.units, ih]
      rfl

/-- `encodeURIComponent` throws at a lone surrogate and nowhere else. -/
theorem encodeURIComponent_isSome {s : JsString} :
    (encodeURIComponent s).isSome = true ↔ WellFormed s := by
  rw [encodeURIComponent, Option.isSome_map]
  constructor
  · intro found
    obtain ⟨points, read⟩ := Option.isSome_iff_exists.mp found
    obtain ⟨text, units, -⟩ := codePoints?_some read
    exact ⟨text, units⟩
  · rintro ⟨text, rfl⟩
    rw [codePoints?_units]
    rfl

/-! ## `decodeURIComponent` -/

/-- The bytes of a percent-encoded text. -/
def percentDecode : JsString → Option (List UInt8)
  | [] => some []
  | u :: rest =>
      if u = 0x25 then
        match rest with
        | high :: low :: rest => do
            let byte := 16 * (← hexValue high) + (← hexValue low)
            return .ofNat byte :: (← percentDecode rest)
        | _ => none
      else (percentDecode rest).map (.ofNat u.toNat :: ·)

def decodeURIComponent (s : JsString) : Option JsString := do
  let bytes ← percentDecode s
  let chars ← bytes.toByteArray.utf8Decode?
  return Text.units chars.toList

theorem percentDecode_plain {u : UInt16} (plain : u ≠ 0x25) (rest : JsString) :
    percentDecode (u :: rest) = (percentDecode rest).map (.ofNat u.toNat :: ·) := by
  rw [percentDecode.eq_def]
  simp only [if_neg plain]

theorem percentDecode_encodeByte (n : Fin 256) (rest : JsString) :
    percentDecode (encodeByte n ++ rest) = (percentDecode rest).map (UInt8.ofNat n :: ·) := by
  have bound := n.isLt
  rw [encodeByte]
  split
  next plain =>
    have small : n.val % 65536 = n.val := by omega
    rw [List.singleton_append, percentDecode_plain (isUnreserved_apart n plain), UInt16.toNat_ofNat', small]
  next =>
    have high := hexValue_upperHexDigit ⟨n / 16, by omega⟩
    have low := hexValue_upperHexDigit ⟨n % 16, by omega⟩
    have whole := Nat.div_add_mod n.val 16
    rw [List.cons_append, List.cons_append, List.singleton_append, percentDecode, if_pos rfl]
    simp only [high, low, Option.bind_eq_bind, Option.bind_some, whole]
    cases percentDecode rest <;> rfl

theorem percentDecode_encode : ∀ {bytes : List Nat}, (∀ n ∈ bytes, n < 256) →
    percentDecode (bytes.flatMap encodeByte) = some (bytes.map UInt8.ofNat)
  | [], _ => rfl
  | n :: rest, small => by
      have first := percentDecode_encodeByte ⟨n, small n List.mem_cons_self⟩ (rest.flatMap encodeByte)
      rw [List.flatMap_cons, first, percentDecode_encode fun m inside => small m (.tail _ inside)]
      rfl

theorem utf8_eq (c : Char) : (utf8 c.toNat).map UInt8.ofNat = String.utf8EncodeChar c := by
  have valid := Text.scalar c
  have number : c.val.toNat = c.toNat := rfl
  simp only [utf8, String.utf8EncodeChar, number]
  split_ifs <;> try omega
  · rfl
  · simp only [List.map_cons, List.map_nil, List.cons.injEq, and_true]
    exact ⟨congrArg UInt8.ofNat (by omega), congrArg UInt8.ofNat (by omega)⟩
  · simp only [List.map_cons, List.map_nil, List.cons.injEq, and_true]
    exact ⟨congrArg UInt8.ofNat (by omega), congrArg UInt8.ofNat (by omega),
      congrArg UInt8.ofNat (by omega)⟩
  · simp only [List.map_cons, List.map_nil, List.cons.injEq, and_true]
    exact ⟨congrArg UInt8.ofNat (by omega), congrArg UInt8.ofNat (by omega),
      congrArg UInt8.ofNat (by omega), congrArg UInt8.ofNat (by omega)⟩

/-- What was encoded is read back. -/
theorem decodeURIComponent_encode {s encoded : JsString} (found : encodeURIComponent s = some encoded) :
    decodeURIComponent encoded = some s := by
  obtain ⟨text, rfl, rfl⟩ := encodeURIComponent_some found
  have bytes : (text.flatMap fun c => utf8 c.toNat).map UInt8.ofNat = Text.bytes text := by
    rw [List.map_flatMap]
    exact List.flatMap_congr fun c _ => utf8_eq c
  have read : (Text.bytes text).toByteArray.utf8Decode? = some text.toArray := by
    have whole := @List.utf8Decode?_utf8Encode text
    rwa [List.utf8Encode] at whole
  rw [decodeURIComponent, percentDecode_encode text_utf8_small, bytes]
  simp [read]

/-! ## base64url -/

/-- The digit of a number below 64. -/
def base64Digit (n : Nat) : UInt16 :=
  .ofNat (if n < 26 then 0x41 + n else if n < 52 then 0x47 + n else if n < 62 then n - 4
    else if n = 62 then 0x2D else 0x5F)

/-- Groups of six bits; the last group of a text is filled up with zeros. -/
def sextets : List UInt8 → List Nat
  | [] => []
  | [a] => [a.toNat / 4, a.toNat % 4 * 16]
  | [a, b] => [a.toNat / 4, a.toNat % 4 * 16 + b.toNat / 16, b.toNat % 16 * 4]
  | a :: b :: c :: rest =>
      [a.toNat / 4, a.toNat % 4 * 16 + b.toNat / 16, b.toNat % 16 * 4 + c.toNat / 64, c.toNat % 64] ++
        sextets rest

/-- `toString('base64url')`, without padding. -/
def base64url (bytes : List UInt8) : JsString := (sextets bytes).map base64Digit

theorem sextets_small : ∀ (bytes : List UInt8), ∀ n ∈ sextets bytes, n < 64
  | [], _, inside => absurd inside List.not_mem_nil
  | [a], n, inside => by
      have := a.toNat_lt
      simp only [sextets, List.mem_cons, List.not_mem_nil, or_false] at inside
      omega
  | [a, b], n, inside => by
      have := a.toNat_lt
      have := b.toNat_lt
      simp only [sextets, List.mem_cons, List.not_mem_nil, or_false] at inside
      omega
  | a :: b :: c :: rest, n, inside => by
      have := a.toNat_lt
      have := b.toNat_lt
      have := c.toNat_lt
      simp only [sextets, List.mem_append, List.mem_cons, List.not_mem_nil, or_false] at inside
      rcases inside with first | later
      · omega
      · exact sextets_small rest n later

theorem sextets_inj : ∀ {bytes others : List UInt8}, sextets bytes = sextets others → bytes = others
  | [], [], _ => rfl
  | [a], [a'], same => by
      simp only [sextets, List.cons.injEq, and_true] at same
      rw [UInt8.toNat_inj.mp (by omega : a.toNat = a'.toNat)]
  | [a, b], [a', b'], same => by
      have := b.toNat_lt
      have := b'.toNat_lt
      simp only [sextets, List.cons.injEq, and_true] at same
      rw [UInt8.toNat_inj.mp (by omega : a.toNat = a'.toNat),
        UInt8.toNat_inj.mp (by omega : b.toNat = b'.toNat)]
  | a :: b :: c :: rest, a' :: b' :: c' :: rest', same => by
      have := b.toNat_lt
      have := b'.toNat_lt
      have := c.toNat_lt
      have := c'.toNat_lt
      simp only [sextets, List.cons_append, List.nil_append, List.cons.injEq] at same
      obtain ⟨first, second, third, fourth, later⟩ := same
      rw [UInt8.toNat_inj.mp (by omega : a.toNat = a'.toNat),
        UInt8.toNat_inj.mp (by omega : b.toNat = b'.toNat),
        UInt8.toNat_inj.mp (by omega : c.toNat = c'.toNat), sextets_inj later]
  | [], [_], same | [], [_, _], same | [], _ :: _ :: _ :: _, same | [_], [], same | [_], [_, _], same
  | [_, _], [], same | [_, _], [_], same | _ :: _ :: _ :: _, [], same => by simp [sextets] at same
  | [_], _ :: _ :: _ :: _, same | _ :: _ :: _ :: _, [_], same => by simp [sextets] at same
  | [_, _], _ :: _ :: _ :: _, same | _ :: _ :: _ :: _, [_, _], same => by simp [sextets] at same

/-- The value of a digit. -/
def base64Value (u : UInt16) : Nat :=
  let n := u.toNat
  if n = 0x2D then 62 else if n = 0x5F then 63 else if n < 0x3A then n + 4 else if n < 0x5B then n - 0x41
  else n - 0x47

theorem base64Value_digit : ∀ n : Fin 64, base64Value (base64Digit n) = n := by decide

theorem base64url_injective : Function.Injective base64url := by
  intro bytes others same
  have values := congrArg (List.map base64Value) same
  have back : ∀ l : List UInt8, (base64url l).map base64Value = sextets l := by
    intro l
    rw [base64url, List.map_map]
    conv_rhs => rw [← List.map_id (sextets l)]
    refine List.map_congr_left fun n inside => ?_
    exact base64Value_digit ⟨n, sextets_small l n inside⟩
  rw [back, back] at values
  exact sextets_inj values

/-- Letters, digits, `-` and `_`. -/
def isBase64url (u : UInt16) : Bool :=
  isDigit u || (0x41 ≤ u.toNat && u.toNat ≤ 0x5A) || (0x61 ≤ u.toNat && u.toNat ≤ 0x7A) || u = 0x2D ||
    u = 0x5F

theorem isBase64url_digit : ∀ n : Fin 64, isBase64url (base64Digit n) = true := by decide

theorem isBase64url_of_mem {bytes : List UInt8} {u : UInt16} (inside : u ∈ base64url bytes) :
    isBase64url u = true := by
  obtain ⟨n, member, rfl⟩ := List.mem_map.mp inside
  exact isBase64url_digit ⟨n, sextets_small bytes n member⟩

theorem base64url_eq_nil {bytes : List UInt8} : base64url bytes = [] ↔ bytes = [] := by
  constructor
  · intro empty
    exact base64url_injective empty
  · rintro rfl
    rfl

end JsString

end SdcoreNest.Theory
