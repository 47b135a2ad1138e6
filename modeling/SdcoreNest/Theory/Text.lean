/-
# Theory.Text -- well-formed text, its order, its bytes, and framings of it

A text is a sequence of Unicode scalar values.  JavaScript sorts texts by their UTF-16
code units and hashes their UTF-8 bytes.  A code is `Delimits`-ing when its output can be
split off the front of any longer sequence, up to a relation on what was encoded.
-/
import SdcoreNest.Theory.JsString
import Mathlib.Data.List.Lex
import Mathlib.Data.List.Sort

namespace SdcoreNest.Theory

set_option autoImplicit false

/-! ## Codes that show where they end -/

section Delimits

variable {α β : Type}

/-- What follows a code word does not change how the word is read. -/
def Delimits (related : α → α → Prop) (code : α → List β) : Prop :=
  ∀ a b rest others, code a ++ rest = code b ++ others → related a b ∧ rest = others

theorem Delimits.flatMap_injective {code : α → List β} (delimits : Delimits Eq code)
    (nonempty : ∀ a, code a ≠ []) : Function.Injective (List.flatMap code) := by
  intro word
  induction word with
  | nil =>
      intro other same
      cases other with
      | nil => rfl
      | cons b others => exact absurd same.symm (by simp [nonempty b])
  | cons a rest ih =>
      intro other same
      cases other with
      | nil => exact absurd same (by simp [nonempty a])
      | cons b others =>
          simp only [List.flatMap_cons] at same
          obtain ⟨rfl, tails⟩ := delimits a b _ _ same
          rw [ih tails]

/-- Two words that a mark ends, neither of which holds the mark. -/
theorem append_mark_inj {mark : β} {word other rest others : List β} (outside : mark ∉ word)
    (outside' : mark ∉ other) (same : word ++ mark :: rest = other ++ mark :: others) :
    word = other ∧ rest = others := by
  induction word generalizing other with
  | nil =>
      cases other with
      | nil => exact ⟨rfl, by simpa using same⟩
      | cons b later =>
          obtain ⟨rfl, -⟩ := List.cons.inj same
          exact absurd List.mem_cons_self outside'
  | cons a rest ih =>
      cases other with
      | nil =>
          obtain ⟨rfl, -⟩ := List.cons.inj same
          exact absurd List.mem_cons_self outside
      | cons b later =>
          obtain ⟨rfl, tails⟩ := List.cons.inj same
          obtain ⟨rfl, ends⟩ := ih (fun inside => outside (.tail _ inside))
            (fun inside => outside' (.tail _ inside)) tails
          exact ⟨rfl, ends⟩

/-- Two words that a mark starts, neither of which holds the mark. -/
theorem mark_append_inj {mark : β} {word other rest others : List β} (outside : mark ∉ word)
    (outside' : mark ∉ other) (same : rest ++ mark :: word = others ++ mark :: other) :
    rest = others ∧ word = other := by
  have reversed : word.reverse ++ mark :: rest.reverse = other.reverse ++ mark :: others.reverse := by
    simpa using congrArg List.reverse same
  obtain ⟨words, rests⟩ := append_mark_inj (by simpa using outside) (by simpa using outside') reversed
  exact ⟨List.reverse_injective rests, List.reverse_injective words⟩

/-- A row of code words of one length, read in turn. -/
theorem delimits_ofFn {related : α → α → Prop} {code : α → List β} :
    ∀ {n : Nat} {word other : Fin n → α} {rest others : List β},
      (∀ i b s t, code (word i) ++ s = code b ++ t → related (word i) b ∧ s = t) →
      (List.ofFn fun i => code (word i)).flatten ++ rest =
        (List.ofFn fun i => code (other i)).flatten ++ others →
      (∀ i, related (word i) (other i)) ∧ rest = others
  | 0, _, _, _, _, _, same => ⟨fun i => i.elim0, by simpa using same⟩
  | n + 1, word, other, rest, others, delimits, same => by
      simp only [List.ofFn_succ, List.flatten_cons, List.append_assoc] at same
      obtain ⟨first, tails⟩ := delimits 0 _ _ _ same
      obtain ⟨later, ends⟩ := delimits_ofFn (fun i => delimits i.succ) tails
      exact ⟨fun i => Fin.cases first later i, ends⟩

/-- A row of keyed code words of one length, read in turn. -/
theorem delimits_keyed {κ : Type} {related : α → α → Prop} {keyCode : κ → List β}
    {code : α → List β} (keys : Delimits Eq keyCode) {word other : κ → α} :
    ∀ {names others : List κ} {rest ends : List β}, names.length = others.length →
      (∀ key b s t, code (word key) ++ s = code b ++ t → related (word key) b ∧ s = t) →
      names.flatMap (fun key => keyCode key ++ code (word key)) ++ rest =
        others.flatMap (fun key => keyCode key ++ code (other key)) ++ ends →
      names = others ∧ (∀ key ∈ names, related (word key) (other key)) ∧ rest = ends
  | [], [], _, _, _, _, same => ⟨rfl, by simp, by simpa using same⟩
  | [], _ :: _, _, _, lengths, _, _ => by simp at lengths
  | _ :: _, [], _, _, lengths, _, _ => by simp at lengths
  | key :: names, key' :: others, rest, ends, lengths, delimits, same => by
      simp only [List.flatMap_cons, List.append_assoc] at same
      obtain ⟨rfl, values⟩ := keys _ _ _ _ same
      obtain ⟨first, tails⟩ := delimits key _ _ _ values
      obtain ⟨rfl, later, finish⟩ := delimits_keyed keys (by simpa using lengths) delimits tails
      refine ⟨rfl, ?_, finish⟩
      intro name member
      rcases List.mem_cons.mp member with rfl | tail
      · exact first
      · exact later name tail

end Delimits

/-- A sequence of Unicode scalar values. -/
abbrev Text := List Char

namespace Text

/-! ## Order -/

/-- The code units of a text. -/
def units (text : Text) : JsString := text.flatMap JsString.unitsOf

/-- What the default comparison of `sort` looks at. -/
def rank (text : Text) : List Nat := (units text).map UInt16.toNat

/-- `sort()` of an array of strings. -/
def sort (texts : List Text) : List Text := texts.insertionSort fun a b => rank a ≤ rank b

theorem scalar (c : Char) :
    c.toNat < 0xD800 ∨ 0xDFFF < c.toNat ∧ c.toNat < 0x110000 := c.valid

theorem unitsOf_ne_nil (c : Char) : JsString.unitsOf c ≠ [] := by
  simp only [JsString.unitsOf]
  split <;> simp

theorem rankOf (c : Char) : (JsString.unitsOf c).map UInt16.toNat =
    if c.toNat < 0x10000 then [c.toNat]
    else [0xD800 + (c.toNat - 0x10000) / 0x400, 0xDC00 + (c.toNat - 0x10000) % 0x400] := by
  have valid := scalar c
  simp only [JsString.unitsOf]
  split
  · have small : c.toNat % 2 ^ 16 = c.toNat := by omega
    simp only [List.map_cons, List.map_nil, UInt16.toNat_ofNat', small]
  · have leading : (0xD800 + (c.toNat - 0x10000) / 0x400) % 2 ^ 16 =
        0xD800 + (c.toNat - 0x10000) / 0x400 := by omega
    have trailing : (0xDC00 + (c.toNat - 0x10000) % 0x400) % 2 ^ 16 =
        0xDC00 + (c.toNat - 0x10000) % 0x400 := by omega
    simp only [List.map_cons, List.map_nil, UInt16.toNat_ofNat', leading, trailing]

/-- A unit that starts a pair starts no other scalar value. -/
theorem rankOf_delimits :
    Delimits Eq fun c : Char => (JsString.unitsOf c).map UInt16.toNat := by
  intro c d rest others same
  have first := scalar c
  have second := scalar d
  simp only [rankOf] at same
  split at same <;> split at same <;>
    simp only [List.cons_append, List.nil_append, List.cons.injEq] at same
  · exact ⟨Char.toNat_inj.mp same.1, same.2⟩
  · omega
  · omega
  · exact ⟨Char.toNat_inj.mp (by omega), same.2.2⟩

theorem rank_injective : Function.Injective rank := by
  have delimited := rankOf_delimits.flatMap_injective fun c => by simp [unitsOf_ne_nil c]
  intro text other same
  apply delimited
  simpa [rank, units, List.map_flatMap] using same

theorem sort_perm (texts : List Text) : (sort texts).Perm texts := List.perm_insertionSort _ texts

theorem sort_nodup {texts : List Text} (distinct : texts.Nodup) : (sort texts).Nodup :=
  (sort_perm texts).nodup_iff.mpr distinct

/-- Sorting forgets the order and nothing else. -/
theorem sort_eq_iff {texts others : List Text} : sort texts = sort others ↔ texts.Perm others := by
  constructor
  · intro same
    exact (sort_perm texts).symm.trans (same ▸ sort_perm others)
  · intro perm
    have total : Std.Total fun a b : Text => rank a ≤ rank b := ⟨fun a b => le_total _ _⟩
    have trans : IsTrans Text fun a b => rank a ≤ rank b := ⟨fun a b c => le_trans⟩
    have antisymm : Std.Antisymm fun a b : Text => rank a ≤ rank b :=
      ⟨fun a b le ge => rank_injective (le_antisymm le ge)⟩
    refine List.Perm.eq_of_pairwise' (List.pairwise_insertionSort _ texts)
      (List.pairwise_insertionSort _ others) ?_
    exact (sort_perm texts).trans (perm.trans (sort_perm others).symm)

/-! ## Bytes -/

/-- The UTF-8 bytes of a text. -/
def bytes (text : Text) : List UInt8 := text.flatMap String.utf8EncodeChar

theorem bytes_injective : Function.Injective bytes := by
  intro text other same
  have encoded : text.utf8Encode = other.utf8Encode := by
    simpa [List.utf8Encode, bytes] using congrArg List.toByteArray same
  have decoded := congrArg ByteArray.utf8Decode? encoded
  simpa using decoded

/-- The decimal digits of a number. -/
def decimal (n : Nat) : Text := Nat.toDigits 10 n

theorem decimal_injective : Function.Injective decimal := by
  intro n m same
  have values := congrArg (Nat.ofDigitChars 10 · 0) same
  simpa [decimal, Nat.ofDigitChars_ten_toDigits] using values

theorem mem_bytes_decimal {n : Nat} {byte : UInt8} (member : byte ∈ bytes (decimal n)) :
    48 ≤ byte.toNat ∧ byte.toNat ≤ 57 := by
  obtain ⟨c, inside, encoded⟩ := List.mem_flatMap.mp member
  have digit := Nat.isDigit_of_mem_toDigits (by omega) (by omega) inside
  obtain ⟨low, high⟩ : 48 ≤ c.toNat ∧ c.toNat ≤ 57 := by
    simpa [Char.isDigit, UInt32.le_iff_toNat_le] using digit
  have single : String.utf8EncodeChar c = [c.toNat.toUInt8] := by
    have ascii : c.val.toNat ≤ 0x7f := by
      change c.toNat ≤ 0x7f
      omega
    simp only [String.utf8EncodeChar, ascii, if_true]
    rfl
  rw [single, List.mem_singleton] at encoded
  subst encoded
  simp only [Nat.toUInt8_eq, UInt8.toNat_ofNat']
  omega

/-- A number written out, up to a mark that is no digit. -/
theorem counted_delimits {n m : Nat} {mark : UInt8} {rest others : List UInt8}
    (apart : mark.toNat < 48 ∨ 57 < mark.toNat)
    (same : bytes (decimal n) ++ mark :: rest = bytes (decimal m) ++ mark :: others) :
    n = m ∧ rest = others := by
  have outside : ∀ k, mark ∉ bytes (decimal k) := fun k inside => by
    have range := mem_bytes_decimal inside
    omega
  obtain ⟨digits, tails⟩ := append_mark_inj (outside n) (outside m) same
  exact ⟨decimal_injective (bytes_injective digits), tails⟩

/-- A text with its length in bytes before it. -/
def framed (text : Text) : List UInt8 :=
  bytes (decimal (bytes text).length) ++ 58 :: bytes text

theorem framed_delimits : Delimits Eq framed := by
  intro text other rest others same
  simp only [framed, List.append_assoc, List.cons_append] at same
  obtain ⟨lengths, tails⟩ := counted_delimits (by decide) same
  obtain ⟨inside, outside⟩ := List.append_inj tails lengths
  exact ⟨bytes_injective inside, outside⟩

end Text

end SdcoreNest.Theory
