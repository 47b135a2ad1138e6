/-
# Theory.Binary -- little-endian fields in a list of bytes

Records of a binary format are rows of little-endian fields followed by texts of the lengths
that some of the fields say.  `readLE` reads one field at an offset, and fails beyond the end;
`fields` writes a row.  What was written is read back at the offset where it stands, wherever the
row is put (`readLE_fields`, `readLE_shift`).
-/
import Mathlib

namespace SdcoreNest.Theory.Binary

set_option autoImplicit false

/-- The number that some bytes write, the lowest first. -/
def value : List UInt8 → Nat
  | [] => 0
  | byte :: rest => byte.toNat + 256 * value rest

/-- `width` bytes of a number, the lowest first. -/
def le : Nat → Nat → List UInt8
  | 0, _ => []
  | width + 1, number => number.toUInt8 :: le width (number / 256)

def slice (buffer : List UInt8) (start length : Nat) : List UInt8 := (buffer.drop start).take length

def readLE (width : Nat) (buffer : List UInt8) (offset : Nat) : Option Nat :=
  if offset + width ≤ buffer.length then some (value (slice buffer offset width)) else none

/-- A row of fields, each with its width. -/
def fields (row : List (Nat × Nat)) : List UInt8 := row.flatMap fun field => le field.1 field.2

/-- The bytes of a row. -/
def widths (row : List (Nat × Nat)) : Nat := row.foldr (fun field total => field.1 + total) 0

@[simp] theorem length_le (width number : Nat) : (le width number).length = width := by
  induction width generalizing number with
  | zero => rfl
  | succ width ih => simp [le, ih]

theorem value_le {width number : Nat} (fits : number < 256 ^ width) : value (le width number) = number := by
  induction width generalizing number with
  | zero =>
      rw [Nat.pow_zero] at fits
      simp only [le, value]
      omega
  | succ width ih =>
      have rest : number / 256 < 256 ^ width := by
        rw [Nat.pow_succ] at fits
        exact Nat.div_lt_of_lt_mul (by omega)
      simp only [le, value, ih rest]
      have low : number.toUInt8.toNat = number % 256 := by simp
      rw [low]
      exact Nat.mod_add_div number 256

@[simp] theorem length_fields (row : List (Nat × Nat)) : (fields row).length = widths row := by
  induction row with
  | nil => rfl
  | cons field rest ih =>
      have split : fields (field :: rest) = le field.1 field.2 ++ fields rest := rfl
      rw [split, List.length_append, length_le, ih]
      rfl

/-! ## Slices -/

/-- What stands behind a front is found by its distance to the front. -/
theorem slice_shift (front buffer : List UInt8) (offset length : Nat) :
    slice (front ++ buffer) (front.length + offset) length = slice buffer offset length := by
  unfold slice
  rw [List.drop_append, List.drop_eq_nil_of_le (by omega), Nat.add_sub_cancel_left, List.nil_append]

theorem slice_front (text rest : List UInt8) : slice (text ++ rest) 0 text.length = text := by
  simp [slice]

theorem length_slice {buffer : List UInt8} {start length : Nat} (fits : start + length ≤ buffer.length) :
    (slice buffer start length).length = length := by
  simp only [slice, List.length_take, List.length_drop]
  omega

/-! ## Fields -/

theorem readLE_shift (width : Nat) (front buffer : List UInt8) (offset : Nat) :
    readLE width (front ++ buffer) (front.length + offset) = readLE width buffer offset := by
  unfold readLE
  rw [slice_shift, List.length_append]
  by_cases fits : offset + width ≤ buffer.length
  · rw [if_pos fits, if_pos (by omega)]
  · rw [if_neg fits, if_neg (by omega)]

theorem readLE_front {width number : Nat} (fits : number < 256 ^ width) (rest : List UInt8) :
    readLE width (le width number ++ rest) 0 = some number := by
  have whole : slice (le width number ++ rest) 0 width = le width number := by
    have front := slice_front (le width number) rest
    rwa [length_le] at front
  unfold readLE
  rw [whole, value_le fits, if_pos]
  simp

/-- A field of a row is read back at the width of what stands before it. -/
theorem readLE_fields (before after : List (Nat × Nat)) {width number : Nat}
    (fits : number < 256 ^ width) (rest : List UInt8) :
    readLE width (fields (before ++ (width, number) :: after) ++ rest) (widths before) = some number := by
  have split : fields (before ++ (width, number) :: after) ++ rest =
      fields before ++ (le width number ++ (fields after ++ rest)) := by
    simp [fields]
  rw [split, ← length_fields before]
  exact (readLE_shift width (fields before) _ 0).trans (readLE_front fits _)

/-- The field at an index of a row, with anything in front of the row. -/
theorem readLE_row {row : List (Nat × Nat)} {index width number offset : Nat}
    (listed : row[index]? = some (width, number)) (placed : widths (row.take index) = offset)
    (fits : number < 256 ^ width) (front rest : List UInt8) :
    readLE width (front ++ (fields row ++ rest)) (front.length + offset) = some number := by
  obtain ⟨within, same⟩ := List.getElem?_eq_some_iff.mp listed
  have split : row = row.take index ++ (width, number) :: row.drop (index + 1) := by
    rw [← same, List.getElem_cons_drop, List.take_append_drop]
  rw [readLE_shift, ← placed]
  nth_rewrite 1 [split]
  exact readLE_fields _ _ fits rest

/-- The text behind a row. -/
theorem slice_row (front : List UInt8) (row : List (Nat × Nat)) (text rest : List UInt8) :
    slice (front ++ (fields row ++ (text ++ rest))) (front.length + widths row) text.length = text := by
  rw [slice_shift, ← length_fields row]
  exact (slice_shift (fields row) _ 0 _).trans (slice_front text rest)

theorem lt_of_readLE {width offset number : Nat} {buffer : List UInt8}
    (read : readLE width buffer offset = some number) : number < 256 ^ width := by
  have bounded : ∀ bytes : List UInt8, value bytes < 256 ^ bytes.length := by
    intro bytes
    induction bytes with
    | nil => exact Nat.one_pos
    | cons byte rest ih =>
        have small := byte.toNat_lt
        simp only [value, List.length_cons, Nat.pow_succ]
        omega
  unfold readLE at read
  split at read
  next fits =>
    rw [← Option.some.inj read]
    have below := bounded (slice buffer offset width)
    rwa [length_slice fits] at below
  next => cases read

theorem fits_of_readLE {width offset number : Nat} {buffer : List UInt8}
    (read : readLE width buffer offset = some number) : offset + width ≤ buffer.length := by
  unfold readLE at read
  split at read
  next fits => exact fits
  next => cases read

end SdcoreNest.Theory.Binary
