/-
# RemoteFetch.Spelling -- what the text of an address stands for

A dotted quad stands for its four octets.  An accepted IPv6 text is read twice: by the grammar
`isIP`, and by a parser that first rewrites the text.  `ipv6Groups` says what the text stands for,
part by part, and `parseIpv6_eq` that the parser answers the bytes of exactly that, for every
spelling.
-/
import SdcoreNest.RemoteFetch.Address
import SdcoreNest.Theory.Encoding

namespace SdcoreNest.RemoteFetch

open SdcoreNest.Theory SdcoreNest.Theory.JsString

set_option autoImplicit false

/-! ## Dotted quads -/

/-- `a.b.c.d` as `node:net` wants it: no leading zeros, no signs. -/
def quadText (a b c d : Nat) : JsString :=
  decimalText a ++ dot :: (decimalText b ++ dot :: (decimalText c ++ dot :: decimalText d))

theorem isDigit_of_isOctet {s : JsString} (octet : isOctet s = true) : ∀ u ∈ s, isDigit u = true := by
  simp only [isOctet, Bool.and_eq_true, List.all_eq_true] at octet
  exact octet.1.1.2

theorem ne_nil_of_isOctet {s : JsString} (octet : isOctet s = true) : s ≠ [] := by
  rintro rfl
  cases octet

/-- Reading back what was printed. -/
theorem digitsValue_decimalText (n : Fin 256) : digitsValue 10 (decimalText n) = n := by
  have digit (k : Nat) (small : k < 10) : hexValue (hexDigit k) = some k :=
    hexValue_hexDigit ⟨k, by omega⟩
  have small := n.isLt
  unfold decimalText digitsValue
  split_ifs with one two
  · simp [digit n one]
  · simp only [List.foldl_cons, List.foldl_nil, digit (n / 10) (by omega), digit (n % 10) (by omega),
      Option.getD_some]
    omega
  · simp only [List.foldl_cons, List.foldl_nil, digit (n / 100) (by omega),
      digit (n / 10 % 10) (by omega), digit (n % 10) (by omega), Option.getD_some]
    omega

theorem isDigit_hexDigit : ∀ k : Fin 10, isDigit (hexDigit k) = true := by decide

theorem hexDigit_ne_zero : ∀ k : Fin 10, k.val ≠ 0 → hexDigit k ≠ 0x30 := by decide

/-- Printed octets are octets, over the three lengths they can have. -/
theorem isOctet_decimalText (n : Fin 256) : isOctet (decimalText n) = true := by
  have value := digitsValue_decimalText n
  have small := n.isLt
  have digit (k : Nat) (below : k < 10) : isDigit (hexDigit k) = true := isDigit_hexDigit ⟨k, below⟩
  have leading (k : Nat) (below : k < 10) (nonzero : k ≠ 0) : hexDigit k ≠ 0x30 :=
    hexDigit_ne_zero ⟨k, below⟩ nonzero
  have most : digitsValue 10 (decimalText n) ≤ 255 := by omega
  revert most
  unfold decimalText isOctet
  split_ifs with one two
  · simp [digit n one]
  · simp [digit (n / 10) (by omega), digit (n % 10) (by omega), leading (n / 10) (by omega) (by omega)]
  · simp [digit (n / 100) (by omega), digit (n / 10 % 10) (by omega), digit (n % 10) (by omega),
      leading (n / 100) (by omega) (by omega)]

/-- `Number` reads an octet as its value. -/
theorem octet?_decimalText (n : Fin 256) : octet? (.ofText (decimalText n)) = some n.val := by
  have octet := isOctet_decimalText n
  have small := n.isLt
  have range : (0 : ℚ) ≤ (n.val : ℚ) ∧ (n.val : ℚ) ≤ 255 := by
    refine ⟨Nat.cast_nonneg _, ?_⟩
    exact_mod_cast Nat.le_of_lt_succ small
  rw [JsNumber.ofText_digits (ne_nil_of_isOctet octet) (isDigit_of_isOctet octet),
    digitsValue_decimalText, JsNumber.nearest_natCast (by omega), octet?,
    if_pos ⟨Rat.den_natCast n.val, range⟩, Rat.num_natCast, Int.toNat_natCast]

theorem not_mem_decimalText {mark : UInt16} (other : isDigit mark = false) (n : Fin 256) :
    mark ∉ decimalText n := by
  intro inside
  rw [isDigit_of_isOctet (isOctet_decimalText n) mark inside] at other
  cases other

theorem dot_not_mem_decimalText (n : Fin 256) : dot ∉ decimalText n := not_mem_decimalText (by decide) n

theorem digit_of_isDigit {u : UInt16} (digit : isDigit u = true) : ∃ n : Fin 10, u = hexDigit n := by
  simp only [isDigit, Bool.and_eq_true, decide_eq_true_eq] at digit
  refine ⟨⟨u.toNat - 0x30, by omega⟩, UInt16.toNat_inj.mp ?_⟩
  simp only [hexDigit, UInt16.toNat_ofNat', if_pos (show u.toNat - 0x30 < 10 by omega)]
  omega

theorem hexValue_digit (k : Fin 10) : hexValue (hexDigit k.val) = some k.val :=
  hexValue_hexDigit ⟨k.val, by omega⟩

/-- Without a zero in front, digits are the decimal text of their value. -/
theorem octet_of_two_digits {a b : Fin 10} (octet : isOctet [hexDigit a, hexDigit b] = true) :
    decimalText (digitsValue 10 [hexDigit a, hexDigit b]) = [hexDigit a, hexDigit b] := by
  have leading : a.val ≠ 0 := by
    intro zero
    simp only [isOctet, zero] at octet
    simp [hexDigit] at octet
  have value : digitsValue 10 [hexDigit a, hexDigit b] = a.val * 10 + b.val := by
    simp only [digitsValue, List.foldl_cons, List.foldl_nil, hexValue_digit, Option.getD_some]
    omega
  rw [value, decimalText, if_neg (by omega), if_pos (by omega),
    show (a.val * 10 + b.val) / 10 = a.val by omega, show (a.val * 10 + b.val) % 10 = b.val by omega]

theorem octet_of_three_digits {a b c : Fin 10}
    (octet : isOctet [hexDigit a, hexDigit b, hexDigit c] = true) :
    decimalText (digitsValue 10 [hexDigit a, hexDigit b, hexDigit c]) =
      [hexDigit a, hexDigit b, hexDigit c] := by
  have leading : a.val ≠ 0 := by
    intro zero
    simp only [isOctet, zero] at octet
    simp [hexDigit] at octet
  have value : digitsValue 10 [hexDigit a, hexDigit b, hexDigit c] =
      a.val * 100 + b.val * 10 + c.val := by
    simp only [digitsValue, List.foldl_cons, List.foldl_nil, hexValue_digit, Option.getD_some]
    omega
  rw [value, decimalText, if_neg (by omega), if_neg (by omega),
    show (a.val * 100 + b.val * 10 + c.val) / 100 = a.val by omega,
    show (a.val * 100 + b.val * 10 + c.val) / 10 % 10 = b.val by omega,
    show (a.val * 100 + b.val * 10 + c.val) % 10 = c.val by omega]

/-- An octet is printed in one way only, so its text is that of a number below 256. -/
theorem exists_of_isOctet {s : JsString} (octet : isOctet s = true) : ∃ n : Fin 256, s = decimalText n := by
  have checked := octet
  simp only [isOctet, Bool.and_eq_true, decide_eq_true_eq, List.all_eq_true] at checked
  obtain ⟨⟨⟨⟨nonempty, short⟩, digits⟩, small⟩, -⟩ := checked
  refine ⟨⟨digitsValue 10 s, by omega⟩, Eq.symm ?_⟩
  rcases s with - | ⟨u, - | ⟨v, - | ⟨w, - | ⟨x, rest⟩⟩⟩⟩
  · exact absurd rfl nonempty
  · obtain ⟨a, rfl⟩ := digit_of_isDigit (digits u (by simp))
    have value : digitsValue 10 [hexDigit a] = a.val := by simp [digitsValue, hexValue_digit]
    exact (congrArg decimalText value).trans (if_pos a.isLt)
  · obtain ⟨a, rfl⟩ := digit_of_isDigit (digits u (by simp))
    obtain ⟨b, rfl⟩ := digit_of_isDigit (digits v (by simp))
    exact octet_of_two_digits octet
  · obtain ⟨a, rfl⟩ := digit_of_isDigit (digits u (by simp))
    obtain ⟨b, rfl⟩ := digit_of_isDigit (digits v (by simp))
    obtain ⟨c, rfl⟩ := digit_of_isDigit (digits w (by simp))
    exact octet_of_three_digits octet
  · simp only [List.length_cons] at short
    omega

/-- The dots are where the text is split: no octet has one. -/
theorem splitOn_quadText (a b c d : Fin 256) : splitOn dot (quadText a b c d) =
    [decimalText a, decimalText b, decimalText c, decimalText d] := by
  rw [quadText, splitOn_append (dot_not_mem_decimalText a), splitOn_append (dot_not_mem_decimalText b),
    splitOn_append (dot_not_mem_decimalText c), splitOn_of_not_mem (dot_not_mem_decimalText d)]

theorem isIPv4_quadText (a b c d : Fin 256) : isIPv4 (quadText a b c d) = true := by
  simp [isIPv4, splitOn_quadText, isOctet_decimalText]

/-- An IPv4 address is the decimal text of four bytes. -/
theorem exists_of_isIPv4 {s : JsString} (address : isIPv4 s = true) :
    ∃ a b c d : Fin 256, s = quadText a b c d := by
  simp only [isIPv4, Bool.and_eq_true, decide_eq_true_eq, List.all_eq_true] at address
  obtain ⟨four, octets⟩ := address
  obtain ⟨w, x, y, z, shape⟩ : ∃ w x y z, splitOn dot s = [w, x, y, z] := by
    generalize splitOn dot s = list at four
    rcases list with - | ⟨w, - | ⟨x, - | ⟨y, - | ⟨z, - | ⟨more, rest⟩⟩⟩⟩⟩ <;> simp at four ⊢
  rw [shape] at octets
  obtain ⟨a, rfl⟩ := exists_of_isOctet (octets w (by simp))
  obtain ⟨b, rfl⟩ := exists_of_isOctet (octets x (by simp))
  obtain ⟨c, rfl⟩ := exists_of_isOctet (octets y (by simp))
  obtain ⟨d, rfl⟩ := exists_of_isOctet (octets z (by simp))
  refine ⟨a, b, c, d, ?_⟩
  rw [← joinWith_splitOn dot s, shape, joinWith_cons_cons, joinWith_cons_cons, joinWith_cons_cons]
  simp [joinWith, quadText]

/-- The 32 bits of four octets. -/
def quadValue (a b c d : Nat) : Nat := a * 2 ^ 24 + b * 2 ^ 16 + c * 2 ^ 8 + d

/-- The number of an IPv4 text is that of its four octets. -/
theorem ipv4Number_quadText (a b c d : Fin 256) :
    ipv4Number (quadText a b c d) = some (quadValue a b c d) := by
  simp only [ipv4Number, splitOn_quadText, List.map_cons, List.map_nil, octet?_decimalText, quadValue]

theorem pair_bytes (a b : Fin 256) :
    (a.val * 2 ^ 8 + b.val) / 2 ^ 8 = a.val ∧ (a.val * 2 ^ 8 + b.val) % 2 ^ 8 = b.val := by
  have first := a.isLt
  have second := b.isLt
  constructor <;> omega

theorem pair_lt (a b : Fin 256) : a.val * 2 ^ 8 + b.val < 2 ^ 16 := by
  have first := a.isLt
  have second := b.isLt
  omega

/-! ## What an IPv6 text stands for -/

/-- The two groups that a dotted quad stands for. -/
def quadGroups (s : JsString) : List Nat :=
  match (splitOn dot s).map (digitsValue 10) with
  | [a, b, c, d] => [a * 2 ^ 8 + b, c * 2 ^ 8 + d]
  | _ => []

/-- The groups that a list of parts stands for, as `groupCount` counts them. -/
def groupValues (quadAllowed : Bool) : List JsString → Option (List Nat)
  | [] => some []
  | [last] =>
      if isGroup last then some [digitsValue 16 last]
      else if quadAllowed && isIPv4 last then some (quadGroups last)
      else none
  | part :: parts =>
      if isGroup part then (groupValues quadAllowed parts).map (digitsValue 16 part :: ·) else none

theorem groupValues_cons (quadAllowed : Bool) (part second : JsString) (later : List JsString) :
    groupValues quadAllowed (part :: second :: later) =
      if isGroup part then
        (groupValues quadAllowed (second :: later)).map (digitsValue 16 part :: ·)
      else none := rfl

/-- The last part may be a group or, where it is allowed, four octets in two groups. -/
theorem groupValues_last (quadAllowed : Bool) (last : JsString) :
    groupValues quadAllowed [last] =
      if isGroup last then some [digitsValue 16 last]
      else if quadAllowed && isIPv4 last then some (quadGroups last)
      else none := rfl

/-- The cases of a list of parts: none, a group or a quad at the end, and a group before more. -/
theorem groupValues_induction {quadAllowed : Bool} {motive : List JsString → List Nat → Prop}
    (nil : motive [] [])
    (group : ∀ last, isGroup last = true → motive [last] [digitsValue 16 last])
    (quad : ∀ last, quadAllowed = true → isIPv4 last = true → motive [last] (quadGroups last))
    (cons : ∀ part second later values, isGroup part = true → motive (second :: later) values →
      motive (part :: second :: later) (digitsValue 16 part :: values)) :
    ∀ {texts : List JsString} {groups : List Nat}, groupValues quadAllowed texts = some groups →
      motive texts groups
  | [], groups, found => by
      cases found
      exact nil
  | [last], groups, found => by
      rw [groupValues_last] at found
      split at found
      next hex =>
        cases found
        exact group last hex
      next =>
        split at found
        next allowed =>
          cases found
          obtain ⟨allowed, address⟩ := Bool.and_eq_true_iff.mp allowed
          exact quad last allowed address
        next => cases found
  | part :: second :: later, groups, found => by
      rw [groupValues_cons] at found
      split at found
      next hex =>
        obtain ⟨values, here, rfl⟩ := Option.map_eq_some_iff.mp found
        exact cons part second later values hex (groupValues_induction nil group quad cons here)
      next => cases found

/-- The eight groups of an address without its zone; the gap stands for groups of zero. -/
def bodyGroups (body : JsString) : Option (List Nat) :=
  match cutGap body with
  | none =>
      match groupValues true (parts body) with
      | some groups => if groups.length = 8 then some groups else none
      | none => none
  | some (left, right) =>
      match groupValues false (parts left), groupValues true (parts right) with
      | some front, some back =>
          if front.length + back.length ≤ 7 then
            some (front ++ List.replicate (8 - (front.length + back.length)) 0 ++ back)
          else none
      | _, _ => none

/-- The eight groups of an IPv6 address. -/
def ipv6Groups (address : JsString) : Option (List Nat) := bodyGroups (before percent address)

/-- The bytes of groups, the higher first. -/
def bytesOf (groups : List Nat) : List Nat := groups.flatMap fun group => [group / 2 ^ 8, group % 2 ^ 8]

theorem quadGroups_quadText (a b c d : Fin 256) :
    quadGroups (quadText a b c d) = [a.val * 2 ^ 8 + b.val, c.val * 2 ^ 8 + d.val] := by
  simp only [quadGroups, splitOn_quadText, List.map_cons, List.map_nil, digitsValue_decimalText]

/-- Four octets fill two groups. -/
theorem length_quadGroups {s : JsString} (address : isIPv4 s = true) : (quadGroups s).length = 2 := by
  obtain ⟨a, b, c, d, rfl⟩ := exists_of_isIPv4 address
  rw [quadGroups_quadText]
  rfl

/-- The grammar counts the groups that the text stands for. -/
theorem groupCount_eq (quadAllowed : Bool) :
    ∀ texts : List JsString,
      groupCount quadAllowed texts = (groupValues quadAllowed texts).map List.length
  | [] => rfl
  | [last] => by
      rw [groupValues_last, groupCount]
      split
      · rfl
      · split
        next allowed =>
          rw [Option.map_some, length_quadGroups (Bool.and_eq_true_iff.mp allowed).2]
        next => rfl
  | part :: second :: later => by
      have count : groupCount quadAllowed (part :: second :: later) =
          if isGroup part then (groupCount quadAllowed (second :: later)).map (· + 1) else none := rfl
      rw [groupValues_cons, count, groupCount_eq quadAllowed (second :: later)]
      split
      · rw [Option.map_map, Option.map_map]
        rfl
      · rfl

/-- An accepted text stands for eight groups. -/
theorem isIPv6Body_eq (body : JsString) : isIPv6Body body = (bodyGroups body).isSome := by
  unfold isIPv6Body bodyGroups
  cases cutGap body with
  | none =>
      simp only [groupCount_eq]
      cases groupValues true (parts body) with
      | none => rfl
      | some groups =>
          by_cases eight : groups.length = 8 <;> simp [eight]
  | some sides =>
      obtain ⟨left, right⟩ := sides
      simp only [groupCount_eq]
      cases groupValues false (parts left) with
      | none => rfl
      | some front =>
          cases groupValues true (parts right) with
          | none => rfl
          | some back =>
              by_cases room : front.length + back.length ≤ 7 <;> simp [room]

/-- An address has no gap and eight groups, or a gap for those that are missing. -/
theorem of_bodyGroups {body : JsString} {groups : List Nat} (found : bodyGroups body = some groups) :
    (cutGap body = none ∧ groupValues true (parts body) = some groups ∧ groups.length = 8) ∨
      ∃ left right front back, cutGap body = some (left, right) ∧
        groupValues false (parts left) = some front ∧ groupValues true (parts right) = some back ∧
        front.length + back.length ≤ 7 ∧
        groups = front ++ List.replicate (8 - (front.length + back.length)) 0 ++ back := by
  unfold bodyGroups at found
  split at found
  next cut =>
    split at found
    next values held =>
      split at found
      next eight =>
        cases found
        exact .inl ⟨cut, held, eight⟩
      next => cases found
    next => cases found
  next left right cut =>
    split at found
    next front back heldLeft heldRight =>
      split at found
      next room =>
        cases found
        exact .inr ⟨left, right, front, back, cut, heldLeft, heldRight, room, rfl⟩
      next => cases found
    next => cases found

/-- An accepted body has eight groups, those of the gap counted. -/
theorem length_of_bodyGroups {body : JsString} {groups : List Nat} (found : bodyGroups body = some groups) :
    groups.length = 8 := by
  rcases of_bodyGroups found with ⟨-, -, eight⟩ | ⟨left, right, front, back, -, -, -, room, rfl⟩
  · exact eight
  · simp only [List.length_append, List.length_replicate]
    omega

theorem hexValue_lt (u : UInt16) : (hexValue u).getD 0 < 16 := by
  simp only [hexValue]
  split_ifs <;> simp only [Option.getD_some, Option.getD_none] <;> omega

theorem digitsValue_lt (s : JsString) : digitsValue 16 s < 16 ^ s.length := by
  induction s using List.reverseRecOn with
  | nil => decide
  | append_singleton s u ih =>
      have digit := hexValue_lt u
      rw [digitsValue] at ih ⊢
      rw [List.foldl_append, List.foldl_cons, List.foldl_nil, List.length_append, List.length_singleton,
        pow_succ]
      omega

/-- A group has at most four hexadecimal digits. -/
theorem isGroup_lt {s : JsString} (group : isGroup s = true) : digitsValue 16 s < 2 ^ 16 := by
  simp only [isGroup, Bool.and_eq_true, decide_eq_true_eq] at group
  calc digitsValue 16 s < 16 ^ s.length := digitsValue_lt s
    _ ≤ 16 ^ 4 := Nat.pow_le_pow_right (by decide) group.1.2

/-- Every group fits in 16 bits, written in hexadecimal or as octets. -/
theorem groupValues_lt {quadAllowed : Bool} {texts : List JsString} {groups : List Nat}
    (found : groupValues quadAllowed texts = some groups) : ∀ group ∈ groups, group < 2 ^ 16 := by
  refine @groupValues_induction quadAllowed (fun _ groups => ∀ group ∈ groups, group < 2 ^ 16)
    ?_ ?_ ?_ ?_ texts groups found
  · intro group inside
    cases inside
  · intro last hex group inside
    rw [List.mem_singleton.mp inside]
    exact isGroup_lt hex
  · intro last allowed address group inside
    obtain ⟨a, b, c, d, rfl⟩ := exists_of_isIPv4 address
    rw [quadGroups_quadText] at inside
    rcases List.mem_pair.mp inside with rfl | rfl
    · exact pair_lt a b
    · exact pair_lt c d
  · intro part second later values hex below group inside
    rcases List.mem_cons.mp inside with rfl | inside
    · exact isGroup_lt hex
    · exact below group inside

/-- So do the groups of a body, with the zeros of the gap. -/
theorem bodyGroups_lt {body : JsString} {groups : List Nat} (found : bodyGroups body = some groups) :
    ∀ group ∈ groups, group < 2 ^ 16 := by
  rcases of_bodyGroups found with ⟨-, held, -⟩ | ⟨left, right, front, back, -, heldLeft, heldRight, -, rfl⟩
  · exact groupValues_lt held
  · intro group inside
    simp only [List.mem_append, List.mem_replicate] at inside
    rcases inside with (inside | ⟨-, rfl⟩) | inside
    · exact groupValues_lt heldLeft group inside
    · decide
    · exact groupValues_lt heldRight group inside

/-! ### Lower case stands for the same -/

/-- A unit stays, or is an upper-case letter and moves by `0x20`. -/
theorem lowerAscii_cases (u : UInt16) :
    (¬(0x41 ≤ u.toNat ∧ u.toNat ≤ 0x5A) ∧ lowerAscii u = u) ∨
      (0x41 ≤ u.toNat ∧ u.toNat ≤ 0x5A) ∧ (lowerAscii u).toNat = u.toNat + 0x20 := by
  by_cases upper : 0x41 ≤ u.toNat ∧ u.toNat ≤ 0x5A
  · refine .inr ⟨upper, ?_⟩
    rw [lowerAscii, if_pos upper, UInt16.toNat_ofNat']
    omega
  · exact .inl ⟨upper, if_neg upper⟩

/-- Lowering neither makes nor moves a mark that is no letter. -/
theorem lowerAscii_eq_iff {mark : UInt16} (outside : ¬(0x41 ≤ mark.toNat ∧ mark.toNat ≤ 0x5A))
    (apart : ¬(0x61 ≤ mark.toNat ∧ mark.toNat ≤ 0x7A)) (u : UInt16) : lowerAscii u = mark ↔ u = mark := by
  rcases lowerAscii_cases u with ⟨-, same⟩ | ⟨upper, shifted⟩
  · rw [same]
  · constructor
    · rintro rfl
      omega
    · rintro rfl
      exact absurd upper outside

/-- Hexadecimal digits have one value in both cases. -/
theorem hexValue_lowerAscii (u : UInt16) : hexValue (lowerAscii u) = hexValue u := by
  rcases lowerAscii_cases u with ⟨-, same⟩ | ⟨upper, shifted⟩
  · rw [same]
  · simp only [hexValue, shifted]
    split_ifs <;> first | rfl | omega

theorem digitsValue_lower (base : Nat) (s : JsString) :
    digitsValue base (s.map lowerAscii) = digitsValue base s := by
  simp only [digitsValue, List.foldl_map, hexValue_lowerAscii]

theorem isDigit_lowerAscii (u : UInt16) : isDigit (lowerAscii u) = isDigit u := by
  rcases lowerAscii_cases u with ⟨-, same⟩ | ⟨upper, shifted⟩
  · rw [same]
  · simp only [isDigit, shifted, ← Bool.decide_and]
    exact decide_eq_decide.mpr (by omega)

/-- Nothing that is read from an address depends on the case: groups, -/
theorem isGroup_lower (s : JsString) : isGroup (s.map lowerAscii) = isGroup s := by
  simp only [isGroup, List.length_map, List.all_map, Function.comp_def, hexValue_lowerAscii, ne_eq,
    List.map_eq_nil_iff]

/-- octets, -/
theorem isOctet_lower (s : JsString) : isOctet (s.map lowerAscii) = isOctet s := by
  have zero : ∀ u, lowerAscii u = 0x30 ↔ u = 0x30 := lowerAscii_eq_iff (by decide) (by decide)
  have first : (s.map lowerAscii).head? = some 0x30 ↔ s.head? = some 0x30 := by
    cases s with
    | nil => simp
    | cons u rest => simp [zero]
  simp only [isOctet, List.length_map, List.all_map, Function.comp_def, isDigit_lowerAscii, ne_eq,
    List.map_eq_nil_iff, digitsValue_lower, first]

theorem splitOn_lower_dot (s : JsString) :
    splitOn dot (s.map lowerAscii) = (splitOn dot s).map (List.map lowerAscii) :=
  splitOn_map (lowerAscii_eq_iff (by decide) (by decide)) s

/-- dotted quads, -/
theorem isIPv4_lower (s : JsString) : isIPv4 (s.map lowerAscii) = isIPv4 s := by
  simp only [isIPv4, splitOn_lower_dot, List.length_map, List.all_map, Function.comp_def, isOctet_lower]

theorem quadGroups_lower (s : JsString) : quadGroups (s.map lowerAscii) = quadGroups s := by
  have same : ((splitOn dot s).map (List.map lowerAscii)).map (digitsValue 10) =
      (splitOn dot s).map (digitsValue 10) := by
    rw [List.map_map]
    exact List.map_congr_left fun part _ => digitsValue_lower 10 part
  rw [quadGroups, splitOn_lower_dot, same, quadGroups]

/-- and the values of the parts. -/
theorem groupValues_lower (quadAllowed : Bool) (texts : List JsString) :
    groupValues quadAllowed (texts.map (List.map lowerAscii)) = groupValues quadAllowed texts := by
  induction texts with
  | nil => rfl
  | cons part rest ih =>
      cases rest with
      | nil =>
          simp only [List.map_cons, List.map_nil, groupValues, isGroup_lower, digitsValue_lower,
            isIPv4_lower, quadGroups_lower]
      | cons second later =>
          rw [List.map_cons, List.map_cons, groupValues_cons, ← List.map_cons, ih, isGroup_lower,
            digitsValue_lower, groupValues_cons]

theorem parts_lower (s : JsString) :
    parts (s.map lowerAscii) = (parts s).map (List.map lowerAscii) := by
  unfold parts
  by_cases empty : s = []
  · subst empty; rfl
  · rw [if_neg empty, if_neg (by simpa using empty)]
    exact splitOn_map (lowerAscii_eq_iff (by decide) (by decide)) s

theorem cutGap_cons (u v : UInt16) (rest : JsString) :
    cutGap (u :: v :: rest) =
      if u = colon ∧ v = colon then some ([], rest)
      else (cutGap (v :: rest)).map fun (left, right) => (u :: left, right) := rfl

/-- A text is short, begins with the gap, or goes on after its first unit. -/
theorem gap_induction {motive : JsString → Prop} (nil : motive []) (single : ∀ u, motive [u])
    (gap : ∀ rest, motive (colon :: colon :: rest))
    (other : ∀ u v rest, ¬(u = colon ∧ v = colon) → motive (v :: rest) → motive (u :: v :: rest)) :
    ∀ s, motive s
  | [] => nil
  | [u] => single u
  | u :: v :: rest => by
      by_cases both : u = colon ∧ v = colon
      · obtain ⟨rfl, rfl⟩ := both
        exact gap rest
      · exact other u v rest both (gap_induction nil single gap other (v :: rest))

/-- The gap is found in the same place. -/
theorem cutGap_lower (s : JsString) : cutGap (s.map lowerAscii) =
    (cutGap s).map fun sides => (sides.1.map lowerAscii, sides.2.map lowerAscii) := by
  have colons : ∀ u, lowerAscii u = colon ↔ u = colon := lowerAscii_eq_iff (by decide) (by decide)
  induction s using gap_induction with
  | nil => rfl
  | single u => rfl
  | gap rest =>
      rw [List.map_cons, List.map_cons, cutGap_cons, if_pos (by rw [colons]; exact ⟨rfl, rfl⟩), cutGap_cons,
        if_pos ⟨rfl, rfl⟩]
      rfl
  | other u v rest apart ih =>
      rw [List.map_cons, List.map_cons, cutGap_cons, if_neg (by rwa [colons, colons]), ← List.map_cons, ih,
        cutGap_cons, if_neg apart, Option.map_map, Option.map_map]
      rfl

/-- So an address has the same groups after `toLowerCase`. -/
theorem bodyGroups_lower (body : JsString) : bodyGroups (body.map lowerAscii) = bodyGroups body := by
  unfold bodyGroups
  rw [cutGap_lower]
  cases cutGap body with
  | none => simp only [Option.map_none, parts_lower, groupValues_lower]
  | some sides => simp only [Option.map_some, parts_lower, groupValues_lower]

/-! ### The gap -/

/-- What is on both sides of the gap, put together again. -/
theorem eq_of_cutGap {s left right : JsString} (cut : cutGap s = some (left, right)) :
    s = left ++ colon :: colon :: right := by
  induction s using gap_induction generalizing left right with
  | nil => cases cut
  | single u => cases cut
  | gap rest =>
      cases cut
      rfl
  | other u v rest apart ih =>
      rw [cutGap_cons, if_neg apart] at cut
      obtain ⟨⟨front, back⟩, found, same⟩ := Option.map_eq_some_iff.mp cut
      cases same
      rw [ih found]
      rfl

/-- What follows the first gap does not decide where it is. -/
theorem cutGap_append {s left right : JsString} (cut : cutGap s = some (left, right)) (other : JsString) :
    cutGap (left ++ colon :: colon :: other) = some (left, other) := by
  induction s using gap_induction generalizing left right with
  | nil => cases cut
  | single u => cases cut
  | gap rest =>
      cases cut
      rw [List.nil_append, cutGap_cons, if_pos ⟨rfl, rfl⟩]
  | other u v rest apart ih =>
      rw [cutGap_cons, if_neg apart] at cut
      obtain ⟨⟨front, back⟩, found, same⟩ := Option.map_eq_some_iff.mp cut
      cases same
      have whole := eq_of_cutGap found
      have later := ih found
      cases front with
      | nil =>
          cases whole
          rw [List.cons_append, List.nil_append, cutGap_cons, if_neg apart, ← List.nil_append (colon :: _),
            later]
          rfl
      | cons w front =>
          cases whole
          rw [List.cons_append, List.cons_append, cutGap_cons, if_neg apart, ← List.cons_append, later]
          rfl

theorem gapCount_cons (u v : UInt16) (rest : JsString) :
    gapCount (u :: v :: rest) =
      if u = colon ∧ v = colon then gapCount rest + 1 else gapCount (v :: rest) := rfl

/-- A second gap would be found on the right of the first. -/
theorem gapCount_of_cutGap (s : JsString) :
    gapCount s = (cutGap s).elim 0 fun sides => gapCount sides.2 + 1 := by
  induction s using gap_induction with
  | nil => rfl
  | single u => rfl
  | gap rest => rfl
  | other u v rest apart ih =>
      rw [gapCount_cons, if_neg apart, ih, cutGap_cons, if_neg apart]
      cases cutGap (v :: rest) <;> rfl

/-- Where no part but the first may be empty there is no gap. -/
theorem cutGap_of_parts {s : JsString} (nonempty : ∀ part ∈ (splitOn colon s).tail, part ≠ []) :
    cutGap s = none := by
  induction s using gap_induction with
  | nil => rfl
  | single u => rfl
  | gap rest =>
      refine absurd rfl (nonempty [] ?_)
      rw [splitOn, if_pos rfl, List.tail_cons, splitOn, if_pos rfl]
      exact List.mem_cons_self
  | other u v rest apart ih =>
      rw [cutGap_cons, if_neg apart, ih ?_]
      · rfl
      intro part inside
      refine nonempty part ?_
      obtain ⟨first, more, shape⟩ := List.exists_cons_of_ne_nil (splitOn_ne_nil colon (v :: rest))
      rw [shape] at inside
      rw [splitOn]
      split
      · rw [shape]
        exact .tail _ inside
      · rw [shape]
        exact inside

/-! ### The parts of an accepted side -/

theorem isGroup_ne_nil {s : JsString} (group : isGroup s = true) : s ≠ [] := by
  rintro rfl
  cases group

theorem hexValue_none_of_mark : hexValue dot = none ∧ hexValue colon = none := by decide

theorem dot_not_mem_of_isGroup {s : JsString} (group : isGroup s = true) : dot ∉ s := by
  intro inside
  simp only [isGroup, Bool.and_eq_true, List.all_eq_true] at group
  have digit := group.2 dot inside
  rw [hexValue_none_of_mark.1] at digit
  cases digit

theorem isIPv4_ne_nil {s : JsString} (address : isIPv4 s = true) : s ≠ [] := by
  rintro rfl
  cases address

/-- Accepted parts are not empty: an empty one would be a gap. -/
theorem part_ne_nil {quadAllowed : Bool} {texts : List JsString} {groups : List Nat}
    (found : groupValues quadAllowed texts = some groups) : ∀ part ∈ texts, part ≠ [] := by
  refine @groupValues_induction quadAllowed (fun texts _ => ∀ part ∈ texts, part ≠ [])
    ?_ ?_ ?_ ?_ texts groups found
  · intro part inside
    cases inside
  · intro last hex part inside
    rw [List.mem_singleton.mp inside]
    exact isGroup_ne_nil hex
  · intro last allowed address part inside
    rw [List.mem_singleton.mp inside]
    exact isIPv4_ne_nil address
  · intro part second later values hex nonempty other inside
    rcases List.mem_cons.mp inside with rfl | inside
    · exact isGroup_ne_nil hex
    · exact nonempty other inside

/-- Without an empty part there is no gap to cut at. -/
theorem cutGap_of_nonempty {s : JsString} (nonempty : ∀ part ∈ parts s, part ≠ []) : cutGap s = none := by
  unfold parts at nonempty
  split at nonempty
  next empty => rw [empty]; rfl
  next => exact cutGap_of_parts fun part inside => nonempty part (List.mem_of_mem_tail inside)

/-- The parts of a side once its tail was rewritten: a dotted quad became two groups. -/
def rewritten : List JsString → List JsString
  | [] => []
  | [last] =>
      if isIPv4 last then
        (quadGroups last).map hexText
      else [last]
  | part :: parts => part :: rewritten parts

theorem rewritten_cons (part second : JsString) (later : List JsString) :
    rewritten (part :: second :: later) = part :: rewritten (second :: later) := rfl

/-- Only the last part is ever rewritten. -/
theorem rewritten_append (texts : List JsString) (last : JsString) :
    rewritten (texts ++ [last]) = texts ++ rewritten [last] := by
  induction texts with
  | nil => rfl
  | cons part rest ih =>
      cases rest with
      | nil => rfl
      | cons second later =>
          rw [List.cons_append, List.cons_append, rewritten_cons, ← List.cons_append, ih]
          rfl

/-- A group has no dot, so it is no quad. -/
theorem isIPv4_of_isGroup {s : JsString} (group : isGroup s = true) : isIPv4 s = false := by
  rw [isIPv4, splitOn_of_not_mem (dot_not_mem_of_isGroup group)]
  rfl

/-- What an accepted list of parts ends in. -/
theorem last_of_groupValues {quadAllowed : Bool} {texts : List JsString} {last : JsString}
    {groups : List Nat} (found : groupValues quadAllowed (texts ++ [last]) = some groups) :
    isGroup last = true ∨ isIPv4 last = true := by
  induction texts generalizing groups with
  | nil =>
      rw [List.nil_append, groupValues] at found
      split at found
      next group => exact .inl group
      next =>
        split at found
        next quad => exact .inr (Bool.and_eq_true_iff.mp quad).2
        next => cases found
  | cons part rest ih =>
      obtain ⟨second, later, shape⟩ := List.exists_cons_of_ne_nil (List.append_ne_nil_of_right_ne_nil rest
        (List.cons_ne_nil last []))
      rw [List.cons_append, shape, groupValues_cons, ← shape] at found
      split at found
      · obtain ⟨values, here, -⟩ := Option.map_eq_some_iff.mp found
        exact ih here
      · cases found

/-! ### Hexadecimal text is read back -/

theorem isLowerHex_hexDigit : ∀ n : Fin 16, (isDigit (hexDigit n) ||
    (0x61 ≤ (hexDigit n).toNat && (hexDigit n).toNat ≤ 0x66)) = true := by
  decide

/-- A printed group is one that `parseIpv6` accepts. -/
theorem isLowerGroup_hexText {n : Nat} (fits : n < 2 ^ 16) : isLowerGroup (hexText n) = true := by
  have digit (k : Nat) (small : k < 16) : (isDigit (hexDigit k) ||
      (0x61 ≤ (hexDigit k).toNat && (hexDigit k).toNat ≤ 0x66)) = true := isLowerHex_hexDigit ⟨k, small⟩
  unfold hexText isLowerGroup
  split_ifs with one two three
  · simp [digit n (by omega)]
  · simp [digit (n / 0x10) (by omega), digit (n % 0x10) (by omega)]
  · simp [digit (n / 0x100) (by omega), digit (n / 0x10 % 0x10) (by omega), digit (n % 0x10) (by omega)]
  · simp [digit (n / 0x1000) (by omega), digit (n / 0x100 % 0x10) (by omega),
      digit (n / 0x10 % 0x10) (by omega), digit (n % 0x10) (by omega)]

/-- Reading back what was printed, in hexadecimal. -/
theorem digitsValue_hexText {n : Nat} (fits : n < 2 ^ 16) : digitsValue 16 (hexText n) = n := by
  have digit (k : Nat) (small : k < 16) : hexValue (hexDigit k) = some k :=
    hexValue_hexDigit ⟨k, small⟩
  unfold hexText digitsValue
  split_ifs with one two three
  · simp [digit n (by omega)]
  · simp only [List.foldl_cons, List.foldl_nil, digit (n / 0x10) (by omega), digit (n % 0x10) (by omega),
      Option.getD_some]
    omega
  · simp only [List.foldl_cons, List.foldl_nil, digit (n / 0x100) (by omega),
      digit (n / 0x10 % 0x10) (by omega), digit (n % 0x10) (by omega), Option.getD_some]
    omega
  · simp only [List.foldl_cons, List.foldl_nil, digit (n / 0x1000) (by omega),
      digit (n / 0x100 % 0x10) (by omega), digit (n / 0x10 % 0x10) (by omega),
      digit (n % 0x10) (by omega), Option.getD_some]
    omega

theorem colon_not_mem_of_isLowerGroup {s : JsString} (group : isLowerGroup s = true) : colon ∉ s := by
  intro inside
  simp only [isLowerGroup, Bool.and_eq_true, List.all_eq_true] at group
  exact absurd (group.2 colon inside) (by decide)

/-- Lowered, every group of `node:net` is one of `parseIpv6`. -/
theorem isLowerGroup_of_isGroup {s : JsString} (group : isGroup s = true)
    (lowered : ∀ u ∈ s, lowerAscii u = u) : isLowerGroup s = true := by
  simp only [isGroup, Bool.and_eq_true, List.all_eq_true] at group
  simp only [isLowerGroup, Bool.and_eq_true, List.all_eq_true]
  refine ⟨group.1, fun u inside => ?_⟩
  have digit := group.2 u inside
  simp only [hexValue] at digit
  simp only [isDigit, Bool.or_eq_true, Bool.and_eq_true, decide_eq_true_eq]
  rcases lowerAscii_cases u with ⟨other, -⟩ | ⟨-, shifted⟩
  · split_ifs at digit with number lower upper
    · exact .inl number
    · exact .inr lower
    · omega
    · cases digit
  · rw [lowered u inside] at shifted
    omega

/-! ### The rewritten text stands for the same groups -/

/-- After the rewriting all parts are groups, with the values they had before. -/
theorem rewritten_spec {quadAllowed : Bool} {texts : List JsString} {groups : List Nat}
    (found : groupValues quadAllowed texts = some groups)
    (lowered : ∀ part ∈ texts, ∀ u ∈ part, lowerAscii u = u) :
    (rewritten texts).map (digitsValue 16) = groups ∧
      ∀ part ∈ rewritten texts, isLowerGroup part = true := by
  revert lowered
  refine @groupValues_induction quadAllowed (fun texts groups =>
    (∀ part ∈ texts, ∀ u ∈ part, lowerAscii u = u) → (rewritten texts).map (digitsValue 16) = groups ∧
      ∀ part ∈ rewritten texts, isLowerGroup part = true) ?_ ?_ ?_ ?_ texts groups found
  · intro _
    exact ⟨rfl, fun part inside => by cases inside⟩
  · intro last hex lowered
    rw [rewritten, if_neg (by rw [isIPv4_of_isGroup hex]; exact Bool.false_ne_true)]
    refine ⟨rfl, fun part inside => ?_⟩
    rw [List.mem_singleton.mp inside]
    exact isLowerGroup_of_isGroup hex (lowered last List.mem_cons_self)
  · intro last allowed address lowered
    obtain ⟨a, b, c, d, rfl⟩ := exists_of_isIPv4 address
    have high := pair_lt a b
    have low := pair_lt c d
    rw [rewritten, if_pos address, quadGroups_quadText]
    refine ⟨?_, fun part inside => ?_⟩
    · simp only [List.map_cons, List.map_nil, digitsValue_hexText high, digitsValue_hexText low]
    · rcases List.mem_pair.mp inside with rfl | rfl
      · exact isLowerGroup_hexText high
      · exact isLowerGroup_hexText low
  · intro part second later values hex rest lowered
    obtain ⟨same, groups⟩ := rest fun other inside => lowered other (.tail _ inside)
    rw [rewritten_cons]
    refine ⟨by rw [List.map_cons, same], fun other inside => ?_⟩
    rcases List.mem_cons.mp inside with rfl | inside
    · exact isLowerGroup_of_isGroup hex (lowered other List.mem_cons_self)
    · exact groups other inside

/-- Where no dotted quad is allowed nothing is rewritten. -/
theorem rewritten_of_groups {texts : List JsString} {groups : List Nat}
    (found : groupValues false texts = some groups) : rewritten texts = texts := by
  induction texts generalizing groups with
  | nil => rfl
  | cons part rest ih =>
      cases rest with
      | nil =>
          rw [groupValues] at found
          split at found
          next group => rw [rewritten, if_neg (by rw [isIPv4_of_isGroup group]; exact Bool.false_ne_true)]
          next =>
            rw [Bool.false_and, if_neg Bool.false_ne_true] at found
            cases found
      | cons second later =>
          rw [groupValues_cons] at found
          split at found
          · obtain ⟨values, here, -⟩ := Option.map_eq_some_iff.mp found
            rw [rewritten_cons, ih here]
          · cases found

/-- Empty, or up to a colon. -/
def EndsInColon (front : JsString) : Prop := front = [] ∨ ∃ rest, front = rest ++ [colon]

theorem lastPart_append {front last : JsString} (ends : EndsInColon front) (outside : colon ∉ last) :
    lastPart (front ++ last) = last := by
  have whole : ∀ u ∈ last.reverse, decide (u ≠ colon) = true := by
    intro u inside
    exact decide_eq_true fun same => outside (same ▸ List.mem_reverse.mp inside)
  rw [lastPart, List.reverse_append, List.takeWhile_append_of_pos whole]
  have rest : front.reverse.takeWhile (· ≠ colon) = [] := by
    rcases ends with rfl | ⟨rest, rfl⟩
    · rfl
    · rw [List.reverse_append, List.reverse_singleton, List.singleton_append]
      exact List.takeWhile_cons_of_neg (by simp)
  rw [rest, List.append_nil, List.reverse_reverse]

/-- A tail without a dot is left alone. -/
theorem normalizeTail_other {front last : JsString} (ends : EndsInColon front) (outside : colon ∉ last)
    (plain : dot ∉ last) : normalizeTail (front ++ last) = some (front ++ last) := by
  have none : dottedTail (front ++ last) = none := by
    rw [dottedTail, lastPart_append ends outside, splitOn_of_not_mem plain]
    exact if_neg fun quad => absurd quad.1 (by simp)
  rw [normalizeTail, none]

theorem colon_not_mem_quadText (a b c d : Fin 256) : colon ∉ quadText a b c d := by
  have apart : colon ≠ dot := by decide
  have outside : ∀ n : Fin 256, colon ∉ decimalText n := not_mem_decimalText (by decide)
  simp [quadText, apart, outside]

theorem isTail_decimalText (n : Fin 256) : decimalText n ≠ [] ∧ (decimalText n).length ≤ 3 ∧
    (decimalText n).all isDigit = true := by
  have octet := (isOctet_decimalText n)
  simp only [isOctet, Bool.and_eq_true, decide_eq_true_eq] at octet
  exact ⟨octet.1.1.1.1, octet.1.1.1.2, octet.1.1.2⟩

/-- A dotted quad becomes two groups of the same value. -/
theorem normalizeTail_quad {front : JsString} (ends : EndsInColon front) (a b c d : Fin 256) :
    normalizeTail (front ++ quadText a b c d) =
      some (front ++ (hexText (a.val * 2 ^ 8 + b.val) ++ colon :: hexText (c.val * 2 ^ 8 + d.val))) := by
  have found : dottedTail (front ++ quadText a b c d) = some (quadText a b c d) := by
    rw [dottedTail, lastPart_append ends (colon_not_mem_quadText a b c d), splitOn_quadText]
    refine if_pos ⟨rfl, ?_⟩
    simp only [List.all_cons, List.all_nil, isTail_decimalText, and_self, decide_true, Bool.and_self,
      ne_eq, not_false_eq_true]
  have high : quadValue a b c d / 2 ^ 16 % 2 ^ 16 = a.val * 2 ^ 8 + b.val := by
    have fits := pair_lt a b
    have rest := pair_lt c d
    rw [quadValue]
    omega
  have low : quadValue a b c d % 2 ^ 16 = c.val * 2 ^ 8 + d.val := by
    have rest := pair_lt c d
    rw [quadValue]
    omega
  rw [normalizeTail, found]
  simp only [ipv4Number_quadText, Option.map_some, high, low, List.length_append, Nat.add_sub_cancel,
    List.take_left', List.append_assoc, List.singleton_append]

/-- Whatever precedes the last side, rewriting the tail rewrites the parts of that side. -/
theorem normalizeTail_side {front side : JsString} (ends : EndsInColon front) {groups : List Nat}
    (found : groupValues true (parts side) = some groups) :
    ∃ other, normalizeTail (front ++ side) = some (front ++ other) ∧
      parts other = rewritten (parts side) := by
  by_cases empty : side = []
  · subst empty
    exact ⟨[], normalizeTail_other ends List.not_mem_nil List.not_mem_nil, rfl⟩
  obtain ⟨outside, shape⟩ := afterLast_spec colon side
  generalize afterLast colon side = last at outside shape
  -- `before'` is what precedes the last part, and `texts` its parts
  obtain ⟨before', texts, rfl, ends', split, joined⟩ : ∃ before' texts, side = before' ++ last ∧
      EndsInColon (front ++ before') ∧ splitOn colon side = texts ++ [last] ∧
      ∀ high low, colon ∉ high → colon ∉ low → splitOn colon (before' ++ (high ++ colon :: low)) =
        texts ++ [high, low] := by
    rcases shape with rfl | ⟨rest, rfl⟩
    · refine ⟨[], [], rfl, by rwa [List.append_nil], splitOn_of_not_mem outside,
        fun high low left right => ?_⟩
      rw [List.nil_append, splitOn_append left, splitOn_of_not_mem right]
      rfl
    · refine ⟨rest ++ [colon], splitOn colon rest, by simp, .inr ⟨front ++ rest, by simp⟩, ?_,
        fun high low left right => ?_⟩
      · rw [splitOn_append_splitOn, splitOn_of_not_mem outside]
      · rw [List.append_assoc, List.singleton_append, splitOn_append_splitOn, splitOn_append left,
          splitOn_of_not_mem right]
  rw [parts, if_neg empty, split] at found
  rw [parts, if_neg empty, split, rewritten_append, ← List.append_assoc]
  rcases last_of_groupValues found with group | address
  · refine ⟨before' ++ last, ?_, ?_⟩
    · rw [normalizeTail_other ends' outside (dot_not_mem_of_isGroup group), List.append_assoc]
    · rw [parts, if_neg empty, split, rewritten,
        if_neg (by rw [isIPv4_of_isGroup group]; exact Bool.false_ne_true)]
  · obtain ⟨a, b, c, d, rfl⟩ := exists_of_isIPv4 address
    have high := colon_not_mem_of_isLowerGroup (isLowerGroup_hexText (pair_lt a b))
    have low := colon_not_mem_of_isLowerGroup (isLowerGroup_hexText (pair_lt c d))
    refine ⟨before' ++ (hexText (a.val * 2 ^ 8 + b.val) ++ colon :: hexText (c.val * 2 ^ 8 + d.val)), ?_, ?_⟩
    · rw [normalizeTail_quad ends', List.append_assoc]
    · rw [parts, if_neg (by simp), joined _ _ high low, rewritten, if_pos address, quadGroups_quadText]
      rfl

theorem lowered_parts {s : JsString} (lowered : ∀ u ∈ s, lowerAscii u = u) :
    ∀ part ∈ parts s, ∀ u ∈ part, lowerAscii u = u := by
  intro part inside u held
  unfold parts at inside
  split at inside
  · cases inside
  · exact lowered u (of_mem_splitOn inside held).1

/-- The parser's steps on a text in lower case end in texts of these groups. -/
def ReadsAs (body : JsString) (groups : List Nat) : Prop :=
  body ≠ [] ∧ gapCount body ≤ 1 ∧
    ∃ normalized texts, normalizeTail body = some normalized ∧ expandGroups normalized = some texts ∧
      texts.length = 8 ∧ (∀ text ∈ texts, isLowerGroup text = true) ∧ texts.map (digitsValue 16) = groups

/-- A body without a gap is read group by group. -/
theorem reads_whole {body : JsString} {groups : List Nat} (lowered : ∀ u ∈ body, lowerAscii u = u)
    (cut : cutGap body = none) (held : groupValues true (parts body) = some groups)
    (eight : groups.length = 8) : ReadsAs body groups := by
  obtain ⟨other, tail, texts⟩ := normalizeTail_side (.inl rfl) held
  obtain ⟨same, lower⟩ := rewritten_spec held (lowered_parts lowered)
  rw [← texts] at same lower
  have long : (parts other).length = 8 := by rw [← eight, ← same, List.length_map]
  have whole : cutGap other = none := by
    refine cutGap_of_nonempty fun part inside => ?_
    rintro rfl
    cases lower [] inside
  refine ⟨?_, ?_, other, parts other, tail, ?_, long, lower, same⟩
  · rintro rfl
    cases held
    cases eight
  · rw [gapCount_of_cutGap, cut]
    exact Nat.zero_le 1
  · rw [expandGroups, whole]
    exact if_pos long

/-- A body with a gap is read on both sides, with zeros between them. -/
theorem reads_gap {body left right : JsString} {front back : List Nat}
    (lowered : ∀ u ∈ body, lowerAscii u = u) (cut : cutGap body = some (left, right))
    (heldLeft : groupValues false (parts left) = some front)
    (heldRight : groupValues true (parts right) = some back) (room : front.length + back.length ≤ 7) :
    ReadsAs body (front ++ List.replicate (8 - (front.length + back.length)) 0 ++ back) := by
  have shape := eq_of_cutGap cut
  have ends : EndsInColon (left ++ [colon, colon]) := .inr ⟨left ++ [colon], by simp⟩
  obtain ⟨other, tail, texts⟩ := normalizeTail_side ends heldRight
  have inLeft : ∀ u ∈ left, lowerAscii u = u := fun u inside => lowered u (by simp [shape, inside])
  have inRight : ∀ u ∈ right, lowerAscii u = u := fun u inside => lowered u (by simp [shape, inside])
  -- the left side ends in no dotted quad, so its parts stay
  obtain ⟨same, lower⟩ := rewritten_spec heldLeft (lowered_parts inLeft)
  rw [rewritten_of_groups heldLeft] at same lower
  obtain ⟨same', lower'⟩ := rewritten_spec heldRight (lowered_parts inRight)
  rw [← texts] at same' lower'
  have given : (parts left).length + (parts other).length = front.length + back.length := by
    rw [← same, ← same', List.length_map, List.length_map]
  have normalized : normalizeTail body = some (left ++ colon :: colon :: other) := by
    rw [shape]
    simpa using tail
  have expanded : expandGroups (left ++ colon :: colon :: other) =
      some (parts left ++ List.replicate (8 - (front.length + back.length)) [0x30] ++ parts other) := by
    rw [expandGroups, cutGap_append cut, ← given]
    exact if_neg (by omega)
  refine ⟨?_, ?_, _, _, normalized, expanded, ?_, ?_, ?_⟩
  · rw [shape]
    simp
  · have none : cutGap right = none := cutGap_of_nonempty (part_ne_nil heldRight)
    rw [gapCount_of_cutGap, cut, Option.elim_some, gapCount_of_cutGap, none]
    exact le_refl 1
  · simp only [List.length_append, List.length_replicate]
    omega
  · intro text inside
    simp only [List.mem_append, List.mem_replicate] at inside
    rcases inside with (inside | ⟨-, rfl⟩) | inside
    · exact lower text inside
    · rfl
    · exact lower' text inside
  · have zero : digitsValue 16 [0x30] = 0 := by decide
    rw [List.map_append, List.map_append, List.map_replicate, same, same', zero]

/-- An accepted text in lower case is read as the groups it stands for. -/
theorem reads_body {body : JsString} {groups : List Nat} (lowered : ∀ u ∈ body, lowerAscii u = u)
    (found : bodyGroups body = some groups) : ReadsAs body groups := by
  rcases of_bodyGroups found with
    ⟨cut, held, eight⟩ | ⟨left, right, front, back, cut, heldLeft, heldRight, room, rfl⟩
  · exact reads_whole lowered cut held eight
  · exact reads_gap lowered cut heldLeft heldRight room

theorem lowerAscii_lowerAscii (u : UInt16) : lowerAscii (lowerAscii u) = lowerAscii u := by
  rcases lowerAscii_cases (lowerAscii u) with ⟨-, same⟩ | ⟨upper, -⟩
  · exact same
  · rcases lowerAscii_cases u with ⟨other, same⟩ | ⟨letter, shifted⟩
    · rw [same] at upper
      exact absurd upper other
    · omega

/-- The zone is cut off at the percent sign, in either case. -/
theorem before_lower (s : JsString) :
    before percent (s.map lowerAscii) = (before percent s).map lowerAscii := by
  have same : (fun u => decide (u ≠ percent)) ∘ lowerAscii = fun u => decide (u ≠ percent) := by
    funext u
    exact decide_eq_decide.mpr (lowerAscii_eq_iff (by decide) (by decide) u).not
  rw [before, List.takeWhile_map, same, before]

theorem flatMap_groupBytes (texts : List JsString) :
    texts.flatMap groupBytes = bytesOf (texts.map (digitsValue 16)) := by
  rw [bytesOf, List.flatMap_map]
  rfl

/-- The parser answers the bytes of the groups that a text stands for. -/
theorem parseIpv6_eq {address : JsString} {groups : List Nat} (found : ipv6Groups address = some groups) :
    parseIpv6 address = some (bytesOf groups) := by
  have lowered : ∀ u ∈ (before percent address).map lowerAscii, lowerAscii u = u := by
    intro u inside
    obtain ⟨v, -, rfl⟩ := List.mem_map.mp inside
    exact lowerAscii_lowerAscii v
  obtain ⟨nonempty, few, normalized, texts, tail, expanded, eight, lower, same⟩ :=
    reads_body lowered ((bodyGroups_lower _).trans found)
  have passes : ¬(texts.length ≠ 8 ∨ (!texts.all isLowerGroup) = true) := by
    rintro (other | other)
    · exact other eight
    · rw [List.all_eq_true.mpr lower] at other
      cases other
  unfold parseIpv6
  simp only [before_lower]
  rw [if_neg (by rintro (empty | many); exacts [nonempty empty, absurd few (not_le.mpr many)]), tail]
  simp only [Option.bind_eq_bind, Option.bind_some, expanded]
  rw [if_neg passes, flatMap_groupBytes, same]

/-- What `node:net` takes for an IPv6 address has eight groups. -/
theorem exists_groups {address : JsString} (six : isIP address = 6) :
    ∃ groups, ipv6Groups address = some groups ∧ groups.length = 8 := by
  have accepted : isIPv6 address = true := by
    unfold isIP at six
    split at six
    · cases six
    · split at six
      · assumption
      · cases six
  have body : isIPv6Body (before percent address) = true := by
    rw [isIPv6, Bool.and_eq_true] at accepted
    exact accepted.1
  rw [isIPv6Body_eq, Option.isSome_iff_exists] at body
  obtain ⟨groups, found⟩ := body
  exact ⟨groups, found, length_of_bodyGroups found⟩

end SdcoreNest.RemoteFetch
