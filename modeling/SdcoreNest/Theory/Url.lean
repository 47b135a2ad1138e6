/-
# Theory.Url -- the origin of a URL

The URL parser of the WHATWG standard, as far as scheme, host and port go: white space at the
ends and tabs and line breaks anywhere are dropped, a backslash separates like a slash in a
special scheme, and a special scheme needs no slashes at all.  Paths, queries and fragments
decide nothing here and are dropped.  What a host text stands for (percent-decoding, domain to
ASCII, IPv4 and IPv6) is the parameter `parseHost`.
-/
import Mathlib

namespace SdcoreNest.Theory

set_option autoImplicit false

structure Url where
  scheme : String
  host : Option String
  port : Option Nat
  opaquePath : Bool := false
deriving DecidableEq, Repr

namespace Url

/-! ## Characters -/

/-- The special schemes and their default ports. -/
def specialSchemes : List (String × Option Nat) :=
  [("ftp", some 21), ("file", none), ("http", some 80), ("https", some 443), ("ws", some 80),
    ("wss", some 443)]

def isSpecial (scheme : String) : Bool := (specialSchemes.lookup scheme).isSome

/-- C0 control or space. -/
def isControlOrSpace (c : Char) : Bool := decide (c.toNat ≤ 0x20)

def isTabOrNewline (c : Char) : Bool := c = '\t' || c = '\n' || c = '\r'

def isSchemeChar (c : Char) : Bool := c.isAlphanum || c = '+' || c = '-' || c = '.'

def isSlash (c : Char) : Bool := c = '/' || c = '\\'

/-- The text that the states of the parser read. -/
def clean (input : List Char) : List Char :=
  ((((input.dropWhile isControlOrSpace).reverse.dropWhile isControlOrSpace).reverse).filter
    fun c => !isTabOrNewline c)

/-- The scheme in front of a colon, in lower case, and what follows the colon. -/
def schemeOf (text : List Char) : Option (String × List Char) :=
  match text.head?, text.dropWhile isSchemeChar with
  | some first, ':' :: rest =>
      if first.isAlpha then
        some (String.ofList ((text.takeWhile isSchemeChar).map Char.toLower), rest)
      else none
  | _, _ => none

/-! ## Authorities -/

section

variable (parseHost : Bool → List Char → Option String)

/-- The end of an authority. -/
def endsAuthority (special : Bool) (c : Char) : Bool :=
  c = '/' || c = '?' || c = '#' || (special && c = '\\')

/-- Host and port text: a colon inside brackets does not separate. -/
def splitPort (inside : Bool) : List Char → List Char × Option (List Char)
  | [] => ([], none)
  | c :: rest =>
      if c = ':' ∧ ¬inside then ([], some rest)
      else
        let (host, port) := splitPort (if c = '[' then true else if c = ']' then false else inside) rest
        (c :: host, port)

/-- The port of a scheme: `some none` is the default one. -/
def parsePort (scheme : String) (text : List Char) : Option (Option Nat) :=
  if text.all Char.isDigit then
    let value := text.foldl (fun total c => total * 10 + (c.toNat - 48)) 0
    if text = [] then some none
    else if value > 65535 then none
    else if specialSchemes.lookup scheme = some (some value) then some none
    else some (some value)
  else none

/-- The authority state, with the host and port states. -/
def parseAuthority (scheme : String) (text : List Char) : Option Url :=
  let special := isSpecial scheme
  let authority := text.takeWhile fun c => !endsAuthority special c
  let hostPort := (authority.reverse.takeWhile (· ≠ '@')).reverse
  if '@' ∈ authority ∧ hostPort = [] then none
  else
    let (host, port) := splitPort false hostPort
    if host = [] ∧ (special ∨ port.isSome) then none
    else
      match (if host = [] then some "" else parseHost special host), parsePort scheme (port.getD []) with
      | some host, some port => some { scheme, host := some host, port }
      | _, _ => none

/-- The file states: only the host of a `file:` URL can be wrong. -/
def parseFile (text : List Char) : Option Url :=
  match text with
  | first :: second :: rest =>
      if isSlash first && isSlash second then
        match rest.takeWhile fun c => !endsAuthority true c with
        | [] => some { scheme := "file", host := some "", port := none }
        | [letter, mark] =>
            if letter.isAlpha && (mark = ':' || mark = '|') then
              some { scheme := "file", host := some "", port := none }
            else (parseHost true [letter, mark]).map fun host => { scheme := "file", host, port := none }
        | host => (parseHost true host).map fun host => { scheme := "file", host, port := none }
      else some { scheme := "file", host := some "", port := none }
  | _ => some { scheme := "file", host := some "", port := none }

/-- The relative states: two slashes name another authority, anything else stays with the base. -/
def parseRelative (base : Url) (text : List Char) : Option Url :=
  match isSpecial base.scheme, text with
  | true, first :: second :: rest =>
      if isSlash first && isSlash second then
        parseAuthority parseHost base.scheme (rest.dropWhile isSlash)
      else some base
  | false, '/' :: '/' :: rest => parseAuthority parseHost base.scheme rest
  | _, _ => some base

/-- `new URL(input, base)` -/
def parse (base : Option Url) (input : List Char) : Option Url :=
  match schemeOf (clean input) with
  | some (scheme, rest) =>
      if scheme = "file" then parseFile parseHost rest
      else if isSpecial scheme then
        match base with
        | some base =>
            if base.scheme = scheme ∧ ¬['/', '/'].isPrefixOf rest then parseRelative parseHost base rest
            else parseAuthority parseHost scheme (rest.dropWhile isSlash)
        | none => parseAuthority parseHost scheme (rest.dropWhile isSlash)
      else
        match rest with
        | '/' :: '/' :: rest => parseAuthority parseHost scheme rest
        | '/' :: _ => some { scheme, host := none, port := none }
        | _ => some { scheme, host := none, port := none, opaquePath := true }
  | none =>
      match base with
      | none => none
      | some base =>
          if base.opaquePath then if (clean input).head? = some '#' then some base else none
          else if base.scheme = "file" then parseFile parseHost (clean input)
          else parseRelative parseHost base (clean input)

end

/-- `origin`: only a special scheme has one; that of a `file:` URL is opaque, too. -/
def origin (url : Url) : String :=
  if isSpecial url.scheme ∧ url.scheme ≠ "file" then
    url.scheme ++ "://" ++ url.host.getD "" ++
      match url.port with
      | none => ""
      | some port => ":" ++ toString port
  else "null"

/-- The origin of a URL that an HTTP request can be sent to. -/
def httpOrigin (url : Url) : Option String :=
  if url.scheme = "http" ∨ url.scheme = "https" then some url.origin else none

/-! ## A URL with an authority of its own -/

theorem clean_append {front : List Char} (tail : List Char) (nonempty : front ≠ [])
    (plain : ∀ c ∈ front, isControlOrSpace c = false) :
    ∃ tail', clean (front ++ tail) = front ++ tail' := by
  have unspaced : (front ++ tail).dropWhile isControlOrSpace = front ++ tail := by
    cases front with
    | nil => exact absurd rfl nonempty
    | cons c rest => simp [plain c List.mem_cons_self]
  have back : front.reverse.dropWhile isControlOrSpace = front.reverse := by
    cases shape : front.reverse with
    | nil => rfl
    | cons c rest =>
        have inside : c ∈ front := by
          rw [← List.mem_reverse, shape]
          exact List.mem_cons_self
        simp [plain c inside]
  have kept : front.filter (fun c => !isTabOrNewline c) = front := by
    refine List.filter_eq_self.mpr fun c inside => ?_
    have above := plain c inside
    simp only [isControlOrSpace, decide_eq_false_iff_not, not_le] at above
    have different : ∀ d : Char, d.toNat ≤ 0x20 → c ≠ d := by
      rintro d low rfl
      omega
    simp [isTabOrNewline, different '\t' (by decide), different '\n' (by decide),
      different '\r' (by decide)]
  unfold clean
  rw [unspaced, List.reverse_append, List.dropWhile_append]
  split
  · rw [back, List.reverse_reverse, kept]
    exact ⟨[], (List.append_nil front).symm⟩
  · rw [List.reverse_append, List.reverse_reverse, List.filter_append, kept]
    exact ⟨_, rfl⟩

theorem schemeOf_eq_some {text rest : List Char} {scheme : String}
    (read : schemeOf text = some (scheme, rest)) :
    ∃ first body, text = first :: body ++ ':' :: rest ∧ first.isAlpha = true ∧
      (∀ c ∈ body, isSchemeChar c = true) ∧
      scheme = String.ofList ((first :: body).map Char.toLower) := by
  unfold schemeOf at read
  split at read
  next first rest' head after =>
    split at read
    next alpha =>
      cases read
      obtain ⟨others, rfl⟩ : ∃ others, text = first :: others := by
        cases text with
        | nil => cases head
        | cons c others => exact ⟨others, by rw [Option.some.inj head]⟩
      have letter : isSchemeChar first = true := by
        simp [isSchemeChar, Char.isAlphanum, alpha]
      have taken : (first :: others).takeWhile isSchemeChar = first :: others.takeWhile isSchemeChar :=
        List.takeWhile_cons_of_pos letter
      refine ⟨first, others.takeWhile isSchemeChar, ?_, alpha, fun c => List.mem_takeWhile_imp, ?_⟩
      · rw [← taken, ← after, List.takeWhile_append_dropWhile]
      · rw [taken]
    next => cases read
  next => cases read

theorem schemeOf_append {first : Char} {body : List Char} (rest : List Char)
    (alpha : first.isAlpha = true) (plain : ∀ c ∈ body, isSchemeChar c = true) :
    schemeOf (first :: body ++ ':' :: rest) =
      some (String.ofList ((first :: body).map Char.toLower), rest) := by
  have letters : ∀ c ∈ first :: body, isSchemeChar c = true := by
    intro c inside
    rcases List.mem_cons.mp inside with rfl | later
    · simp [isSchemeChar, Char.isAlphanum, alpha]
    · exact plain c later
  have colon : isSchemeChar ':' = false := by decide
  unfold schemeOf
  rw [List.takeWhile_append_of_pos letters, List.dropWhile_append_of_pos letters,
    List.takeWhile_cons_of_neg (by simp [colon]), List.dropWhile_cons_of_neg (by simp [colon]),
    List.append_nil]
  simp [alpha]

theorem isSchemeChar_plain {c : Char} (inside : isSchemeChar c = true) : isControlOrSpace c = false := by
  simp only [isSchemeChar, Char.isAlphanum, Char.isAlpha, Char.isUpper, Char.isLower, Char.isDigit,
    Bool.or_eq_true, decide_eq_true_eq, UInt32.le_iff_toNat_le, ge_iff_le, Bool.and_eq_true] at inside
  have above : 0x20 < c.toNat := by
    change 0x20 < c.val.toNat
    rcases inside with ((letter | rfl) | rfl) | rfl
    · simp only [Char.reduceVal, UInt32.reduceToNat] at letter
      omega
    · decide
    · decide
    · decide
  simpa [isControlOrSpace] using above

theorem marks_plain {c : Char} (mark : c = ':' ∨ c = '/') : isControlOrSpace c = false := by
  rcases mark with rfl | rfl
  · decide
  · decide

/-- A scheme with two slashes survives the cleaning of the text. -/
theorem schemeOf_clean {text rest : List Char} {scheme : String}
    (read : schemeOf text = some (scheme, '/' :: '/' :: rest)) :
    ∃ rest', schemeOf (clean text) = some (scheme, '/' :: '/' :: rest') := by
  obtain ⟨first, body, rfl, alpha, plain, rfl⟩ := schemeOf_eq_some read
  have visible : ∀ c ∈ first :: body ++ [':', '/', '/'], isControlOrSpace c = false := by
    intro c inside
    rcases List.mem_append.mp inside with letters | marks
    · rcases List.mem_cons.mp letters with rfl | later
      · exact isSchemeChar_plain (by simp [isSchemeChar, Char.isAlphanum, alpha])
      · exact isSchemeChar_plain (plain c later)
    · exact marks_plain (by simpa using marks)
  obtain ⟨tail, cleaned⟩ := @clean_append (first :: body ++ [':', '/', '/']) rest (by simp) visible
  refine ⟨tail, ?_⟩
  have same : first :: body ++ ':' :: '/' :: '/' :: rest =
      first :: body ++ [':', '/', '/'] ++ rest := by simp
  rw [same, cleaned, ← schemeOf_append _ alpha plain]
  simp

/-- A text that begins with two slashes is no URL of its own. -/
theorem parse_slashes {parseHost : Bool → List Char → Option String} (rest : List Char) :
    parse parseHost none ('/' :: '/' :: rest) = none := by
  obtain ⟨tail, cleaned⟩ := @clean_append ['/', '/'] rest (by simp) fun c inside =>
    marks_plain (.inr (by simpa using inside))
  have unread : schemeOf (clean ('/' :: '/' :: rest)) = none := by
    change schemeOf (clean (['/', '/'] ++ rest)) = none
    rw [cleaned]
    unfold schemeOf
    split
    next first _ head _ =>
      rw [if_neg]
      rw [← Option.some.inj head]
      decide
    next => rfl
  unfold parse
  rw [unread]

/-- A base decides nothing where the text has an authority of its own. -/
theorem parse_absolute {parseHost : Bool → List Char → Option String} {text rest : List Char}
    {scheme : String} (read : schemeOf text = some (scheme, '/' :: '/' :: rest)) (base : Option Url) :
    parse parseHost base text = parse parseHost none text := by
  obtain ⟨rest', cleaned⟩ := schemeOf_clean read
  unfold parse
  rw [cleaned]
  cases base with
  | none => rfl
  | some base => simp

end Url

end SdcoreNest.Theory
