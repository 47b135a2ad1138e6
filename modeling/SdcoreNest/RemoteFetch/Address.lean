/-
# RemoteFetch.Address -- which textual addresses are public

`isIP` is the grammar of `net.isIP`.  The classifiers below it are the fetcher's own: an
address is read from its text a second time, into a 32-bit number or 16 bytes, and compared
with the blocked ranges.
-/
import SdcoreNest.Theory.JsNumber

namespace SdcoreNest.RemoteFetch

open SdcoreNest.Theory SdcoreNest.Theory.JsString

set_option autoImplicit false

/-- The code units of `.`, `:` and `%`. -/
def dot : UInt16 := 0x2E

def colon : UInt16 := 0x3A

def percent : UInt16 := 0x25

/-! ## `net.isIP` -/

/-- One part of a dotted quad: `0` to `255`, without leading zeros. -/
def isOctet (s : JsString) : Bool :=
  s ≠ [] && s.length ≤ 3 && s.all isDigit && digitsValue 10 s ≤ 255 &&
    (s.length = 1 || s.head? ≠ some 0x30)

def isIPv4 (s : JsString) : Bool :=
  (splitOn dot s).length = 4 && (splitOn dot s).all isOctet

/-- One group of an IPv6 address: one to four hexadecimal digits. -/
def isGroup (s : JsString) : Bool :=
  s ≠ [] && s.length ≤ 4 && s.all fun u => (hexValue u).isSome

/-- How many groups a list of parts stands for, if each is a group; the last may be a dotted
quad, which stands for two. -/
def groupCount (quadAllowed : Bool) : List JsString → Option Nat
  | [] => some 0
  | [last] =>
      if isGroup last then some 1
      else if quadAllowed && isIPv4 last then some 2
      else none
  | part :: parts =>
      if isGroup part then (groupCount quadAllowed parts).map (· + 1) else none

/-- Cut at the first `::`. -/
def cutGap : JsString → Option (JsString × JsString)
  | [] => none
  | [_] => none
  | u :: v :: rest =>
      if u = colon ∧ v = colon then some ([], rest)
      else (cutGap (v :: rest)).map fun (left, right) => (u :: left, right)

/-- The parts between the colons of one side of the gap. -/
def parts (s : JsString) : List JsString := if s = [] then [] else splitOn colon s

def isIPv6Body (s : JsString) : Bool :=
  match cutGap s with
  | none => groupCount true (parts s) = some 8
  | some (left, right) =>
      match groupCount false (parts left), groupCount true (parts right) with
      | some n, some m => n + m ≤ 7
      | _, _ => false

/-- The characters of a zone suffix. -/
def isZoneUnit (u : UInt16) : Bool :=
  let n := u.toNat
  isDigit u || (0x61 ≤ n && n ≤ 0x7A) || (0x41 ≤ n && n ≤ 0x5A) || n = 0x2D || u = dot || u = colon

def isIPv6 (s : JsString) : Bool :=
  let body := before percent s
  let zone := s.drop body.length
  isIPv6Body body && (zone = [] || (1 < zone.length && (zone.drop 1).all isZoneUnit))

/-- `net.isIP`: the family of an address, or 0. -/
def isIP (s : JsString) : Nat := if isIPv4 s then 4 else if isIPv6 s then 6 else 0

/-! ## IPv4 -/

/-- An integer from 0 to 255 as a number. -/
def octet? : JsNumber → Option Nat
  | .finite value => if value.den = 1 ∧ 0 ≤ value ∧ value ≤ 255 then some value.num.toNat else none
  | _ => none

def ipv4Number (address : JsString) : Option Nat :=
  match (splitOn dot address).map fun part => octet? (.ofText part) with
  | [some a, some b, some c, some d] => some (a * 2 ^ 24 + b * 2 ^ 16 + c * 2 ^ 8 + d)
  | _ => none

def inIpv4Range (value base bits : Nat) : Bool :=
  let mask := if bits = 0 then 0 else 2 ^ 32 - 2 ^ (32 - bits)
  value &&& mask = base &&& mask

def blockedIpv4 : List (JsString × Nat) :=
  [(js "0.0.0.0", 8), (js "10.0.0.0", 8), (js "100.64.0.0", 10), (js "127.0.0.0", 8),
    (js "169.254.0.0", 16), (js "172.16.0.0", 12), (js "192.0.0.0", 24), (js "192.0.2.0", 24),
    (js "192.88.99.0", 24), (js "192.168.0.0", 16), (js "198.18.0.0", 15),
    (js "198.51.100.0", 24), (js "203.0.113.0", 24), (js "224.0.0.0", 4), (js "240.0.0.0", 4)]

def isPublicIpv4 (address : JsString) : Bool :=
  match ipv4Number address with
  | none => false
  | some value => !blockedIpv4.any fun (base, bits) =>
      inIpv4Range value ((ipv4Number base).getD 0) bits

/-! ## IPv6 -/

/-- How many `::` there are, none overlapping another. -/
def gapCount : JsString → Nat
  | [] => 0
  | [_] => 0
  | u :: v :: rest =>
      if u = colon ∧ v = colon then gapCount rest + 1 else gapCount (v :: rest)

/-- The text after the last colon. -/
def lastPart (s : JsString) : JsString := (s.reverse.takeWhile (· ≠ colon)).reverse

/-- A dotted quad at the end, in one to three digits a part. -/
def dottedTail (s : JsString) : Option JsString :=
  let quad := splitOn dot (lastPart s)
  if quad.length = 4 ∧ quad.all fun part => part ≠ [] ∧ part.length ≤ 3 ∧ part.all isDigit then
    some (lastPart s)
  else none

/-- A dotted quad at the end, written as two groups. -/
def normalizeTail (s : JsString) : Option JsString :=
  match dottedTail s with
  | none => some s
  | some dotted => (ipv4Number dotted).map fun ipv4 =>
      s.take (s.length - dotted.length) ++ hexText (ipv4 / 2 ^ 16 % 2 ^ 16) ++ [colon] ++
        hexText (ipv4 % 2 ^ 16)

def groupBytes (group : JsString) : List Nat :=
  [digitsValue 16 group / 2 ^ 8, digitsValue 16 group % 2 ^ 8]

/-- A group in lower case. -/
def isLowerGroup (s : JsString) : Bool :=
  s ≠ [] && s.length ≤ 4 && s.all fun u =>
    isDigit u || (0x61 ≤ u.toNat && u.toNat ≤ 0x66)

/-- The eight groups that a normalized text stands for. -/
def expandGroups (normalized : JsString) : Option (List JsString) :=
  match cutGap normalized with
  | none => if (parts normalized).length = 8 then some (parts normalized) else none
  | some (left, right) =>
      -- a second gap was refused before, so what follows the first is all of the right side
      let given := (parts left).length + (parts right).length
      if 8 < given then none
      else some (parts left ++ List.replicate (8 - given) [0x30] ++ parts right)

/-- Letters outside ASCII never reach this function: `isIP` admits none. -/
def parseIpv6 (address : JsString) : Option (List Nat) :=
  let value := before percent (address.map lowerAscii)
  if value = [] ∨ 1 < gapCount value then none
  else do
    let normalized ← normalizeTail value
    let groups ← expandGroups normalized
    if groups.length ≠ 8 ∨ !groups.all isLowerGroup then none
    else some (groups.flatMap groupBytes)

def startsWithBytes (bytes : List Nat) (start : List Nat) : Bool := bytes.take start.length = start

/-- The byte at an index of a 16-byte address. -/
def byte (bytes : List Nat) (index : Nat) : Nat := bytes.getD index 0

def isPublicIpv6 (address : JsString) : Bool :=
  match parseIpv6 address with
  | none => false
  | some bytes =>
      if bytes.all (· = 0) then false
      else if (bytes.take 15).all (· = 0) && byte bytes 15 = 1 then false
      else if (bytes.take 10).all (· = 0) && byte bytes 10 = 0xff && byte bytes 11 = 0xff then
        isPublicIpv4 (decimalText (byte bytes 12) ++ [dot] ++ decimalText (byte bytes 13) ++ [dot] ++
          decimalText (byte bytes 14) ++ [dot] ++ decimalText (byte bytes 15))
      else if byte bytes 0 &&& 0xfe = 0xfc || (byte bytes 0 = 0xfe && byte bytes 1 &&& 0xc0 = 0x80) ||
        byte bytes 0 = 0xff then false
      else if startsWithBytes bytes [0x20, 0x01, 0x0d, 0xb8] ||
        startsWithBytes bytes [0x20, 0x01, 0x00, 0x02] then false
      else if startsWithBytes bytes [0x00, 0x64, 0xff, 0x9b] ||
        startsWithBytes bytes [0x20, 0x01, 0x00, 0x00] then false
      else if startsWithBytes bytes [0x20, 0x02] then false
      else byte bytes 0 &&& 0xe0 = 0x20

def isPublicNetworkAddress (address : JsString) : Bool :=
  if isIP address = 4 then isPublicIpv4 address
  else if isIP address = 6 then isPublicIpv6 address
  else false

end SdcoreNest.RemoteFetch
