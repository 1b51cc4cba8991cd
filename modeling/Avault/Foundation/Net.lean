import Avault.Error
import Mathlib.Data.Nat.Notation

/-! The parts of `std` that the request checks use: ASCII case, white space, and IP addresses. -/
namespace Avault.Foundation

/-- `str::eq_ignore_ascii_case`. -/
def eqIgnoreAsciiCase (a b : String) : Bool := a.toList.map Char.toLower == b.toList.map Char.toLower

/-- `str::to_ascii_uppercase`. -/
def toAsciiUppercase (s : String) : String := String.ofList (s.toList.map Char.toUpper)

/-- `char::is_whitespace`: the White_Space property. -/
def isWhitespace (c : Char) : Bool :=
  ('\t' ≤ c && c ≤ '\r') || c == ' ' || c == '\u0085' || c == '\u00a0' || c == '\u1680' ||
    ('\u2000' ≤ c && c ≤ '\u200a') || c == '\u2028' || c == '\u2029' || c == '\u202f' ||
    c == '\u205f' || c == '\u3000'

/-- `str::trim`. -/
def trim (s : String) : String :=
  String.ofList (((s.toList.dropWhile isWhitespace).reverse.dropWhile isWhitespace).reverse)

abbrev Ipv4Addr := Vector UInt8 4
abbrev Ipv6Addr := Vector UInt16 8

namespace Ipv4Addr

def isLoopback (addr : Ipv4Addr) : Bool := addr[0] == 127

def toText (addr : Ipv4Addr) : String := ".".intercalate (addr.toList.map fun octet => toString octet.toNat)

end Ipv4Addr

namespace Ipv6Addr

def isLoopback (addr : Ipv6Addr) : Bool := addr.toList == [0,0,0,0,0,0,0,1]

/-- A run of zero segments, by its start and its length. -/
structure Span where
  start : ℕ
  len : ℕ

/-- The first of the longest runs of zeros. -/
def longestZeros (segments : List UInt16) : Span :=
  (segments.zipIdx.foldl (fun (longest,current) (segment,i) =>
    if segment = 0 then
      let current : Span := ⟨if current.len = 0 then i else current.start,current.len+1⟩
      (if longest.len < current.len then current else longest,current)
    else (longest,⟨0,0⟩)) ((⟨0,0⟩,⟨0,0⟩) : Span × Span)).1

def segmentsText (segments : List UInt16) : String :=
  ":".intercalate (segments.map fun segment => String.ofList (Nat.toDigits 16 segment.toNat))

def toText (addr : Ipv6Addr) : String :=
  -- an IPv4-mapped address shows the IPv4 address
  if addr.toList.take 6 = [0,0,0,0,0,0xffff] then
    "::ffff:" ++ Ipv4Addr.toText #v[(addr[6] >>> 8).toUInt8,addr[6].toUInt8,
      (addr[7] >>> 8).toUInt8,addr[7].toUInt8]
  else
    let zeroes := longestZeros addr.toList
    if zeroes.len > 1 then
      segmentsText (addr.toList.take zeroes.start) ++ "::" ++
        segmentsText (addr.toList.drop (zeroes.start+zeroes.len))
    else segmentsText addr.toList

end Ipv6Addr

/-! `Ipv6Addr::from_str`. A reader returns what it has read and what is left. -/

abbrev Reader (α : Type) := List Char → Option (α × List Char)

def digitValue (radix : ℕ) (c : Char) : Option ℕ :=
  let value :=
    if c.isDigit then some (c.toNat - '0'.toNat)
    else if 'a' ≤ c ∧ c ≤ 'f' then some (c.toNat - 'a'.toNat+10)
    else if 'A' ≤ c ∧ c ≤ 'F' then some (c.toNat - 'A'.toNat+10)
    else none
  value.filter (· < radix)

/-- The digits at the front, at least one and at most `maxDigits`. -/
def readNumber (radix maxDigits bound : ℕ) (allowZeroPrefix : Bool) : Reader ℕ := fun text =>
  let digits := text.takeWhile fun c => (digitValue radix c).isSome
  let value := digits.foldl (fun value c => value*radix+(digitValue radix c).getD 0) 0
  if digits = [] ∨ maxDigits < digits.length ∨ bound ≤ value then none
  else if ¬ allowZeroPrefix ∧ digits.head? = some '0' ∧ 1 < digits.length then none
  else some (value,text.drop digits.length)

def readGivenChar (c : Char) : Reader Unit
  | [] => none
  | d::text => if d = c then some ((),text) else none

/-- Before the first item there is no separator. -/
def readSeparator {α : Type} (sep : Char) (index : ℕ) (inner : Reader α) : Reader α := fun text =>
  if index = 0 then inner text
  else (readGivenChar sep text).bind fun (_,text) => inner text

def readIpv4Addr : Reader (List ℕ) := fun text =>
  (List.range 4).foldlM (m := Option) (fun (octets,text) index =>
    (readSeparator '.' index (readNumber 10 3 256 false) text).map fun (octet,text) =>
      (octets ++ [octet],text)) ([],text)

/-- Up to `limit` groups from number `index` on, and whether the last two came as an IPv4 address. -/
def readGroups (limit : ℕ) : ℕ → ℕ → List Char → List ℕ × Bool × List Char
  | 0,_,text => ([],false,text)
  | n+1,index,text =>
    match if index+1 < limit then readSeparator ':' index readIpv4Addr text else none with
    | some ([a,b,c,d],text) => ([a*256+b,c*256+d],true,text)
    | _ =>
      match readSeparator ':' index (readNumber 16 4 65536 true) text with
      | none => ([],false,text)
      | some (group,text) =>
        let (groups,ipv4,text) := readGroups limit n (index+1) text
        (group::groups,ipv4,text)

def parseIpv6Addr (text : String) : Option (List ℕ) :=
  let (head,headIpv4,text) := readGroups 8 8 0 text.toList
  if head.length = 8 then if text = [] then some head else none
  else if headIpv4 then none
  else do
    let (_,text) ← readGivenChar ':' text
    let (_,text) ← readGivenChar ':' text
    let limit := 8-(head.length+1)
    let (tail,_,text) := readGroups limit limit 0 text
    if text = [] then some (head ++ List.replicate (8-head.length-tail.length) 0 ++ tail) else none

end Avault.Foundation
