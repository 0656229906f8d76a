import OllamaQueueProxy.Library.Cut
import OllamaQueueProxy.Library.Unicode

/-!
# Addresses

IPv4 and IPv6 addresses with their texts, and the networks of the addresses that have a prefix.
A network is an interval of addresses (`Prefix.covers_iff`).
-/

open Json (Text text)
open Ascii

inductive IpAddress where
  | v4 (ip : BitVec 32)
  | v6 (ip : BitVec 128) (scopeId : Option Text)
  deriving DecidableEq

namespace IpAddress

/-- The IPv4 address with four octets. -/
def quad (a b c d : ℕ) : BitVec 32 := BitVec.ofNat 32 (((a * 256 + b) * 256 + c) * 256 + d)

/-! ### Reading -/

/-- The value of a text of decimal digits. -/
def decimalValue (digits : Text) : ℕ := digits.foldl (fun n c => 10 * n + (c - 48)) 0

/-- A decimal number below 256 without leading zeros. -/
def octet? (t : Text) : Option ℕ :=
  if t ≠ [] ∧ t.all isAsciiDigit = true ∧ t.length ≤ 3 ∧ (t = text "0" ∨ t.head? ≠ some 48)
      ∧ decimalValue t ≤ 255 then
    some (decimalValue t)
  else none

def parseV4? (t : Text) : Option (BitVec 32) :=
  if slash ∈ t then none
  else match t.splitOn dot with
    | [a, b, c, d] => do
        let a ← octet? a
        let b ← octet? b
        let c ← octet? c
        let d ← octet? d
        return quad a b c d
    | _ => none

def hexValue? (c : ℕ) : Option ℕ :=
  if 48 ≤ c ∧ c ≤ 57 then some (c - 48)
  else if 65 ≤ c ∧ c ≤ 70 then some (c - 55)
  else if 97 ≤ c ∧ c ≤ 102 then some (c - 87)
  else none

/-- A hexadecimal number of at most four digits. -/
def hextet? (t : Text) : Option ℕ :=
  if t ≠ [] ∧ t.length ≤ 4 then t.foldlM (fun n c => (hexValue? c).map (16 * n + ·)) 0
  else none

/-- A number in hexadecimal digits. -/
def hexText (n : ℕ) : Text := (Nat.toDigits 16 n).map Char.toNat

/-- The parts with an IPv4 address at the end written as two of them. -/
def expandSuffix? (parts : List Text) : Option (List Text) :=
  let last := parts.getLast?.getD []
  if dot ∈ last then
    (parseV4? last).map fun ip =>
      parts.dropLast ++ [hexText (ip.toNat / 65536), hexText (ip.toNat % 65536)]
  else some parts

/-- The places at which a part between two others is empty. -/
def skipIndices (parts : List Text) : List ℕ :=
  (List.range parts.length).filter fun i =>
    1 ≤ i && i + 1 < parts.length && parts[i]? == some []

/-- The values of the eight parts of an IPv6 address, with those that are left out at the only
empty part. -/
def hextets? (parts : List Text) : Option (List ℕ) :=
  let leading := parts.head? = some []
  let trailing := parts.getLast? = some []
  match skipIndices parts with
  | [] => if parts.length = 8 ∧ ¬ leading ∧ ¬ trailing then parts.mapM hextet? else none
  | [k] =>
      let above := if leading then k - 1 else k
      let below := if trailing then parts.length - k - 2 else parts.length - k - 1
      if leading ∧ above ≠ 0 ∨ trailing ∧ below ≠ 0 ∨ 8 < above + below + 1 then none
      else do
        let high ← (parts.take above).mapM hextet?
        let low ← (parts.drop (parts.length - below)).mapM hextet?
        return high ++ List.replicate (8 - above - below) 0 ++ low
  | _ => none

/-- The address and the zone of a text, which is not empty if there is one. -/
def splitScopeId? (t : Text) : Option (Text × Option Text) :=
  match Cut.first? percent t with
  | none => some (t, none)
  | some (address, scopeId) =>
      if scopeId = [] ∨ percent ∈ scopeId then none else some (address, some scopeId)

def parseV6? (t : Text) : Option (BitVec 128 × Option Text) :=
  if slash ∈ t then none
  else do
    let (address, scopeId) ← splitScopeId? t
    let parts := address.splitOn colon
    if parts.length < 3 then none
    else do
      let parts ← expandSuffix? parts
      if 9 < parts.length then none
      else do
        let hextets ← hextets? parts
        return (BitVec.ofNat 128 (hextets.foldl (fun n h => 65536 * n + h) 0), scopeId)

/-- The address that the text stands for, if it stands for one. -/
def parse? (t : Text) : Option IpAddress :=
  ((parseV4? t).map v4).or ((parseV6? t).map fun (ip, scopeId) => v6 ip scopeId)

/-! ### Writing -/

/-- The start and the length of the longest of the runs of the text `0`, of which the last one
that was met starts at `start` and has the length `length`, and the longest one is `best`. -/
def longestZeros (index start length : ℕ) (best : ℕ × ℕ) : List Text → ℕ × ℕ
  | [] => best
  | hextet :: hextets =>
      if hextet = text "0" then
        let start := if length = 0 then index else start
        let best := if best.2 < length + 1 then (start, length + 1) else best
        longestZeros (index + 1) start (length + 1) best hextets
      else longestZeros (index + 1) start 0 best hextets

/-- The texts of the parts of an IPv6 address, with an empty one in place of the longest run of
zeros. -/
def compressHextets (hextets : List Text) : List Text :=
  let (start, length) := longestZeros 0 0 0 (0, 0) hextets
  if 1 < length then
    (if start = 0 then [[]] else []) ++ hextets.take start ++ [[]] ++ hextets.drop (start + length)
      ++ (if start + length = hextets.length then [[]] else [])
  else hextets

def str : IpAddress → Text
  | v4 ip =>
      let octet (k : ℕ) : Text := Json.decimal (ip.toNat / 256 ^ k % 256)
      octet 3 ++ dot :: octet 2 ++ dot :: octet 1 ++ dot :: octet 0
  | v6 ip scopeId =>
      let hextets := (List.range 8).map fun k => hexText (ip.toNat / 65536 ^ (7 - k) % 65536)
      [colon].intercalate (compressHextets hextets)
        ++ (match scopeId with
          | some scopeId => percent :: scopeId
          | none => [])

/-! ### Embedded addresses -/

/-- The address, or the IPv4 address that it embeds if it is an IPv4-mapped one. -/
def unmapped : IpAddress → IpAddress
  | v4 ip => v4 ip
  | v6 ip scopeId => if ip.toNat / 2 ^ 32 = 0xffff then v4 (ip.setWidth 32) else v6 ip scopeId

end IpAddress

/-! ### Networks -/

/-- The first bits of addresses, followed by zeros. -/
structure Prefix (w : ℕ) where
  address : BitVec w
  length : ℕ
  aligned : 2 ^ (w - length) ∣ address.toNat

namespace Prefix

variable {w : ℕ}

/-- The mask with the first bits set. -/
def netmask (p : Prefix w) : BitVec w := BitVec.allOnes w <<< (w - p.length)

def covers (p : Prefix w) (ip : BitVec w) : Bool := ip &&& p.netmask == p.address

theorem toNat_and_netmask (p : Prefix w) (ip : BitVec w) :
  (ip &&& p.netmask).toNat = ip.toNat / 2 ^ (w - p.length) * 2 ^ (w - p.length)
  := by
  have hle : ip.toNat / 2 ^ (w - p.length) * 2 ^ (w - p.length) < 2 ^ w :=
    (Nat.div_mul_le_self _ _).trans_lt ip.isLt
  rw [netmask, ← BitVec.shiftLeft_ushiftRight, BitVec.toNat_shiftLeft, BitVec.toNat_ushiftRight,
    Nat.shiftRight_eq_div_pow, Nat.shiftLeft_eq, Nat.mod_eq_of_lt hle]

/-- The addresses with a prefix are those from its own on. -/
theorem covers_iff (p : Prefix w) (ip : BitVec w) :
  p.covers ip = true ↔ p.address.toNat ≤ ip.toNat
    ∧ ip.toNat < p.address.toNat + 2 ^ (w - p.length)
  := by
  obtain ⟨k, hk⟩ := p.aligned
  have hpos : 0 < 2 ^ (w - p.length) := Nat.two_pow_pos _
  rw [covers, beq_iff_eq, ← BitVec.toNat_inj, toNat_and_netmask, hk, Nat.mul_comm _ k,
    Nat.mul_right_cancel_iff hpos, Nat.div_eq_iff hpos]
  omega

end Prefix

inductive IpNetwork where
  | v4 (p : Prefix 32)
  | v6 (p : Prefix 128)

/-- No address of one version is in a network of the other. -/
def IpNetwork.contains : IpNetwork → IpAddress → Bool
  | v4 p, .v4 ip => p.covers ip
  | v6 p, .v6 ip _ => p.covers ip
  | _, _ => false
