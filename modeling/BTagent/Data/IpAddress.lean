import Mathlib.Algebra.GroupWithZero.Nat
import Mathlib.Data.List.Basic
import Mathlib.Data.Nat.Notation
import Mathlib.Data.String.Basic

namespace BTagent

instance nonzeroOctets : NeZero 256 := ⟨by decide⟩
instance nonzeroPrefixes : NeZero 33 := ⟨by decide⟩

structure Ipv4 where
  a : Fin 256
  b : Fin 256
  c : Fin 256
  d : Fin 256
  deriving DecidableEq

structure Ipv4Network where
  address : Ipv4
  prefixlen : Fin 33
  deriving DecidableEq

def digits (n : ℕ) : List Char := Nat.toDigits 10 n

def decimal (cs : List Char) : ℕ := cs.foldl (fun n c => n * 10 + (c.toNat - 48)) 0

namespace Ipv4

def value (ip : Ipv4) : ℕ := ((ip.a * 256 + ip.b) * 256 + ip.c) * 256 + ip.d

def ofValue (n : ℕ) : Ipv4 :=
  ⟨Fin.ofNat 256 (n / 16777216), Fin.ofNat 256 (n / 65536), Fin.ofNat 256 (n / 256),
    Fin.ofNat 256 n⟩

def chars (ip : Ipv4) : List Char :=
  digits ip.a ++ '.' :: (digits ip.b ++ '.' :: (digits ip.c ++ '.' :: digits ip.d))

-- `str`
def text (ip : Ipv4) : String := String.ofList ip.chars

-- `_parse_octet`
def parseOctet (cs : List Char) : Option (Fin 256) :=
  if cs = [] ∨ ¬ cs.all Char.isDigit ∨ 3 < cs.length ∨ (cs ≠ ['0'] ∧ cs.head? = some '0') then none
  else if h : decimal cs < 256 then some ⟨decimal cs, h⟩
  else none

-- `_ip_int_from_string`
def parse (cs : List Char) : Option Ipv4 :=
  match cs.splitOn '.' with
  | [a, b, c, d] => do
      some ⟨← parseOctet a, ← parseOctet b, ← parseOctet c, ← parseOctet d⟩
  | _ => none

theorem octet_digits : ∀ n : Fin 256, '.' ∉ digits n ∧ parseOctet (digits n) = some n := by
  decide +kernel

theorem parse_chars (ip : Ipv4) : parse ip.chars = some ip := by
  have hjoin : ip.chars = ['.'].intercalate [digits ip.a, digits ip.b, digits ip.c, digits ip.d] := by
    simp [chars, List.intercalate]
  have hsplit : ip.chars.splitOn '.' = [digits ip.a, digits ip.b, digits ip.c, digits ip.d] := by
    rw [hjoin]
    apply List.splitOn_intercalate
    · simp [(octet_digits _).1]
    · exact List.cons_ne_nil _ _
  simp [parse, hsplit, (octet_digits _).2]

end Ipv4

namespace Ipv4Network

def mask (prefixlen : Fin 33) : ℕ := 4294967296 - 2 ^ (32 - prefixlen.val)

-- `_prefix_from_ip_int`
def prefixOfMask (n : ℕ) : Option (Fin 33) := (List.finRange 33).find? fun p => mask p = n

-- `_prefix_from_prefix_string`, else `_prefix_from_ip_string`
def parsePrefix (cs : List Char) : Option (Fin 33) :=
  if h : cs ≠ [] ∧ cs.all Char.isDigit ∧ decimal cs < 33 then some ⟨decimal cs, h.2.2⟩
  else
    (Ipv4.parse cs).bind fun ip =>
      (prefixOfMask ip.value).or (prefixOfMask (4294967295 - ip.value))

def networkAddress (ip : Ipv4) (prefixlen : Fin 33) : Ipv4 :=
  Ipv4.ofValue (ip.value / 2 ^ (32 - prefixlen.val) * 2 ^ (32 - prefixlen.val))

-- `ip_network(text, strict=False)`, where it gives an IPv4 network
def parse (cs : List Char) : Option Ipv4Network :=
  match cs.splitOn '/' with
  | [addr] => (Ipv4.parse addr).map fun ip => ⟨ip, 32⟩
  | [addr, mask] => do
      let ip ← Ipv4.parse addr
      let prefixlen ← parsePrefix mask
      some ⟨networkAddress ip prefixlen, prefixlen⟩
  | _ => none

-- `addr in net`
def Contains (net : Ipv4Network) (ip : Ipv4) : Prop := networkAddress ip net.prefixlen = net.address

instance (net : Ipv4Network) (ip : Ipv4) : Decidable (net.Contains ip) :=
  inferInstanceAs (Decidable (_ = _))

end Ipv4Network

namespace Ipv6

def isHex (c : Char) : Bool := c.isDigit || ('a' ≤ c && c ≤ 'f') || ('A' ≤ c && c ≤ 'F')

def hexValue (c : Char) : ℕ :=
  if c.isDigit then c.toNat - 48 else if 'a' ≤ c then c.toNat - 87 else c.toNat - 55

def hexadecimal (cs : List Char) : ℕ := cs.foldl (fun n c => n * 16 + hexValue c) 0

-- `_parse_hextet`
def parseHextet (cs : List Char) : Option (BitVec 16) :=
  if cs = [] ∨ ¬ cs.all isHex ∨ 4 < cs.length then none else some (BitVec.ofNat 16 (hexadecimal cs))

-- An address that ends as an IPv4 address does is written with hextets only.
def withoutQuad (parts : List (List Char)) : Option (List (List Char)) :=
  match parts.getLast? with
  | some last =>
      if '.' ∈ last then
        (Ipv4.parse last).map fun ip =>
          parts.dropLast ++ [Nat.toDigits 16 (ip.value / 65536), Nat.toDigits 16 (ip.value % 65536)]
      else some parts
  | none => some parts

-- Where `::` stands, the ends aside.
def skips (parts : List (List Char)) : List ℕ :=
  (List.range parts.length).filter fun i => 0 < i ∧ i + 1 < parts.length ∧ parts[i]? = some []

structure Layout where
  hi : ℕ
  lo : ℕ
  skipped : ℕ

def layout (parts : List (List Char)) : Option Layout :=
  let leading := parts.head? = some []
  let trailing := parts.getLast? = some []
  match skips parts with
  | [] => if parts.length ≠ 8 ∨ leading ∨ trailing then none else some ⟨parts.length, 0, 0⟩
  | [i] =>
      let hi := if leading then i - 1 else i
      let lo := if trailing then parts.length - i - 2 else parts.length - i - 1
      if (leading ∧ hi ≠ 0) ∨ (trailing ∧ lo ≠ 0) ∨ 8 ≤ hi + lo then none
      else some ⟨hi, lo, 8 - (hi + lo)⟩
  | _ => none

def shiftIn (n : BitVec 128) (part : BitVec 16) : BitVec 128 := n <<< 16 ||| part.setWidth 128

-- `_ip_int_from_string`
def parseParts (parts : List (List Char)) : Option (BitVec 128) := do
  let parts ← if parts.length < 3 then none else withoutQuad parts
  let shape ← if 9 < parts.length then none else layout parts
  let upper ← (parts.take shape.hi).mapM parseHextet
  let lower ← (parts.drop (parts.length - shape.lo)).mapM parseHextet
  some (lower.foldl shiftIn (upper.foldl shiftIn 0 <<< (16 * shape.skipped)))

-- `_split_scope_id`
def withoutScope (cs : List Char) : Option (List Char) :=
  match cs.splitOn '%' with
  | [addr] => some addr
  | [addr, scope] => if scope = [] then none else some addr
  | _ => none

def parse (cs : List Char) : Option (BitVec 128) :=
  if '/' ∈ cs then none else (withoutScope cs).bind fun addr => parseParts (addr.splitOn ':')

end Ipv6

structure Ipv6Network where
  address : BitVec 128
  prefixlen : Fin 129

def Ipv6Network.Contains (net : Ipv6Network) (ip : BitVec 128) : Prop :=
  ip >>> (128 - net.prefixlen.val) = net.address >>> (128 - net.prefixlen.val)

instance (net : Ipv6Network) (ip : BitVec 128) : Decidable (net.Contains ip) :=
  inferInstanceAs (Decidable (_ = _))

-- The ranges of `_IPv4Constants`.
namespace Ipv4

def linkLocalNetwork : Ipv4Network := ⟨⟨169, 254, 0, 0⟩, 16⟩

def loopbackNetwork : Ipv4Network := ⟨⟨127, 0, 0, 0⟩, 8⟩

def multicastNetwork : Ipv4Network := ⟨⟨224, 0, 0, 0⟩, 4⟩

def reservedNetwork : Ipv4Network := ⟨⟨240, 0, 0, 0⟩, 4⟩

def privateNetworks : List Ipv4Network :=
  [⟨⟨0, 0, 0, 0⟩, 8⟩, ⟨⟨10, 0, 0, 0⟩, 8⟩, ⟨⟨127, 0, 0, 0⟩, 8⟩, ⟨⟨169, 254, 0, 0⟩, 16⟩,
    ⟨⟨172, 16, 0, 0⟩, 12⟩, ⟨⟨192, 0, 0, 0⟩, 24⟩, ⟨⟨192, 0, 0, 170⟩, 31⟩, ⟨⟨192, 0, 2, 0⟩, 24⟩,
    ⟨⟨192, 168, 0, 0⟩, 16⟩, ⟨⟨198, 18, 0, 0⟩, 15⟩, ⟨⟨198, 51, 100, 0⟩, 24⟩,
    ⟨⟨203, 0, 113, 0⟩, 24⟩, ⟨⟨240, 0, 0, 0⟩, 4⟩, ⟨⟨255, 255, 255, 255⟩, 32⟩]

def privateNetworksExceptions : List Ipv4Network := [⟨⟨192, 0, 0, 9⟩, 32⟩, ⟨⟨192, 0, 0, 10⟩, 32⟩]

def isPrivate (ip : Ipv4) : Bool :=
  privateNetworks.any (fun net => net.Contains ip) &&
    privateNetworksExceptions.all fun net => ¬ net.Contains ip

def isReserved (ip : Ipv4) : Bool := reservedNetwork.Contains ip

def isLoopback (ip : Ipv4) : Bool := loopbackNetwork.Contains ip

def isLinkLocal (ip : Ipv4) : Bool := linkLocalNetwork.Contains ip

def isMulticast (ip : Ipv4) : Bool := multicastNetwork.Contains ip

end Ipv4

-- The ranges of `_IPv6Constants`, as of Python 3.14; an IPv4-mapped address is what its IPv4
-- address is.
namespace Ipv6

def hextets (n : ℕ) : BitVec 128 := BitVec.ofNat 128 n <<< 64

def linkLocalNetwork : Ipv6Network := ⟨hextets 0xFE80_0000_0000_0000, 10⟩

def multicastNetwork : Ipv6Network := ⟨hextets 0xFF00_0000_0000_0000, 8⟩

def privateNetworks : List Ipv6Network :=
  [⟨1, 128⟩, ⟨0, 128⟩, ⟨0xFFFF_0000_0000, 96⟩, ⟨hextets 0x0064_FF9B_0001_0000, 48⟩,
    ⟨hextets 0x0100_0000_0000_0000, 64⟩, ⟨hextets 0x2001_0000_0000_0000, 23⟩,
    ⟨hextets 0x2001_0DB8_0000_0000, 32⟩, ⟨hextets 0x2002_0000_0000_0000, 16⟩,
    ⟨hextets 0x3FFF_0000_0000_0000, 20⟩, ⟨hextets 0xFC00_0000_0000_0000, 7⟩,
    ⟨hextets 0xFE80_0000_0000_0000, 10⟩]

def privateNetworksExceptions : List Ipv6Network :=
  [⟨hextets 0x2001_0001_0000_0000 ||| 1, 128⟩, ⟨hextets 0x2001_0001_0000_0000 ||| 2, 128⟩,
    ⟨hextets 0x2001_0003_0000_0000, 32⟩, ⟨hextets 0x2001_0004_0112_0000, 48⟩,
    ⟨hextets 0x2001_0020_0000_0000, 28⟩, ⟨hextets 0x2001_0030_0000_0000, 28⟩]

def reservedNetworks : List Ipv6Network :=
  [⟨0, 8⟩, ⟨hextets 0x0100_0000_0000_0000, 8⟩, ⟨hextets 0x0200_0000_0000_0000, 7⟩,
    ⟨hextets 0x0400_0000_0000_0000, 6⟩, ⟨hextets 0x0800_0000_0000_0000, 5⟩,
    ⟨hextets 0x1000_0000_0000_0000, 4⟩, ⟨hextets 0x4000_0000_0000_0000, 3⟩,
    ⟨hextets 0x6000_0000_0000_0000, 3⟩, ⟨hextets 0x8000_0000_0000_0000, 3⟩,
    ⟨hextets 0xA000_0000_0000_0000, 3⟩, ⟨hextets 0xC000_0000_0000_0000, 3⟩,
    ⟨hextets 0xE000_0000_0000_0000, 4⟩, ⟨hextets 0xF000_0000_0000_0000, 5⟩,
    ⟨hextets 0xF800_0000_0000_0000, 6⟩, ⟨hextets 0xFE00_0000_0000_0000, 9⟩]

def ipv4Mapped (ip : BitVec 128) : Option Ipv4 :=
  if ip >>> 32 = 0xFFFF then some (Ipv4.ofValue ip.toNat) else none

def isPrivate (ip : BitVec 128) : Bool :=
  match ipv4Mapped ip with
  | some mapped => mapped.isPrivate
  | none =>
      privateNetworks.any (fun net => net.Contains ip) &&
        privateNetworksExceptions.all fun net => ¬ net.Contains ip

def isReserved (ip : BitVec 128) : Bool :=
  match ipv4Mapped ip with
  | some mapped => mapped.isReserved
  | none => reservedNetworks.any fun net => net.Contains ip

def isLoopback (ip : BitVec 128) : Bool :=
  match ipv4Mapped ip with
  | some mapped => mapped.isLoopback
  | none => ip = 1

def isLinkLocal (ip : BitVec 128) : Bool :=
  match ipv4Mapped ip with
  | some mapped => mapped.isLinkLocal
  | none => linkLocalNetwork.Contains ip

def isMulticast (ip : BitVec 128) : Bool :=
  match ipv4Mapped ip with
  | some mapped => mapped.isMulticast
  | none => multicastNetwork.Contains ip

end Ipv6

inductive IpAddress where
  | v4 (ip : Ipv4)
  | v6 (ip : BitVec 128)
  deriving DecidableEq

namespace IpAddress

-- `ip_address`
def parse (cs : List Char) : Option IpAddress :=
  ((Ipv4.parse cs).map v4).or ((Ipv6.parse cs).map v6)

def isPrivate : IpAddress → Bool
  | v4 ip => ip.isPrivate
  | v6 ip => Ipv6.isPrivate ip

def isLoopback : IpAddress → Bool
  | v4 ip => ip.isLoopback
  | v6 ip => Ipv6.isLoopback ip

def isReserved : IpAddress → Bool
  | v4 ip => ip.isReserved
  | v6 ip => Ipv6.isReserved ip

def isLinkLocal : IpAddress → Bool
  | v4 ip => ip.isLinkLocal
  | v6 ip => Ipv6.isLinkLocal ip

def isMulticast : IpAddress → Bool
  | v4 ip => ip.isMulticast
  | v6 ip => Ipv6.isMulticast ip

end IpAddress

end BTagent
