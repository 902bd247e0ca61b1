import Ashe.ByteWords

namespace Ashe.IPAddresses

structure Quad where
  b0 : UInt8
  b1 : UInt8
  b2 : UInt8
  b3 : UInt8
  deriving DecidableEq

namespace Quad

def bytes (q : Quad) : List UInt8 := [q.b0, q.b1, q.b2, q.b3]

def word (q : Quad) : UInt32 := ByteWords.stringToInt q.b0 q.b1 q.b2 q.b3

def ofWord (n : UInt32) : Quad :=
  ⟨(n >>> 24).toUInt8, (n >>> 16).toUInt8, (n >>> 8).toUInt8, n.toUInt8⟩

def reverse (q : Quad) : Quad := ⟨q.b3, q.b2, q.b1, q.b0⟩

end Quad

/-- The member s_addr by its bytes in memory. -/
structure InAddr where
  s_addr : Quad
  deriving DecidableEq

/-- The sixteen bytes of s6_addr, four by four as the code reads them as words. -/
structure In6Addr where
  q0 : Quad
  q1 : Quad
  q2 : Quad
  q3 : Quad
  deriving DecidableEq

namespace In6Addr

def quads (a : In6Addr) : List Quad := [a.q0, a.q1, a.q2, a.q3]

def s6_addr (a : In6Addr) : List UInt8 := a.quads.flatMap Quad.bytes

end In6Addr

def zero : Quad := ⟨0, 0, 0, 0⟩

def in6addr_any : In6Addr := ⟨zero, zero, zero, zero⟩

/-- A family and the union with its bytes. Each constructor fills the union with zeros or
with all of its sixteen bytes, so that an IPv4 address has zeros behind its four. -/
inductive IPAddress where
  | unspec
  | inet (ip4 : InAddr)
  | inet6 (ip6 : In6Addr)
  deriving DecidableEq

inductive Family where
  | AF_UNSPEC
  | AF_INET
  | AF_INET6
  deriving DecidableEq

def kV4MappedPrefix : In6Addr := ⟨zero, zero, ⟨0, 0, 0xFF, 0xFF⟩, zero⟩

def k6To4Prefix : In6Addr := ⟨⟨0x20, 0x02, 0, 0⟩, zero, zero, zero⟩

def kTeredoPrefix : In6Addr := ⟨⟨0x20, 0x01, 0x00, 0x00⟩, zero, zero, zero⟩

def k6BonePrefix : In6Addr := ⟨⟨0x3f, 0xfe, 0, 0⟩, zero, zero, zero⟩

section Host

variable (bigEndian : Bool)

/-- A uint32_t that is read from memory, in the byte order of the host. -/
def load (q : Quad) : UInt32 := if bigEndian then q.word else q.reverse.word

def store (n : UInt32) : Quad := if bigEndian then Quad.ofWord n else (Quad.ofWord n).reverse

def byteSwap (n : UInt32) : UInt32 := (Quad.ofWord n).reverse.word

def networkToHost32 (n : UInt32) : UInt32 := if bigEndian then n else byteSwap n

def hostToNetwork32 (n : UInt32) : UInt32 := if bigEndian then n else byteSwap n

end Host

def memcmp : List UInt8 → List UInt8 → Nat → Int
  | a :: as, b :: bs, n + 1 => if a < b then -1 else if b < a then 1 else memcmp as bs n
  | _, _, _ => 0

namespace IPAddress

def getFamily : IPAddress → Family
  | unspec => .AF_UNSPEC
  | inet _ => .AF_INET
  | inet6 _ => .AF_INET6

def getIPv4Address : IPAddress → InAddr
  | unspec => ⟨zero⟩
  | inet ip4 => ip4
  | inet6 ip6 => ⟨ip6.q0⟩

def getIPv6Address : IPAddress → In6Addr
  | unspec => in6addr_any
  | inet ip4 => ⟨ip4.s_addr, zero, zero, zero⟩
  | inet6 ip6 => ip6

def ofHost (bigEndian : Bool) (ip : UInt32) : IPAddress :=
  inet ⟨store bigEndian (hostToNetwork32 bigEndian ip)⟩

def eq (this other : IPAddress) : Bool :=
  if this.getFamily ≠ other.getFamily then false
  else if this.getFamily = .AF_INET then
    memcmp this.getIPv4Address.s_addr.bytes other.getIPv4Address.s_addr.bytes 4 = 0
  else if this.getFamily = .AF_INET6 then
    memcmp this.getIPv6Address.s6_addr other.getIPv6Address.s6_addr 16 = 0
  else this.getFamily = .AF_UNSPEC

def ne (this other : IPAddress) : Bool := !this.eq other

def lt (bigEndian : Bool) (this other : IPAddress) : Bool :=
  if this.getFamily ≠ other.getFamily then
    if this.getFamily = .AF_UNSPEC then true
    else if this.getFamily = .AF_INET ∧ other.getFamily = .AF_INET6 then true
    else false
  else match this.getFamily with
    | .AF_INET =>
        networkToHost32 bigEndian (load bigEndian this.getIPv4Address.s_addr) <
          networkToHost32 bigEndian (load bigEndian other.getIPv4Address.s_addr)
    | .AF_INET6 => memcmp this.getIPv6Address.s6_addr other.getIPv6Address.s6_addr 16 < 0
    | .AF_UNSPEC => false

def gt (bigEndian : Bool) (this other : IPAddress) : Bool :=
  this.ne other && !this.lt bigEndian other

def hashIP (bigEndian : Bool) (ip : IPAddress) : Nat :=
  match ip.getFamily with
  | .AF_INET => (load bigEndian ip.getIPv4Address.s_addr).toNat
  | .AF_INET6 =>
      let v6addr := ip.getIPv6Address
      (load bigEndian v6addr.q0 ^^^ load bigEndian v6addr.q1 ^^^ load bigEndian v6addr.q2 ^^^
        load bigEndian v6addr.q3).toNat
  | .AF_UNSPEC => 0

def extractMappedAddress (in6 : In6Addr) : InAddr := ⟨in6.q3⟩

/-- The function IPIsHelper. The length counts bits, and only whole bytes are compared. -/
def isHelper (ip : IPAddress) (tomatch : In6Addr) (length : Nat) : Bool :=
  memcmp ip.getIPv6Address.s6_addr tomatch.s6_addr (length >>> 3) = 0

def is6Bone (ip : IPAddress) : Bool := ip.isHelper k6BonePrefix 16

def is6To4 (ip : IPAddress) : Bool := ip.isHelper k6To4Prefix 16

def isLinkLocal (ip : IPAddress) : Bool :=
  let addr := ip.getIPv6Address
  addr.s6_addr.getD 0 0 = 0xFE ∧ addr.s6_addr.getD 1 0 = 0x80

def isSiteLocal (ip : IPAddress) : Bool :=
  let addr := ip.getIPv6Address
  addr.s6_addr.getD 0 0 = 0xFE ∧ addr.s6_addr.getD 1 0 &&& 0xC0 = 0xC0

def isULA (ip : IPAddress) : Bool :=
  let addr := ip.getIPv6Address
  addr.s6_addr.getD 0 0 &&& 0xFE = 0xFC

def isTeredo (ip : IPAddress) : Bool := ip.isHelper kTeredoPrefix 32

def isV4Mapped (ip : IPAddress) : Bool := ip.isHelper kV4MappedPrefix 96

def normalized (this : IPAddress) : IPAddress :=
  if this.getFamily ≠ .AF_INET6 then this
  else if !this.isV4Mapped then this
  else inet (extractMappedAddress this.getIPv6Address)

def asIPv6Address (this : IPAddress) : IPAddress :=
  if this.getFamily ≠ .AF_INET then this
  else
    let v6addr := kV4MappedPrefix
    inet6 { v6addr with q3 := this.getIPv4Address.s_addr }

section Truncate

variable (bigEndian : Bool)

def truncateWord (position : Nat) (inner_mask : UInt32) (i : Nat) (q : Quad) : Quad :=
  if i = position then
    let host_order_inner := networkToHost32 bigEndian (load bigEndian q)
    store bigEndian (hostToNetwork32 bigEndian (host_order_inner &&& inner_mask))
  else if position < i then store bigEndian 0
  else q

/-- The mask of an IPv6 word, a constant of 64 bits shifted by up to 32 places. -/
def innerMask (inner_length : Nat) : UInt32 :=
  ((0xFFFFFFFF : UInt64) <<< UInt64.ofNat inner_length).toUInt32

def truncateIP (ip : IPAddress) (length : Int) : IPAddress :=
  if length < 0 then unspec
  else
    let length := length.toNat
    match ip.getFamily with
    | .AF_INET =>
        if 31 < length then ip
        else if length = 0 then ofHost bigEndian 0
        else
          let mask := (0xFFFFFFFF : UInt32) <<< UInt32.ofNat (32 - length)
          let host_order_ip :=
            networkToHost32 bigEndian (load bigEndian ip.getIPv4Address.s_addr)
          inet ⟨store bigEndian (hostToNetwork32 bigEndian (host_order_ip &&& mask))⟩
    | .AF_INET6 =>
        if 127 < length then ip
        else if length = 0 then inet6 in6addr_any
        else
          let v6addr := ip.getIPv6Address
          let position := length / 32
          let inner_length := 32 - (length - position * 32)
          let word := truncateWord bigEndian position (innerMask inner_length)
          inet6 ⟨word 0 v6addr.q0, word 1 v6addr.q1, word 2 v6addr.q2, word 3 v6addr.q3⟩
    | .AF_UNSPEC => unspec

end Truncate

section Mask

def zeroes (word_to_count : UInt32) : Nat :=
  let word_to_count := word_to_count &&& (~~~word_to_count + 1)
  let zeroes := 32
  let zeroes := if word_to_count ≠ 0 then zeroes - 1 else zeroes
  let zeroes := if word_to_count &&& 0x0000FFFF ≠ 0 then zeroes - 16 else zeroes
  let zeroes := if word_to_count &&& 0x00FF00FF ≠ 0 then zeroes - 8 else zeroes
  let zeroes := if word_to_count &&& 0x0F0F0F0F ≠ 0 then zeroes - 4 else zeroes
  let zeroes := if word_to_count &&& 0x33333333 ≠ 0 then zeroes - 2 else zeroes
  if word_to_count &&& 0x55555555 ≠ 0 then zeroes - 1 else zeroes

def countWord (word_to_count : UInt32) (bits : Nat) : Nat :=
  if word_to_count = 0 then bits else bits + (32 - zeroes word_to_count)

def countIPMaskBits (bigEndian : Bool) (mask : IPAddress) : Nat :=
  match mask.getFamily with
  | .AF_INET =>
      countWord (networkToHost32 bigEndian (load bigEndian mask.getIPv4Address.s_addr)) 0
  | .AF_INET6 =>
      let v6_as_ints := mask.getIPv6Address.quads.map (load bigEndian)
      let i := v6_as_ints.findIdx (· ≠ 0xFFFFFFFF)
      let word_to_count :=
        if i < 4 then networkToHost32 bigEndian (v6_as_ints.getD i 0) else 0
      countWord word_to_count (i * 32)
  | .AF_UNSPEC => 0

end Mask

end IPAddress

end Ashe.IPAddresses
