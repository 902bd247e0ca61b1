import Ashe.Buffers
import Ashe.IPMapping
import Mathlib.Data.List.GetD

namespace Ashe.IPPrefix

open IPAddresses IPWords IPMapping

def bytes : IPAddress → List UInt8
  | .unspec => []
  | .inet ip4 => ip4.s_addr.bytes
  | .inet6 ip6 => ip6.s6_addr

def width (ip : IPAddress) : Nat := 8 * (bytes ip).length

def keep6 (n : Nat) (a : In6Addr) : In6Addr :=
  ⟨keep (min n 32) a.q0, keep (min (n - 32) 32) a.q1, keep (min (n - 64) 32) a.q2,
    keep (min (n - 96) 32) a.q3⟩

section Truncation

variable (bigEndian : Bool)

theorem mask_eq : ∀ n < 32, 0 < n →
    (0xFFFFFFFF : UInt32) <<< UInt32.ofNat (32 - n) = IPAddress.innerMask (32 - n) := by
  decide +kernel

theorem truncateIP_inet (p : Quad) (n : Nat) :
    IPAddress.truncateIP bigEndian (.inet ⟨p⟩) n = .inet ⟨keep (min n 32) p⟩ := by
  have htrunc : IPAddress.truncateIP bigEndian (.inet ⟨p⟩) n =
      if 31 < n then .inet ⟨p⟩
      else if n = 0 then IPAddress.ofHost bigEndian 0
      else .inet ⟨store bigEndian (hostToNetwork32 bigEndian
        (networkToHost32 bigEndian (load bigEndian p) &&&
          (0xFFFFFFFF : UInt32) <<< UInt32.ofNat (32 - n)))⟩ := by
    rw [IPAddress.truncateIP, if_neg (by omega)]
    rfl
  rw [htrunc]
  split
  next hlong => rw [Nat.min_eq_right hlong, keep_all]
  next hshort =>
    rw [Nat.min_eq_left (by omega)]
    split
    next hzero =>
      rw [hzero, keep_none, IPAddress.ofHost, store_hostToNetwork32]
      rfl
    next hpos =>
      rw [mask_eq n (by omega) (by omega), store_masked]
      rfl

theorem truncateWord_keep (n j : Nat) (q : Quad) :
    IPAddress.truncateWord bigEndian (n / 32) (IPAddress.innerMask (32 - (n - n / 32 * 32))) j q =
      keep (min (n - 32 * j) 32) q := by
  rw [IPAddress.truncateWord]
  split
  next hj =>
    have hinner : min (n - 32 * j) 32 = n - n / 32 * 32 := by omega
    rw [store_masked, hinner]
    rfl
  next hj =>
    split
    next hbehind =>
      have hnone : min (n - 32 * j) 32 = 0 := by omega
      rw [store_zero, hnone, keep_none]
    next hbefore =>
      have hall : min (n - 32 * j) 32 = 32 := by omega
      rw [hall, keep_all]

theorem truncateIP_inet6 (a : In6Addr) (n : Nat) :
    IPAddress.truncateIP bigEndian (.inet6 a) n = .inet6 (keep6 n a) := by
  let word := IPAddress.truncateWord bigEndian (n / 32)
    (IPAddress.innerMask (32 - (n - n / 32 * 32)))
  have htrunc : IPAddress.truncateIP bigEndian (.inet6 a) n =
      if 127 < n then .inet6 a
      else if n = 0 then .inet6 in6addr_any
      else .inet6 ⟨word 0 a.q0, word 1 a.q1, word 2 a.q2, word 3 a.q3⟩ := by
    rw [IPAddress.truncateIP, if_neg (by omega)]
    rfl
  rw [htrunc, keep6]
  split
  next hlong =>
    rw [Nat.min_eq_right (by omega), Nat.min_eq_right (by omega), Nat.min_eq_right (by omega),
      Nat.min_eq_right (by omega), keep_all, keep_all, keep_all, keep_all]
  next hshort =>
    split
    next hzero =>
      subst hzero
      simp [keep_none, in6addr_any]
    next hpos =>
      simp only [word, truncateWord_keep]
      rfl

theorem truncateIP_unspec (length : Int) :
    IPAddress.truncateIP bigEndian .unspec length = .unspec := by
  rw [IPAddress.truncateIP]
  split <;> rfl

end Truncation

theorem bit_keep6 (n i : Nat) (a : In6Addr) :
    bit (keep6 n a).s6_addr i = (decide (i < n) && bit a.s6_addr i) := by
  have hquad : (keep6 n a).quads.getD (i / 32) zero =
      keep (min (n - 32 * (i / 32)) 32) (a.quads.getD (i / 32) zero) := by
    obtain hj | hj | hj | hj | hj : i / 32 = 0 ∨ i / 32 = 1 ∨ i / 32 = 2 ∨ i / 32 = 3 ∨
      4 ≤ i / 32 := by omega
    · rw [hj]; rfl
    · rw [hj]; rfl
    · rw [hj]; rfl
    · rw [hj]; rfl
    · rw [List.getD_eq_default _ _ hj, List.getD_eq_default _ _ hj]
      simp [keep, both, zero]
  rw [bit_s6_addr, bit_s6_addr, hquad, bit_keep (Nat.min_le_right ..)]
  congr 1
  rw [decide_eq_decide]
  omega

theorem keep6_all {n : Nat} (hn : 128 ≤ n) (a : In6Addr) : keep6 n a = a := by
  rw [keep6, Nat.min_eq_right (by omega), Nat.min_eq_right (by omega),
    Nat.min_eq_right (by omega), Nat.min_eq_right (by omega), keep_all, keep_all, keep_all,
    keep_all]

theorem keep6_keep6 (m n : Nat) (a : In6Addr) : keep6 m (keep6 n a) = keep6 (min n m) a := by
  have hmin (k : Nat) : min (min (m - k) 32) (min (n - k) 32) = min (min n m - k) 32 := by omega
  have hfirst : min (min m 32) (min n 32) = min (min n m) 32 := by omega
  simp only [keep6, keep_keep (Nat.min_le_right _ 32) (Nat.min_le_right _ 32), hmin, hfirst]

/-- A truncated address has the first bits of the address and zeros behind them, and two
truncations are the one to the shorter length. -/
theorem truncate_first_bits (bigEndian : Bool) (ip : IPAddress) :
    (∀ length : Nat, (ip.truncateIP bigEndian length).getFamily = ip.getFamily ∧
      (∀ i, bit (bytes (ip.truncateIP bigEndian length)) i =
        (decide (i < length) && bit (bytes ip) i)) ∧
      (width ip ≤ length → ip.truncateIP bigEndian length = ip)) ∧
    ∀ a b : Nat, (ip.truncateIP bigEndian a).truncateIP bigEndian b =
      ip.truncateIP bigEndian (min a b : Nat) := by
  cases ip with
  | unspec =>
      refine ⟨fun length => ⟨?_, fun i => ?_, fun _ => ?_⟩, fun a b => ?_⟩
      · rw [truncateIP_unspec]
      · rw [truncateIP_unspec]
        simp [bit, bytes]
      · rw [truncateIP_unspec]
      · rw [truncateIP_unspec, truncateIP_unspec, truncateIP_unspec]
  | inet ip4 =>
      obtain ⟨q⟩ := ip4
      refine ⟨fun length => ⟨?_, fun i => ?_, fun hlength => ?_⟩, fun a b => ?_⟩
      · rw [truncateIP_inet]
        rfl
      · rw [truncateIP_inet]
        refine (bit_keep (Nat.min_le_right length 32) i q).trans ?_
        by_cases hi : i < 32
        · have hin : i < min length 32 ↔ i < length := by omega
          simp only [hin]
          rfl
        · have hnone : bit (bytes (.inet ⟨q⟩)) i = false := bit_behind q (Nat.not_lt.mp hi)
          rw [hnone, Bool.and_false, bit_behind q (Nat.not_lt.mp hi), Bool.and_false]
      · have hall : min length 32 = 32 := Nat.min_eq_right hlength
        rw [truncateIP_inet, hall, keep_all]
      · have hmin : min (min b 32) (min a 32) = min (min a b) 32 := by omega
        rw [truncateIP_inet, truncateIP_inet, truncateIP_inet,
          keep_keep (Nat.min_le_right _ 32) (Nat.min_le_right _ 32), hmin]
  | inet6 ip6 =>
      refine ⟨fun length => ⟨?_, fun i => ?_, fun hlength => ?_⟩, fun a b => ?_⟩
      · rw [truncateIP_inet6]
        rfl
      · rw [truncateIP_inet6]
        exact bit_keep6 length i ip6
      · rw [truncateIP_inet6, keep6_all hlength]
      · rw [truncateIP_inet6, truncateIP_inet6, truncateIP_inet6, keep6_keep6]

theorem truncate_first_bits_whole :
    IPAddress.truncateIP false (.inet ⟨⟨192, 168, 7, 9⟩⟩) (32 : Nat) =
      .inet ⟨⟨192, 168, 7, 9⟩⟩ :=
  ((truncate_first_bits false (.inet ⟨⟨192, 168, 7, 9⟩⟩)).1 32).2.2 (by decide)

section Classes

def net (b0 b1 b2 b3 : UInt8) : In6Addr := ⟨⟨b0, b1, b2, b3⟩, zero, zero, zero⟩

/-- Each classifier agrees with the truncation to its prefix. -/
structure PrefixTests (bigEndian : Bool) (a : In6Addr) : Prop where
  is6To4 : (IPAddress.inet6 a).is6To4 = true ↔
    (IPAddress.inet6 a).truncateIP bigEndian 16 = .inet6 (net 0x20 0x02 0 0)
  isTeredo : (IPAddress.inet6 a).isTeredo = true ↔
    (IPAddress.inet6 a).truncateIP bigEndian 32 = .inet6 (net 0x20 0x01 0 0)
  is6Bone : (IPAddress.inet6 a).is6Bone = true ↔
    (IPAddress.inet6 a).truncateIP bigEndian 16 = .inet6 (net 0x3f 0xfe 0 0)
  isV4Mapped : (IPAddress.inet6 a).isV4Mapped = true ↔
    (IPAddress.inet6 a).truncateIP bigEndian 96 =
      .inet6 ⟨zero, zero, ⟨0, 0, 0xff, 0xff⟩, zero⟩
  isULA : (IPAddress.inet6 a).isULA = true ↔
    (IPAddress.inet6 a).truncateIP bigEndian 7 = .inet6 (net 0xfc 0 0 0)
  isLinkLocal : (IPAddress.inet6 a).isLinkLocal = true ↔
    (IPAddress.inet6 a).truncateIP bigEndian 10 = .inet6 (net 0xfe 0x80 0 0)
  isSiteLocal : (IPAddress.inet6 a).isSiteLocal = true ↔
    (IPAddress.inet6 a).truncateIP bigEndian 10 = .inet6 (net 0xfe 0xc0 0 0)

theorem and_all : ∀ b : UInt8, b &&& 0xFF = b := by decide +kernel

/-- A prefix inside of the first quad, by the mask of its bytes. -/
theorem truncateIP_net (bigEndian : Bool) {n : Nat} {m0 m1 m2 m3 b0 b1 b2 b3 : UInt8}
    (a : In6Addr) (hn : n ≤ 32) (hm : ones n = ⟨m0, m1, m2, m3⟩) :
    (IPAddress.inet6 a).truncateIP bigEndian n = .inet6 (net b0 b1 b2 b3) ↔
      a.q0.b0 &&& m0 = b0 ∧ a.q0.b1 &&& m1 = b1 ∧ a.q0.b2 &&& m2 = b2 ∧ a.q0.b3 &&& m3 = b3 := by
  rw [truncateIP_inet6, keep6, Nat.min_eq_left hn, Nat.sub_eq_zero_of_le hn,
    Nat.sub_eq_zero_of_le (by omega), Nat.sub_eq_zero_of_le (by omega), Nat.zero_min, keep_none,
    keep_none, keep_none, keep, hm, net, IPAddress.inet6.injEq, In6Addr.mk.injEq, ext_quad]
  exact and_iff_left ⟨rfl, rfl, rfl⟩

theorem isHelper_two {b0 b1 b2 b3 : UInt8} (a : In6Addr) :
    (IPAddress.inet6 a).isHelper (net b0 b1 b2 b3) 16 = true ↔ a.q0.b0 = b0 ∧ a.q0.b1 = b1 := by
  have htake (c : In6Addr) : c.s6_addr.take (16 >>> 3) = [c.q0.b0, c.q0.b1] := rfl
  rw [isHelper_iff _ _ (by decide), htake, htake]
  simp [IPAddress.getIPv6Address, net]

theorem isHelper_four {b0 b1 b2 b3 : UInt8} (a : In6Addr) :
    (IPAddress.inet6 a).isHelper (net b0 b1 b2 b3) 32 = true ↔
      a.q0.b0 = b0 ∧ a.q0.b1 = b1 ∧ a.q0.b2 = b2 ∧ a.q0.b3 = b3 := by
  have htake (c : In6Addr) :
      c.s6_addr.take (32 >>> 3) = [c.q0.b0, c.q0.b1, c.q0.b2, c.q0.b3] := rfl
  rw [isHelper_iff _ _ (by decide), htake, htake]
  simp [IPAddress.getIPv6Address, net]

theorem truncateIP_sixteen (bigEndian : Bool) {b0 b1 : UInt8} (a : In6Addr) :
    (IPAddress.inet6 a).truncateIP bigEndian 16 = .inet6 (net b0 b1 0 0) ↔
      a.q0.b0 = b0 ∧ a.q0.b1 = b1 := by
  have hmask : ones 16 = ⟨0xFF, 0xFF, 0, 0⟩ := by decide
  have htrunc := @truncateIP_net bigEndian 16 _ _ _ _ b0 b1 0 0 a (by decide) hmask
  rw [and_all, and_all] at htrunc
  simpa using htrunc

theorem truncateIP_ten (bigEndian : Bool) {b1 : UInt8} (a : In6Addr) :
    (IPAddress.inet6 a).truncateIP bigEndian 10 = .inet6 (net 0xfe b1 0 0) ↔
      a.q0.b0 = 0xFE ∧ a.q0.b1 &&& 0xC0 = b1 := by
  have hmask : ones 10 = ⟨0xFF, 0xC0, 0, 0⟩ := by decide
  have htrunc := @truncateIP_net bigEndian 10 _ _ _ _ 0xfe b1 0 0 a (by decide) hmask
  rw [and_all] at htrunc
  simpa using htrunc

theorem isTeredo_iff (bigEndian : Bool) (a : In6Addr) : (IPAddress.inet6 a).isTeredo = true ↔
    (IPAddress.inet6 a).truncateIP bigEndian 32 = .inet6 (net 0x20 0x01 0 0) := by
  have hmask : ones 32 = ⟨0xFF, 0xFF, 0xFF, 0xFF⟩ := by decide
  have htrunc := @truncateIP_net bigEndian 32 _ _ _ _ 0x20 0x01 0 0 a (by decide) hmask
  rw [and_all, and_all, and_all, and_all] at htrunc
  exact (isHelper_four a).trans htrunc.symm

theorem isULA_iff (bigEndian : Bool) (a : In6Addr) : (IPAddress.inet6 a).isULA = true ↔
    (IPAddress.inet6 a).truncateIP bigEndian 7 = .inet6 (net 0xfc 0 0 0) := by
  have hmask : ones 7 = ⟨0xFE, 0, 0, 0⟩ := by decide
  have htrunc := @truncateIP_net bigEndian 7 _ _ _ _ 0xfc 0 0 0 a (by decide) hmask
  have hclass : (IPAddress.inet6 a).isULA = true ↔ a.q0.b0 &&& 0xFE = 0xFC := decide_eq_true_iff
  rw [hclass]
  simpa using htrunc.symm

theorem isV4Mapped_truncate (bigEndian : Bool) (a : In6Addr) :
    (IPAddress.inet6 a).isV4Mapped = true ↔
      (IPAddress.inet6 a).truncateIP bigEndian 96 =
        .inet6 ⟨zero, zero, ⟨0, 0, 0xff, 0xff⟩, zero⟩ := by
  have htrunc : (IPAddress.inet6 a).truncateIP bigEndian 96 = .inet6 ⟨a.q0, a.q1, a.q2, zero⟩ := by
    refine (truncateIP_inet6 bigEndian a 96).trans ?_
    rw [keep6]
    show IPAddress.inet6 ⟨keep 32 a.q0, keep 32 a.q1, keep 32 a.q2, keep 0 a.q3⟩ = _
    rw [keep_all, keep_all, keep_all, keep_none]
  rw [isV4Mapped_iff, htrunc, IPAddress.inet6.injEq, In6Addr.mk.injEq]
  simp

theorem isLinkLocal_iff (a : In6Addr) : (IPAddress.inet6 a).isLinkLocal = true ↔
    a.q0.b0 = 0xFE ∧ a.q0.b1 = 0x80 := decide_eq_true_iff

theorem isSiteLocal_iff (a : In6Addr) : (IPAddress.inet6 a).isSiteLocal = true ↔
    a.q0.b0 = 0xFE ∧ a.q0.b1 &&& 0xC0 = 0xC0 := decide_eq_true_iff

/-- The bytes with the ten bits of fe80:: other than its own second byte. -/
theorem linkLocal_bytes : ∀ b : UInt8, (0x81 ≤ b ∧ b ≤ 0xBF) ↔ b &&& 0xC0 = 0x80 ∧ b ≠ 0x80 := by
  decide +kernel

/-- All classifiers are prefix tests, but for the link-local addresses with more than zeros
behind the ten bits in their second byte. -/
theorem prefixTests_iff (bigEndian : Bool) (a : In6Addr) :
    PrefixTests bigEndian a ↔ ¬(a.q0.b0 = 0xFE ∧ 0x81 ≤ a.q0.b1 ∧ a.q0.b1 ≤ 0xBF) := by
  rw [linkLocal_bytes]
  constructor
  · rintro h ⟨h0, hten, hne⟩
    have hclass := h.isLinkLocal.mpr ((truncateIP_ten bigEndian a).mpr ⟨h0, hten⟩)
    exact hne ((isLinkLocal_iff a).mp hclass).2
  · intro h
    refine ⟨?_, isTeredo_iff bigEndian a, ?_, isV4Mapped_truncate bigEndian a,
      isULA_iff bigEndian a, ?_, ?_⟩
    · rw [truncateIP_sixteen]
      exact isHelper_two a
    · rw [truncateIP_sixteen]
      exact isHelper_two a
    · rw [truncateIP_ten, isLinkLocal_iff]
      refine and_congr_right fun h0 => ⟨fun h1 => ?_, fun h1 => ?_⟩
      · rw [h1]
        rfl
      · by_contra hne
        exact h ⟨h0, h1, hne⟩
    · rw [truncateIP_ten, isSiteLocal_iff]

/-- The address fe81:: has the prefix of link-local addresses. -/
theorem prefixTests_fe81 : ¬PrefixTests false (net 0xfe 0x81 0 0) := by
  intro h
  have hclass := h.isLinkLocal.mpr ((truncateIP_ten false _).mpr ⟨rfl, rfl⟩)
  exact absurd hclass (by decide)

end Classes

end Ashe.IPPrefix
