import Ashe.IPOrder

namespace Ashe.IPMapping

open IPAddresses IPWords IPOrder

theorem memcmp_take {as bs : List UInt8} {n : Nat} (ha : n ≤ as.length) (hb : n ≤ bs.length) :
    memcmp as bs n = 0 ↔ as.take n = bs.take n := by
  have htake : memcmp as bs n = memcmp (as.take n) (bs.take n) n := by
    induction n generalizing as bs with
    | zero => cases as <;> cases bs <;> rfl
    | succ n ih =>
        cases as with
        | nil => exact absurd ha (by simp)
        | cons a as =>
            cases bs with
            | nil => exact absurd hb (by simp)
            | cons b bs =>
                rw [List.take_succ_cons, List.take_succ_cons, memcmp, memcmp,
                  ih (Nat.le_of_succ_le_succ ha) (Nat.le_of_succ_le_succ hb)]
  rw [htake]
  exact (memcmp_less (List.length_take_of_le ha) (List.length_take_of_le hb)).2

theorem isHelper_iff (ip : IPAddress) (tomatch : In6Addr) {length : Nat} (h : length >>> 3 ≤ 16) :
    ip.isHelper tomatch length = true ↔
      ip.getIPv6Address.s6_addr.take (length >>> 3) = tomatch.s6_addr.take (length >>> 3) := by
  rw [IPAddress.isHelper, decide_eq_true_iff]
  exact memcmp_take h h

theorem isV4Mapped_iff (a : In6Addr) : (IPAddress.inet6 a).isV4Mapped = true ↔
    a.q0 = zero ∧ a.q1 = zero ∧ a.q2 = ⟨0, 0, 0xFF, 0xFF⟩ := by
  have htake : a.s6_addr.take 12 = a.q0.bytes ++ (a.q1.bytes ++ (a.q2.bytes ++ [])) := rfl
  have hprefix : kV4MappedPrefix.s6_addr.take 12 = [0, 0, 0, 0, 0, 0, 0, 0, 0, 0, 0xFF, 0xFF] :=
    rfl
  rw [IPAddress.isV4Mapped, isHelper_iff _ _ (by decide), zero, ext_quad, ext_quad, ext_quad]
  show a.s6_addr.take 12 = kV4MappedPrefix.s6_addr.take 12 ↔ _
  rw [htake, hprefix]
  simp [Quad.bytes, and_assoc]

theorem normalized_inet6 (a : In6Addr) : (IPAddress.inet6 a).normalized =
    if (IPAddress.inet6 a).isV4Mapped = true then .inet ⟨a.q3⟩ else .inet6 a := by
  rw [IPAddress.normalized, if_neg (by simp [IPAddress.getFamily])]
  cases (IPAddress.inet6 a).isV4Mapped with
  | false => rfl
  | true => rfl

theorem asIPv6Address_inet (v4 : InAddr) :
    (IPAddress.inet v4).asIPv6Address = .inet6 { kV4MappedPrefix with q3 := v4.s_addr } := rfl

theorem normalized_asIPv6Address (v4 : InAddr) :
    (IPAddress.inet v4).asIPv6Address.normalized = .inet v4 := by
  rw [asIPv6Address_inet, normalized_inet6, if_pos]
  rw [isV4Mapped_iff]
  exact ⟨rfl, rfl, rfl⟩

/-- An IPv4 address and the IPv6 address it is mapped to are normalized to the same one. -/
theorem ip_mapping :
    (∀ v4 : InAddr, (IPAddress.inet v4).asIPv6Address.normalized = .inet v4) ∧
    (∀ ip : IPAddress, ip.normalized.normalized = ip.normalized) ∧
    (∀ ip : IPAddress, ip.asIPv6Address.normalized = ip.normalized) ∧
    ∀ m : In6Addr, (IPAddress.inet6 m).isV4Mapped = true →
      (IPAddress.inet6 m).normalized.asIPv6Address = .inet6 m := by
  refine ⟨normalized_asIPv6Address, fun ip => ?_, fun ip => ?_, fun m hm => ?_⟩
  · cases ip with
    | unspec => rfl
    | inet v4 => rfl
    | inet6 a =>
        by_cases hmapped : (IPAddress.inet6 a).isV4Mapped = true
        · rw [normalized_inet6, if_pos hmapped]
          rfl
        · rw [normalized_inet6, if_neg hmapped, normalized_inet6, if_neg hmapped]
  · cases ip with
    | unspec => rfl
    | inet v4 => exact normalized_asIPv6Address v4
    | inet6 a => rfl
  · obtain ⟨h0, h1, h2⟩ := (isV4Mapped_iff m).mp hm
    rw [normalized_inet6, if_pos hm, asIPv6Address_inet]
    cases m
    simp_all [kV4MappedPrefix]

theorem ip_mapping_loopback :
    (IPAddress.inet6 ⟨zero, zero, ⟨0, 0, 0xFF, 0xFF⟩, ⟨127, 0, 0, 1⟩⟩).normalized.asIPv6Address =
      .inet6 ⟨zero, zero, ⟨0, 0, 0xFF, 0xFF⟩, ⟨127, 0, 0, 1⟩⟩ :=
  ip_mapping.2.2.2 ⟨zero, zero, ⟨0, 0, 0xFF, 0xFF⟩, ⟨127, 0, 0, 1⟩⟩ (by decide)

end Ashe.IPMapping
