import Ashe.IPWords
import Ashe.Lexicographic
import Mathlib.Algebra.Group.Nat.Defs

namespace Ashe.IPOrder

open IPAddresses IPWords Lexicographic

section Memcmp

variable {as bs : List UInt8}

theorem toNat_injective : as.map UInt8.toNat = bs.map UInt8.toNat ↔ as = bs :=
  List.map_inj_right fun _ _ => UInt8.toNat_inj.mp

theorem memcmp_less {n : Nat} (ha : as.length = n) (hb : bs.length = n) :
    (memcmp as bs n < 0 ↔ Less (as.map UInt8.toNat) (bs.map UInt8.toNat)) ∧
      (memcmp as bs n = 0 ↔ as = bs) := by
  induction n generalizing as bs with
  | zero =>
      obtain rfl := List.eq_nil_of_length_eq_zero ha
      obtain rfl := List.eq_nil_of_length_eq_zero hb
      simp [memcmp]
  | succ n ih =>
      cases as with
      | nil => exact absurd ha (by simp)
      | cons a as =>
          cases bs with
          | nil => exact absurd hb (by simp)
          | cons b bs =>
              obtain ⟨hless, heq⟩ := ih (Nat.succ.inj ha) (Nat.succ.inj hb)
              simp only [memcmp, List.map_cons, less_cons, List.cons.injEq,
                UInt8.lt_iff_toNat_lt, ← UInt8.toNat_inj]
              by_cases hlt : a.toNat < b.toNat
              · rw [if_pos hlt]
                simp [hlt, Nat.ne_of_lt hlt]
              · by_cases hgt : b.toNat < a.toNat
                · rw [if_neg hlt, if_pos hgt]
                  simp [hlt, Nat.ne_of_gt hgt]
                · have hab : a.toNat = b.toNat := by omega
                  rw [if_neg hlt, if_neg hgt, or_iff_right hlt, and_iff_right hab,
                    and_iff_right hab]
                  exact ⟨hless, heq⟩

end Memcmp

theorem memcmp_bytes (p q : Quad) : memcmp p.bytes q.bytes 4 = 0 ↔ p.bytes = q.bytes :=
  (@memcmp_less p.bytes q.bytes 4 rfl rfl).2

theorem memcmp_s6_addr (a b : In6Addr) :
    (memcmp a.s6_addr b.s6_addr 16 < 0 ↔
      Less (a.s6_addr.map UInt8.toNat) (b.s6_addr.map UInt8.toNat)) ∧
    (memcmp a.s6_addr b.s6_addr 16 = 0 ↔ a.s6_addr = b.s6_addr) :=
  @memcmp_less a.s6_addr b.s6_addr 16 rfl rfl

theorem bytes_inj {p q : Quad} (h : p.bytes = q.bytes) : p = q := by
  cases p
  cases q
  simpa [Quad.bytes] using h

theorem s6_addr_inj {a b : In6Addr} (h : a.s6_addr = b.s6_addr) : a = b := by
  cases a
  cases b
  simp only [In6Addr.s6_addr, In6Addr.quads, List.flatMap_cons, List.flatMap_nil] at h
  obtain ⟨h0, h⟩ := List.append_inj h rfl
  obtain ⟨h1, h⟩ := List.append_inj h rfl
  obtain ⟨h2, h⟩ := List.append_inj h rfl
  obtain ⟨h3, -⟩ := List.append_inj h rfl
  rw [bytes_inj h0, bytes_inj h1, bytes_inj h2, bytes_inj h3]

theorem eq_inet (p q : InAddr) : (IPAddress.inet p).eq (.inet q) =
    decide (memcmp p.s_addr.bytes q.s_addr.bytes 4 = 0) := rfl

theorem eq_inet6 (p q : In6Addr) : (IPAddress.inet6 p).eq (.inet6 q) =
    decide (memcmp p.s6_addr q.s6_addr 16 = 0) := rfl

theorem eq_iff (a b : IPAddress) : a.eq b = true ↔ a = b := by
  cases a with
  | unspec => cases b <;> simp [IPAddress.eq, IPAddress.getFamily]
  | inet p =>
      cases b with
      | inet q =>
          rw [eq_inet, decide_eq_true_iff, memcmp_bytes, IPAddress.inet.injEq]
          obtain ⟨p⟩ := p
          obtain ⟨q⟩ := q
          rw [InAddr.mk.injEq]
          exact ⟨bytes_inj, fun h => h ▸ rfl⟩
      | _ => simp [IPAddress.eq, IPAddress.getFamily]
  | inet6 p =>
      cases b with
      | inet6 q =>
          rw [eq_inet6, decide_eq_true_iff, (memcmp_s6_addr p q).2, IPAddress.inet6.injEq]
          exact ⟨s6_addr_inj, fun h => h ▸ rfl⟩
      | _ => simp [IPAddress.eq, IPAddress.getFamily]

/-- The family and the address by their numbers, the way operator< looks at them. -/
def key : IPAddress → List Nat
  | .unspec => [0]
  | .inet ip4 => [1, ip4.s_addr.word.toNat]
  | .inet6 ip6 => 2 :: ip6.s6_addr.map UInt8.toNat

theorem key_inj {a b : IPAddress} (h : key a = key b) : a = b := by
  cases a with
  | unspec => cases b <;> simp_all [key]
  | inet p =>
      cases b with
      | inet q =>
          obtain ⟨p⟩ := p
          obtain ⟨q⟩ := q
          have hword : p.word.toNat = q.word.toNat := by simpa [key] using h
          rw [word_inj (UInt32.toNat_inj.mp hword)]
      | _ => simp [key] at h
  | inet6 p =>
      cases b with
      | inet6 q => rw [s6_addr_inj (toNat_injective.mp (List.cons.inj h).2)]
      | _ => simp [key] at h

theorem lt_inet (bigEndian : Bool) (p q : InAddr) : (IPAddress.inet p).lt bigEndian (.inet q) =
    decide (networkToHost32 bigEndian (load bigEndian p.s_addr) <
      networkToHost32 bigEndian (load bigEndian q.s_addr)) := rfl

theorem lt_inet6 (bigEndian : Bool) (p q : In6Addr) :
    (IPAddress.inet6 p).lt bigEndian (.inet6 q) =
      decide (memcmp p.s6_addr q.s6_addr 16 < 0) := rfl

theorem less_of_first {a b : Nat} {l m : List Nat} (h : a ≠ b) :
    Less (a :: l) (b :: m) ↔ a < b := by
  rw [less_cons]
  exact or_iff_left fun hab => h hab.1

theorem less_of_rest {a : Nat} {l m : List Nat} : Less (a :: l) (a :: m) ↔ Less l m := by
  rw [less_cons]
  exact (or_iff_right (Nat.lt_irrefl a)).trans (and_iff_right rfl)

theorem lt_iff (bigEndian : Bool) (a b : IPAddress) :
    a.lt bigEndian b = true ↔ Less (key a) (key b) := by
  cases a with
  | unspec =>
      cases b with
      | unspec => exact iff_of_false Bool.false_ne_true (less_irrefl _)
      | inet q => exact iff_of_true rfl ((less_of_first (by decide)).mpr (by decide))
      | inet6 q => exact iff_of_true rfl ((less_of_first (by decide)).mpr (by decide))
  | inet p =>
      cases b with
      | unspec =>
          exact iff_of_false Bool.false_ne_true (mt (less_of_first (by decide)).mp (by decide))
      | inet q =>
          rw [lt_inet, decide_eq_true_iff, networkToHost32_load, networkToHost32_load, key, key,
            less_of_rest, less_cons, UInt32.lt_iff_toNat_lt]
          exact (or_iff_left fun h => less_irrefl [] h.2).symm
      | inet6 q => exact iff_of_true rfl ((less_of_first (by decide)).mpr (by decide))
  | inet6 p =>
      cases b with
      | unspec =>
          exact iff_of_false Bool.false_ne_true (mt (less_of_first (by decide)).mp (by decide))
      | inet q =>
          exact iff_of_false Bool.false_ne_true (mt (less_of_first (by decide)).mp (by decide))
      | inet6 q =>
          rw [lt_inet6, decide_eq_true_iff, key, key, less_of_rest]
          exact (memcmp_s6_addr p q).1

/-- The comparison operators and the hash, on a host of one byte order. -/
structure Ordered (bigEndian : Bool) : Prop where
  irrefl : ∀ a : IPAddress, a.lt bigEndian a = false
  trans : ∀ a b c : IPAddress, a.lt bigEndian b = true → b.lt bigEndian c = true →
    a.lt bigEndian c = true
  total : ∀ a b : IPAddress, a.lt bigEndian b = true ∨ a.eq b = true ∨ b.lt bigEndian a = true
  converse : ∀ a b : IPAddress, a.gt bigEndian b = b.lt bigEndian a
  eq_refl : ∀ a : IPAddress, a.eq a = true
  eq_symm : ∀ a b : IPAddress, a.eq b = true → b.eq a = true
  eq_trans : ∀ a b c : IPAddress, a.eq b = true → b.eq c = true → a.eq c = true
  hash : ∀ a b : IPAddress, a.eq b = true → a.hashIP bigEndian = b.hashIP bigEndian

theorem ip_ordered (bigEndian : Bool) : Ordered bigEndian := by
  refine ⟨fun a => ?_, fun a b c hab hbc => ?_, fun a b => ?_, fun a b => ?_, fun a => ?_,
    fun a b hab => ?_, fun a b c hab hbc => ?_, fun a b hab => ?_⟩
  · rw [← Bool.not_eq_true, lt_iff]
    exact less_irrefl _
  · rw [lt_iff] at hab hbc ⊢
    exact less_trans hab hbc
  · rw [lt_iff, lt_iff, eq_iff]
    exact (less_trichotomy (key a) (key b)).imp_right (Or.imp_left key_inj)
  · rw [Bool.eq_iff_iff, IPAddress.gt, IPAddress.ne, Bool.and_eq_true, Bool.not_eq_true',
      Bool.not_eq_true', ← Bool.not_eq_true, ← Bool.not_eq_true, eq_iff, lt_iff, lt_iff]
    constructor
    · rintro ⟨hne, hnot⟩
      exact ((less_trichotomy (key a) (key b)).resolve_left hnot).resolve_left (mt key_inj hne)
    · intro hless
      exact ⟨fun heq => ne_of_less hless (heq ▸ rfl), less_asymm hless⟩
  · exact (eq_iff a a).mpr rfl
  · exact (eq_iff b a).mpr ((eq_iff a b).mp hab).symm
  · exact (eq_iff a c).mpr (((eq_iff a b).mp hab).trans ((eq_iff b c).mp hbc))
  · rw [(eq_iff a b).mp hab]

end Ashe.IPOrder
