import Ashe.IPPrefix
import Ashe.LowestBit

namespace Ashe.IPMaskBits

open IPAddresses IPWords IPPrefix LowestBit

section Leading

def leading (n : Nat) (p : Nat → Bool) : Nat := ((List.range n).takeWhile p).length

theorem leading_eq {n l : Nat} {p : Nat → Bool} (hl : l ≤ n) (hbefore : ∀ i < l, p i = true)
    (hend : l < n → p l = false) : leading n p = l := by
  obtain ⟨k, rfl⟩ := Nat.exists_eq_add_of_le hl
  have hall : ∀ i ∈ List.range l, p i = true := fun i hi => hbefore i (List.mem_range.mp hi)
  have hrest : ((List.range k).map (l + ·)).takeWhile p = [] := by
    cases k with
    | zero => rfl
    | succ k =>
        have hfirst : ¬p (l + 0) = true := by
          rw [Nat.add_zero, hend (by omega)]
          exact Bool.false_ne_true
        rw [List.range_succ_eq_map, List.map_cons, List.takeWhile_cons, if_neg hfirst]
  rw [leading, List.range_add, List.takeWhile_append_of_pos hall, hrest, List.append_nil,
    List.length_range]

theorem leading_spec (n : Nat) (p : Nat → Bool) : leading n p ≤ n ∧
    (∀ i < leading n p, p i = true) ∧ (leading n p < n → p (leading n p) = false) := by
  by_cases h : ∃ i, i < n ∧ p i = false
  · have hleast := Nat.find_spec h
    have hbefore : ∀ i < Nat.find h, p i = true := by
      intro i hi
      by_contra hnot
      exact Nat.find_min h hi ⟨by omega, Bool.not_eq_true _ |>.mp hnot⟩
    rw [leading_eq (Nat.le_of_lt hleast.1) hbefore fun _ => hleast.2]
    exact ⟨Nat.le_of_lt hleast.1, hbefore, fun _ => hleast.2⟩
  · have hall : ∀ i < n, p i = true := by
      intro i hi
      by_contra hnot
      exact h ⟨i, hi, Bool.not_eq_true _ |>.mp hnot⟩
    rw [leading_eq (Nat.le_refl n) hall fun hlt => absurd hlt (Nat.lt_irrefl n)]
    exact ⟨Nat.le_refl n, hall, fun hlt => absurd hlt (Nat.lt_irrefl n)⟩

end Leading

section Word

theorem isolate {w : UInt32} {t : Nat} (h : Lowest w.toNat t) :
    w &&& (~~~w + 1) = UInt32.ofNat (2 ^ t) := by
  have hw := w.toNat_lt
  have hand := and_neg h hw
  have hneg : (~~~w + 1).toNat = 2 ^ 32 - w.toNat := by
    have hpos : w.toNat ≠ 0 := by
      intro h0
      rw [h0] at h
      exact absurd h.1 (by simp)
    rw [UInt32.toNat_add, UInt32.toNat_not]
    show (UInt32.size - 1 - w.toNat + 1) % 2 ^ 32 = _
    have hsize : UInt32.size = 2 ^ 32 := rfl
    omega
  apply UInt32.toNat_inj.mp
  rw [UInt32.toNat_and, hneg, hand, UInt32.toNat_ofNat', Nat.mod_eq_of_lt]
  rw [← hand]
  exact Nat.lt_of_le_of_lt Nat.and_le_left hw

def position (one : UInt32) : Nat :=
  let zeroes := 32
  let zeroes := if one ≠ 0 then zeroes - 1 else zeroes
  let zeroes := if one &&& 0x0000FFFF ≠ 0 then zeroes - 16 else zeroes
  let zeroes := if one &&& 0x00FF00FF ≠ 0 then zeroes - 8 else zeroes
  let zeroes := if one &&& 0x0F0F0F0F ≠ 0 then zeroes - 4 else zeroes
  let zeroes := if one &&& 0x33333333 ≠ 0 then zeroes - 2 else zeroes
  if one &&& 0x55555555 ≠ 0 then zeroes - 1 else zeroes

theorem position_one : ∀ t < 32, position (UInt32.ofNat (2 ^ t)) = t := by decide +kernel

theorem zeroes_lowest {w : UInt32} {t : Nat} (h : Lowest w.toNat t) (ht : t < 32) :
    IPAddress.zeroes w = t := by
  have hposition : IPAddress.zeroes w = position (w &&& (~~~w + 1)) := rfl
  rw [hposition, isolate h, position_one t ht]

/-- The number of the last one of a word, counted from one, and zero without any. -/
theorem countWord_last (q : Quad) : ∃ c, (∀ bits, IPAddress.countWord q.word bits = bits + c) ∧
    c ≤ 32 ∧ (0 < c → bit q.bytes (c - 1) = true) ∧
    ∀ i, c ≤ i → i < 32 → bit q.bytes i = false := by
  by_cases h0 : q.word = 0
  · refine ⟨0, fun bits => if_pos h0, Nat.zero_le _, fun h => absurd h (Nat.lt_irrefl 0),
      fun i _ hi => ?_⟩
    rw [bit_word q hi, h0]
    exact Nat.zero_testBit _
  · obtain ⟨t, ht⟩ := exists_lowest (mt UInt32.toNat_inj.mp h0 : q.word.toNat ≠ (0 : UInt32).toNat)
    have hlt : t < 32 := by
      by_contra hle
      have hpow : q.word.toNat < 2 ^ t :=
        Nat.lt_of_lt_of_le q.word.toNat_lt (Nat.pow_le_pow_right Nat.two_pos (Nat.not_lt.mp hle))
      exact absurd (ht.1.symm.trans (Nat.testBit_lt_two_pow hpow)) (by simp)
    refine ⟨32 - t, fun bits => ?_, Nat.sub_le .., fun _ => ?_, fun i hi hi32 => ?_⟩
    · rw [IPAddress.countWord, if_neg h0, zeroes_lowest ht hlt]
    · have hplace : 31 - (32 - t - 1) = t := by omega
      rw [bit_word q (by omega), hplace]
      exact ht.1
    · rw [bit_word q hi32]
      exact ht.2 _ (by omega)

end Word

/-- No one stands behind a zero. -/
def Contiguous (q : Quad) : Prop :=
  ∀ i j, i < j → j < 32 → bit q.bytes j = true → bit q.bytes i = true

theorem countWord_leading (q : Quad) (bits : Nat) :
    IPAddress.countWord q.word bits = bits + leading 32 (bit q.bytes) ↔ Contiguous q := by
  obtain ⟨c, hcount, hc, hlast, hbehind⟩ := countWord_last q
  obtain ⟨-, hbefore, -⟩ := leading_spec 32 (bit q.bytes)
  rw [hcount, Nat.add_left_cancel_iff]
  constructor
  · rintro rfl i j hij hj hone
    apply hbefore
    apply Nat.lt_trans hij
    by_contra hle
    exact absurd (hone.symm.trans (hbehind j (Nat.not_lt.mp hle) hj)) (by simp)
  · intro h
    refine (leading_eq hc (fun i hi => ?_) (hbehind c (Nat.le_refl c))).symm
    obtain hlt | rfl : i < c - 1 ∨ i = c - 1 := by omega
    · exact h i (c - 1) hlt (by omega) (hlast (by omega))
    · exact hlast (by omega)

section Addresses

/-- The number of leading ones of an address in the order in which it is sent. -/
def leadingOnes (ip : IPAddress) : Nat := leading (width ip) (bit (bytes ip))

def allOnes : Quad := ⟨0xFF, 0xFF, 0xFF, 0xFF⟩

/-- The words up to the first one that is not all ones are without gaps. -/
def MaskContiguous : IPAddress → Prop
  | .unspec => True
  | .inet ip4 => Contiguous ip4.s_addr
  | .inet6 ip6 => ∀ i < 4, (∀ j < i, ip6.quads.getD j zero = allOnes) →
      Contiguous (ip6.quads.getD i zero)

theorem bit_allOnes {i : Nat} (hi : i < 32) : bit allOnes.bytes i = true := by
  have hones : ones 32 = allOnes := by decide
  rw [← hones, bit_ones 32 (by decide) i hi, decide_eq_true hi]

theorem eq_allOnes {q : Quad} (h : ∀ i < 32, bit q.bytes i = true) : q = allOnes := by
  apply ext_bits
  intro i hi
  rw [h i hi, bit_allOnes hi]

theorem load_allOnes (bigEndian : Bool) (q : Quad) :
    load bigEndian q = 0xFFFFFFFF ↔ q = allOnes := by
  have hword : allOnes.word = 0xFFFFFFFF := by decide
  cases bigEndian with
  | true =>
      show q.word = _ ↔ _
      rw [← hword]
      exact ⟨word_inj, fun h => h ▸ rfl⟩
  | false =>
      show q.reverse.word = _ ↔ _
      rw [← hword]
      constructor
      · intro h
        exact congrArg Quad.reverse (word_inj h)
      · rintro rfl
        rfl

variable (bigEndian : Bool)

theorem countIPMaskBits_inet (q : Quad) :
    IPAddress.countIPMaskBits bigEndian (.inet ⟨q⟩) = IPAddress.countWord q.word 0 := by
  show IPAddress.countWord (networkToHost32 bigEndian (load bigEndian q)) 0 = _
  rw [networkToHost32_load]

def firstGap (a : In6Addr) : Nat := a.quads.findIdx (· ≠ allOnes)

theorem countIPMaskBits_inet6 (a : In6Addr) :
    IPAddress.countIPMaskBits bigEndian (.inet6 a) =
      IPAddress.countWord (if firstGap a < 4 then (a.quads.getD (firstGap a) zero).word else 0)
        (firstGap a * 32) := by
  have hfind : (a.quads.map (load bigEndian)).findIdx (· ≠ 0xFFFFFFFF) = firstGap a := by
    rw [List.findIdx_map, firstGap]
    congr 1
    funext q
    simp only [Function.comp_apply, ne_eq, load_allOnes]
  have hget : networkToHost32 bigEndian ((a.quads.map (load bigEndian)).getD (firstGap a) 0) =
      (a.quads.getD (firstGap a) zero).word := by
    have hzero : (0 : UInt32) = load bigEndian zero := by cases bigEndian <;> decide
    rw [hzero, List.getD_map, networkToHost32_load]
  show IPAddress.countWord (if (a.quads.map (load bigEndian)).findIdx (· ≠ 0xFFFFFFFF) < 4 then
    networkToHost32 bigEndian ((a.quads.map (load bigEndian)).getD
      ((a.quads.map (load bigEndian)).findIdx (· ≠ 0xFFFFFFFF)) 0) else 0)
    ((a.quads.map (load bigEndian)).findIdx (· ≠ 0xFFFFFFFF) * 32) = _
  rw [hfind, hget]

theorem firstGap_before {a : In6Addr} {j : Nat} (h : j < firstGap a) :
    a.quads.getD j zero = allOnes := by
  have hlen : j < a.quads.length := Nat.lt_of_lt_of_le h List.findIdx_le_length
  have hnot := List.not_of_lt_findIdx h
  rw [List.getD_eq_getElem _ _ hlen]
  simpa using hnot

theorem firstGap_at {a : In6Addr} (h : firstGap a < 4) :
    a.quads.getD (firstGap a) zero ≠ allOnes := by
  rw [List.getD_eq_getElem _ _ h]
  exact of_decide_eq_true (@List.findIdx_getElem _ (fun q => decide (q ≠ allOnes)) a.quads h)

theorem bit_firstGap {a : In6Addr} {i : Nat} (hi : i < 32 * firstGap a) :
    bit a.s6_addr i = true := by
  rw [bit_s6_addr, firstGap_before (by omega : i / 32 < firstGap a)]
  exact bit_allOnes (Nat.mod_lt i (by decide))

theorem leading_firstGap (a : In6Addr) : leadingOnes (.inet6 a) =
    32 * firstGap a + if firstGap a < 4 then
      leading 32 (bit (a.quads.getD (firstGap a) zero).bytes) else 0 := by
  have hle : firstGap a ≤ 4 := List.findIdx_le_length
  split
  next hgap =>
    obtain ⟨-, hbefore, hend⟩ := leading_spec 32 (bit (a.quads.getD (firstGap a) zero).bytes)
    have hshort : leading 32 (bit (a.quads.getD (firstGap a) zero).bytes) < 32 := by
      by_contra hall
      exact firstGap_at hgap (eq_allOnes fun i hi => hbefore i (by omega))
    refine leading_eq (show _ ≤ 128 by omega) (fun i hi => ?_) (fun _ => ?_)
    · by_cases hfirst : i < 32 * firstGap a
      · exact bit_firstGap hfirst
      · have hword : i / 32 = firstGap a := by omega
        rw [bytes, bit_s6_addr, hword]
        exact hbefore _ (by omega)
    · rw [bytes, bit_s6_addr, Nat.mul_add_div (by decide), Nat.div_eq_of_lt hshort, Nat.add_zero,
        Nat.mul_add_mod, Nat.mod_eq_of_lt hshort]
      exact hend hshort
  next hgap =>
    refine leading_eq (show _ ≤ 128 by omega) (fun i hi => bit_firstGap (by omega))
      (fun hlt => absurd hlt ?_)
    show ¬_ < 128
    omega

/-- The code counts the leading ones of an address exactly where its first word that is
not all ones has no gap. -/
theorem count_mask_bits (mask : IPAddress) :
    mask.countIPMaskBits bigEndian = leadingOnes mask ↔ MaskContiguous mask := by
  cases mask with
  | unspec => exact iff_of_true rfl trivial
  | inet ip4 =>
      obtain ⟨q⟩ := ip4
      have h := countWord_leading q 0
      rw [Nat.zero_add] at h
      rw [countIPMaskBits_inet]
      exact h
  | inet6 a =>
      rw [countIPMaskBits_inet6, leading_firstGap, Nat.mul_comm 32]
      by_cases hgap : firstGap a < 4
      · rw [if_pos hgap, if_pos hgap, countWord_leading]
        constructor
        · intro h i hi hbefore
          rcases Nat.lt_trichotomy i (firstGap a) with hlt | rfl | hgt
          · rw [firstGap_before hlt]
            exact fun i j hij hj _ => bit_allOnes (Nat.lt_trans hij hj)
          · exact h
          · exact absurd (hbefore _ hgt) (firstGap_at hgap)
        · exact fun h => h _ hgap fun j hj => firstGap_before hj
      · rw [if_neg hgap, if_neg hgap]
        refine iff_of_true rfl fun i hi _ => ?_
        rw [firstGap_before (by omega)]
        exact fun i j hij hj _ => bit_allOnes (Nat.lt_trans hij hj)

/-- The mask 255.0.255.0: the code counts 24. -/
theorem count_mask_bits_gap :
    IPAddress.countIPMaskBits false (.inet ⟨⟨255, 0, 255, 0⟩⟩) ≠
      leadingOnes (.inet ⟨⟨255, 0, 255, 0⟩⟩) := by
  decide +kernel

end Addresses

end Ashe.IPMaskBits
