import Ashe.IPAddresses
import Mathlib.Algebra.Group.Nat.Defs

namespace Ashe.IPWords

open IPAddresses ByteWords

section Bytes

theorem toNat_byte (n k : UInt32) (j : Nat) (hk : k.toNat = j) (hj : j < 32) :
    (n >>> k).toUInt8.toNat = n.toNat / 2 ^ j % 256 := by
  rw [UInt32.toNat_toUInt8, UInt32.toNat_shiftRight, hk, Nat.mod_eq_of_lt hj,
    Nat.shiftRight_eq_div_pow]

theorem toNat_digit (q : Quad) {k : Nat} (hk : k < 4) :
    (q.bytes.getD k 0).toNat = q.word.toNat / 2 ^ (24 - 8 * k) % 256 := by
  have h0 := q.b0.toNat_lt
  have h1 := q.b1.toNat_lt
  have h2 := q.b2.toNat_lt
  have h3 := q.b3.toNat_lt
  have hword : q.word.toNat =
      ((q.b0.toNat * 256 + q.b1.toNat) * 256 + q.b2.toNat) * 256 + q.b3.toNat :=
    stringToInt_toNat ..
  obtain rfl | rfl | rfl | rfl : k = 0 ∨ k = 1 ∨ k = 2 ∨ k = 3 := by omega
  · show q.b0.toNat = q.word.toNat / 2 ^ 24 % 256
    omega
  · show q.b1.toNat = q.word.toNat / 2 ^ 16 % 256
    omega
  · show q.b2.toNat = q.word.toNat / 2 ^ 8 % 256
    omega
  · show q.b3.toNat = q.word.toNat / 2 ^ 0 % 256
    omega

theorem ofWord_word (q : Quad) : Quad.ofWord q.word = q := by
  have hb0 : (q.word >>> 24).toUInt8 = q.b0 := by
    apply UInt8.toNat_inj.mp
    rw [toNat_byte q.word 24 24 rfl (by decide)]
    exact (toNat_digit q (by decide : 0 < 4)).symm
  have hb1 : (q.word >>> 16).toUInt8 = q.b1 := by
    apply UInt8.toNat_inj.mp
    rw [toNat_byte q.word 16 16 rfl (by decide)]
    exact (toNat_digit q (by decide : 1 < 4)).symm
  have hb2 : (q.word >>> 8).toUInt8 = q.b2 := by
    apply UInt8.toNat_inj.mp
    rw [toNat_byte q.word 8 8 rfl (by decide)]
    exact (toNat_digit q (by decide : 2 < 4)).symm
  have hb3 : q.word.toUInt8 = q.b3 := by
    apply UInt8.toNat_inj.mp
    have hdigit := toNat_digit q (by decide : 3 < 4)
    rw [Nat.pow_zero, Nat.div_one] at hdigit
    exact (UInt32.toNat_toUInt8 q.word).trans hdigit.symm
  rw [Quad.ofWord, hb0, hb1, hb2, hb3]

theorem word_inj {p q : Quad} (h : p.word = q.word) : p = q := by
  rw [← ofWord_word p, h, ofWord_word]

theorem ext_quad {q : Quad} {b0 b1 b2 b3 : UInt8} :
    q = ⟨b0, b1, b2, b3⟩ ↔ q.b0 = b0 ∧ q.b1 = b1 ∧ q.b2 = b2 ∧ q.b3 = b3 := by
  obtain ⟨c0, c1, c2, c3⟩ := q
  rw [Quad.mk.injEq]

end Bytes

section Host

variable (bigEndian : Bool)

theorem networkToHost32_load (q : Quad) :
    networkToHost32 bigEndian (load bigEndian q) = q.word := by
  cases bigEndian with
  | false =>
      simp only [networkToHost32, load, Bool.false_eq_true, if_false, byteSwap, ofWord_word]
      rfl
  | true => rfl

theorem store_hostToNetwork32 (n : UInt32) :
    store bigEndian (hostToNetwork32 bigEndian n) = Quad.ofWord n := by
  cases bigEndian with
  | false =>
      simp only [store, hostToNetwork32, Bool.false_eq_true, if_false, byteSwap, ofWord_word]
      rfl
  | true => rfl

theorem store_zero : store bigEndian 0 = zero := by cases bigEndian <;> rfl

end Host

def both (p q : Quad) : Quad := ⟨p.b0 &&& q.b0, p.b1 &&& q.b1, p.b2 &&& q.b2, p.b3 &&& q.b3⟩

theorem ofWord_and (m n : UInt32) :
    Quad.ofWord (m &&& n) = both (Quad.ofWord m) (Quad.ofWord n) := by
  simp only [Quad.ofWord, both, UInt32.shiftRight_and, UInt32.toUInt8_and]

/-- Masking the number of a quad masks its bytes, whatever the byte order of the host. -/
theorem store_masked (bigEndian : Bool) (q : Quad) (mask : UInt32) :
    store bigEndian (hostToNetwork32 bigEndian
      (networkToHost32 bigEndian (load bigEndian q) &&& mask)) = both q (Quad.ofWord mask) := by
  rw [networkToHost32_load, store_hostToNetwork32, ofWord_and, ofWord_word]

section Bits

/-- A bit of some bytes in the order in which they are sent, the highest one of each byte
first. -/
def bit (bytes : List UInt8) (i : Nat) : Bool := (bytes.getD (i / 8) 0).toBitVec.getMsbD (i % 8)

theorem bit_word (q : Quad) {i : Nat} (hi : i < 32) :
    bit q.bytes i = q.word.toNat.testBit (31 - i) := by
  have hdigit : (q.bytes.getD (i / 8) 0).toNat =
      q.word.toNat / 2 ^ (24 - 8 * (i / 8)) % 2 ^ 8 := toNat_digit q (by omega)
  have hin : i % 8 < 8 := Nat.mod_lt i (by decide)
  have hlow : 8 - 1 - i % 8 < 8 := by omega
  have hplace : 8 - 1 - i % 8 + (24 - 8 * (i / 8)) = 31 - i := by omega
  rw [bit, BitVec.getMsbD, decide_eq_true hin, Bool.true_and, BitVec.getLsbD,
    UInt8.toNat_toBitVec, hdigit, Nat.testBit_mod_two_pow, decide_eq_true hlow, Bool.true_and,
    Nat.testBit_div_two_pow, hplace]

theorem ext_bits {p q : Quad} (h : ∀ i < 32, bit p.bytes i = bit q.bytes i) : p = q := by
  apply word_inj
  apply UInt32.toNat_inj.mp
  apply Nat.eq_of_testBit_eq
  intro i
  by_cases hi : i < 32
  · have hplace : 31 - (31 - i) = i := by omega
    have hbit := h (31 - i) (by omega)
    rwa [bit_word p (by omega), bit_word q (by omega), hplace] at hbit
  · have hpow : 2 ^ 32 ≤ 2 ^ i := Nat.pow_le_pow_right Nat.two_pos (Nat.not_lt.mp hi)
    rw [Nat.testBit_lt_two_pow (Nat.lt_of_lt_of_le p.word.toNat_lt hpow),
      Nat.testBit_lt_two_pow (Nat.lt_of_lt_of_le q.word.toNat_lt hpow)]

theorem bit_both (p q : Quad) (i : Nat) :
    bit (both p q).bytes i = (bit p.bytes i && bit q.bytes i) := by
  have hbyte (k : Nat) : (both p q).bytes.getD k 0 = p.bytes.getD k 0 &&& q.bytes.getD k 0 := by
    rcases k with _ | _ | _ | _ | k <;> simp [both, Quad.bytes]
  rw [bit, hbyte, UInt8.toBitVec_and, BitVec.getMsbD_and]
  rfl

theorem bit_s6_addr (a : In6Addr) (i : Nat) :
    bit a.s6_addr i = bit (a.quads.getD (i / 32) zero).bytes (i % 32) := by
  have hbyte (j k : Nat) (hk : k < 4) :
      a.s6_addr.getD (4 * j + k) 0 = (a.quads.getD j zero).bytes.getD k 0 := by
    obtain rfl | rfl | rfl | rfl : k = 0 ∨ k = 1 ∨ k = 2 ∨ k = 3 := by omega
    all_goals rcases j with _ | _ | _ | _ | j <;> rfl
  have hplace : i / 8 = 4 * (i / 32) + i % 32 / 8 := by omega
  have hin : i % 32 % 8 = i % 8 := by omega
  rw [bit, bit, hplace, hbyte _ _ (by omega), hin]

/-- The bytes of the first `n` ones in a word. -/
def ones (n : Nat) : Quad := Quad.ofWord (IPAddress.innerMask (32 - n))

theorem bit_ones : ∀ n < 33, ∀ i < 32, bit (ones n).bytes i = decide (i < n) := by
  decide +kernel

end Bits

def keep (n : Nat) (q : Quad) : Quad := both q (ones n)

theorem bit_behind (q : Quad) {i : Nat} (hi : 32 ≤ i) : bit q.bytes i = false := by
  obtain ⟨k, hk⟩ : ∃ k, i / 8 = k + 4 := ⟨i / 8 - 4, by omega⟩
  rw [bit, hk]
  simp [Quad.bytes]

theorem bit_keep {n : Nat} (hn : n ≤ 32) (i : Nat) (q : Quad) :
    bit (keep n q).bytes i = (decide (i < n) && bit q.bytes i) := by
  by_cases hi : i < 32
  · rw [keep, bit_both, bit_ones n (by omega) i hi, Bool.and_comm]
  · rw [bit_behind _ (Nat.not_lt.mp hi), bit_behind _ (Nat.not_lt.mp hi), Bool.and_false]

theorem keep_all (q : Quad) : keep 32 q = q := by
  apply ext_bits
  intro i hi
  rw [bit_keep (Nat.le_refl 32), decide_eq_true hi, Bool.true_and]

theorem bit_zero (i : Nat) : bit zero.bytes i = false := by
  by_cases hi : i < 32
  · rw [bit_word zero hi]
    exact Nat.zero_testBit _
  · exact bit_behind zero (Nat.not_lt.mp hi)

theorem keep_none (q : Quad) : keep 0 q = zero := by
  apply ext_bits
  intro i hi
  rw [bit_keep (Nat.zero_le 32), bit_zero, decide_eq_false (Nat.not_lt_zero i), Bool.false_and]

theorem keep_keep {m n : Nat} (hm : m ≤ 32) (hn : n ≤ 32) (q : Quad) :
    keep m (keep n q) = keep (min m n) q := by
  apply ext_bits
  intro i hi
  have hmin : i < min m n ↔ i < m ∧ i < n := Nat.lt_min
  rw [bit_keep hm, bit_keep hn, bit_keep (Nat.le_trans (Nat.min_le_left m n) hm),
    ← Bool.and_assoc, ← Bool.decide_and, decide_eq_decide.mpr hmin]

end Ashe.IPWords
