import Ashe.AesCipher
import Ashe.Buffers
import Ashe.CbcChaining

namespace Ashe.AesInverse

open AesCipher Buffers CbcChaining

theorem getSBoxInvert_getSBoxValue (b : UInt8) : getSBoxInvert (getSBoxValue b) = b := by
  revert b
  decide +kernel

theorem Column.mk_xor (a b c d a' b' c' d' : UInt8) :
    (⟨a, b, c, d⟩ ^^^ ⟨a', b', c', d'⟩ : Column) = ⟨a ^^^ a', b ^^^ b', c ^^^ c', d ^^^ d'⟩ :=
  rfl

theorem Column.xor_xor (c d : Column) : c ^^^ d ^^^ d = c := by
  have cancel (a b : UInt8) : a ^^^ b ^^^ b = a := by
    rw [UInt8.xor_assoc, UInt8.xor_self, UInt8.xor_zero]
  ext1 <;> apply cancel

theorem State.xor_xor (s t : State) : s ^^^ t ^^^ t = s := by
  ext1 <;> apply Column.xor_xor

theorem bit_zero_or_one (a k : UInt8) : bit a k = 0 ∨ bit a k = 1 := by
  rw [bit]
  generalize a >>> k = x
  revert x
  decide +kernel

theorem bit_xor (a b k : UInt8) : bit (a ^^^ b) k = bit a k ^^^ bit b k := by
  rw [bit, UInt8.shiftRight_xor]
  apply UInt8.eq_of_toBitVec_eq
  ext i
  simp [bit, Bool.and_xor_distrib_right]

theorem bit_xor_mul (a b k x : UInt8) : bit (a ^^^ b) k * x = bit a k * x ^^^ bit b k * x := by
  rw [bit_xor]
  rcases bit_zero_or_one a k with ha | ha <;> rcases bit_zero_or_one b k with hb | hb <;>
    simp [ha, hb]

theorem bit_mul_xor (a k x y : UInt8) : bit a k * (x ^^^ y) = bit a k * x ^^^ bit a k * y := by
  rcases bit_zero_or_one a k with ha | ha <;> simp [ha]

def places : List UInt8 := [0, 1, 2, 3, 4, 5, 6, 7]

theorem bits_sum : ∀ b, places.foldr (fun k c => bit b k * (1 <<< k) ^^^ c) 0 = b := by
  decide +kernel

/-- What xor keeps is true of all bytes where it is true of the powers of two. -/
theorem byte_of_bits {p : UInt8 → Prop} (hzero : p 0) (hxor : ∀ a b, p a → p b → p (a ^^^ b))
    (hone : ∀ k ∈ places, p (1 <<< k)) (b : UInt8) : p b := by
  have hsum (ks : List UInt8) (h : ∀ k ∈ ks, p (1 <<< k)) :
      p (ks.foldr (fun k c => bit b k * (1 <<< k) ^^^ c) 0) := by
    induction ks with
    | nil => exact hzero
    | cons k ks ih =>
        apply hxor
        · rcases bit_zero_or_one b k with hbit | hbit
          · rwa [hbit, UInt8.zero_mul]
          · rw [hbit, UInt8.one_mul]
            exact h k List.mem_cons_self
        · exact ih fun k hk => h k (List.mem_cons_of_mem _ hk)
  rw [← bits_sum b]
  exact hsum places hone

theorem xtime_xor (a b : UInt8) : xtime (a ^^^ b) = xtime a ^^^ xtime b := by
  rw [xtime, xtime, xtime, bit_xor_mul, UInt8.shiftLeft_xor]
  ac_rfl

theorem multiply_xor (a b y : UInt8) : multiply (a ^^^ b) y = multiply a y ^^^ multiply b y := by
  simp only [multiply, xtime_xor, bit_mul_xor]
  ac_rfl

theorem mixColumn_xor (c d : Column) : mixColumn (c ^^^ d) = mixColumn c ^^^ mixColumn d := by
  obtain ⟨c0, c1, c2, c3⟩ := c
  obtain ⟨d0, d1, d2, d3⟩ := d
  simp only [mixColumn, Column.mk_xor, xtime_xor]
  congr 1 <;> ac_rfl

theorem invMixColumn_xor (c d : Column) :
    invMixColumn (c ^^^ d) = invMixColumn c ^^^ invMixColumn d := by
  obtain ⟨c0, c1, c2, c3⟩ := c
  obtain ⟨d0, d1, d2, d3⟩ := d
  simp only [invMixColumn, Column.mk_xor, multiply_xor]
  congr 1 <;> ac_rfl

def rotate (c : Column) : Column := ⟨c.b1, c.b2, c.b3, c.b0⟩

theorem mixColumn_rotate (c : Column) : mixColumn (rotate c) = rotate (mixColumn c) := by
  simp only [mixColumn, rotate]
  congr 1 <;> ac_rfl

theorem invMixColumn_rotate (c : Column) : invMixColumn (rotate c) = rotate (invMixColumn c) := by
  obtain ⟨c0, c1, c2, c3⟩ := c
  simp only [invMixColumn, rotate]
  congr 1 <;> ac_rfl

/-- Both maps are linear and turn with the column, so that columns with a first
byte only say all. -/
theorem invMixColumn_mixColumn (c : Column) : invMixColumn (mixColumn c) = c := by
  have first : ∀ b, invMixColumn (mixColumn ⟨b, 0, 0, 0⟩) = ⟨b, 0, 0, 0⟩ := by
    apply byte_of_bits
    · decide
    · intro a b ha hb
      have hsum : (⟨a ^^^ b, 0, 0, 0⟩ : Column) = ⟨a, 0, 0, 0⟩ ^^^ ⟨b, 0, 0, 0⟩ := by
        simp [Column.mk_xor]
      rw [hsum, mixColumn_xor, invMixColumn_xor, ha, hb]
    · decide +kernel
  have turn {c : Column} (h : invMixColumn (mixColumn c) = c) :
      invMixColumn (mixColumn (rotate c)) = rotate c := by
    rw [mixColumn_rotate, invMixColumn_rotate, h]
  have fourth (b : UInt8) : invMixColumn (mixColumn ⟨0, 0, 0, b⟩) = ⟨0, 0, 0, b⟩ := by
    simpa only [rotate] using turn (first b)
  have third (b : UInt8) : invMixColumn (mixColumn ⟨0, 0, b, 0⟩) = ⟨0, 0, b, 0⟩ := by
    simpa only [rotate] using turn (fourth b)
  have second (b : UInt8) : invMixColumn (mixColumn ⟨0, b, 0, 0⟩) = ⟨0, b, 0, 0⟩ := by
    simpa only [rotate] using turn (third b)
  obtain ⟨b0, b1, b2, b3⟩ := c
  have sum : (⟨b0, b1, b2, b3⟩ : Column) =
      ⟨b0, 0, 0, 0⟩ ^^^ ⟨0, b1, 0, 0⟩ ^^^ ⟨0, 0, b2, 0⟩ ^^^ ⟨0, 0, 0, b3⟩ := by
    simp [Column.mk_xor]
  rw [sum]
  simp only [mixColumn_xor, invMixColumn_xor, first, second, third, fourth]

theorem State.map_map {f g : Column → Column} (h : ∀ c, g (f c) = c) (s : State) :
    (s.map f).map g = s := by
  simp [State.map, h]

theorem invMixColumns_mixColumns (s : State) : invMixColumns (mixColumns s) = s :=
  State.map_map invMixColumn_mixColumn s

theorem invSubBytes_subBytes (s : State) : invSubBytes (subBytes s) = s := by
  refine State.map_map (fun c => ?_) s
  simp [Column.map, getSBoxInvert_getSBoxValue]

theorem invShiftRows_shiftRows (s : State) : invShiftRows (shiftRows s) = s := rfl

theorem addRoundKey_addRoundKey (round : Nat) (s : State) (RoundKey : List Column) :
    addRoundKey round (addRoundKey round s RoundKey) RoundKey = s := State.xor_xor ..

/-- Each round of InvCipher meets the state as SubBytes and ShiftRows of the
round that it undoes have left it. -/
theorem invCipher_cipher (s : State) (RoundKey : List Column) :
    invCipher (cipher s RoundKey) RoundKey = s := by
  have undo : ∀ s round, invMixColumns (addRoundKey round (invSubBytes (invShiftRows
      (shiftRows (subBytes (addRoundKey round (mixColumns (shiftRows (subBytes s)))
        RoundKey))))) RoundKey) = shiftRows (subBytes s) := by
    intro s round
    rw [invShiftRows_shiftRows, invSubBytes_subBytes, addRoundKey_addRoundKey,
      invMixColumns_mixColumns]
  rw [cipher, invCipher, addRoundKey_addRoundKey]
  rw [foldl_reverse_undoes (h := fun s => shiftRows (subBytes s)) undo, invShiftRows_shiftRows,
    invSubBytes_subBytes, addRoundKey_addRoundKey]

end Ashe.AesInverse
