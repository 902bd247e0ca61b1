import Ashe.Base64
import Mathlib.Algebra.Group.Nat.Defs

namespace Ashe.Base64RoundTrip

open Base64

section Bits

variable (b : UInt8)

theorem high_bits {m s : UInt8} (j k : Nat) (hs : s.toNat = k) (hk : k < 8)
    (hm : m.toNat = (2 ^ j - 1) <<< k) :
    ((b &&& m) >>> s).toNat = b.toNat / 2 ^ k % 2 ^ j := by
  rw [UInt8.toNat_shiftRight, UInt8.toNat_and, hs, hm, Nat.mod_eq_of_lt hk,
    Nat.shiftRight_and_distrib, Nat.shiftLeft_shiftRight, Nat.shiftRight_eq_div_pow,
    Nat.and_two_pow_sub_one_eq_mod]

theorem low_bits {m s : UInt8} (j k : Nat) (hs : s.toNat = k) (hk : k < 8)
    (hm : m.toNat = 2 ^ j - 1) :
    ((b &&& m) <<< s).toNat = b.toNat % 2 ^ j * 2 ^ k % 256 := by
  rw [UInt8.toNat_shiftLeft, UInt8.toNat_and, hs, hm, Nat.mod_eq_of_lt hk,
    Nat.and_two_pow_sub_one_eq_mod, Nat.shiftLeft_eq]

theorem high_six : ((b &&& 0xfc) >>> 2).toNat = b.toNat / 4 := by
  have hb := b.toNat_lt
  rw [high_bits b 6 2 rfl (by omega) rfl]
  omega

theorem high_four : ((b &&& 0xf0) >>> 4).toNat = b.toNat / 16 := by
  have hb := b.toNat_lt
  rw [high_bits b 4 4 rfl (by omega) rfl]
  omega

theorem high_two : ((b &&& 0xc0) >>> 6).toNat = b.toNat / 64 := by
  have hb := b.toNat_lt
  rw [high_bits b 2 6 rfl (by omega) rfl]
  omega

theorem low_two : ((b &&& 0x03) <<< 4).toNat = b.toNat % 4 * 16 := by
  rw [low_bits b 2 4 rfl (by omega) rfl]
  omega

theorem low_four : ((b &&& 0x0f) <<< 2).toNat = b.toNat % 16 * 4 := by
  rw [low_bits b 4 2 rfl (by omega) rfl]
  omega

theorem low_six : (b &&& 0x3f).toNat = b.toNat % 64 := by
  rw [UInt8.toNat_and]
  exact Nat.and_two_pow_sub_one_eq_mod _ 6

theorem shift_two : (b <<< 2).toNat = b.toNat * 4 % 256 := by
  rw [UInt8.toNat_shiftLeft, Nat.shiftLeft_eq]
  rfl

theorem top_two : ((b &&& 0x30) >>> 4).toNat = b.toNat / 16 % 4 :=
  high_bits b 2 4 rfl (by omega) rfl

theorem shift_four : ((b &&& 0x0f) <<< 4).toNat = b.toNat % 16 * 16 := by
  rw [low_bits b 4 4 rfl (by omega) rfl]
  omega

theorem top_four : ((b &&& 0x3c) >>> 2).toNat = b.toNat / 4 % 16 :=
  high_bits b 4 2 rfl (by omega) rfl

theorem shift_six : ((b &&& 0x03) <<< 6).toNat = b.toNat % 4 * 64 := by
  rw [low_bits b 2 6 rfl (by omega) rfl]
  omega

end Bits

section Bytes

variable {b x y : UInt8}

theorem first_byte (hx : x.toNat < 16) :
    (((b &&& 0xfc) >>> 2) <<< 2) + (((((b &&& 0x03) <<< 4) + x) &&& 0x30) >>> 4) = b := by
  have hb := b.toNat_lt
  apply UInt8.toNat_inj.mp
  rw [UInt8.toNat_add, shift_two, top_two, UInt8.toNat_add, high_six, low_two]
  omega

theorem second_byte (hx : x.toNat % 16 = 0) (hy : y.toNat < 4) :
    (((x + ((b &&& 0xf0) >>> 4)) &&& 0x0f) <<< 4) +
      (((((b &&& 0x0f) <<< 2) + y) &&& 0x3c) >>> 2) = b := by
  have hb := b.toNat_lt
  apply UInt8.toNat_inj.mp
  rw [UInt8.toNat_add, shift_four, top_four, UInt8.toNat_add, UInt8.toNat_add, high_four, low_four]
  omega

theorem third_byte (hx : x.toNat % 4 = 0) :
    (((x + ((b &&& 0xc0) >>> 6)) &&& 0x03) <<< 6) + (b &&& 0x3f) = b := by
  have hb := b.toNat_lt
  apply UInt8.toNat_inj.mp
  rw [UInt8.toNat_add, shift_six, UInt8.toNat_add, high_two, low_six]
  omega

end Bytes

section Encode

variable {before bytes : List UInt8} {pos : UInt32}

theorem next_positions (hpos : pos.toNat = before.length) (hlen : before.length + 3 < 2 ^ 32) :
    (pos + 1).toNat = before.length + 1 ∧ (pos + 2).toNat = before.length + 2 ∧
      (pos + 3).toNat = before.length + 3 := by
  refine ⟨?_, ?_, ?_⟩ <;> rw [UInt32.toNat_add, hpos] <;> exact Nat.mod_eq_of_lt (by simp; omega)

theorem encodeTurn_three (url : Bool) (b0 b1 b2 : UInt8) (hpos : pos.toNat = before.length)
    (hlen : before.length + 3 < 2 ^ 32) :
    encodeTurn (before ++ b0 :: b1 :: b2 :: bytes) (before ++ b0 :: b1 :: b2 :: bytes).length url
      pos = some (threeBytes url b0 b1 b2) := by
  obtain ⟨h1, h2, -⟩ := next_positions hpos hlen
  simp [encodeTurn, hpos, h1, h2]

theorem encodeTurn_two (url : Bool) (b0 b1 : UInt8) (hpos : pos.toNat = before.length)
    (hlen : before.length + 3 < 2 ^ 32) :
    encodeTurn (before ++ [b0, b1]) (before ++ [b0, b1]).length url pos =
      some (twoBytes url b0 b1) := by
  obtain ⟨h1, h2, -⟩ := next_positions hpos hlen
  simp [encodeTurn, hpos, h1, h2]

theorem encodeTurn_one (url : Bool) (b0 : UInt8) (hpos : pos.toNat = before.length)
    (hlen : before.length + 3 < 2 ^ 32) :
    encodeTurn (before ++ [b0]) (before ++ [b0]).length url pos = some (oneByte url b0) := by
  obtain ⟨h1, -, -⟩ := next_positions hpos hlen
  simp [encodeTurn, hpos, h1]

/-- The loop ends before the position can wrap around: the last number of 32 bits is a
multiple of three. -/
theorem encodeLoop_encoded (url : Bool) (bytes before ret : List UInt8) (n : Nat) (pos : UInt32)
    (hpos : pos.toNat = before.length) (hmod : before.length % 3 = 0)
    (hlen : (before ++ bytes).length < 2 ^ 32) (hn : bytes.length < n) :
    encodeLoop (before ++ bytes) (before ++ bytes).length url n pos ret =
      some (ret ++ encoded url bytes) := by
  cases n with
  | zero => omega
  | succ n =>
      have hroom (h : bytes ≠ []) : before.length + 3 < 2 ^ 32 := by
        have hpositive := List.length_pos_of_ne_nil h
        rw [List.length_append] at hlen
        omega
      have h3 (h : bytes ≠ []) : (pos + 3).toNat = before.length + 3 :=
        (next_positions hpos (hroom h)).2.2
      rw [encodeLoop, hpos]
      match bytes with
      | [] => simp [encoded]
      | [b0] =>
          have hend : encodeLoop (before ++ [b0]) (before ++ [b0]).length url n (pos + 3)
              (ret ++ oneByte url b0) = some (ret ++ oneByte url b0) := by
            cases n with
            | zero => simp at hn
            | succ n => simp [encodeLoop, h3]
          rw [encodeTurn_one url b0 hpos (hroom (by simp))]
          simpa [encoded] using hend
      | [b0, b1] =>
          have hend : encodeLoop (before ++ [b0, b1]) (before ++ [b0, b1]).length url n (pos + 3)
              (ret ++ twoBytes url b0 b1) = some (ret ++ twoBytes url b0 b1) := by
            cases n with
            | zero => simp at hn
            | succ n => simp [encodeLoop, h3]
          rw [encodeTurn_two url b0 b1 hpos (hroom (by simp))]
          simpa [encoded] using hend
      | b0 :: b1 :: b2 :: bytes =>
          have ih := encodeLoop_encoded url bytes (before ++ [b0, b1, b2])
            (ret ++ threeBytes url b0 b1 b2) n (pos + 3) (by simp [h3]) (by simp [hmod])
            (by simpa using hlen) (by simp at hn; omega)
          rw [encodeTurn_three url b0 b1 b2 hpos (hroom (by simp))]
          simpa [encoded] using ih

end Encode

section Decode

variable {before after : List UInt8}

theorem getD_behind (before bytes : List UInt8) (i : Nat) :
    (before ++ bytes).getD (before.length + i) 0 = bytes.getD i 0 := by
  rw [List.getD_eq_getElem?_getD, List.getElem?_append_right (Nat.le_add_right ..),
    Nat.add_sub_cancel_left, List.getD_eq_getElem?_getD]

theorem unpadded_behind (bytes : List UInt8) (i : Nat) :
    unpadded (before ++ bytes) (before.length + i) ↔ unpadded bytes i := by
  rw [unpadded, unpadded, getD_behind, List.length_append, Nat.add_lt_add_iff_left]

theorem decodeTurn_behind (bytes : List UInt8) :
    decodeTurn (before ++ bytes) before.length = decodeTurn bytes 0 := by
  have h0 := getD_behind before bytes 0
  rw [Nat.add_zero] at h0
  simp only [decodeTurn, getD_behind, unpadded_behind, h0, Nat.zero_add]

theorem unpadded_char {text : List UInt8} {url : Bool} {pos : Nat} {i : UInt8}
    (hlen : pos < text.length) (ht : text.getD pos 0 = base64Char url i) (hi : i.toNat < 64) :
    unpadded text pos := by
  obtain ⟨hpad, hdot⟩ := base64Char_ne_padding url i hi
  exact ⟨hlen, ht ▸ hpad, ht ▸ hdot⟩

theorem not_unpadded_trailing {text : List UInt8} {url : Bool} {pos : Nat}
    (ht : text.getD pos 0 = trailingChar url) : ¬unpadded text pos := by
  rintro ⟨-, hpad, hdot⟩
  cases trailingChar_padding url with
  | inl h => exact hpad (ht.trans h)
  | inr h => exact hdot (ht.trans h)

section Positions

variable {p0 p1 p2 p3 : UInt8}

theorem decodeTurn_four (url : Bool) (h0 : p0.toNat < 64) (h1 : p1.toNat < 64)
    (h2 : p2.toNat < 64) (h3 : p3.toNat < 64) :
    decodeTurn (base64Char url p0 :: base64Char url p1 :: base64Char url p2 ::
        base64Char url p3 :: after) 0 =
      some [(p0 <<< 2) + ((p1 &&& 0x30) >>> 4), ((p1 &&& 0x0f) <<< 4) + ((p2 &&& 0x3c) >>> 2),
        ((p2 &&& 0x03) <<< 6) + p3] := by
  have hthird : unpadded (base64Char url p0 :: base64Char url p1 :: base64Char url p2 ::
      base64Char url p3 :: after) 2 := unpadded_char (by simp) rfl h2
  have hfourth : unpadded (base64Char url p0 :: base64Char url p1 :: base64Char url p2 ::
      base64Char url p3 :: after) 3 := unpadded_char (by simp) rfl h3
  simp [decodeTurn, hthird, hfourth, getPosOfChar_base64Char, h0, h1, h2, h3]

theorem decodeTurn_padded_one (url : Bool) (h0 : p0.toNat < 64) (h1 : p1.toNat < 64)
    (h2 : p2.toNat < 64) :
    decodeTurn (base64Char url p0 :: base64Char url p1 :: base64Char url p2 ::
        trailingChar url :: after) 0 =
      some [(p0 <<< 2) + ((p1 &&& 0x30) >>> 4),
        ((p1 &&& 0x0f) <<< 4) + ((p2 &&& 0x3c) >>> 2)] := by
  have hthird : unpadded (base64Char url p0 :: base64Char url p1 :: base64Char url p2 ::
      trailingChar url :: after) 2 := unpadded_char (by simp) rfl h2
  have hfourth : ¬unpadded (base64Char url p0 :: base64Char url p1 :: base64Char url p2 ::
      trailingChar url :: after) 3 := not_unpadded_trailing rfl
  simp [decodeTurn, hthird, hfourth, getPosOfChar_base64Char, h0, h1, h2]

theorem decodeTurn_padded_two (url : Bool) (h0 : p0.toNat < 64) (h1 : p1.toNat < 64) (c : UInt8) :
    decodeTurn (base64Char url p0 :: base64Char url p1 :: trailingChar url :: c :: after) 0 =
      some [(p0 <<< 2) + ((p1 &&& 0x30) >>> 4)] := by
  have hthird : ¬unpadded (base64Char url p0 :: base64Char url p1 :: trailingChar url ::
      c :: after) 2 := not_unpadded_trailing rfl
  simp [decodeTurn, hthird, getPosOfChar_base64Char, h0, h1]

end Positions

section Groups

variable (url : Bool) (b0 b1 b2 : UInt8) (after : List UInt8)

theorem first_lt : ((b0 &&& 0xfc) >>> 2).toNat < 64 := by
  have hb := b0.toNat_lt
  rw [high_six]
  omega

theorem second_lt : (((b0 &&& 0x03) <<< 4) + ((b1 &&& 0xf0) >>> 4)).toNat < 64 := by
  have hb := b1.toNat_lt
  rw [UInt8.toNat_add, low_two, high_four]
  omega

theorem third_lt : (((b1 &&& 0x0f) <<< 2) + ((b2 &&& 0xc0) >>> 6)).toNat < 64 := by
  have hb := b2.toNat_lt
  rw [UInt8.toNat_add, low_four, high_two]
  omega

theorem decodeTurn_three :
    decodeTurn (threeBytes url b0 b1 b2 ++ after) 0 = some [b0, b1, b2] := by
  have hb1 := b1.toNat_lt
  have hb2 := b2.toNat_lt
  have hfourth : (b2 &&& 0x3f).toNat < 64 := by
    rw [low_six]
    omega
  refine (decodeTurn_four url (first_lt b0) (second_lt b0 b1) (third_lt b1 b2) hfourth).trans ?_
  rw [first_byte (by rw [high_four]; omega), third_byte (by rw [low_four]; omega),
    second_byte (by rw [low_two]; omega) (by rw [high_two]; omega)]

theorem decodeTurn_two : decodeTurn (twoBytes url b0 b1 ++ after) 0 = some [b0, b1] := by
  have hb1 := b1.toNat_lt
  have hthird : ((b1 &&& 0x0f) <<< 2).toNat < 64 := by
    rw [low_four]
    omega
  have hlast := second_byte (b := b1) (x := (b0 &&& 0x03) <<< 4) (y := 0)
    (by rw [low_two]; omega) (by decide)
  rw [UInt8.add_zero] at hlast
  refine (decodeTurn_padded_one url (first_lt b0) (second_lt b0 b1) hthird).trans ?_
  rw [first_byte (by rw [high_four]; omega), hlast]

theorem decodeTurn_one : decodeTurn (oneByte url b0 ++ after) 0 = some [b0] := by
  have hsecond : ((b0 &&& 0x03) <<< 4).toNat < 64 := by
    rw [low_two]
    omega
  have hlast := first_byte (b := b0) (x := 0) (by decide)
  rw [UInt8.add_zero] at hlast
  refine (decodeTurn_padded_two url (first_lt b0) hsecond _).trans ?_
  rw [hlast]

end Groups

theorem decodeLoop_turn (before ret : List UInt8) {group text out : List UInt8}
    (hlen : group.length = 4) (hturn : decodeTurn (group ++ text) 0 = some out) :
    decodeLoop (before ++ (group ++ text)) before.length ret =
      decodeLoop ((before ++ group) ++ text) (before ++ group).length (ret ++ out) := by
  rw [decodeLoop, if_pos (by simp; omega), decodeTurn_behind, hturn, List.length_append, hlen,
    List.append_assoc]
  rfl

theorem decodeLoop_end (ret : List UInt8) : decodeLoop before before.length ret = some ret := by
  rw [decodeLoop, if_neg (Nat.lt_irrefl _)]

theorem decodeLoop_encoded (url : Bool) (bytes before ret : List UInt8) :
    decodeLoop (before ++ encoded url bytes) before.length ret = some (ret ++ bytes) := by
  match bytes with
  | [] => simp [encoded, decodeLoop_end]
  | [b0] =>
      have h := decodeLoop_turn before ret rfl
        (decodeTurn_one url b0 [])
      rw [List.append_nil, List.append_nil, decodeLoop_end] at h
      exact h
  | [b0, b1] =>
      have h := decodeLoop_turn before ret rfl
        (decodeTurn_two url b0 b1 [])
      rw [List.append_nil, List.append_nil, decodeLoop_end] at h
      exact h
  | b0 :: b1 :: b2 :: bytes =>
      have h := decodeLoop_turn before ret rfl
        (decodeTurn_three url b0 b1 b2 (encoded url bytes))
      rw [decodeLoop_encoded url bytes, List.append_assoc] at h
      exact h

end Decode

theorem encoded_eq_nil {url : Bool} {s : List UInt8} (h : encoded url s = []) : s = [] := by
  match s with
  | [] => rfl
  | [b0] => exact absurd h (by simp [encoded, oneByte])
  | [b0, b1] => exact absurd h (by simp [encoded, twoBytes])
  | b0 :: b1 :: b2 :: bytes => exact absurd h (by simp [encoded, threeBytes])

theorem encode_eq (url : Bool) {s : List UInt8} (hlen : s.length < 2 ^ 32) {n : Nat}
    (hn : s.length < n) : encode n s url = some (encoded url s) := by
  have h := encodeLoop_encoded url s [] [] n 0 rfl rfl hlen hn
  rwa [List.nil_append] at h

theorem decode_encoded (url : Bool) (s : List UInt8) : decode (encoded url s) false = s := by
  by_cases hs : encoded url s = []
  · rw [hs, encoded_eq_nil hs]
    rfl
  · have h := decodeLoop_encoded url s [] []
    rw [List.nil_append, List.length_nil, List.nil_append] at h
    rw [decode, decodeFlag, if_neg hs, if_neg (by decide), decodeText, if_neg hs, h]
    rfl

end Ashe.Base64RoundTrip
