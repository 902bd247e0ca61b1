import Ashe.HexEncode
import Mathlib.Algebra.Group.Nat.Defs

namespace Ashe.HexBounds

open Buffers HexEncode

/-- What the encoder writes for `n` more bytes, with the terminating zero. After
the last byte the zero takes the place of the delimiter. -/
def encodeRoom (delimiter : UInt8) (n : Nat) : Nat :=
  if n = 0 then 1 else if delimiter ≠ 0 then 3 * n else 2 * n + 1

theorem encodeRoom_last (delimiter : UInt8) :
    2 + encodeRoom delimiter 0 ≤ encodeRoom delimiter 1 := by
  simp only [encodeRoom]
  split <;> simp_all

theorem encodeRoom_delimiter {delimiter : UInt8} (hd : delimiter ≠ 0) {n : Nat} (hn : 0 < n) :
    3 + encodeRoom delimiter n = encodeRoom delimiter (n + 1) := by
  simp only [encodeRoom]
  rw [if_neg (by omega), if_pos hd, if_neg (by omega), if_pos hd]
  omega

theorem encodeRoom_plain {n : Nat} : 2 + encodeRoom 0 n = encodeRoom 0 (n + 1) := by
  cases n with
  | zero => rfl
  | succ n =>
      simp only [encodeRoom, ne_eq, not_true_eq_false, if_false]
      rw [if_neg (by omega), if_neg (by omega)]
      omega

theorem encodeLoop_inside {source : List UInt8} (delimiter : UInt8) {n : Nat}
    {buffer : List UInt8} {srcpos bufpos : Nat} (hn : source.length - srcpos = n)
    (hroom : bufpos + encodeRoom delimiter n ≤ buffer.length) :
    ∃ r, encodeLoop source source.length delimiter buffer srcpos bufpos = some r := by
  induction n generalizing buffer srcpos bufpos with
  | zero =>
      rw [encodeRoom, if_pos rfl] at hroom
      obtain ⟨buffer', hstore, -⟩ := store_inside 0 (by omega : bufpos < buffer.length)
      rw [encodeLoop, if_neg (by omega), hstore]
      exact ⟨_, rfl⟩
  | succ n ih =>
      have hread : source[srcpos]? = some source[srcpos] := List.getElem?_eq_getElem (by omega)
      have htwo : 2 < encodeRoom delimiter (n + 1) := by
        rw [encodeRoom, if_neg (by omega)]
        split <;> omega
      obtain ⟨buffer₁, h₁, hlen₁⟩ := store_inside
        (hexEncodeDigit ((source[srcpos] >>> 4) &&& 0xF)) (by omega : bufpos < buffer.length)
      obtain ⟨buffer₂, h₂, hlen₂⟩ := store_inside (hexEncodeDigit (source[srcpos] &&& 0xF))
        (by omega : bufpos + 1 < buffer₁.length)
      rw [encodeLoop, if_pos (by omega)]
      simp only [hread, Option.bind_eq_bind, Option.bind_some, h₁, h₂]
      split
      next hd =>
        have hmore := encodeRoom_delimiter hd.1 (by omega : 0 < n)
        obtain ⟨buffer₃, h₃, hlen₃⟩ := store_inside delimiter
          (by omega : bufpos + 2 < buffer₂.length)
        rw [h₃, Option.bind_some]
        exact ih (by omega) (by omega)
      next hd =>
        have hmore : 2 + encodeRoom delimiter n ≤ encodeRoom delimiter (n + 1) := by
          by_cases h0 : delimiter = 0
          · subst h0
            exact Nat.le_of_eq encodeRoom_plain
          · have hlast : n = 0 := by
              have := mt (And.intro h0) hd
              omega
            rw [hlast]
            exact encodeRoom_last delimiter
        exact ih (by omega) (by omega)

theorem hexEncodeWithDelimiter_inside (source buffer : List UInt8) (delimiter : UInt8) :
    ∃ r, hexEncodeWithDelimiter buffer buffer.length source source.length delimiter = some r := by
  rw [hexEncodeWithDelimiter]
  split
  next => exact ⟨_, rfl⟩
  next h0 =>
    by_cases hneeded : buffer.length <
        if delimiter ≠ 0 then source.length * 3 else source.length * 2 + 1
    · exact ⟨_, if_pos hneeded⟩
    · rw [if_neg hneeded]
      refine encodeLoop_inside delimiter rfl ?_
      rw [encodeRoom, Nat.sub_zero, Nat.zero_add]
      split
      next => omega
      next =>
        by_cases hd : delimiter ≠ 0
        · rw [if_pos hd] at hneeded ⊢
          omega
        · rw [if_neg hd] at hneeded ⊢
          omega

/-- The bytes that the decoder writes for `n` more characters, at most. -/
def decodeRoom (delimiter : UInt8) (n : Nat) : Nat :=
  if delimiter ≠ 0 then (n + 1) / 3 else n / 2

theorem decodeRoom_delimiter {delimiter : UInt8} (hd : delimiter ≠ 0) (n : Nat) :
    1 + decodeRoom delimiter n = decodeRoom delimiter (n + 3) := by
  rw [decodeRoom, decodeRoom, if_pos hd, if_pos hd]
  omega

/-- Without a delimiter to skip, at most one character is left behind the two
digits, or there is no delimiter at all. -/
theorem decodeRoom_digits {delimiter : UInt8} {n : Nat} (h : ¬ (delimiter ≠ 0 ∧ n > 1)) :
    1 + decodeRoom delimiter n ≤ decodeRoom delimiter (n + 2) := by
  rw [decodeRoom, decodeRoom]
  split
  next hd =>
    have hshort := mt (And.intro hd) h
    omega
  next => omega

/-- One turn of the decoder: it gives up with a count of zero, or goes on behind two digits
and the delimiter, where there is one to skip. -/
theorem decodeLoop_turn {source buffer : List UInt8} (delimiter : UInt8) {srcpos bufpos : Nat}
    (hpos : srcpos < source.length) (hroom : srcpos + 1 < source.length → bufpos < buffer.length) :
    (∃ r, decodeLoop source source.length delimiter buffer srcpos bufpos = some r) ∨
    ∃ buffer' next, srcpos + 1 < source.length ∧ buffer'.length = buffer.length ∧
      decodeLoop source source.length delimiter buffer srcpos bufpos =
        decodeLoop source source.length delimiter buffer' next (bufpos + 1) ∧
      if delimiter ≠ 0 ∧ source.length - (srcpos + 2) > 1 then next = srcpos + 3
      else next = srcpos + 2 := by
  rw [decodeLoop, if_pos hpos]
  split
  next => exact .inl ⟨_, rfl⟩
  next htwo =>
    have hsecond : srcpos + 1 < source.length := by omega
    rw [List.getElem?_eq_getElem hpos, Option.bind_eq_bind, Option.bind_some]
    cases hexDecodeDigit source[srcpos] with
    | none => exact .inl ⟨_, rfl⟩
    | some h1 =>
        dsimp only
        rw [List.getElem?_eq_getElem hsecond, Option.bind_some]
        cases hexDecodeDigit source[srcpos + 1] with
        | none => exact .inl ⟨_, rfl⟩
        | some h2 =>
            obtain ⟨buffer', hstore, hlen⟩ := store_inside ((h1 <<< 4) ||| h2) (hroom hsecond)
            simp only [hstore, Option.bind_eq_bind, Option.bind_some]
            split
            next hd =>
              rw [List.getElem?_eq_getElem (by omega : srcpos + 2 < source.length),
                Option.bind_some]
              split
              next => exact .inl ⟨_, rfl⟩
              next => exact .inr ⟨buffer', srcpos + 3, hsecond, hlen, rfl, rfl⟩
            next hd => exact .inr ⟨buffer', srcpos + 2, hsecond, hlen, rfl, rfl⟩

theorem decodeLoop_inside {source : List UInt8} (delimiter : UInt8) {n : Nat}
    {buffer : List UInt8} {srcpos bufpos : Nat} (hn : source.length - srcpos = n)
    (hroom : bufpos + decodeRoom delimiter n ≤ buffer.length) :
    ∃ r, decodeLoop source source.length delimiter buffer srcpos bufpos = some r := by
  induction n using Nat.strongRecOn generalizing buffer srcpos bufpos with
  | ind n ih =>
      by_cases hpos : srcpos < source.length
      · have hone : srcpos + 1 < source.length → bufpos < buffer.length := by
          intro hsecond
          have hsome : 0 < decodeRoom delimiter n := by
            rw [decodeRoom]
            split <;> omega
          omega
        rcases decodeLoop_turn delimiter hpos hone with
          hr | ⟨buffer', next, htwo, hlen, hrun, hnext⟩
        · exact hr
        · rw [hrun]
          split at hnext
          next hd =>
            obtain ⟨k, rfl⟩ : ∃ k, n = k + 3 := ⟨n - 3, by omega⟩
            have hmore := decodeRoom_delimiter hd.1 k
            exact ih k (by omega) (by omega) (by omega)
          next hd =>
            obtain ⟨k, rfl⟩ : ∃ k, n = k + 2 := ⟨n - 2, by omega⟩
            have hmore := decodeRoom_digits (n := k) (fun h => hd ⟨h.1, by omega⟩)
            exact ih k (by omega) (by omega) (by omega)
      · rw [decodeLoop, if_neg hpos]
        exact ⟨_, rfl⟩

theorem hexDecodeWithDelimiter_inside (source buffer : List UInt8) (delimiter : UInt8) :
    ∃ r, hexDecodeWithDelimiter buffer buffer.length source source.length delimiter = some r := by
  rw [hexDecodeWithDelimiter]
  split
  next => exact ⟨_, rfl⟩
  next =>
    by_cases hneeded : buffer.length <
        if delimiter ≠ 0 then (source.length + 1) / 3 else source.length / 2
    · exact ⟨_, if_pos hneeded⟩
    · rw [if_neg hneeded]
      refine decodeLoop_inside delimiter rfl ?_
      rw [decodeRoom, Nat.sub_zero, Nat.zero_add]
      exact Nat.le_of_not_lt hneeded

/-- For every source, destination and delimiter no access is outside of the two
arrays, and the sizes that are compared do not leave the range of size_t. -/
theorem hex_codec_inside (source buffer : List UInt8) (delimiter : UInt8)
    (hsrc : source.length < 2 ^ 62) :
    source.length * 3 < 2 ^ 64 ∧ source.length * 2 + 1 < 2 ^ 64 ∧
      hexEncodeWithDelimiter buffer buffer.length source source.length delimiter ≠ none ∧
      hexDecodeWithDelimiter buffer buffer.length source source.length delimiter ≠ none := by
  obtain ⟨r, hr⟩ := hexEncodeWithDelimiter_inside source buffer delimiter
  obtain ⟨r', hr'⟩ := hexDecodeWithDelimiter_inside source buffer delimiter
  refine ⟨by omega, by omega, ?_, ?_⟩
  · rw [hr]
    exact Option.some_ne_none r
  · rw [hr']
    exact Option.some_ne_none r'

/-- A text that ends behind a delimiter. -/
theorem hex_codec_inside_short :
    [0x61, 0x62, 0x2d, 0x63].length * 3 < 2 ^ 64 ∧
      [0x61, 0x62, 0x2d, 0x63].length * 2 + 1 < 2 ^ 64 ∧
      hexEncodeWithDelimiter [0] 1 [0x61, 0x62, 0x2d, 0x63] 4 0x2d ≠ none ∧
      hexDecodeWithDelimiter [0] 1 [0x61, 0x62, 0x2d, 0x63] 4 0x2d ≠ none :=
  hex_codec_inside [0x61, 0x62, 0x2d, 0x63] [0] 0x2d (by decide)

end Ashe.HexBounds
