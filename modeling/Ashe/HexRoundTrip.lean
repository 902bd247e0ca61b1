import Ashe.HexEncode

namespace Ashe.HexRoundTrip

open Buffers BufferQueue HexEncode

def digits (b : UInt8) : List UInt8 :=
  [hexEncodeDigit ((b >>> 4) &&& 0xF), hexEncodeDigit (b &&& 0xF)]

def separator (delimiter : UInt8) (after : List UInt8) : List UInt8 :=
  if delimiter ≠ 0 ∧ after ≠ [] then [delimiter] else []

def text (delimiter : UInt8) : List UInt8 → List UInt8
  | [] => []
  | b :: bs => digits b ++ separator delimiter bs ++ text delimiter bs

theorem text_length (delimiter : UInt8) (bs : List UInt8) :
    (text delimiter bs).length =
      2 * bs.length + (if delimiter ≠ 0 then bs.length - 1 else 0) := by
  induction bs with
  | nil => simp [text]
  | cons b bs ih =>
      simp only [text, digits, separator, List.length_append, ih, List.length_cons]
      cases bs with
      | nil => simp
      | cons c bs => split <;> simp_all <;> omega

/-- The buffer size that hexEncodeWithDelimiter asks for covers the text and
its terminating zero. -/
theorem text_fits (delimiter : UInt8) (bs : List UInt8) {buflen : Nat} (h0 : buflen ≠ 0)
    (h : (if delimiter ≠ 0 then bs.length * 3 else bs.length * 2 + 1) ≤ buflen) :
    (text delimiter bs).length < buflen := by
  rw [text_length]
  split at h <;> simp_all <;> omega

theorem encodeLoop_step (delimiter b : UInt8) (bs before written rest : List UInt8)
    (hr : (digits b ++ separator delimiter bs).length < rest.length) :
    encodeLoop (before ++ b :: bs) (before ++ b :: bs).length delimiter (written ++ rest)
        before.length written.length =
      encodeLoop (before ++ b :: bs) (before ++ b :: bs).length delimiter
        (written ++ (digits b ++ separator delimiter bs) ++
          rest.drop (digits b ++ separator delimiter bs).length)
        (before.length + 1) (written.length + (digits b ++ separator delimiter bs).length) := by
  have hread : (before ++ b :: bs)[before.length]? = some b := by simp
  have hmore : before.length + 1 < (before ++ b :: bs).length ↔ bs ≠ [] := by
    rw [List.length_append, List.length_cons, ← List.length_pos_iff]
    omega
  have hdigits : 2 < rest.length := by
    rw [digits, List.length_append, List.length_cons, List.length_singleton] at hr
    omega
  rw [encodeLoop, if_pos (by simp)]
  simp only [hread, Option.bind_eq_bind, Option.bind_some, store_next written rest _ rfl
    (by omega : 0 < rest.length)]
  rw [store_next _ _ _ (by simp) (by rw [List.length_drop]; omega), Option.bind_some]
  simp only [hmore, separator]
  by_cases hd : delimiter ≠ 0 ∧ bs ≠ []
  · rw [if_pos hd, if_pos hd, store_next _ _ _ (by simp) (by simp; omega), Option.bind_some]
    simp [digits]
  · rw [if_neg hd, if_neg hd]
    simp [digits]

theorem encodeLoop_text (delimiter : UInt8) (bs : List UInt8) :
    ∀ (before written rest : List UInt8), (text delimiter bs).length < rest.length →
      ∃ rest', encodeLoop (before ++ bs) (before ++ bs).length delimiter (written ++ rest)
          before.length written.length =
        some (written ++ text delimiter bs ++ rest',
          written.length + (text delimiter bs).length) := by
  induction bs with
  | nil =>
      intro before written rest hr
      refine ⟨0 :: rest.drop 1, ?_⟩
      rw [encodeLoop, if_neg (by simp), store_next written rest 0 rfl hr]
      simp [text]
  | cons b bs ih =>
      intro before written rest hr
      rw [text, List.length_append] at hr
      obtain ⟨rest', h⟩ := ih (before ++ [b]) (written ++ (digits b ++ separator delimiter bs))
        (rest.drop (digits b ++ separator delimiter bs).length) (by
          rw [List.length_drop]
          omega)
      refine ⟨rest', ?_⟩
      rw [encodeLoop_step delimiter b bs before written rest (by omega)]
      simpa [text, Nat.add_assoc] using h

theorem hexEncodeWithDelimiter_text (delimiter : UInt8) (bs buffer : List UInt8) {buflen : Nat}
    (h : (if delimiter ≠ 0 then bs.length * 3 else bs.length * 2 + 1) ≤ buflen)
    (hb : buflen ≤ buffer.length) :
    ∃ rest, hexEncodeWithDelimiter buffer buflen bs bs.length delimiter =
      some (text delimiter bs ++ rest, (text delimiter bs).length) := by
  rw [hexEncodeWithDelimiter]
  split
  next h0 =>
    have hnil : bs = [] := by
      apply List.eq_nil_of_length_eq_zero
      split at h <;> omega
    exact ⟨buffer, by simp [hnil, text]⟩
  next h0 =>
    have hfits := text_fits delimiter bs h0 h
    obtain ⟨rest, hl⟩ := encodeLoop_text delimiter bs [] [] buffer (by omega)
    refine ⟨rest, ?_⟩
    rw [if_neg (Nat.not_lt.mpr h)]
    simpa using hl

theorem digit_lt (b : UInt8) : ((b >>> 4) &&& 0xF).toNat < 16 ∧ (b &&& 0xF).toNat < 16 := by
  constructor <;> rw [UInt8.toNat_and] <;> exact Nat.lt_succ_of_le Nat.and_le_right

theorem hexDecodeDigit_digit :
    ∀ v : UInt8, v.toNat < 16 → hexDecodeDigit (hexEncodeDigit v) = some v := by
  decide +kernel

theorem halves : ∀ b : UInt8, (((b >>> 4) &&& 0xF) <<< 4) ||| (b &&& 0xF) = b := by
  decide +kernel

theorem decodeLoop_step (delimiter b : UInt8) (bs before written rest : List UInt8)
    (hr : 0 < rest.length) :
    decodeLoop (before ++ text delimiter (b :: bs)) (before ++ text delimiter (b :: bs)).length
        delimiter (written ++ rest) before.length written.length =
      decodeLoop (before ++ text delimiter (b :: bs)) (before ++ text delimiter (b :: bs)).length
        delimiter (written ++ [b] ++ rest.drop 1)
        (before ++ (digits b ++ separator delimiter bs)).length (written.length + 1) := by
  have hlen : (before ++ text delimiter (b :: bs)).length = before.length + 2 +
      (separator delimiter bs ++ text delimiter bs).length := by
    simp [text, digits]
    omega
  have hfirst : (before ++ text delimiter (b :: bs))[before.length]? =
      some (hexEncodeDigit ((b >>> 4) &&& 0xF)) := by simp [text, digits]
  have hsecond : (before ++ text delimiter (b :: bs))[before.length + 1]? =
      some (hexEncodeDigit (b &&& 0xF)) := by
    simp [text, digits]
  rw [decodeLoop, if_pos (by omega), if_neg (by omega)]
  simp only [hfirst, hsecond, Option.bind_eq_bind, Option.bind_some,
    hexDecodeDigit_digit _ (digit_lt b).1, hexDecodeDigit_digit _ (digit_lt b).2, halves,
    store_next written rest b rfl hr]
  -- the delimiter is skipped where the encoder wrote one
  by_cases hd : delimiter ≠ 0 ∧ bs ≠ []
  · have hthird : (before ++ text delimiter (b :: bs))[before.length + 2]? = some delimiter := by
      simp [text, digits, separator, hd]
    have hmore : 1 < (separator delimiter bs ++ text delimiter bs).length := by
      rw [List.length_append, text_length, separator, if_pos hd, List.length_singleton]
      have := List.length_pos_iff.mpr hd.2
      omega
    rw [if_pos ⟨hd.1, by omega⟩, hthird, Option.bind_some, if_neg (by simp)]
    simp [digits, separator, hd]
  · rw [if_neg]
    · simp [digits, separator, hd]
    · rintro ⟨h0, hlong⟩
      have hnil : bs = [] := by
        by_contra hne
        exact hd ⟨h0, hne⟩
      rw [hlen, hnil] at hlong
      simp [separator, text] at hlong

theorem decodeLoop_text (delimiter : UInt8) (bs : List UInt8) :
    ∀ (before written rest : List UInt8), bs.length ≤ rest.length →
      decodeLoop (before ++ text delimiter bs) (before ++ text delimiter bs).length delimiter
          (written ++ rest) before.length written.length =
        some (written ++ bs ++ rest.drop bs.length, written.length + bs.length) := by
  induction bs with
  | nil =>
      intro before written rest hr
      rw [decodeLoop, if_neg (by simp [text])]
      simp
  | cons b bs ih =>
      intro before written rest hr
      rw [List.length_cons] at hr
      rw [decodeLoop_step delimiter b bs before written rest (by omega)]
      have h := ih (before ++ (digits b ++ separator delimiter bs)) (written ++ [b]) (rest.drop 1)
        (by rw [List.length_drop]; omega)
      have hn : written.length + 1 + bs.length = written.length + (bs.length + 1) := by omega
      simpa [text, hn, Nat.add_comm 1] using h

/-- A text needs a byte of the destination for each byte it stands for. -/
theorem text_needed (delimiter : UInt8) (bs : List UInt8) :
    (if delimiter ≠ 0 then ((text delimiter bs).length + 1) / 3
      else (text delimiter bs).length / 2) = bs.length := by
  rw [text_length]
  split <;> omega

theorem hexDecodeWithDelimiter_text (delimiter : UInt8) (bs buffer : List UInt8) {buflen : Nat}
    (h : bs.length ≤ buflen) (hb : buflen ≤ buffer.length) :
    hexDecodeWithDelimiter buffer buflen (text delimiter bs) (text delimiter bs).length delimiter =
      some (bs ++ buffer.drop bs.length, bs.length) := by
  rw [hexDecodeWithDelimiter, text_needed, if_neg (Nat.not_lt.mpr h)]
  split
  next h0 =>
    have hnil : bs = [] := List.eq_nil_of_length_eq_zero (by omega)
    simp [hnil]
  next => simpa using decodeLoop_text delimiter bs [] [] buffer (by omega)

theorem length_malloc (n : Nat) (left : Nat → UInt8) : (malloc n left).length = n := by
  simp [malloc]

/-- The buffer of a string version is three times as long as its source. -/
theorem hexEncodeToString_text (left : Nat → UInt8) (delimiter : UInt8) (bs : List UInt8) :
    hexEncodeToString (some left) bs bs.length delimiter = some (text delimiter bs) := by
  have hm := Nat.le_of_eq (length_malloc (bs.length * 3) left).symm
  rw [hexEncodeToString]
  cases bs with
  | nil => rfl
  | cons b bs =>
      have hneeded : (if delimiter ≠ 0 then (b :: bs).length * 3 else (b :: bs).length * 2 + 1) ≤
          (b :: bs).length * 3 := by
        rw [List.length_cons]
        split <;> omega
      obtain ⟨rest, h⟩ := hexEncodeWithDelimiter_text delimiter (b :: bs) _ hneeded hm
      simp only [h, Option.bind_eq_bind, Option.bind_some, List.take_left' rfl]

theorem hexDecode_text (left : Nat → UInt8) (bs : List UInt8) :
    hexDecode (some left) (text 0 bs) = some bs := by
  have hlen : (text 0 bs).length = 2 * bs.length := by rw [text_length, if_neg (by simp)]; omega
  have hm := Nat.le_of_eq (length_malloc (text 0 bs).length left).symm
  rw [hexDecode]
  split
  next h0 =>
    have hnil : bs = [] := List.eq_nil_of_length_eq_zero (by omega)
    rw [hnil]
  next h0 =>
    have h := hexDecodeWithDelimiter_text 0 bs (malloc (text 0 bs).length left)
      (by omega : bs.length ≤ (text 0 bs).length) hm
    simp [h]

/-- HexDecode is the inverse of HexEncode, and with a delimiter the decoder reads
back what the encoder wrote, from and into any buffers of the sizes they ask for. -/
theorem hex_round_trip :
    (∀ (s : List UInt8) (left left' : Nat → UInt8),
      (hexEncode (some left) s).bind (hexDecode (some left')) = some s) ∧
    ∀ (s : List UInt8) (delimiter : UInt8) (dest : List UInt8) (destlen : Nat), delimiter ≠ 0 →
      s.length ≤ destlen → destlen ≤ dest.length →
      (∀ left, ∃ t, hexEncodeToString (some left) s s.length delimiter = some t ∧
        hexDecodeWithDelimiter dest destlen t t.length delimiter =
          some (s ++ dest.drop s.length, s.length)) ∧
      ∀ (buffer : List UInt8) (buflen : Nat), s.length * 3 ≤ buflen → buflen ≤ buffer.length →
        ∃ buffer' n, hexEncodeWithDelimiter buffer buflen s s.length delimiter =
            some (buffer', n) ∧
          hexDecodeWithDelimiter dest destlen (buffer'.take n) n delimiter =
            some (s ++ dest.drop s.length, s.length) := by
  refine ⟨fun s left left' => ?_, fun s delimiter dest destlen hd hs hdest => ⟨?_, ?_⟩⟩
  · rw [hexEncode, hexEncodeToString_text, Option.bind_some, hexDecode_text]
  · intro left
    exact ⟨_, hexEncodeToString_text left delimiter s,
      hexDecodeWithDelimiter_text delimiter s dest hs hdest⟩
  · intro buffer buflen hneeded hb
    obtain ⟨rest, h⟩ := hexEncodeWithDelimiter_text delimiter s buffer
      (by rwa [if_pos hd]) hb
    refine ⟨_, _, h, ?_⟩
    rw [List.take_left' rfl]
    exact hexDecodeWithDelimiter_text delimiter s dest hs hdest

theorem hex_round_trip_dash :
    (hexEncode (some fun _ => 0) [0x2d, 0xff]).bind (hexDecode (some fun _ => 0)) =
        some [0x2d, 0xff] ∧
      ∃ t, hexEncodeToString (some fun _ => 0) [0x2d, 0xff] 2 0x2d = some t ∧
        hexDecodeWithDelimiter [0, 0, 7] 3 t t.length 0x2d = some ([0x2d, 0xff] ++ [7], 2) :=
  ⟨hex_round_trip.1 [0x2d, 0xff] (fun _ => 0) (fun _ => 0),
    (hex_round_trip.2 [0x2d, 0xff] 0x2d [0, 0, 7] 3 (by decide) (by decide) (by decide)).1 _⟩

end Ashe.HexRoundTrip
