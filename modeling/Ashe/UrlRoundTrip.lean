import Ashe.UrlEncode
import Ashe.ByteWords

namespace Ashe.UrlRoundTrip

open Buffers BufferQueue UrlEncode
open HexEncode (ascii hexDecodeDigit)

section Decoding

def escape (ch : UInt8) : List UInt8 → Option UInt8
  | c1 :: c2 :: _ =>
      if ch = ascii '%' then
        (hexDecodeDigit c1).bind fun h1 => (hexDecodeDigit c2).map fun h2 => (h1 <<< 4) ||| h2
      else none
  | _ => none

def decodeOne (ch : UInt8) (text : List UInt8) : UInt8 × Nat :=
  if ch = ascii '+' then (ascii ' ', 0)
  else match escape ch text with
    | some c => (c, 2)
    | none => (ch, 0)

def decoded : List UInt8 → List UInt8
  | [] => []
  | ch :: text => (decodeOne ch text).1 :: decoded (text.drop (decodeOne ch text).2)
termination_by text => text.length
decreasing_by simp only [List.length_drop, List.length_cons]; omega

theorem decoded_length_le (text : List UInt8) : (decoded text).length ≤ text.length := by
  induction text using decoded.induct with
  | case1 => simp [decoded]
  | case2 ch text ih =>
      rw [decoded, List.length_cons, List.length_cons]
      rw [List.length_drop] at ih
      omega

theorem escape_length {ch c : UInt8} {text : List UInt8} (h : escape ch text = some c) :
    2 ≤ text.length := by
  match text with
  | [] => exact absurd h (by simp [escape])
  | [c1] => exact absurd h (by simp [escape])
  | c1 :: c2 :: text => simp

theorem decodeOne_le (ch : UInt8) (text : List UInt8) : (decodeOne ch text).2 ≤ text.length := by
  rw [decodeOne]
  split
  next => exact Nat.zero_le _
  next =>
    split
    next c hc => exact escape_length hc
    next => exact Nat.zero_le _

end Decoding

section Loop

variable {before text written rest : List UInt8} {buflen : Nat}

theorem readEscape_behind (before text : List UInt8) (ch : UInt8) :
    readEscape (before ++ text) (before ++ text).length before.length ch =
      some (escape ch text) := by
  have hread (i : Nat) : (before ++ text)[before.length + i]? = text[i]? := by
    rw [List.getElem?_append_right (Nat.le_add_right ..), Nat.add_sub_cancel_left]
  have hfirst : (before ++ text)[before.length]? = text[0]? := hread 0
  simp only [readEscape, hfirst, hread, List.length_append, Nat.add_lt_add_iff_left]
  cases text with
  | nil => simp [escape]
  | cons c1 text =>
      cases text with
      | nil => simp [escape]
      | cons c2 text =>
          by_cases hp : ch = ascii '%'
          · cases h1 : hexDecodeDigit c1 <;> simp [escape, hp, h1]
          · simp [escape, hp]

theorem decodeLoop_turn (ch : UInt8) (hroom : written.length + 1 < buflen)
    (hrest : 0 < rest.length) :
    decodeLoop (before ++ ch :: text) (before ++ ch :: text).length buflen (written ++ rest)
        before.length written.length =
      decodeLoop (before ++ ch :: text) (before ++ ch :: text).length buflen
        ((written ++ [(decodeOne ch text).1]) ++ rest.drop 1)
        (before.length + (1 + (decodeOne ch text).2)) (written.length + 1) := by
  have hread : (before ++ ch :: text)[before.length]? = some ch := by simp
  have hescape := readEscape_behind (before ++ [ch]) text ch
  rw [List.append_assoc, List.singleton_append] at hescape
  have hbehind : (before ++ [ch]).length = before.length + 1 := by simp
  rw [hbehind] at hescape
  have hmore : before.length < (before ++ ch :: text).length ∧ written.length + 1 < buflen :=
    ⟨by simp, hroom⟩
  have hwrite (c : UInt8) := store_next written rest c rfl hrest
  rw [decodeLoop, if_pos hmore]
  simp only [hread, Option.bind_eq_bind, Option.bind_some, hwrite, hescape, decodeOne]
  by_cases hplus : ch = ascii '+'
  · rw [if_pos hplus, if_pos hplus]
    rfl
  · rw [if_neg hplus, if_neg hplus]
    cases escape ch text with
    | none => rfl
    | some c => rfl

theorem decodeLoop_end (hend : text = [] ∨ buflen ≤ written.length + 1) (hrest : 0 < rest.length) :
    decodeLoop (before ++ text) (before ++ text).length buflen (written ++ rest) before.length
        written.length =
      some (written ++ 0 :: rest.drop 1, written.length) := by
  have hstop : ¬(before.length < (before ++ text).length ∧ written.length + 1 < buflen) := by
    rintro ⟨hleft, hroom⟩
    cases hend with
    | inl h => simp [h] at hleft
    | inr h => omega
  rw [decodeLoop, if_neg hstop, store_next written rest 0 rfl hrest, List.append_assoc]
  rfl

/-- The loop writes the decoding until one place is left, and the zero behind it. -/
theorem decodeLoop_decoded (text : List UInt8) :
    ∀ (before written rest : List UInt8), written.length < buflen →
      buflen ≤ written.length + rest.length →
      decodeLoop (before ++ text) (before ++ text).length buflen (written ++ rest) before.length
          written.length =
        some (written ++ ((decoded text).take (buflen - 1 - written.length) ++
            0 :: rest.drop (min (buflen - 1 - written.length) (decoded text).length + 1)),
          written.length + min (buflen - 1 - written.length) (decoded text).length) := by
  induction text using decoded.induct with
  | case1 =>
      intro before written rest hroom hrest
      rw [decodeLoop_end (.inl rfl) (by omega)]
      simp [decoded]
  | case2 ch text ih =>
      intro before written rest hroom hrest
      by_cases hfull : buflen ≤ written.length + 1
      · have hzero : buflen - 1 - written.length = 0 := by omega
        rw [decodeLoop_end (.inr hfull) (by omega)]
        simp [hzero]
      · obtain ⟨room, hr⟩ : ∃ room, buflen - 1 - written.length = room + 1 :=
          ⟨buflen - 2 - written.length, by omega⟩
        have hseen : ch :: text = (ch :: text.take (decodeOne ch text).2) ++
            text.drop (decodeOne ch text).2 := by simp
        have hnext := ih (before ++ ch :: text.take (decodeOne ch text).2)
          (written ++ [(decodeOne ch text).1]) (rest.drop 1) (by simp; omega) (by simp; omega)
        have hroom' : buflen - 1 - (written.length + 1) = room := by omega
        have hpos : (before ++ ch :: text.take (decodeOne ch text).2).length =
            before.length + (1 + (decodeOne ch text).2) := by
          have hle := decodeOne_le ch text
          simp; omega
        have hwritten : (written ++ [(decodeOne ch text).1]).length = written.length + 1 := by simp
        rw [List.append_assoc, ← hseen, hpos, hwritten, hroom'] at hnext
        rw [decodeLoop_turn ch (by omega) (by omega), hnext, hr, decoded, List.take_succ_cons,
          List.length_cons, Nat.add_min_add_right, List.drop_drop]
        simp [Nat.add_comm, Nat.add_assoc]

end Loop

section Encoding

theorem hexDecodeDigit_hex : ∀ i : UInt8, i.toNat < 16 →
    hexDecodeDigit (hex.getD i.toNat 0) = some i := by decide +kernel

theorem not_unreserved_percent : ¬unreserved (ascii '%') := by decide

theorem not_unreserved_plus : ¬unreserved (ascii '+') := by decide

theorem shift_or_halves (b : UInt8) : ((b / 16) <<< 4) ||| (b % 16) = b := by
  have hb := b.toNat_lt
  have hdiv : (b / 16).toNat = b.toNat / 16 := UInt8.toNat_div ..
  have hmod : (b % 16).toNat = b.toNat % 16 := UInt8.toNat_mod ..
  apply UInt8.toNat_inj.mp
  have hup : (b.toNat / 16) <<< 4 = b.toNat / 16 * 16 := Nat.shiftLeft_eq ..
  have hlow : b.toNat % 16 < 2 ^ 4 := Nat.mod_lt _ (by decide)
  have hor := Nat.shiftLeft_add_eq_or_of_lt hlow (b.toNat / 16)
  rw [UInt8.toNat_or, UInt8.toNat_shiftLeft, hdiv, hmod]
  have hfit : (b.toNat / 16) <<< 4 < 2 ^ 8 := by omega
  rw [show (4 : UInt8).toNat % 8 = 4 from rfl, Nat.mod_eq_of_lt hfit, ← hor, hup]
  omega

theorem decoded_encodeByte (cc : UInt8) (text : List UInt8) :
    decoded (encodeByte cc ++ text) = cc :: decoded text := by
  have hb := cc.toNat_lt
  rw [encodeByte]
  split
  next hcc =>
    have hplus : cc ≠ ascii '+' := fun h => not_unreserved_plus (h ▸ hcc)
    have hpercent : cc ≠ ascii '%' := fun h => not_unreserved_percent (h ▸ hcc)
    have hescape : escape cc text = none := by
      match text with
      | [] => rfl
      | [c1] => rfl
      | c1 :: c2 :: text => rw [escape, if_neg hpercent]
    rw [List.singleton_append, decoded, decodeOne, if_neg hplus, hescape]
    rfl
  next =>
    have hdiv : (cc / 16).toNat < 16 := by
      rw [UInt8.toNat_div]
      exact Nat.div_lt_of_lt_mul hb
    have hmod : (cc % 16).toNat < 16 := by
      rw [UInt8.toNat_mod]
      exact Nat.mod_lt _ (by decide)
    have hescape (digits : List UInt8) :
        escape (ascii '%') (hex.getD (cc / 16).toNat 0 :: hex.getD (cc % 16).toNat 0 :: digits) =
          some cc := by
      rw [escape, if_pos rfl, hexDecodeDigit_hex _ hdiv, hexDecodeDigit_hex _ hmod,
        Option.bind_some, Option.map_some, shift_or_halves]
    simp only [List.cons_append, List.nil_append]
    rw [decoded, decodeOne, if_neg (by decide), hescape]
    rfl

theorem urlEncode_eq (str : List UInt8) : urlEncode str = str.flatMap encodeByte :=
  List.flatMap_eq_foldl.symm

theorem decoded_urlEncode (str : List UInt8) : decoded (urlEncode str) = str := by
  rw [urlEncode_eq]
  induction str with
  | nil => simp [decoded]
  | cons cc str ih => rw [List.flatMap_cons, decoded_encodeByte, ih]

end Encoding

theorem urlDecodeBuffer_decoded (buffer source : List UInt8) {buflen : Nat} (hpos : 1 ≤ buflen)
    (hlen : buflen ≤ buffer.length) :
    urlDecodeBuffer (some buffer) buflen source source.length =
      some (some ((decoded source).take (buflen - 1) ++
          0 :: buffer.drop (min (buflen - 1) (decoded source).length + 1)),
        min (buflen - 1) (decoded source).length) := by
  have h := decodeLoop_decoded source [] [] buffer hpos (by simpa using hlen)
  simp only [List.nil_append, List.length_nil, Nat.sub_zero, Nat.zero_add] at h
  rw [urlDecodeBuffer, if_neg (by omega), h]
  rfl

theorem urlDecode_decoded (left : Nat → UInt8) (source : List UInt8) :
    urlDecode (some left) source = some (decoded source) := by
  have hlen : source.length + 1 = (malloc (source.length + 1) left).length := by simp [malloc]
  have hle := decoded_length_le source
  have h := urlDecodeBuffer_decoded (malloc (source.length + 1) left) source
    (Nat.le_add_left 1 source.length) (Nat.le_of_eq hlen)
  rw [Nat.add_sub_cancel, Nat.min_eq_right hle, List.take_of_length_le hle] at h
  have hbound : urlDecodeBuffer none 0 source source.length =
    some (none, source.length + 1) := rfl
  simp [urlDecode, sTransform, hbound, h]

/-- UrlDecode is the inverse of UrlEncode, and into a buffer it writes what fits of
the full decoding and a zero, with every other place as it was. -/
theorem url_codec :
    (∀ (s : List UInt8) (left : Nat → UInt8), urlDecode (some left) (urlEncode s) = some s) ∧
    ∀ (source : List UInt8) (left : Nat → UInt8) (buffer : List UInt8) (buflen : Nat),
      1 ≤ buflen → buflen ≤ buffer.length →
      ∃ full, urlDecode (some left) source = some full ∧
        urlDecodeBuffer (some buffer) buflen source source.length =
          some (some (full.take (buflen - 1) ++
              0 :: buffer.drop (min (buflen - 1) full.length + 1)),
            min (buflen - 1) full.length) := by
  refine ⟨fun s left => ?_, fun source left buffer buflen hpos hlen => ?_⟩
  · rw [urlDecode_decoded, decoded_urlEncode]
  · exact ⟨decoded source, urlDecode_decoded left source,
      urlDecodeBuffer_decoded buffer source hpos hlen⟩

/-- A sequence cut short at the end of the text, in a buffer for two characters. -/
theorem url_codec_cut :
    urlDecode (some fun _ => 0) (urlEncode [0x25, 0xff]) = some [0x25, 0xff] ∧
      ∃ full, urlDecode (some fun _ => 0) [0x2b, 0x25, 0x34] = some full ∧
        urlDecodeBuffer (some [7, 7, 7, 9]) 3 [0x2b, 0x25, 0x34] 3 =
          some (some (full.take 2 ++ 0 :: [7, 7, 7, 9].drop (min 2 full.length + 1)),
            min 2 full.length) :=
  ⟨url_codec.1 [0x25, 0xff] fun _ => 0,
    url_codec.2 [0x2b, 0x25, 0x34] (fun _ => 0) [7, 7, 7, 9] 3 (by decide) (by decide)⟩

end Ashe.UrlRoundTrip
