import Ashe.HexEncode
import Ashe.UrlRoundTrip

namespace Ashe.HexDigits

open Buffers HexEncode
open UrlEncode (urlDecode urlDecodeBuffer)
open UrlRoundTrip

def hexValue (c : UInt8) : Option UInt8 :=
  if ascii '0' ≤ c ∧ c ≤ ascii '9' then some (c - ascii '0')
  else if ascii 'A' ≤ c ∧ c ≤ ascii 'F' then some (c - ascii 'A' + 10)
  else if ascii 'a' ≤ c ∧ c ≤ ascii 'f' then some (c - ascii 'a' + 10)
  else none

def HexDigit (c : UInt8) : Prop := hexValue c ≠ none

def FarLetter (c : UInt8) : Prop :=
  (ascii 'G' ≤ c ∧ c ≤ ascii 'Z') ∨ (ascii 'g' ≤ c ∧ c ≤ ascii 'z')

instance (c : UInt8) : Decidable (HexDigit c) := inferInstanceAs (Decidable (_ ≠ _))

instance (c : UInt8) : Decidable (FarLetter c) := inferInstanceAs (Decidable (_ ∨ _))

theorem hexDecodeDigit_none :
    ∀ c, hexDecodeDigit c = none ↔ ¬HexDigit c ∧ ¬FarLetter c := by decide +kernel

theorem hexDecodeDigit_value : ∀ c, ¬FarLetter c → hexDecodeDigit c = hexValue c := by
  decide +kernel

theorem hexValue_none {c : UInt8} (h : hexDecodeDigit c = none) : hexValue c = none := by
  have hnot := ((hexDecodeDigit_none c).mp h).1
  rwa [HexDigit, not_not] at hnot

theorem hexValue_far : ∀ c, FarLetter c → hexValue c = none := by decide +kernel

theorem hexDecodeDigit_far (c : UInt8) (h : FarLetter c) : hexDecodeDigit c ≠ none :=
  fun hnone => ((hexDecodeDigit_none c).mp hnone).2 h

theorem hexDecodeDigit_plain :
    ∀ c, hexDecodeDigit c ≠ none → c ≠ ascii '+' ∧ c ≠ ascii '%' := by decide +kernel

section Hex

/-- What the decoder takes: pairs of characters that its digit conversion takes. -/
def Taken (text : List UInt8) : Prop :=
  (∀ c ∈ text, hexDecodeDigit c ≠ none) ∧ text.length % 2 = 0

theorem taken_cons_cons {c1 c2 : UInt8} {text : List UInt8} :
    Taken (c1 :: c2 :: text) ↔
      hexDecodeDigit c1 ≠ none ∧ hexDecodeDigit c2 ≠ none ∧ Taken text := by
  have hlen : (text.length + 1 + 1) % 2 = text.length % 2 := by omega
  simp only [Taken, List.forall_mem_cons, List.length_cons, hlen, and_assoc]

/-- One turn without a delimiter: two digits are taken, or the count is zero. -/
theorem decodeLoop_pair (before text buffer : List UInt8) (c1 c2 : UInt8) {bufpos : Nat}
    (hroom : bufpos < buffer.length) :
    decodeLoop (before ++ c1 :: c2 :: text) (before ++ c1 :: c2 :: text).length 0 buffer
        before.length bufpos =
      match hexDecodeDigit c1, hexDecodeDigit c2 with
      | some h1, some h2 =>
          decodeLoop (before ++ c1 :: c2 :: text) (before ++ c1 :: c2 :: text).length 0
            (buffer.set bufpos ((h1 <<< 4) ||| h2)) (before.length + 2) (bufpos + 1)
      | _, _ => some (buffer, 0) := by
  have hfirst : (before ++ c1 :: c2 :: text)[before.length]? = some c1 := by simp
  have hsecond : (before ++ c1 :: c2 :: text)[before.length + 1]? = some c2 := by simp
  rw [decodeLoop, if_pos (by simp), if_neg (by simp)]
  simp only [hfirst, hsecond, Option.bind_eq_bind, Option.bind_some, store, if_pos hroom]
  cases hexDecodeDigit c1 with
  | none => rfl
  | some h1 =>
      cases hexDecodeDigit c2 with
      | none => rfl
      | some h2 => exact if_neg (by simp)

theorem decodeLoop_taken (text : List UInt8) :
    ∀ (before buffer : List UInt8) (bufpos : Nat), bufpos + text.length / 2 ≤ buffer.length →
      ∃ buffer' n, decodeLoop (before ++ text) (before ++ text).length 0 buffer before.length
          bufpos = some (buffer', n) ∧
        (Taken text → n = bufpos + text.length / 2) ∧ (¬Taken text → n = 0) := by
  induction text using List.twoStepInduction with
  | nil =>
      intro before buffer bufpos hroom
      rw [decodeLoop, if_neg (by simp)]
      exact ⟨_, _, rfl, fun _ => rfl, fun h => absurd ⟨by simp, rfl⟩ h⟩
  | singleton c =>
      intro before buffer bufpos hroom
      rw [decodeLoop, if_pos (by simp), if_pos (by simp)]
      exact ⟨_, _, rfl, fun h => absurd h.2 (by simp), fun _ => rfl⟩
  | cons_cons c1 c2 text ih _ =>
      intro before buffer bufpos hroom
      rw [List.length_cons, List.length_cons] at hroom
      rw [decodeLoop_pair before text buffer c1 c2 (by omega), taken_cons_cons]
      cases hexDecodeDigit c1 with
      | none => exact ⟨_, _, rfl, fun h => absurd rfl h.1, fun _ => rfl⟩
      | some h1 =>
          cases hexDecodeDigit c2 with
          | none => exact ⟨_, _, rfl, fun h => absurd rfl h.2.1, fun _ => rfl⟩
          | some h2 =>
              obtain ⟨buffer', n, hrun, hyes, hno⟩ := ih (before ++ [c1, c2])
                (buffer.set bufpos ((h1 <<< 4) ||| h2)) (bufpos + 1)
                (by rw [List.length_set]; omega)
              have hseen : before ++ [c1, c2] ++ text = before ++ c1 :: c2 :: text := by simp
              have hpos : (before ++ [c1, c2]).length = before.length + 2 := by simp
              rw [hseen, hpos] at hrun
              refine ⟨buffer', n, hrun, fun h => ?_,
                fun h => hno fun ht => h ⟨by simp, by simp, ht⟩⟩
              rw [hyes h.2.2, List.length_cons, List.length_cons]
              omega

/-- The count of the decoder in a destination that is long enough. -/
theorem hexDecodeWithDelimiter_taken (s buffer : List UInt8) (h : s.length / 2 ≤ buffer.length) :
    ∃ buffer' n, hexDecodeWithDelimiter buffer buffer.length s s.length 0 = some (buffer', n) ∧
      (n ≠ 0 ↔ Taken s ∧ s ≠ []) := by
  have hzero : s.length / 2 = 0 → ¬(Taken s ∧ s ≠ []) := by
    rintro h0 ⟨ht, hne⟩
    have hpos := List.length_pos_iff.mpr hne
    have heven := ht.2
    omega
  rw [hexDecodeWithDelimiter]
  split
  next h0 => exact ⟨buffer, 0, rfl, fun h => absurd rfl h, fun ht => absurd ht (hzero (by omega))⟩
  next h0 =>
    obtain ⟨buffer', n, hrun, hyes, hno⟩ := decodeLoop_taken s [] buffer 0 (by omega)
    have hfits : ¬buffer.length < if (0 : UInt8) ≠ 0 then (s.length + 1) / 3 else s.length / 2 := by
      rw [if_neg (by simp)]
      exact Nat.not_lt.mpr h
    refine ⟨buffer', n, (if_neg hfits).trans hrun, fun hn => ?_, fun ht => ?_⟩
    · have ht : Taken s := by
        by_contra hnot
        exact hn (hno hnot)
      refine ⟨ht, fun hnil => hn ?_⟩
      rw [hyes ht, hnil]
      rfl
    · intro hn
      have hcount := hyes ht.1
      exact hzero (by omega) ht

/-- The count is not zero only for an even number of hexadecimal digits. -/
def DecodesDigits (s : List UInt8) : Prop :=
  ∀ buffer buffer' n, s.length / 2 ≤ buffer.length →
    hexDecodeWithDelimiter buffer buffer.length s s.length 0 = some (buffer', n) → n ≠ 0 →
    (∀ c ∈ s, HexDigit c) ∧ s.length % 2 = 0

theorem decodesDigits_iff (s : List UInt8) :
    DecodesDigits s ↔ (∃ c ∈ s, ¬HexDigit c ∧ ¬FarLetter c) ∨ s.length % 2 = 1 ∨
      ∀ c ∈ s, ¬FarLetter c := by
  constructor
  · intro h
    by_cases ht : Taken s ∧ s ≠ []
    · have hroom : s.length / 2 ≤ (List.replicate s.length (0 : UInt8)).length := by
        rw [List.length_replicate]
        exact Nat.div_le_self ..
      obtain ⟨buffer', n, hrun, hn⟩ := hexDecodeWithDelimiter_taken s _ hroom
      refine .inr (.inr fun c hc hfar => ?_)
      exact (h _ _ _ hroom hrun (hn.mpr ht)).1 c hc (hexValue_far c hfar)
    · by_cases hodd : s.length % 2 = 1
      · exact .inr (.inl hodd)
      · by_cases hall : ∀ c ∈ s, hexDecodeDigit c ≠ none
        · refine .inr (.inr fun c hc => ?_)
          have hne : s ≠ [] := List.ne_nil_of_mem hc
          exact absurd ⟨⟨hall, by omega⟩, hne⟩ ht
        · simp only [not_forall, not_not] at hall
          obtain ⟨c, hc, hnone⟩ := hall
          exact .inl ⟨c, hc, (hexDecodeDigit_none c).mp hnone⟩
  · intro h buffer buffer' n hroom hrun hn
    obtain ⟨_, _, hrun', hiff⟩ := hexDecodeWithDelimiter_taken s buffer hroom
    obtain ⟨rfl, rfl⟩ := Prod.mk.inj (Option.some.inj (hrun'.symm.trans hrun))
    have ht := (hiff.mp hn).1
    refine ⟨fun c hc => ?_, ht.2⟩
    have htaken := ht.1 c hc
    rcases h with ⟨d, hd, hneither⟩ | hodd | hnear
    · exact absurd ((hexDecodeDigit_none d).mpr hneither) (ht.1 d hd)
    · exact absurd ht.2 (by omega)
    · rwa [hexDecodeDigit_value c (hnear c hc)] at htaken

end Hex

section Url

def hexEscape (ch : UInt8) : List UInt8 → Option UInt8
  | c1 :: c2 :: _ =>
      if ch = ascii '%' then
        (hexValue c1).bind fun h1 => (hexValue c2).map fun h2 => (h1 <<< 4) ||| h2
      else none
  | _ => none

/-- The decoding that replaces a percent sign only before two hexadecimal digits. -/
def hexDecoded : List UInt8 → List UInt8
  | [] => []
  | ch :: text =>
      if ch = ascii '+' then ascii ' ' :: hexDecoded text
      else match hexEscape ch text with
        | some c => c :: hexDecoded (text.drop 2)
        | none => ch :: hexDecoded text
termination_by text => text.length
decreasing_by all_goals simp only [List.length_drop, List.length_cons]; omega

/-- Two digits or letters that the decoder combines, one of them behind F. -/
def WrongPair (c1 c2 : UInt8) : Prop :=
  (HexDigit c1 ∨ FarLetter c1) ∧ (HexDigit c2 ∨ FarLetter c2) ∧ (FarLetter c1 ∨ FarLetter c2)

def WrongEscape (text : List UInt8) : Prop :=
  ∃ c1 c2, [ascii '%', c1, c2] <:+: text ∧ WrongPair c1 c2

def WrongAt (ch : UInt8) (text : List UInt8) : Prop :=
  ch = ascii '%' ∧ ∃ c1 c2, [c1, c2] <+: text ∧ WrongPair c1 c2

theorem wrongEscape_cons {ch : UInt8} {text : List UInt8} :
    WrongEscape (ch :: text) ↔ WrongAt ch text ∨ WrongEscape text := by
  constructor
  · rintro ⟨c1, c2, hpart, hpair⟩
    cases List.infix_cons_iff.mp hpart with
    | inl hstart =>
        obtain ⟨hch, hpart⟩ := List.cons_prefix_cons.mp hstart
        exact .inl ⟨hch.symm, c1, c2, hpart, hpair⟩
    | inr hpart => exact .inr ⟨c1, c2, hpart, hpair⟩
  · rintro (⟨rfl, c1, c2, hstart, hpair⟩ | ⟨c1, c2, hpart, hpair⟩)
    · have hpart : [ascii '%', c1, c2] <+: ascii '%' :: text :=
        List.cons_prefix_cons.mpr ⟨rfl, hstart⟩
      exact ⟨c1, c2, List.infix_cons_iff.mpr (.inl hpart), hpair⟩
    · exact ⟨c1, c2, List.infix_cons_iff.mpr (.inr hpart), hpair⟩

theorem wrongEscape_plain {c : UInt8} {text : List UInt8} (h : c ≠ ascii '%') :
    WrongEscape (c :: text) ↔ WrongEscape text := by
  rw [wrongEscape_cons]
  exact or_iff_right fun hat => h hat.1

theorem hexDecoded_plain {c : UInt8} {text : List UInt8} (hplus : c ≠ ascii '+')
    (hpercent : c ≠ ascii '%') : hexDecoded (c :: text) = c :: hexDecoded text := by
  have hescape : hexEscape c text = none := by
    unfold hexEscape
    split
    next => exact if_neg hpercent
    next => rfl
  rw [hexDecoded, if_neg hplus, hescape]

theorem wrongPair_taken {c1 c2 : UInt8} (h : WrongPair c1 c2) :
    hexDecodeDigit c1 ≠ none ∧ hexDecodeDigit c2 ≠ none := by
  obtain ⟨h1, h2, -⟩ := h
  rw [Ne, Ne, hexDecodeDigit_none, hexDecodeDigit_none]
  tauto

theorem escape_wrong {ch : UInt8} {text : List UInt8} (h : WrongAt ch text) :
    ∃ c1 c2 rest c, text = c1 :: c2 :: rest ∧ WrongPair c1 c2 ∧ escape ch text = some c ∧
      hexEscape ch text = none := by
  obtain ⟨rfl, c1, c2, ⟨rest, rfl⟩, hpair⟩ := h
  obtain ⟨h1, hd1⟩ := Option.ne_none_iff_exists'.mp (wrongPair_taken hpair).1
  obtain ⟨h2, hd2⟩ := Option.ne_none_iff_exists'.mp (wrongPair_taken hpair).2
  refine ⟨c1, c2, rest, (h1 <<< 4) ||| h2, rfl, hpair, ?_, ?_⟩
  · simp [escape, hd1, hd2]
  · cases hpair.2.2 with
    | inl hfar => simp [hexEscape, hexValue_far c1 hfar]
    | inr hfar => simp [hexEscape, hexValue_far c2 hfar]

theorem escape_right {ch : UInt8} {text : List UInt8} (h : ¬WrongAt ch text) :
    escape ch text = hexEscape ch text := by
  rcases text with _ | ⟨c1, _ | ⟨c2, rest⟩⟩
  · rfl
  · rfl
  · rw [escape, hexEscape]
    split
    next hpercent =>
      have hpair : ¬WrongPair c1 c2 := fun hp => h ⟨hpercent, c1, c2, ⟨rest, rfl⟩, hp⟩
      by_cases hn1 : hexDecodeDigit c1 = none
      · rw [hn1, hexValue_none hn1]
        rfl
      · by_cases hn2 : hexDecodeDigit c2 = none
        · rw [hn2, hexValue_none hn2]
          cases hexDecodeDigit c1 <;> cases hexValue c1 <;> rfl
        · rw [hexDecodeDigit_none] at hn1 hn2
          have hnear : ¬FarLetter c1 ∧ ¬FarLetter c2 := by
            rw [WrongPair] at hpair
            tauto
          rw [hexDecodeDigit_value c1 hnear.1, hexDecodeDigit_value c2 hnear.2]
    next => rfl

theorem escape_taken {ch c : UInt8} {text : List UInt8} (h : escape ch text = some c) :
    ∃ c1 c2 rest, text = c1 :: c2 :: rest ∧ c1 ≠ ascii '%' ∧ c2 ≠ ascii '%' := by
  unfold escape at h
  split at h
  next c1 c2 rest =>
    split at h
    next =>
      obtain ⟨h1, hd1, h⟩ := Option.bind_eq_some_iff.mp h
      obtain ⟨h2, hd2, -⟩ := Option.map_eq_some_iff.mp h
      exact ⟨c1, c2, rest, rfl, (hexDecodeDigit_plain c1 (by simp [hd1])).2,
        (hexDecodeDigit_plain c2 (by simp [hd2])).2⟩
    next => exact absurd h (by simp)
  next => exact absurd h (by simp)

theorem hexDecoded_right {ch : UInt8} {text : List UInt8} (h : ¬WrongAt ch text) :
    hexDecoded (ch :: text) =
      (decodeOne ch text).1 :: hexDecoded (text.drop (decodeOne ch text).2) := by
  rw [hexDecoded, decodeOne, escape_right h]
  split
  next => rfl
  next => cases hexEscape ch text <;> rfl

/-- The characters of an escape are behind no percent sign of their own. -/
theorem wrongEscape_right {ch : UInt8} {text : List UInt8} (h : ¬WrongAt ch text) :
    WrongEscape (ch :: text) ↔ WrongEscape (text.drop (decodeOne ch text).2) := by
  rw [wrongEscape_cons, or_iff_right h, decodeOne]
  split
  next => rfl
  next =>
    split
    next c hc =>
      obtain ⟨c1, c2, rest, rfl, h1, h2⟩ := escape_taken hc
      rw [wrongEscape_plain h1, wrongEscape_plain h2]
      rfl
    next => rfl

theorem decoded_hexDecoded (text : List UInt8) :
    (decoded text).length ≤ (hexDecoded text).length ∧
      (WrongEscape text → (decoded text).length < (hexDecoded text).length) ∧
      (¬WrongEscape text → decoded text = hexDecoded text) := by
  induction text using decoded.induct with
  | case1 =>
      have hnone : ¬WrongEscape [] := by
        rintro ⟨c1, c2, hpart, -⟩
        simpa using hpart.length_le
      exact ⟨by simp [decoded], fun h => absurd h hnone, fun _ => by simp [decoded, hexDecoded]⟩
  | case2 ch text ih =>
      obtain ⟨hle, hlt, heq⟩ := ih
      by_cases hat : WrongAt ch text
      · obtain ⟨c1, c2, rest, c, rfl, hpair, hescape, hnone⟩ := escape_wrong hat
        obtain ⟨h1, h2⟩ := wrongPair_taken hpair
        obtain ⟨hplus1, hpercent1⟩ := hexDecodeDigit_plain c1 h1
        obtain ⟨hplus2, hpercent2⟩ := hexDecodeDigit_plain c2 h2
        have hplus : ch ≠ ascii '+' := by
          rw [hat.1]
          decide
        have hone : decodeOne ch (c1 :: c2 :: rest) = (c, 2) := by
          rw [decodeOne, if_neg hplus, hescape]
        -- the two characters stay in the one decoding and go in the other
        rw [hone] at hle
        have hshort : (decoded (ch :: c1 :: c2 :: rest)).length <
            (hexDecoded (ch :: c1 :: c2 :: rest)).length := by
          rw [decoded, hone, hexDecoded, if_neg hplus, hnone]
          simp only [hexDecoded_plain hplus1 hpercent1, hexDecoded_plain hplus2 hpercent2,
            List.length_cons, List.drop_succ_cons, List.drop_zero] at hle ⊢
          omega
        exact ⟨Nat.le_of_lt hshort, fun _ => hshort,
          fun h => absurd (wrongEscape_cons.mpr (.inl hat)) h⟩
      · rw [decoded, hexDecoded_right hat, wrongEscape_right hat]
        simp only [List.length_cons, Nat.add_le_add_iff_right, Nat.add_lt_add_iff_right,
          List.cons.injEq, true_and]
        exact ⟨hle, hlt, heq⟩

/-- UrlDecode answers with the decoding of hexadecimal escapes, and with what fits of
it in a buffer. -/
def EscapesDigits (t : List UInt8) : Prop :=
  (∀ left, urlDecode (some left) t = some (hexDecoded t)) ∧
    ∀ (buffer : List UInt8) (buflen : Nat), 1 ≤ buflen → buflen ≤ buffer.length →
      ∃ rest, urlDecodeBuffer (some buffer) buflen t t.length =
        some (some ((hexDecoded t).take (buflen - 1) ++ rest),
          min (buflen - 1) (hexDecoded t).length)

theorem escapesDigits_iff (t : List UInt8) : EscapesDigits t ↔ ¬WrongEscape t := by
  obtain ⟨-, hlt, heq⟩ := decoded_hexDecoded t
  constructor
  · intro h hwrong
    have hsame := h.1 fun _ => 0
    rw [urlDecode_decoded, Option.some.injEq] at hsame
    have hshort := hlt hwrong
    rw [hsame] at hshort
    exact Nat.lt_irrefl _ hshort
  · intro h
    rw [EscapesDigits, ← heq h]
    refine ⟨fun left => urlDecode_decoded left t, fun buffer buflen hpos hlen => ?_⟩
    exact ⟨_, urlDecodeBuffer_decoded buffer t hpos hlen⟩

end Url

/-- Only hexadecimal digits decode, where no letter behind F is taken for one. -/
theorem only_digits_decode (s t : List UInt8) :
    (DecodesDigits s ↔ (∃ c ∈ s, ¬HexDigit c ∧ ¬FarLetter c) ∨ s.length % 2 = 1 ∨
      ∀ c ∈ s, ¬FarLetter c) ∧
    (EscapesDigits t ↔ ¬WrongEscape t) :=
  ⟨decodesDigits_iff s, escapesDigits_iff t⟩

/-- The texts "GG" and "%GG". -/
theorem far_letters_decode :
    ¬DecodesDigits [ascii 'G', ascii 'G'] ∧
      ¬EscapesDigits [ascii '%', ascii 'G', ascii 'G'] := by
  have hfar : FarLetter (ascii 'G') := by decide
  constructor
  · intro h
    obtain ⟨buffer, n, hrun, hn⟩ :=
      hexDecodeWithDelimiter_taken [ascii 'G', ascii 'G'] [0] (by decide)
    have htaken : Taken [ascii 'G', ascii 'G'] := ⟨by simp [hexDecodeDigit_far _ hfar], rfl⟩
    have hdigits := h _ _ _ (by decide) hrun (hn.mpr ⟨htaken, by simp⟩)
    exact hdigits.1 (ascii 'G') (by simp) (hexValue_far _ hfar)
  · intro h
    exact (escapesDigits_iff _).mp h
      ⟨_, _, List.infix_refl _, .inr hfar, .inr hfar, .inl hfar⟩

end Ashe.HexDigits
