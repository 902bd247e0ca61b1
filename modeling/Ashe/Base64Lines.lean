import Ashe.Base64RoundTrip
import Ashe.Separated

namespace Ashe.Base64Lines

open Base64 Base64RoundTrip Separated
open HexEncode (ascii)

section Cut

variable {α : Type} {d : Nat}

/-- A text cut after every d characters, as long as some are left. -/
def cut (d : Nat) (text : List α) : List (List α) :=
  if 0 < d ∧ d < text.length then text.take d :: cut d (text.drop d) else [text]
termination_by text.length
decreasing_by rw [List.length_drop]; omega

theorem cut_ne_nil (d : Nat) (text : List α) : cut d text ≠ [] := by
  rw [cut]
  split <;> simp

theorem flatten_cut (d : Nat) (text : List α) : (cut d text).flatten = text := by
  induction text using cut.induct d with
  | case1 text hmore ih => rw [cut, if_pos hmore, List.flatten_cons, ih, List.take_append_drop]
  | case2 text hend => rw [cut, if_neg hend, List.flatten_singleton]

theorem cut_lines (hd : 0 < d) {text : List α} (htext : text ≠ []) :
    (∀ line ∈ (cut d text).dropLast, line.length = d) ∧
      ∀ line ∈ (cut d text).getLast?, 0 < line.length ∧ line.length ≤ d := by
  induction text using cut.induct d with
  | case1 text hmore ih =>
      have hdrop : text.drop d ≠ [] := List.drop_eq_nil_iff.not.mpr (by omega)
      obtain ⟨hlines, hlast⟩ := ih hdrop
      rw [cut, if_pos hmore]
      constructor
      · rw [List.dropLast_cons_of_ne_nil (cut_ne_nil d _)]
        refine List.forall_mem_cons.mpr ⟨?_, hlines⟩
        rw [List.length_take]
        omega
      · rwa [List.getLast?_cons_of_ne_nil (cut_ne_nil d _)]
  | case2 text hend =>
      rw [cut, if_neg hend]
      refine ⟨fun line hline => absurd hline (by simp), fun line hline => ?_⟩
      obtain rfl : text = line := by simpa using hline
      exact ⟨List.length_pos_of_ne_nil htext, by omega⟩

end Cut

theorem insertLoop_cut {d n : Nat} (hd : 0 < d) (text before : List UInt8) (hn : text.length < n) :
    insertLoop d n (before ++ text) (before.length + d) =
      some (before ++ List.intercalate [ascii '\n'] (cut d text)) := by
  induction text using cut.induct d generalizing before n with
  | case1 text hmore ih =>
      cases n with
      | zero => exact absurd hn (Nat.not_lt_zero _)
      | succ n =>
          have hpos : before.length + d < (before ++ text).length := by simp; omega
          have hsplit : (before ++ text).take (before.length + d) ++
              ascii '\n' :: (before ++ text).drop (before.length + d) =
              (before ++ (text.take d ++ [ascii '\n'])) ++ text.drop d := by
            rw [List.take_length_add_append, List.drop_length_add_append]
            simp
          have hnext : before.length + d + (d + 1) =
              (before ++ (text.take d ++ [ascii '\n'])).length + d := by
            simp; omega
          have hcut : cut d text = text.take d :: cut d (text.drop d) := by rw [cut, if_pos hmore]
          rw [insertLoop, if_pos hpos, hsplit, hnext, ih _ (by simp; omega), hcut,
            List.intercalate_cons_of_ne_nil (cut_ne_nil d _)]
          simp
  | case2 text hend =>
      cases n with
      | zero => exact absurd hn (Nat.not_lt_zero _)
      | succ n =>
          have hpos : ¬before.length + d < (before ++ text).length := by simp; omega
          rw [insertLoop, if_neg hpos, cut, if_neg hend, List.intercalate_singleton]

section Encoded

theorem base64Char_ne_newline (url : Bool) (i : UInt8) : base64Char url i ≠ ascii '\n' := by
  have hall : ∀ url, (base64Chars url).all (· ≠ ascii '\n') = true := by decide
  have hmem := List.all_eq_true.mp (hall url)
  rw [base64Char, List.getD_eq_getElem?_getD]
  cases h : (base64Chars url)[i.toNat]? with
  | none => decide
  | some c => simpa using hmem c (List.mem_of_getElem? h)

theorem trailingChar_ne_newline (url : Bool) : trailingChar url ≠ ascii '\n' := by
  cases url <;> decide

theorem newline_not_mem_encoded (url : Bool) (s : List UInt8) : ascii '\n' ∉ encoded url s := by
  have hchar (i : UInt8) := (base64Char_ne_newline url i).symm
  have htrailing := (trailingChar_ne_newline url).symm
  match s with
  | [] => exact List.not_mem_nil
  | [b0] => simp [encoded, oneByte, hchar, htrailing]
  | [b0, b1] => simp [encoded, twoBytes, hchar, htrailing]
  | b0 :: b1 :: b2 :: bytes =>
      have ih := newline_not_mem_encoded url bytes
      simp [encoded, threeBytes, hchar, ih]

theorem encoded_length_le (url : Bool) (s : List UInt8) :
    (encoded url s).length ≤ 4 * ((s.length + 2) / 3) := by
  match s with
  | [] => simp [encoded]
  | [b0] => simp [encoded, oneByte]
  | [b0, b1] => simp [encoded, twoBytes]
  | b0 :: b1 :: b2 :: bytes =>
      have ih := encoded_length_le url bytes
      simp only [encoded, threeBytes, List.length_append, List.length_cons, List.length_nil]
      omega

end Encoded

/-- Every line of the text has d characters, save the last, which has one at least and
d at most. -/
def FillsLines (d : Nat) (text : List UInt8) : Prop :=
  (∀ line ∈ (entries (ascii '\n') text).dropLast, line.length = d) ∧
    ∀ line ∈ (entries (ascii '\n') text).getLast?, 0 < line.length ∧ line.length ≤ d

section Lines

variable {d turns : Nat} {s : List UInt8}

theorem newline_not_mem_cut {line : List UInt8} (h : line ∈ cut d (encoded false s)) :
    ascii '\n' ∉ line := by
  intro hline
  refine newline_not_mem_encoded false s ?_
  rw [← flatten_cut d (encoded false s)]
  exact List.mem_flatten_of_mem h hline

theorem filter_intercalate (l : List (List UInt8)) (hl : ∀ line ∈ l, ascii '\n' ∉ line) :
    (List.intercalate [ascii '\n'] l).filter (· ≠ ascii '\n') = l.flatten := by
  induction l with
  | nil => rfl
  | cons line l ih =>
      obtain ⟨hline, hl⟩ := List.forall_mem_cons.mp hl
      have hkeep : line.filter (· ≠ ascii '\n') = line :=
        List.filter_eq_self.mpr fun c hc => by
          have hne : c ≠ ascii '\n' := fun h => hline (h ▸ hc)
          simpa using hne
      by_cases hnil : l = []
      · rw [hnil, List.intercalate_singleton, hkeep]
        simp
      · rw [List.intercalate_cons_of_ne_nil hnil, List.filter_append, List.filter_append, ih hl,
          hkeep]
        simp

theorem decode_false (text : List UInt8) : decode text false = (decodeText text).getD [] := by
  rw [decode, decodeFlag, if_neg (show ¬false = true by simp)]
  split
  next h => rw [decodeText, if_pos h]
  next => rfl

/-- What the decoder gives that leaves out the line breaks first. -/
theorem decode_linebreaks {text : List UInt8}
    (h : text.filter (· ≠ ascii '\n') = encoded false s) : decode text true = s := by
  have hdecode := decode_encoded false s
  rw [decode_false] at hdecode
  by_cases htext : text = []
  · rw [htext, List.filter_nil] at h
    rw [htext, encoded_eq_nil h.symm]
    rfl
  · rw [decode, decodeFlag, if_neg htext, if_pos rfl, h]
    simp only [hdecode]
    by_cases hs : s = []
    · rw [hs]
      rfl
    · rw [if_pos (List.length_pos_of_ne_nil hs)]
      rfl

theorem insertLineBreaks_cut (hd : 0 < d) {text : List UInt8} (htext : text ≠ [])
    (hn : text.length < turns) :
    insertLineBreaks turns text d = some (List.intercalate [ascii '\n'] (cut d text)) := by
  have h := insertLoop_cut hd text [] hn
  rw [List.nil_append, List.length_nil, Nat.zero_add, List.nil_append] at h
  rw [insertLineBreaks, if_neg (List.length_eq_zero_iff.not.mpr htext), h]

theorem entries_cut (hs : encoded false s ≠ []) :
    entries (ascii '\n') (List.intercalate [ascii '\n'] (cut d (encoded false s))) =
      cut d (encoded false s) := by
  refine entries_intercalate (fun line hline => newline_not_mem_cut hline) fun hcut => hs ?_
  rw [← flatten_cut d (encoded false s), hcut]
  rfl

theorem encodeWithLineBreaks_eq (hd : 0 < d) (hlen : s.length < 2 ^ 31) (hturns : 2 ^ 32 ≤ turns) :
    ∃ text, encodeWithLineBreaks d turns s = some text ∧
      text.filter (· ≠ ascii '\n') = encoded false s ∧ FillsLines d text := by
  have hencode : encode turns s false = some (encoded false s) :=
    encode_eq false (by omega) (by omega)
  have hle := encoded_length_le false s
  rw [encodeWithLineBreaks, hencode]
  by_cases hs : encoded false s = []
  · rw [hs]
    exact ⟨[], rfl, rfl, fun line hline => absurd hline (by simp [entries]), by simp [entries]⟩
  · refine ⟨_, insertLineBreaks_cut hd hs (by omega), ?_, ?_⟩
    · rw [filter_intercalate _ fun line hline => newline_not_mem_cut hline, flatten_cut]
    · rw [FillsLines, entries_cut hs]
      exact cut_lines hd hs

end Lines

/-- Every encoder is undone by the decoder, which leaves out the line breaks of the last
two, and the lines of these are full. -/
theorem base64_round_trip {s : List UInt8} (hlen : s.length < 2 ^ 31) {turns : Nat}
    (hturns : 2 ^ 32 ≤ turns) :
    (∀ url, ∃ text, encode turns s url = some text ∧ decode text false = s) ∧
    (∃ text, encodeWithPEM turns s = some text ∧ decode text true = s ∧
      decode (text.filter (· ≠ ascii '\n')) false = s ∧ FillsLines 64 text) ∧
    ∃ text, encodeWithMIME turns s = some text ∧ decode text true = s ∧
      decode (text.filter (· ≠ ascii '\n')) false = s ∧ FillsLines 76 text := by
  have hbroken {d : Nat} (hd : 0 < d) : ∃ text, encodeWithLineBreaks d turns s = some text ∧
      decode text true = s ∧ decode (text.filter (· ≠ ascii '\n')) false = s ∧
      FillsLines d text := by
    obtain ⟨text, htext, hfilter, hlines⟩ := encodeWithLineBreaks_eq hd hlen hturns
    refine ⟨text, htext, decode_linebreaks hfilter, ?_, hlines⟩
    rw [hfilter, decode_encoded]
  refine ⟨fun url => ⟨encoded url s, encode_eq url (by omega) (by omega), ?_⟩, ?_, ?_⟩
  · exact decode_encoded url s
  · exact hbroken (by decide)
  · exact hbroken (by decide)

theorem base64_round_trip_two :
    (∀ url, ∃ text, encode (2 ^ 32) [0, 255] url = some text ∧ decode text false = [0, 255]) ∧
    (∃ text, encodeWithPEM (2 ^ 32) [0, 255] = some text ∧ decode text true = [0, 255] ∧
      decode (text.filter (· ≠ ascii '\n')) false = [0, 255] ∧ FillsLines 64 text) ∧
    ∃ text, encodeWithMIME (2 ^ 32) [0, 255] = some text ∧ decode text true = [0, 255] ∧
      decode (text.filter (· ≠ ascii '\n')) false = [0, 255] ∧ FillsLines 76 text :=
  base64_round_trip (by decide) (Nat.le_refl _)

end Ashe.Base64Lines
