import Ashe.SplitJoin

namespace Ashe.StringReplace

open Fuel Occurrences SplitJoin StrSplit StringUtil

variable {α : Type} [DecidableEq α] {upper : α → α} {caseInsensitive : Bool}
  {fromStr toStr : List α}

theorem replaceLoop_steady (startPos : Nat) (ret : List α) :
    Steady fun n => replaceLoop upper fromStr toStr caseInsensitive n startPos ret := by
  intro n r h
  induction n generalizing startPos ret with
  | zero => exact absurd h (by simp [replaceLoop])
  | succ n ih =>
      dsimp only at h ⊢
      rw [replaceLoop] at h ⊢
      split at h
      next => exact h
      next => exact ih _ _ h

theorem strReplace_steady (s : List α) (offset : Nat) :
    Steady fun n => strReplace n upper s fromStr toStr offset caseInsensitive := by
  intro n r h
  dsimp only at h ⊢
  unfold strReplace at h ⊢
  split
  next hempty => rwa [if_pos hempty] at h
  next hempty =>
    rw [if_neg hempty] at h
    dsimp only at h ⊢
    split
    next hfound => rwa [if_pos hfound] at h
    next hfound =>
      rw [if_neg hfound] at h
      exact replaceLoop_steady 0 s n r h

theorem strFind_place (hne : fromStr ≠ []) (s : List α) (offset : Nat) :
    strFind upper s fromStr offset caseInsensitive =
      (place (equal upper caseInsensitive) fromStr (s.drop offset)).map (offset + ·) := by
  rw [strFind]
  split
  next hend =>
    have hnone : place (equal upper caseInsensitive) fromStr (s.drop offset) = none := by
      rw [place_none_iff hne]
      intro i hi
      have hinside := startsWith_inside hne hi
      rw [List.length_drop] at hinside
      omega
    rw [hnone, Option.map_none]
  next => rfl

/-- The loop replaces in the text that is left, and does not look at what it wrote. -/
theorem replaceLoop_pieces (hne : fromStr ≠ []) (text : List α) : ∀ done : List α,
    Yields (fun n => replaceLoop upper fromStr toStr caseInsensitive n done.length (done ++ text))
      (done ++ replaceAll (equal upper caseInsensitive) fromStr toStr text) := by
  induction text using pieces_induction (equal upper caseInsensitive) hne with
  | last text h =>
      intro done
      refine ⟨1, ?_⟩
      dsimp only
      rw [replaceLoop, strFind_place hne, List.drop_left, h, Option.map_none,
        replaceAll_none hne toStr h]
  | more text i h ih =>
      intro done
      have hlen := place_lt hne h
      have hreplace : replace (done ++ text) (done.length + i) fromStr.length toStr =
          (done ++ text.take i ++ toStr) ++ text.drop (i + fromStr.length) := by
        rw [replace, List.take_length_add_append, Nat.add_assoc, List.drop_length_add_append]
      have hstart : done.length + i + toStr.length = (done ++ text.take i ++ toStr).length := by
        rw [List.length_append, List.length_append, List.length_take]
        omega
      obtain ⟨n, hn⟩ := ih (done ++ text.take i ++ toStr)
      refine ⟨n + 1, ?_⟩
      dsimp only at hn ⊢
      rw [replaceLoop, strFind_place hne, List.drop_left, h, Option.map_some]
      dsimp only
      rw [hreplace, hstart, hn, replaceAll_some hne toStr h]
      simp only [List.append_assoc]

/-- The test looks behind the offset only, the loop at the whole string. -/
theorem strReplace_found (hne : fromStr ≠ []) (s toStr : List α) (offset : Nat) :
    Yields (fun n => strReplace n upper s fromStr toStr offset caseInsensitive)
      (if place (equal upper caseInsensitive) fromStr (s.drop offset) = none then s
        else replaceAll (equal upper caseInsensitive) fromStr toStr s) := by
  cases h : place (equal upper caseInsensitive) fromStr (s.drop offset) with
  | none =>
      refine ⟨0, ?_⟩
      dsimp only
      rw [strReplace, if_neg hne, strFind_place hne, h]
      rfl
  | some i =>
      obtain ⟨n, hn⟩ := @replaceLoop_pieces _ _ upper caseInsensitive _ toStr hne s []
      refine ⟨n, ?_⟩
      dsimp only
      rw [strReplace, if_neg hne, strFind_place hne, h]
      exact hn

example : strReplace 3 wcharToUpper ("@%Root%.dll".toList.map CmdLineParser.code)
    ("%rOOT%".toList.map CmdLineParser.code) ("c:".toList.map CmdLineParser.code) 0 true =
      some ("@c:.dll".toList.map CmdLineParser.code) := by
  decide

theorem equal_false : equal upper false = (same : α → α → Bool) := by
  funext a b
  rfl

/-- StrReplace with the case from the start of a string is StrSplit and StrJoin. -/
theorem replace_is_split_join (upper : α → α) (s toStr : List α) (hne : fromStr ≠ []) :
    ∃ r fields, Yields (fun n => strReplace n upper s fromStr toStr 0 false) r ∧
      Yields (fun n => strSplit n s fromStr true) fields ∧ r = strJoin fields toStr true := by
  have hsplit := strSplit_pieces hne s true
  have hreplace := @strReplace_found _ _ upper false _ hne s toStr 0
  rw [kept_true] at hsplit
  refine ⟨_, _, hreplace, hsplit, ?_⟩
  rw [strJoin_intercalate, List.drop_zero, equal_false]
  split
  next h => rw [pieces_none hne h, List.intercalate_singleton]
  next => rfl

theorem replace_is_split_join_inside :
    ∃ r fields, Yields (fun n => strReplace n charToUpper ("aaa".toList.map HexEncode.ascii)
        ("aa".toList.map HexEncode.ascii) ("baab".toList.map HexEncode.ascii) 0 false) r ∧
      Yields (fun n => strSplit n ("aaa".toList.map HexEncode.ascii)
        ("aa".toList.map HexEncode.ascii) true) fields ∧
      r = strJoin fields ("baab".toList.map HexEncode.ascii) true :=
  replace_is_split_join _ _ _ (by decide)

/-- The text that replaces the occurrences from the offset on and no other. -/
def replacedFrom (eq : α → α → Bool) (s fromStr toStr : List α) (offset : Nat) : List α :=
  s.take offset ++ replaceAll eq fromStr toStr (s.drop offset)

omit [DecidableEq α] in
theorem replacedFrom_none {eq : α → α → Bool} (hne : fromStr ≠ []) (s toStr : List α)
    {offset : Nat} (h : place eq fromStr (s.drop offset) = none) :
    replacedFrom eq s fromStr toStr offset = s := by
  rw [replacedFrom, replaceAll_none hne toStr h, List.take_append_drop]

omit [DecidableEq α] in
/-- With an occurrence in front of the offset, the text differs when another character
is written for it. -/
theorem replaceAll_touches [Nontrivial α] {eq : α → α → Bool} (hne : fromStr ≠ [])
    {s : List α} {offset i : Nat} (hi : i < offset) (h : startsWith eq fromStr (s.drop i)) :
    ∃ toStr, replaceAll eq fromStr toStr s ≠ replacedFrom eq s fromStr toStr offset := by
  cases hplace : place eq fromStr s with
  | none => exact absurd h ((place_none_iff hne).mp hplace i)
  | some j =>
      have hji : j ≤ i := Nat.le_of_not_lt fun hij => ((place_some_iff hne).mp hplace).2 i hij h
      have hlen := place_lt hne hplace
      have hpos := List.length_pos_iff.mpr hne
      have hj : j < s.length := by omega
      obtain ⟨c, hc⟩ := exists_ne s[j]
      refine ⟨[c], fun hsame => hc ?_⟩
      have hleft : (s.take j ++ [c] ++ replaceAll eq fromStr [c]
          (s.drop (j + fromStr.length)))[j]? = some c := by
        rw [List.append_assoc, List.getElem?_append_right (List.length_take_le j s)]
        simp [Nat.min_eq_left (Nat.le_of_lt hj)]
      have hright : (replacedFrom eq s fromStr [c] offset)[j]? = some s[j] := by
        rw [replacedFrom, List.getElem?_append_left (by rw [List.length_take]; omega),
          List.getElem?_take_of_lt (by omega), List.getElem?_eq_getElem hj]
      rw [← replaceAll_some hne [c] hplace, hsame, hright] at hleft
      exact (Option.some.inj hleft).symm

/-- For every string that is written, StrReplace replaces the occurrences from the offset
on and no other just when there is none from the offset on, or none in front of it. -/
theorem replace_offset_iff [Nontrivial α] (upper : α → α) (caseInsensitive : Bool)
    (s : List α) (hne : fromStr ≠ []) (offset : Nat) :
    (∀ toStr, Yields (fun n => strReplace n upper s fromStr toStr offset caseInsensitive)
        (replacedFrom (equal upper caseInsensitive) s fromStr toStr offset)) ↔
      (∀ i, offset ≤ i → ¬ startsWith (equal upper caseInsensitive) fromStr (s.drop i)) ∨
      ∀ i < offset, ¬ startsWith (equal upper caseInsensitive) fromStr (s.drop i) := by
  have hnone : place (equal upper caseInsensitive) fromStr (s.drop offset) = none ↔
      ∀ i, offset ≤ i → ¬ startsWith (equal upper caseInsensitive) fromStr (s.drop i) := by
    rw [place_none_iff hne]
    simp only [List.drop_drop]
    refine ⟨fun h i hi => ?_, fun h i => h (offset + i) (Nat.le_add_right offset i)⟩
    rw [← Nat.add_sub_cancel' hi]
    exact h (i - offset)
  rw [← hnone]
  constructor
  · intro h
    refine or_iff_not_imp_left.mpr fun hsome i hi hstart => ?_
    obtain ⟨toStr, hdiffers⟩ := replaceAll_touches hne hi hstart
    have hfound := @strReplace_found _ _ upper caseInsensitive _ hne s toStr offset
    rw [if_neg hsome] at hfound
    exact hdiffers ((strReplace_steady s offset).unique hfound (h toStr))
  · intro h toStr
    have hfound := @strReplace_found _ _ upper caseInsensitive _ hne s toStr offset
    split at hfound
    next hsome => rwa [replacedFrom_none hne s toStr hsome]
    next hsome =>
      rw [replaceAll_skip hne toStr (h.resolve_left hsome)] at hfound
      exact hfound

theorem replace_offset_iff_last :
    (∀ toStr, Yields (fun n => strReplace n charToUpper ("abcA".toList.map HexEncode.ascii)
        ("a".toList.map HexEncode.ascii) toStr 3 true)
        (replacedFrom (equal charToUpper true) ("abcA".toList.map HexEncode.ascii)
          ("a".toList.map HexEncode.ascii) toStr 3)) ↔
      (∀ i, 3 ≤ i → ¬ startsWith (equal charToUpper true) ("a".toList.map HexEncode.ascii)
        (("abcA".toList.map HexEncode.ascii).drop i)) ∨
      ∀ i < 3, ¬ startsWith (equal charToUpper true) ("a".toList.map HexEncode.ascii)
        (("abcA".toList.map HexEncode.ascii).drop i) :=
  have : Nontrivial UInt8 := ⟨0, 1, by decide⟩
  replace_offset_iff _ _ _ (by decide) _

theorem replace_touches_before :
    ¬ ∀ (s fromStr toStr : List UInt8) (offset : Nat) (caseInsensitive : Bool),
      fromStr ≠ [] → offset ≤ s.length →
        Yields (fun n => strReplace n charToUpper s fromStr toStr offset caseInsensitive)
          (replacedFrom (equal charToUpper caseInsensitive) s fromStr toStr offset) := by
  intro h
  have hsplit := h ("aa".toList.map HexEncode.ascii) ("a".toList.map HexEncode.ascii)
    ("b".toList.map HexEncode.ascii) 1 false (by decide) (by decide)
  have hcode : Yields (fun n => strReplace n charToUpper ("aa".toList.map HexEncode.ascii)
      ("a".toList.map HexEncode.ascii) ("b".toList.map HexEncode.ascii) 1 false)
      ("bb".toList.map HexEncode.ascii) := ⟨3, by decide⟩
  exact absurd ((strReplace_steady _ _).unique hsplit hcode) (by decide)

end Ashe.StringReplace
