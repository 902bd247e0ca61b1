import Mathlib.Data.List.Basic

namespace Ashe.StrSplit

variable {α : Type} [DecidableEq α]

def findHere (delimiter : List α) : List α → Option Nat
  | [] => if delimiter = [] then some 0 else none
  | c :: src =>
      if delimiter.isPrefixOf (c :: src) then some 0 else (findHere delimiter src).map (· + 1)

def find (src delimiter : List α) (offset : Nat) : Option Nat :=
  if src.length < offset then none
  else (findHere delimiter (src.drop offset)).map (offset + ·)

def pushField (fields : List (List α)) (t : List α) (includeEmptyStr : Bool) : List (List α) :=
  if 0 < t.length ∨ (t.length = 0 ∧ includeEmptyStr = true) then fields ++ [t] else fields

def splitLoop (src delimiter : List α) (includeEmptyStr : Bool) :
    Nat → Nat → Option Nat → List (List α) → Option (List (List α))
  | 0, _, _, _ => none
  | _ + 1, offset, none, fields => some (pushField fields (src.drop offset) includeEmptyStr)
  | n + 1, offset, some pos, fields =>
      let t := (src.drop offset).take (pos - offset)
      let offset := pos + delimiter.length
      splitLoop src delimiter includeEmptyStr n offset (find src delimiter offset)
        (pushField fields t includeEmptyStr)

/-- Both overloads of StrSplit. The first argument bounds the turns of the loop: an
empty delimiter is found at every offset. -/
def strSplit (n : Nat) (src delimiter : List α) (includeEmptyStr : Bool) :
    Option (List (List α)) :=
  splitLoop src delimiter includeEmptyStr n 0 (find src delimiter 0) []

omit [DecidableEq α] in
theorem pushField_true (fields : List (List α)) (t : List α) :
    pushField fields t true = fields ++ [t] := by
  rw [pushField, if_pos (by cases t <;> simp)]

theorem findHere_append {c : α} {s t : List α} (hs : c ∉ s) :
    findHere [c] (s ++ c :: t) = some s.length := by
  induction s with
  | nil => simp [findHere]
  | cons d s ih =>
      have hd : c ≠ d := fun h => hs (h ▸ List.mem_cons_self ..)
      have ih := ih fun h => hs (List.mem_cons_of_mem _ h)
      simp [findHere, ih, hd]

theorem findHere_none {c : α} {s : List α} (hs : c ∉ s) : findHere [c] s = none := by
  induction s with
  | nil => simp [findHere]
  | cons d s ih =>
      have hd : c ≠ d := fun h => hs (h ▸ List.mem_cons_self ..)
      have ih := ih fun h => hs (List.mem_cons_of_mem _ h)
      simp [findHere, ih, hd]

theorem find_behind (before rest delimiter : List α) :
    find (before ++ rest) delimiter before.length =
      (findHere delimiter rest).map (before.length + ·) := by
  rw [find, if_neg (by simp), List.drop_left]

/-- With a delimiter of one character the fields are those between its occurrences. -/
theorem splitLoop_splitOn (c : α) (rest before : List α) (fields : List (List α)) {n : Nat}
    (hn : rest.length < n) :
    splitLoop (before ++ rest) [c] true n before.length (find (before ++ rest) [c] before.length)
      fields = some (fields ++ rest.splitOn c) := by
  induction n generalizing rest before fields with
  | zero => omega
  | succ n ih =>
      rw [find_behind]
      by_cases hc : c ∈ rest
      · obtain ⟨s, t, rfl, hs⟩ := List.eq_append_cons_of_mem hc
        have hsplit : (s ++ c :: t).splitOn c = s :: t.splitOn c :=
          List.splitOn_append_cons_self_of_not_mem hs t
        have hnext : before.length + s.length + [c].length = (before ++ s ++ [c]).length := by
          simp [Nat.add_assoc]
        have hshort : t.length < n := by
          simp at hn
          omega
        have ih := ih t (before ++ s ++ [c]) (fields ++ [s]) hshort
        rw [findHere_append hs, Option.map_some, splitLoop, hnext, pushField_true, hsplit]
        simpa [Nat.add_assoc] using ih
      · have hsplit : rest.splitOn c = [rest] := List.splitOn_eq_singleton hc
        rw [findHere_none hc, Option.map_none, splitLoop, pushField_true, List.drop_left, hsplit]

theorem strSplit_splitOn (c : α) {src : List α} {n : Nat} (hn : src.length < n) :
    strSplit n src [c] true = some (src.splitOn c) :=
  splitLoop_splitOn c src [] [] hn

section Occurrences

variable {src delimiter : List α} {offset : Nat}

theorem find_at (h : delimiter <+: src.drop offset) (hoffset : offset ≤ src.length) :
    find src delimiter offset = some offset := by
  have hhere : findHere delimiter (src.drop offset) = some 0 := by
    cases hdrop : src.drop offset with
    | nil => simp_all [findHere]
    | cons c rest =>
        rw [hdrop] at h
        rw [findHere, if_pos (List.isPrefixOf_iff_prefix.mpr h)]
  rw [find, if_neg (by omega), hhere]
  rfl

theorem find_next (hd : delimiter ≠ []) (h : ¬delimiter <+: src.drop offset) :
    find src delimiter offset = find src delimiter (offset + 1) := by
  by_cases hlt : offset < src.length
  · have hnot : ¬delimiter.isPrefixOf (src[offset] :: src.drop (offset + 1)) = true := by
      rwa [List.isPrefixOf_iff_prefix, ← List.drop_eq_getElem_cons hlt]
    rw [find, find, if_neg (by omega), if_neg (by omega), List.drop_eq_getElem_cons hlt, findHere,
      if_neg hnot, Option.map_map]
    congr 1
    funext k
    simp only [Function.comp_apply]
    omega
  · by_cases heq : src.length < offset
    · rw [find, find, if_pos heq, if_pos (by omega)]
    · rw [find, find, if_neg heq, if_pos (by omega), List.drop_of_length_le (by omega), findHere,
        if_neg hd]
      rfl

theorem find_behind_end (h : src.length < offset) : find src delimiter offset = none := by
  rw [find, if_pos h]

end Occurrences

end Ashe.StrSplit
