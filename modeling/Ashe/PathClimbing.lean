import Ashe.PathUtil
import Ashe.Iteration
import Mathlib.Algebra.Group.Nat.Defs

namespace Ashe.PathClimbing

open PathUtil Iteration

variable {α : Type}

section

variable {p : α → Bool} {s : List α}

theorem searchBack_some {n i : Nat} (h : searchBack p s n = some i) :
    i < n ∧ s[i]?.any p = true ∧ ∀ j, i < j → j < n → s[j]?.any p = false := by
  induction n with
  | zero => exact absurd h (by simp [searchBack])
  | succ n ih =>
      rw [searchBack] at h
      split at h
      next hn =>
        obtain rfl := Option.some.inj h
        exact ⟨Nat.lt_succ_self n, hn, fun j hj hjn => absurd hj (by omega)⟩
      next hn =>
        obtain ⟨hi, hp, hlast⟩ := ih h
        refine ⟨Nat.lt_succ_of_lt hi, hp, fun j hj hjn => ?_⟩
        obtain hjn | rfl : j < n ∨ j = n := by omega
        · exact hlast j hj hjn
        · exact Bool.eq_false_iff.mpr hn

theorem searchBack_isSome {n i : Nat} (hi : i < n) (hp : s[i]?.any p = true) :
    ∃ j, searchBack p s n = some j := by
  induction n with
  | zero => exact absurd hi (Nat.not_lt_zero i)
  | succ n ih =>
      rw [searchBack]
      split
      next => exact ⟨n, rfl⟩
      next hn =>
        obtain hi | rfl : i < n ∨ i = n := by omega
        · exact ih hi
        · exact absurd hp hn

theorem any_getElem_lt {i : Nat} (h : s[i]?.any p = true) : i < s.length := by
  by_contra hi
  rw [List.getElem?_eq_none (Nat.not_lt.mp hi)] at h
  exact absurd h (by simp)

theorem findLastOf_last {npos : Nat} (hsize : s.length ≤ npos) {i : Nat}
    (hp : s[i]?.any p = true) :
    findLastOf npos p s npos < s.length ∧ s[findLastOf npos p s npos]?.any p = true ∧
      ∀ j, findLastOf npos p s npos < j → s[j]?.any p = false := by
  have hall : min s.length (npos + 1) = s.length := by omega
  obtain ⟨last, hlast⟩ := searchBack_isSome (any_getElem_lt hp) hp
  obtain ⟨hlt, hthere, hnone⟩ := searchBack_some hlast
  rw [findLastOf, hall, hlast, Option.getD_some]
  refine ⟨hlt, hthere, fun j hj => ?_⟩
  by_cases hjs : j < s.length
  · exact hnone j hj hjs
  · rw [List.getElem?_eq_none (Nat.not_lt.mp hjs)]
    rfl

end

variable [DecidableEq α] (backslash slash : α) {npos : Nat}

theorem levelUp_initial (npos : Nat) (dir : List α) : levelUp backslash slash npos dir <+: dir :=
  List.take_prefix _ _

/-- A path of which nothing is cut stays, and one of one character too. -/
theorem levelUp_nonempty {dir : List α} (hne : dir ≠ []) (hsize : dir.length ≤ npos) :
    levelUp backslash slash npos dir ≠ [] := by
  have hpos := List.length_pos_iff.mpr hne
  apply List.length_pos_iff.mp
  simp only [levelUp, List.length_take]
  generalize findLastOf npos _ dir _ = pos
  by_cases hnpos : pos = npos
  · rw [if_neg (not_not_intro hnpos)]
    omega
  · rw [if_pos hnpos]
    omega

theorem levelUp_shrinks : Shrinks (levelUp backslash slash npos)
    (fun dir => dir ≠ [] ∧ dir.length ≤ npos) List.length where
  holds dir hdir := ⟨levelUp_nonempty backslash slash hdir.1 hdir.2,
    Nat.le_trans (levelUp_initial backslash slash npos dir).length_le hdir.2⟩
  smaller dir _ := by
    have hinitial := levelUp_initial backslash slash npos dir
    cases Nat.lt_or_eq_of_le hinitial.length_le with
    | inl hlt => exact Or.inr hlt
    | inr heq => exact Or.inl (hinitial.eq_of_length heq)

variable {p : List α}

theorem levelLoop_iterate (hne : p ≠ []) (hsize : p.length ≤ npos) (n : Nat) :
    levelLoop backslash slash npos n p = (levelUp backslash slash npos)^[n] p := by
  induction n generalizing p with
  | zero => rfl
  | succ n ih =>
      obtain ⟨hup, hupSize⟩ := (levelUp_shrinks backslash slash).holds p ⟨hne, hsize⟩
      rw [levelLoop, List.isEmpty_eq_false_iff.mpr hne, if_neg Bool.false_ne_true, ih hup hupSize,
        Function.iterate_succ_apply]

theorem iterate_initial (npos n : Nat) (p : List α) :
    (levelUp backslash slash npos)^[n] p <+: p := by
  induction n with
  | zero => exact List.prefix_rfl
  | succ n ih =>
      rw [Function.iterate_succ_apply']
      exact (levelUp_initial backslash slash npos _).trans ih

/-- The directory and the name of a path that has a separator, but not at its end. -/
theorem path_parts (hsize : p.length ≤ npos) (hsep : p.any (isSlash backslash slash))
    (hend : ¬(p.getLast?).any (isSlash backslash slash)) :
    ∃ last, ∃ h : last + 1 < p.length, isSlash backslash slash p[last] = true ∧
      isSlash backslash slash p[last + 1] = false ∧
      levelUp backslash slash npos p = p.take (last + 1) ∧
      pathGetFileName backslash slash npos p = p.drop (last + 1) := by
  obtain ⟨c, hc, hslash⟩ := List.any_eq_true.mp hsep
  obtain ⟨i, hi⟩ := List.mem_iff_getElem?.mp hc
  have hthere : p[i]?.any (isSlash backslash slash) = true := by rw [hi]; exact hslash
  obtain ⟨hlt, hlast, hnone⟩ := findLastOf_last hsize hthere
  rw [levelUp, if_neg hend, pathGetFileName]
  generalize findLastOf npos (isSlash backslash slash) p npos = last at hlt hlast hnone
  rw [List.getElem?_eq_getElem hlt] at hlast
  have hnext : last + 1 < p.length := by
    by_contra hno
    have hat : last = p.length - 1 := by omega
    rw [List.getLast?_eq_getElem?, ← hat, List.getElem?_eq_getElem hlt] at hend
    exact hend hlast
  have hafter := hnone (last + 1) (Nat.lt_succ_self last)
  rw [List.getElem?_eq_getElem hnext] at hafter
  refine ⟨last, hnext, hlast, hafter, ?_, ?_⟩
  · show p.take (if last ≠ npos then last + 1 else last) = _
    rw [if_pos (by omega)]
  · rw [Nat.mod_eq_of_lt (by omega)]

/-- Nothing comes between a path that ends in a separator and one that begins with none. -/
theorem pathJoin_append (win : Bool) {path1 path2 : List α} {c : α} (hne : path2 ≠ [])
    (hend : path1.getLast? = some c) (hslash : isSlash backslash slash c = true)
    (hbegin : (path2.head?).any (isSlash backslash slash) = false) :
    pathJoin backslash slash win path1 path2 = path1 ++ path2 := by
  have hne1 : path1 ≠ [] := by
    rintro rfl
    exact absurd hend (by simp)
  rw [pathJoin, List.isEmpty_eq_false_iff.mpr hne1, List.isEmpty_eq_false_iff.mpr hne, hend, hbegin]
  simp [hslash]

theorem pathJoin_parts (win : Bool) (hsize : p.length ≤ npos)
    (hsep : p.any (isSlash backslash slash)) (hend : ¬(p.getLast?).any (isSlash backslash slash)) :
    pathJoin backslash slash win (levelUp backslash slash npos p)
      (pathGetFileName backslash slash npos p) = p := by
  obtain ⟨last, hlt, hthere, hafter, hdir, hname⟩ := path_parts backslash slash hsize hsep hend
  rw [hdir, hname, pathJoin_append backslash slash win _ _ hthere]
  · exact List.take_append_drop _ p
  · rw [List.head?_drop, List.getElem?_eq_getElem hlt]
    exact hafter
  · exact fun h => absurd (List.drop_eq_nil_iff.mp h) (by omega)
  · rw [List.getLast?_take, if_neg (Nat.succ_ne_zero last), Nat.add_sub_cancel,
      List.getElem?_eq_getElem (Nat.lt_of_succ_lt hlt)]
    rfl

/-- Climbing settles on a part of the path that is not empty, and a path is joined
from its directory and its name. -/
theorem directory_laws (hne : p ≠ []) (hsize : p.length ≤ npos) :
    (∀ n : Nat, pathGetDirectory backslash slash npos p n ≠ [] ∧
      pathGetDirectory backslash slash npos p n <+: p) ∧
    (∀ m n : Nat, m ≤ n → (pathGetDirectory backslash slash npos p n).length ≤
      (pathGetDirectory backslash slash npos p m).length) ∧
    (∀ m n : Nat, m ≤ n →
      pathGetDirectory backslash slash npos p (m + 1) = pathGetDirectory backslash slash npos p m →
      pathGetDirectory backslash slash npos p n = pathGetDirectory backslash slash npos p m) ∧
    (∀ n : Nat, p.length ≤ n →
      pathGetDirectory backslash slash npos p (n + 1) =
        pathGetDirectory backslash slash npos p n) ∧
    (p.any (isSlash backslash slash) → ¬(p.getLast?).any (isSlash backslash slash) → ∀ win,
      pathJoin backslash slash win (pathGetDirectory backslash slash npos p 1)
        (pathGetFileName backslash slash npos p) = p) := by
  have hshrinks := @levelUp_shrinks _ _ backslash slash npos
  have hclimb (n : Nat) : pathGetDirectory backslash slash npos p n =
      (levelUp backslash slash npos)^[n] p := levelLoop_iterate backslash slash hne hsize n
  have hclimb' (n : Nat) : pathGetDirectory backslash slash npos p (n + 1) =
      levelUp backslash slash npos ((levelUp backslash slash npos)^[n] p) := by
    rw [← Function.iterate_succ_apply' (levelUp backslash slash npos)]
    exact hclimb (n + 1)
  refine ⟨fun n => ?_, fun m n hmn => ?_, fun m n hmn hfix => ?_, fun n hn => ?_,
    fun hsep hend win => ?_⟩
  · rw [hclimb]
    exact ⟨(hshrinks.iterate ⟨hne, hsize⟩ n).1, iterate_initial backslash slash npos n p⟩
  · rw [hclimb, hclimb]
    exact hshrinks.antitone ⟨hne, hsize⟩ hmn
  · rw [hclimb', hclimb] at hfix
    rw [hclimb, hclimb]
    exact iterate_stays hmn hfix
  · rw [hclimb', hclimb]
    exact hshrinks.settled (fun dir hdir => List.length_pos_iff.mpr hdir.1) ⟨hne, hsize⟩ hn
  · rw [show (1 : Int) = ((1 : Nat) : Int) from rfl, hclimb 1]
    exact pathJoin_parts backslash slash win hsize hsep hend

/-- A root of one character, where the position two before the end wraps around, and a
file in a directory. -/
theorem directory_laws_root :
    pathGetDirectory '\\' '/' (2 ^ 64 - 1) ['/'] 2 =
        pathGetDirectory '\\' '/' (2 ^ 64 - 1) ['/'] 1 ∧
      pathJoin '\\' '/' true (pathGetDirectory '\\' '/' (2 ^ 64 - 1) ['C', ':', '\\', 'a'] 1)
        (pathGetFileName '\\' '/' (2 ^ 64 - 1) ['C', ':', '\\', 'a']) = ['C', ':', '\\', 'a'] :=
  ⟨(directory_laws '\\' '/' (by decide) (by decide)).2.2.2.1 1 (by decide),
    (directory_laws '\\' '/' (by decide) (by decide)).2.2.2.2 (by decide) (by decide) true⟩

end Ashe.PathClimbing
