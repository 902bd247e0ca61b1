import Mathlib.Data.List.Basic

namespace Ashe.Separated

variable {α : Type} [DecidableEq α]

def entries (sep : α) (text : List α) : List (List α) :=
  if text = [] then [] else text.splitOn sep

omit [DecidableEq α] in
theorem intercalate_append {sep : List α} {l l' : List (List α)} (hl : l ≠ []) (hl' : l' ≠ []) :
    sep.intercalate (l ++ l') = sep.intercalate l ++ sep ++ sep.intercalate l' := by
  induction l with
  | nil => exact absurd rfl hl
  | cons e l ih =>
      by_cases h : l = []
      · rw [h, List.singleton_append, List.intercalate_cons_of_ne_nil hl',
          List.intercalate_singleton]
      · have happ : l ++ l' ≠ [] := fun hnil => h (List.append_eq_nil_iff.mp hnil).1
        rw [List.cons_append, List.intercalate_cons_of_ne_nil happ,
          List.intercalate_cons_of_ne_nil h, ih h]
        simp only [List.append_assoc]

theorem intercalate_entries (sep : α) (text : List α) :
    List.intercalate [sep] (entries sep text) = text := by
  rw [entries]
  split
  next h => rw [h, List.intercalate_nil]
  next => exact List.intercalate_splitOn sep

/-- Parts without a separator are read back, unless there is one part and it is empty. -/
theorem entries_intercalate {sep : α} {l : List (List α)} (hsep : ∀ e ∈ l, sep ∉ e)
    (hl : l ≠ [[]]) : entries sep (List.intercalate [sep] l) = l := by
  have hnonempty : l ≠ [] → List.intercalate [sep] l ≠ [] := by
    intro hne hnil
    match l with
    | [] => exact hne rfl
    | [e] =>
        rw [List.intercalate_singleton] at hnil
        exact hl (by rw [hnil])
    | e :: e' :: l => simp at hnil
  by_cases hne : l = []
  · rw [hne, List.intercalate_nil, entries, if_pos rfl]
  · rw [entries, if_neg (hnonempty hne), List.splitOn_intercalate sep hsep hne]

theorem not_mem_of_mem_splitOn {sep : α} {text e : List α} (he : e ∈ text.splitOn sep) :
    sep ∉ e := by
  induction text generalizing e with
  | nil =>
      obtain rfl : e = [] := by simpa using he
      exact List.not_mem_nil
  | cons c text ih =>
      rw [List.splitOn_cons_eq_if_modifyHead] at he
      split at he
      next =>
        cases List.mem_cons.mp he with
        | inl h => rw [h]; exact List.not_mem_nil
        | inr h => exact ih h
      next hc =>
        cases hsplit : text.splitOn sep with
        | nil => exact absurd hsplit (List.splitOn_ne_nil sep text)
        | cons first parts =>
            rw [hsplit, List.modifyHead_cons] at he
            have hfirst := ih (hsplit ▸ List.mem_cons_self ..)
            cases List.mem_cons.mp he with
            | inl h =>
                rw [h]
                exact List.not_mem_cons_of_ne_of_not_mem (fun hc' => hc (by simp [hc'])) hfirst
            | inr h => exact ih (hsplit ▸ List.mem_cons_of_mem _ h)

theorem not_mem_of_mem_entries {sep : α} {text e : List α} (he : e ∈ entries sep text) :
    sep ∉ e := by
  rw [entries] at he
  split at he
  next => exact absurd he List.not_mem_nil
  next => exact not_mem_of_mem_splitOn he

end Ashe.Separated
