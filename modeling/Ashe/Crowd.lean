import Mathlib

namespace Ashe.Crowd

variable {α β : Type}

/-- One member of the list changes. Before and after, the list is this member and the
same others, up to their order. -/
theorem set_perm {l : List α} {i : Nat} {a : α} (h : l[i]? = some a) (b : α) :
    ∃ rest, l.Perm (a :: rest) ∧ (l.set i b).Perm (b :: rest) := by
  obtain ⟨hi, rfl⟩ := List.getElem?_eq_some_iff.mp h
  exact ⟨l.eraseIdx i, (List.getElem_cons_eraseIdx_perm hi).symm, List.set_perm_cons_eraseIdx hi b⟩

theorem mem_set_of_ne {l : List α} {i : Nat} {a b : α} (h : l[i]? = some a) (hb : b ∈ l)
    (hne : b ≠ a) (c : α) : b ∈ l.set i c := by
  obtain ⟨rest, ha, hc⟩ := set_perm h c
  have hrest := (List.mem_cons.mp (ha.mem_iff.mp hb)).resolve_left hne
  exact hc.mem_iff.mpr (List.mem_cons_of_mem c hrest)

theorem flatMap_set {l : List α} {i : Nat} {a : α} (h : l[i]? = some a) (b : α)
    (f : α → List β) :
    ∃ rest, (l.flatMap f).Perm (f a ++ rest) ∧ ((l.set i b).flatMap f).Perm (f b ++ rest) := by
  obtain ⟨rest, ha, hb⟩ := set_perm h b
  exact ⟨rest.flatMap f, by simpa using ha.flatMap_right f, by simpa using hb.flatMap_right f⟩

theorem sum_set {l : List α} {i : Nat} {a : α} (h : l[i]? = some a) (b : α) (w : α → Nat) :
    ((l.set i b).map w).sum + w a = (l.map w).sum + w b := by
  obtain ⟨rest, ha, hb⟩ := set_perm h b
  rw [(ha.map w).sum_nat, (hb.map w).sum_nat]
  simp only [List.map_cons, List.sum_cons]
  omega

theorem countP_set {l : List α} {i : Nat} {a : α} (h : l[i]? = some a) (b : α)
    (p : α → Bool) :
    (l.set i b).countP p + (if p a then 1 else 0) = l.countP p + if p b then 1 else 0 := by
  obtain ⟨rest, ha, hb⟩ := set_perm h b
  rw [ha.countP_eq, hb.countP_eq, List.countP_cons, List.countP_cons]
  omega

end Ashe.Crowd
