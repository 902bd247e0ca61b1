import Mathlib.Data.List.Basic
import Mathlib.Order.Basic

namespace Ashe.PriorityQueue

variable {α β : Type} {less : α → α → Bool}

/-- The greatest element and the elements that a pop leaves, in the order in
which they were pushed. Among elements that are not less than each other the
earliest pushed one counts as the greatest. -/
def extract (less : α → α → Bool) : List α → Option (α × List α)
  | [] => none
  | x :: xs => match extract less xs with
    | none => some (x, [])
    | some (y, ys) => if less x y then some (y, x :: ys) else some (x, xs)

def top? (less : α → α → Bool) (xs : List α) : Option α := (extract less xs).map Prod.fst

theorem extract_eq_none {xs : List α} : extract less xs = none ↔ xs = [] := by
  cases xs with
  | nil => simp [extract]
  | cons x xs =>
      simp only [extract, reduceCtorEq, iff_false]
      cases extract less xs with
      | none => simp
      | some p => dsimp only; split <;> simp

theorem extract_split {xs : List α} {y : α} {ys : List α} (h : extract less xs = some (y, ys)) :
    ∃ before after, xs = before ++ y :: after ∧ ys = before ++ after := by
  induction xs generalizing y ys with
  | nil => simp [extract] at h
  | cons x xs ih =>
      rw [extract] at h
      cases hx : extract less xs with
      | none =>
          simp only [hx, Option.some.injEq, Prod.mk.injEq] at h
          obtain ⟨rfl, rfl⟩ := h
          exact ⟨[], xs, rfl, (extract_eq_none.mp hx).symm⟩
      | some p =>
          obtain ⟨z, zs⟩ := p
          simp only [hx] at h
          split at h
          next hl =>
            simp only [Option.some.injEq, Prod.mk.injEq] at h
            obtain ⟨rfl, rfl⟩ := h
            obtain ⟨before, after, hb, ha⟩ := ih hx
            exact ⟨x :: before, after, by rw [hb]; rfl, by rw [ha]; rfl⟩
          next hl =>
            simp only [Option.some.injEq, Prod.mk.injEq] at h
            obtain ⟨rfl, rfl⟩ := h
            exact ⟨[], xs, rfl, rfl⟩

theorem extract_perm {xs : List α} {y : α} {ys : List α} (h : extract less xs = some (y, ys)) :
    xs.Perm (y :: ys) := by
  obtain ⟨before, after, rfl, rfl⟩ := extract_split h
  exact List.perm_middle

/-- The comparison runs against a key: less elements have larger keys. -/
def Inverts [LE β] (less : α → α → Bool) (key : α → β) (xs : List α) : Prop :=
  ∀ x ∈ xs, ∀ y ∈ xs, (less x y = true → key y ≤ key x) ∧ (less x y = false → key x ≤ key y)

/-- What a pop takes out has a least key. The comparison need not be a strict
weak order on the elements, as long as it inverts the preorder of the keys. -/
theorem extract_key_le [Preorder β] {key : α → β} {xs : List α} {y : α} {ys : List α}
    (hkey : Inverts less key xs) (h : extract less xs = some (y, ys)) :
    ∀ z ∈ ys, key y ≤ key z := by
  induction xs generalizing y ys with
  | nil => simp [extract] at h
  | cons x xs ih =>
      have htail : Inverts less key xs := fun a ha b hb =>
        hkey a (List.mem_cons_of_mem _ ha) b (List.mem_cons_of_mem _ hb)
      rw [extract] at h
      cases hx : extract less xs with
      | none =>
          simp only [hx, Option.some.injEq, Prod.mk.injEq] at h
          obtain ⟨rfl, rfl⟩ := h
          simp
      | some p =>
          obtain ⟨z, zs⟩ := p
          have hperm := extract_perm hx
          have hz : z ∈ xs := hperm.symm.subset (by simp)
          have hle := ih htail hx
          simp only [hx] at h
          split at h
          next hl =>
            simp only [Option.some.injEq, Prod.mk.injEq] at h
            obtain ⟨rfl, rfl⟩ := h
            intro w hw
            rcases List.mem_cons.mp hw with rfl | hw
            · exact (hkey w (by simp) z (by simp [hz])).1 hl
            · exact hle w hw
          next hl =>
            simp only [Option.some.injEq, Prod.mk.injEq] at h
            obtain ⟨rfl, rfl⟩ := h
            have hxz : key x ≤ key z :=
              (hkey x (by simp) z (by simp [hz])).2 (by simpa using hl)
            intro w hw
            rcases List.mem_cons.mp (hperm.subset hw) with rfl | hw
            · exact hxz
            · exact hxz.trans (hle w hw)

end Ashe.PriorityQueue
