import Mathlib.Data.List.Perm.Basic

namespace Ashe.Handles

variable {H : Type}

/-- The handles that a component has been given and has not closed, and how often it used
or closed one that it does not have. -/
structure Table (H : Type) where
  opened : List H
  faults : Nat

def Table.gain (t : Table H) (l : List H) : Table H := { t with opened := l ++ t.opened }

/-- The table holds the handles of the list, and nothing has gone wrong. -/
structure Holds (t : Table H) (l : List H) : Prop where
  opened : t.opened.Perm l
  faults : t.faults = 0

theorem Holds.perm {t : Table H} {l l' : List H} (h : Holds t l) (hl : l.Perm l') : Holds t l' :=
  ⟨h.opened.trans hl, h.faults⟩

theorem Holds.gain {t : Table H} {l : List H} (h : Holds t l) (given : List H) :
    Holds (t.gain given) (given ++ l) :=
  ⟨h.opened.append_left given, h.faults⟩

variable [DecidableEq H]

def Table.close (t : Table H) (h : H) : Table H :=
  if h ∈ t.opened then { t with opened := t.opened.erase h } else { t with faults := t.faults + 1 }

def Table.closeAll (t : Table H) (l : List H) : Table H := l.foldl Table.close t

def Table.touch (t : Table H) (h : H) : Table H :=
  if h ∈ t.opened then t else { t with faults := t.faults + 1 }

theorem Holds.close {t : Table H} {a : H} {l : List H} (h : Holds t (a :: l)) :
    Holds (t.close a) l := by
  have ha : a ∈ t.opened := h.opened.mem_iff.mpr (List.mem_cons_self ..)
  rw [Table.close, if_pos ha]
  refine ⟨?_, h.faults⟩
  have herase := h.opened.erase a
  rwa [List.erase_cons_head] at herase

theorem Holds.closeAll {t : Table H} {given l : List H} (h : Holds t (given ++ l)) :
    Holds (t.closeAll given) l := by
  induction given generalizing t with
  | nil => exact h
  | cons a given ih => exact ih h.close

theorem Holds.touch {t : Table H} {a : H} {l : List H} (h : Holds t l) (ha : a ∈ l) :
    t.touch a = t := by
  rw [Table.touch, if_pos (h.opened.mem_iff.mpr ha)]

end Ashe.Handles
