import Mathlib.Data.List.Lex
import Mathlib.Order.Lattice

namespace Ashe.Lexicographic

variable {α : Type} [LinearOrder α]

abbrev Less : List α → List α → Prop := List.Lex (· < ·)

variable {l m n : List α}

theorem less_cons {a b : α} : Less (a :: l) (b :: m) ↔ a < b ∨ a = b ∧ Less l m := by
  constructor
  · intro h
    cases h with
    | rel h => exact .inl h
    | cons h => exact .inr ⟨rfl, h⟩
  · rintro (h | ⟨rfl, h⟩)
    · exact .rel h
    · exact .cons h

theorem less_irrefl (l : List α) : ¬Less l l := List.lex_irrefl lt_irrefl l

theorem less_asymm (h : Less l m) : ¬Less m l := List.lex_asymm lt_asymm h

theorem less_trans (hlm : Less l m) (hmn : Less m n) : Less l n :=
  @List.lex_trans _ _ _ _ _ lt_trans hlm hmn

theorem less_trichotomy (l m : List α) : Less l m ∨ l = m ∨ Less m l := trichotomous_of Less l m

theorem ne_of_less (h : Less l m) : l ≠ m := fun heq => less_irrefl m (heq ▸ h)

end Ashe.Lexicographic
