import Mathlib.Data.List.Basic

namespace Ashe.CbcChaining

variable {α β : Type}

section Chaining

variable [XorOp α]

/-- Each block is masked with the block written before it, then enciphered. -/
def encrypt (E : α → α) : α → List α → List α
  | _, [] => []
  | iv, b :: bs => E (b ^^^ iv) :: encrypt E (E (b ^^^ iv)) bs

def decrypt (D : α → α) : α → List α → List α
  | _, [] => []
  | iv, c :: cs => (D c ^^^ iv) :: decrypt D c cs

@[simp]
theorem encrypt_length (E : α → α) (iv : α) (bs : List α) :
    (encrypt E iv bs).length = bs.length := by
  induction bs generalizing iv with
  | nil => rfl
  | cons b bs ih => simp [encrypt, ih]

@[simp]
theorem decrypt_length (D : α → α) (iv : α) (cs : List α) :
    (decrypt D iv cs).length = cs.length := by
  induction cs generalizing iv with
  | nil => rfl
  | cons c cs ih => simp [decrypt, ih]

theorem decrypt_append (D : α → α) (iv : α) (cs ds : List α) :
    ∃ iv', decrypt D iv (cs ++ ds) = decrypt D iv cs ++ decrypt D iv' ds := by
  induction cs generalizing iv with
  | nil => exact ⟨iv, rfl⟩
  | cons c cs ih =>
      obtain ⟨iv', h⟩ := ih c
      exact ⟨iv', by rw [List.cons_append, decrypt, decrypt, h, List.cons_append]⟩

theorem decrypt_encrypt {E D : α → α} (hx : ∀ a b : α, a ^^^ b ^^^ b = a)
    (hD : ∀ a, D (E a) = a) (iv : α) (bs : List α) : decrypt D iv (encrypt E iv bs) = bs := by
  induction bs generalizing iv with
  | nil => rfl
  | cons b bs ih => rw [encrypt, decrypt, ih, hD, hx]

end Chaining

/-- Rounds seen through `h` are undone one by one, the last of them first. -/
theorem foldl_reverse_undoes {f g : α → β → α} {h : α → α}
    (hg : ∀ x r, g (h (f x r)) r = h x) (rounds : List β) (x : α) :
    rounds.reverse.foldl g (h (rounds.foldl f x)) = h x := by
  induction rounds generalizing x with
  | nil => rfl
  | cons r rounds ih => rw [List.foldl_cons, List.reverse_cons, List.foldl_append, ih,
      List.foldl_cons, List.foldl_nil, hg]

end Ashe.CbcChaining
