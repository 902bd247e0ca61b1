import Mathlib.Data.List.Induction

namespace Ashe.Buffers

variable {α : Type}

/-- A write to one place of a buffer. It has no result outside of the buffer. -/
def store (buffer : List α) (i : Nat) (c : α) : Option (List α) :=
  if i < buffer.length then some (buffer.set i c) else none

/-- A buffer that is filled from its start is a written part and what is left
of it: the next write moves one place from the second to the first. -/
theorem store_next (written rest : List α) (c : α) {i : Nat} (hi : i = written.length)
    (hr : 0 < rest.length) :
    store (written ++ rest) i c = some ((written ++ [c]) ++ rest.drop 1) := by
  cases rest with
  | nil => exact absurd hr (by simp)
  | cons x rest =>
      rw [store, if_pos (by simp [hi]), hi]
      simp

theorem store_inside {buffer : List α} {i : Nat} (c : α) (h : i < buffer.length) :
    ∃ buffer', store buffer i c = some buffer' ∧ buffer'.length = buffer.length :=
  ⟨buffer.set i c, if_pos h, List.length_set⟩

/-- All of `xs` is written from place `i` on, or nothing fits. -/
def copy (buffer : List α) (i : Nat) (xs : List α) : Option (List α) :=
  if i + xs.length ≤ buffer.length then
    some (buffer.take i ++ xs ++ buffer.drop (i + xs.length))
  else none

def slice (buffer : List α) (i n : Nat) : Option (List α) :=
  if i + n ≤ buffer.length then some ((buffer.drop i).take n) else none

def memcpy (dst : List α) (j : Nat) (src : List α) (i n : Nat) : Option (List α) := do
  copy dst j (← slice src i n)

theorem slice_middle (before xs after : List α) {i n : Nat} (hi : i = before.length)
    (hn : n = xs.length) : slice (before ++ (xs ++ after)) i n = some xs := by
  have hfit : i + n ≤ (before ++ (xs ++ after)).length := by simp; omega
  rw [slice, if_pos hfit, hi, hn, List.drop_left, List.take_left]

theorem copy_middle (before old after : List α) {i : Nat} {xs : List α} (hi : i = before.length)
    (hx : xs.length = old.length) :
    copy (before ++ (old ++ after)) i xs = some (before ++ (xs ++ after)) := by
  have hfit : i + xs.length ≤ (before ++ (old ++ after)).length := by simp; omega
  have hdrop : (before ++ (old ++ after)).drop (i + xs.length) = after := by
    rw [hi, hx, ← List.drop_drop, List.drop_left, List.drop_left]
  rw [copy, if_pos hfit, hdrop, hi, List.take_left, List.append_assoc]

theorem store_middle (before after : List α) (x c : α) {i : Nat} (hi : i = before.length) :
    store (before ++ x :: after) i c = some (before ++ c :: after) := by
  have h := store_next before (x :: after) c hi (Nat.succ_pos _)
  rwa [List.append_assoc, List.singleton_append, List.drop_succ_cons, List.drop_zero] at h

def Filled (n : Nat) (buffer xs : List α) : Prop := buffer.length = n ∧ xs <+: buffer

theorem Filled.start {n : Nat} {buffer xs : List α} (h : Filled n buffer xs) :
    Filled n buffer [] := ⟨h.1, List.nil_prefix⟩

theorem Filled.full {n : Nat} {buffer xs : List α} (h : Filled n buffer xs)
    (hn : xs.length = n) : buffer = xs := (h.2.eq_of_length (hn.trans h.1.symm)).symm

theorem Filled.copy {n : Nat} {buffer xs : List α} (h : Filled n buffer xs) (ys : List α)
    (hfit : xs.length + ys.length ≤ n) :
    ∃ buffer', copy buffer xs.length ys = some buffer' ∧ Filled n buffer' (xs ++ ys) := by
  obtain ⟨hn, rest, rfl⟩ := h
  rw [List.length_append] at hn
  have hold : ys.length = (rest.take ys.length).length := by rw [List.length_take]; omega
  have hsplit : rest = rest.take ys.length ++ rest.drop ys.length := by
    rw [List.take_append_drop]
  refine ⟨xs ++ (ys ++ rest.drop ys.length), ?_, ?_, ?_⟩
  · rw [hsplit, copy_middle xs _ _ rfl hold, ← hsplit]
  · simp only [List.length_append, List.length_drop]
    omega
  · rw [← List.append_assoc]
    exact List.prefix_append ..

theorem Filled.memcpy {n : Nat} {buffer xs : List α} (h : Filled n buffer xs)
    (before ys behind : List α) {i k : Nat} (hi : i = before.length) (hk : k = ys.length)
    (hfit : xs.length + ys.length ≤ n) :
    ∃ buffer', memcpy buffer xs.length (before ++ (ys ++ behind)) i k = some buffer' ∧
      Filled n buffer' (xs ++ ys) := by
  rw [Buffers.memcpy, slice_middle before ys behind hi hk]
  exact h.copy ys hfit

theorem Filled.store {n : Nat} {buffer xs : List α} (h : Filled n buffer xs) (y : α)
    (hfit : xs.length < n) :
    ∃ buffer', store buffer xs.length y = some buffer' ∧ Filled n buffer' (xs ++ [y]) := by
  obtain ⟨hn, rest, rfl⟩ := h
  rw [List.length_append] at hn
  have hrest : 0 < rest.length := by omega
  refine ⟨_, store_next xs rest y rfl hrest, ?_, List.prefix_append ..⟩
  simp only [List.length_append, List.length_singleton, List.length_drop]
  omega

theorem length_of_copy {buffer buffer' xs : List α} {i : Nat}
    (h : copy buffer i xs = some buffer') : buffer'.length = buffer.length := by
  rw [copy] at h
  split at h
  next hfit =>
    obtain rfl := Option.some.inj h
    simp only [List.length_append, List.length_take, List.length_drop]
    omega
  next => exact absurd h (by simp)

theorem length_of_memcpy {dst dst' src : List α} {i j n : Nat}
    (h : Buffers.memcpy dst j src i n = some dst') : dst'.length = dst.length := by
  obtain ⟨xs, -, hcopy⟩ := Option.bind_eq_some_iff.mp h
  exact length_of_copy hcopy

theorem foldlM_store (before old after : List α) (c : α) :
    (List.range old.length).foldlM (fun buffer i => store buffer (before.length + i) c)
        (before ++ (old ++ after)) =
      some (before ++ (List.replicate old.length c ++ after)) := by
  induction old using List.reverseRecOn generalizing after with
  | nil => rfl
  | append_singleton old x ih =>
      rw [List.length_append, List.length_singleton, List.range_succ, List.foldlM_append,
        List.append_assoc, ih, List.replicate_succ']
      simp [store]

instance decidableForallByte (p : UInt8 → Prop) [DecidablePred p] : Decidable (∀ b, p b) :=
  decidable_of_iff (∀ i : Fin 256, p (UInt8.ofFin i))
    ⟨fun h b => h b.toFin, fun h i => h (UInt8.ofFin i)⟩

end Ashe.Buffers
