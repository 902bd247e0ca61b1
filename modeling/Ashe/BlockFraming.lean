import Ashe.Buffers

namespace Ashe.BlockFraming

open Buffers

variable {α : Type}

def wholeBlocks (B : Nat) (m : List α) : List (List α) :=
  if 0 < B ∧ B ≤ m.length then m.take B :: wholeBlocks B (m.drop B) else []
termination_by m.length
decreasing_by rw [List.length_drop]; omega

def remainder (B : Nat) (m : List α) : List α := m.drop (m.length / B * B)

theorem blocks_induction {P : List α → Prop} {B : Nat} (hB : 0 < B)
    (short : ∀ m, m.length < B → P m)
    (block : ∀ b m, b.length = B → P m → P (b ++ m)) (m : List α) : P m := by
  induction hn : m.length using Nat.strongRecOn generalizing m with
  | ind n ih =>
      by_cases h : m.length < B
      · exact short m h
      · have hb : (m.take B).length = B := by rw [List.length_take]; omega
        have hd : (m.drop B).length < n := by rw [List.length_drop]; omega
        rw [← List.take_append_drop B m]
        exact block _ _ hb (ih _ hd _ rfl)

@[simp]
theorem wholeBlocks_short {B : Nat} {m : List α} (h : m.length < B) : wholeBlocks B m = [] := by
  rw [wholeBlocks, if_neg (by omega)]

theorem wholeBlocks_nil {B : Nat} (hB : 0 < B) : wholeBlocks B ([] : List α) = [] :=
  wholeBlocks_short hB

theorem wholeBlocks_block {B : Nat} (hB : 0 < B) {b : List α} (hb : b.length = B) (m : List α) :
    wholeBlocks B (b ++ m) = b :: wholeBlocks B m := by
  have hle : B ≤ (b ++ m).length := by rw [List.length_append]; omega
  rw [wholeBlocks, if_pos ⟨hB, hle⟩, ← hb, List.take_left, List.drop_left]

@[simp]
theorem remainder_short {B : Nat} {m : List α} (h : m.length < B) : remainder B m = m := by
  rw [remainder, Nat.div_eq_of_lt h, Nat.zero_mul, List.drop_zero]

theorem remainder_block {B : Nat} (hB : 0 < B) {b : List α} (hb : b.length = B) (m : List α) :
    remainder B (b ++ m) = remainder B m := by
  rw [remainder, remainder, List.length_append, hb, Nat.add_div_left _ hB, Nat.succ_mul,
    Nat.add_comm (_ * B) B, ← List.drop_drop, List.drop_append_of_le_length (by omega), ← hb,
    List.drop_length, List.nil_append]

theorem remainder_length (B : Nat) (m : List α) : (remainder B m).length = m.length % B := by
  rw [remainder, List.length_drop, Nat.mul_comm, Nat.mod_eq_sub]

theorem remainder_length_lt {B : Nat} (hB : 0 < B) (m : List α) : (remainder B m).length < B := by
  rw [remainder_length]
  exact Nat.mod_lt _ hB

theorem wholeBlocks_length {B : Nat} (hB : 0 < B) (m : List α) :
    (wholeBlocks B m).length = m.length / B := by
  induction m using blocks_induction hB with
  | short m h => rw [wholeBlocks_short h, Nat.div_eq_of_lt h, List.length_nil]
  | block b m hb ih =>
      rw [wholeBlocks_block hB hb, List.length_cons, ih, List.length_append, hb,
        Nat.add_div_left _ hB]

theorem length_of_mem_wholeBlocks {B : Nat} (hB : 0 < B) {m : List α} :
    ∀ b ∈ wholeBlocks B m, b.length = B := by
  induction m using blocks_induction hB with
  | short m h => simp [wholeBlocks_short h]
  | block b m hb ih =>
      rw [wholeBlocks_block hB hb]
      rintro c (_ | ⟨_, hc⟩)
      · exact hb
      · exact ih c hc

theorem wholeBlocks_append {B : Nat} (hB : 0 < B) (m c : List α) :
    wholeBlocks B (m ++ c) = wholeBlocks B m ++ wholeBlocks B (remainder B m ++ c) := by
  induction m using blocks_induction hB with
  | short m h => rw [wholeBlocks_short h, remainder_short h, List.nil_append]
  | block b m hb ih =>
      rw [List.append_assoc, wholeBlocks_block hB hb, ih, wholeBlocks_block hB hb,
        remainder_block hB hb, List.cons_append]

theorem remainder_append {B : Nat} (hB : 0 < B) (m c : List α) :
    remainder B (m ++ c) = remainder B (remainder B m ++ c) := by
  induction m using blocks_induction hB with
  | short m h => rw [remainder_short h]
  | block b m hb ih => rw [List.append_assoc, remainder_block hB hb, ih, remainder_block hB hb]

/-- A piece too short to fill a block only lengthens what is left. -/
theorem blocks_append_short {B : Nat} (hB : 0 < B) {m c : List α}
    (h : m.length % B + c.length < B) :
    wholeBlocks B (m ++ c) = wholeBlocks B m ∧ remainder B (m ++ c) = remainder B m ++ c := by
  have hlt : (remainder B m ++ c).length < B := by
    rwa [List.length_append, remainder_length]
  rw [wholeBlocks_append hB, remainder_append hB, wholeBlocks_short hlt, remainder_short hlt,
    List.append_nil]
  exact ⟨rfl, rfl⟩

/-- A piece fills up the block that was begun, and goes on with whole blocks. -/
theorem blocks_append_fill {B : Nat} (hB : 0 < B) {m c : List α}
    (h : m.length % B + c.length = B) (rest : List α) :
    wholeBlocks B (m ++ (c ++ rest)) =
        wholeBlocks B m ++ (remainder B m ++ c) :: wholeBlocks B rest ∧
      remainder B (m ++ (c ++ rest)) = remainder B rest := by
  have hb : (remainder B m ++ c).length = B := by
    rwa [List.length_append, remainder_length]
  rw [wholeBlocks_append hB, remainder_append hB, ← List.append_assoc, wholeBlocks_block hB hb,
    remainder_block hB hb]
  exact ⟨rfl, rfl⟩

theorem flatten_append_remainder {B : Nat} (hB : 0 < B) (m : List α) :
    (wholeBlocks B m).flatten ++ remainder B m = m := by
  induction m using blocks_induction hB with
  | short m h => rw [wholeBlocks_short h, remainder_short h, List.flatten_nil, List.nil_append]
  | block b m hb ih =>
      rw [wholeBlocks_block hB hb, remainder_block hB hb, List.flatten_cons, List.append_assoc, ih]

theorem flatten_wholeBlocks_length {B : Nat} (hB : 0 < B) (m : List α) :
    (wholeBlocks B m).flatten.length = m.length - m.length % B := by
  have h := congrArg List.length (flatten_append_remainder hB m)
  rw [List.length_append, remainder_length] at h
  omega

theorem exists_fill {n : Nat} {c : List α} (h : n ≤ c.length) :
    ∃ c1 c2, c = c1 ++ c2 ∧ c1.length = n :=
  ⟨c.take n, c.drop n, (List.take_append_drop ..).symm, by rw [List.length_take]; omega⟩

/-- What is left of a message lies in the buffer, and a piece goes behind it, which is too short
to fill the block. -/
theorem memcpy_short {B n : Nat} (hB : 0 < B) (hn : B ≤ n) {buffer m : List α}
    (h : Filled n buffer (remainder B m)) (c behind : List α) {j k : Nat}
    (hj : j = m.length % B) (hk : k = c.length) (hshort : m.length % B + c.length < B) :
    ∃ buffer', memcpy buffer j (c ++ behind) 0 k = some buffer' ∧
      wholeBlocks B (m ++ c) = wholeBlocks B m ∧ Filled n buffer' (remainder B (m ++ c)) := by
  obtain ⟨hwhole, hrem⟩ := blocks_append_short hB hshort
  obtain ⟨buffer', hcopy, hfilled⟩ := h.memcpy [] c behind (i := 0) rfl hk
    (by rw [remainder_length]; omega)
  rw [List.nil_append, remainder_length, ← hj] at hcopy
  exact ⟨buffer', hcopy, hwhole, by rw [hrem]; exact hfilled⟩

theorem memcpy_fill {B n : Nat} (hB : 0 < B) (hn : B ≤ n) {buffer m : List α}
    (h : Filled n buffer (remainder B m)) (c rest behind : List α) {j k : Nat}
    (hj : j = m.length % B) (hk : k = c.length) (hfill : m.length % B + c.length = B) :
    ∃ buffer', memcpy buffer j (c ++ rest ++ behind) 0 k = some buffer' ∧
      Filled n buffer' (remainder B m ++ c) ∧ (remainder B m ++ c).length = B ∧
      wholeBlocks B (m ++ (c ++ rest)) =
        wholeBlocks B m ++ (remainder B m ++ c) :: wholeBlocks B rest ∧
      remainder B (m ++ (c ++ rest)) = remainder B rest := by
  have hlen : (remainder B m ++ c).length = B := by
    rwa [List.length_append, remainder_length]
  obtain ⟨buffer', hcopy, hfilled⟩ := h.memcpy [] c (rest ++ behind) (i := 0) rfl hk
    (by rw [remainder_length, hfill]; exact hn)
  rw [List.nil_append, remainder_length, ← hj, ← List.append_assoc] at hcopy
  exact ⟨buffer', hcopy, hfilled, hlen, blocks_append_fill hB hfill rest⟩

/-- What is behind the whole blocks of a piece is copied to the start of the
buffer for the next block. -/
theorem memcpy_remainder {B n : Nat} (hB : 0 < B) (hn : B ≤ n) {buffer : List α}
    (h : Filled n buffer []) (before rest behind : List α) {i k : Nat}
    (hi : i = before.length + (rest.length - rest.length % B)) (hk : k = rest.length % B) :
    ∃ buffer', memcpy buffer 0 (before ++ (rest ++ behind)) i k = some buffer' ∧
      Filled n buffer' (remainder B rest) := by
  have hflat := flatten_wholeBlocks_length hB rest
  have hdata : before ++ (wholeBlocks B rest).flatten ++ (remainder B rest ++ behind) =
      before ++ (rest ++ behind) := by
    rw [List.append_assoc, ← List.append_assoc _ _ behind, flatten_append_remainder hB]
  obtain ⟨buffer', hcopy, hfilled⟩ := h.memcpy (before ++ (wholeBlocks B rest).flatten)
    (remainder B rest) behind (i := i) (k := k) (by rw [List.length_append, hflat, hi])
    (by rw [remainder_length, hk])
    (by rw [List.length_nil, Nat.zero_add]
        exact Nat.le_trans (Nat.le_of_lt (remainder_length_lt hB rest)) hn)
  rw [hdata] at hcopy
  exact ⟨buffer', hcopy, hfilled⟩

/-- The number of zeros between a mark of one element and a field of `f`
elements that ends on a block boundary. -/
def zeros (B f n : Nat) : Nat := (B - (n + 1 + f) % B) % B

theorem zeros_least {B f n : Nat} (hB : 0 < B) :
    B ∣ n + 1 + zeros B f n + f ∧ ∀ k, B ∣ n + 1 + k + f → zeros B f n ≤ k := by
  have hlt := Nat.mod_lt (n + 1 + f) hB
  have hdm := Nat.div_add_mod (n + 1 + f) B
  by_cases h0 : (n + 1 + f) % B = 0
  · have hz : zeros B f n = 0 := by rw [zeros, h0, Nat.sub_zero, Nat.mod_self]
    rw [hz]
    exact ⟨Nat.dvd_of_mod_eq_zero h0, fun k _ => Nat.zero_le k⟩
  · have hz : zeros B f n = B - (n + 1 + f) % B := by rw [zeros, Nat.mod_eq_of_lt (by omega)]
    rw [hz]
    constructor
    · refine ⟨(n + 1 + f) / B + 1, ?_⟩
      rw [Nat.mul_add, Nat.mul_one]
      omega
    · intro k hk
      by_contra hlt'
      have hmod : (n + 1 + k + f) % B = (n + 1 + f) % B + k := by
        rw [show n + 1 + k + f = (n + 1 + f) + k by omega, Nat.add_mod,
          Nat.mod_eq_of_lt (show k < B by omega), Nat.mod_eq_of_lt (by omega)]
      have := Nat.mod_eq_zero_of_dvd hk
      omega

/-- The message, a mark, the fewest zeros and a last field, in whole blocks. -/
def framed (B : Nat) (mark zero : α) (field m : List α) : List α :=
  m ++ mark :: (List.replicate (zeros B field.length m.length) zero ++ field)

theorem framed_length_dvd {B : Nat} (hB : 0 < B) (mark zero : α) (field m : List α) :
    B ∣ (framed B mark zero field m).length := by
  have h := (zeros_least hB (f := field.length) (n := m.length)).1
  have hl : (framed B mark zero field m).length =
      m.length + 1 + zeros B field.length m.length + field.length := by
    simp only [framed, List.length_append, List.length_cons, List.length_replicate]
    omega
  rwa [hl]

variable {B : Nat} {mark zero : α} {field m : List α}

theorem zeros_unique {f n k : Nat} (hB : 0 < B) (hk : k < B) (hd : B ∣ n + 1 + k + f) :
    zeros B f n = k := by
  obtain ⟨hz, hleast⟩ := zeros_least hB (f := f) (n := n)
  have hle := hleast k hd
  have hdiff : B ∣ k - zeros B f n := by
    have h := Nat.dvd_sub hd hz
    rwa [show n + 1 + k + f - (n + 1 + zeros B f n + f) = k - zeros B f n by omega] at h
  have := Nat.eq_zero_of_dvd_of_lt hdiff (by omega)
  omega

theorem wholeBlocks_single (hB : 0 < B) {b : List α} (hb : b.length = B) :
    wholeBlocks B b = [b] := by
  have h := wholeBlocks_block hB hb []
  rwa [List.append_nil, wholeBlocks_nil hB] at h

theorem wholeBlocks_framed (hB : 0 < B) {k : Nat} (hk : k < B)
    (hd : B ∣ m.length + 1 + k + field.length) :
    wholeBlocks B (framed B mark zero field m) = wholeBlocks B m ++
      wholeBlocks B (remainder B m ++ mark :: (List.replicate k zero ++ field)) := by
  rw [framed, zeros_unique hB hk hd, wholeBlocks_append hB]

theorem wholeBlocks_framed_short {k : Nat} (hk : m.length % B + 1 + k + field.length = B) :
    wholeBlocks B (framed B mark zero field m) = wholeBlocks B m ++
      [remainder B m ++ mark :: (List.replicate k zero ++ field)] := by
  have hB : 0 < B := by omega
  have hd : B ∣ m.length + 1 + k + field.length := by
    refine ⟨m.length / B + 1, ?_⟩
    rw [Nat.mul_add, Nat.mul_one]
    have := Nat.div_add_mod m.length B
    omega
  have hlast : (remainder B m ++ mark :: (List.replicate k zero ++ field)).length = B := by
    rw [List.length_append, remainder_length, List.length_cons, List.length_append,
      List.length_replicate]
    omega
  rw [wholeBlocks_framed hB (by omega) hd, wholeBlocks_single hB hlast]

/-- The mark and zeros end one block, and the field stands in the next one. -/
theorem wholeBlocks_framed_long {k l : Nat} (hk : m.length % B + 1 + k = B)
    (hl : l + field.length = B) (hlt : k + l < B) :
    wholeBlocks B (framed B mark zero field m) = wholeBlocks B m ++
      [remainder B m ++ mark :: List.replicate k zero, List.replicate l zero ++ field] := by
  have hB : 0 < B := by omega
  have hd : B ∣ m.length + 1 + (k + l) + field.length := by
    refine ⟨m.length / B + 2, ?_⟩
    rw [Nat.mul_add]
    have := Nat.div_add_mod m.length B
    omega
  have hfirst : (remainder B m ++ mark :: List.replicate k zero).length = B := by
    rw [List.length_append, remainder_length, List.length_cons, List.length_replicate]
    omega
  have hsecond : (List.replicate l zero ++ field).length = B := by
    rw [List.length_append, List.length_replicate, hl]
  have hsplit : remainder B m ++ mark :: (List.replicate (k + l) zero ++ field) =
      (remainder B m ++ mark :: List.replicate k zero) ++ (List.replicate l zero ++ field) := by
    rw [← List.replicate_append_replicate]
    simp only [List.append_assoc, List.cons_append]
  rw [wholeBlocks_framed hB hlt hd, hsplit, wholeBlocks_block hB hfirst,
    wholeBlocks_single hB hsecond]

theorem zeros_mod (B f n : Nat) : zeros B f (n % B) = zeros B f n := by
  rw [zeros, zeros, Nat.add_assoc, Nat.mod_add_mod, ← Nat.add_assoc]

/-- A framed message is its whole blocks and the framed rest, with zeros for the
full length. -/
theorem wholeBlocks_framed_rest (hB : 0 < B) :
    wholeBlocks B (framed B mark zero field m) =
      wholeBlocks B m ++ wholeBlocks B (framed B mark zero field (remainder B m)) := by
  rw [framed, wholeBlocks_append hB, framed, remainder_length, zeros_mod]

theorem flatten_framed (hB : 0 < B) :
    (wholeBlocks B (framed B mark zero field m)).flatten = framed B mark zero field m := by
  have hmod := Nat.mod_eq_zero_of_dvd (framed_length_dvd hB mark zero field m)
  have hr : remainder B (framed B mark zero field m) = [] :=
    List.eq_nil_of_length_eq_zero ((remainder_length ..).trans hmod)
  have h := flatten_append_remainder hB (framed B mark zero field m)
  rwa [hr, List.append_nil] at h

theorem framed_field_eq (hB : 0 < B) {blocks : List (List α)} {t field' : List α}
    (hlen : field.length = field'.length)
    (h : blocks ++ wholeBlocks B (framed B mark zero field t) =
      wholeBlocks B (framed B mark zero field' m)) : field = field' := by
  have hflat := congrArg List.flatten h
  rw [List.flatten_append, flatten_framed hB, flatten_framed hB] at hflat
  simp only [framed, ← List.cons_append, ← List.append_assoc] at hflat
  exact (List.append_inj' hflat hlen).2

end Ashe.BlockFraming
