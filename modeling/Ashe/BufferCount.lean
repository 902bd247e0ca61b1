import Ashe.BufferInvariant

namespace Ashe.BufferCount

open LinkedCells BufferQueue BufferChunks BufferLoops BufferInvariant Runs

/-- How many elements the first n bytes extend over: those that lie completely
within them, and one more when they end inside of it. -/
def spanned (n : Nat) (sizes : List Nat) : Nat :=
  if (sizes.take (consumed n sizes)).sum < n then consumed n sizes + 1 else consumed n sizes

/-- What removeData is documented to return: the number of elements that the
removed bytes extend over, and so all of them when everything goes. -/
def CountsSpanned (q : Queue) (n : Nat) : Prop :=
  ∃ q' rvalue, removeData q n = some (q', rvalue) ∧
    rvalue = spanned (min n q.totalDataSize) ((elements q).map Element.size) ∧
    (q.totalDataSize ≤ n → rvalue = q.elementNum)

theorem consumed_none {sizes : List Nat} (hpos : ∀ s ∈ sizes, 0 < s) : consumed 0 sizes = 0 := by
  cases sizes with
  | nil => rfl
  | cons s sizes =>
      have hs := hpos s (by simp)
      rw [consumed_cons, if_neg (by omega)]

theorem consumed_all {n : Nat} {sizes : List Nat} (hn : sizes.sum ≤ n) :
    consumed n sizes = sizes.length := by
  induction sizes generalizing n with
  | nil => rfl
  | cons s sizes ih =>
      rw [List.sum_cons] at hn
      rw [consumed_cons, if_pos (by omega), ih (by omega), List.length_cons]

theorem spanned_past {n s : Nat} (sizes : List Nat) (h : s ≤ n) :
    spanned n (s :: sizes) = spanned (n - s) sizes + 1 := by
  rw [spanned, consumed_cons, if_pos h, List.take_succ_cons, List.sum_cons, spanned]
  split <;> split <;> omega

theorem spanned_within {n s : Nat} (sizes : List Nat) (hn : 0 < n) (h : n < s) :
    spanned n (s :: sizes) = 1 := by
  rw [spanned, consumed_cons, if_neg (Nat.not_le_of_lt h), List.take_zero, List.sum_nil,
    if_pos hn]

/-- The elements before the one with the last removed byte, and that one. -/
theorem spanned_eq {n : Nat} {sizes : List Nat} (hpos : ∀ s ∈ sizes, 0 < s) (hn : 0 < n)
    (hs : n ≤ sizes.sum) : spanned n sizes = consumed (n - 1) sizes + 1 := by
  induction sizes generalizing n with
  | nil =>
      rw [List.sum_nil] at hs
      omega
  | cons s sizes ih =>
      have hrest : ∀ s ∈ sizes, 0 < s := fun t ht => hpos t (by simp [ht])
      rw [List.sum_cons] at hs
      rw [consumed_cons]
      by_cases hlt : n < s
      · rw [spanned_within sizes hn hlt, if_neg (by omega)]
      · rw [spanned_past sizes (Nat.le_of_not_lt hlt)]
        by_cases heq : s = n
        · -- the element goes exactly, and the count is not moved on
          rw [if_neg (by omega), heq, Nat.sub_self, spanned, consumed_none hrest]
          rfl
        · rw [if_pos (by omega), ih hrest (by omega) (by omega), Nat.sub_right_comm]

theorem spanned_total {sizes : List Nat} : spanned sizes.sum sizes = sizes.length := by
  rw [spanned, consumed_all (Nat.le_refl _), List.take_length, if_neg (Nat.lt_irrefl _)]

theorem removeLoop_count {xs : List (Addr × List UInt8)} {q : Queue} (h : Represents q xs)
    {rounds need : Nat} (hr : xs.length ≤ rounds) (hn : 0 < need) (rvalue : Nat) :
    ∃ q', removeLoop rounds q need rvalue =
      some (q', rvalue + consumed (need - 1) (xs.map (fun x => x.2.length))) := by
  induction xs generalizing q rounds need rvalue with
  | nil =>
      refine ⟨q, ?_⟩
      cases rounds <;> rw [removeLoop, if_neg (total_empty h)] <;> rfl
  | cons x xs ih =>
      obtain ⟨rounds, rfl⟩ : ∃ k, rounds = k + 1 := Nat.exists_eq_succ_of_ne_zero (by
        rw [List.length_cons] at hr
        omega)
      obtain ⟨e, -, -, he, -⟩ := unlinkFirst_represents h
      obtain ⟨q', hpop, hq'⟩ := popElementFromFront_represents h none 0 (by simp)
      rw [removeLoop_cons h hpop he, List.map_cons, consumed_cons]
      by_cases hlt : need < x.2.length
      · rw [if_pos hlt, if_neg (by omega)]
        exact ⟨_, rfl⟩
      · rw [if_neg hlt]
        by_cases heq : x.2.length = need
        · rw [if_pos heq, if_neg (by omega)]
          exact ⟨_, rfl⟩
        · have hleft : 0 < need - x.2.length := by omega
          obtain ⟨q'', hloop⟩ := ih hq' (by simpa using hr) hleft (rvalue + 1)
          refine ⟨q'', ?_⟩
          rw [if_neg heq, if_pos (by omega), hloop, Nat.sub_right_comm, Nat.add_assoc,
            Nat.add_comm 1]

theorem removeData_count {q : Queue} {xs : List (Addr × List UInt8)} (h : Represents q xs)
    (hq : q.elementNum ≠ 0) {n : Nat} (hn : 0 < n) :
    ∃ q', removeData q n = some (q', 1 + consumed (n - 1) ((elements q).map Element.size)) := by
  obtain ⟨x, ys, rfl⟩ := List.exists_cons_of_ne_nil (ne_nil_of_num h hq)
  obtain ⟨q', hloop⟩ := removeLoop_count h (Nat.le_of_eq h.num.symm) hn 1
  refine ⟨q', ?_⟩
  rw [removeData, if_pos ⟨Nat.pos_of_ne_zero hq, total_pos h, hn⟩, hloop, elements_sizes h]

/-- The count is right up to the last byte of the queue; a request that goes
past it counts one element that is not there. -/
theorem removeData_countsSpanned (q : Queue) (h : Reachable step emptyQueue q)
    (hq : q.elementNum ≠ 0) (n : Nat) (hn : 0 < n) :
    CountsSpanned q n ↔ n ≤ q.totalDataSize := by
  obtain ⟨xs, hr⟩ := reachable_represents h
  have hwell := represents_wellFormed hr
  have hlen : ((elements q).map Element.size).length = q.elementNum := by
    rw [elements_sizes hr, List.length_map, hr.num]
  have hsizes : ∀ s ∈ (elements q).map Element.size, 0 < s := by
    intro s hs
    obtain ⟨e, he, rfl⟩ := List.mem_map.mp hs
    exact hwell.sizes e he
  obtain ⟨q', hcount⟩ := removeData_count hr hq hn
  constructor
  · rintro ⟨q'', rvalue, hrem, -, hall⟩
    apply Nat.le_of_not_lt
    intro hlt
    obtain ⟨-, rfl⟩ := Prod.mk.inj (Option.some.inj (hcount.symm.trans hrem))
    have hbad := hall (Nat.le_of_lt hlt)
    rw [consumed_all (by rw [← hwell.total]; omega), hlen] at hbad
    omega
  · intro hle
    have hsum : n ≤ ((elements q).map Element.size).sum := by rw [← hwell.total]; exact hle
    have hspan := spanned_eq hsizes hn hsum
    refine ⟨q', _, hcount, ?_, ?_⟩
    · rw [Nat.min_eq_left hle, hspan, Nat.add_comm]
    · intro hge
      obtain rfl : n = q.totalDataSize := Nat.le_antisymm hle hge
      rw [Nat.add_comm, ← hspan, hwell.total, spanned_total, hlen]

def threeAndTwo : List Op :=
  [.pushElementToLast (some [1, 2, 3]) 3 (some 7) true,
    .pushElementToLast (some [8, 9]) 2 (some 4) true]

theorem removeData_countsSpanned_inside : ∃ q, exec step emptyQueue threeAndTwo = some q ∧
    CountsSpanned q 4 := by
  obtain ⟨q, hq⟩ : ∃ q, exec step emptyQueue threeAndTwo = some q :=
    Option.isSome_iff_exists.mp (by decide +kernel)
  have hcounters : (exec step emptyQueue threeAndTwo).map
      (fun q => (q.elementNum, q.totalDataSize)) = some (2, 5) := by decide +kernel
  rw [hq] at hcounters
  obtain ⟨hnum, htotal⟩ := Prod.mk.inj (Option.some.inj hcounters)
  refine ⟨q, hq, (removeData_countsSpanned q ⟨threeAndTwo, hq⟩ ?_ 4 (by omega)).mpr ?_⟩
  · rw [hnum]
    omega
  · rw [htotal]
    omega

/-- Two elements, and a request for one byte more than they hold. -/
theorem removeData_counts_third : ¬ ∀ q, Reachable step emptyQueue q → q.elementNum ≠ 0 →
    ∀ n, 0 < n → CountsSpanned q n := by
  intro h
  obtain ⟨q, hq⟩ : ∃ q, exec step emptyQueue threeAndTwo = some q :=
    Option.isSome_iff_exists.mp (by decide +kernel)
  have hcounters : (exec step emptyQueue threeAndTwo).map
      (fun q => (q.elementNum, q.totalDataSize, (removeData q 6).map Prod.snd)) =
      some (2, 5, some 3) := by decide +kernel
  rw [hq] at hcounters
  obtain ⟨hnum, hrest⟩ := Prod.mk.inj (Option.some.inj hcounters)
  obtain ⟨htotal, hthree⟩ := Prod.mk.inj hrest
  obtain ⟨q', rvalue, hrem, -, hall⟩ := h q ⟨threeAndTwo, hq⟩ (by omega) 6 (by omega)
  rw [hrem] at hthree
  have htwo := hall (by omega)
  have hthree' : rvalue = 3 := Option.some.inj hthree
  omega

end Ashe.BufferCount
