import Mathlib.Algebra.Order.Ring.Nat
import Ashe.BufferChunks

namespace Ashe.BufferLoops

open LinkedCells BufferQueue BufferChunks

def dropBytes (n : Nat) : List (Addr × List UInt8) → List (Addr × List UInt8)
  | [] => []
  | x :: xs => if n < x.2.length then (x.1, x.2.drop n) :: xs else dropBytes (n - x.2.length) xs

def consumed (n : Nat) (sizes : List Nat) : Nat :=
  (List.range sizes.length).countP (fun k => (sizes.take (k + 1)).sum ≤ n)

theorem bytes_dropBytes (n : Nat) (xs : List (Addr × List UInt8)) :
    bytes (dropBytes n xs) = (bytes xs).drop n := by
  induction xs generalizing n with
  | nil => simp [dropBytes, bytes]
  | cons x xs ih =>
      rw [dropBytes, bytes_cons, List.drop_append]
      split
      next hn => rw [bytes_cons, Nat.sub_eq_zero_of_le (Nat.le_of_lt hn), List.drop_zero]
      next hn => rw [ih, List.drop_eq_nil_of_le (Nat.le_of_not_lt hn), List.nil_append]

theorem consumed_cons (n s : Nat) (sizes : List Nat) :
    consumed n (s :: sizes) = if s ≤ n then consumed (n - s) sizes + 1 else 0 := by
  rw [consumed, List.length_cons, List.range_succ_eq_map, List.countP_cons, List.countP_map]
  by_cases hs : s ≤ n
  · rw [if_pos hs, consumed]
    congr 1
    · apply List.countP_congr
      intro k _
      rw [Function.comp_apply, Nat.succ_eq_add_one, List.take_succ_cons, List.sum_cons,
        decide_eq_true_iff, decide_eq_true_iff]
      omega
    · simp [hs]
  · rw [if_neg hs]
    have hz : ∀ k, ¬ ((s :: sizes).take (k + 1)).sum ≤ n := by
      intro k
      rw [List.take_succ_cons, List.sum_cons]
      omega
    have hnone : ∀ k ∈ List.range sizes.length,
        ¬ ((fun k => decide (((s :: sizes).take (k + 1)).sum ≤ n)) ∘ Nat.succ) k = true :=
      fun k _ => by simpa only [Function.comp_apply, decide_eq_true_eq] using hz (k + 1)
    rw [List.countP_eq_zero.mpr hnone]
    simp [hs]

theorem dropBytes_zero {q : Queue} {xs : List (Addr × List UInt8)} (h : Represents q xs) :
    dropBytes 0 xs = xs := by
  cases xs with
  | nil => rfl
  | cons x xs =>
      rw [dropBytes, if_pos h.chunk_pos, List.drop_zero]

theorem consumed_zero {q : Queue} {xs : List (Addr × List UInt8)} (h : Represents q xs) :
    consumed 0 (xs.map (fun x => x.2.length)) = 0 := by
  cases xs with
  | nil => rfl
  | cons x xs =>
      rw [List.map_cons, consumed_cons, if_neg (Nat.not_le_of_lt h.chunk_pos)]

theorem pop_first {q : Queue} {a : Addr} {e : Element} (hn : 0 < q.elementNum)
    (hf : q.firstElement = some a) (he : q.heap a = some e) :
    popElementFromFront q none 0 = (unlinkFirst q a e).map (fun q => ⟨q, none, 0⟩) := by
  simp only [popElementFromFront, hn, if_true, hf, he, copyOut, Option.bind_eq_bind,
    Option.bind_some]
  cases unlinkFirst q a e <;> rfl

/-- Taking the size out of the counter and out of the element before the pop
comes to the same as leaving that to the pop. -/
theorem unlinkFirst_zeroed {q : Queue} {x : Addr × List UInt8} {xs : List (Addr × List UInt8)}
    (h : Represents q (x :: xs)) {e : Element} (he : q.heap x.1 = some e) :
    unlinkFirst { q with
      heap := Function.update q.heap x.1 (some { e with size := 0 })
      totalDataSize := q.totalDataSize - e.size } x.1 { e with size := 0 } =
      unlinkFirst q x.1 e := by
  obtain ⟨-, -, hn'⟩ := h.first_element he
  obtain ⟨-, hr⟩ := h.linked.chained
  cases xs with
  | nil =>
      simp only [unlinkFirst, hn', head, free, Function.update_self, he, Option.map_some,
        Function.update_idem, Nat.sub_zero]
  | cons y ys =>
      obtain ⟨⟨d, hd, -⟩, -⟩ := hr
      have hne : y.1 ≠ x.1 := by
        intro heq
        exact (List.nodup_cons.mp h.linked.nodup).1 (by simp [← heq])
      simp only [unlinkFirst, hn', head_cons, LinkedCells.modify, free, Function.update_of_ne hne,
        Function.update_of_ne hne.symm, Function.update_self, hd, he, Option.map_some,
        Option.bind_some, Option.bind_eq_bind, Nat.sub_zero]
      rw [Function.update_comm hne.symm, Function.update_idem]

theorem crossStep_whole {q : Queue} {x : Addr × List UInt8} {xs : List (Addr × List UInt8)}
    (h : Represents q (x :: xs)) {e : Element} (he : q.heap x.1 = some e) {need : Nat}
    (hn : x.2.length ≤ need) :
    ∃ q', popElementFromFront q none 0 = some ⟨q', none, 0⟩ ∧ Represents q' xs ∧
      ∀ output pBuffer num read, crossStep ⟨q, output, pBuffer, num, read, need⟩ =
        (memcpy output pBuffer (source e) x.2.length).map (fun output =>
          ⟨q', output, if x.2.length = need then pBuffer else pBuffer + x.2.length, num + 1,
            read + x.2.length, need - x.2.length⟩) := by
  obtain ⟨e', q', hf, he', hv, -, hq, hrep⟩ := unlinkFirst_represents h
  obtain rfl : e = e' := Option.some.inj (he.symm.trans he')
  have hnum : 0 < q.elementNum := h.num_pos (by simp)
  have hsize : e.size = x.2.length := hv.2.1
  have hpop : popElementFromFront { q with
      heap := Function.update q.heap x.1 (some { e with size := 0 })
      totalDataSize := q.totalDataSize - e.size } none 0 = some ⟨q', none, 0⟩ := by
    have hfirst := pop_first (q := { q with
      heap := Function.update q.heap x.1 (some { e with size := 0 })
      totalDataSize := q.totalDataSize - e.size }) hnum hf (Function.update_self ..)
    rw [hfirst, unlinkFirst_zeroed h he, hq]
    rfl
  simp only [hf, hsize] at hpop
  refine ⟨q', by rw [pop_first hnum hf he, hq]; rfl, hrep, ?_⟩
  intro output pBuffer num read
  by_cases heq : x.2.length = need
  · subst heq
    simp only [crossStep, hf, he, Option.bind_eq_bind, Option.bind_some, hsize, ge_iff_le,
      Nat.le_refl, if_true, Nat.sub_self, hpop]
    cases memcpy output pBuffer (source e) x.2.length <;> rfl
  · have hlt : ¬ x.2.length ≥ need := by omega
    simp only [crossStep, hf, he, Option.bind_eq_bind, Option.bind_some, hsize, hlt, if_false, hpop,
      heq]
    cases memcpy output pBuffer (source e) x.2.length <;> rfl

/-- The last round of popDataCrossElement, when the first element outlives it. -/
theorem crossStep_part {q : Queue} {x : Addr × List UInt8} {xs : List (Addr × List UInt8)}
    (h : Represents q (x :: xs)) {e : Element} (he : q.heap x.1 = some e) {need : Nat}
    (hn : need < x.2.length) (output : List UInt8) (pBuffer num read : Nat) :
    crossStep ⟨q, output, pBuffer, num, read, need⟩ =
      (memcpy output pBuffer (source e) need).map (fun output => ⟨{ q with
        heap := Function.update q.heap x.1
          (some { e with size := e.size - need, dataRead := e.dataRead + need })
        totalDataSize := q.totalDataSize - need }, output, pBuffer, num, read + need, 0⟩) := by
  obtain ⟨hf, hv, -⟩ := h.first_element he
  have hsize : e.size = x.2.length := hv.2.1
  have hge : e.size ≥ need := by omega
  have hne : ¬ e.size - need = 0 := by omega
  simp only [crossStep, hf, he, Option.bind_eq_bind, Option.bind_some, hge, if_true, hne, if_false,
    Function.update_idem]
  cases memcpy output pBuffer (source e) need <;> rfl

theorem total_pos {q : Queue} {x : Addr × List UInt8} {xs : List (Addr × List UInt8)}
    (h : Represents q (x :: xs)) : 0 < q.totalDataSize := by
  have hpos := h.chunk_pos
  rw [h.total, bytes_cons, List.length_append]
  omega

theorem total_empty {q : Queue} (h : Represents q []) : ¬ 0 < q.totalDataSize := by
  rw [h.total]
  simp [bytes]

/-- One round of removeData, in the three ways its first element can end. -/
theorem removeLoop_cons {q q' : Queue} {x : Addr × List UInt8} {xs : List (Addr × List UInt8)}
    (h : Represents q (x :: xs)) (hpop : popElementFromFront q none 0 = some ⟨q', none, 0⟩)
    {e : Element} (he : q.heap x.1 = some e) (rounds need rvalue : Nat) :
    removeLoop (rounds + 1) q need rvalue =
      if need < x.2.length then some ({ q with
        heap := Function.update q.heap x.1
          (some { e with size := e.size - need, dataRead := e.dataRead + need })
        totalDataSize := q.totalDataSize - need }, rvalue)
      else if x.2.length = need then some (q', rvalue)
      else removeLoop rounds q' (need - x.2.length) (rvalue + 1) := by
  obtain ⟨hf, hv, -⟩ := h.first_element he
  have hsize : e.size = x.2.length := hv.2.1
  rw [removeLoop, if_pos (total_pos h)]
  simp only [hf, he, Option.bind_eq_bind, Option.bind_some, hpop, hsize]
  by_cases hlt : need < x.2.length
  · rw [if_pos (Nat.le_of_lt hlt), if_neg (by omega), if_pos hlt]
  · by_cases heq : x.2.length = need
    · rw [if_pos (Nat.le_of_eq heq.symm), if_pos heq, if_neg hlt, if_pos heq]
    · rw [if_neg (by omega), if_neg hlt, if_neg heq]

/-- Whatever the output buffer, the loop leaves a list of chunks behind. -/
theorem crossLoop_keeps {xs : List (Addr × List UInt8)} (hx : xs ≠ []) {q : Queue}
    (h : Represents q xs) {rounds pBuffer num read need : Nat} {output : List UInt8} {c : Cross}
    (hc : crossLoop rounds ⟨q, output, pBuffer, num, read, need⟩ = some c) :
    ∃ xs', Represents c.queue xs' := by
  induction xs generalizing q rounds pBuffer num read need output with
  | nil => exact absurd rfl hx
  | cons x xs ih =>
      cases rounds with
      | zero => exact absurd hc (by simp [crossLoop])
      | succ rounds =>
          obtain ⟨e, -, -, he, -⟩ := unlinkFirst_represents h
          obtain ⟨c', hstep, hc⟩ := Option.bind_eq_some_iff.mp hc
          by_cases hn : need < x.2.length
          · rw [crossStep_part h he hn] at hstep
            obtain ⟨output', -, rfl⟩ := Option.map_eq_some_iff.mp hstep
            obtain rfl := Option.some.inj hc
            exact ⟨_, shorten_represents h he hn⟩
          · obtain ⟨q', -, hq', hwhole⟩ := crossStep_whole h he (Nat.le_of_not_lt hn)
            rw [hwhole] at hstep
            obtain ⟨output', -, rfl⟩ := Option.map_eq_some_iff.mp hstep
            generalize (if x.2.length = need then pBuffer else pBuffer + x.2.length) = p at hc
            split at hc
            next =>
              obtain rfl := Option.some.inj hc
              exact ⟨xs, hq'⟩
            next hgo =>
              refine ih ?_ hq' hc
              rintro rfl
              exact hgo (.inr hq'.num)

theorem removeLoop_keeps {xs : List (Addr × List UInt8)} {q : Queue} (h : Represents q xs)
    {rounds need rvalue : Nat} {r : Queue × Nat} (hr : removeLoop rounds q need rvalue = some r) :
    ∃ xs', Represents r.1 xs' := by
  induction xs generalizing q rounds need rvalue with
  | nil =>
      have hstop : r = (q, rvalue) := by
        cases rounds <;> rw [removeLoop, if_neg (total_empty h)] at hr <;>
          exact (Option.some.inj hr).symm
      rw [hstop]
      exact ⟨[], h⟩
  | cons x xs ih =>
      cases rounds with
      | zero =>
          rw [removeLoop, if_pos (total_pos h)] at hr
          exact absurd hr (by simp)
      | succ rounds =>
          obtain ⟨e, -, -, he, -⟩ := unlinkFirst_represents h
          obtain ⟨q', hpop, hq'⟩ := popElementFromFront_represents h none 0 (by simp)
          rw [removeLoop_cons h hpop he] at hr
          split at hr
          next hn =>
            obtain rfl := Option.some.inj hr
            exact ⟨_, shorten_represents h he hn⟩
          next =>
            split at hr
            next =>
              obtain rfl := Option.some.inj hr
              exact ⟨xs, hq'⟩
            next => exact ih hq' hr

/-- One round of popDataCrossElement, in the three ways its first element can end. -/
theorem crossLoop_cons {q q' : Queue} {x : Addr × List UInt8} {xs : List (Addr × List UInt8)}
    (h : Represents q (x :: xs)) (hpop : popElementFromFront q none 0 = some ⟨q', none, 0⟩)
    {e : Element} (he : q.heap x.1 = some e) (rounds need : Nat) (before rest : List UInt8)
    (hr : min need x.2.length ≤ rest.length) (num read : Nat) :
    crossLoop (rounds + 1) ⟨q, before ++ rest, before.length, num, read, need⟩ =
      if need < x.2.length then some ⟨{ q with
        heap := Function.update q.heap x.1
          (some { e with size := e.size - need, dataRead := e.dataRead + need })
        totalDataSize := q.totalDataSize - need }, before ++ x.2.take need ++ rest.drop need,
        before.length, num, read + need, 0⟩
      else if x.2.length = need then some ⟨q', before ++ x.2 ++ rest.drop x.2.length,
        before.length, num + 1, read + x.2.length, 0⟩
      else if q'.elementNum = 0 then some ⟨q', before ++ x.2 ++ rest.drop x.2.length,
        (before ++ x.2).length, num + 1, read + x.2.length, need - x.2.length⟩
      else crossLoop rounds ⟨q', before ++ x.2 ++ rest.drop x.2.length,
        (before ++ x.2).length, num + 1, read + x.2.length, need - x.2.length⟩ := by
  obtain ⟨-, hv, -⟩ := h.first_element he
  by_cases hlt : need < x.2.length
  · have hcopy := memcpy_chunk hv before rest (Nat.le_of_lt hlt) (by omega)
    rw [crossLoop, crossStep_part h he hlt, hcopy, if_pos hlt]
    rfl
  · have hle : x.2.length ≤ need := Nat.le_of_not_lt hlt
    obtain ⟨q'', hpop', -, hstep⟩ := crossStep_whole h he hle
    obtain rfl : q' = q'' := congrArg Popped.queue (Option.some.inj (hpop.symm.trans hpop'))
    have hcopy := memcpy_chunk hv before rest (Nat.le_refl x.2.length) (by omega)
    rw [List.take_length] at hcopy
    rw [crossLoop, hstep, hcopy, if_neg hlt]
    by_cases heq : x.2.length = need
    · simp [heq]
    · have hleft : ¬ need - x.2.length = 0 := by omega
      simp only [Option.map_some, Option.bind_eq_bind, Option.bind_some, heq, if_false, hleft,
        false_or, List.length_append]

/-- The two loops walk over the elements in step, and end in one queue. -/
theorem loops_represent {xs : List (Addr × List UInt8)} (hx : xs ≠ []) {q : Queue}
    (h : Represents q xs) {need : Nat} (hneed : 0 < need) {rounds : Nat}
    (hrounds : xs.length ≤ rounds) (before : List UInt8) {rest : List UInt8}
    (hr : min need (bytes xs).length ≤ rest.length) (num read rvalue : Nat) :
    ∃ q' pBuffer left rvalue',
      crossLoop rounds ⟨q, before ++ rest, before.length, num, read, need⟩ =
        some ⟨q', before ++ (bytes xs).take need ++ rest.drop (min need (bytes xs).length), pBuffer,
          num + consumed need (xs.map (fun x => x.2.length)),
          read + min need (bytes xs).length, left⟩ ∧
      removeLoop rounds q need rvalue = some (q', rvalue') ∧ Represents q' (dropBytes need xs) := by
  induction xs generalizing q need rounds before rest num read rvalue with
  | nil => exact absurd rfl hx
  | cons x xs ih =>
      obtain ⟨rounds, rfl⟩ : ∃ n, rounds = n + 1 := Nat.exists_eq_succ_of_ne_zero (by
        rw [List.length_cons] at hrounds
        omega)
      obtain ⟨e, -, -, he, -⟩ := unlinkFirst_represents h
      obtain ⟨q', hpop, hq'⟩ := popElementFromFront_represents h none 0 (by simp)
      rw [bytes_cons, List.length_append] at hr
      have hcross := crossLoop_cons h hpop he rounds need before rest (by omega) num read
      have hremove := removeLoop_cons h hpop he rounds need rvalue
      rw [bytes_cons, List.length_append, List.map_cons, consumed_cons, dropBytes]
      by_cases hlt : need < x.2.length
      · -- the first chunk covers everything that is asked for
        rw [if_pos hlt] at hcross hremove ⊢
        rw [List.take_append_of_le_length (Nat.le_of_lt hlt), Nat.min_eq_left (by omega),
          if_neg (by omega)]
        exact ⟨_, before.length, 0, rvalue, hcross, hremove, shorten_represents h he hlt⟩
      · have hle : x.2.length ≤ need := Nat.le_of_not_lt hlt
        have hmin : min need (x.2.length + (bytes xs).length) =
            x.2.length + min (need - x.2.length) (bytes xs).length := by omega
        rw [if_neg hlt] at hcross hremove ⊢
        rw [List.take_append, List.take_of_length_le hle, if_pos hle, hmin, ← List.drop_drop,
          ← List.append_assoc]
        by_cases heq : x.2.length = need
        · -- the first chunk ends exactly where the request does
          rw [if_pos heq] at hcross hremove
          refine ⟨q', before.length, 0, rvalue, hcross.trans ?_, hremove, ?_⟩
          · simp [heq, consumed_zero hq']
          · rw [heq, Nat.sub_self, dropBytes_zero hq']
            exact hq'
        · rw [if_neg heq] at hcross hremove
          cases xs with
          | nil =>
              have hstop : removeLoop rounds q' (need - x.2.length) (rvalue + 1) =
                  some (q', rvalue + 1) := by
                cases rounds <;> rw [removeLoop, if_neg (total_empty hq')]
              have hnum : q'.elementNum = 0 := hq'.num
              rw [if_pos hnum] at hcross
              refine ⟨q', (before ++ x.2).length, need - x.2.length, rvalue + 1, hcross.trans ?_,
                hremove.trans hstop, hq'⟩
              simp [bytes, consumed]
          | cons y ys =>
              have hroom : min (need - x.2.length) (bytes (y :: ys)).length ≤
                  (rest.drop x.2.length).length := by
                rw [List.length_drop]
                omega
              obtain ⟨q'', pBuffer, left, rvalue', hcross', hrem, hrep⟩ := ih (by simp) hq'
                (by omega) (by simpa using hrounds) (before ++ x.2) hroom (num + 1)
                (read + x.2.length) (rvalue + 1)
              rw [if_neg (Nat.ne_of_gt (hq'.num_pos (by simp)))] at hcross
              refine ⟨q'', pBuffer, left, rvalue', (hcross.trans hcross').trans ?_,
                hremove.trans hrem, hrep⟩
              simp only [List.append_assoc, Nat.add_assoc, Nat.add_comm 1]

end Ashe.BufferLoops
