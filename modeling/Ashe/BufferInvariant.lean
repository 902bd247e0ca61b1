import Ashe.BufferLoops
import Ashe.Runs

namespace Ashe.BufferInvariant

open LinkedCells BufferQueue BufferChunks BufferLoops Runs

def elements (q : Queue) : List Element := cells Element.next q.heap q.elementNum q.firstElement

/-- Following next from the first node visits elementNum nodes, the last one
at the end, and following prev from the last node visits them backwards. -/
structure WellFormed (q : Queue) (nodes : List Addr) : Prop where
  next : Path Element.next q.heap q.firstElement nodes
  prev : Path Element.prev q.heap q.lastElement nodes.reverse
  last : nodes.getLast? = q.lastElement
  num : nodes.length = q.elementNum
  nodup : nodes.Nodup
  firstNull : q.firstElement = none ↔ q.elementNum = 0
  lastNull : q.lastElement = none ↔ q.elementNum = 0
  sizes : ∀ e ∈ elements q, 0 < e.size
  total : q.totalDataSize = ((elements q).map Element.size).sum

theorem pushElementToFront_some {q : Queue} {src : List UInt8} {n : Nat} {a : Addr}
    {r : Queue × Bool} (hn : n ≠ 0)
    (hr : pushElementToFront q (some src) n (some a) true = some r) :
    n ≤ src.length ∧ q.heap a = none := by
  simp only [pushElementToFront, hn, if_false] at hr
  obtain ⟨data, hdata, hr⟩ := Option.bind_eq_some_iff.mp hr
  refine ⟨memcpy_some hdata, ?_⟩
  split at hr
  next => exact alloc_bind_some hr
  next =>
    obtain ⟨heap, hheap, -⟩ := Option.bind_eq_some_iff.mp hr
    exact alloc_bind_some hheap

theorem pushElementToLast_some {q : Queue} {src : List UInt8} {n : Nat} {a : Addr}
    {r : Queue × Bool} (hn : n ≠ 0)
    (hr : pushElementToLast q (some src) n (some a) true = some r) :
    n ≤ src.length ∧ q.heap a = none := by
  simp only [pushElementToLast, hn, if_false] at hr
  obtain ⟨data, hdata, hr⟩ := Option.bind_eq_some_iff.mp hr
  refine ⟨memcpy_some hdata, ?_⟩
  split at hr
  next => exact alloc_bind_some hr
  next =>
    obtain ⟨heap, hheap, -⟩ := Option.bind_eq_some_iff.mp hr
    exact alloc_bind_some hheap

structure Pushes (f : Option (List UInt8) → Nat → Option Addr → Bool → Option (Queue × Bool))
    (q : Queue) : Prop where
  refuses : ∀ pData n elem data, pData = none ∨ n = 0 ∨ elem = none ∨ data = false →
    f pData n elem data = some (q, false)
  accepts : ∀ src n a, 0 < n → n ≤ src.length → q.heap a = none →
    ∃ q' xs', f (some src) n (some a) true = some (q', true) ∧ Represents q' xs'
  needs : ∀ src n a r, n ≠ 0 → f (some src) n (some a) true = some r →
    n ≤ src.length ∧ q.heap a = none

theorem push_refuses (q : Queue) (pData : Option (List UInt8)) (n : Nat) (elem : Option Addr)
    (data : Bool) (h : pData = none ∨ n = 0 ∨ elem = none ∨ data = false) :
    pushElementToFront q pData n elem data = some (q, false) ∧
      pushElementToLast q pData n elem data = some (q, false) := by
  cases pData with
  | none => exact ⟨rfl, rfl⟩
  | some src =>
      cases elem with
      | none => exact ⟨rfl, rfl⟩
      | some a =>
          cases data with
          | false => exact ⟨rfl, rfl⟩
          | true =>
              have hn : n = 0 := by simpa using h
              simp [pushElementToFront, pushElementToLast, hn]

theorem pushElementToFront_pushes {q : Queue} {xs : List (Addr × List UInt8)}
    (h : Represents q xs) : Pushes (pushElementToFront q) q := by
  refine ⟨fun _ _ _ _ hr => (push_refuses q _ _ _ _ hr).1, ?_,
    fun _ _ _ _ hn hr => pushElementToFront_some hn hr⟩
  intro src n a hn hs ha
  obtain ⟨q', hq, hr⟩ := pushElementToFront_represents h hn hs ha
  exact ⟨q', _, hq, hr⟩

theorem pushElementToLast_pushes {q : Queue} {xs : List (Addr × List UInt8)}
    (h : Represents q xs) : Pushes (pushElementToLast q) q := by
  refine ⟨fun _ _ _ _ hr => (push_refuses q _ _ _ _ hr).2, ?_,
    fun _ _ _ _ hn hr => pushElementToLast_some hn hr⟩
  intro src n a hn hs ha
  obtain ⟨q', hq, hr⟩ := pushElementToLast_represents h hn hs ha
  exact ⟨q', _, hq, hr⟩

section Push

variable {f : Option (List UInt8) → Nat → Option Addr → Bool → Option (Queue × Bool)} {q : Queue}

theorem Pushes.cases (hf : Pushes f q) (pData : Option (List UInt8)) (n : Nat)
    (elem : Option Addr) (data : Bool) : f pData n elem data = some (q, false) ∨
      ∃ src a, pData = some src ∧ elem = some a ∧ data = true ∧ 0 < n := by
  by_cases hr : pData = none ∨ n = 0 ∨ elem = none ∨ data = false
  · exact .inl (hf.refuses _ _ _ _ hr)
  · simp only [not_or, Bool.not_eq_false] at hr
    obtain ⟨hp, hn, he, hd⟩ := hr
    obtain ⟨src, rfl⟩ := Option.ne_none_iff_exists'.mp hp
    obtain ⟨a, rfl⟩ := Option.ne_none_iff_exists'.mp he
    exact .inr ⟨src, a, rfl, rfl, hd, Nat.pos_of_ne_zero hn⟩

theorem Pushes.keeps (hf : Pushes f q) {xs : List (Addr × List UInt8)} (h : Represents q xs)
    {pData : Option (List UInt8)} {n : Nat} {elem : Option Addr} {data : Bool} {r : Queue × Bool}
    (hr : f pData n elem data = some r) : ∃ xs', Represents r.1 xs' := by
  rcases hf.cases pData n elem data with hno | ⟨src, a, rfl, rfl, rfl, hn⟩
  · obtain rfl := Option.some.inj (hno.symm.trans hr)
    exact ⟨xs, h⟩
  · obtain ⟨hs, ha⟩ := hf.needs src n a r (Nat.ne_of_gt hn) hr
    obtain ⟨q', xs', hq, hrep⟩ := hf.accepts src n a hn hs ha
    obtain rfl := Option.some.inj (hq.symm.trans hr)
    exact ⟨xs', hrep⟩

theorem Pushes.runs (hf : Pushes f q) {pData : Option (List UInt8)} {n : Nat} {elem : Option Addr}
    (data : Bool) (hs : ∀ src ∈ pData, n ≤ src.length) (ha : ∀ a ∈ elem, q.heap a = none) :
    ∃ r, f pData n elem data = some r := by
  rcases hf.cases pData n elem data with hno | ⟨src, a, rfl, rfl, rfl, hn⟩
  · exact ⟨_, hno⟩
  · obtain ⟨q', xs', hq, -⟩ := hf.accepts src n a hn (hs src rfl) (ha a rfl)
    exact ⟨_, hq⟩

end Push

theorem popElementFromFront_keeps {q : Queue} {xs : List (Addr × List UInt8)} (h : Represents q xs)
    {pBuffer : Option (List UInt8)} {n : Nat} {r : Popped}
    (hr : popElementFromFront q pBuffer n = some r) : ∃ xs', Represents r.queue xs' := by
  cases xs with
  | nil =>
      obtain rfl := Option.some.inj ((pop_empty h pBuffer n).1.symm.trans hr)
      exact ⟨[], h⟩
  | cons x xs =>
      obtain ⟨e, q', hf, he, -, -, hq, hrep⟩ := unlinkFirst_represents h
      have hnum : 0 < q.elementNum := h.num_pos (by simp)
      simp only [popElementFromFront, hnum, if_true, hf, he, hq, Option.bind_eq_bind,
        Option.bind_some] at hr
      obtain ⟨out, -, hr⟩ := Option.bind_eq_some_iff.mp hr
      obtain rfl := Option.some.inj hr
      exact ⟨xs, hrep⟩

theorem popElementFromLast_keeps {q : Queue} {xs : List (Addr × List UInt8)} (h : Represents q xs)
    {pBuffer : Option (List UInt8)} {n : Nat} {r : Popped}
    (hr : popElementFromLast q pBuffer n = some r) : ∃ xs', Represents r.queue xs' := by
  rcases List.eq_nil_or_concat xs with rfl | ⟨xs, x, rfl⟩
  · obtain rfl := Option.some.inj ((pop_empty h pBuffer n).2.symm.trans hr)
    exact ⟨[], h⟩
  · rw [List.concat_eq_append] at h
    obtain ⟨e, q', hl, he, -, hq, hrep⟩ := unlinkLast_represents h
    have hnum : 0 < q.elementNum := h.num_pos (by simp)
    simp only [popElementFromLast, hnum, if_true, hl, he, hq, Option.bind_eq_bind,
      Option.bind_some] at hr
    obtain ⟨out, -, hr⟩ := Option.bind_eq_some_iff.mp hr
    obtain rfl := Option.some.inj hr
    exact ⟨xs, hrep⟩

theorem ne_nil_of_num {q : Queue} {xs : List (Addr × List UInt8)} (h : Represents q xs)
    (hn : q.elementNum ≠ 0) : xs ≠ [] := by
  rintro rfl
  exact hn h.num

/-- Whatever an operation does, the queue stays a list of chunks. -/
theorem step_keeps {q q' : Queue} {xs : List (Addr × List UInt8)} (h : Represents q xs) {op : Op}
    (hs : step q op = some q') : ∃ xs', Represents q' xs' := by
  cases op with
  | pushElementToFront pData n elem data =>
      obtain ⟨r, hr, rfl⟩ := Option.map_eq_some_iff.mp hs
      exact (pushElementToFront_pushes h).keeps h hr
  | pushElementToLast pData n elem data =>
      obtain ⟨r, hr, rfl⟩ := Option.map_eq_some_iff.mp hs
      exact (pushElementToLast_pushes h).keeps h hr
  | popElementFromFront pBuffer n =>
      obtain ⟨r, hr, rfl⟩ := Option.map_eq_some_iff.mp hs
      exact popElementFromFront_keeps h hr
  | popElementFromLast pBuffer n =>
      obtain ⟨r, hr, rfl⟩ := Option.map_eq_some_iff.mp hs
      exact popElementFromLast_keeps h hr
  | popDataCrossElement pOutput n =>
      obtain ⟨r, hr, rfl⟩ := Option.map_eq_some_iff.mp hs
      rw [popDataCrossElement] at hr
      split at hr
      next hn =>
        obtain ⟨output, -, hr⟩ := Option.bind_eq_some_iff.mp hr
        obtain ⟨c, hc, hr⟩ := Option.bind_eq_some_iff.mp hr
        obtain rfl := Option.some.inj hr
        exact crossLoop_keeps (ne_nil_of_num h hn.1) h hc
      next =>
        obtain rfl := Option.some.inj hr
        exact ⟨xs, h⟩
  | removeData n =>
      obtain ⟨r, hr, rfl⟩ := Option.map_eq_some_iff.mp hs
      rw [removeData] at hr
      split at hr
      next => exact removeLoop_keeps h hr
      next =>
        obtain rfl := Option.some.inj hr
        exact ⟨xs, h⟩
  | clear =>
      obtain ⟨q'', hq, hrep⟩ := clear_represents h
      obtain ⟨r, hr, rfl⟩ := Option.map_eq_some_iff.mp hs
      obtain rfl := Option.some.inj (hq.symm.trans hr)
      exact ⟨[], hrep⟩

/-- Operations whose promises are kept never read or write astray, and end. -/
theorem step_runs {q : Queue} {xs : List (Addr × List UInt8)} (h : Represents q xs) {op : Op}
    (hop : Permitted q op) : ∃ q', step q op = some q' := by
  cases op with
  | pushElementToFront pData n elem data =>
      obtain ⟨r, hr⟩ := (pushElementToFront_pushes h).runs data hop.1 hop.2
      exact ⟨r.1, by rw [step, hr]; rfl⟩
  | pushElementToLast pData n elem data =>
      obtain ⟨r, hr⟩ := (pushElementToLast_pushes h).runs data hop.1 hop.2
      exact ⟨r.1, by rw [step, hr]; rfl⟩
  | popElementFromFront pBuffer n =>
      cases xs with
      | nil => exact ⟨q, by rw [step, (pop_empty h pBuffer n).1]; rfl⟩
      | cons x xs =>
          obtain ⟨q', hq, -⟩ := popElementFromFront_represents h pBuffer n hop
          exact ⟨q', by rw [step, hq]; rfl⟩
  | popElementFromLast pBuffer n =>
      rcases List.eq_nil_or_concat xs with rfl | ⟨xs, x, rfl⟩
      · exact ⟨q, by rw [step, (pop_empty h pBuffer n).2]; rfl⟩
      · rw [List.concat_eq_append] at h
        obtain ⟨q', hq, -⟩ := popElementFromLast_represents h pBuffer n hop
        exact ⟨q', by rw [step, hq]; rfl⟩
  | popDataCrossElement pOutput n =>
      rw [step, popDataCrossElement]
      split
      next hn =>
        obtain ⟨buffer, hb, hroom⟩ := hop (Nat.pos_of_ne_zero hn.1) hn.2.2
        obtain rfl : pOutput = some buffer := hb
        rw [h.total] at hroom
        obtain ⟨q', pBuffer, left, _, hc, -⟩ := loops_represent (ne_nil_of_num h hn.1) h hn.2.2
          (Nat.le_of_eq h.num.symm) [] hroom 0 0 0
        rw [List.nil_append, List.length_nil] at hc
        refine ⟨q', ?_⟩
        rw [Option.bind_eq_bind, Option.bind_some, hc]
        rfl
      next => exact ⟨q, rfl⟩
  | removeData n =>
      rw [step, removeData]
      split
      next hn =>
        obtain ⟨q', _, _, rvalue, -, hr, -⟩ := loops_represent
          (ne_nil_of_num h (Nat.ne_of_gt hn.1)) h hn.2.2 (Nat.le_of_eq h.num.symm) []
          (Nat.min_le_right n (bytes xs).length) 0 0 1
        exact ⟨q', by rw [hr]; rfl⟩
      next => exact ⟨q, rfl⟩
  | clear =>
      obtain ⟨q', hq, -⟩ := clear_represents h
      exact ⟨q', by rw [step, hq]; rfl⟩

theorem reachable_represents {q : Queue} (h : Reachable step emptyQueue q) :
    ∃ xs, Represents q xs :=
  h.invariant (I := fun q => ∃ xs, Represents q xs) (fun _ _ _ ⟨_, hr⟩ hs => step_keeps hr hs)
    ⟨[], emptyQueue_represents⟩

theorem elements_sizes {q : Queue} {xs : List (Addr × List UInt8)} (h : Represents q xs) :
    (elements q).map Element.size = xs.map (fun x => x.2.length) := by
  rw [elements, h.first]
  exact h.linked.chained.cells_map (L := layout) (fun _ _ hv => hv.2.1) (Nat.le_of_eq h.num.symm)

theorem represents_wellFormed {q : Queue} {xs : List (Addr × List UInt8)} (h : Represents q xs) :
    WellFormed q (xs.map Prod.fst) := by
  have hlast : (xs.map Prod.fst).getLast? = q.lastElement := by
    rw [h.last, last_eq, Option.or_none]
  refine ⟨?_, ?_, hlast, ?_, h.linked.nodup, ?_, ?_, ?_, ?_⟩
  · rw [h.first]
    exact h.linked.chained.path_next
  · rw [h.last]
    exact h.linked.chained.path_prev
  · rw [List.length_map, h.num]
  · rw [h.first, h.num]
    cases xs <;> simp [head]
  · rw [← hlast, h.num, List.getLast?_eq_none_iff, List.map_eq_nil_iff, List.length_eq_zero_iff]
  · intro e he
    have hmem : e.size ∈ xs.map (fun x => x.2.length) := by
      rw [← elements_sizes h]
      exact List.mem_map_of_mem he
    obtain ⟨x, hx, hs⟩ := List.mem_map.mp hmem
    obtain ⟨c, -, hv⟩ := h.linked.chained.holds_of_mem hx
    rw [← hs]
    exact List.length_pos_iff.mpr hv.2.2
  · rw [elements_sizes h, h.total, bytes, List.length_flatMap]

/-- After any sequence of operations the nodes form a well formed doubly linked
list whose counters are right, and every further operation has a next state. -/
theorem reachable_wellFormed (q : Queue) (h : Reachable step emptyQueue q) :
    (∃ nodes, WellFormed q nodes) ∧ ∀ op, Permitted q op → ∃ q', step q op = some q' := by
  obtain ⟨xs, hr⟩ := reachable_represents h
  exact ⟨⟨_, represents_wellFormed hr⟩, fun op hop => step_runs hr hop⟩

def mixedOps : List Op :=
  [.pushElementToLast (some [1, 2, 3]) 3 (some 7) true,
    .pushElementToFront (some [8, 9]) 2 (some 4) true,
    .pushElementToLast (some [5]) 1 (some 2) false,
    .pushElementToLast (some [5, 6]) 2 (some 2) true,
    .popDataCrossElement (some [0, 0, 0]) 3, .popElementFromLast none 0, .removeData 1]

theorem reachable_wellFormed_mixed : ∃ q nodes, exec step emptyQueue mixedOps = some q ∧
    WellFormed q nodes ∧ q.totalDataSize = 1 ∧ ∃ q', step q .clear = some q' := by
  obtain ⟨q, hq⟩ : ∃ q, exec step emptyQueue mixedOps = some q :=
    Option.isSome_iff_exists.mp (by decide +kernel)
  have hsize : (exec step emptyQueue mixedOps).map Queue.totalDataSize = some 1 := by decide +kernel
  rw [hq] at hsize
  obtain ⟨⟨nodes, hw⟩, hrun⟩ := reachable_wellFormed q ⟨mixedOps, hq⟩
  exact ⟨q, nodes, hq, hw, Option.some.inj hsize, hrun .clear trivial⟩

end Ashe.BufferInvariant
