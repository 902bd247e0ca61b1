import Ashe.BufferQueue

namespace Ashe.BufferChunks

open LinkedCells BufferQueue

def unread (e : Element) : List UInt8 := (source e).take e.size

/-- An element holds a chunk: its unread bytes, never none. -/
def layout : Layout Addr Element (List UInt8) where
  next := Element.next
  prev := Element.prev
  setNext e q := { e with next := q }
  setPrev e p := { e with prev := p }
  holds e chunk := unread e = chunk ∧ e.size = chunk.length ∧ chunk ≠ []
  next_setNext _ _ := rfl
  prev_setNext _ _ := rfl
  holds_setNext _ _ _ h := h
  prev_setPrev _ _ := rfl
  next_setPrev _ _ := rfl
  holds_setPrev _ _ _ h := h

def bytes (xs : List (Addr × List UInt8)) : List UInt8 := xs.flatMap Prod.snd

/-- The queue is the list of chunks, and its counters count them. -/
structure Represents (q : Queue) (xs : List (Addr × List UInt8)) : Prop where
  linked : Linked layout q.heap xs
  first : q.firstElement = head none xs
  last : q.lastElement = last none xs
  num : q.elementNum = xs.length
  total : q.totalDataSize = (bytes xs).length

theorem emptyQueue_represents : Represents emptyQueue [] :=
  ⟨⟨trivial, List.nodup_nil⟩, rfl, rfl, rfl, rfl⟩

@[simp] theorem bytes_cons (x : Addr × List UInt8) (xs : List (Addr × List UInt8)) :
    bytes (x :: xs) = x.2 ++ bytes xs := List.flatMap_cons

@[simp] theorem bytes_append (xs ys : List (Addr × List UInt8)) :
    bytes (xs ++ ys) = bytes xs ++ bytes ys := List.flatMap_append

theorem memcpy_some {dst src dst' : List UInt8} {offset n : Nat}
    (h : memcpy dst offset src n = some dst') : n ≤ src.length := by
  rw [memcpy] at h
  split at h
  next hn => exact hn.1
  next => exact absurd h (by simp)

theorem memcpy_append (before rest src : List UInt8) {n : Nat} (hs : n ≤ src.length)
    (hr : n ≤ rest.length) : memcpy (before ++ rest) before.length src n =
      some (before ++ src.take n ++ rest.drop n) := by
  rw [memcpy, if_pos ⟨hs, by rw [List.length_append]; omega⟩]
  simp

theorem memcpy_malloc {src : List UInt8} {n : Nat} {left : Nat → UInt8} (hs : n ≤ src.length) :
    memcpy (malloc n left) 0 src n = some (src.take n) := by
  have hl : (malloc n left).length = n := by simp [malloc]
  rw [memcpy, if_pos ⟨hs, by omega⟩, Nat.zero_add, List.drop_eq_nil_of_le (Nat.le_of_eq hl)]
  simp

theorem holds_new {src : List UInt8} {n : Nat} {p q : Option Addr} (hn : 0 < n)
    (hs : n ≤ src.length) : layout.holds ⟨src.take n, 0, n, p, q⟩ (src.take n) := by
  refine ⟨?_, ?_, ?_⟩
  · simp [unread, source, List.take_take]
  · exact (List.length_take_of_le hs).symm
  · apply List.ne_nil_of_length_pos
    rw [List.length_take]
    omega

theorem pushElementToFront_represents {q : Queue} {xs : List (Addr × List UInt8)}
    (h : Represents q xs) {src : List UInt8} {n : Nat} (hn : 0 < n) (hs : n ≤ src.length)
    {a : Addr} (ha : q.heap a = none) :
    ∃ q', pushElementToFront q (some src) n (some a) true = some (q', true) ∧
      Represents q' ((a, src.take n) :: xs) := by
  have htotal : q.totalDataSize + n = (bytes ((a, src.take n) :: xs)).length := by
    rw [bytes_cons, List.length_append, List.length_take, h.total]
    omega
  have hnum : q.elementNum + 1 = xs.length + 1 := by rw [h.num]
  simp only [pushElementToFront, Nat.ne_of_gt hn, if_false, memcpy_malloc hs, Option.bind_eq_bind,
    Option.bind_some, h.first]
  cases xs with
  | nil =>
      simp only [head, alloc, ha, Option.bind_some]
      exact ⟨_, rfl, Linked.single rfl rfl (holds_new hn hs), rfl, rfl, hnum, htotal⟩
  | cons y ys =>
      obtain ⟨heap, hh, hl⟩ := h.linked.pushFront ha (c := ⟨src.take n, 0, n, none, some y.1⟩)
        rfl rfl (holds_new hn hs)
      dsimp only [layout] at hh
      simp only [head, hh, Option.bind_some]
      exact ⟨_, rfl, hl, rfl, h.last, hnum, htotal⟩

theorem pushElementToLast_represents {q : Queue} {xs : List (Addr × List UInt8)}
    (h : Represents q xs) {src : List UInt8} {n : Nat} (hn : 0 < n) (hs : n ≤ src.length)
    {a : Addr} (ha : q.heap a = none) :
    ∃ q', pushElementToLast q (some src) n (some a) true = some (q', true) ∧
      Represents q' (xs ++ [(a, src.take n)]) := by
  have htotal : q.totalDataSize + n = (bytes (xs ++ [(a, src.take n)])).length := by
    rw [bytes_append, bytes_cons, List.length_append, List.length_append, List.length_take, h.total]
    simp only [bytes, List.flatMap_nil, List.length_nil]
    omega
  have hnum : q.elementNum + 1 = (xs ++ [(a, src.take n)]).length := by simp [h.num]
  simp only [pushElementToLast, Nat.ne_of_gt hn, if_false, memcpy_malloc hs, Option.bind_eq_bind,
    Option.bind_some, h.last]
  rcases List.eq_nil_or_concat xs with rfl | ⟨ys, y, rfl⟩
  · simp only [last, alloc, ha, Option.bind_some]
    exact ⟨_, rfl, Linked.single rfl rfl (holds_new hn hs), rfl, rfl, hnum, htotal⟩
  · rw [List.concat_eq_append] at *
    obtain ⟨heap, hh, hl⟩ := h.linked.pushLast ha (c := ⟨src.take n, 0, n, some y.1, none⟩)
      rfl rfl (holds_new hn hs)
    dsimp only [layout] at hh
    simp only [last_append, last, hh, Option.bind_some]
    refine ⟨_, rfl, hl, ?_, ?_, hnum, htotal⟩
    · rw [h.first]
      cases ys <;> rfl
    · rw [last_append]
      rfl

theorem holds_source {e : Element} {chunk : List UInt8} (h : layout.holds e chunk) :
    e.size ≤ (source e).length := by
  have hl : ((source e).take e.size).length = e.size := by
    rw [h.2.1]
    exact congrArg List.length (h.2.1 ▸ h.1)
  rw [List.length_take] at hl
  omega

theorem holds_take {e : Element} {chunk : List UInt8} (h : layout.holds e chunk) (n : Nat) :
    (source e).take (min n e.size) = chunk.take n := by
  rw [← List.take_take]
  exact congrArg (List.take n) h.1

theorem memcpy_chunk {e : Element} {chunk : List UInt8} (h : layout.holds e chunk)
    (before rest : List UInt8) {n : Nat} (hn : n ≤ chunk.length) (hr : n ≤ rest.length) :
    memcpy (before ++ rest) before.length (source e) n =
      some (before ++ chunk.take n ++ rest.drop n) := by
  have hsize : n ≤ e.size := by rw [h.2.1]; exact hn
  have hcopy := memcpy_append before rest (source e) (Nat.le_trans hsize (holds_source h)) hr
  have htake := holds_take h n
  rw [Nat.min_eq_left hsize] at htake
  rw [hcopy, htake]

/-- What both pops hand out: as many bytes of the chunk as were asked for. -/
theorem copyOut_chunk {e : Element} {chunk : List UInt8} (h : layout.holds e chunk)
    {pBuffer : Option (List UInt8)} {n : Nat} (hb : ∀ buffer ∈ pBuffer, n ≤ buffer.length) :
    copyOut e pBuffer n =
      some (pBuffer.map (fun buffer => chunk.take n ++ buffer.drop (min n chunk.length)),
        if pBuffer = none then 0 else min n chunk.length) := by
  have hpos : 0 < chunk.length := List.length_pos_iff.mpr h.2.2
  cases pBuffer with
  | none => rfl
  | some buffer =>
      have hbuf : n ≤ buffer.length := hb buffer rfl
      by_cases hn : 0 < n
      · have hsize : (if e.size > n then n else e.size) = min n chunk.length := by
          rw [h.2.1]
          split <;> omega
        have hmin : 0 < min n chunk.length := by omega
        have hcopy := memcpy_chunk h [] buffer (n := min n chunk.length)
          (Nat.min_le_right ..) (Nat.le_trans (Nat.min_le_left ..) hbuf)
        rw [List.nil_append, List.nil_append, List.length_nil, ← List.take_eq_take_min] at hcopy
        simp only [copyOut, hn, if_true, hsize, hmin, hcopy, Option.map_some, reduceCtorEq,
          if_false]
      · have hz : n = 0 := by omega
        simp [copyOut, hz]

theorem Represents.first_element {q : Queue} {x : Addr × List UInt8}
    {xs : List (Addr × List UInt8)} (h : Represents q (x :: xs)) {e : Element}
    (he : q.heap x.1 = some e) : q.firstElement = some x.1 ∧ layout.holds e x.2 ∧
      e.next = head none xs := by
  obtain ⟨⟨e', he', -, hn, hv⟩, -⟩ := h.linked.chained
  obtain rfl : e = e' := Option.some.inj (he.symm.trans he')
  exact ⟨h.first, hv, hn⟩

theorem Represents.chunk_pos {q : Queue} {x : Addr × List UInt8} {xs : List (Addr × List UInt8)}
    (h : Represents q (x :: xs)) : 0 < x.2.length := by
  obtain ⟨⟨e, -, -, -, hv⟩, -⟩ := h.linked.chained
  exact List.length_pos_iff.mpr hv.2.2

theorem Represents.num_pos {q : Queue} {xs : List (Addr × List UInt8)} (h : Represents q xs)
    (hx : xs ≠ []) : 0 < q.elementNum := by
  rw [h.num]
  exact List.length_pos_iff.mpr hx

theorem unlinkFirst_represents {q : Queue} {x : Addr × List UInt8} {xs : List (Addr × List UInt8)}
    (h : Represents q (x :: xs)) : ∃ e q', q.firstElement = some x.1 ∧ q.heap x.1 = some e ∧
      layout.holds e x.2 ∧ e.next = head none xs ∧ unlinkFirst q x.1 e = some q' ∧
      Represents q' xs := by
  obtain ⟨⟨e, he, hp, hn, hv⟩, hrest⟩ := h.linked.chained
  refine ⟨e, ?_⟩
  have hnum : q.elementNum - 1 = xs.length := by rw [h.num]; rfl
  have htotal : q.totalDataSize - e.size = (bytes xs).length := by
    rw [h.total, bytes_cons, List.length_append, hv.2.1, Nat.add_sub_cancel_left]
  have hn' : e.next = head none xs := hn
  cases xs with
  | nil =>
      simp only [unlinkFirst, hn', head, free, he, Option.map_some, Option.bind_eq_bind,
        Option.bind_some]
      exact ⟨_, h.first, trivial, hv, trivial, rfl, ⟨trivial, List.nodup_nil⟩, rfl, rfl, hnum,
        htotal⟩
  | cons y ys =>
      obtain ⟨heap, hh, hl⟩ := h.linked.popFront
      dsimp only [layout] at hh
      simp only [unlinkFirst, hn', head, hh, Option.bind_eq_bind, Option.bind_some]
      exact ⟨_, h.first, he, hv, trivial, rfl, hl, rfl, h.last, hnum, htotal⟩

theorem unlinkLast_represents {q : Queue} {x : Addr × List UInt8} {xs : List (Addr × List UInt8)}
    (h : Represents q (xs ++ [x])) : ∃ e q', q.lastElement = some x.1 ∧ q.heap x.1 = some e ∧
      layout.holds e x.2 ∧ unlinkLast q x.1 e = some q' ∧ Represents q' xs := by
  obtain ⟨hxs, ⟨e, he, hp, -, hv⟩, -⟩ := chained_append.mp h.linked.chained
  have hlast : q.lastElement = some x.1 := by
    rw [h.last, last_append]
    rfl
  have hnum : q.elementNum - 1 = xs.length := by rw [h.num, List.length_append]; rfl
  have htotal : q.totalDataSize - e.size = (bytes xs).length := by
    rw [h.total, bytes_append, bytes_cons, List.length_append, hv.2.1]
    simp [bytes]
  have hp' : e.prev = last none xs := hp
  refine ⟨e, ?_⟩
  rcases List.eq_nil_or_concat xs with rfl | ⟨ys, y, rfl⟩
  · simp only [unlinkLast, hp', last, free, he, Option.map_some, Option.bind_eq_bind,
      Option.bind_some]
    exact ⟨_, hlast, trivial, hv, rfl, ⟨trivial, List.nodup_nil⟩, rfl, rfl, hnum, htotal⟩
  · rw [List.concat_eq_append] at *
    obtain ⟨heap, hh, hl⟩ := h.linked.popLast
    dsimp only [layout] at hh
    simp only [unlinkLast, hp', last_append, last, hh, Option.bind_eq_bind, Option.bind_some]
    refine ⟨_, hlast, he, hv, rfl, hl, ?_, ?_, hnum, htotal⟩
    · rw [h.first]
      cases ys <;> rfl
    · rw [last_append]
      rfl

theorem popElementFromFront_represents {q : Queue} {x : Addr × List UInt8}
    {xs : List (Addr × List UInt8)} (h : Represents q (x :: xs)) (pBuffer : Option (List UInt8))
    (n : Nat) (hb : ∀ buffer ∈ pBuffer, n ≤ buffer.length) :
    ∃ q', popElementFromFront q pBuffer n = some ⟨q',
        pBuffer.map (fun buffer => x.2.take n ++ buffer.drop (min n x.2.length)),
        if pBuffer = none then 0 else min n x.2.length⟩ ∧ Represents q' xs := by
  obtain ⟨e, q', hf, he, hv, -, hq, hr⟩ := unlinkFirst_represents h
  refine ⟨q', ?_, hr⟩
  have hnum : 0 < q.elementNum := h.num_pos (by simp)
  simp only [popElementFromFront, hnum, if_true, hf, he, copyOut_chunk hv hb, hq,
    Option.bind_eq_bind, Option.bind_some]

theorem popElementFromLast_represents {q : Queue} {x : Addr × List UInt8}
    {xs : List (Addr × List UInt8)} (h : Represents q (xs ++ [x])) (pBuffer : Option (List UInt8))
    (n : Nat) (hb : ∀ buffer ∈ pBuffer, n ≤ buffer.length) :
    ∃ q', popElementFromLast q pBuffer n = some ⟨q',
        pBuffer.map (fun buffer => x.2.take n ++ buffer.drop (min n x.2.length)),
        if pBuffer = none then 0 else min n x.2.length⟩ ∧ Represents q' xs := by
  obtain ⟨e, q', hl, he, hv, hq, hr⟩ := unlinkLast_represents h
  refine ⟨q', ?_, hr⟩
  have hnum : 0 < q.elementNum := h.num_pos (by simp)
  simp only [popElementFromLast, hnum, if_true, hl, he, copyOut_chunk hv hb, hq,
    Option.bind_eq_bind, Option.bind_some]

theorem pop_empty {q : Queue} (h : Represents q []) (pBuffer : Option (List UInt8)) (n : Nat) :
    popElementFromFront q pBuffer n = some ⟨q, pBuffer, 0⟩ ∧
      popElementFromLast q pBuffer n = some ⟨q, pBuffer, 0⟩ := by
  have hnum : ¬ 0 < q.elementNum := by rw [h.num]; simp
  simp [popElementFromFront, popElementFromLast, hnum]

/-- The first element loses some of its bytes, but not all of them. -/
theorem shorten_represents {q : Queue} {x : Addr × List UInt8} {xs : List (Addr × List UInt8)}
    (h : Represents q (x :: xs)) {e : Element} (he : q.heap x.1 = some e) {n : Nat}
    (hn : n < x.2.length) :
    Represents { q with
      heap := Function.update q.heap x.1
        (some { e with size := e.size - n, dataRead := e.dataRead + n })
      totalDataSize := q.totalDataSize - n } ((x.1, x.2.drop n) :: xs) := by
  obtain ⟨-, hv, -⟩ := h.first_element he
  refine ⟨⟨?_, h.linked.nodup⟩, h.first, h.last, h.num, ?_⟩
  · refine Chained.setValue (d := { e with size := e.size - n, dataRead := e.dataRead + n })
      h.linked.chained (List.nodup_cons.mp h.linked.nodup).1 he rfl rfl ⟨?_, ?_, ?_⟩
    · rw [← hv.1]
      simp [unread, source, List.drop_take]
    · rw [List.length_drop, ← hv.2.1]
    · apply List.ne_nil_of_length_pos
      rw [List.length_drop]
      omega
  · rw [bytes_cons, List.length_append, List.length_drop]
    have ht := h.total
    rw [bytes_cons, List.length_append] at ht
    dsimp only
    omega

theorem freeElements_chained {xs : List (Addr × List UInt8)} {h : Heap Addr Element}
    {p : Option Addr} (hc : Chained layout h p xs none) (hnd : (xs.map Prod.fst).Nodup) :
    ∃ heap, freeElements xs.length h (head none xs) = some heap := by
  induction xs generalizing h p with
  | nil => exact ⟨h, rfl⟩
  | cons x xs ih =>
      obtain ⟨⟨e, he, -, hn, -⟩, hr⟩ := hc
      obtain ⟨hx, hnd⟩ := List.nodup_cons.mp hnd
      obtain ⟨heap, hh⟩ := ih (hr.update hx none) hnd
      refine ⟨heap, ?_⟩
      have hn' : e.next = head none xs := hn
      simp only [List.length_cons, head_cons, freeElements, he, free, Option.map_some, hn', hh,
        Option.bind_eq_bind, Option.bind_some]

theorem clear_represents {q : Queue} {xs : List (Addr × List UInt8)} (h : Represents q xs) :
    ∃ q', clear q = some (q', xs.length) ∧ Represents q' [] := by
  have hdone : ∀ heap, Represents ⟨heap, none, none, 0, 0⟩ [] :=
    fun heap => ⟨⟨trivial, List.nodup_nil⟩, rfl, rfl, rfl, rfl⟩
  by_cases hn : 0 < q.elementNum
  · obtain ⟨heap, hh⟩ := freeElements_chained h.linked.chained h.linked.nodup
    rw [← h.num, ← h.first] at hh
    refine ⟨_, ?_, hdone heap⟩
    simp only [clear, hn, if_true, hh, Option.bind_eq_bind, Option.bind_some]
    rw [h.num]
  · refine ⟨_, ?_, hdone q.heap⟩
    simp only [clear, hn, if_false, Option.bind_eq_bind, Option.bind_some]
    rw [h.num]

end Ashe.BufferChunks
