import Ashe.BufferInvariant

namespace Ashe.BufferStream

open LinkedCells BufferQueue BufferChunks BufferLoops BufferInvariant Runs

def stream (q : Queue) : List UInt8 := (elements q).flatMap unread

/-- The operations as operations on the stream of bytes. -/
structure RefinesStream (q : Queue) : Prop where
  popDataCrossElement : ∀ n output, 0 < n → q.elementNum ≠ 0 →
    min n (stream q).length ≤ output.length →
    ∃ q' rvalue, popDataCrossElement q (some output) n = some ⟨q',
        some ((stream q).take n ++ output.drop (min n (stream q).length)),
        some (consumed n ((elements q).map Element.size)), min n (stream q).length⟩ ∧
      stream q' = (stream q).drop n ∧ removeData q n = some (q', rvalue)
  pushElementToFront : ∀ src n a, 0 < n → n ≤ src.length → q.heap a = none →
    ∃ q', pushElementToFront q (some src) n (some a) true = some (q', true) ∧
      stream q' = src.take n ++ stream q
  pushElementToLast : ∀ src n a, 0 < n → n ≤ src.length → q.heap a = none →
    ∃ q', pushElementToLast q (some src) n (some a) true = some (q', true) ∧
      stream q' = stream q ++ src.take n
  toOneBuffer : ∀ left, toOneBuffer q true (some left) = some (some (stream q), (stream q).length)
  toOneBufferWithNullEnding : ∀ left, toOneBufferWithNullEnding q true (some left) =
    some (some (stream q ++ [0]), (stream q).length + 1)

theorem stream_represents {q : Queue} {xs : List (Addr × List UInt8)} (h : Represents q xs) :
    stream q = bytes xs := by
  have hmap : (elements q).map unread = xs.map Prod.snd := by
    rw [elements, h.first]
    exact h.linked.chained.cells_map (L := layout) (g := id) (fun _ _ hv => hv.1)
      (Nat.le_of_eq h.num.symm)
  rw [stream, List.flatMap_def, hmap, bytes, List.flatMap_def]

theorem copyElements_chained {heap : Heap Addr Element} {p : Option Addr}
    {xs : List (Addr × List UInt8)} (hc : Chained layout heap p xs none) {rounds : Nat}
    (hr : xs.length ≤ rounds) (before : List UInt8) {rest : List UInt8}
    (hl : (bytes xs).length ≤ rest.length) :
    copyElements rounds heap (head none xs) (bytes xs).length (before ++ rest) before.length =
      some (before ++ bytes xs ++ rest.drop (bytes xs).length) := by
  induction xs generalizing p rounds before rest with
  | nil => cases rounds <;> simp [head, copyElements, bytes]
  | cons x xs ih =>
      obtain ⟨⟨e, he, -, hn, hv⟩, hrest⟩ := hc
      obtain ⟨rounds, rfl⟩ : ∃ n, rounds = n + 1 := Nat.exists_eq_succ_of_ne_zero (by
        rw [List.length_cons] at hr
        omega)
      have hpos : 0 < x.2.length := List.length_pos_iff.mpr hv.2.2
      have hn' : e.next = head none xs := hn
      rw [bytes_cons, List.length_append] at hl ⊢
      have hcopy := memcpy_chunk hv before rest (Nat.le_refl x.2.length) (by omega)
      rw [List.take_length] at hcopy
      have hroom : (bytes xs).length ≤ (rest.drop x.2.length).length := by
        rw [List.length_drop]
        omega
      have hnext := ih hrest (by simpa using hr) (before ++ x.2) hroom
      rw [List.length_append] at hnext
      rw [head_cons, copyElements, if_pos (by omega), he]
      simp only [Option.bind_eq_bind, Option.bind_some, hv.2.1, hcopy, hn', Nat.add_sub_cancel_left,
        hnext]
      simp only [List.append_assoc, List.drop_drop]

theorem toOneBuffer_represents {q : Queue} {xs : List (Addr × List UInt8)} (h : Represents q xs)
    (left : Nat → UInt8) :
    toOneBuffer q true (some left) = some (some (bytes xs), (bytes xs).length) := by
  have hl : (malloc (bytes xs).length left).length = (bytes xs).length := by simp [malloc]
  have hcopy := copyElements_chained h.linked.chained (Nat.le_of_eq h.num.symm) []
    (Nat.le_of_eq hl.symm)
  rw [← h.first, ← h.total, List.nil_append, List.nil_append, List.length_nil] at hcopy
  rw [h.total, List.drop_eq_nil_of_le (Nat.le_of_eq hl), List.append_nil] at hcopy
  rw [toOneBuffer, h.total, hcopy]
  rfl

theorem toOneBufferWithNullEnding_represents {q : Queue} {xs : List (Addr × List UInt8)}
    (h : Represents q xs) (left : Nat → UInt8) :
    toOneBufferWithNullEnding q true (some left) =
      some (some (bytes xs ++ [0]), (bytes xs).length + 1) := by
  have hset : (malloc ((bytes xs).length + 1) left).set (bytes xs).length 0 =
      malloc (bytes xs).length left ++ [0] := by
    simp [malloc, List.range_succ]
  have hl : (malloc (bytes xs).length left).length = (bytes xs).length := by simp [malloc]
  have hroom : (bytes xs).length ≤ (malloc (bytes xs).length left ++ [0]).length := by
    rw [List.length_append]
    omega
  have hcopy := copyElements_chained h.linked.chained (Nat.le_of_eq h.num.symm) [] hroom
  rw [← h.first, List.nil_append, List.nil_append, List.length_nil, List.drop_append,
    List.drop_eq_nil_of_le (Nat.le_of_eq hl), hl, Nat.sub_self, List.drop_zero,
    List.nil_append] at hcopy
  rw [toOneBufferWithNullEnding, h.total, hset, hcopy]
  rfl

/-- Every reachable queue behaves as its stream does. -/
theorem reachable_refinesStream (q : Queue) (h : Reachable step emptyQueue q) :
    RefinesStream q := by
  obtain ⟨xs, hr⟩ := reachable_represents h
  have hs := stream_represents hr
  refine ⟨?_, ?_, ?_, ?_, ?_⟩
  · intro n output hn hnum hroom
    rw [hs] at hroom ⊢
    obtain ⟨q', pBuffer, left, rvalue, hcross, hremove, hrep⟩ := loops_represent
      (ne_nil_of_num hr hnum) hr hn (Nat.le_of_eq hr.num.symm) [] hroom 0 0 1
    have htotal : 0 < q.totalDataSize := by
      obtain ⟨x, xs, rfl⟩ := List.exists_cons_of_ne_nil (ne_nil_of_num hr hnum)
      exact total_pos hr
    rw [List.nil_append, List.length_nil, Nat.zero_add, Nat.zero_add] at hcross
    refine ⟨q', rvalue, ?_, ?_, ?_⟩
    · rw [BufferQueue.popDataCrossElement, if_pos ⟨hnum, htotal, hn⟩, elements_sizes hr,
        Option.bind_eq_bind, Option.bind_some, hcross]
      rfl
    · rw [stream_represents hrep, bytes_dropBytes]
    · rw [BufferQueue.removeData, if_pos ⟨Nat.pos_of_ne_zero hnum, htotal, hn⟩, hremove]
  · intro src n a hn hsrc ha
    obtain ⟨q', hq, hrep⟩ := pushElementToFront_represents hr hn hsrc ha
    exact ⟨q', hq, by rw [stream_represents hrep, hs, bytes_cons]⟩
  · intro src n a hn hsrc ha
    obtain ⟨q', hq, hrep⟩ := pushElementToLast_represents hr hn hsrc ha
    refine ⟨q', hq, ?_⟩
    rw [stream_represents hrep, hs, bytes_append, bytes_cons]
    simp [bytes]
  · intro left
    rw [hs, toOneBuffer_represents hr]
  · intro left
    rw [hs, toOneBufferWithNullEnding_represents hr]

def partlyRead : List Op :=
  [.pushElementToLast (some [1, 2, 3]) 3 (some 7) true,
    .pushElementToLast (some [8, 9]) 2 (some 4) true, .popDataCrossElement (some [0]) 1]

theorem reachable_refinesStream_partlyRead : ∃ q, exec step emptyQueue partlyRead = some q ∧
    stream q = [2, 3, 8, 9] ∧ RefinesStream q := by
  obtain ⟨q, hq⟩ : ∃ q, exec step emptyQueue partlyRead = some q :=
    Option.isSome_iff_exists.mp (by decide +kernel)
  have hstream : (exec step emptyQueue partlyRead).map stream = some [2, 3, 8, 9] := by
    decide +kernel
  rw [hq] at hstream
  exact ⟨q, hq, Option.some.inj hstream, reachable_refinesStream q ⟨partlyRead, hq⟩⟩

end Ashe.BufferStream
