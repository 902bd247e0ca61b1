import Ashe.LinkedCells

namespace Ashe.BufferQueue

open LinkedCells

abbrev Addr := Nat

/-- A queue element together with the buffer that dataStartAddress points to.
The read address is an offset into that buffer. -/
structure Element where
  dataStart : List UInt8
  dataRead : Nat
  size : Nat
  prev : Option Addr
  next : Option Addr

/-- The sizes of live buffers add up to less than the range of size_t, so the
two counters are plain numbers. -/
structure Queue where
  heap : Heap Addr Element
  firstElement : Option Addr
  lastElement : Option Addr
  elementNum : Nat
  totalDataSize : Nat

def emptyQueue : Queue := ⟨fun _ => none, none, none, 0, 0⟩

/-- A copy to an offset of a buffer. It has no result when it would read or
write outside of the two buffers. -/
def memcpy (dst : List UInt8) (offset : Nat) (src : List UInt8) (n : Nat) : Option (List UInt8) :=
  if n ≤ src.length ∧ offset + n ≤ dst.length then
    some (dst.take offset ++ src.take n ++ dst.drop (offset + n))
  else none

def malloc (n : Nat) (left : Nat → UInt8) : List UInt8 := (List.range n).map left

def source (e : Element) : List UInt8 := e.dataStart.drop e.dataRead

/-- The two allocations answer with an address for the element, and with
whether there is a buffer; in every failing case the queue stays as it is. -/
def pushElementToFront (q : Queue) (pData : Option (List UInt8)) (nDataSize : Nat)
    (elem : Option Addr) (data : Bool) : Option (Queue × Bool) :=
  match pData, elem, data with
  | some bytes, some a, true =>
      if nDataSize = 0 then some (q, false)
      else do
        let data ← memcpy (malloc nDataSize (fun _ => 0)) 0 bytes nDataSize
        let q := { q with
          totalDataSize := q.totalDataSize + nDataSize, elementNum := q.elementNum + 1 }
        match q.firstElement with
        | none =>
            let heap ← alloc q.heap a ⟨data, 0, nDataSize, none, none⟩
            some ({ q with heap := heap, firstElement := some a, lastElement := some a }, true)
        | some first =>
            let heap ← (alloc q.heap a ⟨data, 0, nDataSize, none, some first⟩).bind
              (fun h => modify h first (fun e => { e with prev := some a }))
            some ({ q with heap := heap, firstElement := some a }, true)
  | _, _, _ => some (q, false)

def pushElementToLast (q : Queue) (pData : Option (List UInt8)) (nDataSize : Nat)
    (elem : Option Addr) (data : Bool) : Option (Queue × Bool) :=
  match pData, elem, data with
  | some bytes, some a, true =>
      if nDataSize = 0 then some (q, false)
      else do
        let data ← memcpy (malloc nDataSize (fun _ => 0)) 0 bytes nDataSize
        let q := { q with
          totalDataSize := q.totalDataSize + nDataSize, elementNum := q.elementNum + 1 }
        match q.lastElement with
        | none =>
            let heap ← alloc q.heap a ⟨data, 0, nDataSize, none, none⟩
            some ({ q with heap := heap, firstElement := some a, lastElement := some a }, true)
        | some last =>
            let heap ← (alloc q.heap a ⟨data, 0, nDataSize, some last, none⟩).bind
              (fun h => modify h last (fun e => { e with next := some a }))
            some ({ q with heap := heap, lastElement := some a }, true)
  | _, _, _ => some (q, false)

/-- The copy at the beginning of both pops: the caller's buffer afterwards, and
how many bytes it received. -/
def copyOut (e : Element) (pBuffer : Option (List UInt8)) (nBufferSize : Nat) :
    Option (Option (List UInt8) × Nat) :=
  match pBuffer with
  | some buffer =>
      if 0 < nBufferSize then
        let size := if e.size > nBufferSize then nBufferSize else e.size
        if 0 < size then (memcpy buffer 0 (source e) size).map (fun buffer => (some buffer, size))
        else some (some buffer, size)
      else some (some buffer, 0)
  | none => some (none, 0)

def unlinkFirst (q : Queue) (first : Addr) (e : Element) : Option Queue :=
  let q := { q with elementNum := q.elementNum - 1, totalDataSize := q.totalDataSize - e.size }
  match e.next with
  | some next => do
      let heap ← (modify q.heap next (fun e => { e with prev := none })).bind
        (fun h => free h first)
      some { q with heap := heap, firstElement := some next }
  | none => do
      let heap ← free q.heap first
      some { q with heap := heap, firstElement := none, lastElement := none }

def unlinkLast (q : Queue) (last : Addr) (e : Element) : Option Queue :=
  let q := { q with elementNum := q.elementNum - 1, totalDataSize := q.totalDataSize - e.size }
  match e.prev with
  | some prev => do
      let heap ← (modify q.heap prev (fun e => { e with next := none })).bind
        (fun h => free h last)
      some { q with heap := heap, lastElement := some prev }
  | none => do
      let heap ← free q.heap last
      some { q with heap := heap, firstElement := none, lastElement := none }

structure Popped where
  queue : Queue
  buffer : Option (List UInt8)
  rvalue : Nat

def popElementFromFront (q : Queue) (pBuffer : Option (List UInt8)) (nBufferSize : Nat) :
    Option Popped :=
  if 0 < q.elementNum then do
    let first ← q.firstElement
    let e ← q.heap first
    let (buffer, rvalue) ← copyOut e pBuffer nBufferSize
    let q ← unlinkFirst q first e
    some ⟨q, buffer, rvalue⟩
  else some ⟨q, pBuffer, 0⟩

def popElementFromLast (q : Queue) (pBuffer : Option (List UInt8)) (nBufferSize : Nat) :
    Option Popped :=
  if 0 < q.elementNum then do
    let last ← q.lastElement
    let e ← q.heap last
    let (buffer, rvalue) ← copyOut e pBuffer nBufferSize
    let q ← unlinkLast q last e
    some ⟨q, buffer, rvalue⟩
  else some ⟨q, pBuffer, 0⟩

/-- The walk of clear. As in the other loops, the first argument bounds the
number of rounds, and running out of it is no result. -/
def freeElements : Nat → Heap Addr Element → Option Addr → Option (Heap Addr Element)
  | _, h, none => some h
  | 0, _, some _ => none
  | rounds + 1, h, some elem => do
      let e ← h elem
      let h ← free h elem
      freeElements rounds h e.next

def clear (q : Queue) : Option (Queue × Nat) := do
  let heap ← if 0 < q.elementNum then freeElements q.elementNum q.heap q.firstElement
    else some q.heap
  some (⟨heap, none, none, 0, 0⟩, q.elementNum)

/-- The locals of popDataCrossElement, pBuffer as an offset into the output. -/
structure Cross where
  queue : Queue
  output : List UInt8
  pBuffer : Nat
  nOutBufferNum : Nat
  nBytesRead : Nat
  nByteNeed : Nat

def crossStep (c : Cross) : Option Cross := do
  let first ← c.queue.firstElement
  let e ← c.queue.heap first
  if e.size ≥ c.nByteNeed then
    let output ← memcpy c.output c.pBuffer (source e) c.nByteNeed
    let e := { e with size := e.size - c.nByteNeed }
    let q := { c.queue with
      heap := Function.update c.queue.heap first (some e)
      totalDataSize := c.queue.totalDataSize - c.nByteNeed }
    if e.size = 0 then
      let popped ← popElementFromFront q none 0
      some ⟨popped.queue, output, c.pBuffer, c.nOutBufferNum + 1, c.nBytesRead + c.nByteNeed, 0⟩
    else
      let e := { e with dataRead := e.dataRead + c.nByteNeed }
      some ⟨{ q with heap := Function.update q.heap first (some e) }, output, c.pBuffer,
        c.nOutBufferNum, c.nBytesRead + c.nByteNeed, 0⟩
  else
    let output ← memcpy c.output c.pBuffer (source e) e.size
    let q := { c.queue with
      heap := Function.update c.queue.heap first (some { e with size := 0 })
      totalDataSize := c.queue.totalDataSize - e.size }
    let popped ← popElementFromFront q none 0
    some ⟨popped.queue, output, c.pBuffer + e.size, c.nOutBufferNum + 1, c.nBytesRead + e.size,
      c.nByteNeed - e.size⟩

def crossLoop : Nat → Cross → Option Cross
  | 0, _ => none
  | rounds + 1, c => do
      let c ← crossStep c
      if c.nByteNeed = 0 ∨ c.queue.elementNum = 0 then some c else crossLoop rounds c

/-- The result of popDataCrossElement, with what it stores through
pBufferIsThrown, if anything, when that pointer is not null. -/
structure Crossed where
  queue : Queue
  output : Option (List UInt8)
  thrown : Option Nat
  rvalue : Nat

def popDataCrossElement (q : Queue) (pOutputBuffer : Option (List UInt8)) (nBytesToRead : Nat) :
    Option Crossed :=
  if q.elementNum ≠ 0 ∧ 0 < q.totalDataSize ∧ 0 < nBytesToRead then do
    let output ← pOutputBuffer
    let c ← crossLoop q.elementNum ⟨q, output, 0, 0, 0, nBytesToRead⟩
    some ⟨c.queue, some c.output, some c.nOutBufferNum, c.nBytesRead⟩
  else some ⟨q, pOutputBuffer, none, 0⟩

def removeLoop : Nat → Queue → Nat → Nat → Option (Queue × Nat)
  | 0, q, _, rvalue => if 0 < q.totalDataSize then none else some (q, rvalue)
  | rounds + 1, q, nByteNeed, rvalue =>
      if 0 < q.totalDataSize then do
        let first ← q.firstElement
        let e ← q.heap first
        if e.size ≥ nByteNeed then
          if e.size = nByteNeed then
            let popped ← popElementFromFront q none 0
            some (popped.queue, rvalue)
          else
            let e := { e with size := e.size - nByteNeed, dataRead := e.dataRead + nByteNeed }
            some ({ q with
              heap := Function.update q.heap first (some e)
              totalDataSize := q.totalDataSize - nByteNeed }, rvalue)
        else
          let popped ← popElementFromFront q none 0
          removeLoop rounds popped.queue (nByteNeed - e.size) (rvalue + 1)
      else some (q, rvalue)

def removeData (q : Queue) (nBytesToRemove : Nat) : Option (Queue × Nat) :=
  if 0 < q.elementNum ∧ 0 < q.totalDataSize ∧ 0 < nBytesToRemove then
    removeLoop q.elementNum q nBytesToRemove 1
  else some (q, 0)

def copyElements : Nat → Heap Addr Element → Option Addr → Nat → List UInt8 → Nat →
    Option (List UInt8)
  | _, _, none, _, buffer, _ => some buffer
  | 0, _, some _, remaind, buffer, _ => if 0 < remaind then none else some buffer
  | rounds + 1, h, some p, remaind, buffer, pB =>
      if 0 < remaind then do
        let e ← h p
        let buffer ← memcpy buffer pB (source e) e.size
        copyElements rounds h e.next (remaind - e.size) buffer (pB + e.size)
      else some buffer

/-- What is stored through ppBuf, unless that pointer is null, with the return
value. The allocator gives no buffer, or one with some bytes left in it. -/
def toOneBuffer (q : Queue) (ppBuf : Bool) (left : Option (Nat → UInt8)) :
    Option (Option (List UInt8) × Nat) :=
  match ppBuf, left with
  | true, some left => do
      let buffer ← copyElements q.elementNum q.heap q.firstElement q.totalDataSize
        (malloc q.totalDataSize left) 0
      some (some buffer, q.totalDataSize)
  | _, _ => some (none, 0)

def toOneBufferWithNullEnding (q : Queue) (ppBuf : Bool) (left : Option (Nat → UInt8)) :
    Option (Option (List UInt8) × Nat) :=
  match ppBuf, left with
  | true, some left => do
      let buffer ← copyElements q.elementNum q.heap q.firstElement q.totalDataSize
        ((malloc (q.totalDataSize + 1) left).set q.totalDataSize 0) 0
      some (some buffer, q.totalDataSize + 1)
  | _, _ => some (none, 0)

inductive Op
  | pushElementToFront (pData : Option (List UInt8)) (nDataSize : Nat) (elem : Option Addr)
      (data : Bool)
  | pushElementToLast (pData : Option (List UInt8)) (nDataSize : Nat) (elem : Option Addr)
      (data : Bool)
  | popElementFromFront (pBuffer : Option (List UInt8)) (nBufferSize : Nat)
  | popElementFromLast (pBuffer : Option (List UInt8)) (nBufferSize : Nat)
  | popDataCrossElement (pOutputBuffer : Option (List UInt8)) (nBytesToRead : Nat)
  | removeData (nBytesToRemove : Nat)
  | clear

def step (q : Queue) : Op → Option Queue
  | .pushElementToFront pData n elem data => (pushElementToFront q pData n elem data).map Prod.fst
  | .pushElementToLast pData n elem data => (pushElementToLast q pData n elem data).map Prod.fst
  | .popElementFromFront pBuffer n => (popElementFromFront q pBuffer n).map Popped.queue
  | .popElementFromLast pBuffer n => (popElementFromLast q pBuffer n).map Popped.queue
  | .popDataCrossElement pOutput n => (popDataCrossElement q pOutput n).map Crossed.queue
  | .removeData n => (removeData q n).map Prod.fst
  | .clear => (clear q).map Prod.fst

/-- What the caller and the allocator promise: source and target buffers have
the sizes that go with them, and a new element is at an address not in use. -/
def Permitted (q : Queue) : Op → Prop
  | .pushElementToFront pData n elem _ | .pushElementToLast pData n elem _ =>
      (∀ bytes ∈ pData, n ≤ bytes.length) ∧ ∀ a ∈ elem, q.heap a = none
  | .popElementFromFront pBuffer n | .popElementFromLast pBuffer n =>
      ∀ buffer ∈ pBuffer, n ≤ buffer.length
  | .popDataCrossElement pOutput n =>
      0 < q.elementNum → 0 < n → ∃ buffer ∈ pOutput, min n q.totalDataSize ≤ buffer.length
  | .removeData _ | .clear => True

end Ashe.BufferQueue
