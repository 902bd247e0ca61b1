import Ashe.LinkedCells
import Ashe.Runs
import Mathlib.Algebra.Group.Nat.Defs

namespace Ashe.MemoryPool

open LinkedCells

abbrev Addr := Nat

abbrev PoolId := Nat

/-- A block that operator new gave out: its header Element_, and the bytes
behind the header. -/
structure Block where
  pre : Option Addr
  next : Option Addr
  body : List UInt8

structure Pool where
  dataElement : Option Addr
  freeElement : Option Addr

abbrev Memory := Heap Addr Block

def sizeofElement : Nat := 16

def alignofElement : Nat := 8

def padPointer (p align : Nat) : Nat := ((align + 2 ^ 64 - p) % 2 ^ 64) % align

def bodyOf (block : Addr) : Addr :=
  let body := block + sizeofElement
  body + padPointer body alignofElement

def newPool : Pool := ⟨none, none⟩

section

variable (BlockSize : Nat) (ZeroOnDeallocate : Bool)

def bodySize : Nat := BlockSize - sizeofElement

/-- Operator new gives a block, with the bytes that were left in it. -/
def allocateBlock (m : Memory) (pool : Pool) (block : Addr) (left : List UInt8) :
    Option (Memory × Pool) := do
  let m ← alloc m block ⟨none, none, left⟩
  let m ← modifyIf m pool.dataElement (fun e => { e with pre := some block })
  let m ← modify m block (fun e => { e with next := pool.dataElement })
  some (m, { pool with dataElement := some block })

/-- The memory and the pool afterwards, and the pointer that the caller gets.
There is no result when the code uses a block that is not there. -/
def allocate (m : Memory) (pool : Pool) (block : Addr) (left : List UInt8) :
    Option (Memory × Pool × Addr) :=
  match pool.freeElement with
  | some tmp => do
      let e ← m tmp
      let freeElement := e.next
      let m ← modifyIf m freeElement (fun e => { e with pre := none })
      let m ← modify m tmp (fun e => { e with next := pool.dataElement })
      let m ← modifyIf m pool.dataElement (fun e => { e with pre := some tmp })
      let m ← modify m tmp (fun e => { e with pre := none })
      some (m, ⟨some tmp, freeElement⟩, bodyOf tmp)
  | none => do
      let (m, pool) ← allocateBlock m pool block left
      some (m, pool, bodyOf block)

def zeroBody (m : Memory) (elem : Addr) : Option Memory :=
  if ZeroOnDeallocate then
    modify m elem (fun e => { e with body := List.replicate (bodySize BlockSize) 0 })
  else some m

def deallocate (m : Memory) (pool : Pool) (p : Option Addr) : Option (Memory × Pool) :=
  match p with
  | none => some (m, pool)
  | some p => do
      let elem := p - sizeofElement
      let m ← zeroBody BlockSize ZeroOnDeallocate m elem
      let e ← m elem
      let m ← modifyIf m e.pre (fun f => { f with next := e.next })
      let e ← m elem
      let m ← modifyIf m e.next (fun f => { f with pre := e.pre })
      let e ← m elem
      let dataElement := if e.pre = none then e.next else pool.dataElement
      let m ← modify m elem (fun e => { e with pre := none })
      let m ← modify m elem (fun e => { e with next := pool.freeElement })
      let m ← modifyIf m pool.freeElement (fun e => { e with pre := some elem })
      some (m, ⟨dataElement, some elem⟩)

/-- One of the two loops of the destructor, with the blocks it gives back to
operator delete. The fuel counts its turns. -/
def deleteAll : Nat → Memory → Option Addr → Option (Memory × List Addr)
  | _, m, none => some (m, [])
  | 0, _, some _ => none
  | fuel + 1, m, some curr => do
      let e ← m curr
      let m ← free m curr
      let (m, deleted) ← deleteAll fuel m e.next
      some (m, curr :: deleted)

def destroy (fuel : Nat) (m : Memory) (pool : Pool) : Option (Memory × List Addr) := do
  let (m, data) ← deleteAll fuel m pool.dataElement
  let (m, free) ← deleteAll fuel m pool.freeElement
  some (m, data ++ free)

end

/-- All pools over one memory. An id is the address of a pool object, and
outstanding says which pool owns the block behind a pointer that allocate has
returned and nobody has given back. -/
structure State where
  memory : Memory
  pools : PoolId → Option Pool
  outstanding : Addr → Option PoolId

def initial : State := ⟨fun _ => none, fun _ => none, fun _ => none⟩

inductive Call
  | create (id : PoolId)
  | allocate (id : PoolId) (block : Addr) (left : List UInt8)
  | deallocate (id : PoolId) (p : Option Addr)
  | moveConstruct (id : PoolId) (source : PoolId)
  | moveAssign (id : PoolId) (source : PoolId)
  | destroy (id : PoolId) (turns : Nat)
  | write (p : Addr) (body : List UInt8)

/-- The owners after blocks have gone over from one pool to another. -/
def State.moved (s : State) (f : PoolId → PoolId) : Addr → Option PoolId :=
  fun p => (s.outstanding p).map f

section

variable (BlockSize : Nat) (ZeroOnDeallocate : Bool)

def apply (s : State) : Call → Option State
  | .create id => some { s with pools := Function.update s.pools id (some newPool) }
  | .allocate id block left => do
      let pool ← s.pools id
      let (m, pool, p) ← allocate s.memory pool block left
      some ⟨m, Function.update s.pools id (some pool),
        Function.update s.outstanding p (some id)⟩
  | .deallocate id p => do
      let pool ← s.pools id
      let (m, pool) ← deallocate BlockSize ZeroOnDeallocate s.memory pool p
      some ⟨m, Function.update s.pools id (some pool), match p with
        | none => s.outstanding
        | some p => Function.update s.outstanding p none⟩
  | .moveConstruct id source => do
      let pool ← s.pools source
      some ⟨s.memory,
        Function.update (Function.update s.pools id (some pool)) source (some newPool),
        s.moved fun owner => if owner = source then id else owner⟩
  | .moveAssign id source =>
      if id = source then some s
      else do
        let pool ← s.pools id
        let other ← s.pools source
        some ⟨s.memory,
          Function.update (Function.update s.pools id (some other)) source (some pool),
          s.moved fun owner => if owner = id then source else if owner = source then id else owner⟩
  | .destroy id turns => do
      let pool ← s.pools id
      let (m, _) ← destroy turns s.memory pool
      some ⟨m, Function.update s.pools id none,
        fun p => if s.outstanding p = some id then none else s.outstanding p⟩
  | .write p body => do
      let m ← modify s.memory (p - sizeofElement) (fun e => { e with body := body })
      some { s with memory := m }

/-- What a caller and operator new are promised to do. A new block is at an
aligned address, so that its body needs no padding. -/
def Legal (s : State) : Call → Prop
  | .create id => s.pools id = none
  | .allocate id block left => ∃ pool ∈ s.pools id, pool.freeElement = none →
      s.memory block = none ∧ alignofElement ∣ block ∧ left.length = bodySize BlockSize
  | .deallocate id p => s.pools id ≠ none ∧ ∀ q ∈ p, s.outstanding q = some id
  | .moveConstruct id source => s.pools id = none ∧ s.pools source ≠ none
  | .moveAssign id source => s.pools id ≠ none ∧ s.pools source ≠ none
  | .destroy id _ => s.pools id ≠ none
  | .write p body => s.outstanding p ≠ none ∧ body.length = bodySize BlockSize

instance (s : State) : (c : Call) → Decidable (Legal BlockSize s c)
  | .create id => inferInstanceAs (Decidable (s.pools id = none))
  | .allocate id block left => inferInstanceAs (Decidable (∃ pool ∈ s.pools id,
      pool.freeElement = none →
        s.memory block = none ∧ alignofElement ∣ block ∧ left.length = bodySize BlockSize))
  | .deallocate id p => inferInstanceAs
      (Decidable (s.pools id ≠ none ∧ ∀ q ∈ p, s.outstanding q = some id))
  | .moveConstruct id source => inferInstanceAs
      (Decidable (s.pools id = none ∧ s.pools source ≠ none))
  | .moveAssign id source => inferInstanceAs
      (Decidable (s.pools id ≠ none ∧ s.pools source ≠ none))
  | .destroy id _ => inferInstanceAs (Decidable (s.pools id ≠ none))
  | .write p body => inferInstanceAs
      (Decidable (s.outstanding p ≠ none ∧ body.length = bodySize BlockSize))

end

end Ashe.MemoryPool
