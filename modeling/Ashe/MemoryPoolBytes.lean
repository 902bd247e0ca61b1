import Ashe.ByteMemory
import Ashe.MemoryPool

namespace Ashe.MemoryPoolBytes

open ByteMemory
open MemoryPool (Addr PoolId Call padPointer sizeofElement alignofElement bodySize)

structure Pool where
  dataElement : Addr
  freeElement : Addr

def newPool : Pool := ⟨0, 0⟩

def pre (m : Bytes) (elem : Addr) : Addr := loadPointer m elem

def next (m : Bytes) (elem : Addr) : Addr := loadPointer m (elem + sizeofPointer)

def setPre (m : Bytes) (elem p : Addr) : Bytes := storePointer m elem p

def setNext (m : Bytes) (elem p : Addr) : Bytes := storePointer m (elem + sizeofPointer) p

def memset (m : Bytes) (p : Addr) (byte : UInt8) (n : Nat) : Bytes :=
  store m p (List.replicate n byte)

section

variable (BlockSize : Nat) (ZeroOnDeallocate : Bool)

def allocateBlock (m : Bytes) (pool : Pool) (block : Addr) (left : List UInt8) : Bytes × Pool :=
  let m := store m (block + sizeofElement) left
  let m := setPre m block 0
  let m := setNext m block 0
  let m := if pool.dataElement ≠ 0 then setPre m pool.dataElement block else m
  let m := setNext m block pool.dataElement
  (m, { pool with dataElement := block })

def allocate (m : Bytes) (pool : Pool) (block : Addr) (left : List UInt8) : Bytes × Pool × Addr :=
  if pool.freeElement ≠ 0 then
    let body := pool.freeElement + sizeofElement
    let bodyPadding := padPointer body alignofElement
    let result := body + bodyPadding
    let tmp := pool.freeElement
    let freeElement := next m pool.freeElement
    let m := if freeElement ≠ 0 then setPre m freeElement 0 else m
    let m := setNext m tmp pool.dataElement
    let m := if pool.dataElement ≠ 0 then setPre m pool.dataElement tmp else m
    let m := setPre m tmp 0
    (m, ⟨tmp, freeElement⟩, result)
  else
    let (m, pool) := allocateBlock m pool block left
    let body := pool.dataElement + sizeofElement
    let bodyPadding := padPointer body alignofElement
    let result := body + bodyPadding
    (m, pool, result)

def deallocate (m : Bytes) (pool : Pool) (p : Addr) : Bytes × Pool :=
  if p ≠ 0 then
    let elem := p - sizeofElement
    let m := if ZeroOnDeallocate then memset m p 0 (BlockSize - sizeofElement) else m
    let m := if pre m elem ≠ 0 then setNext m (pre m elem) (next m elem) else m
    let m := if next m elem ≠ 0 then setPre m (next m elem) (pre m elem) else m
    let dataElement := if pre m elem = 0 then next m elem else pool.dataElement
    let m := setPre m elem 0
    let m :=
      if pool.freeElement ≠ 0 then
        let m := setNext m elem pool.freeElement
        setPre m pool.freeElement elem
      else setNext m elem 0
    (m, ⟨dataElement, elem⟩)
  else (m, pool)

/-- One of the two loops of the destructor, with the blocks it gives back to
operator delete. The fuel counts its turns. -/
def deleteAll : Nat → Bytes → Addr → Option (List Addr)
  | 0, _, curr => if curr = 0 then some [] else none
  | fuel + 1, m, curr =>
      if curr = 0 then some []
      else do
        let prev := next m curr
        let deleted ← deleteAll fuel m prev
        some (curr :: deleted)

def destroy (fuel : Nat) (m : Bytes) (pool : Pool) : Option (List Addr) := do
  let data ← deleteAll fuel m pool.dataElement
  let free ← deleteAll fuel m pool.freeElement
  some (data ++ free)

end

/-- All pools over one memory, with the blocks that operator new gave out and
operator delete did not take back. -/
structure State where
  memory : Bytes
  live : List Addr
  pools : PoolId → Option Pool
  outstanding : Addr → Option PoolId

def initial (memory : Bytes) : State := ⟨memory, [], fun _ => none, fun _ => none⟩

def State.moved (s : State) (f : PoolId → PoolId) : Addr → Option PoolId :=
  fun p => (s.outstanding p).map f

def State.grown (s : State) (pool : Pool) (block : Addr) : List Addr :=
  if pool.freeElement ≠ 0 then s.live else block :: s.live

section

variable (BlockSize : Nat) (ZeroOnDeallocate : Bool)

def apply (s : State) : Call → Option State
  | .create id => some { s with pools := Function.update s.pools id (some newPool) }
  | .allocate id block left => do
      let pool ← s.pools id
      let (m, pool', p) := allocate s.memory pool block left
      some ⟨m, s.grown pool block, Function.update s.pools id (some pool'),
        Function.update s.outstanding p (some id)⟩
  | .deallocate id p => do
      let pool ← s.pools id
      let (m, pool) := deallocate BlockSize ZeroOnDeallocate s.memory pool (p.getD 0)
      some ⟨m, s.live, Function.update s.pools id (some pool), match p with
        | none => s.outstanding
        | some p => Function.update s.outstanding p none⟩
  | .moveConstruct id source => do
      let pool ← s.pools source
      some { s with
        pools := Function.update (Function.update s.pools id (some pool)) source (some newPool)
        outstanding := s.moved fun owner => if owner = source then id else owner }
  | .moveAssign id source =>
      if id = source then some s
      else do
        let pool ← s.pools id
        let other ← s.pools source
        some { s with
          pools := Function.update (Function.update s.pools id (some other)) source (some pool)
          outstanding := s.moved fun owner =>
            if owner = id then source else if owner = source then id else owner }
  | .destroy id turns => do
      let pool ← s.pools id
      let deleted ← destroy turns s.memory pool
      some ⟨s.memory, s.live.filter (· ∉ deleted), Function.update s.pools id none,
        fun p => if s.outstanding p = some id then none else s.outstanding p⟩
  | .write p body => some { s with memory := store s.memory p body }

/-- What operator new is promised to give: an aligned block of BlockSize bytes
that is apart from every block in use. -/
structure Fresh (s : State) (block : Addr) (left : List UInt8) : Prop where
  notNull : block ≠ 0
  aligned : alignofElement ∣ block
  fits : block + BlockSize ≤ 2 ^ 64
  apart : ∀ b ∈ s.live, Apart block BlockSize b BlockSize
  left : left.length = bodySize BlockSize

def Legal (s : State) : Call → Prop
  | .create id => s.pools id = none
  | .allocate id block left =>
      ∃ pool ∈ s.pools id, pool.freeElement = 0 → Fresh BlockSize s block left
  | .deallocate id p => s.pools id ≠ none ∧ ∀ q ∈ p, s.outstanding q = some id
  | .moveConstruct id source => s.pools id = none ∧ s.pools source ≠ none
  | .moveAssign id source => s.pools id ≠ none ∧ s.pools source ≠ none
  | .destroy id _ => s.pools id ≠ none
  | .write p body => s.outstanding p ≠ none ∧ body.length = bodySize BlockSize

instance (a n b k : Nat) : Decidable (Apart a n b k) :=
  inferInstanceAs (Decidable (a + n ≤ b ∨ b + k ≤ a))

instance (s : State) (block : Addr) (left : List UInt8) :
    Decidable (Fresh BlockSize s block left) :=
  decidable_of_iff (block ≠ 0 ∧ alignofElement ∣ block ∧ block + BlockSize ≤ 2 ^ 64 ∧
    (∀ b ∈ s.live, Apart block BlockSize b BlockSize) ∧ left.length = bodySize BlockSize)
    ⟨fun ⟨h1, h2, h3, h4, h5⟩ => ⟨h1, h2, h3, h4, h5⟩,
      fun h => ⟨h.notNull, h.aligned, h.fits, h.apart, h.left⟩⟩

instance (s : State) : (c : Call) → Decidable (Legal BlockSize s c)
  | .create id => inferInstanceAs (Decidable (s.pools id = none))
  | .allocate id block left => inferInstanceAs (Decidable (∃ pool ∈ s.pools id,
      pool.freeElement = 0 → Fresh BlockSize s block left))
  | .deallocate id p => inferInstanceAs
      (Decidable (s.pools id ≠ none ∧ ∀ q ∈ p, s.outstanding q = some id))
  | .moveConstruct id source => inferInstanceAs
      (Decidable (s.pools id = none ∧ s.pools source ≠ none))
  | .moveAssign id source => inferInstanceAs
      (Decidable (s.pools id ≠ none ∧ s.pools source ≠ none))
  | .destroy id _ => inferInstanceAs (Decidable (s.pools id ≠ none))
  | .write p body => inferInstanceAs
      (Decidable (s.outstanding p ≠ none ∧ body.length = bodySize BlockSize))

end

end Ashe.MemoryPoolBytes
