import Ashe.MemoryPoolBodies
import Ashe.MemoryPoolStored

namespace Ashe.MemoryPoolFrame

open Runs ByteMemory MemoryPoolBytes MemoryPoolStored
open MemoryPool (Call PoolId bodySize sizeofElement)
open MemoryPoolBodies (bodies bodies_ne_none Cleared)
open MemoryPoolPartition (Layouts Represents)

def PoolsAt (pools : PoolId → Option MemoryPool.Pool) (poolsB : PoolId → Option Pool) : Prop :=
  ∀ id, (pools id = none ∧ poolsB id = none) ∨
    ∃ pool poolB, pools id = some pool ∧ poolsB id = some poolB ∧ PoolAt pool poolB

/-- The blocks, their links and their bodies are the bytes of the memory. -/
structure Simulates (BlockSize : Nat) (s : MemoryPool.State) (b : State) : Prop where
  stored : Stored BlockSize s.memory b.memory
  live : ∀ a, a ∈ b.live ↔ s.memory a ≠ none
  pools : PoolsAt s.pools b.pools
  outstanding : b.outstanding = s.outstanding

section

variable {pools : PoolId → Option MemoryPool.Pool} {poolsB : PoolId → Option Pool} {id : PoolId}

theorem PoolsAt.none_iff (h : PoolsAt pools poolsB) : pools id = none ↔ poolsB id = none := by
  obtain ⟨hn, hnB⟩ | ⟨pool, poolB, hp, hpB, -⟩ := h id
  · simp [hn, hnB]
  · simp [hp, hpB]

theorem PoolsAt.pool (h : PoolsAt pools poolsB) {poolB : Pool} (hpB : poolsB id = some poolB) :
    ∃ pool, pools id = some pool ∧ PoolAt pool poolB := by
  obtain ⟨-, hnB⟩ | ⟨pool, poolB', hp, hpB', hat⟩ := h id
  · exact absurd (hnB.symm.trans hpB) (by simp)
  · obtain rfl := Option.some.inj (hpB.symm.trans hpB')
    exact ⟨pool, hp, hat⟩

theorem PoolsAt.update (h : PoolsAt pools poolsB) (id : PoolId) {pool : MemoryPool.Pool}
    {poolB : Pool} (hat : PoolAt pool poolB) :
    PoolsAt (Function.update pools id (some pool)) (Function.update poolsB id (some poolB)) := by
  intro id'
  by_cases hid : id' = id
  · rw [hid, Function.update_self, Function.update_self]
    exact .inr ⟨pool, poolB, rfl, rfl, hat⟩
  · rw [Function.update_of_ne hid, Function.update_of_ne hid]
    exact h id'

theorem PoolsAt.erase (h : PoolsAt pools poolsB) (id : PoolId) :
    PoolsAt (Function.update pools id none) (Function.update poolsB id none) := by
  intro id'
  by_cases hid : id' = id
  · rw [hid, Function.update_self, Function.update_self]
    exact .inl ⟨rfl, rfl⟩
  · rw [Function.update_of_ne hid, Function.update_of_ne hid]
    exact h id'

theorem newPool_at : PoolAt MemoryPool.newPool newPool := ⟨rfl, rfl, valid_none, valid_none⟩

end

variable {BlockSize : Nat} {ZeroOnDeallocate : Bool} {s s' : MemoryPool.State} {b b' : State}
  {A : Layouts} {id : PoolId}

theorem Simulates.body (h : Simulates BlockSize s b) {a : Nat} {body : List UInt8}
    (hb : bodies s.memory a = some body) :
    read b.memory (a + sizeofElement) (bodySize BlockSize) = body := by
  obtain ⟨e, he, rfl⟩ := Option.map_eq_some_iff.mp hb
  exact (h.stored.cells a e he).body

theorem Simulates.legal (h : Simulates BlockSize s b) (hsize : 2 * sizeofElement ≤ BlockSize)
    {c : Call} (hlegal : Legal BlockSize b c) : MemoryPool.Legal BlockSize s c := by
  cases c with
  | create id => exact h.pools.none_iff.mpr hlegal
  | allocate id block left =>
      obtain ⟨poolB, hpB, hnew⟩ := hlegal
      obtain ⟨pool, hp, hat⟩ := h.pools.pool hpB
      refine ⟨pool, hp, fun hfree => ?_⟩
      have hfresh := hnew (by rw [hat.free, hfree]; rfl)
      refine ⟨Classical.not_not.mp fun hlive => ?_, hfresh.aligned, hfresh.left⟩
      have hself := hfresh.apart block ((h.live block).mpr hlive)
      have h16 : sizeofElement = 16 := rfl
      rw [Apart] at hself
      omega
  | deallocate id p => exact ⟨h.pools.none_iff.not.mpr hlegal.1, h.outstanding ▸ hlegal.2⟩
  | moveConstruct id source =>
      exact ⟨h.pools.none_iff.mpr hlegal.1, h.pools.none_iff.not.mpr hlegal.2⟩
  | moveAssign id source =>
      exact ⟨h.pools.none_iff.not.mpr hlegal.1, h.pools.none_iff.not.mpr hlegal.2⟩
  | destroy id turns => exact h.pools.none_iff.not.mpr hlegal
  | write p body => exact ⟨h.outstanding ▸ hlegal.1, hlegal.2⟩

theorem Simulates.allocate (h : Simulates BlockSize s b) (hA : Represents s A)
    (hsize : 2 * sizeofElement ≤ BlockSize) {block : Nat} {left : List UInt8} {poolB : Pool}
    (hpB : b.pools id = some poolB) (hlegal : Legal BlockSize b (.allocate id block left)) :
    ∃ pool m pool' p mem poolB', s.pools id = some pool ∧
      MemoryPool.allocate s.memory pool block left = some (m, pool', p) ∧
      MemoryPoolBytes.allocate b.memory poolB block left = (mem, poolB', p) ∧
      s.outstanding p = none ∧
      (pool.freeElement = none ↔ poolB.freeElement = 0) ∧
      Simulates BlockSize
        ⟨m, Function.update s.pools id (some pool'), Function.update s.outstanding p (some id)⟩
        ⟨mem, b.grown poolB block, Function.update b.pools id (some poolB'),
          Function.update b.outstanding p (some id)⟩ := by
  obtain ⟨pool, m, pool', p, l, hp, ha, hnone, -⟩ :=
    MemoryPoolPartition.allocate_represents BlockSize hA (h.legal hsize hlegal)
  obtain ⟨pool1, hp1, hat⟩ := h.pools.pool hpB
  obtain rfl := Option.some.inj (hp.symm.trans hp1)
  have hfree : pool.freeElement = none ↔ poolB.freeElement = 0 := by
    rw [hat.free, hat.validFree.pointer_eq_zero]
  have hbytes : ∃ mem poolB',
      MemoryPoolBytes.allocate b.memory poolB block left = (mem, poolB', p) ∧
      Stored BlockSize m mem ∧ PoolAt pool' poolB' := by
    cases hf : pool.freeElement with
    | some tmp => exact allocate_reuse h.stored hsize hat hf ha
    | none =>
        obtain ⟨poolB1, hpB1, hnew⟩ := hlegal
        obtain rfl := Option.some.inj (hpB.symm.trans hpB1)
        have hfresh := hnew (hfree.mp hf)
        exact allocate_new h.stored hsize hat hf ⟨Nat.pos_of_ne_zero hfresh.notNull, hfresh.fits⟩
          (fun a hlive => hfresh.apart a ((h.live a).mpr hlive)) hfresh.left ha
  obtain ⟨mem, poolB', haB, hstored, hat'⟩ := hbytes
  refine ⟨pool, m, pool', p, mem, poolB', hp, ha, haB, hnone, hfree, hstored, fun a => ?_,
    h.pools.update id hat', by rw [h.outstanding]⟩
  dsimp only
  rw [← bodies_ne_none, MemoryPoolBodies.allocate_bodies ha, State.grown]
  by_cases hf : poolB.freeElement = 0
  · rw [if_pos (hfree.mpr hf), if_neg (not_not_intro hf), List.mem_cons, h.live a]
    by_cases hab : a = block
    · simp [hab]
    · rw [Function.update_of_ne hab, bodies_ne_none]
      exact or_iff_right hab
  · rw [if_neg (hfree.not.mpr hf), if_pos hf, h.live a, bodies_ne_none]

theorem Simulates.deallocate (ZeroOnDeallocate : Bool) (h : Simulates BlockSize s b)
    (hA : Represents s A) (hsize : 2 * sizeofElement ≤ BlockSize) {p : Nat} {poolB : Pool}
    (hpB : b.pools id = some poolB) (howned : b.outstanding p = some id) :
    ∃ pool m pool' a mem poolB', s.pools id = some pool ∧ p = a + sizeofElement ∧
      MemoryPool.deallocate BlockSize ZeroOnDeallocate s.memory pool (some p) =
        some (m, pool') ∧
      MemoryPoolBytes.deallocate BlockSize ZeroOnDeallocate b.memory poolB p = (mem, poolB') ∧
      Simulates BlockSize
        ⟨m, Function.update s.pools id (some pool'), Function.update s.outstanding p none⟩
        ⟨mem, b.live, Function.update b.pools id (some poolB'),
          Function.update b.outstanding p none⟩ := by
  rw [h.outstanding] at howned
  obtain ⟨pool, m, pool', l, hp, hd, -⟩ :=
    MemoryPoolPartition.deallocate_represents BlockSize ZeroOnDeallocate hA howned
  obtain ⟨l', a, hl, ha, rfl⟩ := (hA.owned p id).mp howned
  obtain ⟨pool1, hp1, hat⟩ := h.pools.pool hpB
  obtain rfl := Option.some.inj (hp.symm.trans hp1)
  obtain ⟨mem, poolB', hdB, hstored, hat'⟩ := deallocate_stored h.stored hsize hat hd
  refine ⟨pool, m, pool', a, mem, poolB', hp, rfl, hd, hdB, hstored, fun c => ?_,
    h.pools.update id hat', by rw [h.outstanding]⟩
  have halloc := hA.partition.allocated hl (List.mem_append_left _ ha)
  dsimp only
  rw [h.live c, ← bodies_ne_none, ← bodies_ne_none, MemoryPoolBodies.deallocate_bodies hd]
  split
  next =>
    by_cases hca : c = a
    · rw [hca, Function.update_self, bodies_ne_none]
      simp [halloc]
    · rw [Function.update_of_ne hca]
  next => exact Iff.rfl

/-- The destructor may take a different number of turns in the two models, but
it gives the same blocks back. -/
theorem Simulates.destroy (h : Simulates BlockSize s b) (hA : Represents s A) {turns : Nat}
    {poolB : Pool} {deleted : List Nat} (hpB : b.pools id = some poolB)
    (hd : MemoryPoolBytes.destroy turns b.memory poolB = some deleted) :
    ∃ pool m turns', s.pools id = some pool ∧
      MemoryPool.destroy turns' s.memory pool = some (m, deleted) ∧
      Simulates BlockSize
        ⟨m, Function.update s.pools id none,
          fun p => if s.outstanding p = some id then none else s.outstanding p⟩
        ⟨b.memory, b.live.filter (· ∉ deleted), Function.update b.pools id none,
          fun p => if b.outstanding p = some id then none else b.outstanding p⟩ := by
  obtain ⟨pool, hp, hat⟩ := h.pools.pool hpB
  obtain ⟨l, m, -, hdestroy, hgone, hframe, -⟩ := MemoryPoolPartition.destroy_represents hA hp
  obtain ⟨hdB, hstored⟩ := destroy_stored h.stored hat (hdestroy _ (Nat.le_refl _))
  obtain rfl := (destroy_steady b.memory poolB).unique ⟨turns, hd⟩ ⟨_, hdB⟩
  refine ⟨pool, m, _, hp, hdestroy _ (Nat.le_refl _), hstored, fun a => ?_, h.pools.erase id,
    by rw [h.outstanding]⟩
  rw [List.mem_filter, h.live a, decide_eq_true_iff]
  by_cases ha : a ∈ l.blocks
  · simp [ha, hgone a ha]
  · simp [ha, hframe a ha]

theorem Simulates.write (h : Simulates BlockSize s b) (hA : Represents s A)
    (hsize : 2 * sizeofElement ≤ BlockSize) {p : Nat} {body : List UInt8}
    (howned : b.outstanding p = some id) (hbody : body.length = bodySize BlockSize) :
    ∃ m, LinkedCells.modify s.memory (p - sizeofElement) (fun e => { e with body := body }) =
        some m ∧
      Simulates BlockSize { s with memory := m } { b with memory := store b.memory p body } := by
  rw [h.outstanding] at howned
  obtain ⟨m, l, hw, -⟩ := MemoryPoolPartition.write_represents hA body howned
  obtain ⟨-, a, -, -, rfl⟩ := (hA.owned p id).mp howned
  refine ⟨m, hw, ?_⟩
  rw [Nat.add_sub_cancel] at hw
  refine ⟨h.stored.setBody hsize hbody hw, fun c => ?_, h.pools, h.outstanding⟩
  obtain ⟨e, he, rfl⟩ := Option.map_eq_some_iff.mp hw
  rw [h.live c]
  by_cases hca : c = a
  · simp [hca, he]
  · dsimp only
    rw [Function.update_of_ne hca]

theorem Simulates.repool (h : Simulates BlockSize s b) {pools : PoolId → Option MemoryPool.Pool}
    {poolsB : PoolId → Option Pool} (hp : PoolsAt pools poolsB) {o oB : Nat → Option PoolId}
    (ho : oB = o) : Simulates BlockSize ⟨s.memory, pools, o⟩ ⟨b.memory, b.live, poolsB, oB⟩ :=
  ⟨h.stored, h.live, hp, ho⟩

theorem Simulates.moved (h : Simulates BlockSize s b) (f : PoolId → PoolId) :
    b.moved f = s.moved f := by
  funext p
  rw [State.moved, MemoryPool.State.moved, h.outstanding]

theorem apply_simulates (h : Simulates BlockSize s b) (hA : Represents s A)
    (hsize : 2 * sizeofElement ≤ BlockSize) {c : Call} (hlegal : Legal BlockSize b c)
    (hb : apply BlockSize ZeroOnDeallocate b c = some b') :
    ∃ c' s', MemoryPool.Legal BlockSize s c' ∧
      MemoryPool.apply BlockSize ZeroOnDeallocate s c' = some s' ∧ Simulates BlockSize s' b' := by
  have hlegal' := h.legal hsize hlegal
  cases c with
  | create id =>
      obtain rfl := Option.some.inj hb
      exact ⟨_, _, hlegal', rfl, h.repool (h.pools.update id newPool_at) h.outstanding⟩
  | allocate id block left =>
      simp only [apply, Option.bind_eq_bind, Option.bind_eq_some_iff] at hb
      obtain ⟨poolB, hpB, hb⟩ := hb
      obtain ⟨pool, m, pool', p, mem, poolB', hp, ha, haB, -, -, h'⟩ :=
        h.allocate hA hsize hpB hlegal
      rw [haB] at hb
      obtain rfl := Option.some.inj hb
      refine ⟨_, _, hlegal', ?_, h'⟩
      simp only [MemoryPool.apply, hp, ha, Option.bind_eq_bind, Option.bind_some]
  | deallocate id p =>
      simp only [apply, Option.bind_eq_bind, Option.bind_eq_some_iff] at hb
      obtain ⟨poolB, hpB, hb⟩ := hb
      cases p with
      | none =>
          obtain ⟨pool, hp, hat⟩ := h.pools.pool hpB
          have hnull : MemoryPoolBytes.deallocate BlockSize ZeroOnDeallocate b.memory poolB
              (none.getD 0) = (b.memory, poolB) := rfl
          rw [hnull] at hb
          obtain rfl := Option.some.inj hb
          refine ⟨_, _, hlegal', ?_, h.repool (h.pools.update id hat) h.outstanding⟩
          simp only [MemoryPool.apply, hp, MemoryPool.deallocate, Option.bind_eq_bind,
            Option.bind_some]
      | some p =>
          obtain ⟨pool, m, pool', a, mem, poolB', hp, -, hd, hdB, h'⟩ :=
            h.deallocate ZeroOnDeallocate hA hsize hpB (hlegal.2 p rfl)
          rw [Option.getD_some, hdB] at hb
          obtain rfl := Option.some.inj hb
          refine ⟨_, _, hlegal', ?_, h'⟩
          simp only [MemoryPool.apply, hp, hd, Option.bind_eq_bind, Option.bind_some]
  | moveConstruct id source =>
      simp only [apply, Option.bind_eq_bind, Option.bind_eq_some_iff] at hb
      obtain ⟨poolB, hpB, hb⟩ := hb
      obtain ⟨pool, hp, hat⟩ := h.pools.pool hpB
      obtain rfl := Option.some.inj hb
      refine ⟨_, _, hlegal', ?_,
        h.repool ((h.pools.update id hat).update source newPool_at) (h.moved _)⟩
      simp only [MemoryPool.apply, hp, Option.bind_eq_bind, Option.bind_some]
  | moveAssign id source =>
      rw [apply] at hb
      split at hb
      next hsame =>
        obtain rfl := Option.some.inj hb
        exact ⟨_, s, hlegal', by rw [MemoryPool.apply, if_pos hsame], h⟩
      next hne =>
        simp only [Option.bind_eq_bind, Option.bind_eq_some_iff] at hb
        obtain ⟨poolB, hpB, otherB, hoB, hb⟩ := hb
        obtain ⟨pool, hp, hat⟩ := h.pools.pool hpB
        obtain ⟨other, ho, hoat⟩ := h.pools.pool hoB
        obtain rfl := Option.some.inj hb
        refine ⟨_, _, hlegal', ?_,
          h.repool ((h.pools.update id hoat).update source hat) (h.moved _)⟩
        simp only [MemoryPool.apply, if_neg hne, hp, ho, Option.bind_eq_bind, Option.bind_some]
  | destroy id turns =>
      simp only [apply, Option.bind_eq_bind, Option.bind_eq_some_iff] at hb
      obtain ⟨poolB, hpB, deleted, hd, hb⟩ := hb
      obtain ⟨pool, m, turns', hp, hdestroy, h'⟩ := h.destroy hA hpB hd
      obtain rfl := Option.some.inj hb
      refine ⟨.destroy id turns', _, hlegal', ?_, h'⟩
      simp only [MemoryPool.apply, hp, hdestroy, Option.bind_eq_bind, Option.bind_some]
  | write p body =>
      obtain ⟨id, ho⟩ := Option.ne_none_iff_exists'.mp hlegal.1
      obtain ⟨m, hw, h'⟩ := h.write hA hsize ho hlegal.2
      obtain rfl := Option.some.inj hb
      refine ⟨_, _, hlegal', ?_, h'⟩
      simp only [MemoryPool.apply, hw, Option.bind_eq_bind, Option.bind_some]

def Kept (BlockSize : Nat) (ZeroOnDeallocate : Bool) (b : State) : Prop :=
  ∃ s A, Simulates BlockSize s b ∧ Represents s A ∧
    (ZeroOnDeallocate = true → Cleared BlockSize s.memory s.outstanding)

theorem initial_kept (memory : Bytes) : Kept BlockSize ZeroOnDeallocate (initial memory) := by
  refine ⟨MemoryPool.initial, _, ⟨⟨?_, ?_, ?_⟩, ?_, fun _ => .inl ⟨rfl, rfl⟩, rfl⟩,
    MemoryPoolPartition.initial_represents, fun _ a body _ hb => absurd hb (by simp [bodies,
      MemoryPool.initial])⟩
  all_goals simp [MemoryPool.initial, initial]

theorem apply_kept (hsize : 2 * sizeofElement ≤ BlockSize)
    (h : Kept BlockSize ZeroOnDeallocate b) {c : Call} (hlegal : Legal BlockSize b c)
    (hb : apply BlockSize ZeroOnDeallocate b c = some b') :
    Kept BlockSize ZeroOnDeallocate b' := by
  obtain ⟨s, A, hsim, hA, hclear⟩ := h
  obtain ⟨c', s', hlegal', hs, hsim'⟩ := apply_simulates hsim hA hsize hlegal hb
  obtain ⟨A', hA'⟩ := MemoryPoolPartition.apply_represents hA hlegal' hs
  refine ⟨s', A', hsim', hA', ?_⟩
  rintro rfl
  exact MemoryPoolBodies.apply_cleared hA (hclear rfl) hlegal' hs

theorem run_kept (hsize : 2 * sizeofElement ≤ BlockSize) {memory : Bytes} {calls : List Call}
    (hlegal : Along (apply BlockSize ZeroOnDeallocate) (fun s c _ => Legal BlockSize s c)
      (initial memory) calls)
    (hs : exec (apply BlockSize ZeroOnDeallocate) (initial memory) calls = some b) :
    Kept BlockSize ZeroOnDeallocate b := by
  refine exec_of_invariant (I := Kept BlockSize ZeroOnDeallocate) ?_ (initial_kept memory) hlegal hs
  intro b c b' h hl hb
  exact apply_kept hsize h hl hb

/-- A body that both memories of blocks have is the same bytes in both. -/
theorem Simulates.frame (h : Simulates BlockSize s b) (h' : Simulates BlockSize s' b') {a : Nat}
    (hlive : s.memory a ≠ none) (hframe : bodies s'.memory a = bodies s.memory a) :
    read b'.memory (a + sizeofElement) (bodySize BlockSize) =
      read b.memory (a + sizeofElement) (bodySize BlockSize) := by
  obtain ⟨body, hbody⟩ := Option.ne_none_iff_exists'.mp (bodies_ne_none.mpr hlive)
  rw [h.body hbody, h'.body (hframe.trans hbody)]

/-- A pointer that somebody holds is to a block that is allocated. -/
theorem Simulates.held (h : Simulates BlockSize s b) (hA : Represents s A) {q : Nat}
    (hq : b.outstanding q ≠ none) : ∃ a, q = a + sizeofElement ∧ s.memory a ≠ none := by
  obtain ⟨id, ho⟩ := Option.ne_none_iff_exists'.mp (h.outstanding ▸ hq)
  obtain ⟨l, a, hl, ha, rfl⟩ := (hA.owned q id).mp ho
  exact ⟨a, rfl, hA.partition.allocated hl (List.mem_append_left _ ha)⟩

theorem Kept.allocate (hkept : Kept BlockSize ZeroOnDeallocate b)
    (hsize : 2 * sizeofElement ≤ BlockSize) {id : PoolId} {pool pool' : Pool} {block p : Nat}
    {left : List UInt8} {m : Bytes} (hpB : b.pools id = some pool)
    (hl : Legal BlockSize b (.allocate id block left))
    (haB : MemoryPoolBytes.allocate b.memory pool block left = (m, pool', p)) :
    (∀ q, b.outstanding q ≠ none → q ≠ p ∧
      read m q (bodySize BlockSize) = read b.memory q (bodySize BlockSize)) ∧
    (ZeroOnDeallocate = true → p - sizeofElement ∈ b.live →
      read m p (bodySize BlockSize) = List.replicate (bodySize BlockSize) 0) := by
  obtain ⟨s, A, hsim, hA, hclear⟩ := hkept
  obtain ⟨pool, hp, hnew⟩ := hsim.legal hsize hl
  obtain ⟨pool1, m, pool', p1, mem1, poolB1, hp1, ha, haB1, hnone, -, hsim'⟩ :=
    hsim.allocate hA hsize hpB hl
  obtain rfl := Option.some.inj (hp1.symm.trans hp)
  obtain ⟨rfl, hrest⟩ := Prod.mk.inj (haB.symm.trans haB1)
  obtain ⟨rfl, rfl⟩ := Prod.mk.inj hrest
  have hkeep : ∀ a, s.memory a ≠ none → bodies m a = bodies s.memory a := fun a hlive =>
    MemoryPoolBodies.allocate_frame ha (fun hfree => (hnew hfree).1) hlive
  refine ⟨fun q hq => ⟨?_, ?_⟩, ?_⟩
  · rintro rfl
    exact hq (hsim.outstanding ▸ hnone)
  · obtain ⟨a, rfl, hlive⟩ := hsim.held hA hq
    exact hsim.frame hsim' hlive (hkeep a hlive)
  · rintro rfl hlive
    have hp16 : p - sizeofElement + sizeofElement = p := by
      apply Nat.sub_add_cancel
      rw [MemoryPoolBodies.allocate_pointer ha, MemoryPool.bodyOf]
      omega
    have halive := (hsim.live _).mp hlive
    obtain ⟨body, hbody⟩ := Option.ne_none_iff_exists'.mp (bodies_ne_none.mpr halive)
    have hzero := hclear rfl _ body (by rw [hp16]; exact hnone) hbody
    have hread := hsim'.body ((hkeep _ halive).trans hbody)
    rw [hp16] at hread
    exact hread.trans hzero

theorem Kept.deallocate (hkept : Kept BlockSize ZeroOnDeallocate b)
    (hsize : 2 * sizeofElement ≤ BlockSize) {id : PoolId} {pool pool' : Pool} {p : Option Nat}
    {m : Bytes} (hpB : b.pools id = some pool) (hl : Legal BlockSize b (.deallocate id p))
    (hdB : MemoryPoolBytes.deallocate BlockSize ZeroOnDeallocate b.memory pool (p.getD 0) =
      (m, pool')) {q : Nat} (hq : b.outstanding q ≠ none) (hqp : q ∉ p) :
    read m q (bodySize BlockSize) = read b.memory q (bodySize BlockSize) := by
  obtain ⟨s, A, hsim, hA, -⟩ := hkept
  obtain ⟨a, rfl, hlive⟩ := hsim.held hA hq
  cases p with
  | none =>
      obtain ⟨rfl, -⟩ := Prod.mk.inj hdB
      rfl
  | some p =>
      obtain ⟨pool, m, pool', c, mem1, poolB1, hp, rfl, hd, hdB1, hsim'⟩ :=
        hsim.deallocate ZeroOnDeallocate hA hsize hpB (hl.2 p rfl)
      obtain ⟨rfl, -⟩ := Prod.mk.inj (hdB.symm.trans hdB1)
      apply hsim.frame hsim' hlive
      apply MemoryPoolBodies.deallocate_frame hd
      rintro rfl
      exact hqp rfl

/-- After any calls that keep to their contracts, allocate and deallocate leave
the bytes of every other block that somebody holds as they are. With
ZeroOnDeallocate the bytes are all zero where allocate hands out a block that
was in use before, which is one that came back. -/
theorem frame_and_zeroing {memory : Bytes} {calls : List Call}
    (hsize : 2 * sizeofElement ≤ BlockSize)
    (hlegal : Along (apply BlockSize ZeroOnDeallocate) (fun s c _ => Legal BlockSize s c)
      (initial memory) calls)
    (hs : exec (apply BlockSize ZeroOnDeallocate) (initial memory) calls = some b) :
    (∀ id pool block left m pool' p, b.pools id = some pool →
      Legal BlockSize b (.allocate id block left) →
      allocate b.memory pool block left = (m, pool', p) →
      (∀ q, b.outstanding q ≠ none → q ≠ p ∧
        read m q (bodySize BlockSize) = read b.memory q (bodySize BlockSize)) ∧
      (ZeroOnDeallocate = true → p - sizeofElement ∈ b.live →
        read m p (bodySize BlockSize) = List.replicate (bodySize BlockSize) 0)) ∧
    ∀ id pool p m pool', b.pools id = some pool → Legal BlockSize b (.deallocate id p) →
      deallocate BlockSize ZeroOnDeallocate b.memory pool (p.getD 0) = (m, pool') →
      ∀ q, b.outstanding q ≠ none → q ∉ p →
        read m q (bodySize BlockSize) = read b.memory q (bodySize BlockSize) := by
  have hkept := run_kept hsize hlegal hs
  refine ⟨fun id pool block left m pool' p hp hl ha => hkept.allocate hsize hp hl ha,
    fun id pool p m pool' hp hl hd q hq hqp => hkept.deallocate hsize hp hl hd hq hqp⟩

theorem frame_and_zeroing_reused :
    let left : List UInt8 := List.replicate 16 7
    let calls : List Call := [.create 0, .allocate 0 64 left, .allocate 0 128 left,
      .write 80 (List.replicate 16 9), .deallocate 0 (some 80)]
    ∃ s pool m pool', exec (apply 32 true) (initial fun _ => 5) calls = some s ∧
      s.pools 0 = some pool ∧ allocate s.memory pool 0 [] = (m, pool', 80) ∧
      read m 80 16 = List.replicate 16 0 ∧ read m 144 16 = read s.memory 144 16 := by
  intro left calls
  obtain ⟨s, hs⟩ := Option.isSome_iff_exists.mp
    (show (exec (apply 32 true) (initial fun _ => 5) calls).isSome from by decide)
  have hstate : ∀ t ∈ exec (apply 32 true) (initial fun _ => 5) calls,
      (∃ pool ∈ t.pools 0, (allocate t.memory pool 0 []).2.2 = 80) ∧
        Legal 32 t (.allocate 0 0 []) ∧ 64 ∈ t.live ∧ t.outstanding 144 ≠ none := by decide
  obtain ⟨⟨pool, hp, hr⟩, hl, hlive, hheld⟩ := hstate s hs
  obtain ⟨⟨m, pool', p⟩, ha⟩ : ∃ r, allocate s.memory pool 0 [] = r := ⟨_, rfl⟩
  obtain rfl : p = 80 := by rwa [ha] at hr
  obtain ⟨hframe, hzero⟩ := (frame_and_zeroing (by decide) (by decide : Along (apply 32 true)
    (fun s c _ => Legal 32 s c) (initial fun _ => 5) calls) hs).1 0 pool 0 [] m pool' 80 hp hl ha
  exact ⟨s, pool, m, pool', hs, hp, ha, hzero rfl hlive, (hframe 144 hheld).2⟩

end Ashe.MemoryPoolFrame
