import Ashe.MemoryPoolPartition

namespace Ashe.MemoryPoolBodies

open LinkedCells MemoryPool MemoryPoolLists MemoryPoolPartition

def bodies (m : Memory) : Addr → Option (List UInt8) := fun a => (m a).map Block.body

variable {m m' : Memory} {a : Addr} {e : Block}

theorem bodies_ne_none : bodies m a ≠ none ↔ m a ≠ none := by
  rw [bodies, ne_eq, Option.map_eq_none_iff]

theorem bodies_update (m : Memory) (a : Addr) (cell : Option Block) :
    bodies (Function.update m a cell) = Function.update (bodies m) a (cell.map Block.body) := by
  funext b
  by_cases hba : b = a
  · rw [hba, bodies, Function.update_self, Function.update_self]
  · rw [bodies, Function.update_of_ne hba, Function.update_of_ne hba, bodies]

theorem bodies_modify {f : Block → Block} (hf : ∀ e, (f e).body = e.body)
    (hm : modify m a f = some m') : bodies m' = bodies m := by
  obtain ⟨e, he, rfl⟩ := Option.map_eq_some_iff.mp hm
  rw [bodies_update, Option.map_some, hf]
  apply Function.update_eq_self_iff.mpr
  rw [bodies, he, Option.map_some]

theorem bodies_modifyIf {link : Option Addr} {f : Block → Block} (hf : ∀ e, (f e).body = e.body)
    (hm : modifyIf m link f = some m') : bodies m' = bodies m := by
  cases link with
  | none => rw [← Option.some.inj hm]
  | some a => exact bodies_modify hf hm

theorem bodies_alloc (hm : alloc m a e = some m') :
    bodies m' = Function.update (bodies m) a (some e.body) := by
  rw [alloc, alloc_some hm] at hm
  rw [← Option.some.inj hm, bodies_update, Option.map_some]

theorem bodies_zeroBody {BlockSize : Nat} {ZeroOnDeallocate : Bool}
    (hm : zeroBody BlockSize ZeroOnDeallocate m a = some m') :
    bodies m' = if ZeroOnDeallocate then
      Function.update (bodies m) a (some (List.replicate (bodySize BlockSize) 0))
    else bodies m := by
  rw [zeroBody] at hm
  cases ZeroOnDeallocate with
  | false => rw [← Option.some.inj hm]; rfl
  | true =>
      obtain ⟨e, -, rfl⟩ := Option.map_eq_some_iff.mp hm
      exact bodies_update ..

variable {pool pool' : Pool} {block p : Addr} {left : List UInt8}

/-- Allocate changes links only. The bytes of a new block are those that
operator new left in it. -/
theorem allocate_bodies (ha : allocate m pool block left = some (m', pool', p)) :
    bodies m' = if pool.freeElement = none then Function.update (bodies m) block (some left)
      else bodies m := by
  cases hfree : pool.freeElement with
  | none =>
      simp only [allocate, hfree, allocateBlock, Option.bind_eq_bind, Option.bind_eq_some_iff] at ha
      obtain ⟨w, ⟨m1, hm1, m2, hm2, m3, hm3, hw⟩, hr⟩ := ha
      obtain rfl := Option.some.inj hw
      obtain ⟨rfl, -⟩ := Prod.mk.inj (Option.some.inj hr)
      rw [if_pos rfl, bodies_modify (by simp) hm3, bodies_modifyIf (by simp) hm2, bodies_alloc hm1]
  | some tmp =>
      simp only [allocate, hfree, Option.bind_eq_bind, Option.bind_eq_some_iff] at ha
      obtain ⟨e, -, m1, hm1, m2, hm2, m3, hm3, m4, hm4, hr⟩ := ha
      obtain ⟨rfl, -⟩ := Prod.mk.inj (Option.some.inj hr)
      rw [if_neg (by simp), bodies_modify (by simp) hm4, bodies_modifyIf (by simp) hm3,
        bodies_modify (by simp) hm2, bodies_modifyIf (by simp) hm1]

theorem allocate_frame (ha : allocate m pool block left = some (m', pool', p))
    (hnew : pool.freeElement = none → m block = none) (hlive : m a ≠ none) :
    bodies m' a = bodies m a := by
  rw [allocate_bodies ha]
  split
  next hfree =>
    apply Function.update_of_ne
    rintro rfl
    exact hlive (hnew hfree)
  next => rfl

theorem deallocate_bodies {BlockSize : Nat} {ZeroOnDeallocate : Bool}
    (hd : deallocate BlockSize ZeroOnDeallocate m pool (some (a + sizeofElement)) =
      some (m', pool')) :
    bodies m' = if ZeroOnDeallocate then
      Function.update (bodies m) a (some (List.replicate (bodySize BlockSize) 0))
    else bodies m := by
  simp only [deallocate, Nat.add_sub_cancel, Option.bind_eq_bind, Option.bind_eq_some_iff] at hd
  obtain ⟨m1, hm1, e1, -, m2, hm2, e2, -, m3, hm3, e3, -, m4, hm4, m5, hm5, m6, hm6, hr⟩ := hd
  obtain ⟨rfl, -⟩ := Prod.mk.inj (Option.some.inj hr)
  rw [bodies_modifyIf (by simp) hm6, bodies_modify (by simp) hm5, bodies_modify (by simp) hm4,
    bodies_modifyIf (by simp) hm3, bodies_modifyIf (by simp) hm2, bodies_zeroBody hm1]

theorem deallocate_frame {BlockSize : Nat} {ZeroOnDeallocate : Bool} {b : Addr}
    (hd : deallocate BlockSize ZeroOnDeallocate m pool (some (a + sizeofElement)) =
      some (m', pool')) (hb : b ≠ a) : bodies m' b = bodies m b := by
  rw [deallocate_bodies hd]
  split
  next => exact Function.update_of_ne hb ..
  next => rfl

/-- The pointer leads behind the header of the first free block, or of the new one. -/
theorem allocate_pointer (ha : allocate m pool block left = some (m', pool', p)) :
    p = bodyOf (pool.freeElement.getD block) := by
  cases hfree : pool.freeElement with
  | none =>
      simp only [allocate, hfree, Option.bind_eq_bind, Option.bind_eq_some_iff] at ha
      obtain ⟨w, -, hr⟩ := ha
      exact (Prod.mk.inj (Prod.mk.inj (Option.some.inj hr)).2).2.symm
  | some tmp =>
      simp only [allocate, hfree, Option.bind_eq_bind, Option.bind_eq_some_iff] at ha
      obtain ⟨e, -, m1, -, m2, -, m3, -, m4, -, hr⟩ := ha
      exact (Prod.mk.inj (Prod.mk.inj (Option.some.inj hr)).2).2.symm

/-- Every block that nobody holds is zero behind its header. -/
def Cleared (BlockSize : Nat) (m : Memory) (outstanding : Addr → Option PoolId) : Prop :=
  ∀ a body, outstanding (a + sizeofElement) = none → bodies m a = some body →
    body = List.replicate (bodySize BlockSize) 0

variable {BlockSize : Nat} {o o' : Addr → Option PoolId} {id : PoolId}

theorem Cleared.mono (hc : Cleared BlockSize m o)
    (hkeep : ∀ a body, o' (a + sizeofElement) = none → bodies m' a = some body →
      o (a + sizeofElement) = none ∧ bodies m a = some body) : Cleared BlockSize m' o' := by
  intro a body ho hb
  obtain ⟨ho, hb⟩ := hkeep a body ho hb
  exact hc a body ho hb

theorem Cleared.allocate (hc : Cleared BlockSize m o)
    (hnew : pool.freeElement = none → alignofElement ∣ block)
    (ha : allocate m pool block left = some (m', pool', p)) :
    Cleared BlockSize m' (Function.update o p (some id)) := by
  apply hc.mono
  intro a body ho hb
  have hne : a + sizeofElement ≠ p := by
    rintro rfl
    rw [Function.update_self] at ho
    exact absurd ho (by simp)
  rw [Function.update_of_ne hne] at ho
  refine ⟨ho, ?_⟩
  rw [allocate_bodies ha] at hb
  split at hb
  next hfree =>
    rwa [Function.update_of_ne] at hb
    rintro rfl
    apply hne
    rw [allocate_pointer ha, hfree, Option.getD_none, bodyOf_aligned (hnew hfree)]
  next => exact hb

theorem Cleared.deallocate (hc : Cleared BlockSize m o)
    (hd : deallocate BlockSize true m pool (some (a + sizeofElement)) = some (m', pool')) :
    Cleared BlockSize m' (Function.update o (a + sizeofElement) none) := by
  intro b body ho hb
  rw [deallocate_bodies hd, if_pos rfl] at hb
  by_cases hba : b = a
  · rw [hba, Function.update_self] at hb
    exact (Option.some.inj hb).symm
  · have hne : b + sizeofElement ≠ a + sizeofElement := fun hab => hba (Nat.add_right_cancel hab)
    rw [Function.update_of_ne hne] at ho
    rw [Function.update_of_ne hba] at hb
    exact hc b body ho hb

theorem Cleared.write (hc : Cleared BlockSize m o) {body : List UInt8}
    (howned : o (a + sizeofElement) ≠ none)
    (hm : modify m a (fun e => { e with body := body }) = some m') : Cleared BlockSize m' o := by
  obtain ⟨e, -, rfl⟩ := Option.map_eq_some_iff.mp hm
  apply hc.mono
  intro b body' ho hb
  refine ⟨ho, ?_⟩
  rwa [bodies_update, Function.update_of_ne] at hb
  rintro rfl
  exact howned ho

variable {s s' : State} {A : Layouts}

theorem cleared_moved (hc : Cleared BlockSize s.memory s.outstanding) (f : PoolId → PoolId) :
    Cleared BlockSize s.memory (s.moved f) :=
  hc.mono fun _ _ ho hb => ⟨Option.map_eq_none_iff.mp ho, hb⟩

theorem cleared_destroy (h : Represents s A) (hc : Cleared BlockSize s.memory s.outstanding)
    {l : Lists} (hl : A id = some l) (hgone : ∀ a ∈ l.blocks, m a = none)
    (hframe : ∀ a ∉ l.blocks, m a = s.memory a) :
    Cleared BlockSize m
      (fun p => if s.outstanding p = some id then none else s.outstanding p) := by
  apply hc.mono
  intro a body ho hb
  have ha : a ∉ l.blocks := by
    intro ha
    rw [bodies, hgone a ha] at hb
    exact absurd hb (by simp)
  rw [bodies, hframe a ha] at hb
  refine ⟨?_, hb⟩
  split at ho
  next howned =>
    obtain ⟨b, hbl, hab⟩ := (h.owned.data hl _).mp howned
    obtain rfl := Nat.add_right_cancel hab
    exact absurd (List.mem_append_left _ hbl) ha
  next => exact ho

/-- A pool that zeroes on deallocation keeps every free block zero. -/
theorem apply_cleared (h : Represents s A) (hc : Cleared BlockSize s.memory s.outstanding)
    {c : Call} (hlegal : Legal BlockSize s c) (hs : apply BlockSize true s c = some s') :
    Cleared BlockSize s'.memory s'.outstanding := by
  cases c with
  | create id =>
      obtain rfl := Option.some.inj hs
      exact hc
  | allocate id block left =>
      obtain ⟨pool, hp, hnew⟩ := hlegal
      simp only [apply, show s.pools id = some pool from hp, Option.bind_eq_bind, Option.bind_some,
        Option.bind_eq_some_iff] at hs
      obtain ⟨r, ha, hs⟩ := hs
      exact Option.some.inj hs ▸ hc.allocate (fun hfree => (hnew hfree).2.1) ha
  | deallocate id p =>
      simp only [apply, Option.bind_eq_bind, Option.bind_eq_some_iff] at hs
      obtain ⟨pool, hp, r, hd, hs⟩ := hs
      cases p with
      | none =>
          obtain rfl := Option.some.inj hd
          exact Option.some.inj hs ▸ hc
      | some p =>
          obtain ⟨l, a, -, -, rfl⟩ := (h.owned p id).mp (hlegal.2 p rfl)
          exact Option.some.inj hs ▸ hc.deallocate hd
  | moveConstruct id source =>
      simp only [apply, Option.bind_eq_bind, Option.bind_eq_some_iff] at hs
      obtain ⟨pool, hp, hs⟩ := hs
      exact Option.some.inj hs ▸ cleared_moved hc _
  | moveAssign id source =>
      rw [apply] at hs
      split at hs
      next => exact Option.some.inj hs ▸ hc
      next =>
        simp only [Option.bind_eq_bind, Option.bind_eq_some_iff] at hs
        obtain ⟨pool, -, other, -, hs⟩ := hs
        exact Option.some.inj hs ▸ cleared_moved hc _
  | destroy id turns =>
      simp only [apply, Option.bind_eq_bind, Option.bind_eq_some_iff] at hs
      obtain ⟨pool, hp, r, hturns, hs⟩ := hs
      obtain ⟨l, m, hl, hd, hgone, hframe, -⟩ := destroy_represents h hp
      obtain rfl := (destroy_steady s.memory pool).unique ⟨turns, hturns⟩
        ⟨_, hd _ (Nat.le_refl _)⟩
      exact Option.some.inj hs ▸ cleared_destroy h hc hl hgone hframe
  | write p body =>
      obtain ⟨id, ho⟩ := Option.ne_none_iff_exists'.mp hlegal.1
      obtain ⟨l, a, -, -, rfl⟩ := (h.owned p id).mp ho
      simp only [apply, Nat.add_sub_cancel, Option.bind_eq_bind, Option.bind_eq_some_iff] at hs
      obtain ⟨m, hw, hs⟩ := hs
      exact Option.some.inj hs ▸ hc.write hlegal.1 hw

end Ashe.MemoryPoolBodies
