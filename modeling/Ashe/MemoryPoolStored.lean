import Ashe.Fuel
import Ashe.MemoryPoolBytes

namespace Ashe.MemoryPoolStored

open LinkedCells ByteMemory MemoryPoolBytes
open MemoryPool (Block bodySize sizeofElement)

def pointer (link : Option Nat) : Nat := link.getD 0

def Valid (link : Option Nat) : Prop := ∀ a : Nat, a ∈ link → 0 < a ∧ a < 2 ^ 64

theorem Valid.pointer_lt {link : Option Nat} (h : Valid link) : pointer link < 2 ^ 64 := by
  cases link with
  | none => exact Nat.two_pow_pos 64
  | some a => exact (h a rfl).2

theorem Valid.pointer_eq_zero {link : Option Nat} (h : Valid link) :
    pointer link = 0 ↔ link = none := by
  cases link with
  | none => exact ⟨fun _ => rfl, fun _ => rfl⟩
  | some a =>
      have hpos := (h a rfl).1
      rw [pointer, Option.getD_some]
      exact ⟨fun h0 => by omega, fun hn => absurd hn (by simp)⟩

section

variable (BlockSize : Nat)

structure StoredAt (mem : Bytes) (a : Nat) (e : Block) : Prop where
  pre : pre mem a = pointer e.pre
  next : next mem a = pointer e.next
  body : read mem (a + sizeofElement) (bodySize BlockSize) = e.body
  validPre : Valid e.pre
  validNext : Valid e.next

/-- The blocks of one memory as they lie in the bytes of the other. -/
structure Stored (m : MemoryPool.Memory) (mem : Bytes) : Prop where
  placed : ∀ a : Nat, m a ≠ none → 0 < a ∧ a + BlockSize ≤ 2 ^ 64
  apart : ∀ a b : Nat, m a ≠ none → m b ≠ none → a ≠ b → Apart a BlockSize b BlockSize
  cells : ∀ (a : Nat) e, m a = some e → StoredAt BlockSize mem a e

structure PoolAt (pool : MemoryPool.Pool) (poolB : Pool) : Prop where
  data : poolB.dataElement = pointer pool.dataElement
  free : poolB.freeElement = pointer pool.freeElement
  validData : Valid pool.dataElement
  validFree : Valid pool.freeElement

end

section

variable {BlockSize : Nat} {m m' : MemoryPool.Memory} {mem mem' : Bytes} {a : Nat} {e e' : Block}

theorem header_body (hsize : 2 * sizeofElement ≤ BlockSize) :
    sizeofElement + bodySize BlockSize = BlockSize := by
  rw [bodySize, Nat.add_sub_cancel']
  omega

theorem StoredAt.frame (h : StoredAt BlockSize mem a e) (hsize : 2 * sizeofElement ≤ BlockSize)
    (hm : ∀ x, a ≤ x → x < a + BlockSize → mem' x = mem x) : StoredAt BlockSize mem' a e := by
  have hbody := header_body hsize
  have hread (b n : Nat) (hb : a ≤ b) (hn : b + n ≤ a + BlockSize) :
      read mem' b n = read mem b n := by
    apply read_congr
    intro x hx hlt
    exact hm x (by omega) (by omega)
  have h16 : sizeofElement = 16 := rfl
  have h8 : sizeofPointer = 8 := rfl
  refine ⟨?_, ?_, ?_, h.validPre, h.validNext⟩
  · rw [← h.pre, MemoryPoolBytes.pre, loadPointer, hread a sizeofPointer (by omega) (by omega)]
    rfl
  · rw [← h.next, MemoryPoolBytes.next, loadPointer,
      hread (a + sizeofPointer) sizeofPointer (by omega) (by omega)]
    rfl
  · rw [← h.body]
    exact hread _ _ (by omega) (by omega)

theorem Stored.put (h : Stored BlockSize m mem) (hsize : 2 * sizeofElement ≤ BlockSize)
    (hplaced : 0 < a ∧ a + BlockSize ≤ 2 ^ 64)
    (hapart : ∀ b : Nat, m b ≠ none → b ≠ a → Apart a BlockSize b BlockSize)
    (hm : ∀ x, x < a ∨ a + BlockSize ≤ x → mem' x = mem x) (he : StoredAt BlockSize mem' a e) :
    Stored BlockSize (Function.update m a (some e)) mem' := by
  have hlive (b : Nat) (hb : Function.update m a (some e) b ≠ none) (hba : b ≠ a) : m b ≠ none := by
    rwa [Function.update_of_ne hba] at hb
  refine ⟨fun b hb => ?_, fun b c hb hc hbc => ?_, fun b f hb => ?_⟩
  · by_cases hba : b = a
    · rw [hba]
      exact hplaced
    · exact h.placed b (hlive b hb hba)
  · by_cases hba : b = a
    · have hca : c ≠ a := fun hca => hbc (hba.trans hca.symm)
      rw [hba]
      exact hapart c (hlive c hc hca) hca
    · by_cases hca : c = a
      · rw [hca]
        exact (hapart b (hlive b hb hba) hba).symm
      · exact h.apart b c (hlive b hb hba) (hlive c hc hca) hbc
  · by_cases hba : b = a
    · rw [hba, Function.update_self] at hb
      rw [hba, ← Option.some.inj hb]
      exact he
    · rw [Function.update_of_ne hba] at hb
      apply (h.cells b f hb).frame hsize
      intro x hx hlt
      apply hm
      have hdis := hapart b (by simp [hb]) hba
      rw [Apart] at hdis
      omega

theorem Stored.update (h : Stored BlockSize m mem) (hsize : 2 * sizeofElement ≤ BlockSize)
    (ha : m a = some e) (hm : ∀ x, x < a ∨ a + BlockSize ≤ x → mem' x = mem x)
    (he : StoredAt BlockSize mem' a e') :
    Stored BlockSize (Function.update m a (some e')) mem' := by
  have hlive : m a ≠ none := by simp [ha]
  apply h.put hsize (h.placed a hlive) _ hm he
  intro b hb hba
  exact h.apart a b hlive hb (Ne.symm hba)

theorem Stored.setPre (h : Stored BlockSize m mem) (hsize : 2 * sizeofElement ≤ BlockSize)
    {link : Option Nat} (hv : Valid link)
    (hm : modify m a (fun e => { e with pre := link }) = some m') :
    Stored BlockSize m' (setPre mem a (pointer link)) := by
  obtain ⟨e, he, rfl⟩ := Option.map_eq_some_iff.mp hm
  have hcell := h.cells a e he
  have h16 : sizeofElement = 16 := rfl
  have h8 : sizeofPointer = 8 := rfl
  refine h.update hsize he (fun x hx => storePointer_outside (by omega))
    ⟨loadPointer_storePointer_self hv.pointer_lt, ?_, ?_, hv, hcell.validNext⟩
  · rw [← hcell.next]
    exact loadPointer_storePointer_apart (.inr (Nat.le_refl _))
  · rw [← hcell.body]
    exact read_storePointer_apart (.inr (by omega))

theorem Stored.setNext (h : Stored BlockSize m mem) (hsize : 2 * sizeofElement ≤ BlockSize)
    {link : Option Nat} (hv : Valid link)
    (hm : modify m a (fun e => { e with next := link }) = some m') :
    Stored BlockSize m' (setNext mem a (pointer link)) := by
  obtain ⟨e, he, rfl⟩ := Option.map_eq_some_iff.mp hm
  have hcell := h.cells a e he
  have h16 : sizeofElement = 16 := rfl
  have h8 : sizeofPointer = 8 := rfl
  refine h.update hsize he (fun x hx => storePointer_outside (by omega))
    ⟨?_, loadPointer_storePointer_self hv.pointer_lt, ?_, hcell.validPre, hv⟩
  · rw [← hcell.pre]
    exact loadPointer_storePointer_apart (.inl (Nat.le_refl _))
  · rw [← hcell.body]
    exact read_storePointer_apart (.inr (by omega))

theorem Stored.tested (h : Stored BlockSize m mem) {link : Option Nat} {f : Block → Block}
    {change : Nat → Bytes}
    (hchange : ∀ a, modify m a f = some m' → Stored BlockSize m' (change a))
    (hm : modifyIf m link f = some m') :
    Stored BlockSize m' (if pointer link ≠ 0 then change (pointer link) else mem) := by
  cases link with
  | none =>
      obtain rfl := Option.some.inj hm
      exact h
  | some a =>
      obtain ⟨e, he, -⟩ := Option.map_eq_some_iff.mp hm
      have hpos := (h.placed a (by simp [he])).1
      have hne : pointer (some a) ≠ 0 := Nat.ne_of_gt hpos
      rw [if_pos hne]
      exact hchange a hm

theorem Stored.setBody (h : Stored BlockSize m mem) (hsize : 2 * sizeofElement ≤ BlockSize)
    {body : List UInt8} (hbody : body.length = bodySize BlockSize)
    (hm : modify m a (fun e => { e with body := body }) = some m') :
    Stored BlockSize m' (store mem (a + sizeofElement) body) := by
  obtain ⟨e, he, rfl⟩ := Option.map_eq_some_iff.mp hm
  have hcell := h.cells a e he
  have hend := header_body hsize
  have h16 : sizeofElement = 16 := rfl
  have h8 : sizeofPointer = 8 := rfl
  refine h.update hsize he (fun x hx => store_outside (by omega))
    ⟨?_, ?_, ?_, hcell.validPre, hcell.validNext⟩
  · rw [← hcell.pre]
    exact loadPointer_store_apart (.inl (by omega))
  · rw [← hcell.next]
    exact loadPointer_store_apart (.inl (by omega))
  · rw [← hbody]
    exact read_store_self

theorem Stored.alloc (h : Stored BlockSize m mem) (hsize : 2 * sizeofElement ≤ BlockSize)
    (hplaced : 0 < a ∧ a + BlockSize ≤ 2 ^ 64)
    (hapart : ∀ b : Nat, m b ≠ none → Apart a BlockSize b BlockSize) {left : List UInt8}
    (hleft : left.length = bodySize BlockSize) (hm : alloc m a ⟨none, none, left⟩ = some m') :
    Stored BlockSize m' (MemoryPoolBytes.setNext
      (MemoryPoolBytes.setPre (store mem (a + sizeofElement) left) a 0) a 0) := by
  have hnone := alloc_some hm
  rw [LinkedCells.alloc, hnone] at hm
  obtain rfl := Option.some.inj hm
  have hend := header_body hsize
  have h16 : sizeofElement = 16 := rfl
  have h8 : sizeofPointer = 8 := rfl
  have hnull : Valid none := fun b hb => absurd hb (by simp)
  refine h.put hsize hplaced (fun b hb _ => hapart b hb) (fun x hx => ?_) ⟨?_, ?_, ?_, hnull, hnull⟩
  · rw [MemoryPoolBytes.setNext, storePointer_outside (by omega), MemoryPoolBytes.setPre,
      storePointer_outside (by omega), store_outside (by omega)]
  · rw [MemoryPoolBytes.setNext, MemoryPoolBytes.pre,
      loadPointer_storePointer_apart (.inl (Nat.le_refl _))]
    exact loadPointer_storePointer_self hnull.pointer_lt
  · exact loadPointer_storePointer_self hnull.pointer_lt
  · rw [MemoryPoolBytes.setNext, read_storePointer_apart (.inr (by omega)), MemoryPoolBytes.setPre,
      read_storePointer_apart (.inr (by omega)), ← hleft]
    exact read_store_self

theorem Stored.free (h : Stored BlockSize m mem) (hm : free m a = some m') :
    Stored BlockSize m' mem := by
  obtain ⟨e, -, rfl⟩ := Option.map_eq_some_iff.mp hm
  have hold (b : Nat) (f : Block) (hb : Function.update m a none b = some f) : m b = some f := by
    rwa [Function.update_of_ne] at hb
    rintro rfl
    rw [Function.update_self] at hb
    exact absurd hb (by simp)
  have hlive (b : Nat) (hb : Function.update m a none b ≠ none) : m b ≠ none := by
    obtain ⟨f, hf⟩ := Option.ne_none_iff_exists'.mp hb
    rw [hold b f hf]
    exact Option.some_ne_none f
  exact ⟨fun b hb => h.placed b (hlive b hb),
    fun b c hb hc => h.apart b c (hlive b hb) (hlive c hc), fun b f hb => h.cells b f (hold b f hb)⟩

theorem valid_none : Valid none := fun _ ha => absurd ha (by simp)

theorem Stored.valid (h : Stored BlockSize m mem) (hsize : 2 * sizeofElement ≤ BlockSize)
    (ha : m a = some e) : Valid (some a) := by
  intro b hb
  obtain rfl := Option.some.inj hb
  have hplaced := h.placed a (by simp [ha])
  have h16 : sizeofElement = 16 := rfl
  exact ⟨hplaced.1, by omega⟩

variable {pool pool' : MemoryPool.Pool} {poolB : Pool} {p : Nat} {left : List UInt8}

theorem allocate_reuse (h : Stored BlockSize m mem) (hsize : 2 * sizeofElement ≤ BlockSize)
    (hp : PoolAt pool poolB) {block tmp : Nat} (hfree : pool.freeElement = some tmp)
    (ha : MemoryPool.allocate m pool block left = some (m', pool', p)) :
    ∃ mem' poolB', allocate mem poolB block left = (mem', poolB', p) ∧
      Stored BlockSize m' mem' ∧ PoolAt pool' poolB' := by
  simp only [MemoryPool.allocate, hfree, Option.bind_eq_bind, Option.bind_eq_some_iff] at ha
  obtain ⟨e, he, m1, hm1, m2, hm2, m3, hm3, m4, hm4, hr⟩ := ha
  obtain ⟨rfl, hr'⟩ := Prod.mk.inj (Option.some.inj hr)
  obtain ⟨rfl, rfl⟩ := Prod.mk.inj hr'
  have htmp := h.valid hsize he
  have hcell := h.cells tmp e he
  have h1 := h.tested (fun a ha => h.setPre hsize valid_none ha) hm1
  have h2 := h1.setNext hsize hp.validData hm2
  have h3 := h2.tested (fun a ha => h2.setPre hsize htmp ha) hm3
  have h4 := h3.setPre hsize valid_none hm4
  refine ⟨_, ⟨tmp, next mem tmp⟩, ?_, h4, ⟨rfl, hcell.next, htmp, hcell.validNext⟩⟩
  have hne : pointer (some tmp) ≠ 0 := Nat.ne_of_gt (htmp tmp rfl).1
  rw [allocate, hp.free, hp.data, hfree, if_pos hne, ← hcell.next]
  rfl

theorem allocate_new (h : Stored BlockSize m mem) (hsize : 2 * sizeofElement ≤ BlockSize)
    (hp : PoolAt pool poolB) {block : Nat} (hfree : pool.freeElement = none)
    (hplaced : 0 < block ∧ block + BlockSize ≤ 2 ^ 64)
    (hapart : ∀ b : Nat, m b ≠ none → Apart block BlockSize b BlockSize)
    (hleft : left.length = bodySize BlockSize)
    (ha : MemoryPool.allocate m pool block left = some (m', pool', p)) :
    ∃ mem' poolB', allocate mem poolB block left = (mem', poolB', p) ∧
      Stored BlockSize m' mem' ∧ PoolAt pool' poolB' := by
  simp only [MemoryPool.allocate, hfree, MemoryPool.allocateBlock, Option.bind_eq_bind,
    Option.bind_eq_some_iff] at ha
  obtain ⟨w, ⟨m1, hm1, m2, hm2, m3, hm3, hw⟩, hr⟩ := ha
  obtain rfl := Option.some.inj hw
  obtain ⟨rfl, hr'⟩ := Prod.mk.inj (Option.some.inj hr)
  obtain ⟨rfl, rfl⟩ := Prod.mk.inj hr'
  have hblock : Valid (some block) := by
    intro b hb
    obtain rfl := Option.some.inj hb
    have h16 : sizeofElement = 16 := rfl
    exact ⟨hplaced.1, by omega⟩
  have h1 := h.alloc hsize hplaced hapart hleft hm1
  have h2 := h1.tested (fun a ha => h1.setPre hsize hblock ha) hm2
  have h3 := h2.setNext hsize hp.validData hm3
  have hnull : poolB.freeElement = 0 := by
    rw [hp.free, hfree]
    rfl
  refine ⟨_, ⟨block, 0⟩, ?_, h3, ⟨rfl, rfl, hblock, valid_none⟩⟩
  rw [allocate, hnull, if_neg (not_not_intro rfl), allocateBlock, hp.data, hnull]
  rfl

theorem deallocate_stored {ZeroOnDeallocate : Bool} (h : Stored BlockSize m mem)
    (hsize : 2 * sizeofElement ≤ BlockSize) (hp : PoolAt pool poolB)
    (hd : MemoryPool.deallocate BlockSize ZeroOnDeallocate m pool (some (a + sizeofElement)) =
      some (m', pool')) :
    ∃ mem' poolB', deallocate BlockSize ZeroOnDeallocate mem poolB (a + sizeofElement) =
        (mem', poolB') ∧ Stored BlockSize m' mem' ∧ PoolAt pool' poolB' := by
  simp only [MemoryPool.deallocate, Nat.add_sub_cancel, Option.bind_eq_bind,
    Option.bind_eq_some_iff] at hd
  obtain ⟨m1, hm1, e1, he1, m2, hm2, e2, he2, m3, hm3, e3, he3, m4, hm4, m5, hm5, m6, hm6, hr⟩ := hd
  obtain ⟨rfl, rfl⟩ := Prod.mk.inj (Option.some.inj hr)
  obtain ⟨mem1, hmem1⟩ : ∃ x, x = if ZeroOnDeallocate then
    memset mem (a + sizeofElement) 0 (BlockSize - sizeofElement) else mem := ⟨_, rfl⟩
  have h1 : Stored BlockSize m1 mem1 := by
    rw [hmem1]
    rw [MemoryPool.zeroBody] at hm1
    cases ZeroOnDeallocate with
    | false =>
        obtain rfl := Option.some.inj hm1
        exact h
    | true => exact h.setBody hsize List.length_replicate hm1
  have hc1 := h1.cells a e1 he1
  obtain ⟨mem2, hmem2⟩ : ∃ x, x = if pre mem1 a ≠ 0 then
    setNext mem1 (pre mem1 a) (next mem1 a) else mem1 := ⟨_, rfl⟩
  have h2 : Stored BlockSize m2 mem2 := by
    have ht := h1.tested (fun b hb => h1.setNext hsize hc1.validNext hb) hm2
    rw [hmem2, hc1.pre, hc1.next]
    exact ht
  have hc2 := h2.cells a e2 he2
  obtain ⟨mem3, hmem3⟩ : ∃ x, x = if next mem2 a ≠ 0 then
    setPre mem2 (next mem2 a) (pre mem2 a) else mem2 := ⟨_, rfl⟩
  have h3 : Stored BlockSize m3 mem3 := by
    have ht := h2.tested (fun b hb => h2.setPre hsize hc2.validPre hb) hm3
    rw [hmem3, hc2.pre, hc2.next]
    exact ht
  have hc3 := h3.cells a e3 he3
  have ha := h3.valid hsize he3
  have h4 := h3.setPre hsize valid_none hm4
  have h5 := h4.setNext hsize hp.validFree hm5
  have h6 := h5.tested (fun b hb => h5.setPre hsize ha hb) hm6
  obtain ⟨data, hdata⟩ : ∃ x, x = if pre mem3 a = 0 then next mem3 a else poolB.dataElement :=
    ⟨_, rfl⟩
  have hlink : data = pointer (if e3.pre = none then e3.next else pool.dataElement) := by
    simp only [hdata, hc3.pre, hc3.next, hp.data, hc3.validPre.pointer_eq_zero]
    split <;> rfl
  have hvalid : Valid (if e3.pre = none then e3.next else pool.dataElement) := by
    split
    · exact hc3.validNext
    · exact hp.validData
  have hnew : (if pointer pool.freeElement ≠ 0 then
      setPre (setNext (setPre mem3 a (pointer none)) a (pointer pool.freeElement))
        (pointer pool.freeElement) (pointer (some a))
      else setNext (setPre mem3 a (pointer none)) a (pointer pool.freeElement)) =
    if poolB.freeElement ≠ 0 then
      setPre (setNext (setPre mem3 a 0) a poolB.freeElement) poolB.freeElement a
      else setNext (setPre mem3 a 0) a 0 := by
    rw [hp.free]
    split
    next => rfl
    next hnull => rw [not_not.mp hnull]; rfl
  rw [hnew] at h6
  refine ⟨_, ⟨data, a⟩, ?_, h6, ⟨hlink, rfl, hvalid, ha⟩⟩
  have hne : a + sizeofElement ≠ 0 := Nat.succ_ne_zero _
  rw [deallocate, if_pos hne, Nat.add_sub_cancel]
  simp only [← hmem1, ← hmem2, ← hmem3, ← hdata]

theorem deleteAll_stored {fuel : Nat}
    (h : Stored BlockSize m mem) {link : Option Nat} {deleted : List Nat}
    (hd : MemoryPool.deleteAll fuel m link = some (m', deleted)) :
    deleteAll fuel mem (pointer link) = some deleted ∧ Stored BlockSize m' mem := by
  induction fuel generalizing m link deleted with
  | zero =>
      cases link with
      | none =>
          obtain ⟨rfl, rfl⟩ := Prod.mk.inj (Option.some.inj hd)
          exact ⟨rfl, h⟩
      | some curr => exact absurd hd (by simp [MemoryPool.deleteAll])
  | succ fuel ih =>
      cases link with
      | none =>
          obtain ⟨rfl, rfl⟩ := Prod.mk.inj (Option.some.inj hd)
          exact ⟨rfl, h⟩
      | some curr =>
          simp only [MemoryPool.deleteAll, Option.bind_eq_bind, Option.bind_eq_some_iff] at hd
          obtain ⟨e, he, m1, hm1, r, hr, hd⟩ := hd
          obtain ⟨rfl, rfl⟩ := Prod.mk.inj (Option.some.inj hd)
          obtain ⟨hrest, h'⟩ := ih (h.free hm1) hr
          have hne : pointer (some curr) ≠ 0 := Nat.ne_of_gt (h.placed curr (by simp [he])).1
          have hnext : next mem (pointer (some curr)) = pointer e.next := (h.cells curr e he).next
          refine ⟨?_, h'⟩
          simp only [deleteAll, if_neg hne, hnext, hrest]
          rfl

theorem destroy_stored {fuel : Nat}
    (h : Stored BlockSize m mem) (hp : PoolAt pool poolB) {deleted : List Nat}
    (hd : MemoryPool.destroy fuel m pool = some (m', deleted)) :
    destroy fuel mem poolB = some deleted ∧ Stored BlockSize m' mem := by
  simp only [MemoryPool.destroy, Option.bind_eq_bind, Option.bind_eq_some_iff] at hd
  obtain ⟨r, hr, r', hr', hd⟩ := hd
  obtain ⟨rfl, rfl⟩ := Prod.mk.inj (Option.some.inj hd)
  obtain ⟨hdata, h1⟩ := deleteAll_stored h hr
  obtain ⟨hfree, h2⟩ := deleteAll_stored h1 hr'
  refine ⟨?_, h2⟩
  rw [destroy, hp.data, hdata, hp.free]
  simp only [Option.bind_eq_bind, Option.bind_some]
  rw [hfree]
  rfl

theorem deleteAll_steady (mem : Bytes) (curr : Nat) :
    Fuel.Steady fun fuel => deleteAll fuel mem curr := by
  intro fuel
  induction fuel generalizing curr with
  | zero =>
      intro r h
      simp only [deleteAll] at h ⊢
      split at h
      next hnull => rwa [if_pos hnull]
      next => exact absurd h (by simp)
  | succ fuel ih =>
      intro r h
      simp only [deleteAll] at h ⊢
      split at h
      next hnull => rwa [if_pos hnull]
      next hnull =>
        rw [if_neg hnull]
        exact Fuel.bind_steady h (ih (next mem curr)) fun _ hr => hr

theorem destroy_steady (mem : Bytes) (poolB : Pool) :
    Fuel.Steady fun fuel => destroy fuel mem poolB := by
  intro fuel r h
  exact Fuel.bind_steady h (deleteAll_steady mem poolB.dataElement fuel) fun _ h =>
    Fuel.bind_steady h (deleteAll_steady mem poolB.freeElement fuel) fun _ hr => hr

end

end Ashe.MemoryPoolStored
