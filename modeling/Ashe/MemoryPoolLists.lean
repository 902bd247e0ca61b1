import Ashe.Fuel
import Ashe.MemoryPool

namespace Ashe.MemoryPoolLists

open LinkedCells MemoryPool

def layout : Layout Addr Block (List UInt8) where
  next := Block.next
  prev := Block.pre
  setNext e q := { e with next := q }
  setPrev e p := { e with pre := p }
  holds e body := e.body = body
  next_setNext _ _ := rfl
  prev_setNext _ _ := rfl
  holds_setNext _ _ _ h := h
  prev_setPrev _ _ := rfl
  next_setPrev _ _ := rfl
  holds_setPrev _ _ _ h := h

/-- The blocks of a pool with their bodies: those that are handed out, the last
one first, and those that came back. -/
structure Lists where
  data : List (Addr × List UInt8)
  free : List (Addr × List UInt8)

def addresses (xs : List (Addr × List UInt8)) : List Addr := xs.map Prod.fst

theorem mem_addresses_append {a : Addr} {xs ys : List (Addr × List UInt8)} :
    a ∈ addresses (xs ++ ys) ↔ a ∈ addresses xs ∨ a ∈ addresses ys := by
  rw [addresses, List.map_append, List.mem_append]
  rfl

def Lists.blocks (l : Lists) : List Addr := addresses l.data ++ addresses l.free

structure Holds (m : Memory) (pool : Pool) (l : Lists) : Prop where
  data : Chained layout m none l.data none
  free : Chained layout m none l.free none
  dataElement : pool.dataElement = head none l.data
  freeElement : pool.freeElement = head none l.free
  nodup : l.blocks.Nodup

theorem newPool_holds (m : Memory) : Holds m newPool ⟨[], []⟩ :=
  ⟨trivial, trivial, rfl, rfl, List.nodup_nil⟩

theorem Holds.frame {m m' : Memory} {pool : Pool} {l : Lists} (h : Holds m pool l)
    (hm : ∀ b ∈ l.blocks, m' b = m b) : Holds m' pool l :=
  ⟨h.data.frame fun b hb => hm b (List.mem_append_left _ hb),
    h.free.frame fun b hb => hm b (List.mem_append_right _ hb),
    h.dataElement, h.freeElement, h.nodup⟩

theorem Holds.allocated {m : Memory} {pool : Pool} {l : Lists} (h : Holds m pool l) {b : Addr}
    (hb : b ∈ l.blocks) : m b ≠ none :=
  (List.mem_append.mp hb).elim h.data.allocated h.free.allocated

theorem blocks_cons_free {data free : List (Addr × List UInt8)} {x : Addr × List UInt8} :
    (Lists.blocks ⟨data, x :: free⟩).Nodup ↔
      x.1 ∉ addresses data ∧ x.1 ∉ addresses free ∧ (Lists.blocks ⟨data, free⟩).Nodup := by
  have h := @List.nodup_middle _ x.1 (addresses data) (addresses free)
  simp only [Lists.blocks, addresses, List.map_cons] at h ⊢
  rw [h, List.nodup_cons, List.mem_append, not_or, and_assoc]

theorem blocks_cons_data {data free : List (Addr × List UInt8)} {x : Addr × List UInt8} :
    (Lists.blocks ⟨x :: data, free⟩).Nodup ↔
      x.1 ∉ addresses data ∧ x.1 ∉ addresses free ∧ (Lists.blocks ⟨data, free⟩).Nodup := by
  simp only [Lists.blocks, addresses, List.map_cons, List.cons_append, List.nodup_cons,
    List.mem_append, not_or, and_assoc]

theorem allocate_reuse {m : Memory} {pool : Pool} {x : Addr × List UInt8}
    {data free : List (Addr × List UInt8)} (h : Holds m pool ⟨data, x :: free⟩)
    (block : Addr) (left : List UInt8) :
    ∃ m' pool', allocate m pool block left = some (m', pool', bodyOf x.1) ∧
      Holds m' pool' ⟨x :: data, free⟩ ∧ ∀ b ∉ Lists.blocks ⟨data, x :: free⟩, m' b = m b := by
  obtain ⟨hxd, hxf, hnd⟩ := blocks_cons_free.mp h.nodup
  have hdis := (List.nodup_append'.mp hnd).2.2
  obtain ⟨⟨e, he, -, hnext, hbody⟩, hfree⟩ := h.free
  obtain ⟨m1, hm1, hfree1, hframe1⟩ := hfree.relinkFirst none (List.nodup_append'.mp hnd).2.1
  have he1 : m1 x.1 = some e := (hframe1 x.1 hxf).trans he
  let e2 : Block := { e with next := head none data }
  have hdata2 : Chained layout (Function.update m1 x.1 (some e2)) none data none := by
    refine (h.data.frame fun b hb => hframe1 b ?_).update hxd _
    exact fun hbf => hdis hb hbf
  obtain ⟨m3, hm3, hdata3, hframe3⟩ := hdata2.relinkFirst (some x.1) (List.nodup_append'.mp hnd).1
  have he3 : m3 x.1 = some e2 := (hframe3 x.1 hxd).trans (Function.update_self ..)
  have hother : ∀ b, b ≠ x.1 → b ∉ addresses data →
      Function.update m3 x.1 (some { e2 with pre := none }) b = m1 b := by
    intro b hbx hbd
    rw [Function.update_of_ne hbx, hframe3 b hbd, Function.update_of_ne hbx]
  refine ⟨Function.update m3 x.1 (some { e2 with pre := none }), ⟨some x.1, head none free⟩,
    ?_, ⟨⟨⟨_, Function.update_self .., rfl, rfl, hbody⟩, hdata3.update hxd _⟩, ?_, rfl, rfl, ?_⟩,
    ?_⟩
  · have hn : e.next = head none free := hnext
    dsimp only [layout] at hm1 hm3
    rw [allocate, h.freeElement, h.dataElement, head_cons]
    simp only [he, hn, hm1, Option.bind_eq_bind, Option.bind_some, modify_some he1]
    rw [hm3, Option.bind_some, modify_some he3]
    rfl
  · refine hfree1.frame fun b hb => hother b ?_ fun hbd => hdis hbd hb
    rintro rfl
    exact hxf hb
  · exact blocks_cons_data.mpr ⟨hxd, hxf, hnd⟩
  · intro b hb
    simp only [Lists.blocks, addresses, List.map_cons, List.mem_append, List.mem_cons, not_or] at hb
    rw [hother b hb.2.1 hb.1]
    exact hframe1 b hb.2.2

theorem allocate_new {m : Memory} {pool : Pool} {data : List (Addr × List UInt8)}
    (h : Holds m pool ⟨data, []⟩) {block : Addr} (hb : m block = none) (left : List UInt8) :
    ∃ m' pool', allocate m pool block left = some (m', pool', bodyOf block) ∧
      Holds m' pool' ⟨(block, left) :: data, []⟩ ∧
        ∀ b ∉ Lists.blocks ⟨(block, left) :: data, []⟩, m' b = m b := by
  have hnew : block ∉ addresses data := fun hmem => h.data.allocated hmem hb
  have hnd := (List.nodup_append'.mp h.nodup).1
  have hdata1 := h.data.update hnew (some ⟨none, none, left⟩)
  obtain ⟨m2, hm2, hdata2, hframe2⟩ := hdata1.relinkFirst (some block) hnd
  have he2 : m2 block = some ⟨none, none, left⟩ :=
    (hframe2 block hnew).trans (Function.update_self ..)
  refine ⟨Function.update m2 block (some ⟨none, head none data, left⟩), ⟨some block, none⟩, ?_,
    ⟨⟨⟨_, Function.update_self .., rfl, rfl, rfl⟩, hdata2.update hnew _⟩, trivial, rfl, rfl, ?_⟩,
    ?_⟩
  · dsimp only [layout] at hm2
    have hfree : pool.freeElement = none := h.freeElement
    rw [allocate, hfree]
    simp only [allocateBlock, alloc, hb, Option.bind_eq_bind, Option.bind_some, h.dataElement]
    rw [hm2, Option.bind_some, modify_some he2, Option.bind_some, hfree]
    rfl
  · exact blocks_cons_data.mpr ⟨hnew, List.not_mem_nil, h.nodup⟩
  · intro b hb
    simp only [Lists.blocks, addresses, List.map_cons, List.mem_append, List.mem_cons, not_or] at hb
    rw [Function.update_of_ne hb.1.1, hframe2 b hb.1.2, Function.update_of_ne hb.1.1]

theorem blocks_middle {before after free : List (Addr × List UInt8)} {a : Addr}
    {body : List UInt8} : (Lists.blocks ⟨before ++ (a, body) :: after, free⟩).Nodup ↔
      (a ∉ addresses before ∧ a ∉ addresses after ∧ a ∉ addresses free) ∧
        (Lists.blocks ⟨before ++ after, free⟩).Nodup := by
  have h := @List.nodup_middle _ a (addresses before) (addresses after ++ addresses free)
  simp only [Lists.blocks, addresses, List.map_append, List.map_cons, List.append_assoc,
    List.cons_append] at h ⊢
  rw [h, List.nodup_cons, List.mem_append, List.mem_append, not_or, not_or]

def cleared (BlockSize : Nat) (ZeroOnDeallocate : Bool) (body : List UInt8) : List UInt8 :=
  if ZeroOnDeallocate then List.replicate (bodySize BlockSize) 0 else body

theorem zeroBody_holds (BlockSize : Nat) (ZeroOnDeallocate : Bool) {m : Memory} {a : Addr}
    {e : Block} (he : m a = some e) :
    ∃ m', zeroBody BlockSize ZeroOnDeallocate m a = some m' ∧
      m' a = some { e with body := cleared BlockSize ZeroOnDeallocate e.body } ∧
      ∀ b, b ≠ a → m' b = m b := by
  cases ZeroOnDeallocate with
  | false => exact ⟨m, rfl, he, fun _ _ => rfl⟩
  | true =>
      exact ⟨_, modify_some he _, Function.update_self .., fun b hb => Function.update_of_ne hb ..⟩

theorem pushFree_holds {m : Memory} {free : List (Addr × List UInt8)} {a : Addr} {e : Block}
    (hfree : Chained layout m none free none) (hnd : (addresses free).Nodup)
    (haf : a ∉ addresses free) (he : m a = some e) :
    ∃ m', (do
      let m ← modify m a (fun e => { e with pre := none })
      let m ← modify m a (fun e => { e with next := head none free })
      modifyIf m (head none free) (fun e => { e with pre := some a })) = some m' ∧
      Chained layout m' none ((a, e.body) :: free) none ∧
      ∀ b, b ≠ a → b ∉ addresses free → m' b = m b := by
  have hlinked := (hfree.update haf (some { e with pre := none })).update haf
    (some ⟨none, head none free, e.body⟩)
  obtain ⟨m', hm', hfree', hframe⟩ := hlinked.relinkFirst (some a) hnd
  dsimp only [layout] at hm'
  refine ⟨m', ?_, ⟨⟨_, (hframe a haf).trans (Function.update_self ..), rfl, rfl, rfl⟩, hfree'⟩,
    fun b hba hbf => ?_⟩
  · rw [modify_some he, Option.bind_eq_bind, Option.bind_some,
      modify_some (Function.update_self ..), Option.bind_some]
    exact hm'
  · rw [hframe b hbf, Function.update_of_ne hba, Function.update_of_ne hba]

/-- The first block of the data list, when a block has left it from any place in it. -/
theorem dataElement_unlinked {before after : List (Addr × List UInt8)} {x : Addr × List UInt8}
    {e : Block} (hpre : e.pre = last none before) (hnext : e.next = head none after) :
    (if e.pre = none then e.next else head none (before ++ x :: after)) =
      head none (before ++ after) := by
  rw [hpre, hnext, head_append, head_append]
  cases before with
  | nil => rfl
  | cons y ys => rw [if_neg (by rw [last_eq, List.map_cons, List.getLast?_cons]; simp)]; rfl

/-- A block leaves the data list from any place in it, and becomes the first
block of the free list. -/
theorem deallocate_holds {m : Memory} {pool : Pool} {before after free : List (Addr × List UInt8)}
    {a : Addr} {body : List UInt8} (BlockSize : Nat) (ZeroOnDeallocate : Bool)
    (h : Holds m pool ⟨before ++ (a, body) :: after, free⟩) :
    ∃ m' pool', deallocate BlockSize ZeroOnDeallocate m pool (some (a + sizeofElement)) =
        some (m', pool') ∧
      Holds m' pool' ⟨before ++ after, (a, cleared BlockSize ZeroOnDeallocate body) :: free⟩ ∧
        ∀ b ∉ Lists.blocks ⟨before ++ (a, body) :: after, free⟩, m' b = m b := by
  obtain ⟨⟨hab, haa, haf⟩, hnd⟩ := blocks_middle.mp h.nodup
  obtain ⟨hnd', hndf, hdisf⟩ := List.nodup_append'.mp hnd
  obtain ⟨hbefore, ⟨e, he, hpre, hnext, hbody⟩, hafter⟩ := chained_append.mp h.data
  obtain rfl : e.body = body := hbody
  have hfreeb : ∀ b ∈ addresses free, b ∉ addresses before ∧ b ∉ addresses after := by
    intro b hb
    exact ⟨fun hbb => hdisf (mem_addresses_append.mpr (.inl hbb)) hb,
      fun hba => hdisf (mem_addresses_append.mpr (.inr hba)) hb⟩
  obtain ⟨m1, hm1, he1, hframe1⟩ := zeroBody_holds BlockSize ZeroOnDeallocate he
  have hframe1' {xs : List (Addr × List UInt8)} (hx : a ∉ addresses xs) :
      ∀ b ∈ xs.map Prod.fst, m1 b = m b := by
    rintro b hb
    apply hframe1
    rintro rfl
    exact hx hb
  obtain ⟨m2, m3, hm2, hm3, hdata3, hframe2, hframe3⟩ :=
    (hbefore.frame (hframe1' hab)).relinkAround (hafter.frame (hframe1' haa)) hnd'
  have he2 := (hframe2 a hab).trans he1
  have he3 := (hframe3 a haa).trans he2
  have hframe3' : ∀ b ∈ addresses free, m3 b = m b := by
    intro b hb
    have hba : b ≠ a := fun hba => haf (hba ▸ hb)
    rw [hframe3 b (hfreeb b hb).2, hframe2 b (hfreeb b hb).1, hframe1 b hba]
  obtain ⟨m6, hm6, hfree6, hframe6⟩ := pushFree_holds (h.free.frame hframe3') hndf haf he3
  refine ⟨m6, ⟨head none (before ++ after), some a⟩, ?_, ⟨?_, hfree6, rfl, rfl, ?_⟩, ?_⟩
  · have hpool := dataElement_unlinked (x := (a, e.body)) hpre hnext
    dsimp only [layout] at hm2 hm3 hpre hnext
    rw [hpre, hnext] at hpool
    rw [Option.bind_eq_bind, ← Option.bind_assoc] at hm6
    rw [deallocate, Nat.add_sub_cancel]
    simp only [hm1, he1, Option.bind_eq_bind, Option.bind_some]
    rw [hpre, hnext, hm2, Option.bind_some, he2]
    simp only [Option.bind_some]
    rw [hpre, hnext, hm3, Option.bind_some, he3]
    simp only [Option.bind_some, h.freeElement, h.dataElement, hpre, hnext, hpool]
    rw [← Option.bind_assoc, ← Option.bind_assoc, hm6, Option.bind_some]
  · refine hdata3.frame fun b hb => hframe6 b ?_ fun hbf => ?_
    · rintro rfl
      exact (mem_addresses_append.mp hb).elim hab haa
    · exact hdisf hb hbf
  · refine blocks_cons_free.mpr ⟨fun hm => ?_, haf, hnd⟩
    exact (mem_addresses_append.mp hm).elim hab haa
  · intro b hb
    simp only [Lists.blocks, List.mem_append, mem_addresses_append, not_or] at hb
    obtain ⟨⟨hbb, hba⟩, hbf⟩ := hb
    obtain ⟨hne, hba⟩ : b ≠ a ∧ b ∉ addresses after := by simpa [addresses] using hba
    rw [hframe6 b hne hbf, hframe3 b hba, hframe2 b hbb, hframe1 b hne]

theorem write_holds {m : Memory} {pool : Pool} {before after free : List (Addr × List UInt8)}
    {a : Addr} {old : List UInt8} (body : List UInt8)
    (h : Holds m pool ⟨before ++ (a, old) :: after, free⟩) :
    ∃ m', modify m a (fun e => { e with body := body }) = some m' ∧
      Holds m' pool ⟨before ++ (a, body) :: after, free⟩ ∧ ∀ b, b ≠ a → m' b = m b := by
  obtain ⟨⟨hab, haa, haf⟩, hnd⟩ := blocks_middle.mp h.nodup
  obtain ⟨hbefore, hrest⟩ := chained_append.mp h.data
  obtain ⟨⟨e, he, -⟩, -⟩ := id hrest
  refine ⟨_, modify_some he _, ⟨?_, h.free.update haf _, ?_, h.freeElement,
    blocks_middle.mpr ⟨⟨hab, haa, haf⟩, hnd⟩⟩, fun b hb => Function.update_of_ne hb ..⟩
  · exact chained_append.mpr ⟨hbefore.update hab _,
      hrest.setValue haa he (d := { e with body := body }) rfl rfl rfl⟩
  · rw [h.dataElement, head_append, head_append]
    rfl

/-- A loop of the destructor gives back every block of its list, and each one once. -/
theorem deleteAll_chained {m : Memory} {p : Option Addr} {xs : List (Addr × List UInt8)}
    (hc : Chained layout m p xs none) (hnd : (addresses xs).Nodup) :
    ∃ m', (∀ fuel, xs.length ≤ fuel →
        deleteAll fuel m (head none xs) = some (m', addresses xs)) ∧
      (∀ b ∈ addresses xs, m' b = none) ∧ ∀ b ∉ addresses xs, m' b = m b := by
  induction xs generalizing m p with
  | nil =>
      refine ⟨m, fun fuel _ => ?_, fun b hb => absurd hb List.not_mem_nil, fun _ _ => rfl⟩
      cases fuel <;> rfl
  | cons x xs ih =>
      obtain ⟨hx, hnd⟩ := List.nodup_cons.mp hnd
      obtain ⟨⟨e, he, -, hnext, -⟩, hrest⟩ := hc
      obtain ⟨m', hdelete, hgone, hframe⟩ := ih (hrest.update hx none) hnd
      refine ⟨m', fun fuel hfuel => ?_, fun b hb => ?_, fun b hb => ?_⟩
      · cases fuel with
        | zero => exact absurd hfuel (Nat.not_succ_le_zero _)
        | succ fuel =>
            have hn : e.next = head none xs := hnext
            have hrec := hdelete fuel (Nat.le_of_succ_le_succ hfuel)
            rw [head_cons, deleteAll, he, free, he]
            simp only [Option.map_some, Option.bind_eq_bind, Option.bind_some, hn, hrec]
            rfl
      · by_cases hb' : b ∈ addresses xs
        · exact hgone b hb'
        · obtain rfl : b = x.1 := by
            simpa [addresses] using (List.mem_cons.mp hb).resolve_right hb'
          rw [hframe _ hb', Function.update_self]
      · obtain ⟨hne, hb'⟩ : b ≠ x.1 ∧ b ∉ addresses xs := by simpa [addresses] using hb
        rw [hframe b hb', Function.update_of_ne hne]

theorem deleteAll_steady (m : Memory) (p : Option Addr) :
    Fuel.Steady fun fuel => deleteAll fuel m p := by
  intro fuel
  induction fuel generalizing m p with
  | zero =>
      intro r h
      cases p with
      | none => exact h
      | some curr => exact absurd h (by simp [deleteAll])
  | succ fuel ih =>
      intro r h
      cases p with
      | none => exact h
      | some curr =>
          exact Fuel.bind_steady h (fun _ he => he) fun e h =>
            Fuel.bind_steady h (fun _ hm => hm) fun m h =>
              Fuel.bind_steady h (ih m e.next) fun _ hr => hr

theorem destroy_steady (m : Memory) (pool : Pool) :
    Fuel.Steady fun fuel => destroy fuel m pool := by
  intro fuel r h
  exact Fuel.bind_steady h (deleteAll_steady m pool.dataElement fuel) fun x h =>
    Fuel.bind_steady h (deleteAll_steady x.1 pool.freeElement fuel) fun _ hr => hr

theorem destroy_holds {m : Memory} {pool : Pool} {l : Lists} (h : Holds m pool l) :
    ∃ m', (∀ fuel, l.blocks.length ≤ fuel → destroy fuel m pool = some (m', l.blocks)) ∧
      (∀ b ∈ l.blocks, m' b = none) ∧ ∀ b ∉ l.blocks, m' b = m b := by
  obtain ⟨hnd, hnd', hdis⟩ := List.nodup_append'.mp h.nodup
  obtain ⟨m1, hdelete1, hgone1, hframe1⟩ := deleteAll_chained h.data hnd
  obtain ⟨m2, hdelete2, hgone2, hframe2⟩ :=
    deleteAll_chained (h.free.frame fun b hb => hframe1 b fun hd => hdis hd hb) hnd'
  refine ⟨m2, fun fuel hfuel => ?_, fun b hb => ?_, fun b hb => ?_⟩
  · have hlen : l.data.length ≤ fuel ∧ l.free.length ≤ fuel := by
      rw [Lists.blocks, List.length_append, addresses, addresses, List.length_map,
        List.length_map] at hfuel
      omega
    rw [destroy, h.dataElement, hdelete1 fuel hlen.1, h.freeElement]
    simp only [Option.bind_eq_bind, Option.bind_some]
    rw [hdelete2 fuel hlen.2]
    rfl
  · by_cases hf : b ∈ addresses l.free
    · exact hgone2 b hf
    · rw [hframe2 b hf]
      exact hgone1 b ((List.mem_append.mp hb).resolve_right hf)
  · obtain ⟨hd, hf⟩ := not_or.mp fun ho => hb (List.mem_append.mpr ho)
    rw [hframe2 b hf, hframe1 b hd]

end Ashe.MemoryPoolLists
