import Mathlib.Logic.Function.Basic
import Mathlib.Data.List.Induction
import Mathlib.Data.List.Nodup

namespace Ashe.LinkedCells

variable {Addr Cell α : Type}

/-- A memory of cells. A null pointer is none, and a cell that is not allocated
is none as well: reading, changing or freeing it has no result. -/
abbrev Heap (Addr Cell : Type) := Addr → Option Cell

section Heap

variable [DecidableEq Addr]

def alloc (h : Heap Addr Cell) (a : Addr) (c : Cell) : Option (Heap Addr Cell) :=
  match h a with
  | none => some (Function.update h a (some c))
  | some _ => none

theorem alloc_some {h h' : Heap Addr Cell} {a : Addr} {c : Cell} (ha : alloc h a c = some h') :
    h a = none := by
  rw [alloc] at ha
  split at ha
  next hn => exact hn
  next => exact absurd ha (by simp)

theorem alloc_bind_some {β : Type} {h : Heap Addr Cell} {a : Addr} {c : Cell}
    {f : Heap Addr Cell → Option β} {r : β} (hb : (alloc h a c).bind f = some r) : h a = none := by
  obtain ⟨h', ha, -⟩ := Option.bind_eq_some_iff.mp hb
  exact alloc_some ha

def modify (h : Heap Addr Cell) (a : Addr) (f : Cell → Cell) : Option (Heap Addr Cell) :=
  (h a).map (fun c => Function.update h a (some (f c)))

def free (h : Heap Addr Cell) (a : Addr) : Option (Heap Addr Cell) :=
  (h a).map (fun _ => Function.update h a none)

def modifyIf (h : Heap Addr Cell) (p : Option Addr) (f : Cell → Cell) : Option (Heap Addr Cell) :=
  match p with
  | none => some h
  | some a => modify h a f

theorem modify_some {h : Heap Addr Cell} {a : Addr} {c : Cell} (ha : h a = some c)
    (f : Cell → Cell) : modify h a f = some (Function.update h a (some (f c))) := by
  rw [modify, ha, Option.map_some]

end Heap

/-- How a cell stores its two links, and when it holds a given value. -/
structure Layout (Addr Cell α : Type) where
  next : Cell → Option Addr
  prev : Cell → Option Addr
  setNext : Cell → Option Addr → Cell
  setPrev : Cell → Option Addr → Cell
  holds : Cell → α → Prop
  next_setNext : ∀ c q, next (setNext c q) = q
  prev_setNext : ∀ c q, prev (setNext c q) = prev c
  holds_setNext : ∀ c q x, holds c x → holds (setNext c q) x
  prev_setPrev : ∀ c p, prev (setPrev c p) = p
  next_setPrev : ∀ c p, next (setPrev c p) = next c
  holds_setPrev : ∀ c p x, holds c x → holds (setPrev c p) x

def head (q : Option Addr) : List (Addr × α) → Option Addr
  | [] => q
  | x :: _ => some x.1

def last (p : Option Addr) : List (Addr × α) → Option Addr
  | [] => p
  | x :: xs => last (some x.1) xs

/-- The cells of a doubly linked stretch between two outer pointers, with the
values they hold. -/
def Chained (L : Layout Addr Cell α) (h : Heap Addr Cell) :
    Option Addr → List (Addr × α) → Option Addr → Prop
  | _, [], _ => True
  | p, x :: xs, q =>
      (∃ c, h x.1 = some c ∧ L.prev c = p ∧ L.next c = head q xs ∧ L.holds c x.2) ∧
        Chained L h (some x.1) xs q

structure Linked (L : Layout Addr Cell α) (h : Heap Addr Cell) (xs : List (Addr × α)) : Prop where
  chained : Chained L h none xs none
  nodup : (xs.map Prod.fst).Nodup

/-- The addresses that following a link visits, up to the null pointer. -/
def Path (link : Cell → Option Addr) (h : Heap Addr Cell) : Option Addr → List Addr → Prop
  | p, [] => p = none
  | p, a :: as => p = some a ∧ ∃ c, h a = some c ∧ Path link h (link c) as

def cells (link : Cell → Option Addr) (h : Heap Addr Cell) : Nat → Option Addr → List Cell
  | n + 1, some a => match h a with
    | some c => c :: cells link h n (link c)
    | none => []
  | _, _ => []

variable {L : Layout Addr Cell α} {h h' : Heap Addr Cell}

theorem head_cons (q : Option Addr) (x : Addr × α) (xs : List (Addr × α)) :
    head q (x :: xs) = some x.1 := rfl

theorem head_append (q : Option Addr) (xs ys : List (Addr × α)) :
    head q (xs ++ ys) = head (head q ys) xs := by
  cases xs <;> rfl

theorem last_append (p : Option Addr) (xs ys : List (Addr × α)) :
    last p (xs ++ ys) = last (last p xs) ys := by
  induction xs generalizing p with
  | nil => rfl
  | cons x xs ih => exact ih (some x.1)

theorem last_eq (p : Option Addr) (xs : List (Addr × α)) :
    last p xs = ((xs.map Prod.fst).getLast?).or p := by
  induction xs generalizing p with
  | nil => rfl
  | cons x xs ih =>
      rw [last, ih, List.map_cons, List.getLast?_cons]
      cases (xs.map Prod.fst).getLast? <;> rfl

theorem chained_append {p q : Option Addr} {xs ys : List (Addr × α)} :
    Chained L h p (xs ++ ys) q ↔ Chained L h p xs (head q ys) ∧ Chained L h (last p xs) ys q := by
  induction xs generalizing p with
  | nil => exact ⟨fun hy => ⟨trivial, hy⟩, And.right⟩
  | cons x xs ih =>
      rw [List.cons_append, Chained, Chained, ih, head_append, and_assoc]
      rfl

theorem Chained.frame {p q : Option Addr} {xs : List (Addr × α)} (hc : Chained L h p xs q)
    (hh : ∀ a ∈ xs.map Prod.fst, h' a = h a) : Chained L h' p xs q := by
  induction xs generalizing p with
  | nil => trivial
  | cons x xs ih =>
      obtain ⟨⟨c, ha, hl⟩, hr⟩ := hc
      refine ⟨⟨c, ?_, hl⟩, ih hr (fun a ha => hh a (List.mem_cons_of_mem _ ha))⟩
      rw [hh x.1 List.mem_cons_self]
      exact ha

theorem Chained.holds_of_mem {p q : Option Addr} {xs : List (Addr × α)} (hc : Chained L h p xs q)
    {x : Addr × α} (hx : x ∈ xs) : ∃ c, h x.1 = some c ∧ L.holds c x.2 := by
  induction xs generalizing p with
  | nil => exact absurd hx (by simp)
  | cons y ys ih =>
      obtain ⟨⟨c, ha, -, -, hv⟩, hr⟩ := hc
      rcases List.mem_cons.mp hx with rfl | hx
      · exact ⟨c, ha, hv⟩
      · exact ih hr hx

theorem Chained.allocated {p q : Option Addr} {xs : List (Addr × α)} (hc : Chained L h p xs q)
    {a : Addr} (ha : a ∈ xs.map Prod.fst) : h a ≠ none := by
  obtain ⟨x, hx, rfl⟩ := List.mem_map.mp ha
  obtain ⟨c, hc, -⟩ := hc.holds_of_mem hx
  rw [hc]
  simp

theorem Chained.path_next {p : Option Addr} {xs : List (Addr × α)} (hc : Chained L h p xs none) :
    Path L.next h (head none xs) (xs.map Prod.fst) := by
  induction xs generalizing p with
  | nil => rfl
  | cons x xs ih =>
      obtain ⟨⟨c, ha, -, hn, -⟩, hr⟩ := hc
      refine ⟨rfl, c, ha, ?_⟩
      rw [hn]
      exact ih hr

theorem Chained.path_prev {q : Option Addr} {xs : List (Addr × α)} (hc : Chained L h none xs q) :
    Path L.prev h (last none xs) (xs.map Prod.fst).reverse := by
  induction xs using List.reverseRecOn generalizing q with
  | nil => rfl
  | append_singleton xs x ih =>
      obtain ⟨hxs, ⟨c, ha, hp, -⟩, -⟩ := chained_append.mp hc
      rw [last_append, List.map_append, List.reverse_append]
      refine ⟨rfl, c, ha, ?_⟩
      rw [hp]
      exact ih hxs

/-- The cells that following next visits, as any reader of their values sees them. -/
theorem Chained.cells_map {β : Type} {f : Cell → β} {g : α → β}
    (hf : ∀ c x, L.holds c x → f c = g x) {p : Option Addr} {xs : List (Addr × α)}
    (hc : Chained L h p xs none) {n : Nat} (hn : xs.length ≤ n) :
    (cells L.next h n (head none xs)).map f = xs.map (fun x => g x.2) := by
  induction xs generalizing p n with
  | nil => cases n <;> rfl
  | cons x xs ih =>
      obtain ⟨⟨c, ha, -, hx, hv⟩, hr⟩ := hc
      cases n with
      | zero => exact absurd hn (by simp)
      | succ n =>
          rw [head_cons, cells, ha]
          dsimp only
          rw [List.map_cons, List.map_cons, hx, hf c x.2 hv, ih hr (by simpa using hn)]

theorem Linked.fresh {xs : List (Addr × α)} (hl : Linked L h xs) {a : Addr} (ha : h a = none) :
    a ∉ xs.map Prod.fst := fun hmem => hl.chained.allocated hmem ha

section Update

variable [DecidableEq Addr]

theorem Chained.update {p q : Option Addr} {xs : List (Addr × α)} (hc : Chained L h p xs q)
    {a : Addr} (ha : a ∉ xs.map Prod.fst) (c : Option Cell) :
    Chained L (Function.update h a c) p xs q := by
  refine hc.frame ?_
  intro b hb
  apply Function.update_of_ne
  rintro rfl
  exact ha hb

/-- Changing the prev link of the first cell moves the stretch to another
predecessor, and changing the next link of the last cell to another successor. -/
theorem Chained.setPrev (p' : Option Addr) {p q : Option Addr} {x : Addr × α} {xs : List (Addr × α)}
    (hc : Chained L h p (x :: xs) q) (hx : x.1 ∉ xs.map Prod.fst) :
    ∃ c, h x.1 = some c ∧
      Chained L (Function.update h x.1 (some (L.setPrev c p'))) p' (x :: xs) q := by
  obtain ⟨⟨c, ha, -, hn, hv⟩, hr⟩ := hc
  refine ⟨c, ha, ⟨L.setPrev c p', Function.update_self .., L.prev_setPrev c p', ?_, ?_⟩,
    hr.update hx _⟩
  · rw [L.next_setPrev, hn]
  · exact L.holds_setPrev c p' x.2 hv

theorem Chained.setNext (q' : Option Addr) {p q : Option Addr} {x : Addr × α} {xs : List (Addr × α)}
    (hc : Chained L h p (xs ++ [x]) q) (hx : x.1 ∉ xs.map Prod.fst) :
    ∃ c, h x.1 = some c ∧
      Chained L (Function.update h x.1 (some (L.setNext c q'))) p (xs ++ [x]) q' := by
  obtain ⟨hxs, ⟨c, ha, hp, -, hv⟩, -⟩ := chained_append.mp hc
  refine ⟨c, ha, chained_append.mpr ⟨hxs.update hx _, ⟨L.setNext c q', Function.update_self .., ?_,
    L.next_setNext c q', L.holds_setNext c q' x.2 hv⟩, trivial⟩⟩
  rw [L.prev_setNext, hp]

/-- The stretch may be empty, with the null pointer where there is no cell to change. -/
theorem Chained.relinkFirst (p' : Option Addr) {p : Option Addr} {xs : List (Addr × α)}
    (hc : Chained L h p xs none) (hnd : (xs.map Prod.fst).Nodup) :
    ∃ h', modifyIf h (head none xs) (fun c => L.setPrev c p') = some h' ∧
      Chained L h' p' xs none ∧ ∀ b ∉ xs.map Prod.fst, h' b = h b := by
  cases xs with
  | nil => exact ⟨h, rfl, trivial, fun _ _ => rfl⟩
  | cons x xs =>
      obtain ⟨c, ha, hc'⟩ := hc.setPrev p' (List.nodup_cons.mp hnd).1
      refine ⟨_, modify_some ha _, hc', fun b hb => Function.update_of_ne ?_ ..⟩
      rintro rfl
      exact hb List.mem_cons_self

theorem Chained.relinkLast (q' : Option Addr) {q : Option Addr} {xs : List (Addr × α)}
    (hc : Chained L h none xs q) (hnd : (xs.map Prod.fst).Nodup) :
    ∃ h', modifyIf h (last none xs) (fun c => L.setNext c q') = some h' ∧
      Chained L h' none xs q' ∧ ∀ b ∉ xs.map Prod.fst, h' b = h b := by
  rcases List.eq_nil_or_concat xs with rfl | ⟨ys, y, rfl⟩
  · exact ⟨h, rfl, trivial, fun _ _ => rfl⟩
  · rw [List.concat_eq_append] at hc hnd ⊢
    have hy : y.1 ∉ ys.map Prod.fst := by
      rw [List.map_append, List.nodup_append'] at hnd
      exact fun hmem => hnd.2.2 hmem (by simp)
    obtain ⟨c, ha, hc'⟩ := hc.setNext q' hy
    rw [last_append]
    refine ⟨_, modify_some ha _, hc', fun b hb => Function.update_of_ne ?_ ..⟩
    rintro rfl
    exact hb (by simp)

theorem Chained.relinkAround {p q : Option Addr} {xs ys : List (Addr × α)}
    (hxs : Chained L h none xs q) (hys : Chained L h p ys none)
    (hnd : ((xs ++ ys).map Prod.fst).Nodup) :
    ∃ h1 h2, modifyIf h (last none xs) (fun c => L.setNext c (head none ys)) = some h1 ∧
      modifyIf h1 (head none ys) (fun c => L.setPrev c (last none xs)) = some h2 ∧
      Chained L h2 none (xs ++ ys) none ∧ (∀ b ∉ xs.map Prod.fst, h1 b = h b) ∧
      ∀ b ∉ ys.map Prod.fst, h2 b = h1 b := by
  rw [List.map_append] at hnd
  obtain ⟨hndx, hndy, hdis⟩ := List.nodup_append'.mp hnd
  obtain ⟨h1, hm1, hxs1, hframe1⟩ := hxs.relinkLast (head none ys) hndx
  have hys1 : Chained L h1 p ys none := hys.frame fun b hb => hframe1 b fun hbx => hdis hbx hb
  obtain ⟨h2, hm2, hys2, hframe2⟩ := hys1.relinkFirst (last none xs) hndy
  have hxs2 : Chained L h2 none xs (head none ys) :=
    hxs1.frame fun b hb => hframe2 b fun hby => hdis hb hby
  exact ⟨h1, h2, hm1, hm2, chained_append.mpr ⟨hxs2, hys2⟩, hframe1, hframe2⟩

theorem Chained.setValue {p q : Option Addr} {x : Addr × α} {xs : List (Addr × α)}
    (hc : Chained L h p (x :: xs) q) (hx : x.1 ∉ xs.map Prod.fst) {c d : Cell}
    (ha : h x.1 = some c) (hp : L.prev d = L.prev c) (hn : L.next d = L.next c) {y : α}
    (hv : L.holds d y) : Chained L (Function.update h x.1 (some d)) p ((x.1, y) :: xs) q := by
  obtain ⟨⟨c', ha', hp', hn', -⟩, hr⟩ := hc
  obtain rfl : c = c' := Option.some.inj (ha.symm.trans ha')
  exact ⟨⟨d, Function.update_self .., hp.trans hp', hn.trans hn', hv⟩, hr.update hx _⟩

theorem Linked.single {a : Addr} {c : Cell} {x : α} (hp : L.prev c = none) (hn : L.next c = none)
    (hv : L.holds c x) : Linked L (Function.update h a (some c)) [(a, x)] :=
  ⟨⟨⟨c, Function.update_self .., hp, hn, hv⟩, trivial⟩, List.nodup_singleton a⟩

theorem Linked.pushFront {y : Addr × α} {ys : List (Addr × α)} (hl : Linked L h (y :: ys))
    {a : Addr} (ha : h a = none) {c : Cell} {x : α} (hp : L.prev c = none)
    (hn : L.next c = some y.1) (hv : L.holds c x) :
    ∃ h', (alloc h a c).bind (fun h => modify h y.1 (fun c => L.setPrev c (some a))) = some h' ∧
      Linked L h' ((a, x) :: y :: ys) := by
  have hfresh := hl.fresh ha
  have hya : y.1 ≠ a := fun he => hfresh (by simp [he])
  have hys := (List.nodup_cons.mp hl.nodup).1
  obtain ⟨d, hd, hc⟩ := (hl.chained.update hfresh (some c)).setPrev (some a) hys
  refine ⟨_, ?_, ⟨⟨c, ?_, hp, hn, hv⟩, hc⟩, List.nodup_cons.mpr ⟨hfresh, hl.nodup⟩⟩
  · simp only [alloc, ha, Option.bind_some, modify, hd, Option.map_some]
  · rw [Function.update_of_ne hya.symm, Function.update_self]

theorem Linked.popFront {x y : Addr × α} {ys : List (Addr × α)} (hl : Linked L h (x :: y :: ys)) :
    ∃ h', (modify h y.1 (fun c => L.setPrev c none)).bind (fun h => free h x.1) = some h' ∧
      Linked L h' (y :: ys) := by
  obtain ⟨hx, hnd⟩ := List.nodup_cons.mp hl.nodup
  have hxy : x.1 ≠ y.1 := fun he => hx (by simp [he])
  obtain ⟨⟨cx, hcx, -⟩, hrest⟩ := hl.chained
  obtain ⟨d, hd, hc⟩ := Chained.setPrev none hrest (List.nodup_cons.mp hnd).1
  refine ⟨_, ?_, hc.update hx none, hnd⟩
  simp only [modify, hd, Option.map_some, Option.bind_some, free, Function.update_of_ne hxy, hcx]

theorem Linked.pushLast {y : Addr × α} {ys : List (Addr × α)} (hl : Linked L h (ys ++ [y]))
    {a : Addr} (ha : h a = none) {c : Cell} {x : α} (hp : L.prev c = some y.1)
    (hn : L.next c = none) (hv : L.holds c x) :
    ∃ h', (alloc h a c).bind (fun h => modify h y.1 (fun c => L.setNext c (some a))) = some h' ∧
      Linked L h' (ys ++ [y] ++ [(a, x)]) := by
  have hfresh := hl.fresh ha
  have hya : y.1 ≠ a := fun he => hfresh (by simp [he])
  have hys : y.1 ∉ ys.map Prod.fst := by
    have hnd := hl.nodup
    rw [List.map_append, List.nodup_append'] at hnd
    exact fun hmem => hnd.2.2 hmem (by simp)
  obtain ⟨d, hd, hc⟩ := (hl.chained.update hfresh (some c)).setNext (some a) hys
  refine ⟨_, ?_, chained_append.mpr ⟨hc, ⟨c, ?_, ?_, hn, hv⟩, trivial⟩, ?_⟩
  · simp only [alloc, ha, Option.bind_some, modify, hd, Option.map_some]
  · rw [Function.update_of_ne hya.symm, Function.update_self]
  · rw [hp, last_append]
    rfl
  · rw [List.map_append]
    exact hl.nodup.append (List.nodup_singleton a) (by simpa using hfresh)

theorem Linked.popLast {x y : Addr × α} {ys : List (Addr × α)}
    (hl : Linked L h (ys ++ [y] ++ [x])) :
    ∃ h', (modify h y.1 (fun c => L.setNext c none)).bind (fun h => free h x.1) = some h' ∧
      Linked L h' (ys ++ [y]) := by
  have hnd := hl.nodup
  rw [List.map_append, List.nodup_append'] at hnd
  obtain ⟨hnd', -, hdis⟩ := hnd
  have hx : x.1 ∉ (ys ++ [y]).map Prod.fst := fun hmem => hdis hmem (by simp)
  have hxy : x.1 ≠ y.1 := fun he => hx (by simp [he])
  have hys : y.1 ∉ ys.map Prod.fst := by
    rw [List.map_append, List.nodup_append'] at hnd'
    exact fun hmem => hnd'.2.2 hmem (by simp)
  obtain ⟨hc, ⟨cx, hcx, -⟩, -⟩ := chained_append.mp hl.chained
  obtain ⟨d, hd, hc⟩ := hc.setNext none hys
  refine ⟨_, ?_, hc.update hx none, hnd'⟩
  simp only [modify, hd, Option.map_some, Option.bind_some, free, Function.update_of_ne hxy, hcx]

end Update

end Ashe.LinkedCells
