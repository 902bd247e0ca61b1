import Ashe.ConfigorAccess
import Mathlib.Data.List.Infix

namespace Ashe.ConfigorLens

open ConfigorText ConfigorAccess Buffers

def read (memory : Bool) (path : List Text) (i : UInt64) (defaultValue : Text) (e : Element) :
    Option Text :=
  (reach path (getString memory i defaultValue) e).bind Prod.fst

/-- What is stored at an index of a path is read there, gaps before it read as
empty, and all that was there reads as before. -/
def SetLaw (memory : Bool) (e : Element) (path : List Text) (i : UInt64) (value : Text) : Prop :=
  ∃ e', reach path (ConfigorAccess.set memory value i) e = some (some (), e') ∧
    (∀ m d, read m path i d e' = some value) ∧
    (∀ m j d, (node path e).values.length ≤ j.toNat → j.toNat < i.toNat →
      read m path j d e' = some []) ∧
    ∀ m other j d, (other, j) ≠ (path, i) → j.toNat < (node other e).values.length →
      read m other j d e' = read m other j d e

/-- Of the children at a path the first so named goes, and the others stay. All
paths but those through that name read as before. -/
def RemoveLaw (e : Element) (path : List Text) (name : Text) : Prop :=
  ∃ e', (reach path (removeElement name) e).map Prod.snd = some e' ∧
    (∀ before removed after, (node path e).children = before ++ removed :: after →
      (∀ d ∈ before, d.name ≠ name) → removed.name = name →
      (node path e').children = before ++ after) ∧
    ((∀ d ∈ (node path e).children, d.name ≠ name) →
      (node path e').children = (node path e).children) ∧
    ∀ m other j d, ¬ path ++ [name] <+: other → j.toNat < (node other e).values.length →
      read m other j d e' = read m other j d e

def Lens (memory : Bool) (e : Element) (path : List Text) (i : UInt64) (value : Text) : Prop :=
  SetLaw memory e path i value ∧ ∀ at' name, RemoveLaw e at' name

theorem toNat_succ {i : UInt64} (h : i + 1 ≠ 0) : (i + 1).toNat = i.toNat + 1 := by
  have hne : (i + 1).toNat ≠ 0 := fun hz => h (UInt64.toNat_inj.mp hz)
  have hlt := i.toNat_lt
  rw [UInt64.toNat_add] at hne ⊢
  have h1 : (1 : UInt64).toNat = 1 := rfl
  rw [h1] at hne ⊢
  omega

def Granted (memory : Bool) (i : UInt64) : Prop := i.toNat < MAX_SIZE ∧ memory = true

theorem Granted.succ {memory : Bool} {i : UInt64} (h : Granted memory i) : i + 1 ≠ 0 := by
  intro hz
  have hsum := congrArg UInt64.toNat hz
  have hlt := h.1
  rw [UInt64.toNat_add] at hsum
  have h1 : (1 : UInt64).toNat = 1 := rfl
  have h0 : (0 : UInt64).toNat = 0 := rfl
  rw [h1, h0] at hsum
  rw [MAX_SIZE] at hlt
  omega

/-- The values grow by empty ones up to the index, and by one at it. -/
theorem resize_granted {memory : Bool} {values : List Text} {i : UInt64}
    (hi : values.length ≤ i.toNat) (h : Granted memory i) :
    resize memory values (i + 1).toNat =
      some (values ++ List.replicate (i.toNat - values.length) [] ++ [[]]) := by
  have hgap : i.toNat + 1 - values.length = i.toNat - values.length + 1 := by omega
  have hlarge : ¬ i.toNat + 1 ≤ values.length := by omega
  rw [resize, toNat_succ h.succ, if_neg hlarge, if_pos ⟨h.1, h.2⟩, hgap, List.replicate_succ',
    List.append_assoc]

theorem resize_refused {memory : Bool} {values : List Text} {i : UInt64}
    (hi : values.length ≤ i.toNat) (h : ¬ Granted memory i) (hs : i + 1 ≠ 0) :
    resize memory values (i + 1).toNat = none := by
  have hlarge : ¬ i.toNat + 1 ≤ values.length := by omega
  have hfits : ¬ (i.toNat + 1 ≤ MAX_SIZE ∧ memory = true) := h
  rw [resize, toNat_succ hs, if_neg hlarge, if_neg hfits]

theorem resize_wrapped (memory : Bool) (values : List Text) {i : UInt64} (h : i + 1 = 0) :
    resize memory values (i + 1).toNat = some [] := by
  rw [h]
  rfl

/-- The write behind the resize is outside of the vector where this has wrapped. -/
theorem store_nil (i : Nat) (value : Text) : store ([] : List Text) i value = none := by
  rw [store, if_neg (by simp)]

theorem store_grown {values : List Text} {i : Nat} (hi : values.length ≤ i) (value : Text) :
    store (values ++ List.replicate (i - values.length) [] ++ [[]]) i value =
      some (values ++ List.replicate (i - values.length) [] ++ [value]) := by
  have hlen : i = (values ++ List.replicate (i - values.length) []).length := by
    rw [List.length_append, List.length_replicate]
    omega
  exact store_middle _ [] [] value hlen

theorem getString_inside {i : UInt64} {e : Element} (memory : Bool) (d : Text)
    (h : i.toNat < e.values.length) :
    getString memory i d e = some (some (e.values.getD i.toNat []), e) := by
  rw [getString, if_neg (by omega)]

theorem read_inside {path : List Text} {i : UInt64} {e : Element} (memory : Bool) (d : Text)
    (h : i.toNat < (node path e).values.length) :
    read memory path i d e = some ((node path e).values.getD i.toNat []) := by
  rw [read, reach_eq, getString_inside memory d h]
  rfl

def stored (values : List Text) (i : Nat) (value : Text) : List Text :=
  if i < values.length then values.set i value
  else values ++ List.replicate (i - values.length) [] ++ [value]

theorem set_eq {memory : Bool} {e : Element} {i : UInt64}
    (h : i.toNat < e.values.length ∨ Granted memory i) (value : Text) :
    ConfigorAccess.set memory value i e =
      some (some (), { e with values := stored e.values i.toNat value }) := by
  rw [ConfigorAccess.set, stored]
  by_cases hi : i.toNat < e.values.length
  · have hge : ¬ i.toNat ≥ e.values.length := by omega
    simp [if_neg hge, store, hi]
  · have hge : e.values.length ≤ i.toNat := by omega
    simp only [if_neg hi, ge_iff_le, if_pos hge, resize_granted hge (h.resolve_left hi),
      store_grown hge, Option.bind_eq_bind, Option.bind_some]

/-- Where the vector cannot grow, set throws or writes outside of it. -/
theorem set_refused {memory : Bool} {e : Element} {i : UInt64}
    (h : ¬ (i.toNat < e.values.length ∨ Granted memory i)) (value : Text) (e' : Element) :
    ConfigorAccess.set memory value i e ≠ some (some (), e') := by
  obtain ⟨hi, hgranted⟩ := not_or.mp h
  have hge : e.values.length ≤ i.toNat := Nat.le_of_not_lt hi
  rw [ConfigorAccess.set]
  by_cases hs : i + 1 = 0
  · simp only [ge_iff_le, if_pos hge, resize_wrapped memory e.values hs, store_nil,
      Option.bind_eq_bind, Option.bind_none]
    exact (Option.some_ne_none _).symm
  · simp only [ge_iff_le, if_pos hge, resize_refused hge hgranted hs]
    intro hthrown
    exact absurd (Prod.mk.inj (Option.some.inj hthrown)).1 (by simp)

theorem stored_length (values : List Text) (i : Nat) (value : Text) :
    (stored values i value).length = max values.length (i + 1) := by
  rw [stored]
  split
  next =>
    rw [List.length_set]
    omega
  next =>
    rw [List.length_append, List.length_append, List.length_replicate, List.length_singleton]
    omega

theorem stored_self (values : List Text) (i : Nat) (value : Text) :
    (stored values i value).getD i [] = value := by
  rw [List.getD_eq_getElem?_getD, stored]
  split
  next h => rw [List.getElem?_set_self h, Option.getD_some]
  next h =>
    rw [List.getElem?_append_right (by simp; omega)]
    have hlast : i - (values ++ List.replicate (i - values.length) []).length = 0 := by
      rw [List.length_append, List.length_replicate]
      omega
    rw [hlast]
    rfl

theorem stored_gap {values : List Text} {i j : Nat} (value : Text) (hj : values.length ≤ j)
    (hi : j < i) : (stored values i value).getD j [] = [] := by
  rw [List.getD_eq_getElem?_getD, stored, if_neg (by omega),
    List.getElem?_append_left (by simp; omega), List.getElem?_append_right hj,
    List.getElem?_replicate_of_lt (by omega), Option.getD_some]

theorem stored_other {values : List Text} {i j : Nat} (value : Text) (hj : j < values.length)
    (hne : j ≠ i) : (stored values i value).getD j [] = values.getD j [] := by
  rw [List.getD_eq_getElem?_getD, List.getD_eq_getElem?_getD, stored]
  split
  next => rw [List.getElem?_set_ne hne.symm]
  next =>
    rw [List.append_assoc, List.getElem?_append_left hj]

theorem set_law {memory : Bool} {e : Element} {path : List Text} {i : UInt64}
    (h : i.toNat < (node path e).values.length ∨ Granted memory i) (value : Text) :
    SetLaw memory e path i value := by
  obtain ⟨new, hnew⟩ : ∃ new, new = { node path e with
    values := stored (node path e).values i.toNat value } := ⟨_, rfl⟩
  have hname : new.name = (node path e).name := by rw [hnew]
  have hself : (node path (graft new path e)).values =
      stored (node path e).values i.toNat value := by
    rw [node_graft_self hname, hnew]
  have hlen := stored_length (node path e).values i.toNat value
  refine ⟨graft new path e, ?_, ?_, ?_, ?_⟩
  · rw [reach_eq, set_eq h, hnew]
    rfl
  · intro m d
    rw [read_inside m d (by rw [hself]; omega), hself, stored_self]
  · intro m j d hj hji
    rw [read_inside m d (by rw [hself]; omega), hself, stored_gap value hj hji]
  · intro m other j d hne hj
    by_cases ho : other = path
    · -- another index of the same node
      rw [ho] at hj hne ⊢
      have hji : j.toNat ≠ i.toNat := by
        intro hij
        exact hne (by rw [UInt64.toNat_inj.mp hij])
      rw [read_inside m d (by rw [hself]; omega), read_inside m d hj, hself,
        stored_other value hj hji]
    · -- the children of the node are what they were
      have hvalues : (node other (graft new path e)).values = (node other e).values := by
        apply node_graft_values hname
        intro rest hrest
        cases rest with
        | nil => exact absurd (hrest.trans (List.append_nil path)) ho
        | cons name rest => rw [node, node, hnew]
      rw [read_inside m d (by rw [hvalues]; exact hj), read_inside m d hj, hvalues]

theorem remove_law (e : Element) (path : List Text) (name : Text) : RemoveLaw e path name := by
  obtain ⟨new, hnew⟩ : ∃ new, new = { node path e with
    children := erase name (node path e).children } := ⟨_, rfl⟩
  have hname : new.name = (node path e).name := by rw [hnew]
  refine ⟨graft new path e, ?_, ?_, ?_, ?_⟩
  · rw [reach_eq, removeElement, hnew]
    rfl
  · intro before removed after hsplit hbefore hremoved
    rw [node_graft_self hname, hnew, hsplit]
    exact erase_first before after hbefore hremoved
  · intro hnone
    rw [node_graft_self hname, hnew]
    exact erase_absent hnone
  · intro m other j d hprefix hj
    have hvalues : (node other (graft new path e)).values = (node other e).values := by
      apply node_graft_values hname
      intro rest hrest
      cases rest with
      | nil => rw [node, node, hnew]
      | cons first rest =>
          have hne : first ≠ name := by
            rintro rfl
            exact hprefix ⟨rest, by rw [hrest, List.append_assoc]; rfl⟩
          rw [node, node, hnew, child_erase_ne _ hne]
    rw [read_inside m d (by rw [hvalues]; exact hj), read_inside m d hj, hvalues]

/-- The laws hold for every tree and path. With the greatest index the size
that set asks for is zero, and the write is outside of the values; with another
that the vector cannot grow to, set throws and stores nothing. -/
theorem lens_iff (memory : Bool) (e : Element) (path : List Text) (i : UInt64) (value : Text) :
    Lens memory e path i value ↔
      i.toNat < (node path e).values.length ∨ i.toNat < MAX_SIZE ∧ memory = true := by
  constructor
  · rintro ⟨⟨e', he', -⟩, -⟩
    by_contra h
    rw [reach_eq] at he'
    obtain ⟨r, hr, hpair⟩ := Option.map_eq_some_iff.mp he'
    obtain ⟨hanswer, -⟩ := Prod.mk.inj hpair
    exact set_refused h value r.2 (by rw [hr, ← hanswer])
  · exact fun h => ⟨set_law h value, remove_law e⟩

/-- The greatest index, on an element without values. -/
theorem set_greatest_index : ¬ ∀ e path i value, Lens true e path i value := by
  intro h
  obtain ⟨⟨e', he', -⟩, -⟩ := h ⟨[], [], []⟩ [['a']] 18446744073709551615 ['1']
  have hnone : reach [['a']] (ConfigorAccess.set true ['1'] 18446744073709551615)
      ⟨[], [], []⟩ = none := rfl
  rw [hnone] at he'
  exact absurd he' (by simp)

end Ashe.ConfigorLens
