import Mathlib.Algebra.Group.Nat.Defs
import Ashe.EnvVariable
import Ashe.Fuel
import Ashe.Separated

namespace Ashe.EnvPathList

open EnvVariable Fuel Separated StrSplit

def IsPath (p : WString) : Prop := p ≠ [] ∧ wide ';' ∉ p

def joined (l : List WString) : WString := List.intercalate [wide ';'] l

def opening (done : List WString) : WString := if done = [] then [] else joined done ++ [wide ';']

def closing (todo : List WString) : WString := if todo = [] then [] else wide ';' :: joined todo

theorem joined_cons (e : WString) (todo : List WString) :
    joined (e :: todo) = e ++ closing todo := by
  rw [joined, closing]
  split
  next h => rw [h, List.intercalate_singleton, List.append_nil]
  next h =>
    rw [List.intercalate_cons_of_ne_nil h, List.append_assoc]
    rfl

theorem joined_append (done : List WString) {todo : List WString} (h : todo ≠ []) :
    joined (done ++ todo) = opening done ++ joined todo := by
  rw [opening]
  split
  next hdone => rw [hdone, List.nil_append, List.nil_append]
  next hdone => exact intercalate_append hdone h

theorem joined_split (done todo : List WString) (e : WString) :
    joined (done ++ e :: todo) = opening done ++ (e ++ closing todo) := by
  rw [joined_append done (List.cons_ne_nil e todo), joined_cons]

theorem opening_snoc (done : List WString) (e : WString) :
    opening (done ++ [e]) = opening done ++ (e ++ [wide ';']) := by
  rw [opening, if_neg (by simp), joined_split, closing, if_pos rfl]
  simp

theorem closing_eq_nil_or (todo : List WString) :
    closing todo = [] ∨ ∃ rest, closing todo = wide ';' :: rest := by
  rw [closing]
  split
  next => exact .inl rfl
  next => exact .inr ⟨_, rfl⟩

section Occurrences

variable {p e : WString} {done todo : List WString} {i : Nat}

theorem prefix_of_closing (hp : IsPath p) (h : p <+: e ++ closing todo) : p <+: e := by
  cases closing_eq_nil_or todo with
  | inl hnil => rwa [hnil, List.append_nil] at h
  | inr hcons =>
      obtain ⟨rest, hrest⟩ := hcons
      rw [hrest] at h
      rcases List.prefix_or_prefix_of_prefix h (List.prefix_append e _) with hle | hle
      · exact hle
      · obtain ⟨t, rfl⟩ := hle
        rw [List.prefix_append_right_inj] at h
        cases t with
        | nil => exact (List.append_nil e).symm ▸ List.prefix_refl e
        | cons c t =>
            obtain ⟨rfl, -⟩ := List.cons_prefix_cons.mp h
            exact absurd (by simp) hp.2

theorem getElem?_behind (a b : WString) (j : Nat) : (a ++ b)[a.length + j]? = b[j]? := by
  rw [List.getElem?_append_right (Nat.le_add_right ..), Nat.add_sub_cancel_left]

theorem not_separator_inside (he : wide ';' ∉ e) {j : Nat} (hj : j < e.length) :
    (joined (done ++ e :: todo))[(opening done).length + j]? ≠ some (wide ';') := by
  intro h
  rw [joined_split, getElem?_behind, List.getElem?_append_left hj] at h
  exact he (List.mem_of_getElem? h)

theorem entryAt_start (done todo : List WString) (p : WString) :
    EntryAt (joined (done ++ p :: todo)) p (opening done).length := by
  constructor
  · by_cases h : done = []
    · exact .inl (by rw [h, opening, if_pos rfl, List.length_nil])
    · right
      rw [joined_split, opening, if_neg h, List.length_append, List.length_singleton,
        Nat.add_sub_cancel, List.append_assoc, ← Nat.add_zero (joined done).length,
        getElem?_behind]
      rfl
  · rw [joined_split]
    cases closing_eq_nil_or todo with
    | inl hnil => exact .inl (by rw [hnil, List.append_nil, List.length_append])
    | inr hcons =>
        obtain ⟨rest, hrest⟩ := hcons
        right
        rw [getElem?_behind, hrest, ← Nat.add_zero p.length, getElem?_behind]
        rfl

/-- At an entry the condition of the loops holds exactly where the path is the entry. -/
theorem entryAt_iff (hp : IsPath p) (he : wide ';' ∉ e) (hi : i ≤ e.length) :
    (p <+: (joined (done ++ e :: todo)).drop ((opening done).length + i) ∧
      EntryAt (joined (done ++ e :: todo)) p ((opening done).length + i)) ↔ i = 0 ∧ e = p := by
  have hdrop : (joined (done ++ e :: todo)).drop ((opening done).length + i) =
      e.drop i ++ closing todo := by
    rw [joined_split, List.drop_length_add_append, List.drop_append_of_le_length hi]
  rw [hdrop]
  constructor
  · rintro ⟨hstart, hbefore, hafter⟩
    have hfit := prefix_of_closing hp hstart
    have hlen := hfit.length_le
    have hpos := List.length_pos_of_ne_nil hp.1
    rw [List.length_drop] at hlen
    have hzero : i = 0 := by
      cases i with
      | zero => rfl
      | succ i =>
          cases hbefore with
          | inl h => omega
          | inr h => exact absurd h (not_separator_inside he (by omega))
    subst hzero
    refine ⟨rfl, (hfit.eq_of_length ?_).symm⟩
    rw [List.drop_zero]
    cases hafter with
    | inl h =>
        rw [joined_split, List.length_append, List.length_append] at h
        omega
    | inr h =>
        have hnot : ¬p.length < e.length := fun hlt => not_separator_inside he hlt h
        omega
  · rintro ⟨rfl, rfl⟩
    exact ⟨List.prefix_append .., entryAt_start done todo e⟩

end Occurrences

section Scan

variable {β : Type} {p value : WString}

/-- A loop that goes on from one occurrence to the next passes every place that is no
entry. -/
theorem scan_skip (hp : IsPath p) (loop : Nat → Option Nat → Option β)
    (hloop : ∀ n pos, ¬EntryAt value p pos → loop (n + 1) (some pos) =
      loop n (find value p (pos + 1))) (m : Nat) {k : Nat} {x : β}
    (hskip : ∀ i, i < m → ¬(p <+: value.drop (k + i) ∧ EntryAt value p (k + i)))
    (hx : Yields (fun n => loop n (find value p (k + m))) x) :
    Yields (fun n => loop n (find value p k)) x := by
  induction m generalizing k with
  | zero => exact hx
  | succ m ih =>
      have hnext : Yields (fun n => loop n (find value p (k + 1))) x := by
        refine ih (fun i hi => ?_) ?_
        · have h := hskip (i + 1) (by omega)
          rwa [Nat.add_comm i, ← Nat.add_assoc] at h
        · rwa [Nat.add_assoc, Nat.add_comm 1]
      by_cases hstart : p <+: value.drop k
      · have hk : k ≤ value.length := by
          have hle := hstart.length_le
          have hpos := List.length_pos_of_ne_nil hp.1
          rw [List.length_drop] at hle
          omega
        have hnot : ¬EntryAt value p k := fun h => hskip 0 (Nat.succ_pos m) ⟨hstart, h⟩
        obtain ⟨n, hn⟩ := hnext
        refine ⟨n + 1, ?_⟩
        simp only [find_at hstart hk, hloop n k hnot]
        exact hn
      · rwa [find_next hp.1 hstart]

theorem scan_entry (hp : IsPath p) {done todo : List WString} {e : WString}
    (he : wide ';' ∉ e) (hne : e ≠ p) (loop : Nat → Option Nat → Option β)
    (hloop : ∀ n pos, ¬EntryAt (joined (done ++ e :: todo)) p pos → loop (n + 1) (some pos) =
      loop n (find (joined (done ++ e :: todo)) p (pos + 1))) {x : β}
    (hx : Yields (fun n => loop n (find (joined (done ++ e :: todo)) p
      (opening (done ++ [e])).length)) x) :
    Yields (fun n => loop n (find (joined (done ++ e :: todo)) p (opening done).length)) x := by
  refine scan_skip hp loop hloop (e.length + 1) (fun i hi h => ?_) ?_
  · exact hne ((entryAt_iff hp he (by omega)).mp h).2
  · rwa [opening_snoc, List.length_append, List.length_append, List.length_singleton] at hx

theorem find_entry (done todo : List WString) (p : WString) :
    find (joined (done ++ p :: todo)) p (opening done).length = some (opening done).length := by
  rw [joined_split]
  refine find_at ?_ ?_
  · rw [List.drop_left]
    exact List.prefix_append ..
  · rw [List.length_append]
    exact Nat.le_add_right ..

theorem find_opening (hp : IsPath p) (done : List WString) :
    find (joined done) p (opening done).length = none := by
  by_cases h : done = []
  · rw [h, opening, if_pos rfl, joined, List.intercalate_nil, List.length_nil,
      find_next hp.1 (by simp [hp.1])]
    exact find_behind_end (Nat.succ_pos 0)
  · rw [opening, if_neg h]
    exact find_behind_end (by simp)

end Scan

theorem addLoop_entries {p : WString} (hp : IsPath p) (todo done : List WString)
    (htodo : ∀ e ∈ todo, wide ';' ∉ e) :
    Yields (fun n => addLoop (joined (done ++ todo)) p n
      (find (joined (done ++ todo)) p (opening done).length)) (decide (p ∈ todo)) := by
  induction todo generalizing done with
  | nil =>
      rw [List.append_nil, find_opening hp]
      exact ⟨1, rfl⟩
  | cons e todo ih =>
      obtain ⟨he, htodo⟩ := List.forall_mem_cons.mp htodo
      by_cases heq : e = p
      · subst heq
        refine ⟨1, ?_⟩
        dsimp only
        rw [find_entry, addLoop, if_pos (entryAt_start done todo e)]
        simp
      · have h := ih (done ++ [e]) htodo
        rw [List.append_assoc, List.singleton_append] at h
        have hmem : decide (p ∈ e :: todo) = decide (p ∈ todo) := by simp [Ne.symm heq]
        rw [hmem]
        exact scan_entry hp he heq _ (fun n pos hpos => by rw [addLoop, if_neg hpos]) h

theorem removeOne_entry (done todo : List WString) (p : WString) :
    removeOne (joined (done ++ p :: todo)) p (opening done).length = joined (done ++ todo) := by
  by_cases hdone : done = []
  · subst hdone
    rw [List.nil_append, List.nil_append, opening, if_pos rfl, removeOne, if_pos List.length_nil,
      joined_cons, closing]
    by_cases htodo : todo = []
    · subst htodo
      simp [joined]
    · rw [if_neg htodo, if_neg (by simp), replaced, List.length_nil, List.take_zero, Nat.zero_add,
        ← List.drop_drop, List.drop_left]
      simp
  · have hopen : (opening done).length - 1 = (joined done).length := by simp [opening, hdone]
    have hclose : joined done ++ closing todo = joined (done ++ todo) := by
      by_cases htodo : todo = []
      · rw [closing, if_pos htodo, htodo, List.append_nil, List.append_nil]
      · rw [joined_append done htodo, opening, closing, if_neg hdone, if_neg htodo,
          List.append_assoc]
        rfl
    rw [removeOne, if_neg (by simp [opening, hdone]), hopen, replaced, joined_split, opening,
      if_neg hdone, List.append_assoc, List.take_left, ← List.drop_drop, List.drop_left,
      ← hclose]
    simp

theorem removeLoop_entries {p : WString} (hp : IsPath p) (todo done : List WString)
    (htodo : ∀ e ∈ todo, wide ';' ∉ e) (count : UInt32) :
    Yields (fun n => removeLoop p n (joined (done ++ todo))
        (find (joined (done ++ todo)) p (opening done).length) count)
      (joined (done ++ todo.filter (· ≠ p)), count + UInt32.ofNat (todo.count p)) := by
  induction todo generalizing done count with
  | nil =>
      rw [List.append_nil, find_opening hp]
      exact ⟨1, by simp [removeLoop]⟩
  | cons e todo ih =>
      obtain ⟨he, htodo⟩ := List.forall_mem_cons.mp htodo
      by_cases heq : e = p
      · subst heq
        obtain ⟨n, hn⟩ := ih done htodo (count + 1)
        refine ⟨n + 1, ?_⟩
        have hcount : count + 1 + UInt32.ofNat (todo.count e) =
            count + UInt32.ofNat ((e :: todo).count e) := by
          rw [List.count_cons_self, Nat.add_comm, UInt32.ofNat_add, UInt32.add_assoc]
          rfl
        have hfilter : (e :: todo).filter (· ≠ e) = todo.filter (· ≠ e) := by simp
        dsimp only
        rw [find_entry, removeLoop, if_pos (entryAt_start done todo e), removeOne_entry, hfilter,
          ← hcount]
        exact hn
      · have h := ih (done ++ [e]) htodo count
        have hfilter : (e :: todo).filter (· ≠ p) = e :: todo.filter (· ≠ p) := by simp [heq]
        rw [List.append_assoc, List.singleton_append, List.append_assoc, List.singleton_append,
          ← hfilter] at h
        rw [List.count_cons_of_ne heq]
        exact scan_entry hp he heq
          (fun n pos => removeLoop p n (joined (done ++ e :: todo)) pos count)
          (fun n pos hpos => by rw [removeLoop, if_neg hpos]) h

theorem addLoop_steady (value p : WString) (pos : Option Nat) :
    Steady fun n => addLoop value p n pos := by
  intro n
  induction n generalizing pos with
  | zero => intro x h; exact absurd h (by simp [addLoop])
  | succ n ih =>
      intro x h
      cases pos with
      | none => exact h
      | some pos =>
          simp only [addLoop] at h ⊢
          split
          next hentry => rwa [if_pos hentry] at h
          next hentry =>
            rw [if_neg hentry] at h
            exact ih _ x h

theorem removeLoop_steady (p value : WString) (pos : Option Nat) (count : UInt32) :
    Steady fun n => removeLoop p n value pos count := by
  intro n
  induction n generalizing value pos count with
  | zero => intro x h; exact absurd h (by simp [removeLoop])
  | succ n ih =>
      intro x h
      cases pos with
      | none => exact h
      | some pos =>
          simp only [removeLoop] at h ⊢
          split
          next hentry =>
            rw [if_pos hentry] at h
            exact ih _ _ _ x h
          next hentry =>
            rw [if_neg hentry] at h
            exact ih _ _ _ x h

section Calls

variable {scope : EnvScope} {p : WString}

def stored (registry : Registry) (scope : EnvScope) (value : WString) : Registry :=
  regSetValue registry ⟨pathName, scope, value⟩

theorem queryValue_stored (registry : Registry) (hscope : scope ≠ .es_invalid) (value : WString) :
    queryValue (stored registry scope value) scope pathName = value := by
  simp [queryValue, EnvVar.construct, hscope, stored, regSetValue]

theorem construct_eq (registry : Registry) (hscope : scope ≠ .es_invalid) :
    EnvVar.construct registry scope pathName =
      ⟨pathName, scope, queryValue registry scope pathName⟩ := by
  simp [queryValue, EnvVar.construct, hscope]

theorem set_eq (registry : Registry) (hscope : scope ≠ .es_invalid) (value text : WString) :
    (EnvVar.set ⟨pathName, scope, value⟩ text registry).2 = stored registry scope text := by
  rw [EnvVar.set, if_neg hscope]
  rfl

theorem paste_eq (registry : Registry) (hscope : scope ≠ .es_invalid) (value text : WString) :
    (EnvVar.paste ⟨pathName, scope, value⟩ text registry).2 =
      stored registry scope (value ++ text) := by
  rw [EnvVar.paste, if_neg hscope]
  rfl

theorem separator_not_mem_entries (value : WString) :
    ∀ e ∈ entries (wide ';') value, wide ';' ∉ e := fun _ he => not_mem_of_mem_entries he

theorem joined_entries (value : WString) : joined (entries (wide ';') value) = value :=
  intercalate_entries _ value

theorem joined_entries_snoc (value : WString) (p : WString) :
    joined (entries (wide ';') value ++ [p]) =
      if value = [] then p else value ++ wide ';' :: p := by
  split
  next h => rw [h, entries, if_pos rfl, List.nil_append, joined, List.intercalate_singleton]
  next h =>
    have hne : entries (wide ';') value ≠ [] := by
      rw [entries, if_neg h]
      exact List.splitOn_ne_nil (wide ';') value
    rw [joined_append _ (List.cons_ne_nil p []), opening, if_neg hne, joined_entries,
      joined_cons, closing, if_pos rfl]
    simp

theorem entries_snoc (hp : IsPath p) (value : WString) :
    entries (wide ';') (joined (entries (wide ';') value ++ [p])) =
      entries (wide ';') value ++ [p] := by
  refine entries_intercalate ?_ ?_
  · intro e he
    cases List.mem_append.mp he with
    | inl h => exact separator_not_mem_entries value e h
    | inr h =>
        rw [List.mem_singleton.mp h]
        exact hp.2
  · intro h
    cases hl : entries (wide ';') value with
    | nil =>
        rw [hl] at h
        exact hp.1 (List.singleton_inj.mp h)
    | cons e l =>
        rw [hl] at h
        simp at h

theorem pathAdd_eventually (registry : Registry) (hscope : scope ≠ .es_invalid) (hp : IsPath p) :
    ∃ enough, ∀ turns, enough ≤ turns → pathAdd turns registry scope p =
      some (if p ∈ entries (wide ';') (queryValue registry scope pathName) then registry
        else stored registry scope
          (joined (entries (wide ';') (queryValue registry scope pathName) ++ [p]))) := by
  have hloop := addLoop_entries hp (entries (wide ';') (queryValue registry scope pathName)) []
    (separator_not_mem_entries _)
  rw [List.nil_append, joined_entries] at hloop
  obtain ⟨enough, h⟩ := Steady.eventually (addLoop_steady _ _ _) hloop
  refine ⟨enough, fun turns hturns => ?_⟩
  have hfound := h turns hturns
  rw [opening, if_pos rfl, List.length_nil] at hfound
  simp only [pathAdd, construct_eq registry hscope, hfound, Option.bind_eq_bind, Option.bind_some,
    joined_entries_snoc, set_eq registry hscope, paste_eq registry hscope, decide_eq_true_eq,
    List.length_eq_zero_iff]
  split
  · rfl
  · split <;> rfl

theorem pathRemove_eventually (registry : Registry) (hscope : scope ≠ .es_invalid)
    (hp : IsPath p) :
    ∃ enough, ∀ turns, enough ≤ turns → pathRemove turns registry scope p =
      some (stored registry scope (joined
          ((entries (wide ';') (queryValue registry scope pathName)).filter (· ≠ p))),
        UInt32.ofNat ((entries (wide ';') (queryValue registry scope pathName)).count p)) := by
  have hloop := removeLoop_entries hp (entries (wide ';') (queryValue registry scope pathName)) []
    (separator_not_mem_entries _) 0
  rw [List.nil_append, joined_entries, List.nil_append, UInt32.zero_add] at hloop
  obtain ⟨enough, h⟩ := Steady.eventually (removeLoop_steady _ _ _ _) hloop
  refine ⟨enough, fun turns hturns => ?_⟩
  have hremoved := h turns hturns
  rw [opening, if_pos rfl, List.length_nil] at hremoved
  simp only [pathRemove, construct_eq registry hscope, hremoved, Option.bind_eq_bind,
    Option.bind_some, set_eq registry hscope]

end Calls

/-- A path that can be an entry takes a place in the value at each occurrence. -/
theorem count_le_length {p : WString} (hp : IsPath p) (l : List WString) :
    l.count p ≤ (joined l).length := by
  induction l with
  | nil => exact Nat.zero_le _
  | cons e l ih =>
      have hle : (joined l).length ≤ (closing l).length := by
        rw [closing]
        split
        next h => simp [h, joined]
        next => simp
      rw [joined_cons, List.length_append, List.count_cons]
      split
      next heq =>
        have hpos := List.length_pos_of_ne_nil hp.1
        rw [eq_of_beq heq]
        omega
      next => omega

theorem count_toNat {p : WString} (hp : IsPath p) (v : WString) (hv : v.length < 2 ^ 32) :
    (UInt32.ofNat ((entries (wide ';') v).count p)).toNat = (entries (wide ';') v).count p := by
  have hle := count_le_length hp (entries (wide ';') v)
  rw [joined_entries] at hle
  rw [UInt32.toNat_ofNat', Nat.mod_eq_of_lt (by omega)]

/-- PathAdd and PathRemove work on the entries of the value, whatever parts of it the path
occurs in. -/
theorem path_entries (registry : Registry) {scope : EnvScope} (hscope : scope ≠ .es_invalid)
    {p : WString} (hp : IsPath p) {v : WString} (hv : queryValue registry scope pathName = v) :
    ∃ enough, ∀ turns, enough ≤ turns →
      (∃ removed count, pathRemove turns registry scope p = some (removed, count) ∧
        queryValue removed scope pathName = joined ((entries (wide ';') v).filter (· ≠ p)) ∧
        count = UInt32.ofNat ((entries (wide ';') v).count p) ∧
        (v.length < 2 ^ 32 → count.toNat = (entries (wide ';') v).count p)) ∧
      ∃ added, pathAdd turns registry scope p = some added ∧
        (p ∈ entries (wide ';') v → added = registry) ∧
        (p ∉ entries (wide ';') v → entries (wide ';') (queryValue added scope pathName) =
          entries (wide ';') v ++ [p]) ∧
        pathAdd turns added scope p = some added ∧
        (p ∉ entries (wide ';') v → ∃ back, pathRemove turns added scope p = some (back, 1) ∧
          queryValue back scope pathName = v) := by
  obtain ⟨enough, hremove⟩ := pathRemove_eventually registry hscope hp
  obtain ⟨enough', hadd⟩ := pathAdd_eventually registry hscope hp
  rw [hv] at hremove hadd
  by_cases hmem : p ∈ entries (wide ';') v
  · refine ⟨max enough enough', fun turns hturns => ⟨?_, registry, ?_⟩⟩
    · exact ⟨_, _, hremove turns (by omega), queryValue_stored registry hscope _, rfl,
        count_toNat hp v⟩
    · have h := hadd turns (by omega)
      rw [if_pos hmem] at h
      exact ⟨h, fun _ => rfl, fun hnot => absurd hmem hnot, h, fun hnot => absurd hmem hnot⟩
  · obtain ⟨added, hadded⟩ : ∃ added, added =
      stored registry scope (joined (entries (wide ';') v ++ [p])) := ⟨_, rfl⟩
    have hvalue : queryValue added scope pathName = joined (entries (wide ';') v ++ [p]) := by
      rw [hadded, queryValue_stored registry hscope]
    obtain ⟨enoughBack, hback⟩ := pathRemove_eventually added hscope hp
    obtain ⟨enoughAgain, hagain⟩ := pathAdd_eventually added hscope hp
    have hentries := entries_snoc hp v
    rw [hvalue, hentries] at hback hagain
    rw [if_neg hmem, ← hadded] at hadd
    have hkept : (entries (wide ';') v).filter (· ≠ p) = entries (wide ';') v :=
      List.filter_eq_self.mpr fun e he => by
        have hne : e ≠ p := fun h => hmem (h ▸ he)
        simpa using hne
    refine ⟨max (max enough enough') (max enoughBack enoughAgain), fun turns hturns =>
      ⟨?_, added, hadd turns (by omega), fun h => absurd h hmem, fun _ => ?_, ?_, fun _ => ?_⟩⟩
    · exact ⟨_, _, hremove turns (by omega), queryValue_stored registry hscope _, rfl,
        count_toNat hp v⟩
    · rw [hvalue, hentries]
    · have h := hagain turns (by omega)
      rwa [if_pos (List.mem_append_right _ (List.mem_singleton_self p))] at h
    · refine ⟨_, (hback turns (by omega)).trans ?_, queryValue_stored added hscope v⟩
      rw [List.filter_append, hkept, List.filter_singleton, List.count_append,
        List.count_eq_zero_of_not_mem hmem, List.count_singleton_self]
      simp [joined_entries]

def someRegistry (value : WString) : Registry := fun _ _ => some value

/-- An entry that the path is a part of stays, next to two that are the path. -/
theorem path_entries_parts : ∃ enough, ∀ turns, enough ≤ turns →
    (∃ removed count, pathRemove turns (someRegistry [97, 59, 97, 98, 59, 97]) .es_user [97] =
        some (removed, count) ∧
      queryValue removed .es_user pathName = joined
        ((entries (wide ';') [97, 59, 97, 98, 59, 97]).filter (· ≠ [97])) ∧
      count = UInt32.ofNat ((entries (wide ';') [97, 59, 97, 98, 59, 97]).count [97]) ∧
      ([97, 59, 97, 98, 59, 97].length < 2 ^ 32 →
        count.toNat = (entries (wide ';') [97, 59, 97, 98, 59, 97]).count [97])) ∧
    ∃ added, pathAdd turns (someRegistry [97, 59, 97, 98, 59, 97]) .es_user [97] = some added ∧
      ([97] ∈ entries (wide ';') [97, 59, 97, 98, 59, 97] →
        added = someRegistry [97, 59, 97, 98, 59, 97]) ∧
      ([97] ∉ entries (wide ';') [97, 59, 97, 98, 59, 97] →
        entries (wide ';') (queryValue added .es_user pathName) =
          entries (wide ';') [97, 59, 97, 98, 59, 97] ++ [[97]]) ∧
      pathAdd turns added .es_user [97] = some added ∧
      ([97] ∉ entries (wide ';') [97, 59, 97, 98, 59, 97] → ∃ back,
        pathRemove turns added .es_user [97] = some (back, 1) ∧
        queryValue back .es_user pathName = [97, 59, 97, 98, 59, 97]) :=
  path_entries _ (by decide) ⟨by decide, by decide⟩ rfl

end Ashe.EnvPathList
