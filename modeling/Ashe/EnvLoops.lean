import Ashe.EnvPathList
import Ashe.SplitJoin
import Mathlib.Logic.Relation

namespace Ashe.EnvLoops

open EnvVariable EnvPathList Fuel
open StrSplit (find)

/-- Where a loop stands at its test: the value, and what the last search has found. -/
abbrev Place := WString × Option Nat

def removeTurn (path value : WString) (pos : Nat) : Place :=
  if EntryAt value path pos then
    (removeOne value path pos, find (removeOne value path pos) path pos)
  else (value, find value path (pos + 1))

def cutTurn (text value : WString) (pos : Nat) : Place :=
  (replaced value pos text.length, find (replaced value pos text.length) text 0)

def Visits (turn : WString → Nat → Place) : Place → Place → Prop :=
  Relation.ReflTransGen fun s s' => ∃ pos, s.2 = some pos ∧ s' = turn s.1 pos

def EndsOrShortens (turn : WString → Nat → Place) (s : Place) : Prop :=
  ∀ pos, s.2 = some pos → (turn s.1 pos).2 = none ∨ (turn s.1 pos).1.length < s.1.length

/-- The iteration leaves an occurrence that is no entry, and the search goes on behind
its first character. -/
def Skips (path : WString) (s : Place) : Prop :=
  ∃ pos pos', s.2 = some pos ∧ ¬EntryAt s.1 path pos ∧
    removeTurn path s.1 pos = (s.1, some pos') ∧ pos < pos'

theorem removeLoop_turn (path value : WString) (pos : Nat) (count : UInt32) :
    ∃ count', ∀ n, removeLoop path (n + 1) value (some pos) count =
      removeLoop path n (removeTurn path value pos).1 (removeTurn path value pos).2 count' := by
  rw [removeTurn]
  split
  next h => exact ⟨count + 1, fun n => by rw [removeLoop, if_pos h]⟩
  next h => exact ⟨count, fun n => by rw [removeLoop, if_neg h]⟩

theorem find_inside {src delimiter : WString} {offset pos : Nat}
    (h : find src delimiter offset = some pos) :
    offset ≤ pos ∧ pos + delimiter.length ≤ src.length := by
  by_cases hd : delimiter = []
  · subst hd
    by_cases hlen : src.length < offset
    · rw [StrSplit.find_behind_end hlen] at h
      exact absurd h (by simp)
    · rw [StrSplit.find_at (by simp) (Nat.not_lt.mp hlen)] at h
      obtain rfl := Option.some.inj h
      exact ⟨Nat.le_refl _, Nat.not_lt.mp hlen⟩
  · exact SplitJoin.find_bounds hd h

theorem length_replaced {value : WString} {pos count : Nat} (h : pos + count ≤ value.length) :
    (replaced value pos count).length = value.length - count := by
  rw [replaced, List.length_append, List.length_take, List.length_drop]
  omega

/-- The character that is left out is the only one that can get lost. -/
theorem mem_replaced {value : WString} {pos : Nat} {c d : UInt16} (hd : value[pos]? = some d)
    (hc : c ∈ value) (hne : c ≠ d) : c ∈ replaced value pos 1 := by
  obtain ⟨hpos, rfl⟩ := List.getElem?_eq_some_iff.mp hd
  rw [← List.take_append_drop pos value, List.drop_eq_getElem_cons hpos] at hc
  rw [replaced, List.mem_append]
  rcases List.mem_append.mp hc with hc | hc
  · exact .inl hc
  · exact .inr ((List.mem_cons.mp hc).resolve_left hne)

def start (value text : WString) : Place := (value, find value text 0)

theorem start_inside {value text : WString} (pos : Nat) (h : (start value text).2 = some pos) :
    pos + text.length ≤ (start value text).1.length := by
  dsimp only [start] at h ⊢
  exact (find_inside h).2

section Remove

variable {path : WString}

/-- A path, or a character that no removal of an empty path takes away. -/
def Removable (path value : WString) : Prop := path ≠ [] ∨ ∃ c ∈ value, c ≠ wide ';'

structure Removing (path : WString) (s : Place) : Prop where
  inside : ∀ pos, s.2 = some pos → pos + path.length ≤ s.1.length
  removable : Removable path s.1

theorem Removable.pos {value : WString} (h : Removable path value)
    (hlen : path.length ≤ value.length) : 0 < value.length := by
  rcases h with hne | ⟨c, hc, -⟩
  · exact Nat.lt_of_lt_of_le (List.length_pos_iff.mpr hne) hlen
  · exact List.length_pos_iff.mpr (List.ne_nil_of_mem hc)

theorem removeOne_shorter {value : WString} {pos : Nat} (h : EntryAt value path pos)
    (hr : Removable path value) (hlen : pos + path.length ≤ value.length) :
    (removeOne value path pos).length < value.length := by
  have hpos := hr.pos (by omega)
  rw [removeOne]
  split
  next h0 =>
    subst h0
    split
    next => exact hpos
    next hne =>
      rw [length_replaced (by omega)]
      omega
  next h0 =>
    rw [length_replaced (by omega)]
    omega

theorem removeOne_removable {value : WString} {pos : Nat} (h : EntryAt value path pos)
    (hr : Removable path value) : Removable path (removeOne value path pos) := by
  rcases hr with hne | ⟨c, hc, hsep⟩
  · exact .inl hne
  · by_cases hpath : path = []
    · subst hpath
      have hvalue := List.length_pos_iff.mpr (List.ne_nil_of_mem hc)
      rw [EntryAt, List.length_nil, Nat.add_zero] at h
      refine .inr ⟨c, ?_, hsep⟩
      rw [removeOne, List.length_nil, Nat.zero_add]
      by_cases h0 : pos = 0
      · subst h0
        rw [if_pos rfl, if_neg (by omega)]
        have hfirst : value[0]? = some (wide ';') := h.2.resolve_left (by omega)
        exact mem_replaced hfirst hc hsep
      · rw [if_neg h0]
        exact mem_replaced (h.1.resolve_left h0) hc hsep
    · exact .inl hpath

theorem removeTurn_entry {value : WString} {pos : Nat} (h : EntryAt value path pos)
    (hs : Removing path (value, some pos)) :
    Removing path (removeTurn path value pos) ∧
      (removeTurn path value pos).1.length < value.length ∧
      ∀ pos', (removeTurn path value pos).2 = some pos' → pos ≤ pos' := by
  rw [removeTurn, if_pos h]
  exact ⟨⟨fun pos' hpos' => (find_inside hpos').2, removeOne_removable h hs.removable⟩,
    removeOne_shorter h hs.removable (hs.inside pos rfl), fun pos' hpos' => (find_inside hpos').1⟩

theorem removeTurn_skip {value : WString} {pos : Nat} (h : ¬EntryAt value path pos)
    (hs : Removing path (value, some pos)) :
    Removing path (removeTurn path value pos) ∧ (removeTurn path value pos).1 = value ∧
      ∀ pos', (removeTurn path value pos).2 = some pos' → pos < pos' := by
  rw [removeTurn, if_neg h]
  exact ⟨⟨fun pos' hpos' => (find_inside hpos').2, hs.removable⟩, rfl,
    fun pos' hpos' => (find_inside hpos').1⟩

theorem removeTurn_removing {value : WString} {pos : Nat}
    (hs : Removing path (value, some pos)) : Removing path (removeTurn path value pos) := by
  by_cases h : EntryAt value path pos
  · exact (removeTurn_entry h hs).1
  · exact (removeTurn_skip h hs).1

/-- The characters from the search position on: one less after each iteration, whether it
takes an entry away or passes an occurrence. -/
def remaining (s : Place) : Nat := (s.2.map fun pos => s.1.length + 1 - pos).getD 0

theorem removeTurn_remaining {value : WString} {pos : Nat}
    (hs : Removing path (value, some pos)) :
    remaining (removeTurn path value pos) < remaining (value, some pos) := by
  have hinside := hs.inside pos rfl
  have hnext := (removeTurn_removing hs).inside
  have hless : ∀ pos', (removeTurn path value pos).2 = some pos' →
      (removeTurn path value pos).1.length + 1 - pos' < value.length + 1 - pos := by
    intro pos' hpos'
    have hin := hnext pos' hpos'
    by_cases h : EntryAt value path pos
    · obtain ⟨-, hshort, hle⟩ := removeTurn_entry h hs
      have hpos := hle pos' hpos'
      omega
    · obtain ⟨-, hsame, hlt⟩ := removeTurn_skip h hs
      have hpos := hlt pos' hpos'
      rw [hsame] at hin ⊢
      dsimp only at hinside
      omega
  rw [remaining, remaining]
  cases hfound : (removeTurn path value pos).2 with
  | none =>
      simp only [Option.map_none, Option.getD_none, Option.map_some, Option.getD_some]
      dsimp only at hinside
      omega
  | some pos' => exact hless pos' hfound

theorem removeLoop_ends {s : Place} (hs : Removing path s) (count : UInt32) :
    Ends fun n => removeLoop path n s.1 s.2 count := by
  let run (s : Place × UInt32) (n : Nat) := removeLoop path n s.1.1 s.1.2 s.2
  have hstep : ∀ s : Place × UInt32, Removing path s.1 → Ends (run s) ∨
      ∃ s' : Place × UInt32, Removing path s'.1 ∧ remaining s'.1 < remaining s.1 ∧
        (Ends (run s') → Ends (run s)) := by
    rintro ⟨⟨value, found⟩, count⟩ hs
    cases found with
    | none => exact .inl ⟨(value, count), 1, rfl⟩
    | some pos =>
        obtain ⟨count', hturn⟩ := removeLoop_turn path value pos count
        refine .inr ⟨(removeTurn path value pos, count'), removeTurn_removing hs,
          removeTurn_remaining hs, ?_⟩
        rintro ⟨x, n, hx⟩
        exact ⟨x, n + 1, (hturn n).trans hx⟩
  exact @ends_of_measure _ _ run (fun s => remaining s.1) (fun s => Removing path s.1) hstep
    (s, count) hs

theorem visits_removing {s s' : Place} (hs : Removing path s)
    (h : Visits (removeTurn path) s s') : Removing path s' := by
  induction h with
  | refl => exact hs
  | tail _ hturn ih =>
      obtain ⟨pos, hpos, rfl⟩ := hturn
      refine removeTurn_removing ⟨fun pos' hpos' => ?_, ih.removable⟩
      obtain rfl := Option.some.inj hpos'
      exact ih.inside pos hpos

theorem removing_progress {s : Place} (hs : Removing path s) :
    EndsOrShortens (removeTurn path) s ∨ Skips path s := by
  obtain ⟨value, found⟩ := s
  cases found with
  | none => exact .inl fun pos hpos => absurd hpos (by simp)
  | some pos =>
      by_cases h : EntryAt value path pos
      · refine .inl fun pos' hpos' => .inr ?_
        obtain rfl := Option.some.inj hpos'
        exact (removeTurn_entry h hs).2.1
      · obtain ⟨-, hsame, hlt⟩ := removeTurn_skip h hs
        cases hfound : (removeTurn path value pos).2 with
        | none =>
            refine .inl fun pos' hpos' => .inl ?_
            obtain rfl := Option.some.inj hpos'
            exact hfound
        | some pos' =>
            exact .inr ⟨pos, pos', rfl, h, Prod.ext hsame hfound, hlt pos' hfound⟩

end Remove

section Cut

variable {text : WString}

theorem cutTurn_shorter (htext : text ≠ []) {value : WString} {pos : Nat}
    (h : pos + text.length ≤ value.length) : (cutTurn text value pos).1.length < value.length := by
  have hpos := List.length_pos_iff.mpr htext
  rw [cutTurn, length_replaced h]
  omega

def Cutting (text : WString) (s : Place) : Prop :=
  ∀ pos, s.2 = some pos → pos + text.length ≤ s.1.length

theorem cutTurn_cutting (text value : WString) (pos : Nat) :
    Cutting text (cutTurn text value pos) := fun pos' hpos' => by
  dsimp only [cutTurn] at hpos' ⊢
  exact (find_inside hpos').2

theorem cutLoop_ends (htext : text ≠ []) {s : Place} (hs : Cutting text s) (count : UInt32) :
    Ends fun n => cutLoop text n s.1 s.2 count := by
  let run (s : Place × UInt32) (n : Nat) := cutLoop text n s.1.1 s.1.2 s.2
  have hstep : ∀ s : Place × UInt32, Cutting text s.1 → Ends (run s) ∨
      ∃ s' : Place × UInt32, Cutting text s'.1 ∧ s'.1.1.length < s.1.1.length ∧
        (Ends (run s') → Ends (run s)) := by
    rintro ⟨⟨value, found⟩, count⟩ hs
    cases found with
    | none => exact .inl ⟨(value, count), 1, rfl⟩
    | some pos =>
        refine .inr ⟨(cutTurn text value pos, count + 1), cutTurn_cutting text value pos,
          cutTurn_shorter htext (hs pos rfl), ?_⟩
        rintro ⟨x, n, hx⟩
        exact ⟨x, n + 1, hx⟩
  exact @ends_of_measure _ _ run (fun s => s.1.1.length) (fun s => Cutting text s.1) hstep
    (s, count) hs

theorem visits_cutting {s s' : Place} (hs : Cutting text s) (h : Visits (cutTurn text) s s') :
    Cutting text s' := by
  induction h with
  | refl => exact hs
  | tail _ hturn _ =>
      obtain ⟨pos, -, rfl⟩ := hturn
      exact cutTurn_cutting text _ pos

end Cut

theorem pathRemove_ends (registry : Registry) (scope : EnvScope) {path : WString}
    (h : Removable path (queryValue registry scope pathName)) :
    Ends fun n => pathRemove n registry scope path := by
  have hs : Removing path (start (queryValue registry scope pathName) path) :=
    ⟨start_inside, h⟩
  exact (removeLoop_ends hs 0).bind_some fun x =>
    (((EnvVar.construct registry scope pathName).set x.1 registry).2, x.2)

theorem cut_ends (registry : Registry) (var : EnvVar) {text : WString} (htext : text ≠ []) :
    Ends fun n => var.cut n text registry := by
  by_cases hscope : var.scope = .es_invalid
  · exact ⟨_, 0, if_pos hscope⟩
  · have hs : Cutting text (start var.value text) := start_inside
    obtain ⟨x, n, hx⟩ := (cutLoop_ends htext hs 0).bind_some fun x =>
      (({ var with value := x.1 }, regSetValue registry { var with value := x.1 }), x.2)
    exact ⟨x, n, (if_neg hscope).trans hx⟩

/-- Both loops end. Each iteration is the last one, shortens the value or, in PathRemove,
passes an occurrence that is no entry. -/
theorem env_loops_end (registry : Registry) (text : WString) :
    (∀ scope, Removable text (queryValue registry scope pathName) →
      (Ends fun n => pathRemove n registry scope text) ∧
      ∀ s, Visits (removeTurn text) (start (queryValue registry scope pathName) text) s →
        EndsOrShortens (removeTurn text) s ∨ Skips text s) ∧
    ∀ var : EnvVar, text ≠ [] →
      (Ends fun n => var.cut n text registry) ∧
      ∀ s, Visits (cutTurn text) (start var.value text) s → EndsOrShortens (cutTurn text) s := by
  refine ⟨fun scope h => ⟨pathRemove_ends registry scope h, fun s hs => ?_⟩,
    fun var htext => ⟨cut_ends registry var htext, fun s hs pos hpos => .inr ?_⟩⟩
  · exact removing_progress (visits_removing ⟨start_inside, h⟩ hs)
  · exact cutTurn_shorter htext (visits_cutting start_inside hs pos hpos)

/-- A text that overlaps itself: "aa" in "aaa". -/
theorem env_loops_end_overlap :
    (∀ s, Visits (removeTurn [97, 97]) (start [97, 97, 97] [97, 97]) s →
      EndsOrShortens (removeTurn [97, 97]) s ∨ Skips [97, 97] s) ∧
    Ends fun n => (⟨[120], .es_user, [97, 97, 97]⟩ : EnvVar).cut n [97, 97]
      (someRegistry [97, 97, 97]) :=
  ⟨((env_loops_end (someRegistry [97, 97, 97]) [97, 97]).1 .es_user (.inl (by simp))).2,
    ((env_loops_end (someRegistry [97, 97, 97]) [97, 97]).2 ⟨[120], .es_user, [97, 97, 97]⟩
      (by simp)).1⟩

/-- The empty text is found at the first place, for ever. -/
theorem cutLoop_empty (value : WString) (n : Nat) (count : UInt32) :
    cutLoop [] n value (some 0) count = none := by
  induction n generalizing count with
  | zero => rfl
  | succ n ih =>
      have hsame : replaced value 0 ([] : WString).length = value := by simp [replaced]
      have hfound : find value [] 0 = some 0 := StrSplit.find_at (by simp) (Nat.zero_le _)
      rw [cutLoop, hsame, hfound]
      exact ih (count + 1)

/-- In an empty value the empty path is an entry, for ever. -/
theorem removeLoop_empty (n : Nat) (count : UInt32) :
    removeLoop [] n [] (some 0) count = none := by
  induction n generalizing count with
  | zero => rfl
  | succ n ih => exact ih (count + 1)

/-- An iteration can pass an occurrence and find the next one ("b" in "ab;b"). An empty text
is found for ever, by PathRemove in an empty value. -/
theorem env_loops_skip :
    (∃ s, Visits (removeTurn [98]) (start [97, 98, 59, 98] [98]) s ∧
      ¬EndsOrShortens (removeTurn [98]) s) ∧
    (¬Ends fun n => pathRemove n (someRegistry []) .es_user []) ∧
    ¬Ends fun n => (⟨[120], .es_user, []⟩ : EnvVar).cut n [] (someRegistry []) := by
  refine ⟨⟨_, .refl, fun h => ?_⟩, ?_, ?_⟩
  · exact absurd (h 1 (by decide)) (by decide)
  · exact not_ends_bind fun n => removeLoop_empty n 0
  · exact not_ends_bind fun n => cutLoop_empty [] n 0

end Ashe.EnvLoops
