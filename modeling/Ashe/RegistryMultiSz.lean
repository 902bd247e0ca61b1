import Ashe.Registry
import Mathlib.Data.List.TakeWhile

namespace Ashe.RegistryMultiSz

open ByteWords (littleEndian littleEndian_length ofLittleEndian_littleEndian)
open EnvVariable (WString)
open ShellinkParser (wideChars)
open Registry

/-- The strings that a doubly terminated list can hold. -/
def Listable (list : List WString) : Prop := ∀ s ∈ list, s ≠ [] ∧ 0 ∉ s

instance (list : List WString) : Decidable (Listable list) :=
  inferInstanceAs (Decidable (∀ s ∈ list, s ≠ [] ∧ 0 ∉ s))

def terminated (list : List WString) : List UInt16 := list.flatMap (· ++ [0])

theorem wideBytes_length (s : List UInt16) : (wideBytes s).length = 2 * s.length := by
  induction s with
  | nil => rfl
  | cons c s ih =>
      rw [wideBytes, List.flatMap_cons, List.length_append, littleEndian_length, List.length_cons]
      rw [wideBytes] at ih
      omega

theorem wideChars_wideBytes (s : List UInt16) (bytes : List UInt8) :
    wideChars (wideBytes s ++ bytes) = s ++ wideChars bytes := by
  induction s with
  | nil => rfl
  | cons c s ih =>
      have hc : UInt16.ofNat (ByteWords.ofLittleEndian (littleEndian 2 c.toNat)) = c := by
        rw [ofLittleEndian_littleEndian c.toNat_lt, UInt16.ofNat_toNat]
      have hrest : wideBytes (c :: s) ++ bytes =
          littleEndian 2 c.toNat ++ (wideBytes s ++ bytes) := by
        rw [wideBytes, List.flatMap_cons, List.append_assoc]
        rfl
      rw [hrest, List.cons_append, ← ih]
      exact congrArg (· :: wideChars (wideBytes s ++ bytes)) hc

theorem take_wideBytes (s : List UInt16) (n : Nat) :
    (wideBytes s).take (2 * n) = wideBytes (s.take n) := by
  induction s generalizing n with
  | nil => rw [List.take_nil]; exact List.take_nil
  | cons c s ih =>
      cases n with
      | zero => rfl
      | succ n => exact congrArg (littleEndian 2 c.toNat ++ ·) (ih n)

theorem listSize_from (list : List WString) (n : Nat) :
    list.foldl (fun cch s => cch + (s.length + 1)) n = n + (terminated list).length := by
  induction list generalizing n with
  | nil => rfl
  | cons s list ih =>
      rw [List.foldl_cons, ih, terminated, terminated, List.flatMap_cons, List.length_append,
        List.length_append, List.length_singleton, Nat.add_assoc]

theorem listSize_eq (list : List WString) : listSize list = (terminated list).length + 1 := by
  rw [listSize, listSize_from, Nat.add_comm]

theorem takeWhile_string {s : WString} (hs : 0 ∉ s) : s.takeWhile (· ≠ 0) = s :=
  List.takeWhile_eq_self_iff.mpr fun _ hc => decide_eq_true fun hzero => hs (hzero ▸ hc)

/-- The walk gives the strings of a list up to its second zero. -/
theorem walkList_terminated {list : List WString} (h : Listable list) (rest : List UInt16) :
    walkList (terminated list ++ 0 :: rest) = some list := by
  induction list with
  | nil =>
      rw [terminated, List.flatMap_nil, List.nil_append, walkList]
      exact if_pos rfl
  | cons s list ih =>
      obtain ⟨⟨hne, hnul⟩, hlist⟩ := List.forall_mem_cons.mp h
      obtain ⟨c, s, rfl⟩ := List.exists_cons_of_ne_nil hne
      have hc : c ≠ 0 := fun hzero => hnul (hzero ▸ List.mem_cons_self)
      have hs := takeWhile_string fun hmem => hnul (List.mem_cons_of_mem c hmem)
      have hchars : terminated ((c :: s) :: list) ++ 0 :: rest =
          c :: (s ++ 0 :: (terminated list ++ 0 :: rest)) := by
        rw [terminated, List.flatMap_cons, List.append_assoc, List.append_assoc]
        rfl
      have hstring : (s ++ 0 :: (terminated list ++ 0 :: rest)).takeWhile (· ≠ 0) = s := by
        rw [List.takeWhile_append, hs, if_pos rfl, List.takeWhile_cons_of_neg (by simp),
          List.append_nil]
      have hdrop : (s ++ 0 :: (terminated list ++ 0 :: rest)).drop (c :: s).length =
          terminated list ++ 0 :: rest := by
        rw [List.length_cons, List.drop_append, List.drop_eq_nil_of_le (Nat.le_succ _),
          Nat.add_sub_cancel_left]
        rfl
      rw [hchars, walkList, if_neg hc]
      dsimp only
      rw [hstring, hdrop, ih hlist]
      rfl

/-- A list that fits into the bound of StringCchCopyW is built as it should be. -/
theorem copyLoop_fits {cch : Nat} (hcch : cch ≤ strsafeMaxCch) (memory : Nat → UInt16)
    {list : List WString} (h : Listable list) (hlen : ∀ s ∈ list, s.length < cch)
    (written : List UInt16) :
    copyLoop cch memory list written = written ++ (terminated list ++ [0]) := by
  induction list generalizing written with
  | nil => rfl
  | cons s list ih =>
      obtain ⟨⟨-, hnul⟩, hlist⟩ := List.forall_mem_cons.mp h
      obtain ⟨hs, hrest⟩ := List.forall_mem_cons.mp hlen
      have hcopy : stringCchCopyW cch s = s ++ [0] := by
        rw [stringCchCopyW, if_neg (by omega), if_pos hcch, takeWhile_string hnul,
          List.take_of_length_le (by omega)]
      have hnone : written.length + (s.length + 1) - (written ++ (s ++ [0])).length = 0 := by
        rw [List.length_append, List.length_append, List.length_singleton]
        omega
      rw [copyLoop, hcopy, hnone, List.range_zero, List.map_nil, List.append_nil, ih hlist hrest,
        terminated, terminated, List.flatMap_cons, List.append_assoc, List.append_assoc,
        List.append_assoc, List.append_assoc]

theorem copyLoop_initial (cch : Nat) (memory : Nat → UInt16) (list : List WString)
    (written : List UInt16) : ∃ rest, copyLoop cch memory list written = written ++ rest := by
  induction list generalizing written with
  | nil => exact ⟨[0], rfl⟩
  | cons s list ih =>
      obtain ⟨rest, hrest⟩ := ih (written ++ stringCchCopyW cch s ++
        (List.range (written.length + (s.length + 1) -
          (written ++ stringCchCopyW cch s).length)).map fun i =>
            memory ((written ++ stringCchCopyW cch s).length + i))
      exact ⟨_, by rw [copyLoop, hrest, List.append_assoc, List.append_assoc]⟩

/-- Beyond that bound nothing but a zero is written at the place of each string. -/
theorem copyLoop_beyond {cch : Nat} (hcch : strsafeMaxCch < cch) (memory : Nat → UInt16)
    {list : List WString} (hne : list ≠ []) :
    ∃ rest, copyLoop cch memory list [] = 0 :: rest := by
  obtain ⟨s, list, rfl⟩ := List.exists_cons_of_ne_nil hne
  have hcopy : stringCchCopyW cch s = [0] := by
    rw [stringCchCopyW, if_neg (by omega), if_neg (Nat.not_le.mpr hcch)]
  rw [copyLoop, hcopy]
  obtain ⟨rest, hrest⟩ := copyLoop_initial cch memory list _
  exact ⟨_, hrest.trans (List.append_assoc [0] _ rest)⟩

def storedBytes (memory : Nat → UInt16) (list : List WString) : List UInt8 :=
  (wideBytes (copyLoop (listSize list) memory list [])).take
    (UInt32.ofNat (listSize list) * 2).toNat

theorem byteCount (n : Nat) : (UInt32.ofNat n * 2).toNat = 2 * (n % 2 ^ 31) := by
  rw [UInt32.toNat_mul, UInt32.toNat_ofNat']
  show n % 2 ^ 32 * 2 % 2 ^ 32 = _
  omega

theorem storedBytes_eq (memory : Nat → UInt16) (list : List WString) :
    storedBytes memory list =
      wideBytes ((copyLoop (listSize list) memory list []).take (listSize list % 2 ^ 31)) := by
  rw [storedBytes, byteCount, take_wideBytes]

theorem storedBytes_cases (memory : Nat → UInt16) {list : List WString} (h : Listable list) :
    (listSize list < 2 ^ 31 ∧ storedBytes memory list = wideBytes (terminated list ++ [0])) ∨
    (2 ^ 31 ≤ listSize list ∧ listSize list % 2 ^ 31 = 0 ∧ storedBytes memory list = []) ∨
    (2 ^ 31 ≤ listSize list ∧ listSize list % 2 ^ 31 ≠ 0 ∧
      ∃ rest, storedBytes memory list = wideBytes (0 :: rest)) := by
  rw [storedBytes_eq]
  by_cases hfits : listSize list < 2 ^ 31
  · have hlen : ∀ s ∈ list, s.length < listSize list := by
      intro s hs
      obtain ⟨before, after, rfl⟩ := List.append_of_mem hs
      rw [listSize_eq, terminated, List.flatMap_append, List.flatMap_cons]
      simp only [List.length_append, List.length_singleton]
      omega
    have hall : (terminated list ++ [0]).length = listSize list := by
      rw [listSize_eq, List.length_append, List.length_singleton]
    refine Or.inl ⟨hfits, ?_⟩
    rw [copyLoop_fits (by rw [strsafeMaxCch]; omega) memory h hlen, List.nil_append,
      Nat.mod_eq_of_lt hfits, ← hall, List.take_length]
  · have hbeyond := Nat.not_lt.mp hfits
    by_cases hzero : listSize list % 2 ^ 31 = 0
    · refine Or.inr (Or.inl ⟨hbeyond, hzero, ?_⟩)
      rw [hzero, List.take_zero]
      rfl
    · refine Or.inr (Or.inr ⟨hbeyond, hzero, ?_⟩)
      have hne : list ≠ [] := by
        rintro rfl
        exact absurd hbeyond (by decide)
      have hmax : strsafeMaxCch < listSize list := by
        rw [strsafeMaxCch]
        omega
      obtain ⟨rest, hrest⟩ := copyLoop_beyond hmax memory hne
      obtain ⟨m, hm⟩ := Nat.exists_eq_succ_of_ne_zero hzero
      rw [hrest, hm]
      exact ⟨_, rfl⟩

section

variable {values after : Values} {valueName : WString} {bytes : List UInt8}
  (hvalue : ∃ size, after valueName = some ⟨regMultiSz, bytes, size⟩)
include hvalue

theorem getMultiSZValue_empty (hbytes : bytes = []) (allocated : Bool) (prior : List WString) :
    getMultiSZValue after allocated valueName prior = some (errorSuccess, []) := by
  obtain ⟨size, hvalue⟩ := hvalue
  subst hbytes
  rw [getMultiSZValue, getValueBufferSize, hvalue]
  rfl

theorem getMultiSZValue_chars {chars : List UInt16} (hbytes : bytes = wideBytes chars)
    (hne : chars ≠ []) (allocated : Bool) (prior : List WString) :
    getMultiSZValue after allocated valueName prior =
      if allocated then
        (walkList (chars ++ [0])).map fun strings => (errorSuccess, prior ++ strings)
      else some (errorOutOfMemory, prior) := by
  obtain ⟨size, hvalue⟩ := hvalue
  have hlen : (UInt32.ofNat bytes.length).toNat = bytes.length := by
    rw [UInt32.toNat_ofNat', Nat.mod_eq_of_lt size]
  have hzero : UInt32.ofNat bytes.length ≠ 0 := by
    intro h
    rw [h, hbytes, wideBytes_length] at hlen
    have hpos := List.length_pos_iff.mpr hne
    exact absurd hlen.symm (Nat.ne_of_gt (Nat.mul_pos (by decide) hpos))
  have hvalueRead : getValue after valueName regMultiSz (UInt32.ofNat bytes.length) =
      .ok bytes := by
    rw [getValue, hvalue]
    dsimp only
    rw [hlen, if_neg (Nat.lt_irrefl _), if_neg (not_not_intro rfl)]
  have hbuf : wideChars (bytes ++ List.replicate (bytes.length + 2 - bytes.length) 0) =
      chars ++ [0] := by
    rw [Nat.add_sub_cancel_left, hbytes, wideChars_wideBytes]
    rfl
  rw [getMultiSZValue, getValueBufferSize, hvalue]
  dsimp only
  rw [if_neg hzero, hvalueRead]
  dsimp only
  rw [hlen, hbuf]

end

/-- A value that the setter has written is read as the list, whenever the getter succeeds. -/
def RoundTrips (memory : Nat → UInt16) (setAllocated getAllocated : Bool) (values : Values)
    (status : LSTATUS) (valueName : WString) (list prior : List WString) : Prop :=
  ∀ after, setMultiSZValue memory setAllocated values status valueName list =
      (errorSuccess, after) →
    ∃ ls strings, getMultiSZValue after getAllocated valueName prior = some (ls, strings) ∧
      (ls = errorSuccess → strings = list)

/-- The lists and prior contents for which the strings that are read are the list. -/
def Survives (list prior : List WString) : Prop :=
  (listSize list < 2 ^ 31 ∧ prior = []) ∨
    (2 ^ 31 ≤ listSize list ∧ listSize list % 2 ^ 31 ≠ 0 ∧ prior = list)

theorem setMultiSZValue_success {memory : Nat → UInt16} {allocated : Bool} {values after : Values}
    {status : LSTATUS} {valueName : WString} {list : List WString} :
    setMultiSZValue memory allocated values status valueName list = (errorSuccess, after) ↔
      allocated = true ∧ status = errorSuccess ∧ ∃ size, after =
        Function.update values valueName (some ⟨regMultiSz, storedBytes memory list, size⟩) := by
  rw [setMultiSZValue, createDoubleNulTermList]
  cases allocated with
  | false => simp [errorOutOfMemory, errorSuccess]
  | true =>
      rw [if_pos rfl]
      dsimp only
      rw [setValue]
      split
      next hstatus =>
        constructor
        · intro h
          exact ⟨rfl, hstatus, _, (Prod.mk.inj h).2.symm⟩
        · rintro ⟨-, -, size, rfl⟩
          rfl
      next hstatus =>
        constructor
        · intro h
          exact absurd (Prod.mk.inj h).1 hstatus
        · rintro ⟨-, h, -⟩
          exact absurd h hstatus

/-- Getters of a list that has strings in it, which end either with these or without memory. -/
theorem success_iff {allocated : Bool} {strings list prior : List WString}
    (hsize : listSize list % 2 ^ 31 ≠ 0) (hsurvives : Survives list prior ↔ strings = list) :
    (∃ ls read, (if allocated then some (errorSuccess, strings)
        else some (errorOutOfMemory, prior)) = some (ls, read) ∧
      (ls = errorSuccess → read = list)) ↔
      (allocated = true ∨ listSize list % 2 ^ 31 = 0 → Survives list prior) := by
  rw [hsurvives]
  cases allocated with
  | true => simp
  | false =>
      constructor
      · rintro - (h | h)
        · exact absurd h Bool.false_ne_true
        · exact absurd h hsize
      · exact fun _ => ⟨_, _, rfl, fun h => absurd h (by decide)⟩

/-- What the getter makes of the value that the setter has stored. -/
theorem getMultiSZValue_stored {memory : Nat → UInt16} {after : Values} {valueName : WString}
    {list : List WString} (hlist : Listable list)
    (hvalue : ∃ size, after valueName = some ⟨regMultiSz, storedBytes memory list, size⟩)
    (allocated : Bool) (prior : List WString) :
    (∃ ls strings, getMultiSZValue after allocated valueName prior = some (ls, strings) ∧
        (ls = errorSuccess → strings = list)) ↔
      (allocated = true ∨ listSize list % 2 ^ 31 = 0 → Survives list prior) := by
  obtain ⟨hfits, hbytes⟩ | ⟨hbeyond, hzero, hbytes⟩ | ⟨hbeyond, hzero, rest, hbytes⟩ :=
    storedBytes_cases memory hlist
  · have hwalk : walkList (terminated list ++ [0] ++ [0]) = some list := by
      rw [List.append_assoc]
      exact walkList_terminated hlist [0]
    have hsize : listSize list % 2 ^ 31 ≠ 0 := by
      rw [Nat.mod_eq_of_lt hfits, listSize_eq]
      exact Nat.succ_ne_zero _
    rw [getMultiSZValue_chars hvalue hbytes (List.concat_ne_nil 0 _), hwalk]
    refine success_iff hsize ⟨?_, fun h => Or.inl ⟨hfits, List.append_left_eq_self.mp h⟩⟩
    rintro (⟨-, rfl⟩ | ⟨hbeyond, -⟩)
    · rfl
    · exact absurd hfits (Nat.not_lt.mpr hbeyond)
  · have hne : ([] : List WString) ≠ list := by
      rintro rfl
      exact absurd hbeyond (by decide)
    rw [getMultiSZValue_empty hvalue hbytes]
    constructor
    · rintro ⟨ls, strings, hread, heq⟩
      obtain ⟨rfl, rfl⟩ := Prod.mk.inj (Option.some.inj hread)
      exact absurd (heq rfl) hne
    · intro h
      obtain ⟨hfits, -⟩ | ⟨-, hsize, -⟩ := h (Or.inr hzero)
      · exact absurd hfits (Nat.not_lt.mpr hbeyond)
      · exact absurd hzero hsize
  · have hwalk : walkList (0 :: rest ++ [0]) = some [] := by
      rw [List.cons_append, walkList]
      exact if_pos rfl
    rw [getMultiSZValue_chars hvalue hbytes (List.cons_ne_nil 0 rest), hwalk, Option.map_some,
      List.append_nil]
    refine success_iff hzero ⟨?_, fun h => Or.inr ⟨hbeyond, hzero, h⟩⟩
    rintro (⟨hfits, -⟩ | ⟨-, -, rfl⟩)
    · exact absurd hfits (Nat.not_lt.mpr hbeyond)
    · rfl

theorem storedBytes_size (memory : Nat → UInt16) (list : List WString) :
    (storedBytes memory list).length < 2 ^ 32 :=
  Nat.lt_of_le_of_lt (List.length_take_le _ _) (UInt32.toNat_lt _)

theorem RoundTrips.survives {memory : Nat → UInt16} {getAllocated : Bool} {values : Values}
    {valueName : WString} {list prior : List WString} (hlist : Listable list)
    (h : RoundTrips memory true getAllocated values errorSuccess valueName list prior)
    (hget : getAllocated = true ∨ listSize list % 2 ^ 31 = 0) : Survives list prior := by
  have hstored : setMultiSZValue memory true values errorSuccess valueName list =
      (errorSuccess, Function.update values valueName
        (some ⟨regMultiSz, storedBytes memory list, storedBytes_size memory list⟩)) :=
    setMultiSZValue_success.mpr ⟨rfl, rfl, _, rfl⟩
  exact (getMultiSZValue_stored hlist ⟨_, Function.update_self _ _ _⟩ _ _).mp (h _ hstored) hget

/-- A value is read as the list, just where an allocation or the registry refuses it or the
list fits into 32 bits and the vector was empty, or does not and the vector was the list. -/
theorem roundTrips_iff (memory : Nat → UInt16) (setAllocated getAllocated : Bool)
    (values : Values) (status : LSTATUS) (valueName : WString) {list : List WString}
    (hlist : Listable list) (prior : List WString) :
    RoundTrips memory setAllocated getAllocated values status valueName list prior ↔
      (setAllocated = true → status = errorSuccess →
        getAllocated = true ∨ listSize list % 2 ^ 31 = 0 → Survives list prior) := by
  constructor
  · rintro h rfl rfl
    exact h.survives hlist
  · intro h after hafter
    obtain ⟨hset, hstatus, size, rfl⟩ := setMultiSZValue_success.mp hafter
    exact (getMultiSZValue_stored hlist ⟨size, Function.update_self _ _ _⟩ _ _).mpr
      (h hset hstatus)

/-- One string, read into a vector that was empty. -/
theorem roundTrips_fresh_vector : RoundTrips (fun _ => 0) true true (fun _ => none) errorSuccess
    [109] [[97]] [] :=
  (roundTrips_iff (fun _ => 0) true true (fun _ => none) errorSuccess [109] (by decide) []).mpr
    fun _ _ _ => Or.inl ⟨by decide, rfl⟩

/-- The empty list, read into a vector that holds one string. -/
theorem roundTrips_kept_string : ¬RoundTrips (fun _ => 0) true true (fun _ => none) errorSuccess
    [109] [] [[120]] := by
  intro h
  obtain ⟨-, hprior⟩ | ⟨hsize, -⟩ := h.survives (by decide) (Or.inl rfl)
  · exact absurd hprior (by decide)
  · exact absurd hsize (by decide)

end Ashe.RegistryMultiSz
