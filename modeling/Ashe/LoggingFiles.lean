import Mathlib.Algebra.Group.Int.Defs
import Mathlib.Data.List.Perm.Basic
import Ashe.Logging
import Ashe.Runs

namespace Ashe.LoggingFiles

open Logging Runs

def entriesOf (history : List Entry) (i : Nat) : List Entry :=
  history.filter fun e => e.file == some i

/-- The numbers of the files increase up to the last one that was given. -/
structure Numbered (s : State) : Prop where
  numbers : (s.files.map LogFile.number).Pairwise (· < ·)
  bounded : ∀ n ∈ s.files.map LogFile.number, n ≤ s.number
  first : -1 ≤ s.number

structure Kept (s : State) : Prop where
  good : s.stream = .good → ∃ f, s.files.getLast? = some f ∧ f.limit = s.maxLogFileSize
  indices : ∀ e ∈ s.history, ∀ i, e.file = some i → i < s.files.length
  sorted : (s.history.filterMap Entry.file).Pairwise (· ≤ ·)
  contents : ∀ i c, (s.files.map LogFile.content)[i]? = some c →
    c = (entriesOf s.history i).flatMap Entry.written
  sizes : ∀ i l, (s.files.map LogFile.limit)[i]? = some l →
    (entriesOf s.history i).length ≤ 1 ∨
      ((entriesOf s.history i).dropLast.flatMap Entry.written).length < l
  whole : ∀ i, ∀ e ∈ (entriesOf s.history i).dropLast, e.written = e.message
  current : s.stream = .good → ∀ e ∈ entriesOf s.history (s.files.length - 1),
    e.written = e.message
  lost : ∀ e ∈ s.history, e.file = none → e.written = []

def Placed (s : State) : Prop := s.accepted.Perm (s.history.map Entry.message ++ s.pending)

section Files

variable {s s' : State} {disk : Disk} {now : Int}

theorem entriesOf_append (history : List Entry) (e : Entry) (i : Nat) :
    entriesOf (history ++ [e]) i =
      entriesOf history i ++ if e.file = some i then [e] else [] := by
  rw [entriesOf, List.filter_append, entriesOf]
  congr 1
  by_cases h : e.file = some i <;> simp [h]

theorem entriesOf_new (h : Kept s) {i : Nat} (hi : s.files.length ≤ i) :
    entriesOf s.history i = [] := by
  refine List.filter_eq_nil_iff.mpr fun e he hfile => ?_
  have hlt := h.indices e he i (by simpa using hfile)
  omega

theorem closed_kept (h : Kept s) (hs' : s'.stream = .closed) (hfiles : s'.files = s.files)
    (hhistory : s'.history = s.history) : Kept s' := by
  constructor
  · rw [hs']
    nofun
  · rw [hhistory, hfiles]
    exact h.indices
  · rw [hhistory]
    exact h.sorted
  · rw [hhistory, hfiles]
    exact h.contents
  · rw [hhistory, hfiles]
    exact h.sizes
  · rw [hhistory]
    exact h.whole
  · rw [hs']
    nofun
  · rw [hhistory]
    exact h.lost

theorem opened_kept (h : Kept s) {file : LogFile} (hs' : s'.files = s.files ++ [file])
    (hlimit : file.limit = s'.maxLogFileSize) (hcontent : file.content = [])
    (hhistory : s'.history = s.history) : Kept s' := by
  have hnew : entriesOf s.history s.files.length = [] := entriesOf_new h (Nat.le_refl _)
  constructor
  · intro _
    exact ⟨file, by rw [hs', List.getLast?_concat], hlimit⟩
  · rw [hhistory, hs', List.length_append]
    exact fun e he i hi => Nat.lt_succ_of_lt (h.indices e he i hi)
  · rw [hhistory]
    exact h.sorted
  · rw [hhistory, hs', List.map_append]
    intro i c hc
    rcases Nat.lt_trichotomy i s.files.length with hlt | rfl | hgt
    · rw [List.getElem?_append_left (by simpa using hlt)] at hc
      exact h.contents i c hc
    · rw [List.getElem?_append_right (by simp)] at hc
      simp only [List.length_map, Nat.sub_self, List.map_singleton, List.getElem?_cons_zero,
        Option.some.injEq] at hc
      rw [← hc, hcontent, hnew]
      rfl
    · rw [List.getElem?_eq_none (by simp; omega)] at hc
      cases hc
  · rw [hhistory, hs', List.map_append]
    intro i l hl
    rcases Nat.lt_trichotomy i s.files.length with hlt | rfl | hgt
    · rw [List.getElem?_append_left (by simpa using hlt)] at hl
      exact h.sizes i l hl
    · rw [hnew]
      exact .inl (Nat.zero_le _)
    · rw [List.getElem?_eq_none (by simp; omega)] at hl
      cases hl
  · rw [hhistory]
    exact h.whole
  · rw [hhistory, hs', List.length_append, List.length_singleton, Nat.add_sub_cancel, hnew]
    simp
  · rw [hhistory]
    exact h.lost

theorem removeOldFiles_map {β : Type} (s : State) (dir : String) (time : Int) (age : Nat)
    {g : LogFile → β} (hg : ∀ f : LogFile, g { f with removed := true } = g f) :
    (removeOldFiles s dir time age).files.map g = s.files.map g := by
  simp only [removeOldFiles, List.map_map]
  refine List.map_congr_left fun f _ => ?_
  simp only [Function.comp]
  split
  next => exact hg f
  next => rfl

/-- A file that is removed stays the one that is written to, if it is open. -/
theorem removeOldFiles_kept (h : Kept s) {dir : String} {time : Int} {age : Nat} :
    Kept (removeOldFiles s dir time age) := by
  have hlength : (removeOldFiles s dir time age).files.length = s.files.length := by
    simp [removeOldFiles]
  constructor
  · intro hgood
    obtain ⟨f, hf, hlimit⟩ := h.good hgood
    simp only [removeOldFiles, List.getLast?_map, hf, Option.map_some]
    refine ⟨_, rfl, ?_⟩
    split <;> exact hlimit
  · rw [hlength]
    exact h.indices
  · exact h.sorted
  · rw [removeOldFiles_map _ _ _ _ fun _ => rfl]
    exact h.contents
  · rw [removeOldFiles_map _ _ _ _ fun _ => rfl]
    exact h.sizes
  · exact h.whole
  · rw [hlength]
    exact h.current
  · exact h.lost

/-- Opening the next file leaves everything that was logged as it is. The stream is good
only in a new file. -/
theorem initLoggingUnlocked_kept (disk : Disk) (now : Int) (h : Kept s) :
    Kept (initLoggingUnlocked s disk now).1 ∧
      ((initLoggingUnlocked s disk now).1.stream = .good → entriesOf
        (initLoggingUnlocked s disk now).1.history
        ((initLoggingUnlocked s disk now).1.files.length - 1) = []) := by
  have hnew : entriesOf s.history (s.files.length + 1 - 1) = [] := entriesOf_new h (Nat.le_refl _)
  simp only [initLoggingUnlocked]
  split
  next => exact ⟨closed_kept h rfl rfl rfl, nofun⟩
  next =>
    split
    next => exact ⟨closed_kept h rfl rfl rfl, nofun⟩
    next dir _ =>
      split
      next => exact ⟨closed_kept h rfl rfl rfl, nofun⟩
      next =>
        split
        next time htime =>
          have hopened : Kept { s with
              stream := .good
              number := nextNumber s.number
              files := s.files ++ [⟨dir, nextNumber s.number, s.maxLogFileSize, [],
                disk.lastWriteTime.getD now, false⟩] } := opened_kept h rfl rfl rfl rfl
          split
          next => exact ⟨removeOldFiles_kept hopened, fun _ => by simpa [removeOldFiles] using hnew⟩
          next => exact ⟨hopened, fun _ => by simpa using hnew⟩
        next => exact ⟨opened_kept h rfl rfl rfl rfl, fun _ => by simpa using hnew⟩

theorem initLoggingUnlocked_history (s : State) (disk : Disk) (now : Int) :
    (initLoggingUnlocked s disk now).1.history = s.history ∧
    (initLoggingUnlocked s disk now).1.pending = s.pending ∧
    (initLoggingUnlocked s disk now).1.accepted = s.accepted := by
  simp only [initLoggingUnlocked]
  split
  next => exact ⟨rfl, rfl, rfl⟩
  next =>
    split
    next => exact ⟨rfl, rfl, rfl⟩
    next =>
      split
      next => exact ⟨rfl, rfl, rfl⟩
      next =>
        split
        next => split <;> exact ⟨rfl, rfl, rfl⟩
        next => exact ⟨rfl, rfl, rfl⟩

theorem nextNumber_below {n : Int} (hfirst : -1 ≤ n) (hlast : n < 2 ^ 31 - 1) :
    nextNumber n = n + 1 := by
  rw [nextNumber]
  exact Int.bmod_eq_of_le_mul_two (by omega) (by omega)

/-- A file is opened with the next number, unless none is opened. -/
theorem initLoggingUnlocked_numbered (disk : Disk) (now : Int) (h : Numbered s)
    (hlast : s.number < 2 ^ 31 - 1) :
    Numbered (initLoggingUnlocked s disk now).1 ∧
      (initLoggingUnlocked s disk now).1.number ≤ s.number + 1 := by
  have hnext := nextNumber_below h.first hlast
  have hfirst : -1 ≤ s.number + 1 := Int.le_trans h.first (by omega)
  have hbounded : ∀ n ∈ s.files.map LogFile.number, n ≤ s.number + 1 :=
    fun n hn => Int.le_trans (h.bounded n hn) (by omega)
  have hopened {t : State} (dir : String) (time : Int) (hnumber : t.number = s.number + 1)
      (hfiles : t.files = s.files ++ [⟨dir, s.number + 1, s.maxLogFileSize, [], time, false⟩]) :
      Numbered t := by
    refine ⟨?_, ?_, hnumber ▸ hfirst⟩
    · rw [hfiles, List.map_append, List.pairwise_append]
      refine ⟨h.numbers, List.pairwise_singleton _ _, fun m hm n hn => ?_⟩
      have hle := h.bounded m hm
      rw [List.map_singleton, List.mem_singleton] at hn
      dsimp only at hn
      omega
    · rw [hfiles, hnumber, List.map_append]
      intro n hn
      rcases List.mem_append.mp hn with hn | hn
      · exact hbounded n hn
      · rw [List.map_singleton, List.mem_singleton] at hn
        exact Int.le_of_eq hn
  simp only [initLoggingUnlocked, hnext]
  split
  next => exact ⟨⟨h.numbers, h.bounded, h.first⟩, by dsimp only; omega⟩
  next =>
    split
    next => exact ⟨⟨h.numbers, hbounded, hfirst⟩, Int.le_refl _⟩
    next dir _ =>
      split
      next => exact ⟨⟨h.numbers, hbounded, hfirst⟩, Int.le_refl _⟩
      next =>
        split
        next time _ =>
          split
          next =>
            have hnumbered : Numbered { s with
                stream := .good
                number := s.number + 1
                files := s.files ++ [⟨dir, s.number + 1, s.maxLogFileSize, [],
                  disk.lastWriteTime.getD now, false⟩] } := hopened dir _ rfl rfl
            refine ⟨⟨?_, ?_, hnumbered.first⟩, Int.le_refl _⟩
            · rw [removeOldFiles_map _ _ _ _ fun _ => rfl]
              exact hnumbered.numbers
            · rw [removeOldFiles_map _ _ _ _ fun _ => rfl]
              exact hnumbered.bounded
          next => exact ⟨hopened dir _ rfl rfl, Int.le_refl _⟩
        next => exact ⟨hopened dir _ rfl rfl, Int.le_refl _⟩

theorem write_numbers (s : State) (message : List UInt8) (room : Nat) (now : Int) :
    (write s message room now).files.map LogFile.number = s.files.map LogFile.number ∧
      (write s message room now).number = s.number := by
  rw [write]
  split
  next =>
    refine ⟨?_, rfl⟩
    dsimp only
    rw [appendLast]
    split
    next => rfl
    next f hf =>
      obtain ⟨before, hfiles⟩ := List.getLast?_eq_some_iff.mp hf
      rw [hfiles, List.dropLast_concat]
      simp
  next => exact ⟨rfl, rfl⟩

theorem flatMap_written (history : List Entry) (e : Entry) (i : Nat) :
    (entriesOf (history ++ [e]) i).flatMap Entry.written =
      (entriesOf history i).flatMap Entry.written ++ if e.file = some i then e.written else [] := by
  rw [entriesOf_append, List.flatMap_append]
  split <;> simp

/-- A message is written to the open file, as far as there is room. -/
theorem written_kept {message : List UInt8} {room : Nat} (h : Kept s) (hgood : s.stream = .good)
    (hroom : entriesOf s.history (s.files.length - 1) = [] ∨ isFull s = false) :
    Kept (write s message room now) := by
  obtain ⟨f, hf, hlimit⟩ := h.good hgood
  obtain ⟨before, hfiles⟩ := List.getLast?_eq_some_iff.mp hf
  have hlength : s.files.length = before.length + 1 := by rw [hfiles, List.length_append]; rfl
  have hlast : s.files.length - 1 = before.length := by omega
  have happend : appendLast s.files (message.take room) now =
      before ++ [{ f with content := f.content ++ message.take room, time := now }] := by
    rw [appendLast, hf, hfiles, List.dropLast_concat]
  have hs : write s message room now = { s with
      files := before ++ [{ f with content := f.content ++ message.take room, time := now }]
      stream := if room < message.length then .failed else .good
      history := s.history ++ [⟨message, some before.length, message.take room⟩] } := by
    rw [write, hgood]
    dsimp only
    rw [happend, hlast]
  have hentries : ∀ i, entriesOf (s.history ++ [⟨message, some before.length, message.take room⟩])
      i = entriesOf s.history i ++
        if before.length = i then [⟨message, some before.length, message.take room⟩] else [] := by
    intro i
    rw [entriesOf_append]
    simp only [Option.some.injEq]
  have hcurrent := h.current hgood
  rw [hlast] at hcurrent hroom
  have hcontent : f.content = (entriesOf s.history before.length).flatMap Entry.written := by
    refine h.contents before.length f.content ?_
    rw [hfiles, List.map_append, List.getElem?_append_right (by simp)]
    simp
  rw [hs]
  constructor
  · exact fun _ => ⟨_, List.getLast?_concat, hlimit⟩
  · intro e he i hi
    rw [List.length_append]
    rcases List.mem_append.mp he with he | he
    · have hlt := h.indices e he i hi
      rw [hlength] at hlt
      exact hlt
    · rw [List.mem_singleton] at he
      subst he
      obtain rfl := Option.some.inj hi
      exact Nat.lt_succ_self _
  · rw [List.filterMap_append, List.pairwise_append]
    refine ⟨h.sorted, List.pairwise_singleton _ _, fun i hi j hj => ?_⟩
    obtain ⟨e, he, hi⟩ := List.mem_filterMap.mp hi
    have hlt := h.indices e he i hi
    rw [List.filterMap_cons, List.filterMap_nil] at hj
    rw [List.mem_singleton.mp hj]
    omega
  · intro i c hc
    rw [flatMap_written]
    simp only [Option.some.injEq]
    by_cases hi : before.length = i
    · subst hi
      rw [if_pos rfl, ← hcontent]
      rw [List.map_append, List.getElem?_append_right (by simp)] at hc
      simpa using hc.symm
    · rw [if_neg hi, List.append_nil]
      refine h.contents i c ?_
      rw [hfiles, List.map_append]
      rw [List.map_append] at hc
      by_cases hlt : i < before.length
      · rw [List.getElem?_append_left (by simpa using hlt)] at hc ⊢
        exact hc
      · rw [List.getElem?_eq_none (by simp; omega)] at hc
        cases hc
  · intro i l hl
    have hl' : (s.files.map LogFile.limit)[i]? = some l := by
      rw [hfiles, List.map_append]
      rw [List.map_append] at hl
      exact hl
    rw [hentries]
    by_cases hi : before.length = i
    · subst hi
      rw [if_pos rfl, List.dropLast_concat, List.length_append, List.length_singleton]
      rcases hroom with hnone | hsmall
      · rw [hnone]
        exact .inl (Nat.le_refl _)
      · refine .inr ?_
        have hposition : f.content.length < s.maxLogFileSize := by
          rw [isFull, tellp, hgood] at hsmall
          dsimp only at hsmall
          rw [hf] at hsmall
          simpa using hsmall
        have hlim : l = f.limit := by
          rw [hfiles, List.map_append, List.getElem?_append_right (by simp)] at hl'
          simpa using hl'.symm
        rw [← hcontent, hlim, hlimit]
        exact hposition
    · rw [if_neg hi, List.append_nil]
      exact h.sizes i l hl'
  · intro i e he
    rw [hentries] at he
    by_cases hi : before.length = i
    · subst hi
      rw [if_pos rfl, List.dropLast_concat] at he
      exact hcurrent e he
    · rw [if_neg hi, List.append_nil] at he
      exact h.whole i e he
  · intro hgood' e he
    dsimp only at hgood' he
    rw [List.length_append, List.length_singleton, Nat.add_sub_cancel, hentries, if_pos rfl] at he
    rcases List.mem_append.mp he with he | he
    · exact hcurrent e he
    · rw [List.mem_singleton] at he
      subst he
      split at hgood'
      next => cases hgood'
      next hfits => exact List.take_of_length_le (by omega)
  · intro e he hnone
    rcases List.mem_append.mp he with he | he
    · exact h.lost e he hnone
    · rw [List.mem_singleton] at he
      subst he
      cases hnone

theorem unwritten_kept {message : List UInt8} {room : Nat} (h : Kept s)
    (hbad : s.stream ≠ .good) : Kept (write s message room now) := by
  have hs : write s message room now =
      { s with history := s.history ++ [⟨message, none, []⟩] } := by
    rw [write]
    split
    next hgood => exact absurd hgood hbad
    next => rfl
  have hentries (i : Nat) :
      entriesOf (s.history ++ [⟨message, none, []⟩]) i = entriesOf s.history i := by
    rw [entriesOf_append]
    simp
  rw [hs]
  refine ⟨h.good, ?_, ?_, ?_, ?_, ?_, ?_, ?_⟩
  · intro e he i hi
    rcases List.mem_append.mp he with he | he
    · exact h.indices e he i hi
    · rw [List.mem_singleton] at he
      subst he
      cases hi
  · rw [List.filterMap_append]
    simpa using h.sorted
  · intro i
    rw [hentries]
    exact h.contents i
  · intro i
    rw [hentries]
    exact h.sizes i
  · intro i
    rw [hentries]
    exact h.whole i
  · rw [hentries]
    exact h.current
  · intro e he hnone
    rcases List.mem_append.mp he with he | he
    · exact h.lost e he hnone
    · rw [List.mem_singleton] at he
      rw [he]

theorem good_of_room (h : isFull s = false) : s.stream = .good := by
  rw [isFull, tellp] at h
  cases hs : s.stream with
  | good => rfl
  | closed | failed =>
      rw [hs] at h
      cases h

theorem write_kept {message : List UInt8} {room : Nat} (h : Kept s) :
    Kept (writeLogFile s message disk room now) := by
  rw [writeLogFile]
  cases hfull : isFull s with
  | false => exact written_kept h (good_of_room hfull) (.inr hfull)
  | true =>
      obtain ⟨hinit, hnew⟩ := initLoggingUnlocked_kept disk now h
      by_cases hgood : (initLoggingUnlocked s disk now).1.stream = .good
      · exact written_kept hinit hgood (.inl (hnew hgood))
      · exact unwritten_kept hinit hgood

theorem write_history (s : State) (now : Int) (message : List UInt8) (room : Nat) :
    ∃ e, e.message = message ∧ (write s message room now).history = s.history ++ [e] ∧
      (write s message room now).pending = s.pending ∧
      (write s message room now).accepted = s.accepted ∧
      (e.file ≠ none ∧ e.written = message ↔ s.stream = .good ∧ message.length ≤ room) := by
  rw [write]
  split
  next hgood =>
    refine ⟨_, rfl, rfl, rfl, rfl, fun h => ⟨hgood, ?_⟩, fun h => ⟨nofun, ?_⟩⟩
    · have hlength := congrArg List.length h.2
      rw [List.length_take] at hlength
      omega
    · exact List.take_of_length_le h.2
  next hbad =>
    exact ⟨_, rfl, rfl, rfl, rfl, fun h => absurd rfl h.1, fun h => absurd h.1 hbad⟩

end Files

/-- The next file can be opened if one is needed, and takes the message. -/
def Writable (s : State) : Label → Prop
  | .write i disk room _ =>
      (isFull s = true → s.destination.toFile = true ∧ (fileDir s disk).isSome = true ∧
        disk.opens = true) ∧
      s.pending[i]?.all (fun message => message.length ≤ room) = true
  | _ => True

instance (s : State) (l : Label) : Decidable (Writable s l) := by
  cases l <;> unfold Writable <;> infer_instance

section Step

variable {s s' : State} {l : Label}

theorem init_good (s : State) (disk : Disk) (now : Int) :
    (initLoggingUnlocked s disk now).1.stream = .good ↔
      s.destination.toFile = true ∧ (fileDir s disk).isSome = true ∧ disk.opens = true := by
  have hdir : fileDir { s with stream := .closed, number := nextNumber s.number } disk =
      fileDir s disk := rfl
  simp only [initLoggingUnlocked]
  rw [hdir]
  split
  next h => simp_all
  next h =>
    split
    next hnone => simp [hnone]
    next hsome =>
      split
      next ho => simp_all
      next ho =>
        split
        next => split <;> simp_all [removeOldFiles]
        next => simp_all

theorem writeLogFile_history (s : State) (disk : Disk) (now : Int) (message : List UInt8)
    (room : Nat) : ∃ e, e.message = message ∧
      (writeLogFile s message disk room now).history = s.history ++ [e] ∧
      (writeLogFile s message disk room now).pending = s.pending ∧
      (writeLogFile s message disk room now).accepted = s.accepted ∧
      (e.file ≠ none ∧ e.written = message ↔
        (isFull s = true → s.destination.toFile = true ∧ (fileDir s disk).isSome = true ∧
          disk.opens = true) ∧ message.length ≤ room) := by
  rw [writeLogFile]
  cases hfull : isFull s with
  | false =>
      obtain ⟨e, he, hh, hp, ha, hw⟩ := write_history s now message room
      have hgood := good_of_room hfull
      refine ⟨e, he, hh, hp, ha, hw.trans (and_congr_left fun _ => ?_)⟩
      exact ⟨fun _ => nofun, fun _ => hgood⟩
  | true =>
      obtain ⟨e, he, hh, hp, ha, hw⟩ :=
        write_history (initLoggingUnlocked s disk now).1 now message room
      obtain ⟨hh', hp', ha'⟩ := initLoggingUnlocked_history s disk now
      refine ⟨e, he, hh.trans (by rw [hh']), hp.trans hp', ha.trans ha',
        hw.trans (and_congr_left fun _ => ?_)⟩
      rw [init_good]
      exact ⟨fun h _ => h, fun h => h rfl⟩

inductive Moves (s : State) : Label → State → Prop
  | other {l : Label} {s' : State} (hl : ∀ i disk room now, l ≠ .write i disk room now)
      (hh : s'.history = s.history) (hp : s'.pending = s.pending) (ha : s'.accepted = s.accepted) :
      Moves s l s'
  | accept {l : Label} {s' : State} (message : List UInt8)
      (hl : ∀ i disk room now, l ≠ .write i disk room now) (hh : s'.history = s.history)
      (hp : s'.pending = s.pending ++ [message]) (ha : s'.accepted = s.accepted ++ [message]) :
      Moves s l s'
  | write {i : Nat} {disk : Disk} {room : Nat} {now : Int} {s' : State} (e : Entry)
      (hi : s.pending[i]? = some e.message) (hh : s'.history = s.history ++ [e])
      (hp : s'.pending = s.pending.eraseIdx i) (ha : s'.accepted = s.accepted)
      (hw : e.file ≠ none ∧ e.written = e.message ↔ Writable s (.write i disk room now)) :
      Moves s (.write i disk room now) s'

theorem step_moves (h : step s l = some s') : Moves s l s' := by
  cases l with
  | initLogging settings disk now =>
      obtain rfl := Option.some.inj h
      obtain ⟨hh, hp, ha⟩ := initLoggingUnlocked_history { s with
        destination := settings.destination, minLogLevel := settings.minLogLevel,
        dir := settings.logDir, maxLogFileSize := settings.maxLogFileSize,
        maxLogFileAge := settings.maxLogFileAge } disk now
      exact .other nofun hh hp ha
  | log severity message =>
      obtain rfl := Option.some.inj h
      simp only [log]
      split
      next => exact .other nofun rfl rfl rfl
      next =>
        by_cases hout : (s.destination.toStdout || 1 ≤ severity.rank) = true
        · rw [if_pos hout]
          split
          next => exact .accept message nofun rfl rfl rfl
          next => exact .other nofun rfl rfl rfl
        · rw [if_neg hout]
          split
          next => exact .accept message nofun rfl rfl rfl
          next => exact .other nofun rfl rfl rfl
  | write i disk room now =>
      rw [step] at h
      split at h
      next => cases h
      next message hi =>
        obtain rfl := Option.some.inj h
        obtain ⟨e, rfl, hh, hp, ha, hw⟩ := writeLogFile_history
          { s with pending := s.pending.eraseIdx i } disk now message room
        refine .write e hi hh hp ha (hw.trans (and_congr_right fun _ => ?_))
        simp [hi]
  | shutdown =>
      obtain rfl := Option.some.inj h
      exact .other nofun rfl rfl rfl
  | other file =>
      obtain rfl := Option.some.inj h
      exact .other nofun rfl rfl rfl

theorem log_eq (s : State) (severity : LoggingSeverity) (message : List UInt8) :
    ∃ pending accepted stderr, log s severity message =
      { s with pending := pending, accepted := accepted, stderr := stderr } := by
  simp only [log]
  split
  next => exact ⟨_, _, _, rfl⟩
  next =>
    by_cases hout : (s.destination.toStdout || 1 ≤ severity.rank) = true
    · rw [if_pos hout]
      split <;> exact ⟨_, _, _, rfl⟩
    · rw [if_neg hout]
      split <;> exact ⟨_, _, _, rfl⟩

theorem step_kept (h : Kept s) (hs : step s l = some s') : Kept s' := by
  cases l with
  | initLogging settings disk now =>
      obtain rfl := Option.some.inj hs
      have hclosed : Kept { s with
          destination := settings.destination, minLogLevel := settings.minLogLevel,
          dir := settings.logDir, maxLogFileSize := settings.maxLogFileSize,
          maxLogFileAge := settings.maxLogFileAge, stream := .closed } :=
        closed_kept h rfl rfl rfl
      exact (initLoggingUnlocked_kept disk now hclosed).1
  | log severity message =>
      obtain rfl := Option.some.inj hs
      obtain ⟨pending, accepted, stderr, heq⟩ := log_eq s severity message
      rw [heq]
      exact ⟨h.good, h.indices, h.sorted, h.contents, h.sizes, h.whole, h.current, h.lost⟩
  | write i disk room now =>
      rw [step] at hs
      split at hs
      next => cases hs
      next message hi =>
        obtain rfl := Option.some.inj hs
        have herased : Kept { s with pending := s.pending.eraseIdx i } :=
          ⟨h.good, h.indices, h.sorted, h.contents, h.sizes, h.whole, h.current, h.lost⟩
        exact write_kept herased
  | shutdown =>
      obtain rfl := Option.some.inj hs
      exact closed_kept h rfl rfl rfl
  | other file =>
      obtain rfl := Option.some.inj hs
      exact ⟨h.good, h.indices, h.sorted, h.contents, h.sizes, h.whole, h.current, h.lost⟩

def opens : Label → Bool
  | .initLogging .. | .write .. => true
  | .log .. | .shutdown | .other _ => false

theorem step_numbered (h : Numbered s) (hlast : s.number < 2 ^ 31 - 1 ∨ opens l = false)
    (hs : step s l = some s') :
    Numbered s' ∧ s'.number ≤ s.number + if opens l then 1 else 0 := by
  cases l with
  | initLogging settings disk now =>
      obtain rfl := Option.some.inj hs
      exact initLoggingUnlocked_numbered disk now ⟨h.numbers, h.bounded, h.first⟩
        (hlast.resolve_right nofun)
  | log severity message =>
      obtain rfl := Option.some.inj hs
      obtain ⟨pending, accepted, stderr, heq⟩ := log_eq s severity message
      rw [heq]
      exact ⟨⟨h.numbers, h.bounded, h.first⟩, Int.le_of_eq (Int.add_zero _).symm⟩
  | write i disk room now =>
      rw [step] at hs
      split at hs
      next => cases hs
      next message hi =>
        obtain rfl := Option.some.inj hs
        have hopened (t : State) (ht : Numbered t) (hle : t.number ≤ s.number + 1) :
            Numbered (write t message room now) ∧
              (write t message room now).number ≤ s.number + 1 := by
          obtain ⟨hnumbers, hnumber⟩ := write_numbers t message room now
          exact ⟨⟨hnumbers ▸ ht.numbers, by rw [hnumbers, hnumber]; exact ht.bounded,
            hnumber ▸ ht.first⟩, hnumber ▸ hle⟩
        rw [writeLogFile]
        split
        next =>
          obtain ⟨hnumbered, hle⟩ := initLoggingUnlocked_numbered
            (s := { s with pending := s.pending.eraseIdx i }) disk now
            ⟨h.numbers, h.bounded, h.first⟩ (hlast.resolve_right nofun)
          exact hopened _ hnumbered hle
        next => exact hopened _ ⟨h.numbers, h.bounded, h.first⟩ (by dsimp only; omega)
  | shutdown =>
      obtain rfl := Option.some.inj hs
      exact ⟨⟨h.numbers, h.bounded, h.first⟩, Int.le_of_eq (Int.add_zero _).symm⟩
  | other file =>
      obtain rfl := Option.some.inj hs
      exact ⟨⟨h.numbers, h.bounded, h.first⟩, Int.le_of_eq (Int.add_zero _).symm⟩

theorem exec_numbered {ls : List Label} (h : Numbered s)
    (hlast : s.number + ls.countP opens ≤ 2 ^ 31 - 1) (hs : exec step s ls = some s') :
    Numbered s' := by
  induction ls generalizing s with
  | nil =>
      obtain rfl := Option.some.inj hs
      exact h
  | cons l ls ih =>
      obtain ⟨u, hu, hs⟩ := exec_cons.mp hs
      rw [List.countP_cons] at hlast
      obtain ⟨hnumbered, hle⟩ := step_numbered h (by cases hl : opens l <;> simp_all; omega) hu
      refine ih hnumbered ?_ hs
      cases hl : opens l with
      | true =>
          rw [hl, if_pos rfl] at hlast hle
          omega
      | false =>
          rw [hl, if_neg Bool.false_ne_true] at hlast hle
          omega

theorem moves_placed (h : Placed s) (hm : Moves s l s') : Placed s' := by
  rw [Placed] at h ⊢
  cases hm with
  | other _ hh hp ha => rwa [hh, hp, ha]
  | accept message _ hh hp ha =>
      rw [hh, hp, ha, ← List.append_assoc]
      exact h.append_right [message]
  | @write i _ _ _ _ e hi hh hp ha =>
      rw [hh, hp, ha, List.map_append, List.append_assoc]
      obtain ⟨hlt, hget⟩ := List.getElem?_eq_some_iff.mp hi
      have hperm := List.getElem_cons_eraseIdx_perm hlt
      rw [hget] at hperm
      exact h.trans (hperm.symm.append_left _)

theorem initial_kept (logDefault : LoggingDestination) : Kept (initial logDefault) := by
  constructor <;> simp [initial, entriesOf]

theorem initial_numbered (logDefault : LoggingDestination) : Numbered (initial logDefault) := by
  constructor <;> simp [initial]

end Step

/-- A message was written whole to a log file, which may be removed for its age later. -/
def Written (e : Entry) : Prop := e.file ≠ none ∧ e.written = e.message

theorem run_written {ls : List Label} {s t : State} (h : exec step s ls = some t) :
    (∀ e ∈ t.history, Written e) ↔
      (∀ e ∈ s.history, Written e) ∧ Along step (fun s l _ => Writable s l) s ls := by
  induction ls generalizing s with
  | nil =>
      obtain rfl := Option.some.inj h
      exact ⟨fun h => ⟨h, trivial⟩, And.left⟩
  | cons l ls ih =>
      obtain ⟨u, hu, ht⟩ := exec_cons.mp h
      have halong : Along step (fun s l _ => Writable s l) s (l :: ls) ↔
          Writable s l ∧ Along step (fun s l _ => Writable s l) u ls := by
        refine ⟨fun h => h u hu, fun h v hv => ?_⟩
        obtain rfl := Option.some.inj (hu.symm.trans hv)
        exact h
      have hnone : (∀ i disk room now, l ≠ .write i disk room now) → Writable s l := by
        intro hl
        cases l with
        | write i disk room now => exact absurd rfl (hl i disk room now)
        | initLogging | log | shutdown | other => trivial
      rw [ih ht, halong]
      have hm := step_moves hu
      cases hm with
      | other hl hh => simp [hh, hnone hl]
      | accept _ hl hh => simp [hh, hnone hl]
      | write e hi hh hp ha hw =>
          rw [hh, List.forall_mem_append, ← hw]
          simp [Written, and_assoc]

def goodDisk : Disk := ⟨none, some true, true, true, some 0⟩

/-- Three messages with a limit of four bytes. The second thread has the lock first. -/
def rotated : List Label :=
  [.initLogging ⟨⟨true, false⟩, .info, "log", 4, 14⟩ goodDisk 0, .log .info [1, 2, 3],
    .log .info [4, 5, 6], .write 1 goodDisk 9 0, .write 0 goodDisk 9 0, .log .error [7],
    .write 0 goodDisk 9 0]

end Ashe.LoggingFiles
