import Ashe.Process
import Ashe.Runs

namespace Ashe.ProcessDescriptors

open Handles Process Runs

def held (s : State) : List Nat :=
  s.stdinFd.join.toList ++ ((s.fds .stdout).join.toList ++ (s.fds .stderr).join.toList)

def Closed (s : State) : Prop := s.stdinFd = none ∧ ∀ x, s.fds x = none

def Reads (s : State) : Prop := s.reader ≠ .absent ∧ s.reader ≠ .finished

structure Kept (s : State) : Prop where
  holds : Holds s.table (held s)
  opened : s.id = -1 ∨ 0 < s.id
  written : 0 < s.id → s.stdinFd ≠ some none ∧ ∀ x, s.fds x ≠ some none
  failed : s.id = -1 → held s = [] ∧ s.reader = .absent
  reading : Reads s → s.reader ≠ .starting → ∀ e ∈ s.pollfds, ∀ fd, e.fd = some fd →
    s.fds e.stream = some (some fd)
  closed : s.closed = true → 0 < s.id → s.client = .idle → Closed s
  destroyed : s.client = .destroyed → Closed s ∧ ¬ Reads s
  stray : 0 < s.strayWrites → s.id = -1 ∧ s.config.openStdin = true

theorem held_closed {s : State} (h : Closed s) : held s = [] := by
  simp [held, h.1, h.2]

section Open

variable {c : Config} {k : Answers}

theorem makePipe_holds {t t' : Table Nat} {wanted : Bool} {answer p : Option (Nat × Nat)}
    {l : List Nat} (h : Holds t l) (hp : makePipe t wanted answer = some (t', p)) :
    Holds t' (ends p ++ l) ∧ p.isSome = wanted := by
  rw [makePipe] at hp
  cases wanted with
  | false =>
      obtain ⟨rfl, rfl⟩ := Prod.mk.inj (Option.some.inj hp)
      exact ⟨h, rfl⟩
  | true =>
      rw [if_pos rfl] at hp
      obtain ⟨q, -, heq⟩ := Option.map_eq_some_iff.mp hp
      obtain ⟨rfl, rfl⟩ := Prod.mk.inj heq
      exact ⟨h.gain [q.1, q.2], rfl⟩

theorem failed_kept {t : Table Nat} {toClose : List Nat} (h : Holds t toClose) :
    Kept (failed c t toClose) := by
  have hheld : held (failed c t toClose) = [] := by
    simp only [held, failed, unopened]
    cases c.openStdin <;> cases c.reads .stdout <;> cases c.reads .stderr <;> rfl
  have hid : ¬ (0 : Int) < (failed c t toClose).id := show ¬ (0 : Int) < -1 by decide
  refine ⟨?_, .inl rfl, fun hpos => absurd hpos hid, fun _ => ⟨hheld, rfl⟩,
    fun hr => absurd rfl hr.1, fun _ hpos => absurd hpos hid, nofun,
    fun hstray => absurd hstray (Nat.lt_irrefl 0)⟩
  rw [hheld]
  have happ : Holds t (toClose ++ []) := by rwa [List.append_nil]
  exact happ.closeAll

theorem count_ends (a : Nat) (p : Option (Nat × Nat)) :
    (ends p).count a = (p.map Prod.fst).toList.count a + (p.map Prod.snd).toList.count a := by
  cases p with
  | none => rfl
  | some p => simp [ends, List.count_cons, Nat.add_comm]

theorem forked_kept {t : Table Nat} {stdinP stdoutP stderrP : Option (Nat × Nat)}
    (h : Holds t (ends stderrP ++ (ends stdoutP ++ ends stdinP))) (hpid : 0 < k.pid) :
    Kept (forked c t stdinP stdoutP stderrP k.pid) := by
  have hid : ¬ (forked c t stdinP stdoutP stderrP k.pid).id = -1 := by
    change ¬ k.pid = -1
    omega
  refine ⟨?_, .inr hpid, fun _ => ?_, fun hfail => absurd hfail hid, fun hr => absurd rfl hr.1,
    nofun, nofun, fun hstray => absurd hstray (Nat.lt_irrefl 0)⟩
  · refine Holds.closeAll (h.perm ?_)
    have hheld : held (forked c t stdinP stdoutP stderrP k.pid) = (stdinP.map Prod.snd).toList ++
        ((stdoutP.map Prod.fst).toList ++ (stderrP.map Prod.fst).toList) := by
      simp only [held, forked]
      cases stdinP <;> cases stdoutP <;> cases stderrP <;> rfl
    rw [hheld, List.perm_iff_count]
    intro a
    simp only [List.count_append, count_ends]
    omega
  · constructor
    · cases stdinP <;> nofun
    · intro x
      cases x with
      | stdout => cases stdoutP <;> nofun
      | stderr => cases stderrP <;> nofun

theorem openProcess_kept (hpid : k.pid ≠ 0) : Kept (openProcess c k) := by
  have hnone : Holds (⟨[], 0⟩ : Table Nat) [] := ⟨.refl _, rfl⟩
  rw [openProcess]
  split
  next => exact failed_kept hnone
  next t stdinP hstdin =>
    obtain ⟨hstdin, -⟩ := makePipe_holds hnone hstdin
    rw [List.append_nil] at hstdin
    split
    next => exact failed_kept hstdin
    next t' stdoutP hstdout =>
      obtain ⟨hstdout, -⟩ := makePipe_holds hstdin hstdout
      split
      next => exact failed_kept (hstdout.perm List.perm_append_comm)
      next t'' stderrP hstderr =>
        obtain ⟨hstderr, -⟩ := makePipe_holds hstdout hstderr
        split
        next =>
          refine failed_kept (hstderr.perm ?_)
          exact List.perm_append_comm.trans (List.perm_append_comm.append_right _)
        next hfork => exact forked_kept hstderr (by omega)

theorem openProcess_idle (c : Config) (k : Answers) :
    (openProcess c k).client = .idle ∧ (openProcess c k).pollfds = [] := by
  rw [openProcess]
  split
  next => exact ⟨rfl, rfl⟩
  next =>
    split
    next => exact ⟨rfl, rfl⟩
    next =>
      split
      next => exact ⟨rfl, rfl⟩
      next => split <;> exact ⟨rfl, rfl⟩

theorem process_kept (hpid : k.pid ≠ 0) : Kept (process c k) := by
  have h := openProcess_kept (c := c) (k := k) hpid
  rw [process, asyncRead]
  split
  next => exact h
  next hid =>
    have hpos : ¬ (openProcess c k).id ≤ 0 := fun hle => hid (.inl hle)
    refine ⟨h.holds, h.opened, h.written, fun hfail => ?_, fun _ hne => absurd rfl hne, h.closed,
      fun hdest => ?_, h.stray⟩
    · exact absurd (show (openProcess c k).id ≤ 0 by rw [hfail]; decide) hpos
    · exact absurd ((openProcess_idle c k).1.symm.trans hdest) nofun

end Open

section Steps

variable {s s' : State} {capacity : Nat}

theorem mem_held {x : Stream} {fd : Nat} (h : s.fds x = some (some fd)) : fd ∈ held s := by
  cases x <;> simp [held, h]

theorem touchAll_holds {t : Table Nat} {l given : List Nat} (h : Holds t l)
    (hgiven : ∀ fd ∈ given, fd ∈ l) : given.foldl Table.touch t = t := by
  induction given with
  | nil => rfl
  | cons fd given ih =>
      obtain ⟨hfd, hrest⟩ := List.forall_mem_cons.mp hgiven
      rw [List.foldl_cons, h.touch hfd]
      exact ih hrest

theorem startReader_kept (h : Kept s) (hs : s.reader = .starting) (nonblocking : Stream → Bool) :
    Kept (startReader s nonblocking) := by
  have htable : (startReader s nonblocking).table = s.table := by
    refine touchAll_holds h.holds fun fd hfd => ?_
    obtain ⟨x, -, hx⟩ := List.mem_filterMap.mp hfd
    rw [Option.join_eq_some_iff] at hx
    exact mem_held hx
  have hreads : Reads s := by
    rw [Reads, hs]
    exact ⟨nofun, nofun⟩
  refine ⟨?_, h.opened, h.written, fun hfail => ?_, fun _ _ e he fd hfd => ?_, h.closed,
    fun hdest => absurd hreads (h.destroyed hdest).2, h.stray⟩
  · rw [htable]
    exact h.holds
  · exact absurd (h.failed hfail).2 hreads.1
  · have hentry : ∀ x, e ∈ pollFd s nonblocking x → s.fds e.stream = some (some fd) := by
      intro x hx
      rw [pollFd] at hx
      split at hx
      next => cases hx
      next d hd =>
        rw [List.mem_singleton] at hx
        subst hx
        dsimp only at hfd ⊢
        split at hfd
        next =>
          rw [hd, hfd]
        next => cases hfd
    rcases List.mem_append.mp he with he | he
    · exact hentry .stdout he
    · exact hentry .stderr he

structure Same (s s' : State) : Prop where
  table : s'.table = s.table
  id : s'.id = s.id
  config : s'.config = s.config
  stdinFd : s'.stdinFd = s.stdinFd
  fds : s'.fds = s.fds
  client : s'.client = s.client
  closed : s'.closed = s.closed
  stray : s'.strayWrites = s.strayWrites

theorem Same.held (h : Same s s') : held s' = held s := by
  rw [ProcessDescriptors.held, ProcessDescriptors.held, h.stdinFd, h.fds]

theorem Same.closedCells (h : Same s s') : Closed s' ↔ Closed s := by
  rw [Closed, Closed, h.stdinFd, h.fds]

theorem Kept.read (h : Kept s) (hreads : Reads s) (hsame : Same s s')
    (hentries : ∀ e ∈ s'.pollfds, ∀ fd, e.fd = some fd → s.fds e.stream = some (some fd)) :
    Kept s' := by
  refine ⟨?_, ?_, ?_, ?_, ?_, ?_, ?_, ?_⟩
  · rw [hsame.table, hsame.held]
    exact h.holds
  · rw [hsame.id]
    exact h.opened
  · rw [hsame.id, hsame.stdinFd, hsame.fds]
    exact h.written
  · rw [hsame.id]
    exact fun hfail => absurd (h.failed hfail).2 hreads.1
  · rw [hsame.fds]
    exact fun _ _ => hentries
  · rw [hsame.closed, hsame.id, hsame.client, hsame.closedCells]
    exact h.closed
  · rw [hsame.client]
    exact fun hdest => absurd hreads (h.destroyed hdest).2
  · rw [hsame.stray, hsame.id, hsame.config]
    exact h.stray

theorem Kept.still (h : Kept s) (hsame : Same s s') (hreader : s'.reader = s.reader)
    (hpollfds : s'.pollfds = s.pollfds) : Kept s' := by
  refine ⟨?_, ?_, ?_, ?_, ?_, ?_, ?_, ?_⟩
  · rw [hsame.table, hsame.held]
    exact h.holds
  · rw [hsame.id]
    exact h.opened
  · rw [hsame.id, hsame.stdinFd, hsame.fds]
    exact h.written
  · rw [hsame.id, hsame.held, hreader]
    exact h.failed
  · rw [Reads, hsame.fds, hreader, hpollfds]
    exact h.reading
  · rw [hsame.closed, hsame.id, hsame.client, hsame.closedCells]
    exact h.closed
  · rw [hsame.client, hsame.closedCells, Reads, hreader]
    exact h.destroyed
  · rw [hsame.stray, hsame.id, hsame.config]
    exact h.stray

theorem poll_kept (h : Kept s) (hs : s.reader = .polling) {result : Polled}
    (hpoll : poll s result = some s') : Kept s' := by
  have hreads : Reads s := by
    rw [Reads, hs]
    exact ⟨nofun, nofun⟩
  have hentries := h.reading hreads (by rw [hs]; nofun)
  have hwatch : watch s = s := by
    rw [watch, touchAll_holds h.holds fun fd hfd => ?_]
    obtain ⟨e, he, hfd⟩ := List.mem_filterMap.mp hfd
    exact mem_held (hentries e he fd hfd)
  rw [poll, hwatch] at hpoll
  cases result with
  | events =>
      simp only [polled] at hpoll
      split at hpoll
      next =>
        obtain rfl := Option.some.inj hpoll
        refine h.read hreads ⟨rfl, rfl, rfl, rfl, rfl, rfl, rfl, rfl⟩ fun e' he' fd hfd => ?_
        obtain ⟨e, he, rfl⟩ := List.mem_map.mp he'
        rw [revents] at hfd ⊢
        split at hfd
        next hsome =>
          rw [if_pos hsome]
          exact hentries e he fd hfd
        next hsome =>
          rw [if_neg hsome]
          exact hentries e he fd hfd
      next => cases hpoll
  | interrupted clears =>
      obtain rfl := Option.some.inj hpoll
      refine h.read hreads ⟨rfl, rfl, rfl, rfl, rfl, rfl, rfl, rfl⟩ fun e' he' fd hfd => ?_
      cases clears with
      | false => exact hentries e' he' fd hfd
      | true =>
          obtain ⟨e, he, rfl⟩ := List.mem_map.mp he'
          exact hentries e he fd hfd
  | failed =>
      obtain rfl := Option.some.inj hpoll
      exact h.read hreads ⟨rfl, rfl, rfl, rfl, rfl, rfl, rfl, rfl⟩ hentries

theorem Same.scans (h : Same s s') (pollfds : List PollFd) (reader : Reader) :
    Same s { s' with pollfds := pollfds, reader := reader } :=
  ⟨h.table, h.id, h.config, h.stdinFd, h.fds, h.client, h.closed, h.stray⟩

theorem same_refl (s : State) : Same s s := ⟨rfl, rfl, rfl, rfl, rfl, rfl, rfl, rfl⟩

theorem deliver_same (h : Same s s') (x : Stream) : Same s (deliver s' x) :=
  ⟨h.table, h.id, h.config, h.stdinFd, h.fds, h.client, h.closed, h.stray⟩

/-- The body of the loop touches the descriptor of its entry, and drops it at most. -/
theorem scanEntry_same (i : Nat) (anyOpen failed : Bool) {e : PollFd}
    (htouch : ∀ fd, e.fd = some fd → s.table.touch fd = s.table) :
    Same s (scanEntry s i anyOpen e failed) ∧
      ((scanEntry s i anyOpen e failed).pollfds = s.pollfds ∨
        (scanEntry s i anyOpen e failed).pollfds = s.pollfds.set i { e with fd := none }) := by
  rw [scanEntry]
  split
  next => exact ⟨(same_refl s).scans _ _, .inl rfl⟩
  next fd hfd =>
    obtain ⟨s₁, hs₁⟩ :
        ∃ s₁, (if e.readable then { s with table := s.table.touch fd } else s) = s₁ := ⟨_, rfl⟩
    have htouched : Same s s₁ ∧ s₁.pollfds = s.pollfds := by
      rw [← hs₁]
      split
      next => exact ⟨⟨htouch fd hfd, rfl, rfl, rfl, rfl, rfl, rfl, rfl⟩, rfl⟩
      next => exact ⟨same_refl s, rfl⟩
    obtain ⟨s₂, hs₂⟩ : ∃ s₂, (if e.readable then deliver s₁ e.stream else s₁) = s₂ := ⟨_, rfl⟩
    have hdelivered : Same s s₂ ∧ s₂.pollfds = s.pollfds := by
      rw [← hs₂]
      split
      next => exact ⟨deliver_same htouched.1 e.stream, htouched.2⟩
      next => exact htouched
    dsimp only
    rw [hs₁, hs₂]
    split
    next => exact ⟨htouched.1.scans _ _, .inr (by rw [htouched.2])⟩
    next =>
      split
      next => exact ⟨hdelivered.1.scans _ _, .inr (by rw [hdelivered.2])⟩
      next => exact ⟨hdelivered.1.scans _ _, .inl hdelivered.2⟩

theorem scan_kept (h : Kept s) {failed : Bool} (hscan : scan s failed = some s') : Kept s' := by
  rw [scan] at hscan
  split at hscan
  next i anyOpen hs =>
    have hreads : Reads s := by
      rw [Reads, hs]
      exact ⟨nofun, nofun⟩
    have hentries := h.reading hreads (by rw [hs]; nofun)
    split at hscan
    next e he =>
      obtain rfl := Option.some.inj hscan
      obtain ⟨hsame, hpollfds⟩ := scanEntry_same i anyOpen failed
        fun fd hfd => h.holds.touch (mem_held (hentries e (List.mem_of_getElem? he) fd hfd))
      refine h.read hreads hsame fun e' he' fd hfd => ?_
      rcases hpollfds with hpollfds | hpollfds
      · exact hentries e' (hpollfds ▸ he') fd hfd
      · rw [hpollfds] at he'
        rcases List.mem_or_eq_of_mem_set he' with he' | rfl
        · exact hentries e' he' fd hfd
        · cases hfd
    next =>
      obtain rfl := Option.some.inj hscan
      exact h.read hreads ⟨rfl, rfl, rfl, rfl, rfl, rfl, rfl, rfl⟩ hentries
  next => cases hscan

theorem closeHeap_holds {d : Option Descriptor} {l : List Nat}
    (h : Holds s.table (d.join.toList ++ l)) (hid : 0 < s.id → d ≠ some none)
    (hnone : s.id = -1 ∨ 0 < s.id) (hfail : s.id = -1 → d.join = none) :
    Holds (closeHeap s d).table l ∧ closeHeap s d = { s with table := (closeHeap s d).table } := by
  cases d with
  | none => exact ⟨h, rfl⟩
  | some fd =>
      cases fd with
      | none =>
          have hneg : ¬ 0 < s.id := fun hpos => hid hpos rfl
          rw [closeHeap, if_neg hneg]
          exact ⟨h, rfl⟩
      | some fd =>
          have hpos : 0 < s.id := hnone.resolve_left fun hfail' => absurd (hfail hfail') nofun
          rw [closeHeap, if_pos hpos]
          exact ⟨Holds.close h, rfl⟩

theorem closeStdin_kept (h : Kept s) : Kept (closeStdin s) ∧
    closeStdin s = { s with table := (closeStdin s).table, stdinFd := none } := by
  have hclose := closeHeap_holds h.holds (fun hpos => (h.written hpos).1) h.opened fun hfail => by
    have hheld := (h.failed hfail).1
    rw [held, List.append_eq_nil_iff, Option.toList_eq_nil_iff] at hheld
    exact hheld.1
  have hs : closeStdin s = { s with table := (closeStdin s).table, stdinFd := none } := by
    rw [closeStdin, hclose.2]
  refine ⟨?_, hs⟩
  have hheld : held (closeStdin s) =
      (s.fds .stdout).join.toList ++ (s.fds .stderr).join.toList := by
    rw [hs]
    rfl
  refine ⟨?_, ?_, ?_, ?_, ?_, ?_, ?_, ?_⟩
  · rw [hheld]
    exact hclose.1
  · rw [hs]
    exact h.opened
  · rw [hs]
    exact fun hpos => ⟨nofun, (h.written hpos).2⟩
  · rw [hheld, hs]
    intro hfail
    have hall := (h.failed hfail).1
    rw [held, List.append_eq_nil_iff] at hall
    exact ⟨hall.2, (h.failed hfail).2⟩
  · rw [hs]
    exact h.reading
  · rw [hs]
    exact fun hc hpos hidle => ⟨rfl, (h.closed hc hpos hidle).2⟩
  · rw [hs]
    exact fun hdest => ⟨⟨rfl, (h.destroyed hdest).1.2⟩, (h.destroyed hdest).2⟩
  · rw [hs]
    exact h.stray

theorem update_cells {p : Option Descriptor → Prop} {fds : Stream → Option Descriptor}
    (x : Stream) (hp : p none) (h : ∀ y, p (fds y)) (y : Stream) :
    p (Function.update fds x none y) := by
  by_cases hyx : y = x
  · rw [hyx, Function.update_self]
    exact hp
  · rw [Function.update_of_ne hyx]
    exact h y

theorem closeStream_kept (h : Kept s) (hreads : ¬ Reads s) (x : Stream) :
    Kept (closeStream x s) ∧ closeStream x s =
      { s with table := (closeStream x s).table, fds := Function.update s.fds x none } := by
  have hfront : (held s).Perm ((s.fds x).join.toList ++
      held { s with fds := Function.update s.fds x none }) := by
    rw [List.perm_iff_count]
    intro a
    cases x <;> simp only [held, List.count_append, Function.update_self, ne_eq, reduceCtorEq,
      not_false_eq_true, Function.update_of_ne, Option.join_none, Option.toList_none,
      List.count_nil] <;> omega
  have hclose := closeHeap_holds (h.holds.perm hfront) (fun hpos => (h.written hpos).2 x) h.opened
    fun hfail => by
      have hheld := (h.failed hfail).1
      rw [hheld] at hfront
      have hnil := hfront.nil_eq.symm
      rw [List.append_eq_nil_iff, Option.toList_eq_nil_iff] at hnil
      exact hnil.1
  have hs : closeStream x s =
      { s with table := (closeStream x s).table, fds := Function.update s.fds x none } := by
    rw [closeStream, hclose.2]
  refine ⟨?_, hs⟩
  have hheld : held (closeStream x s) = held { s with fds := Function.update s.fds x none } := by
    rw [hs]
    rfl
  refine ⟨?_, ?_, ?_, ?_, ?_, ?_, ?_, ?_⟩
  · rw [hheld]
    exact hclose.1
  · rw [hs]
    exact h.opened
  · rw [hs]
    exact fun hpos => ⟨(h.written hpos).1,
      update_cells x (p := (· ≠ some none)) nofun (h.written hpos).2⟩
  · rw [hheld, hs]
    intro hfail
    have hnil := (h.failed hfail).1
    rw [hnil] at hfront
    have hnil := hfront.nil_eq.symm
    exact ⟨(List.append_eq_nil_iff.mp hnil).2, (h.failed hfail).2⟩
  · rw [hs]
    exact fun hr => absurd hr hreads
  · rw [hs]
    exact fun hc hpos hidle => ⟨(h.closed hc hpos hidle).1,
      update_cells x (p := (· = none)) rfl (h.closed hc hpos hidle).2⟩
  · rw [hs]
    exact fun hdest => ⟨⟨(h.destroyed hdest).1.1,
      update_cells x (p := (· = none)) rfl (h.destroyed hdest).1.2⟩, (h.destroyed hdest).2⟩
  · rw [hs]
    exact h.stray

theorem closeFds_kept (h : Kept s) (hreads : ¬ Reads s) :
    Kept (closeFds s) ∧ Closed (closeFds s) ∧ closeFds s = { s with
      table := (closeFds s).table, stdinFd := none, fds := (closeFds s).fds } := by
  obtain ⟨hin, hins⟩ := closeStdin_kept h
  have hreads₁ : ¬ Reads (closeStdin s) := by rwa [hins]
  obtain ⟨hout, houts⟩ := closeStream_kept hin hreads₁ .stdout
  have hreads₂ : ¬ Reads (closeStream .stdout (closeStdin s)) := by rwa [houts]
  obtain ⟨herr, herrs⟩ := closeStream_kept hout hreads₂ .stderr
  have hs : closeFds s = { s with
      table := (closeFds s).table, stdinFd := none, fds := (closeFds s).fds } := by
    rw [closeFds, herrs, houts, hins]
  refine ⟨herr, ⟨?_, fun x => ?_⟩, hs⟩
  · rw [hs]
  · rw [closeFds, herrs, houts]
    cases x <;> simp

theorem clientNext_kept (h : Kept s) (hnext : clientNext s = some s') : Kept s' := by
  rw [clientNext] at hnext
  split at hnext
  next => cases hnext
  next => cases hnext
  next hclient =>
    obtain rfl := Option.some.inj hnext
    exact ⟨h.holds, h.opened, h.written, h.failed, h.reading, fun _ _ => nofun, nofun, h.stray⟩
  next destroys hclient =>
    split at hnext
    next hreader =>
      have hreads : ¬ Reads s := by
        rintro ⟨habsent, hfinished⟩
        exact hreader.elim habsent hfinished
      obtain ⟨hkept, hclosed, hs⟩ := closeFds_kept h hreads
      have hreads' : ¬ Reads (closeFds s) := by rwa [hs]
      have hclient' : (closeFds s).client = .joining destroys := by rwa [hs]
      obtain rfl := Option.some.inj hnext
      split
      next =>
        exact ⟨hkept.holds, hkept.opened, hkept.written, hkept.failed, hkept.reading,
          fun _ _ => nofun, fun _ => ⟨hclosed, hreads'⟩, hkept.stray⟩
      next =>
        exact ⟨hkept.holds, hkept.opened, hkept.written, hkept.failed, hkept.reading,
          fun _ _ _ => hclosed, nofun, hkept.stray⟩
    next => cases hnext

theorem waited_kept (h : Kept s) (hw : waited s = some s') : Kept s' := by
  rw [waited] at hw
  split at hw
  next => cases hw
  next =>
    obtain rfl := Option.some.inj hw
    exact ⟨h.holds, h.opened, h.written, h.failed, h.reading, fun _ _ => nofun, nofun, h.stray⟩
  next =>
    obtain rfl := Option.some.inj hw
    exact h.still ⟨rfl, rfl, rfl, rfl, rfl, rfl, rfl, rfl⟩ rfl rfl

theorem write_kept (h : Kept s) (hopen : s.config.openStdin = true) : Kept (write s) := by
  rw [write]
  split
  next fd hfd =>
    have htouch : s.table.touch fd = s.table := h.holds.touch (by simp [held, hfd])
    rw [htouch]
    exact h
  next hfd =>
    have hid : s.id = -1 := h.opened.resolve_right fun hpos => (h.written hpos).1 hfd
    exact ⟨h.holds, h.opened, h.written, h.failed, h.reading, h.closed, h.destroyed,
      fun _ => ⟨hid, hopen⟩⟩
  next => exact h

theorem step_kept {l : Label} (h : Kept s) (hs : step capacity s l = some s') : Kept s' := by
  cases l with
  | startReader nonblocking =>
      rw [step] at hs
      split at hs
      next hreader =>
        obtain rfl := Option.some.inj hs
        exact startReader_kept h hreader nonblocking
      next => cases hs
  | poll result =>
      rw [step] at hs
      split at hs
      next hreader => exact poll_kept h hreader hs
      next => cases hs
  | scan failed => exact scan_kept h hs
  | childWrites | exit =>
      rw [step] at hs
      split at hs
      next =>
        obtain rfl := Option.some.inj hs
        exact h.still ⟨rfl, rfl, rfl, rfl, rfl, rfl, rfl, rfl⟩ rfl rfl
      next => cases hs
  | hangUp =>
      obtain rfl := Option.some.inj hs
      exact h.still ⟨rfl, rfl, rfl, rfl, rfl, rfl, rfl, rfl⟩ rfl rfl
  | reapedElsewhere =>
      rw [step] at hs
      split at hs
      next =>
        obtain rfl := Option.some.inj hs
        exact h.still ⟨rfl, rfl, rfl, rfl, rfl, rfl, rfl, rfl⟩ rfl rfl
      next => cases hs
  | getExitStatus =>
      rw [step, getExitStatus] at hs
      split at hs
      next => cases hs
      next =>
        split at hs
        next =>
          obtain rfl := Option.some.inj hs
          exact h.still ⟨rfl, rfl, rfl, rfl, rfl, rfl, rfl, rfl⟩ rfl rfl
        next => exact waited_kept h hs
  | tryGetExitStatus =>
      rw [step, tryGetExitStatus] at hs
      split at hs
      next => cases hs
      next =>
        split at hs
        next =>
          obtain rfl := Option.some.inj hs
          exact h
        next => exact waited_kept h hs
  | client => exact clientNext_kept h hs
  | closeStdin =>
      rw [step] at hs
      split at hs
      next =>
        obtain rfl := Option.some.inj hs
        exact (closeStdin_kept h).1
      next => cases hs
  | write =>
      rw [step] at hs
      split at hs
      next hopen =>
        obtain rfl := Option.some.inj hs
        exact write_kept h hopen.2
      next => cases hs
  | kill =>
      rw [step] at hs
      split at hs
      next =>
        obtain rfl := Option.some.inj hs
        rw [kill]
        split
        next =>
          split
          next => exact h.still ⟨rfl, rfl, rfl, rfl, rfl, rfl, rfl, rfl⟩ rfl rfl
          next => exact h
        next => exact h
      next => cases hs
  | destroy =>
      rw [step] at hs
      split at hs
      next =>
        obtain rfl := Option.some.inj hs
        exact ⟨h.holds, h.opened, h.written, h.failed, h.reading, fun _ _ => nofun, nofun, h.stray⟩
      next => cases hs

end Steps

/-- Descriptors. Whatever pipe and fork answer, and in every interleaving of the calls with
the reader thread: no descriptor is closed twice or read, written or set after its close,
those that are open are those that the object still has, none is left open once the object
is destroyed, or once the child's status was taken, and a write goes to no number of its own
only where open failed. -/
theorem descriptors_kept (capacity : Nat) (c : Config) (k : Answers) (hpid : k.pid ≠ 0) {s : State}
    (h : Reachable (step capacity) (process c k) s) :
    s.table.faults = 0 ∧ s.table.opened.Perm (held s) ∧
      (s.client = .destroyed → s.table.opened = []) ∧
      (s.closed = true → s.client = .idle → s.table.opened = []) ∧
      (0 < s.strayWrites → s.id = -1 ∧ s.config.openStdin = true) := by
  have hkept : Kept s := h.invariant (fun _ _ _ => step_kept) (process_kept hpid)
  have hnone : Closed s → s.table.opened = [] := fun hclosed =>
    List.perm_nil.mp (held_closed hclosed ▸ hkept.holds.opened)
  refine ⟨hkept.holds.faults, hkept.holds.opened, fun hdest => hnone (hkept.destroyed hdest).1,
    fun hclosed hidle => ?_, hkept.stray⟩
  rcases hkept.opened with hfail | hpos
  · exact List.perm_nil.mp ((hkept.failed hfail).1 ▸ hkept.holds.opened)
  · exact hnone (hkept.closed hclosed hpos hidle)

/-- The child writes, closes its ends and exits, its status is taken, and the object goes. -/
def wholeLife : List Label :=
  [.startReader fun _ => true, .childWrites .stdout [104, 105], .write, .hangUp .stdout,
    .hangUp .stderr, .exit 768, .getExitStatus, .client, .poll .events, .scan false, .scan false,
    .scan false, .client, .destroy, .client]

def allStreams : Config := ⟨true, fun _ => true, 131072⟩

def allPipes : Answers := ⟨some (3, 4), fun | .stdout => some (5, 6) | .stderr => some (7, 8), 100⟩

theorem descriptors_kept_wholeLife :
    ∃ s, exec (step 65536) (process allStreams allPipes) wholeLife = some s ∧
      s.reported = [3] ∧ s.delivered .stdout = [104, 105] ∧ s.table.opened = [] := by
  have hrun : ((exec (step 65536) (process allStreams allPipes) wholeLife).map fun s =>
      (s.client, s.reported, s.delivered .stdout)) = some (.destroyed, [3], [104, 105]) := by
    decide +kernel
  obtain ⟨s, hs, heq⟩ := Option.map_eq_some_iff.mp hrun
  simp only [Prod.mk.injEq] at heq
  exact ⟨s, hs, heq.2.1, heq.2.2,
    (descriptors_kept 65536 allStreams allPipes (by decide) ⟨wholeLife, hs⟩).2.2.1 heq.1⟩

end Ashe.ProcessDescriptors
