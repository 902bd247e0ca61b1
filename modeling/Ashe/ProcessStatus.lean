import Ashe.ProcessDescriptors

namespace Ashe.ProcessStatus

open Process ProcessDescriptors Runs

structure Untold (s s' : State) : Prop where
  id : s'.id = s.id
  exitStatus : s'.exitStatus = s.exitStatus
  closed : s'.closed = s.closed
  client : s'.client = s.client
  child : s'.child = s.child
  reported : s'.reported = s.reported
  strayKills : s'.strayKills = s.strayKills

inductive Moves (s : State) : Label → State → Prop
  | untold {l : Label} {s' : State} (hl : l ≠ .kill) (h : Untold s s') : Moves s l s'
  | exit (status : Nat) (hc : s.child = .running) :
      Moves s (.exit status) { s with child := .exited status }
  | reapedElsewhere {status : Nat} (hc : s.child = .exited status) :
      Moves s .reapedElsewhere { s with child := .reaped status }
  | unopened (hidle : s.client = .idle) (hid : s.id ≤ 0) :
      Moves s .getExitStatus { s with reported := s.reported ++ [-1] }
  | waits {l : Label} {status : Nat} (hl : l ≠ .kill) (hidle : s.client = .idle) (hid : 0 < s.id)
      (hc : s.child = .exited status) : Moves s l { s with
        child := .reaped status, exitStatus := decodeStatus status, client := .marking }
  | again {l : Label} {status : Nat} (hl : l ≠ .kill) (hidle : s.client = .idle) (hid : 0 < s.id)
      (hc : s.child = .reaped status) :
      Moves s l { s with reported := s.reported ++ [s.exitStatus] }
  | mark (hmark : s.client = .marking) :
      Moves s .client { s with closed := true, client := .joining false }
  | joined {s' : State} (hjoin : s.client = .joining false) (h : Untold { s with
      client := .idle, reported := s.reported ++ [s.exitStatus] } s') : Moves s .client s'
  | gone {s' : State} (hjoin : s.client = .joining true)
      (h : Untold { s with client := .destroyed } s') : Moves s .client s'
  | destroy (hidle : s.client = .idle) : Moves s .destroy { s with client := .joining true }
  | kill (hc : s.client ≠ .destroyed) : Moves s .kill (Process.kill s)

section Step

variable {capacity : Nat} {s s' : State}

theorem untold_refl (s : State) : Untold s s := ⟨rfl, rfl, rfl, rfl, rfl, rfl, rfl⟩

theorem Untold.trans {s'' : State} (h : Untold s s') (h' : Untold s' s'') : Untold s s'' :=
  ⟨h'.id.trans h.id, h'.exitStatus.trans h.exitStatus, h'.closed.trans h.closed,
    h'.client.trans h.client, h'.child.trans h.child, h'.reported.trans h.reported,
    h'.strayKills.trans h.strayKills⟩

theorem Untold.scans (h : Untold s s') (pollfds : List PollFd) (reader : Reader) :
    Untold s { s' with pollfds := pollfds, reader := reader } :=
  ⟨h.id, h.exitStatus, h.closed, h.client, h.child, h.reported, h.strayKills⟩

theorem deliver_untold (s : State) (x : Process.Stream) : Untold s (deliver s x) :=
  ⟨rfl, rfl, rfl, rfl, rfl, rfl, rfl⟩

theorem scanEntry_untold (i : Nat) (anyOpen failed : Bool) (e : PollFd) :
    Untold s (scanEntry s i anyOpen e failed) := by
  rw [scanEntry]
  split
  next => exact (untold_refl s).scans _ _
  next fd _ =>
    have htouch : Untold s (if e.readable then { s with table := s.table.touch fd } else s) := by
      split
      next => exact ⟨rfl, rfl, rfl, rfl, rfl, rfl, rfl⟩
      next => exact untold_refl s
    have hdeliver (s : State) : Untold s (if e.readable then deliver s e.stream else s) := by
      split
      next => exact deliver_untold s e.stream
      next => exact untold_refl s
    dsimp only
    split
    next => exact htouch.scans _ _
    next =>
      split
      next => exact (htouch.trans (hdeliver _)).scans _ _
      next => exact (htouch.trans (hdeliver _)).scans _ _

theorem closeHeap_untold (s : State) (d : Option Descriptor) : Untold s (closeHeap s d) := by
  rw [closeHeap.eq_def]
  split
  next => split <;> exact ⟨rfl, rfl, rfl, rfl, rfl, rfl, rfl⟩
  next => split <;> exact ⟨rfl, rfl, rfl, rfl, rfl, rfl, rfl⟩
  next => exact untold_refl s

theorem closeStdin_untold (s : State) : Untold s (closeStdin s) := by
  have h := closeHeap_untold s s.stdinFd
  exact ⟨h.id, h.exitStatus, h.closed, h.client, h.child, h.reported, h.strayKills⟩

theorem closeStream_untold (x : Process.Stream) (s : State) : Untold s (closeStream x s) := by
  have h := closeHeap_untold s (s.fds x)
  exact ⟨h.id, h.exitStatus, h.closed, h.client, h.child, h.reported, h.strayKills⟩

theorem closeFds_untold (s : State) : Untold s (closeFds s) :=
  ((closeStdin_untold s).trans (closeStream_untold .stdout _)).trans (closeStream_untold .stderr _)

theorem waited_moves {l : Label} (hl : l ≠ .kill) (hidle : s.client = .idle) (hid : 0 < s.id)
    (h : waited s = some s') : Moves s l s' := by
  rw [waited] at h
  split at h
  next => cases h
  next hc =>
    obtain rfl := Option.some.inj h
    exact .waits hl hidle hid hc
  next hc =>
    obtain rfl := Option.some.inj h
    exact .again hl hidle hid hc

theorem step_moves {l : Label} (h : step capacity s l = some s') : Moves s l s' := by
  cases l with
  | startReader =>
      rw [step] at h
      split at h
      next =>
        obtain rfl := Option.some.inj h
        exact .untold (by simp) ⟨rfl, rfl, rfl, rfl, rfl, rfl, rfl⟩
      next => cases h
  | poll result =>
      rw [step] at h
      split at h
      next =>
        cases result with
        | events =>
            simp only [poll, polled] at h
            split at h
            next =>
              obtain rfl := Option.some.inj h
              exact .untold (by simp) ⟨rfl, rfl, rfl, rfl, rfl, rfl, rfl⟩
            next => cases h
        | interrupted | failed =>
            obtain rfl := Option.some.inj h
            exact .untold (by simp) ⟨rfl, rfl, rfl, rfl, rfl, rfl, rfl⟩
      next => cases h
  | scan failed =>
      rw [step, scan] at h
      split at h
      next =>
        split at h
        next =>
          obtain rfl := Option.some.inj h
          exact .untold (by simp) (scanEntry_untold ..)
        next =>
          obtain rfl := Option.some.inj h
          exact .untold (by simp) ⟨rfl, rfl, rfl, rfl, rfl, rfl, rfl⟩
      next => cases h
  | childWrites =>
      rw [step] at h
      split at h
      next =>
        obtain rfl := Option.some.inj h
        exact .untold (by simp) ⟨rfl, rfl, rfl, rfl, rfl, rfl, rfl⟩
      next => cases h
  | hangUp =>
      obtain rfl := Option.some.inj h
      exact .untold (by simp) ⟨rfl, rfl, rfl, rfl, rfl, rfl, rfl⟩
  | exit status =>
      rw [step] at h
      split at h
      next hc =>
        obtain rfl := Option.some.inj h
        exact .exit status hc
      next => cases h
  | reapedElsewhere =>
      rw [step] at h
      split at h
      next hc =>
        obtain rfl := Option.some.inj h
        exact .reapedElsewhere hc
      next => cases h
  | getExitStatus =>
      rw [step, getExitStatus] at h
      split at h
      next => cases h
      next hidle =>
        split at h
        next hid =>
          obtain rfl := Option.some.inj h
          exact .unopened (not_not.mp hidle) hid
        next hid => exact waited_moves (by simp) (not_not.mp hidle) (by omega) h
  | tryGetExitStatus =>
      rw [step, tryGetExitStatus] at h
      split at h
      next => cases h
      next hidle =>
        split at h
        next =>
          obtain rfl := Option.some.inj h
          exact .untold (by simp) (untold_refl s)
        next hid =>
          have hpos : 0 < s.id := by
            by_contra hneg
            exact hid (.inl (by omega))
          exact waited_moves (by simp) (not_not.mp hidle) hpos h
  | client =>
      rw [step, clientNext] at h
      split at h
      next => cases h
      next => cases h
      next hmark =>
        obtain rfl := Option.some.inj h
        exact .mark hmark
      next destroys hjoin =>
        split at h
        next =>
          obtain rfl := Option.some.inj h
          have hclose := closeFds_untold s
          cases destroys with
          | true =>
              exact .gone hjoin ⟨hclose.id, hclose.exitStatus, hclose.closed, rfl, hclose.child,
                hclose.reported, hclose.strayKills⟩
          | false =>
              refine .joined hjoin ⟨hclose.id, hclose.exitStatus, hclose.closed, rfl, hclose.child,
                ?_, hclose.strayKills⟩
              change (closeFds s).reported ++ [(closeFds s).exitStatus] = _
              rw [hclose.reported, hclose.exitStatus]
        next => cases h
  | closeStdin =>
      rw [step] at h
      split at h
      next =>
        obtain rfl := Option.some.inj h
        rw [closeStdin]
        refine .untold (by simp) ?_
        rw [closeHeap.eq_def]
        split
        next => split <;> exact ⟨rfl, rfl, rfl, rfl, rfl, rfl, rfl⟩
        next => split <;> exact ⟨rfl, rfl, rfl, rfl, rfl, rfl, rfl⟩
        next => exact ⟨rfl, rfl, rfl, rfl, rfl, rfl, rfl⟩
      next => cases h
  | write =>
      rw [step] at h
      split at h
      next =>
        obtain rfl := Option.some.inj h
        rw [write]
        refine .untold (by simp) ?_
        split <;> exact ⟨rfl, rfl, rfl, rfl, rfl, rfl, rfl⟩
      next => cases h
  | kill =>
      rw [step] at h
      split at h
      next hc =>
        obtain rfl := Option.some.inj h
        exact .kill hc
      next => cases h
  | destroy =>
      rw [step] at h
      split at h
      next hidle =>
        obtain rfl := Option.some.inj h
        exact .destroy hidle
      next => cases h

end Step

structure Told (s : State) : Prop where
  marking : s.client = .marking → 0 < s.id ∧ s.closed = false ∧ ∃ status, s.child = .reaped status
  joining : s.client = .joining false → 0 < s.id ∧ ∃ status, s.child = .reaped status
  closed : s.closed = true → 0 < s.id → ∃ status, s.child = .reaped status
  stored : ∀ status, s.child = .reaped status → 0 < s.id ∧ s.exitStatus = decodeStatus status ∧
    (s.closed = true ∨ s.client = .marking)
  failed : s.id ≤ 0 → ∀ r ∈ s.reported, r = -1
  reported : 0 < s.id → ∀ r ∈ s.reported, ∃ status, s.child = .reaped status ∧
    r = decodeStatus status

section Told

variable {capacity : Nat} {s s' : State}

theorem Told.congr (h : Told s) (hid : s'.id = s.id) (hstatus : s'.exitStatus = s.exitStatus)
    (hclosed : s'.closed = s.closed) (hclient : s'.client = s.client) (hchild : s'.child = s.child)
    (hreported : s'.reported = s.reported) : Told s' := by
  constructor
  · rw [hclient, hid, hclosed, hchild]
    exact h.marking
  · rw [hclient, hid, hchild]
    exact h.joining
  · rw [hclosed, hid, hchild]
    exact h.closed
  · rw [hchild, hid, hstatus, hclosed, hclient]
    exact h.stored
  · rw [hid, hreported]
    exact h.failed
  · rw [hid, hreported, hchild]
    exact h.reported

theorem Told.untold (h : Told s) (hu : Untold s s') : Told s' :=
  h.congr hu.id hu.exitStatus hu.closed hu.client hu.child hu.reported

theorem Told.unreaped (h : Told s) (hc : ∀ status, s.child ≠ .reaped status) :
    s.client ≠ .marking ∧ s.client ≠ .joining false ∧ (0 < s.id → s.closed = false ∧
      s.reported = []) := by
  refine ⟨fun hm => ?_, fun hj => ?_, fun hid => ⟨?_, ?_⟩⟩
  · obtain ⟨-, -, status, hs⟩ := h.marking hm
    exact hc status hs
  · obtain ⟨-, status, hs⟩ := h.joining hj
    exact hc status hs
  · cases hclosed : s.closed with
    | false => rfl
    | true =>
        obtain ⟨status, hs⟩ := h.closed hclosed hid
        exact absurd hs (hc status)
  · refine List.eq_nil_iff_forall_not_mem.mpr fun r hr => ?_
    obtain ⟨status, hs, -⟩ := h.reported hid r hr
    exact hc status hs

theorem Told.again (h : Told s) {status : Nat} (hc : s.child = .reaped status)
    {client : Client} (hm : client ≠ .marking) (hj : client ≠ .joining false)
    (hclient : s.client ≠ .marking ∨ client = s.client) :
    Told { s with client := client, reported := s.reported ++ [s.exitStatus] } := by
  obtain ⟨hid, hstored, hclosed⟩ := h.stored status hc
  have hclosed' : s.closed = true := by
    rcases hclosed with hclosed | hmark
    · exact hclosed
    · rcases hclient with hne | heq
      · exact absurd hmark hne
      · exact absurd (heq.trans hmark) hm
  refine ⟨fun hm' => absurd hm' hm, fun hj' => absurd hj' hj, fun _ _ => ⟨status, hc⟩,
    fun status' hs => ?_, fun hneg => ?_, fun _ r hr => ?_⟩
  · obtain ⟨hpos, heq, -⟩ := h.stored status' hs
    exact ⟨hpos, heq, .inl hclosed'⟩
  · exact absurd hid (Int.not_lt.mpr hneg)
  · rcases List.mem_append.mp hr with hr | hr
    · exact h.reported hid r hr
    · rw [List.mem_singleton.mp hr]
      exact ⟨status, hc, hstored⟩

theorem moves_told {l : Label} (h : Told s) (hl : l ≠ .reapedElsewhere) (hm : Moves s l s') :
    Told s' := by
  cases hm with
  | untold _ hu => exact h.untold hu
  | reapedElsewhere => exact absurd rfl hl
  | exit status hc =>
      obtain ⟨hmark, hjoin, hid⟩ := h.unreaped (by rw [hc]; nofun)
      refine ⟨fun hm => absurd hm hmark, fun hj => absurd hj hjoin, fun hclosed hpos => ?_, nofun,
        h.failed, fun hpos r hr => ?_⟩
      · exact absurd (hclosed.symm.trans (hid hpos).1) (by simp)
      · rw [show s.reported = [] from (hid hpos).2] at hr
        cases hr
  | unopened hidle hid =>
      refine ⟨h.marking, h.joining, h.closed, h.stored, fun _ r hr => ?_, fun hpos => ?_⟩
      · rcases List.mem_append.mp hr with hr | hr
        · exact h.failed hid r hr
        · exact List.mem_singleton.mp hr
      · exact absurd hpos (Int.not_lt.mpr hid)
  | @waits _ status _ hidle hid hc =>
      obtain ⟨-, -, hopen⟩ := h.unreaped (by rw [hc]; nofun)
      obtain ⟨hclosed, hreported⟩ := hopen hid
      refine ⟨fun _ => ⟨hid, hclosed, status, rfl⟩, nofun, fun _ _ => ⟨status, rfl⟩,
        fun status' hs => ?_, fun hneg => absurd hid (Int.not_lt.mpr hneg), fun _ r hr => ?_⟩
      · cases hs
        exact ⟨hid, rfl, .inr rfl⟩
      · rw [show s.reported = [] from hreported] at hr
        cases hr
  | again _ hidle hid hc =>
      refine (h.again hc (?_ : s.client ≠ .marking) ?_ (.inr rfl)).congr rfl rfl rfl rfl rfl rfl
      · rw [hidle]
        nofun
      · rw [hidle]
        nofun
  | mark hmark =>
      obtain ⟨hid, -, status, hc⟩ := h.marking hmark
      refine ⟨nofun, fun _ => ⟨hid, status, hc⟩, fun _ _ => ⟨status, hc⟩, fun status' hs => ?_,
        h.failed, h.reported⟩
      obtain ⟨hpos, heq, -⟩ := h.stored status' hs
      exact ⟨hpos, heq, .inl rfl⟩
  | joined hjoin hu =>
      obtain ⟨-, status, hc⟩ := h.joining hjoin
      refine (h.again hc (?_ : Client.idle ≠ .marking) nofun (.inl ?_)).untold hu
      · nofun
      · rw [hjoin]
        nofun
  | gone hjoin hu =>
      refine Told.untold (s := { s with client := .destroyed }) ?_ hu
      refine ⟨nofun, nofun, h.closed, fun status hs => ?_, h.failed, h.reported⟩
      obtain ⟨hpos, heq, hclosed⟩ := h.stored status hs
      exact ⟨hpos, heq, .inl (hclosed.resolve_right (by rw [hjoin]; nofun))⟩
  | destroy hidle =>
      refine ⟨nofun, nofun, h.closed, fun status hs => ?_, h.failed, h.reported⟩
      obtain ⟨hpos, heq, hclosed⟩ := h.stored status hs
      exact ⟨hpos, heq, .inl (hclosed.resolve_right (by rw [hidle]; nofun))⟩
  | kill =>
      rw [Process.kill]
      split
      next =>
        split
        next => exact h.congr rfl rfl rfl rfl rfl rfl
        next => exact h
      next => exact h

end Told

theorem failed_told (c : Config) (t : Handles.Table Nat) (toClose : List Nat) :
    Told (failed c t toClose) := by
  constructor <;> simp [failed, unopened]

theorem forked_told (c : Config) (t : Handles.Table Nat)
    (stdinP stdoutP stderrP : Option (Nat × Nat)) (pid : Int) :
    Told (forked c t stdinP stdoutP stderrP pid) := by
  constructor <;> simp [forked, unopened]

theorem openProcess_told (c : Config) (k : Answers) : Told (openProcess c k) := by
  rw [openProcess]
  split
  next => exact failed_told ..
  next =>
    split
    next => exact failed_told ..
    next =>
      split
      next => exact failed_told ..
      next =>
        split
        next => exact failed_told ..
        next => exact forked_told ..

theorem process_told (c : Config) (k : Answers) : Told (process c k) := by
  rw [process, asyncRead]
  split
  next => exact openProcess_told c k
  next => exact (openProcess_told c k).congr rfl rfl rfl rfl rfl rfl

theorem process_strayKills (c : Config) (k : Answers) : (process c k).strayKills = 0 := by
  have hopen : (openProcess c k).strayKills = 0 := by
    rw [openProcess]
    split
    next => rfl
    next =>
      split
      next => rfl
      next =>
        split
        next => rfl
        next => split <;> rfl
  rw [process, asyncRead]
  split <;> exact hopen

def Owns (l : Label) : Prop := l ≠ .reapedElsewhere

theorem decodeStatus_code {code : Nat} (h : code < 256) : decodeStatus (code * 256) = code := by
  rw [decodeStatus]
  split
  next => rw [Nat.shiftRight_eq_div_pow, Nat.mul_div_cancel _ (by decide)]
  next hsmall =>
    obtain rfl : code = 0 := by omega
    rfl

theorem decodeStatus_signal {signal : Nat} (h : signal < 256) : decodeStatus signal = signal := by
  rw [decodeStatus, if_neg (by omega)]

/-- The wait status of a child that has returned or called exit. -/
def exitedWith (code : Nat) : Nat := code * 256

/-- The wait status of a child that a signal has ended, with a core dump or without. -/
def endedBy (signal : Nat) (core : Bool) : Nat := if core then signal + 128 else signal

/-- Exit status. While nobody else waits for the child, every status that getExitStatus and
tryGetExitStatus tell is the child's, the same each time, or -1 where open failed. An exit
code and the number of a signal without a core dump are told alike; where there is one, the
number told is larger by 128. -/
theorem status_told (capacity : Nat) (c : Config) (k : Answers) (ls : List Label) {s : State}
    (hls : ∀ l ∈ ls, Owns l) (h : exec (step capacity) (process c k) ls = some s) :
    (s.id ≤ 0 → ∀ r ∈ s.reported, r = -1) ∧
      (0 < s.id → s.reported ≠ [] → ∃ status, s.child = .reaped status ∧
        ∀ r ∈ s.reported, r = decodeStatus status ∧
          (∀ code : Nat, code < 256 → status = exitedWith code → r = code) ∧
          ∀ signal : Nat, signal < 128 → (status = endedBy signal false → r = signal) ∧
            (status = endedBy signal true → r = signal + 128)) := by
  have htold : Told s := exec_of_invariant (I := Told) (G := fun _ l _ => Owns l)
    (fun s l t hs hl ht => moves_told hs hl (step_moves ht)) (process_told c k)
    (along_of_labels hls) h
  refine ⟨htold.failed, fun hid hne => ?_⟩
  obtain ⟨r₀, hr₀⟩ := List.exists_mem_of_ne_nil _ hne
  obtain ⟨status, hc, -⟩ := htold.reported hid r₀ hr₀
  refine ⟨status, hc, fun r hr => ?_⟩
  obtain ⟨status', hc', rfl⟩ := htold.reported hid r hr
  obtain rfl : status' = status := by
    rw [hc] at hc'
    exact (Child.reaped.inj hc').symm
  refine ⟨rfl, fun code hcode hstatus => ?_, fun signal hsignal => ⟨fun hstatus => ?_,
    fun hstatus => ?_⟩⟩
  · rw [hstatus]
    exact decodeStatus_code hcode
  · rw [hstatus]
    exact decodeStatus_signal (by rw [endedBy, if_neg Bool.false_ne_true]; omega)
  · rw [hstatus]
    exact decodeStatus_signal (by rw [endedBy, if_pos rfl]; omega)

def takenTwice : List Label :=
  [.exit 512, .tryGetExitStatus, .client, .client, .getExitStatus]

def noStreams : Config := ⟨false, fun _ => false, 131072⟩

theorem status_told_takenTwice :
    ∃ s, exec (step 65536) (process noStreams allPipes) takenTwice = some s ∧
      s.reported = [2, 2] ∧
      ∃ status, s.child = .reaped status ∧ ∀ r ∈ s.reported, r = decodeStatus status := by
  have hrun : ((exec (step 65536) (process noStreams allPipes) takenTwice).map fun s =>
      (s.id, s.reported)) = some (100, [2, 2]) := by
    decide +kernel
  obtain ⟨s, hs, heq⟩ := Option.map_eq_some_iff.mp hrun
  simp only [Prod.mk.injEq] at heq
  have htold := (status_told 65536 noStreams allPipes takenTwice
    (by simp [takenTwice, Owns]) hs).2 (by rw [heq.1]; decide) (by rw [heq.2]; simp)
  obtain ⟨status, hc, hall⟩ := htold
  exact ⟨s, hs, heq.2, status, hc, fun r hr => (hall r hr).1⟩

/-- No signal is sent between the waitpid that takes the status and closed_. -/
def OffWindow (s : State) (l : Label) : Prop := l = .kill → s.client ≠ .marking

theorem moves_strayKills {s s' : State} {l : Label} (h : Told s) (hm : Moves s l s') :
    (OffWindow s l → s'.strayKills = s.strayKills) ∧
      (¬ OffWindow s l → s'.strayKills = s.strayKills + 1) := by
  have hoff : ∀ {m : Label}, ¬ OffWindow s m → m ≠ .kill → False :=
    fun hnot hne => hnot fun heq => absurd heq hne
  cases hm with
  | untold hl hu => exact ⟨fun _ => hu.strayKills, fun hnot => (hoff hnot hl).elim⟩
  | exit | reapedElsewhere | unopened | mark | destroy =>
      exact ⟨fun _ => rfl, fun hnot => (hoff hnot nofun).elim⟩
  | waits hl | again hl => exact ⟨fun _ => rfl, fun hnot => (hoff hnot hl).elim⟩
  | joined _ hu | gone _ hu =>
      exact ⟨fun _ => hu.strayKills, fun hnot => (hoff hnot nofun).elim⟩
  | kill =>
      refine ⟨fun hoffl => ?_, fun hnot => ?_⟩
      · rw [Process.kill]
        split
        next status hc =>
          obtain ⟨-, -, hclosed⟩ := h.stored status hc
          have hc' : s.closed = true := hclosed.resolve_right (hoffl rfl)
          rw [hc', if_neg (by simp)]
        next => rfl
      · have hmark : s.client = .marking := by
          by_contra hne
          exact hnot fun _ => hne
        obtain ⟨hid, hclosed, status, hc⟩ := h.marking hmark
        rw [Process.kill, hc]
        dsimp only
        rw [hclosed, if_pos ⟨hid, rfl⟩]

theorem strayKills_run {capacity : Nat} {ls : List Label} {s t : State} (hs : Told s)
    (hls : ∀ l ∈ ls, Owns l) (h : exec (step capacity) s ls = some t) :
    s.strayKills ≤ t.strayKills ∧
      (t.strayKills = s.strayKills ↔ Along (step capacity) (fun s l _ => OffWindow s l) s ls) := by
  induction ls generalizing s with
  | nil =>
      obtain rfl := Option.some.inj h
      exact ⟨Nat.le_refl _, fun _ => trivial, fun _ => rfl⟩
  | cons l ls ih =>
      obtain ⟨u, hu, ht⟩ := exec_cons.mp h
      obtain ⟨hl, hls⟩ := List.forall_mem_cons.mp hls
      have hm := step_moves hu
      obtain ⟨hle, hiff⟩ := ih (moves_told hs hl hm) hls ht
      obtain ⟨hoff, hon⟩ := moves_strayKills hs hm
      by_cases hw : OffWindow s l
      · rw [hoff hw] at hle hiff
        refine ⟨hle, fun heq v hv => ?_, fun halong => ?_⟩
        · obtain rfl := Option.some.inj (hu.symm.trans hv)
          exact ⟨hw, hiff.mp heq⟩
        · exact hiff.mpr (halong u hu).2
      · rw [hon hw] at hle
        refine ⟨by omega, fun heq => by omega, fun halong => absurd (halong u hu).1 hw⟩

/-- Signals. While nobody else waits for the child, no signal goes to a process that may be
another one by now, exactly where none is sent between the waitpid that takes the status and
closed_. -/
theorem kills_reach_child (capacity : Nat) (c : Config) (k : Answers) (ls : List Label)
    {s : State} (hls : ∀ l ∈ ls, Owns l)
    (h : exec (step capacity) (process c k) ls = some s) :
    s.strayKills = 0 ↔
      Along (step capacity) (fun s l _ => OffWindow s l) (process c k) ls := by
  rw [← process_strayKills c k]
  exact (strayKills_run (process_told c k) hls h).2

def killedInWindow : List Label := [.kill, .exit 512, .getExitStatus, .kill, .client, .kill]

theorem kills_reach_child_killedInWindow :
    ∃ s, exec (step 65536) (process noStreams allPipes) killedInWindow = some s ∧
      s.strayKills = 1 ∧ ¬ Along (step 65536) (fun s l _ => OffWindow s l)
        (process noStreams allPipes) killedInWindow := by
  have hrun : ((exec (step 65536) (process noStreams allPipes) killedInWindow).map
      State.strayKills) = some 1 := by
    decide +kernel
  obtain ⟨s, hs, heq⟩ := Option.map_eq_some_iff.mp hrun
  refine ⟨s, hs, heq, fun halong => ?_⟩
  have hnone := (kills_reach_child 65536 noStreams allPipes killedInWindow
    (by simp [killedInWindow, Owns]) hs).mpr halong
  rw [heq] at hnone
  cases hnone

end Ashe.ProcessStatus
