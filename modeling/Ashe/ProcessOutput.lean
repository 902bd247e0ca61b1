import Ashe.ProcessDescriptors

namespace Ashe.ProcessOutput

open Process ProcessDescriptors Runs

structure Taken (s : State) (x : Stream) : Prop where
  inside : (s.pipes x).taken ≤ (s.pipes x).written.length
  delivered : s.delivered x = (s.pipes x).written.take (s.pipes x).taken

inductive Flows (capacity : Nat) (s s' : State) (x : Stream) : Prop
  | still (hp : s'.pipes x = s.pipes x) (hd : s'.delivered x = s.delivered x)
  | write (bytes : List UInt8) (hw : (s.pipes x).writers = true)
      (hroom : (s.pipes x).pending.length + bytes.length ≤ capacity)
      (hp : s'.pipes x = { s.pipes x with written := (s.pipes x).written ++ bytes })
      (hd : s'.delivered x = s.delivered x)
  | hangUp (hp : s'.pipes x = { s.pipes x with writers := false })
      (hd : s'.delivered x = s.delivered x)
  | read (hp : s'.pipes x = (deliver s x).pipes x) (hd : s'.delivered x = (deliver s x).delivered x)

section Step

variable {capacity : Nat} {s s' : State}

theorem setPipe_still {x y : Stream} (h : y ≠ x) (p : Pipe) : (s.setPipe x p).pipes y = s.pipes y :=
  Function.update_of_ne h _ _

theorem deliver_still {x y : Stream} (h : y ≠ x) :
    (deliver s x).pipes y = s.pipes y ∧ (deliver s x).delivered y = s.delivered y :=
  ⟨Function.update_of_ne h _ _, Function.update_of_ne h _ _⟩

/-- The loop over pollfds reads from the stream of its entry or from none. -/
theorem scanEntry_flows (i : Nat) (anyOpen failed : Bool) (e : PollFd) (x : Stream) :
    Flows capacity s (scanEntry s i anyOpen e failed) x := by
  have hdeliver : ∀ s₁ : State, s₁.pipes = (deliver s e.stream).pipes →
      s₁.delivered = (deliver s e.stream).delivered → Flows capacity s s₁ x := by
    intro s₁ hp hd
    by_cases hx : x = e.stream
    · subst hx
      exact .read (congrFun hp _) (congrFun hd _)
    · obtain ⟨hpipe, hdel⟩ := deliver_still (s := s) hx
      exact .still ((congrFun hp x).trans hpipe) ((congrFun hd x).trans hdel)
  rw [scanEntry]
  cases e.fd with
  | none => exact .still rfl rfl
  | some fd =>
      cases e.readable with
      | false => cases e.hungUp <;> exact .still rfl rfl
      | true =>
          cases failed with
          | true => exact .still rfl rfl
          | false => cases e.hungUp <;> exact hdeliver _ rfl rfl

structure Quiet (s s' : State) : Prop where
  config : s'.config = s.config
  reader : s'.reader = s.reader
  pollfds : s'.pollfds = s.pollfds
  pipes : s'.pipes = s.pipes
  delivered : s'.delivered = s.delivered
  fds : s.reader = .starting → s'.fds = s.fds

theorem quiet_waited (hw : waited s = some s') : Quiet s s' := by
  rw [waited] at hw
  split at hw
  next => cases hw
  next =>
    obtain rfl := Option.some.inj hw
    exact ⟨rfl, rfl, rfl, rfl, rfl, fun _ => rfl⟩
  next =>
    obtain rfl := Option.some.inj hw
    exact ⟨rfl, rfl, rfl, rfl, rfl, fun _ => rfl⟩

theorem quiet_clientNext (hkept : Kept s) (hnext : clientNext s = some s') : Quiet s s' := by
  rw [clientNext] at hnext
  split at hnext
  next => cases hnext
  next => cases hnext
  next =>
    obtain rfl := Option.some.inj hnext
    exact ⟨rfl, rfl, rfl, rfl, rfl, fun _ => rfl⟩
  next =>
    split at hnext
    next hreader =>
      have hreads : ¬ Reads s := fun hr => hreader.elim hr.1 hr.2
      obtain ⟨-, -, hs⟩ := closeFds_kept hkept hreads
      have hquiet : Quiet s (closeFds s) := by
        rw [hs]
        refine ⟨rfl, rfl, rfl, rfl, rfl, fun hstart => ?_⟩
        exact absurd ⟨by rw [hstart]; simp, by rw [hstart]; simp⟩ hreads
      obtain rfl := Option.some.inj hnext
      split
      next =>
        exact ⟨hquiet.config, hquiet.reader, hquiet.pollfds, hquiet.pipes, hquiet.delivered,
          hquiet.fds⟩
      next =>
        exact ⟨hquiet.config, hquiet.reader, hquiet.pollfds, hquiet.pipes, hquiet.delivered,
          hquiet.fds⟩
    next => cases hnext

inductive Moves (capacity : Nat) (s : State) : Label → State → Prop
  | quiet {l : Label} {s' : State} (h : Quiet s s') : Moves capacity s l s'
  | start (nonblocking : Stream → Bool) (hr : s.reader = .starting) :
      Moves capacity s (.startReader nonblocking) (startReader s nonblocking)
  | poll {s' : State} (result : Polled) (hr : s.reader = .polling)
      (h : Process.poll s result = some s') : Moves capacity s (.poll result) s'
  | entry {i : Nat} {anyOpen : Bool} {e : PollFd} (failed : Bool)
      (hr : s.reader = .scanning i anyOpen) (he : s.pollfds[i]? = some e) :
      Moves capacity s (.scan failed) (scanEntry s i anyOpen e failed)
  | around {i : Nat} {anyOpen : Bool} (failed : Bool) (hr : s.reader = .scanning i anyOpen)
      (he : s.pollfds[i]? = none) :
      Moves capacity s (.scan failed) { s with reader := if anyOpen then .polling else .finished }
  | childWrites (x : Stream) (bytes : List UInt8) (hw : (s.pipes x).writers = true)
      (hroom : (s.pipes x).pending.length + bytes.length ≤ capacity) :
      Moves capacity s (.childWrites x bytes)
        (s.setPipe x { s.pipes x with written := (s.pipes x).written ++ bytes })
  | hangUp (x : Stream) :
      Moves capacity s (.hangUp x) (s.setPipe x { s.pipes x with writers := false })

theorem step_moves {l : Label} (hkept : Kept s) (h : step capacity s l = some s') :
    Moves capacity s l s' := by
  have hsame : Quiet s s := ⟨rfl, rfl, rfl, rfl, rfl, fun _ => rfl⟩
  cases l with
  | startReader nonblocking =>
      rw [step] at h
      split at h
      next hr =>
        obtain rfl := Option.some.inj h
        exact .start nonblocking hr
      next => cases h
  | poll result =>
      rw [step] at h
      split at h
      next hr => exact .poll result hr h
      next => cases h
  | scan failed =>
      rw [step, scan] at h
      split at h
      next i anyOpen hr =>
        split at h
        next e he =>
          obtain rfl := Option.some.inj h
          exact .entry failed hr he
        next he =>
          obtain rfl := Option.some.inj h
          exact .around failed hr he
      next => cases h
  | childWrites x bytes =>
      rw [step] at h
      split at h
      next hw =>
        obtain rfl := Option.some.inj h
        exact .childWrites x bytes hw.1 hw.2
      next => cases h
  | hangUp x =>
      obtain rfl := Option.some.inj h
      exact .hangUp x
  | exit | destroy =>
      rw [step] at h
      split at h
      next =>
        obtain rfl := Option.some.inj h
        exact .quiet ⟨rfl, rfl, rfl, rfl, rfl, fun _ => rfl⟩
      next => cases h
  | reapedElsewhere =>
      rw [step] at h
      split at h
      next =>
        obtain rfl := Option.some.inj h
        exact .quiet ⟨rfl, rfl, rfl, rfl, rfl, fun _ => rfl⟩
      next => cases h
  | getExitStatus =>
      rw [step, getExitStatus] at h
      split at h
      next => cases h
      next =>
        split at h
        next =>
          obtain rfl := Option.some.inj h
          exact .quiet ⟨rfl, rfl, rfl, rfl, rfl, fun _ => rfl⟩
        next => exact .quiet (quiet_waited h)
  | tryGetExitStatus =>
      rw [step, tryGetExitStatus] at h
      split at h
      next => cases h
      next =>
        split at h
        next =>
          obtain rfl := Option.some.inj h
          exact .quiet hsame
        next => exact .quiet (quiet_waited h)
  | client => exact .quiet (quiet_clientNext hkept h)
  | closeStdin =>
      rw [step] at h
      split at h
      next =>
        obtain rfl := Option.some.inj h
        rw [(closeStdin_kept hkept).2]
        exact .quiet ⟨rfl, rfl, rfl, rfl, rfl, fun _ => rfl⟩
      next => cases h
  | write =>
      rw [step] at h
      split at h
      next =>
        obtain rfl := Option.some.inj h
        rw [write]
        split
        next => exact .quiet ⟨rfl, rfl, rfl, rfl, rfl, fun _ => rfl⟩
        next => exact .quiet ⟨rfl, rfl, rfl, rfl, rfl, fun _ => rfl⟩
        next => exact .quiet hsame
      next => cases h
  | kill =>
      rw [step] at h
      split at h
      next =>
        obtain rfl := Option.some.inj h
        rw [kill]
        split
        next =>
          split
          next => exact .quiet ⟨rfl, rfl, rfl, rfl, rfl, fun _ => rfl⟩
          next => exact .quiet hsame
        next => exact .quiet hsame
      next => cases h

theorem moves_flows {l : Label} (hm : Moves capacity s l s') (x : Stream) :
    Flows capacity s s' x := by
  cases hm with
  | quiet h => exact .still (congrFun h.pipes x) (congrFun h.delivered x)
  | start | around => exact .still rfl rfl
  | poll result hr h =>
      cases result with
      | events =>
          simp only [Process.poll, polled] at h
          split at h
          next =>
            obtain rfl := Option.some.inj h
            exact .still rfl rfl
          next => cases h
      | interrupted | failed =>
          obtain rfl := Option.some.inj h
          exact .still rfl rfl
  | entry failed => exact scanEntry_flows ..
  | childWrites y bytes hw hroom =>
      by_cases hx : x = y
      · subst hx
        exact .write bytes hw hroom (Function.update_self ..) rfl
      · exact .still (setPipe_still hx _) rfl
  | hangUp y =>
      by_cases hx : x = y
      · subst hx
        exact .hangUp (Function.update_self ..) rfl
      · exact .still (setPipe_still hx _) rfl

end Step

section Pipes

variable {capacity : Nat} {s s' : State} {x : Stream}

theorem deliver_pipe : (deliver s x).pipes x =
    { s.pipes x with taken := (s.pipes x).taken +
        ((s.pipes x).pending.take s.config.bufferSize).length } :=
  Function.update_self ..

theorem deliver_pending :
    ((deliver s x).pipes x).pending = (s.pipes x).pending.drop s.config.bufferSize := by
  rw [deliver_pipe, Pipe.pending, ← List.drop_drop, List.length_take]
  change (s.pipes x).pending.drop _ = _
  rw [List.drop_eq_drop_iff]
  omega

theorem taken_flows (h : Taken s x) (hf : Flows capacity s s' x) : Taken s' x := by
  cases hf with
  | still hp hd => exact ⟨by rw [hp]; exact h.inside, by rw [hp, hd]; exact h.delivered⟩
  | write bytes hw hroom hp hd =>
      refine ⟨?_, ?_⟩
      · rw [hp, List.length_append]
        exact Nat.le_add_right_of_le h.inside
      · rw [hp, hd, h.delivered]
        exact (List.take_append_of_le_length h.inside).symm
  | hangUp hp hd => exact ⟨by rw [hp]; exact h.inside, by rw [hp, hd]; exact h.delivered⟩
  | read hp hd =>
      have hlen : ((s.pipes x).pending.take s.config.bufferSize).length ≤
          (s.pipes x).written.length - (s.pipes x).taken := by
        rw [← List.length_drop]
        exact List.length_take_le' _ _
      have hin := h.inside
      refine ⟨?_, ?_⟩
      · rw [hp, deliver_pipe]
        change _ + _ ≤ (s.pipes x).written.length
        omega
      · rw [hp, hd, deliver_pipe]
        change Function.update s.delivered x _ x = (s.pipes x).written.take (_ + _)
        rw [Function.update_self, List.take_add, h.delivered]
        congr 1
        change (s.pipes x).pending.take _ = (s.pipes x).pending.take _
        rw [List.take_eq_take_iff, List.length_take]
        omega

end Pipes

/-- Nothing is left in the pipe and nothing more will come. -/
def Drained (p : Pipe) : Prop := p.writers = false ∧ p.pending = []

structure Entry (pipes : Stream → Pipe) (e : PollFd) : Prop where
  dropped : e.fd = none → Drained (pipes e.stream)
  hungUp : e.hungUp = true → (pipes e.stream).writers = false ∧
    (e.readable = false → (pipes e.stream).pending = [])

structure Entries (capacity : Nat) (s : State) : Prop where
  starting : s.reader = .starting → ∀ x, s.config.reads x = true → ∃ fd, s.fds x = some (some fd)
  covers : s.reader ≠ .absent → s.reader ≠ .starting → ∀ x, s.config.reads x = true →
    ∃ e ∈ s.pollfds, e.stream = x
  entry : ∀ e ∈ s.pollfds, Entry s.pipes e
  scanned : ∀ i, s.reader = .scanning i false → ∀ e ∈ s.pollfds.take i, e.fd = none
  finished : s.reader = .finished → ∀ e ∈ s.pollfds, e.fd = none
  room : ∀ x, (s.pipes x).pending.length ≤ capacity

def Healthy : Label → Prop
  | .startReader nonblocking => ∀ x, nonblocking x = true
  | .poll result => result ≠ .failed
  | .scan failed => failed = false
  | _ => True

section Entries

variable {capacity : Nat} {s s' : State} {x : Stream}

theorem hungUp_flows (hf : Flows capacity s s' x) (hw : (s.pipes x).writers = false) :
    (s'.pipes x).writers = false ∧ ((s.pipes x).pending = [] → (s'.pipes x).pending = []) := by
  cases hf with
  | still hp hd => exact ⟨by rw [hp]; exact hw, by rw [hp]; exact id⟩
  | write bytes hw' => exact absurd (hw'.symm.trans hw) (by simp)
  | hangUp hp hd => exact ⟨by rw [hp], by rw [hp]; exact id⟩
  | read hp hd =>
      refine ⟨by rw [hp, deliver_pipe]; exact hw, fun hnil => ?_⟩
      rw [hp, deliver_pending, hnil, List.drop_nil]

theorem entry_flows {e : PollFd} (h : Entry s.pipes e) (hf : Flows capacity s s' e.stream) :
    Entry s'.pipes e := by
  refine ⟨fun hfd => ?_, fun hup => ?_⟩
  · obtain ⟨hw, hnil⟩ := h.dropped hfd
    obtain ⟨hw', hkeep⟩ := hungUp_flows hf hw
    exact ⟨hw', hkeep hnil⟩
  · obtain ⟨hw, hnil⟩ := h.hungUp hup
    obtain ⟨hw', hkeep⟩ := hungUp_flows hf hw
    exact ⟨hw', fun hread => hkeep (hnil hread)⟩

theorem room_flows (h : (s.pipes x).pending.length ≤ capacity) (hin : Taken s x)
    (hf : Flows capacity s s' x) : (s'.pipes x).pending.length ≤ capacity := by
  cases hf with
  | still hp hd => rwa [hp]
  | write bytes hw hroom hp hd =>
      rw [hp, Pipe.pending, List.drop_append_of_le_length hin.inside, List.length_append]
      exact hroom
  | hangUp hp hd => rwa [hp]
  | read hp hd =>
      rw [hp, deliver_pending, List.length_drop]
      omega

/-- The pipes flow, and the reader and its entries are as before. -/
theorem Entries.flows (h : Entries capacity s) (hin : ∀ x, Taken s x)
    (hf : ∀ x, Flows capacity s s' x) (hconfig : s'.config = s.config)
    (hreader : s'.reader = s.reader) (hpollfds : s'.pollfds = s.pollfds)
    (hfds : s.reader = .starting → s'.fds = s.fds) : Entries capacity s' := by
  refine ⟨?_, ?_, ?_, ?_, ?_, fun x => room_flows (h.room x) (hin x) (hf x)⟩
  · rw [hreader, hconfig]
    intro hstart
    rw [hfds hstart]
    exact h.starting hstart
  · rw [hreader, hconfig, hpollfds]
    exact h.covers
  · rw [hpollfds]
    exact fun e he => entry_flows (h.entry e he) (hf _)
  · rw [hreader, hpollfds]
    exact h.scanned
  · rw [hreader, hpollfds]
    exact h.finished

theorem start_entries (h : Entries capacity s) (hkept : Kept s) (hr : s.reader = .starting)
    {nonblocking : Stream → Bool} (hall : ∀ x, nonblocking x = true) :
    Entries capacity (startReader s nonblocking) := by
  refine ⟨by simp [startReader], fun _ _ x hx => ?_, fun e he => ?_, by simp [startReader],
    by simp [startReader], h.room⟩
  · obtain ⟨fd, hfd⟩ := h.starting hr x hx
    refine ⟨⟨x, if nonblocking x then some fd else none, false, false⟩, ?_, rfl⟩
    have hmem : (⟨x, if nonblocking x then some fd else none, false, false⟩ : PollFd) ∈
        pollFd s nonblocking x := by
      simp [pollFd, hfd]
    cases x with
    | stdout => exact List.mem_append_left _ hmem
    | stderr => exact List.mem_append_right _ hmem
  · have hid : 0 < s.id := hkept.opened.resolve_left fun hfail =>
      absurd ((hkept.failed hfail).2.symm.trans hr) (by simp)
    have hopen : ∀ x, e ∈ pollFd s nonblocking x → e.fd ≠ none ∧ e.hungUp = false := by
      intro x hx
      rw [pollFd] at hx
      split at hx
      next => cases hx
      next d hd =>
        rw [List.mem_singleton] at hx
        subst hx
        refine ⟨fun hnone => (hkept.written hid).2 x ?_, rfl⟩
        rw [hd]
        dsimp only at hnone
        rw [if_pos (hall x)] at hnone
        rw [hnone]
    have hfacts : e.fd ≠ none ∧ e.hungUp = false := by
      rcases List.mem_append.mp he with he | he
      · exact hopen .stdout he
      · exact hopen .stderr he
    exact ⟨fun hnone => absurd hnone hfacts.1,
      fun hup => absurd (hup.symm.trans hfacts.2) (by simp)⟩

theorem cleared_entry {pipes : Stream → Pipe} {e : PollFd} (h : Entry pipes e) :
    Entry pipes (cleared e) :=
  ⟨h.dropped, nofun⟩

theorem revents_entry {e : PollFd} (h : Entry s.pipes e) : Entry s.pipes (revents s e) ∧
    (revents s e).stream = e.stream ∧ (revents s e).fd = e.fd := by
  rw [revents]
  split
  next =>
    refine ⟨⟨h.dropped, fun hup => ⟨?_, fun hread => ?_⟩⟩, rfl, rfl⟩
    · simpa using hup
    · simpa using hread
  next => exact ⟨cleared_entry h, rfl, rfl⟩

theorem poll_entries (h : Entries capacity s) (hr : s.reader = .polling) {result : Polled}
    (hresult : result ≠ .failed) (hpoll : Process.poll s result = some s') :
    Entries capacity s' := by
  have hcovers := h.covers (by rw [hr]; simp) (by rw [hr]; simp)
  cases result with
  | failed => exact absurd rfl hresult
  | interrupted clears =>
      obtain rfl := Option.some.inj hpoll
      refine ⟨by simp, fun _ _ x hx => ?_, fun e he => ?_, fun i hi e he => ?_, by simp, h.room⟩
      · obtain ⟨e, he, hstream⟩ := hcovers x hx
        cases clears with
        | false => exact ⟨e, he, hstream⟩
        | true => exact ⟨cleared e, List.mem_map_of_mem he, hstream⟩
      · cases clears with
        | false => exact h.entry e he
        | true =>
            obtain ⟨e', he', rfl⟩ := List.mem_map.mp he
            exact cleared_entry (h.entry e' he')
      · cases hi
        cases he
  | events =>
      simp only [Process.poll, polled] at hpoll
      split at hpoll
      next =>
        obtain rfl := Option.some.inj hpoll
        refine ⟨by simp, fun _ _ x hx => ?_, fun e' he' => ?_, fun i hi e he => ?_, by simp, h.room⟩
        · obtain ⟨e, he, hstream⟩ := hcovers x hx
          exact ⟨revents s e, List.mem_map_of_mem he, (revents_entry (h.entry e he)).2.1.trans
            hstream⟩
        · obtain ⟨e, he, rfl⟩ := List.mem_map.mp he'
          exact (revents_entry (h.entry e he)).1
        · cases hi
          cases he
      next => cases hpoll

/-- The reader goes on to the next entry, with its entry as it was. -/
theorem pass_entries {i : Nat} {anyOpen anyOpen' : Bool} {e : PollFd} (h : Entries capacity s)
    (hin : ∀ x, Taken s x) (hr : s.reader = .scanning i anyOpen) (he : s.pollfds[i]? = some e)
    (hf : ∀ x, Flows capacity s s' x) (hconfig : s'.config = s.config)
    (hreader : s'.reader = .scanning (i + 1) anyOpen') (hpollfds : s'.pollfds = s.pollfds)
    (hnone : anyOpen' = false → anyOpen = false ∧ e.fd = none) : Entries capacity s' := by
  refine ⟨?_, ?_, ?_, ?_, ?_, fun x => room_flows (h.room x) (hin x) (hf x)⟩
  · rw [hreader]
    nofun
  · rw [hconfig, hpollfds]
    exact fun _ _ => h.covers (by rw [hr]; nofun) (by rw [hr]; nofun)
  · rw [hpollfds]
    exact fun e he => entry_flows (h.entry e he) (hf _)
  · rw [hreader, hpollfds]
    intro j hj e' he'
    cases hj
    obtain ⟨rfl, hfd⟩ := hnone rfl
    rw [List.take_add_one, he] at he'
    rcases List.mem_append.mp he' with he' | he'
    · exact h.scanned i hr e' he'
    · rw [Option.toList_some, List.mem_singleton] at he'
      rw [he']
      exact hfd
  · rw [hreader]
    nofun

/-- The reader drops the descriptor of a stream that has ended. -/
theorem drop_entries {i : Nat} {anyOpen : Bool} {e : PollFd} (h : Entries capacity s)
    (hin : ∀ x, Taken s x) (hr : s.reader = .scanning i anyOpen) (he : s.pollfds[i]? = some e)
    (hf : ∀ x, Flows capacity s s' x) (hconfig : s'.config = s.config)
    (hreader : s'.reader = .scanning (i + 1) anyOpen)
    (hpollfds : s'.pollfds = s.pollfds.set i { e with fd := none })
    (hdrained : Drained (s'.pipes e.stream)) : Entries capacity s' := by
  refine ⟨?_, ?_, ?_, ?_, ?_, fun x => room_flows (h.room x) (hin x) (hf x)⟩
  · rw [hreader]
    nofun
  · rw [hconfig, hpollfds]
    intro _ _ x hx
    obtain ⟨e', he', hstream⟩ := h.covers (by rw [hr]; nofun) (by rw [hr]; nofun) x hx
    obtain ⟨j, hj⟩ := List.mem_iff_getElem?.mp he'
    by_cases hij : i = j
    · subst hij
      obtain rfl := Option.some.inj (he.symm.trans hj)
      refine ⟨{ e with fd := none }, List.mem_of_getElem? (i := i) ?_, hstream⟩
      rw [List.getElem?_set_self (List.getElem?_eq_some_iff.mp he).1]
    · refine ⟨e', List.mem_of_getElem? (i := j) ?_, hstream⟩
      rw [List.getElem?_set_ne hij]
      exact hj
  · rw [hpollfds]
    intro e' he'
    rcases List.mem_or_eq_of_mem_set he' with he' | rfl
    · exact entry_flows (h.entry e' he') (hf _)
    · exact ⟨fun _ => hdrained, fun _ => ⟨hdrained.1, fun _ => hdrained.2⟩⟩
  · rw [hreader, hpollfds]
    intro j hj e' he'
    cases hj
    rw [List.take_add_one, List.take_set_of_le (Nat.le_refl i),
      List.getElem?_set_self (List.getElem?_eq_some_iff.mp he).1] at he'
    rcases List.mem_append.mp he' with he' | he'
    · exact h.scanned i hr e' he'
    · rw [Option.toList_some, List.mem_singleton] at he'
      rw [he']
  · rw [hreader]
    nofun

theorem scanEntry_entries {i : Nat} {anyOpen : Bool} {e : PollFd} (h : Entries capacity s)
    (hin : ∀ x, Taken s x) (hbuffer : capacity ≤ s.config.bufferSize)
    (hr : s.reader = .scanning i anyOpen) (he : s.pollfds[i]? = some e) :
    Entries capacity (scanEntry s i anyOpen e false) := by
  have hentry := h.entry e (List.mem_of_getElem? he)
  have hf : ∀ x, Flows capacity s (scanEntry s i anyOpen e false) x :=
    scanEntry_flows i anyOpen false e
  obtain ⟨x, fd, readable, hungUp⟩ := e
  cases fd with
  | none => exact pass_entries h hin hr he hf rfl rfl rfl fun hopen => ⟨hopen, rfl⟩
  | some fd => cases hungUp with
    | false => cases readable <;> exact pass_entries h hin hr he hf rfl rfl rfl nofun
    | true =>
        obtain ⟨hw, hnil⟩ := hentry.hungUp rfl
        cases readable with
        | false => exact drop_entries h hin hr he hf rfl rfl rfl ⟨hw, hnil rfl⟩
        | true =>
            have hdrained : Drained ((deliver s x).pipes x) := by
              refine ⟨by rw [deliver_pipe]; exact hw, ?_⟩
              rw [deliver_pending]
              exact List.drop_eq_nil_of_le (Nat.le_trans (h.room x) hbuffer)
            exact drop_entries h hin hr he hf rfl rfl rfl hdrained

theorem moves_entries {l : Label} (h : Entries capacity s) (hkept : Kept s)
    (hin : ∀ x, Taken s x) (hbuffer : capacity ≤ s.config.bufferSize) (hl : Healthy l)
    (hm : Moves capacity s l s') : Entries capacity s' ∧ s'.config = s.config := by
  have hf := moves_flows hm
  cases hm with
  | quiet hq => exact ⟨h.flows hin hf hq.config hq.reader hq.pollfds hq.fds, hq.config⟩
  | start nonblocking hr => exact ⟨start_entries h hkept hr hl, rfl⟩
  | poll result hr hpoll =>
      refine ⟨poll_entries h hr hl hpoll, ?_⟩
      cases result with
      | events =>
          simp only [Process.poll, polled] at hpoll
          split at hpoll
          next =>
            obtain rfl := Option.some.inj hpoll
            rfl
          next => cases hpoll
      | interrupted | failed =>
          obtain rfl := Option.some.inj hpoll
          rfl
  | @entry i anyOpen e failed hr he =>
      obtain rfl : failed = false := hl
      refine ⟨scanEntry_entries h hin hbuffer hr he, ?_⟩
      rw [scanEntry]
      split
      next => rfl
      next => cases e.readable <;> cases e.hungUp <;> rfl
  | @around i anyOpen failed hr he =>
      have hlen := List.getElem?_eq_none_iff.mp he
      have hcovers := h.covers (by rw [hr]; simp) (by rw [hr]; simp)
      refine ⟨⟨?_, fun _ _ => hcovers, h.entry, ?_, ?_, h.room⟩, rfl⟩
      · cases anyOpen <;> simp
      · cases anyOpen <;> simp
      · cases anyOpen with
        | true => simp
        | false =>
            intro _ e he'
            refine h.scanned i hr e ?_
            rwa [List.take_of_length_le hlen]
  | childWrites x bytes hw hroom => exact ⟨h.flows hin hf rfl rfl rfl fun _ => rfl, rfl⟩
  | hangUp x => exact ⟨h.flows hin hf rfl rfl rfl fun _ => rfl, rfl⟩

end Entries

theorem openProcess_fds {c : Config} {k : Answers} (hid : ¬ (openProcess c k).id ≤ 0)
    {x : Stream} (hx : c.reads x = true) : ∃ fd, (openProcess c k).fds x = some (some fd) := by
  have hfail : ∀ t l, ¬ ¬ (failed c t l).id ≤ 0 := fun t l h =>
    h (show (-1 : Int) ≤ 0 by decide)
  have hsome : ∀ {t t' : Handles.Table Nat} {wanted : Bool} {answer p : Option (Nat × Nat)},
      makePipe t wanted answer = some (t', p) → wanted = true → ∃ q, p = some q := by
    intro t t' wanted answer p hp hw
    rw [makePipe, if_pos hw] at hp
    obtain ⟨q, -, heq⟩ := Option.map_eq_some_iff.mp hp
    exact ⟨q, (Prod.mk.inj heq).2.symm⟩
  rw [openProcess] at hid ⊢
  split at hid
  next => exact absurd hid (hfail _ _)
  next t stdinP _ =>
    split at hid
    next => exact absurd hid (hfail _ _)
    next t' stdoutP hout =>
      split at hid
      next => exact absurd hid (hfail _ _)
      next t'' stderrP herr =>
        split at hid
        next => exact absurd hid (hfail _ _)
        next hfork =>
          rw [if_neg hfork]
          cases x with
          | stdout =>
              obtain ⟨q, rfl⟩ := hsome hout hx
              exact ⟨q.1, rfl⟩
          | stderr =>
              obtain ⟨q, rfl⟩ := hsome herr hx
              exact ⟨q.1, rfl⟩

theorem openProcess_rest (c : Config) (k : Answers) : (openProcess c k).config = c ∧
    (openProcess c k).reader = .absent ∧
    ∀ x, ((openProcess c k).pipes x).written = [] ∧ ((openProcess c k).pipes x).taken = 0 ∧
      (openProcess c k).delivered x = [] := by
  rw [openProcess]
  split
  next => exact ⟨rfl, rfl, fun _ => ⟨rfl, rfl, rfl⟩⟩
  next =>
    split
    next => exact ⟨rfl, rfl, fun _ => ⟨rfl, rfl, rfl⟩⟩
    next =>
      split
      next => exact ⟨rfl, rfl, fun _ => ⟨rfl, rfl, rfl⟩⟩
      next => split <;> exact ⟨rfl, rfl, fun _ => ⟨rfl, rfl, rfl⟩⟩

theorem process_taken (c : Config) (k : Answers) (x : Stream) : Taken (process c k) x := by
  obtain ⟨-, -, hrest⟩ := openProcess_rest c k
  obtain ⟨hwritten, htaken, hdelivered⟩ := hrest x
  rw [process, asyncRead]
  split
  next => exact ⟨by rw [htaken]; exact Nat.zero_le _, by rw [hdelivered, hwritten, htaken]; rfl⟩
  next => exact ⟨by rw [htaken]; exact Nat.zero_le _, by rw [hdelivered, hwritten, htaken]; rfl⟩

theorem process_entries (capacity : Nat) (c : Config) (k : Answers) :
    Entries capacity (process c k) ∧ (process c k).config = c := by
  obtain ⟨hconfig, hreader, hrest⟩ := openProcess_rest c k
  have hpollfds := (openProcess_idle c k).2
  have hroom : ∀ x, ((openProcess c k).pipes x).pending.length ≤ capacity := by
    intro x
    rw [Pipe.pending, (hrest x).1, List.drop_nil]
    exact Nat.zero_le _
  rw [process, asyncRead]
  split
  next =>
    refine ⟨⟨?_, fun hne => absurd hreader hne, ?_, ?_, ?_, hroom⟩, hconfig⟩
    · rw [hreader]
      simp
    · rw [hpollfds]
      simp
    · rw [hreader]
      simp
    · rw [hreader]
      simp
  next hid =>
    refine ⟨⟨fun _ x hx => ?_, fun _ hne => absurd rfl hne, ?_, by simp, by simp, hroom⟩, hconfig⟩
    · exact openProcess_fds (fun hle => hid (.inl hle)) (hconfig ▸ hx)
    · change ∀ e ∈ (openProcess c k).pollfds, _
      rw [hpollfds]
      simp

theorem reachable_taken {capacity : Nat} {c : Config} {k : Answers} (hpid : k.pid ≠ 0) {s : State}
    (h : Reachable (step capacity) (process c k) s) : ∀ x, Taken s x := by
  refine (h.invariant (I := fun s => Kept s ∧ ∀ x, Taken s x) (fun s l t hs ht => ?_)
    ⟨process_kept hpid, process_taken c k⟩).2
  exact ⟨step_kept hs.1 ht, fun x => taken_flows (hs.2 x) (moves_flows (step_moves hs.1 ht) x)⟩

/-- Output, in order. In every run, what a callback was given is a beginning of what the
child has written to that stream. -/
theorem output_in_order (capacity : Nat) (c : Config) (k : Answers) (hpid : k.pid ≠ 0) {s : State}
    (h : Reachable (step capacity) (process c k) s) (x : Stream) :
    s.delivered x <+: (s.pipes x).written := by
  rw [(reachable_taken hpid h x).delivered]
  exact List.take_prefix _ _

/-- In every run in which no system call of the reader fails, a stream that is read is
delivered whole by the time the reader thread ends. -/
def Complete (capacity bufferSize : Nat) : Prop :=
  ∀ (c : Config) (k : Answers) (ls : List Label) (s : State), c.bufferSize = bufferSize →
    k.pid ≠ 0 → (∀ l ∈ ls, Healthy l) → exec (step capacity) (process c k) ls = some s →
    s.reader = .finished → ∀ x, c.reads x = true → s.delivered x = (s.pipes x).written

theorem complete_of_le {capacity bufferSize : Nat} (h : capacity ≤ bufferSize) :
    Complete capacity bufferSize := by
  rintro c k ls s rfl hpid hls hrun hover x hx
  obtain ⟨hkept, htaken, hentries, hconfig⟩ :
      Kept s ∧ (∀ x, Taken s x) ∧ Entries capacity s ∧ s.config = c := by
    refine exec_of_invariant
      (I := fun s => Kept s ∧ (∀ x, Taken s x) ∧ Entries capacity s ∧ s.config = c)
      (G := fun _ l _ => Healthy l) (fun s l t hs hl ht => ?_)
      ⟨process_kept hpid, process_taken c k, process_entries capacity c k⟩ (along_of_labels hls)
      hrun
    obtain ⟨hkept, htaken, hentries, hconfig⟩ := hs
    have hm := step_moves hkept ht
    obtain ⟨hnext, hsame⟩ := moves_entries hentries hkept htaken (by rw [hconfig]; exact h) hl hm
    exact ⟨step_kept hkept ht, fun x => taken_flows (htaken x) (moves_flows hm x), hnext,
      hsame.trans hconfig⟩
  obtain ⟨e, he, rfl⟩ := hentries.covers (by rw [hover]; nofun) (by rw [hover]; nofun) x
    (by rw [hconfig]; exact hx)
  have hdrained := (hentries.entry e he).dropped (hentries.finished hover e he)
  rw [(htaken e.stream).delivered]
  exact List.take_of_length_le (List.drop_eq_nil_iff.mp hdrained.2)

def stdoutOnly (bufferSize : Nat) : Config := ⟨false, fun x => x == .stdout, bufferSize⟩

def onePipe : Answers := ⟨none, fun _ => some (3, 4), 100⟩

/-- The child fills the pipe and closes it before the reader polls. -/
def filledPipe (n : Nat) : List Label :=
  [.startReader fun _ => true, .childWrites .stdout (List.replicate n 0), .hangUp .stdout,
    .poll .events, .scan false, .scan false]

theorem filledPipe_ends (bufferSize n : Nat) :
    ∃ s, exec (step (n + 1)) (process (stdoutOnly bufferSize) onePipe) (filledPipe (n + 1)) =
        some s ∧ s.reader = .finished ∧
      s.delivered .stdout = List.replicate (min bufferSize (n + 1)) 0 ∧
      (s.pipes .stdout).written = List.replicate (n + 1) 0 := by
  simp [filledPipe, exec, step, process, asyncRead, openProcess, makePipe, stdoutOnly, onePipe,
    startReader, forked, Process.poll, polled, watch, scan, scanEntry, revents, deliver,
    State.setPipe, Pipe.pending, pollFd, unopened]

/-- Output, whole. The reader reads once more where a stream has ended, and no further, so
that nothing is lost in any run exactly where the buffer takes all that a pipe holds. -/
theorem output_complete_iff (capacity bufferSize : Nat) :
    Complete capacity bufferSize ↔ capacity ≤ bufferSize := by
  refine ⟨fun h => ?_, complete_of_le⟩
  cases capacity with
  | zero => exact Nat.zero_le _
  | succ n =>
      obtain ⟨s, hrun, hover, hdelivered, hwritten⟩ := filledPipe_ends bufferSize n
      have hhealthy : ∀ l ∈ filledPipe (n + 1), Healthy l := by
        simp [filledPipe, Healthy]
      have hall := h (stdoutOnly bufferSize) onePipe (filledPipe (n + 1)) s rfl (by decide) hhealthy
        hrun hover .stdout rfl
      rw [hdelivered, hwritten] at hall
      have hlen := congrArg List.length hall
      rw [List.length_replicate, List.length_replicate] at hlen
      omega

theorem output_in_order_wholeLife :
    ∃ s, exec (step 65536) (process allStreams allPipes) wholeLife = some s ∧
      s.delivered .stdout <+: (s.pipes .stdout).written := by
  obtain ⟨s, hs⟩ := Option.isSome_iff_exists.mp
    (show (exec (step 65536) (process allStreams allPipes) wholeLife).isSome = true by
      decide +kernel)
  exact ⟨s, hs, output_in_order 65536 allStreams allPipes (by decide) ⟨wholeLife, hs⟩ .stdout⟩

end Ashe.ProcessOutput
