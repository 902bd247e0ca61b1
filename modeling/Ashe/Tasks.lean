import Mathlib.Algebra.Order.Ring.Nat
import Mathlib.Data.Prod.Lex
import Mathlib.Tactic.Common
import Ashe.PriorityQueue

namespace Ashe.Tasks

open PriorityQueue

/-- Nanoseconds of the clock. The default constructed time point is 0. -/
abbrev TimePoint := Nat

/-- A callback is known by the ticket its poster drew under the incoming lock.
The quit closure is the one callback whose effect belongs to the message loop. -/
structure Callback where
  ticket : Nat
  quits : Bool
  deriving DecidableEq

structure PendingTask where
  callback : Callback
  sequenceNum : BitVec 32
  delayedRunTime : TimePoint
  nestable : Bool
  deriving DecidableEq

/-- operator<, with the comparison inverted so that the smaller time is the
greater element, and the sequence numbers compared through their difference. -/
def less (a b : PendingTask) : Bool :=
  if a.delayedRunTime < b.delayedRunTime then false
  else if a.delayedRunTime > b.delayedRunTime then true
  else decide (0 < (a.sequenceNum - b.sequenceNum).toInt)

/-- The tasks FIFO order speaks about: nestable and not delayed. -/
def immediate (t : PendingTask) : Bool := t.nestable && t.delayedRunTime == 0

def ticket (t : PendingTask) : Nat := t.callback.ticket

theorem less_run_time (q : List PendingTask) : Inverts less PendingTask.delayedRunTime q := by
  intro a _ b _
  simp only [less]
  constructor
  · intro h
    split at h
    next hlt => exact Bool.noConfusion h
    next hlt => exact Nat.le_of_not_lt hlt
  · intro h
    split at h
    next hlt => exact Nat.le_of_lt hlt
    next hlt =>
      split at h
      next hgt => exact Bool.noConfusion h
      next hgt => exact Nat.le_of_not_lt hgt

/-- The difference of two wrapped counters has the sign of the distance, as
long as the distance stays below half of the range. -/
theorem toInt_sub_pos {i j : Nat} (h : i < j) (hd : j < i + 2 ^ 31) :
    0 < (BitVec.ofNat 32 j - BitVec.ofNat 32 i).toInt := by
  rw [BitVec.toInt_eq_toNat_cond, BitVec.toNat_sub]
  simp only [BitVec.toNat_ofNat]
  split <;> omega

theorem toInt_sub_nonpos {i j : Nat} (h : i ≤ j) (hd : j < i + 2 ^ 31) :
    (BitVec.ofNat 32 i - BitVec.ofNat 32 j).toInt ≤ 0 := by
  rw [BitVec.toInt_eq_toNat_cond, BitVec.toNat_sub]
  simp only [BitVec.toNat_ofNat]
  split <;> omega

variable {index : PendingTask → Nat} {q : List PendingTask}

/-- The rank of a delayed task: its time first, then when it was inserted. -/
def rank (index : PendingTask → Nat) (t : PendingTask) : ℕ ×ₗ ℕ :=
  toLex (t.delayedRunTime, index t)

/-- Sequence numbers are the insertion counts modulo 2^32, and any two tasks
were inserted fewer than 2^31 insertions apart. -/
structure Windowed (index : PendingTask → Nat) (q : List PendingTask) : Prop where
  numbered : ∀ t ∈ q, t.sequenceNum = BitVec.ofNat 32 (index t)
  near : ∀ a ∈ q, ∀ b ∈ q, index b < index a + 2 ^ 31

theorem less_iff_rank (h : Windowed index q) {a b : PendingTask} (ha : a ∈ q) (hb : b ∈ q) :
    less a b = true ↔ rank index b < rank index a := by
  have hab := h.near a ha b hb
  have hba := h.near b hb a ha
  simp only [less, rank, Prod.Lex.toLex_lt_toLex, h.numbered a ha, h.numbered b hb]
  rcases Nat.lt_trichotomy a.delayedRunTime b.delayedRunTime with ht | ht | ht
  · simp only [ht, if_true, Bool.false_eq_true, false_iff]
    omega
  · simp only [ht, Nat.lt_irrefl, gt_iff_lt, if_false, decide_eq_true_eq, false_or, true_and]
    constructor
    · intro hp
      by_contra hn
      exact absurd hp (Int.not_lt.mpr (toInt_sub_nonpos (Nat.le_of_not_lt hn) hab))
    · intro hlt
      exact toInt_sub_pos hlt hba
  · simp [ht, Nat.le_of_lt ht]

theorem less_inverts_rank (h : Windowed index q) : Inverts less (rank index) q := by
  intro a ha b hb
  constructor
  · intro hl
    exact le_of_lt ((less_iff_rank h ha hb).mp hl)
  · intro hl
    refine not_lt.mp (fun hlt => ?_)
    rw [(less_iff_rank h ha hb).mpr hlt] at hl
    exact Bool.noConfusion hl

end Ashe.Tasks
