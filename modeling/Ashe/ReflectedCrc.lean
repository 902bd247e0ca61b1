import Mathlib.Data.List.Basic
import Mathlib.Logic.Function.Iterate

namespace Ashe.ReflectedCrc

variable {w v : Nat}

def bits (k : Nat) (b : BitVec v) : List Bool := (List.range k).map b.getLsbD

theorem bits_setWidth {k n : Nat} (hk : k ≤ n) (b : BitVec v) :
    bits k (b.setWidth n) = bits k b := by
  refine List.map_congr_left fun i hi => ?_
  have hi := List.mem_range.mp hi
  rw [BitVec.getLsbD_setWidth, decide_eq_true (by omega), Bool.true_and]

section

variable (poly : BitVec w)

/-- One bit of a message: the register moves down, and the polynomial is added when the
bit that falls out differs from it. -/
def feedBit (r : BitVec w) (bit : Bool) : BitVec w :=
  if r.getLsbD 0 ^^ bit then (r >>> 1) ^^^ poly else r >>> 1

/-- The register behind a message, from its first value. -/
def feed (r : BitVec w) (message : List Bool) : BitVec w := message.foldl (feedBit poly) r

def bitStep (r : BitVec w) : BitVec w := feedBit poly r false

def steps (k : Nat) : BitVec w → BitVec w := (bitStep poly)^[k]

def entry (k : Nat) (i : BitVec k) : BitVec w := steps poly k (i.setWidth w)

theorem feed_append (r : BitVec w) (message more : List Bool) :
    feed poly r (message ++ more) = feed poly (feed poly r message) more :=
  List.foldl_append

/-- A register with a word added takes its lowest bit, and keeps the others. -/
theorem bitStep_xor (r b : BitVec w) :
    bitStep poly (r ^^^ b) = feedBit poly r (b.getLsbD 0) ^^^ (b >>> 1) := by
  rw [bitStep, feedBit, feedBit, BitVec.getLsbD_xor, Bool.xor_false,
    BitVec.ushiftRight_xor_distrib]
  split
  next => rw [BitVec.xor_assoc, BitVec.xor_comm (b >>> 1), ← BitVec.xor_assoc]
  next => rfl

theorem steps_xor (k : Nat) (r b : BitVec w) :
    steps poly k (r ^^^ b) = feed poly r (bits k b) ^^^ (b >>> k) := by
  induction k with
  | zero => rfl
  | succ k ih =>
      have hbits : bits (k + 1) b = bits k b ++ [b.getLsbD k] := by
        rw [bits, List.range_succ, List.map_append]
        rfl
      have hlow : (b >>> k).getLsbD 0 = b.getLsbD k := BitVec.getLsbD_ushiftRight ..
      rw [steps] at ih
      rw [steps, Function.iterate_succ_apply', ih, bitStep_xor, hlow, hbits, feed_append,
        ← BitVec.shiftRight_add]
      rfl

end

theorem shift_word {k : Nat} (b : BitVec k) : b.setWidth w >>> k = 0#w := by
  ext i hi
  rw [BitVec.getElem_ushiftRight, BitVec.getLsbD_setWidth, BitVec.getLsbD_of_ge b _ (by omega)]
  simp

variable (poly : BitVec w) {k : Nat} (hk : k ≤ w) (r : BitVec w)
include hk

theorem feed_word (b : BitVec k) :
    feed poly r (bits k b) = steps poly k (r ^^^ b.setWidth w) := by
  rw [steps_xor, bits_setWidth hk, shift_word, BitVec.xor_zero]

theorem steps_entry : steps poly k r = (r >>> k) ^^^ entry poly k (r.setWidth k) := by
  have hlow := feed_word poly hk 0#w (r.setWidth k)
  have hall := steps_xor poly k 0#w r
  rw [BitVec.zero_xor] at hall hlow
  rw [entry, ← hlow, bits_setWidth (Nat.le_refl k), hall, BitVec.xor_comm]

theorem feed_entry (b : BitVec k) :
    feed poly r (bits k b) = (r >>> k) ^^^ entry poly k (r.setWidth k ^^^ b) := by
  rw [feed_word poly hk, steps_entry poly hk, BitVec.ushiftRight_xor_distrib, shift_word,
    BitVec.xor_zero, BitVec.setWidth_xor, BitVec.setWidth_setWidth_of_le b hk,
    BitVec.setWidth_eq]

end Ashe.ReflectedCrc
