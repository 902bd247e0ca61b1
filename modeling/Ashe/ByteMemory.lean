import Ashe.ByteWords

namespace Ashe.ByteMemory

open ByteWords

abbrev Bytes := Nat → UInt8

def read (m : Bytes) (a n : Nat) : List UInt8 := (List.range n).map fun i => m (a + i)

def store (m : Bytes) (a : Nat) (bs : List UInt8) : Bytes := fun x =>
  if a ≤ x then (bs[x - a]?).getD (m x) else m x

def sizeofPointer : Nat := 8

/-- A pointer is a little-endian word, and null is zero. -/
def loadPointer (m : Bytes) (a : Nat) : Nat := ofLittleEndian (read m a sizeofPointer)

def storePointer (m : Bytes) (a p : Nat) : Bytes := store m a (littleEndian sizeofPointer p)

def Apart (a n b k : Nat) : Prop := a + n ≤ b ∨ b + k ≤ a

theorem Apart.symm {a n b k : Nat} (h : Apart a n b k) : Apart b k a n := Or.symm h

variable {m m' : Bytes} {a b n k : Nat} {bs : List UInt8}

@[simp]
theorem read_length : (read m a n).length = n := by
  rw [read, List.length_map, List.length_range]

theorem read_congr (h : ∀ x, a ≤ x → x < a + n → m' x = m x) : read m' a n = read m a n := by
  apply List.map_congr_left
  intro i hi
  have hlt := List.mem_range.mp hi
  exact h (a + i) (Nat.le_add_right a i) (by omega)

theorem store_outside {x : Nat} (h : x < a ∨ a + bs.length ≤ x) : store m a bs x = m x := by
  rw [store]
  split
  next hle =>
    rw [List.getElem?_eq_none (by omega)]
    rfl
  next => rfl

theorem read_store_apart (h : Apart a n b bs.length) :
    read (store m b bs) a n = read m a n := by
  apply read_congr
  intro x hx hlt
  apply store_outside
  rw [Apart] at h
  omega

theorem read_store_self : read (store m a bs) a bs.length = bs := by
  apply List.ext_getElem (by simp)
  intro i hi hb
  simp [ByteMemory.read, store, hb]

theorem loadPointer_store_apart (h : Apart a sizeofPointer b bs.length) :
    loadPointer (store m b bs) a = loadPointer m a := by
  rw [loadPointer, read_store_apart h, loadPointer]

theorem loadPointer_storePointer_self {p : Nat} (h : p < 2 ^ 64) :
    loadPointer (storePointer m a p) a = p := by
  have hread := @read_store_self m a (littleEndian sizeofPointer p)
  rw [littleEndian_length] at hread
  rw [loadPointer, storePointer, hread]
  exact ofLittleEndian_littleEndian h

theorem loadPointer_storePointer_apart {p : Nat} (h : Apart a sizeofPointer b sizeofPointer) :
    loadPointer (storePointer m b p) a = loadPointer m a := by
  apply loadPointer_store_apart
  rwa [littleEndian_length]

theorem read_storePointer_apart {p : Nat} (h : Apart a n b sizeofPointer) :
    read (storePointer m b p) a n = read m a n := by
  apply read_store_apart
  rwa [littleEndian_length]

theorem storePointer_outside {p x : Nat} (h : x < a ∨ a + sizeofPointer ≤ x) :
    storePointer m a p x = m x := by
  apply store_outside
  rwa [littleEndian_length]

end Ashe.ByteMemory
