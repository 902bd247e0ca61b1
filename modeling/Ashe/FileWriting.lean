import Mathlib.Data.List.Basic

namespace Ashe.FileWriting

/-- A file that is open for writing. The position may lie past its end. -/
structure File where
  bytes : List UInt8
  pos : Nat
  deriving DecidableEq

namespace File

/-- The bytes up to the position. Past the end they are zero. -/
def before (f : File) : List UInt8 :=
  f.bytes.take f.pos ++ List.replicate (f.pos - f.bytes.length) 0

def put (f : File) (xs : List UInt8) : File :=
  ⟨f.before ++ xs ++ f.bytes.drop (f.pos + xs.length), f.pos + xs.length⟩

def seek (f : File) (pos : Nat) : File := ⟨f.bytes, pos⟩

def AtEnd (f : File) : Prop := f.bytes.length ≤ f.pos

theorem before_length (f : File) : f.before.length = f.pos := by
  rw [before, List.length_append, List.length_take, List.length_replicate]
  omega

theorem put_pos (f : File) (xs : List UInt8) : (f.put xs).pos = f.pos + xs.length := rfl

theorem put_bytes {f : File} (h : f.AtEnd) (xs : List UInt8) :
    (f.put xs).bytes = f.before ++ xs := by
  rw [put, List.drop_eq_nil_of_le (Nat.le_trans h (Nat.le_add_right _ _)), List.append_nil]

theorem put_atEnd {f : File} (h : f.AtEnd) (xs : List UInt8) : (f.put xs).AtEnd :=
  Nat.le_of_eq (by rw [put_bytes h, put_pos, List.length_append, before_length])

theorem put_before {f : File} (h : f.AtEnd) (xs : List UInt8) :
    (f.put xs).before = f.before ++ xs := by
  have hlen : (f.before ++ xs).length = f.pos + xs.length := by
    rw [List.length_append, before_length]
  rw [File.before, put_bytes h, put_pos, List.take_of_length_le (Nat.le_of_eq hlen), hlen,
    Nat.sub_self, List.replicate_zero, List.append_nil]

theorem put_put {f : File} (h : f.AtEnd) (xs ys : List UInt8) :
    (f.put xs).put ys = f.put (xs ++ ys) := by
  have hbytes : ((f.put xs).put ys).bytes = (f.put (xs ++ ys)).bytes := by
    rw [put_bytes (put_atEnd h xs), put_before h, put_bytes h, List.append_assoc]
  have hpos : ((f.put xs).put ys).pos = (f.put (xs ++ ys)).pos := by
    rw [put_pos, put_pos, put_pos, List.length_append, Nat.add_assoc]
  exact File.mk.injEq .. ▸ ⟨hbytes, hpos⟩

theorem put_over (a b c xs : List UInt8) (h : xs.length = b.length) :
    (File.mk (a ++ b ++ c) a.length).put xs = ⟨a ++ xs ++ c, (a ++ xs).length⟩ := by
  have hbefore : (File.mk (a ++ b ++ c) a.length).before = a := by
    rw [before, List.append_assoc, List.take_left]
    have hzero : a.length - (a ++ (b ++ c)).length = 0 := by
      rw [List.length_append]
      omega
    rw [hzero, List.replicate_zero, List.append_nil]
  have hdrop : (a ++ b ++ c).drop (a.length + xs.length) = c := by
    rw [h, ← List.length_append, List.drop_left]
  rw [put, hbefore, hdrop, List.length_append]

end File

end Ashe.FileWriting
