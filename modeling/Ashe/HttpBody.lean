import Ashe.Http

namespace Ashe.HttpBody

open Http

def delivery (turn : Turn) : Option (UInt32 × List UInt8) :=
  match turn.available, turn.read with
  | .ok size, .ok bytes => if size ≠ 0 ∧ turn.allocated then some (size, bytes) else none
  | _, _ => none

def atEnd (turn : Turn) : Bool :=
  match turn.available with
  | .ok size => size == 0
  | .error _ => false

def deliveries : List Turn → Option (List (UInt32 × List UInt8))
  | [] => none
  | turn :: turns =>
      if atEnd turn then some []
      else (delivery turn).bind fun d => (deliveries turns).map (d :: ·)

def bytesRead : List Turn → List UInt8
  | [] => []
  | turn :: turns =>
      if atEnd turn then []
      else
        match turn.read with
        | .ok bytes => bytes ++ bytesRead turns
        | .error _ => bytesRead turns

def buffer (d : UInt32 × List UInt8) : List UInt8 :=
  d.2 ++ List.replicate (d.1.toNat - d.2.length) 0

theorem delivery_some {turn : Turn} {size : UInt32} {bytes : List UInt8}
    (h : delivery turn = some (size, bytes)) : turn.available = .ok size ∧
      turn.read = .ok bytes ∧ size ≠ 0 ∧ turn.allocated = true := by
  rw [delivery] at h
  split at h
  next size' bytes' hsize hbytes =>
    split at h
    next hgood =>
      obtain ⟨rfl, rfl⟩ := Prod.mk.inj (Option.some.inj h)
      exact ⟨hsize, hbytes, hgood⟩
    next => exact absurd h (by simp)
  next => exact absurd h (by simp)

theorem deliveries_cons {turn : Turn} {turns : List Turn} {ds : List (UInt32 × List UInt8)}
    (hend : atEnd turn = false) (h : deliveries (turn :: turns) = some ds) :
    ∃ d rest, delivery turn = some d ∧ deliveries turns = some rest ∧ ds = d :: rest := by
  rw [deliveries, hend, if_neg Bool.false_ne_true] at h
  obtain ⟨d, hd, h⟩ := Option.bind_eq_some_iff.mp h
  obtain ⟨rest, hrest, rfl⟩ := Option.map_eq_some_iff.mp h
  exact ⟨d, rest, hd, hrest, rfl⟩

theorem bytesRead_deliveries {turns : List Turn} {ds : List (UInt32 × List UInt8)}
    (h : deliveries turns = some ds) : bytesRead turns = ds.flatMap Prod.snd := by
  induction turns generalizing ds with
  | nil => exact absurd h (by simp [deliveries])
  | cons turn turns ih =>
      rw [bytesRead]
      cases hend : atEnd turn with
      | true =>
          rw [deliveries, if_pos hend] at h
          obtain rfl := Option.some.inj h
          rfl
      | false =>
          obtain ⟨⟨size, bytes⟩, rest, hd, hrest, rfl⟩ := deliveries_cons hend h
          obtain ⟨-, hread, -, -⟩ := delivery_some hd
          rw [if_neg Bool.false_ne_true, hread, ih hrest]
          rfl

theorem deliveries_within {turns : List Turn} {ds : List (UInt32 × List UInt8)}
    (h : deliveries turns = some ds) : ∀ d ∈ ds, d.2.length ≤ d.1.toNat := by
  induction turns generalizing ds with
  | nil => exact absurd h (by simp [deliveries])
  | cons turn turns ih =>
      cases hend : atEnd turn with
      | true =>
          rw [deliveries, if_pos hend] at h
          obtain rfl := Option.some.inj h
          exact fun d hd => absurd hd List.not_mem_nil
      | false =>
          obtain ⟨⟨size, bytes⟩, rest, hd, hrest, rfl⟩ := deliveries_cons hend h
          obtain ⟨hsize, hread, -, -⟩ := delivery_some hd
          rintro d (_ | ⟨_, hmem⟩)
          · exact turn.within size bytes hsize hread
          · exact ih hrest d hmem

section

variable {store : List UInt8 → List UInt8 → Bool × List UInt8}
  (hstore : ∀ body received, store body received = (true, body ++ received))
include hstore

theorem bodyLoop_cons (turn : Turn) (turns : List Turn) (gle : UInt32) (body : List UInt8) :
    (atEnd turn = true ∧ bodyLoop store (turn :: turns) gle body = some (true, gle, body)) ∨
    (∃ d, atEnd turn = false ∧ delivery turn = some d ∧ bodyLoop store (turn :: turns) gle body =
      bodyLoop store turns gle (body ++ buffer d)) ∨
    (∃ code, atEnd turn = false ∧ delivery turn = none ∧
      bodyLoop store (turn :: turns) gle body = some (false, code, body)) := by
  rw [bodyLoop, atEnd, delivery]
  cases turn.available with
  | error code => exact Or.inr (Or.inr ⟨code, rfl, rfl, rfl⟩)
  | ok size =>
      by_cases hzero : size = 0
      · subst hzero
        exact Or.inl ⟨rfl, rfl⟩
      · have hend : (size == 0) = false := beq_eq_false_iff_ne.mpr hzero
        dsimp only
        rw [if_neg hzero]
        cases turn.read with
        | error code =>
            cases turn.allocated with
            | true => exact Or.inr (Or.inr ⟨code, hend, rfl, rfl⟩)
            | false => exact Or.inr (Or.inr ⟨gle, hend, rfl, rfl⟩)
        | ok bytes =>
            cases turn.allocated with
            | true =>
                refine Or.inr (Or.inl ⟨(size, bytes), hend, if_pos ⟨hzero, rfl⟩, ?_⟩)
                dsimp only
                rw [if_pos rfl, hstore]
                rfl
            | false =>
                have hnone : ¬(size ≠ 0 ∧ false = true) := fun h => Bool.false_ne_true h.2
                exact Or.inr (Or.inr ⟨gle, hend, if_neg hnone, rfl⟩)

/-- The loop returns true just where the turns come to their end, with all buffers stored. -/
theorem bodyLoop_true {turns : List Turn} {gle gle' : UInt32} {body body' : List UInt8} :
    bodyLoop store turns gle body = some (true, gle', body') ↔
      gle' = gle ∧ ∃ ds, deliveries turns = some ds ∧ body' = body ++ ds.flatMap buffer := by
  induction turns generalizing body with
  | nil => simp [bodyLoop, deliveries]
  | cons turn turns ih =>
      obtain ⟨hend, hloop⟩ | ⟨d, hend, hd, hloop⟩ | ⟨code, hend, hd, hloop⟩ :=
        bodyLoop_cons hstore turn turns gle body
      · rw [hloop, deliveries, if_pos hend]
        simp [eq_comm]
      · rw [hloop, ih, deliveries, hend, if_neg Bool.false_ne_true, hd, Option.bind_some]
        simp [List.append_assoc]
      · rw [hloop, deliveries, hend, if_neg Bool.false_ne_true, hd, Option.bind_none]
        simp

end

/-- When the call returns true it has put the bytes that were read behind what was there. -/
def Assembled (turns : List Turn) (before : List UInt8)
    (outcome : Option (Bool × UInt32 × List UInt8)) : Prop :=
  ∀ gle after, outcome = some (true, gle, after) → after = before ++ bytesRead turns

/-- In turns that come to their end each read delivers its announced size. -/
def WholeReads (turns : List Turn) : Prop :=
  ∀ ds, deliveries turns = some ds → ∀ d ∈ ds, d.2.length = d.1.toNat

theorem buffer_length {d : UInt32 × List UInt8} (h : d.2.length ≤ d.1.toNat) :
    (buffer d).length = d.1.toNat := by
  rw [buffer, List.length_append, List.length_replicate]
  omega

theorem flatMap_buffer_length {ds : List (UInt32 × List UInt8)}
    (h : ∀ d ∈ ds, d.2.length ≤ d.1.toNat) :
    (ds.flatMap Prod.snd).length ≤ (ds.flatMap buffer).length := by
  induction ds with
  | nil => exact Nat.le_refl _
  | cons d ds ih =>
      obtain ⟨hd, hrest⟩ := List.forall_mem_cons.mp h
      rw [List.flatMap_cons, List.flatMap_cons, List.length_append, List.length_append,
        buffer_length hd]
      exact Nat.add_le_add hd (ih hrest)

/-- Buffers hold just the bytes read where none of them is larger. -/
theorem flatMap_buffer {ds : List (UInt32 × List UInt8)} (h : ∀ d ∈ ds, d.2.length ≤ d.1.toNat) :
    ds.flatMap buffer = ds.flatMap Prod.snd ↔ ∀ d ∈ ds, d.2.length = d.1.toNat := by
  induction ds with
  | nil => simp
  | cons d ds ih =>
      obtain ⟨hd, hrest⟩ := List.forall_mem_cons.mp h
      rw [List.flatMap_cons, List.flatMap_cons, List.forall_mem_cons, ← ih hrest]
      constructor
      · intro heq
        have hlen := congrArg List.length heq
        have hle := flatMap_buffer_length hrest
        rw [List.length_append, List.length_append, buffer_length hd] at hlen
        have hwhole : d.2.length = d.1.toNat := by omega
        rw [buffer, hwhole, Nat.sub_self, List.replicate_zero, List.append_nil] at heq
        exact ⟨hwhole, List.append_cancel_left heq⟩
      · rintro ⟨hwhole, heq⟩
        rw [heq, buffer, hwhole, Nat.sub_self, List.replicate_zero, List.append_nil]

theorem bodyLoop_assembled {store : List UInt8 → List UInt8 → Bool × List UInt8}
    (hstore : ∀ body received, store body received = (true, body ++ received))
    (turns : List Turn) (gle : UInt32) (body : List UInt8) :
    Assembled turns body (bodyLoop store turns gle body) ↔ WholeReads turns := by
  constructor
  · intro h ds hds
    have heq := h gle (body ++ ds.flatMap buffer) ((bodyLoop_true hstore).mpr ⟨rfl, ds, hds, rfl⟩)
    rw [bytesRead_deliveries hds] at heq
    exact (flatMap_buffer (deliveries_within hds)).mp (List.append_cancel_left heq)
  · intro h gle' after hloop
    obtain ⟨-, ds, hds, rfl⟩ := (bodyLoop_true hstore).mp hloop
    rw [bytesRead_deliveries hds, (flatMap_buffer (deliveries_within hds)).mpr (h ds hds)]

/-- A call that returns false has nothing to say about the bytes. -/
theorem assembled_false (turns : List Turn) (before : List UInt8) (gle : UInt32)
    (after : List UInt8) : Assembled turns before (some (false, gle, after)) :=
  fun _ _ h => absurd (Prod.mk.inj (Option.some.inj h)).1 Bool.false_ne_true

/-- The bodies are those that were read, just where every read before the end delivers what
was announced. -/
theorem assembled_iff {fwrite : Fwrite}
    (hwrite : ∀ file bytes, fwrite file bytes = (bytes.length, file ++ bytes))
    (hRequest opened : Bool) (turns : List Turn) (gle : UInt32) (data file : List UInt8) :
    (Assembled turns data (getResponseBody hRequest turns gle data) ↔
      (hRequest → WholeReads turns)) ∧
    (Assembled turns file (saveResponseBody fwrite hRequest opened turns gle file) ↔
      (hRequest → opened → WholeReads turns)) ∧
    (Assembled turns [] (saveResponseBodyToFile fwrite hRequest opened turns gle file) ↔
      (hRequest → opened → WholeReads turns)) := by
  have hstore : ∀ file received : List UInt8,
      ((fwrite file received).1 == received.length, (fwrite file received).2) =
        (true, file ++ received) := fun file received => by rw [hwrite, beq_self_eq_true]
  rw [getResponseBody, saveResponseBodyToFile, saveResponseBody, saveResponseBody]
  cases hRequest with
  | false => simp [assembled_false]
  | true =>
      have hdata := bodyLoop_assembled (fun _ _ => rfl) turns gle data
      cases opened with
      | false => simp [assembled_false, hdata]
      | true =>
          have hfile := bodyLoop_assembled hstore turns gle
          simp [hdata, hfile]

def wholeReads : List Turn :=
  [⟨.ok 1, true, .ok [65], fun _ _ hsize hbytes => by cases hsize; cases hbytes; decide⟩,
    ⟨.ok 2, true, .ok [66, 67], fun _ _ hsize hbytes => by cases hsize; cases hbytes; decide⟩,
    ⟨.ok 0, true, .ok [], fun _ _ _ hbytes => by cases hbytes; exact Nat.zero_le _⟩]

theorem assembled_whole_reads :
    Assembled wholeReads [9] (getResponseBody true wholeReads 0 [9]) :=
  (@assembled_iff (fun file bytes => (bytes.length, file ++ bytes)) (fun _ _ => rfl)
    true true wholeReads 0 [9] []).1.mpr fun _ ds hds => by
      obtain rfl := Option.some.inj hds
      decide

def shortRead : List Turn :=
  [⟨.ok 2, true, .ok [65], fun _ _ hsize hbytes => by cases hsize; cases hbytes; decide⟩,
    ⟨.ok 0, true, .ok [], fun _ _ _ hbytes => by cases hbytes; exact Nat.zero_le _⟩]

theorem assembled_short_read :
    ¬Assembled shortRead [] (getResponseBody true shortRead 0 []) ∧
      ¬Assembled shortRead [] (saveResponseBodyToFile
        (fun file bytes => (bytes.length, file ++ bytes)) true true shortRead 0 []) := by
  constructor
  · intro h
    exact absurd (h 0 [65, 0] rfl) (by decide)
  · intro h
    exact absurd (h 0 [65, 0] rfl) (by decide)

end Ashe.HttpBody
