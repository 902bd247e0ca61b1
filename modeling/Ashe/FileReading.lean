import Mathlib.Algebra.Group.Nat.Defs
import Mathlib.Data.List.Basic

namespace Ashe.FileReading

structure File where
  bytes : List UInt8
  pos : Nat
  deriving DecidableEq

namespace File

def advance (f : File) (n : Nat) : File := { f with pos := f.pos + n }

def window (f : File) (n : Nat) : List UInt8 := (f.bytes.drop f.pos).take n

def Holds (f : File) (n : Nat) : Prop := n = 0 ∨ f.pos + n ≤ f.bytes.length

instance (f : File) (n : Nat) : Decidable (f.Holds n) := inferInstanceAs (Decidable (_ ∨ _))

theorem advance_zero (f : File) : f.advance 0 = f := rfl

theorem advance_advance (f : File) (n k : Nat) : (f.advance n).advance k = f.advance (n + k) := by
  simp only [advance, Nat.add_assoc]

theorem window_take (f : File) (n k : Nat) : (f.window (n + k)).take n = f.window n := by
  rw [window, List.take_take, Nat.min_eq_left (Nat.le_add_right n k), window]

theorem window_drop (f : File) (n k : Nat) :
    (f.window (n + k)).drop n = (f.advance n).window k := by
  rw [window, List.drop_take, Nat.add_sub_cancel_left, List.drop_drop, window, advance]

theorem holds_add (f : File) (n k : Nat) :
    f.Holds (n + k) ↔ f.Holds n ∧ (f.advance n).Holds k := by
  simp only [Holds, advance]
  omega

end File

structure Session (σ : Type) where
  file : File
  object : σ

def Reading (ε σ α : Type) : Type := Session σ → Except ε α × Session σ

section Operations

variable {ε σ α β : Type}

instance : Monad (Reading ε σ) where
  pure a s := (.ok a, s)
  bind m f s :=
    match m s with
    | (.ok a, s') => f a s'
    | (.error e, s') => (.error e, s')

def fail (e : ε) : Reading ε σ α := fun s => (.error e, s)

def modify (f : σ → σ) : Reading ε σ Unit := fun s => (.ok (), { s with object := f s.object })

/-- The answer is a long, which has 32 bits. -/
def ftell : Reading ε σ Int := fun s =>
  (.ok (if s.file.pos < 2 ^ 31 then s.file.pos else -1), s)

def fseek (n : Nat) : Reading ε σ Unit := fun s => (.ok (), { s with file := s.file.advance n })

def fseekEnd : Reading ε σ Unit := fun s => (.ok (), { s with file.pos := s.file.bytes.length })

def fseekSet (n : Int) : Reading ε σ Unit := fun s =>
  (.ok (), if n < 0 then s else { s with file.pos := n.toNat })

def fread (e : ε) (n : Nat) : Reading ε σ (List UInt8) := fun s =>
  if s.file.Holds n then (.ok (s.file.window n), { s with file := s.file.advance n })
  else (.error e, { s with file := s.file.advance (s.file.window n).length })

def freadSome (n : Nat) : Reading ε σ (List UInt8) := fun s =>
  (.ok (s.file.window n), { s with file := s.file.advance (s.file.window n).length })

def inspect (f : σ → α) : Reading ε σ α := fun s => (.ok (f s.object), s)

def when (c : Prop) [Decidable c] (m : Reading ε σ Unit) : Reading ε σ Unit :=
  if c then m else pure ()

def refuse (c : Prop) [Decidable c] (e : ε) : Reading ε σ Unit := when c (fail e)

def within {ε' τ : Type} (get : σ → τ) (set : τ → σ → σ) (err : ε → ε') (m : Reading ε τ α) :
    Reading ε' σ α := fun s =>
  match m ⟨s.file, get s.object⟩ with
  | (.ok a, t) => (.ok a, ⟨t.file, set t.object s.object⟩)
  | (.error e, t) => (.error (err e), ⟨t.file, set t.object s.object⟩)

end Operations

section Parts

variable {ε ε' σ τ α β : Type} {get : σ → τ} {set : τ → σ → σ} {err : ε → ε'}

/-- A part of an object, with what is around it. -/
structure Part (get : σ → τ) (set : τ → σ → σ) : Prop where
  get_set : ∀ x o, get (set x o) = x
  set_set : ∀ x y o, set x (set y o) = set x o
  set_get : ∀ o, set (get o) o = o

theorem within_fail (h : Part get set) (e : ε) :
    within get set err (fail e : Reading ε τ α) = fail (err e) := by
  funext s
  show ((Except.error (err e) : Except ε' α),
    (⟨s.file, set (get s.object) s.object⟩ : Session σ)) = _
  rw [h.set_get]
  rfl

theorem within_fread (h : Part get set) (e : ε) (n : Nat) :
    within get set err (fread e n) = fread (err e) n := by
  funext s
  rw [within, fread, fread]
  by_cases hn : s.file.Holds n
  · rw [if_pos hn, if_pos hn]
    show ((Except.ok (s.file.window n) : Except ε' (List UInt8)),
      (⟨s.file.advance n, set (get s.object) s.object⟩ : Session σ)) = _
    rw [h.set_get]
  · rw [if_neg hn, if_neg hn]
    show ((Except.error (err e) : Except ε' (List UInt8)),
      (⟨s.file.advance (s.file.window n).length, set (get s.object) s.object⟩ : Session σ)) = _
    rw [h.set_get]

theorem within_bind (h : Part get set) (m : Reading ε τ α) (f : α → Reading ε τ β) :
    within get set err (m >>= f) = within get set err m >>= fun a => within get set err (f a) := by
  funext s
  have hbind : (m >>= f) ⟨s.file, get s.object⟩ = match m ⟨s.file, get s.object⟩ with
    | (.ok a, s') => f a s'
    | (.error e, s') => (.error e, s') := rfl
  show within get set err (m >>= f) s = match within get set err m s with
    | (.ok a, s') => within get set err (f a) s'
    | (.error e, s') => (.error e, s')
  rw [within, within, hbind]
  cases m ⟨s.file, get s.object⟩ with
  | mk r u =>
      cases r with
      | error e => rfl
      | ok a =>
          show _ = within get set err (f a) ⟨u.file, set u.object s.object⟩
          rw [within, h.get_set]
          dsimp only
          cases f a u with
          | mk r v => cases r <;> simp only [h.set_set]

end Parts

section Success

variable {ε σ α β : Type} {m : Reading ε σ α} {f : α → Reading ε σ β} {n k : Nat}

def success (m : Reading ε σ α) (s : Session σ) : Option (α × Session σ) :=
  match m s with
  | (.ok a, s') => some (a, s')
  | (.error _, _) => none

theorem success_eq_some {s s' : Session σ} {a : α} :
    success m s = some (a, s') ↔ m s = (.ok a, s') := by
  rw [success]
  split
  next a' s'' h => rw [h]; simp
  next e s'' h => rw [h]; simp

theorem success_bind (m : Reading ε σ α) (f : α → Reading ε σ β) (s : Session σ) :
    success (m >>= f) s = (success m s).bind fun p => success (f p.1) p.2 := by
  have hbind : (m >>= f) s = match m s with
    | (.ok a, s') => f a s'
    | (.error e, s') => (.error e, s') := rfl
  rw [success, hbind, success]
  cases m s with
  | mk r s' => cases r <;> rfl

theorem success_pure (a : α) (s : Session σ) :
    success (pure a : Reading ε σ α) s = some (a, s) := rfl

theorem success_fail (e : ε) (s : Session σ) : success (fail e : Reading ε σ α) s = none := rfl

theorem success_fread (e : ε) (n : Nat) (s : Session σ) :
    success (fread e n : Reading ε σ (List UInt8)) s =
      if s.file.Holds n then some (s.file.window n, { s with file := s.file.advance n })
      else none := by
  rw [success, fread]
  by_cases h : s.file.Holds n
  · rw [if_pos h, if_pos h]
  · rw [if_neg h, if_neg h]

theorem success_fread_inside (e : ε) (before block after : List UInt8) (o : σ) {n : Nat}
    (hn : block.length = n) :
    success (fread e n : Reading ε σ (List UInt8)) ⟨⟨before ++ block ++ after, before.length⟩, o⟩ =
      some (block, ⟨⟨before ++ block ++ after, (before ++ block).length⟩, o⟩) := by
  have hholds : (⟨before ++ block ++ after, before.length⟩ : File).Holds n := by
    refine .inr ?_
    simp only [List.length_append]
    omega
  rw [success_fread, if_pos hholds, File.window, List.append_assoc, List.drop_left, ← hn,
    List.take_left, List.length_append]
  rfl

/-- The function answers exactly if n bytes are there, which it takes and which, with the
object, decide what it does. -/
def Reads (m : Reading ε σ α) (n : Nat) : Prop :=
  ∃ g : List UInt8 → σ → α × σ, ∀ s, success m s =
    if s.file.Holds n then
      some ((g (s.file.window n) s.object).1,
        ⟨s.file.advance n, (g (s.file.window n) s.object).2⟩)
    else none

def Framed (m : Reading ε σ α) (n : Nat) : Prop :=
  ∃ g : List UInt8 → σ → Option (α × σ), ∀ s, success m s =
    if s.file.Holds n then
      (g (s.file.window n) s.object).map fun p => (p.1, ⟨s.file.advance n, p.2⟩)
    else none

theorem Reads.framed (h : Reads m n) : Framed m n := by
  obtain ⟨g, hg⟩ := h
  exact ⟨fun w o => some (g w o), hg⟩

theorem Framed.bind (hm : Framed m n) (hf : ∀ a, Framed (f a) k) : Framed (m >>= f) (n + k) := by
  obtain ⟨g, hg⟩ := hm
  choose g' hg' using hf
  refine ⟨fun w o => (g (w.take n) o).bind fun p => g' p.1 (w.drop n) p.2, fun s => ?_⟩
  rw [success_bind, hg]
  simp only [File.window_take, File.window_drop]
  by_cases hn : s.file.Holds n
  · rw [if_pos hn]
    cases g (s.file.window n) s.object with
    | none => simp
    | some p =>
        simp only [Option.map_some, Option.bind_some, hg', File.holds_add, hn, true_and,
          File.advance_advance]
  · rw [if_neg hn, if_neg fun h => hn ((File.holds_add ..).mp h).1]
    rfl

theorem Reads.bind (hm : Reads m n) (hf : ∀ a, Reads (f a) k) : Reads (m >>= f) (n + k) := by
  obtain ⟨g, hg⟩ := hm
  choose g' hg' using hf
  refine ⟨fun w o => g' (g (w.take n) o).1 (w.drop n) (g (w.take n) o).2, fun s => ?_⟩
  rw [success_bind, hg]
  simp only [File.window_take, File.window_drop]
  by_cases hn : s.file.Holds n
  · simp only [hn, if_true, Option.bind_some, hg', File.holds_add, true_and,
      File.advance_advance]
  · rw [if_neg hn, if_neg fun h => hn ((File.holds_add ..).mp h).1]
    rfl

theorem reads_pure (a : α) : Reads (pure a : Reading ε σ α) 0 :=
  ⟨fun _ o => (a, o), fun s => by rw [success_pure, if_pos (.inl rfl), File.advance_zero]⟩

theorem reads_modify (g : σ → σ) : Reads (modify g : Reading ε σ Unit) 0 :=
  ⟨fun _ o => ((), g o), fun s => by rw [if_pos (.inl rfl), File.advance_zero]; rfl⟩

theorem reads_fread (e : ε) (n : Nat) : Reads (fread e n : Reading ε σ (List UInt8)) n :=
  ⟨fun w o => (w, o), success_fread e n⟩

theorem Reads.of_eq (h : Reads m n) (hn : n = k) : Reads m k := hn ▸ h

theorem Framed.of_eq (h : Framed m n) (hn : n = k) : Framed m k := hn ▸ h

theorem framed_fail (e : ε) (n : Nat) : Framed (fail e : Reading ε σ α) n :=
  ⟨fun _ _ => none, fun s => by rw [success_fail]; split <;> rfl⟩

theorem framed_ite {c : Prop} [Decidable c] {m' : Reading ε σ α} (h : c → Framed m n)
    (h' : ¬c → Framed m' n) : Framed (if c then m else m') n := by
  split
  next hc => exact h hc
  next hc => exact h' hc

/-- What a function never answers in the end it does not answer at all. -/
theorem success_bind_none {s : Session σ} (h : ∀ a s, success (f a) s = none) :
    success (m >>= f) s = none := by
  rw [success_bind]
  cases success m s with
  | none => rfl
  | some p => exact h p.1 p.2

/-- Bytes that are skipped are missed by the reads behind them. -/
theorem Reads.skip {m : Reading ε σ α} (hm : Reads m k) (hk : 0 < k) (n : Nat) :
    Reads (fseek n >>= fun _ => m) (n + k) := by
  obtain ⟨g, hg⟩ := hm
  refine ⟨fun w o => g (w.drop n) o, fun s => ?_⟩
  have hseek : success (fseek n : Reading ε σ Unit) s =
      some ((), { s with file := s.file.advance n }) := rfl
  have hholds : (s.file.advance n).Holds k ↔ s.file.Holds (n + k) := by
    simp only [File.Holds, File.advance]
    omega
  rw [success_bind, hseek, Option.bind_some, hg]
  simp only [File.window_drop, File.advance_advance, hholds]

theorem reads_forM {f : β → Reading ε σ Unit} (hf : ∀ b, Reads (f b) n) (l : List β) :
    Reads (l.forM f) (l.length * n) := by
  induction l with
  | nil =>
      rw [List.length_nil, Nat.zero_mul]
      exact reads_pure ()
  | cons b l ih =>
      rw [List.length_cons, Nat.succ_mul, Nat.add_comm]
      exact (hf b).bind fun _ => ih

variable {s s' : Session σ} {a : α}

theorem Reads.success_iff (h : Reads m n) : (∃ p, success m s = some p) ↔ s.file.Holds n := by
  obtain ⟨g, hg⟩ := h
  rw [hg]
  split
  next hn => simp [hn]
  next hn => simp [hn]

theorem Framed.holds (h : Framed m n) (hs : success m s = some (a, s')) : s.file.Holds n := by
  obtain ⟨g, hg⟩ := h
  rw [hg] at hs
  split at hs
  next hn => exact hn
  next => exact absurd hs (by simp)

theorem Framed.file (h : Framed m n) (hs : success m s = some (a, s')) :
    s'.file = s.file.advance n := by
  obtain ⟨g, hg⟩ := h
  rw [hg] at hs
  split at hs
  next =>
    obtain ⟨p, -, hp⟩ := Option.map_eq_some_iff.mp hs
    rw [← (Prod.mk.inj hp).2]
  next => exact absurd hs (by simp)

theorem Framed.elsewhere (h : Framed m n) (hs : success m s = some (a, s')) {t : Session σ}
    (ht : t.file.Holds n) (hobject : t.object = s.object)
    (hwindow : t.file.window n = s.file.window n) :
    success m t = some (a, ⟨t.file.advance n, s'.object⟩) := by
  have hn := h.holds hs
  obtain ⟨g, hg⟩ := h
  rw [hg, if_pos hn] at hs
  obtain ⟨p, hp, hps⟩ := Option.map_eq_some_iff.mp hs
  obtain ⟨rfl, rfl⟩ := Prod.mk.inj hps
  rw [hg, if_pos ht, hobject, hwindow, hp]
  rfl

end Success

end Ashe.FileReading
