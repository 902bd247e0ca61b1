import Ashe.FileReading

namespace Ashe.TwoRuns

open FileReading

variable {ε ε' σ τ α β : Type} {P P' R : σ → σ → Prop} {Q Q' : α → σ → σ → Prop}
  {m m' : Reading ε σ α}

/-- Two functions that start at the same place of one file, with objects that P relates.
Where both succeed they answer the same, stop at the same place, and Q relates the objects. -/
def Twin (P : σ → σ → Prop) (m m' : Reading ε σ α) (Q : α → σ → σ → Prop) : Prop :=
  ∀ file o o' a a' s s', P o o' → success m ⟨file, o⟩ = some (a, s) →
    success m' ⟨file, o'⟩ = some (a', s') → a' = a ∧ s'.file = s.file ∧ Q a s.object s'.object

theorem Twin.mono (h : Twin P m m' Q) (hP : ∀ o o', P' o o' → P o o')
    (hQ : ∀ a o o', Q a o o' → Q' a o o') : Twin P' m m' Q' := by
  intro file o o' a a' s s' hp hs hs'
  obtain ⟨ha, hfile, hq⟩ := h file o o' a a' s s' (hP _ _ hp) hs hs'
  exact ⟨ha, hfile, hQ _ _ _ hq⟩

theorem Twin.bind {Q : β → σ → σ → Prop} {l l' : Reading ε σ β} {f f' : β → Reading ε σ α}
    {Q' : α → σ → σ → Prop} (h : Twin P l l' Q) (hf : ∀ b, Twin (Q b) (f b) (f' b) Q') :
    Twin P (l >>= f) (l' >>= f') Q' := by
  intro file o o' a a' s s' hp hs hs'
  rw [success_bind] at hs hs'
  obtain ⟨⟨b, t⟩, ht, hs⟩ := Option.bind_eq_some_iff.mp hs
  obtain ⟨⟨b', t'⟩, ht', hs'⟩ := Option.bind_eq_some_iff.mp hs'
  obtain ⟨rfl, hfile, hq⟩ := h file o o' b b' t t' hp ht ht'
  refine hf b' t.file t.object t'.object a a' s s' hq hs ?_
  rw [← hfile]
  exact hs'

theorem twin_pure {a : α} (h : ∀ o o', P o o' → Q a o o') :
    Twin P (pure a : Reading ε σ α) (pure a) Q := by
  intro file o o' b b' s s' hp hs hs'
  obtain ⟨rfl, rfl⟩ := Prod.mk.inj (Option.some.inj hs)
  obtain ⟨rfl, rfl⟩ := Prod.mk.inj (Option.some.inj hs')
  exact ⟨rfl, rfl, h _ _ hp⟩

theorem twin_fail_left {e : ε} : Twin P (fail e) m' Q :=
  fun _ _ _ _ _ _ _ _ hs _ => absurd hs (by simp [success_fail])

theorem twin_fail_right {e : ε} : Twin P m (fail e) Q :=
  fun _ _ _ _ _ _ _ _ _ hs' => absurd hs' (by simp [success_fail])

theorem twin_file {m : Reading ε σ α} (f : File → Option (α × File))
    (hm : ∀ s : Session σ, success m s = (f s.file).map fun p => (p.1, ⟨p.2, s.object⟩)) :
    Twin P m m fun _ => P := by
  intro file o o' a a' s s' hp hs hs'
  rw [hm] at hs hs'
  obtain ⟨p, hf, hs⟩ := Option.map_eq_some_iff.mp hs
  obtain ⟨p', hf', hs'⟩ := Option.map_eq_some_iff.mp hs'
  obtain ⟨rfl, rfl⟩ := Prod.mk.inj hs
  obtain ⟨rfl, rfl⟩ := Prod.mk.inj hs'
  obtain rfl := Option.some.inj (hf.symm.trans hf')
  exact ⟨rfl, rfl, hp⟩

theorem twin_fread (e : ε) (n : Nat) : Twin P (fread e n) (fread e n) fun _ => P := by
  refine twin_file (fun f => if f.Holds n then some (f.window n, f.advance n) else none)
    fun s => ?_
  rw [success, fread]
  by_cases h : s.file.Holds n
  · rw [if_pos h, if_pos h]
    rfl
  · rw [if_neg h, if_neg h]
    rfl

theorem twin_freadSome (n : Nat) :
    Twin P (freadSome n : Reading ε σ (List UInt8)) (freadSome n) fun _ => P :=
  twin_file (fun f => some (f.window n, f.advance (f.window n).length)) fun _ => rfl

theorem twin_ftell : Twin P (ftell : Reading ε σ Int) ftell fun _ => P :=
  twin_file (fun f => some (if f.pos < 2 ^ 31 then f.pos else -1, f)) fun _ => rfl

theorem twin_fseekEnd : Twin P (fseekEnd : Reading ε σ Unit) fseekEnd fun _ => P :=
  twin_file (fun f => some ((), { f with pos := f.bytes.length })) fun _ => rfl

theorem twin_fseekSet (n : Int) :
    Twin P (fseekSet n : Reading ε σ Unit) (fseekSet n) fun _ => P := by
  refine twin_file (fun f => some ((), if n < 0 then f else { f with pos := n.toNat })) fun s => ?_
  rw [success, fseekSet]
  by_cases h : n < 0
  · rw [if_pos h, if_pos h]
    rfl
  · rw [if_neg h, if_neg h]
    rfl

theorem twin_fseek (n : Nat) : Twin P (fseek n : Reading ε σ Unit) (fseek n) fun _ => P :=
  twin_file (fun f => some ((), f.advance n)) fun _ => rfl

theorem twin_modify {g g' : σ → σ} (h : ∀ o o', P o o' → R (g o) (g' o')) :
    Twin P (modify g : Reading ε σ Unit) (modify g') fun _ => R := by
  intro file o o' a a' s s' hp hs hs'
  obtain ⟨rfl, rfl⟩ := Prod.mk.inj (Option.some.inj hs)
  obtain ⟨rfl, rfl⟩ := Prod.mk.inj (Option.some.inj hs')
  exact ⟨rfl, rfl, h _ _ hp⟩

/-- Related objects that are alike in what f reads from them. -/
def Alike (P : σ → σ → Prop) (f : σ → β) (o o' : σ) : Prop := P o o' ∧ f o' = f o

/-- What is read from the object is known to be there afterwards. -/
theorem twin_inspect {f : σ → α} (h : ∀ o o', P o o' → f o' = f o) :
    Twin P (inspect f : Reading ε σ α) (inspect f) fun a o o' => P o o' ∧ f o = a ∧ f o' = a := by
  intro file o o' a a' s s' hp hs hs'
  obtain ⟨rfl, rfl⟩ := Prod.mk.inj (Option.some.inj hs)
  obtain ⟨rfl, rfl⟩ := Prod.mk.inj (Option.some.inj hs')
  exact ⟨h _ _ hp, rfl, hp, rfl, h _ _ hp⟩

theorem twin_ite {c : Prop} [Decidable c] {l l' : Reading ε σ α} (h : c → Twin P m m' Q)
    (h' : ¬c → Twin P l l' Q) : Twin P (if c then m else l) (if c then m' else l') Q := by
  by_cases hc : c
  · rw [if_pos hc, if_pos hc]
    exact h hc
  · rw [if_neg hc, if_neg hc]
    exact h' hc

theorem twin_guard {c c' : Prop} [Decidable c] [Decidable c'] {e e' : ε} (h : Twin P m m' Q) :
    Twin P (if c then fail e else m) (if c' then fail e' else m') Q := by
  by_cases hc : c
  · rw [if_pos hc]
    exact twin_fail_left
  · rw [if_neg hc]
    by_cases hc' : c'
    · rw [if_pos hc']
      exact twin_fail_right
    · rw [if_neg hc']
      exact h

theorem twin_when {c : Prop} [Decidable c] {m m' : Reading ε σ Unit}
    (h : c → Twin P m m' fun _ => R) (h' : ¬c → ∀ o o', P o o' → R o o') :
    Twin P (when c m) (when c m') fun _ => R :=
  twin_ite h fun hc => twin_pure (h' hc)

theorem twin_refuse {c c' : Prop} [Decidable c] [Decidable c'] {e e' : ε} :
    Twin P (refuse c e) (refuse c' e') fun _ => P := twin_guard (twin_pure fun _ _ h => h)

theorem twin_forM {f f' : β → Reading ε σ Unit} {l : List β}
    (h : ∀ b ∈ l, Twin P (f b) (f' b) fun _ => P) : Twin P (l.forM f) (l.forM f') fun _ => P := by
  induction l with
  | nil => exact twin_pure fun _ _ hp => hp
  | cons b l ih =>
      obtain ⟨hb, hl⟩ := List.forall_mem_cons.mp h
      exact hb.bind fun _ => ih hl

theorem success_within {ε' τ : Type} {get : σ → τ} {set : τ → σ → σ} {err : ε → ε'}
    {m : Reading ε τ α} {s t : Session σ} {a : α} :
    success (within get set err m) s = some (a, t) ↔
      ∃ u, success m ⟨s.file, get s.object⟩ = some (a, u) ∧
        t = ⟨u.file, set u.object s.object⟩ := by
  rw [success, success, within]
  cases m ⟨s.file, get s.object⟩ with
  | mk r u =>
      cases r with
      | error e => simp
      | ok b =>
          constructor
          · intro h
            obtain ⟨rfl, rfl⟩ := Prod.mk.inj (Option.some.inj h)
            exact ⟨u, rfl, rfl⟩
          · rintro ⟨u', hu, rfl⟩
            obtain ⟨rfl, rfl⟩ := Prod.mk.inj (Option.some.inj hu)
            rfl

/-- Parts that are related on their own, in objects that stay related around them. -/
theorem Twin.within {T : τ → τ → Prop} {U : α → τ → τ → Prop} {get : σ → τ} {set : τ → σ → σ}
    {err : ε → ε'} {m m' : Reading ε τ α} {P : σ → σ → Prop} {Q : α → σ → σ → Prop}
    (h : Twin T m m' U) (hget : ∀ o o', P o o' → T (get o) (get o'))
    (hset : ∀ a x x' o o', P o o' → U a x x' → Q a (set x o) (set x' o')) :
    Twin P (FileReading.within get set err m) (FileReading.within get set err m') Q := by
  intro file o o' a a' s s' hp hs hs'
  obtain ⟨u, hu, rfl⟩ := success_within.mp hs
  obtain ⟨u', hu', rfl⟩ := success_within.mp hs'
  obtain ⟨ha, hfile, hU⟩ := h file _ _ a a' u u' (hget _ _ hp) hu hu'
  exact ⟨ha, hfile, hset _ _ _ _ _ hp hU⟩

/-- A function that does the same as another and tells more of it. -/
def Tells (m : Reading ε σ Unit) (t : Reading ε σ α) : Prop :=
  ∀ s, success m s = (success t s).map fun p => ((), p.2)

theorem tells_refl (m : Reading ε σ Unit) : Tells m m := fun s => by
  cases success m s with
  | none => rfl
  | some p => rfl

theorem Tells.bind {m f : Reading ε σ Unit} {t : Reading ε σ β} {g : β → Reading ε σ α}
    (h : Tells m t) (hf : ∀ b, Tells f (g b)) : Tells (m >>= fun _ => f) (t >>= g) := fun s => by
  rw [success_bind, success_bind, h]
  cases success t s with
  | none => rfl
  | some p => exact hf p.1 p.2

theorem tells_bind {l : Reading ε σ β} {f : β → Reading ε σ Unit} {g : β → Reading ε σ α}
    (hf : ∀ b, Tells (f b) (g b)) : Tells (l >>= f) (l >>= g) := fun s => by
  rw [success_bind, success_bind]
  cases success l s with
  | none => rfl
  | some p => exact hf p.1 p.2

theorem Tells.pure {m : Reading ε σ Unit} {t : Reading ε σ β} (h : Tells m t) (f : β → α) :
    Tells m (t >>= fun b => Pure.pure (f b)) := fun s => by
  rw [success_bind, h]
  cases success t s with
  | none => rfl
  | some p => rfl

theorem Tells.assoc {l : Reading ε σ β} {f : β → Reading ε σ Unit} {g : Reading ε σ Unit}
    {t : Reading ε σ α} (h : Tells (l >>= fun b => f b >>= fun _ => g) t) :
    Tells ((l >>= f) >>= fun _ => g) t := fun s => by
  rw [← h s, success_bind, success_bind, success_bind, Option.bind_assoc]
  congr 1
  funext p
  exact (success_bind (f p.1) (fun _ => g) p.2).symm

theorem tells_ite {c : Prop} [Decidable c] {m l : Reading ε σ Unit} {t k : Reading ε σ α}
    (h : Tells m t) (h' : Tells l k) : Tells (if c then m else l) (if c then t else k) := by
  split
  next => exact h
  next => exact h'

theorem Tells.within {get : σ → τ} {set : τ → σ → σ} {err : ε → ε'} {m : Reading ε τ Unit}
    {t : Reading ε τ α} (h : Tells m t) : Tells (FileReading.within get set err m)
      (FileReading.within get set err t) := by
  intro s
  have hs := h ⟨s.file, get s.object⟩
  rw [success, success] at hs
  rw [success, success, FileReading.within, FileReading.within]
  cases hm : m ⟨s.file, get s.object⟩ with
  | mk r u =>
      cases ht : t ⟨s.file, get s.object⟩ with
      | mk r' u' =>
          rw [hm, ht] at hs
          cases r with
          | error e =>
              cases r' with
              | error e' => rfl
              | ok a => exact absurd hs (by simp)
          | ok x =>
              cases r' with
              | error e' => exact absurd hs (by simp)
              | ok a =>
                  obtain ⟨-, rfl⟩ := Prod.mk.inj (Option.some.inj hs)
                  rfl

end Ashe.TwoRuns
