import Ashe.Base64RoundTrip
import Ashe.Fuel
import Mathlib.Algebra.Group.Nat.Defs

namespace Ashe.Base64Ends

open Base64 Base64RoundTrip Fuel

def turnPlaces (inLen : Nat) (pos : UInt32) : List Nat :=
  if (pos + 1).toNat < inLen then
    if (pos + 2).toNat < inLen then [pos.toNat, (pos + 1).toNat, (pos + 2).toNat]
    else [pos.toNat, (pos + 1).toNat]
  else [pos.toNat]

def placesLoop (inLen : Nat) : Nat → UInt32 → List Nat → Option (List Nat)
  | 0, _, _ => none
  | n + 1, pos, places =>
      if pos.toNat < inLen then placesLoop inLen n (pos + 3) (places ++ turnPlaces inLen pos)
      else some places

theorem encodeTurn_places (bytes : List UInt8) (inLen : Nat) (url : Bool) (pos : UInt32) :
    encodeTurn bytes inLen url pos =
      ((turnPlaces inLen pos).mapM fun i => bytes[i]?).map (encoded url) := by
  by_cases h1 : (pos + 1).toNat < inLen
  · by_cases h2 : (pos + 2).toNat < inLen
    · simp only [encodeTurn, turnPlaces, if_pos h1, if_pos h2, List.mapM_cons, List.mapM_nil]
      cases bytes[pos.toNat]? with
      | none => rfl
      | some b0 =>
          cases bytes[(pos + 1).toNat]? with
          | none => rfl
          | some b1 => cases bytes[(pos + 2).toNat]? <;> rfl
    · simp only [encodeTurn, turnPlaces, if_pos h1, if_neg h2, List.mapM_cons, List.mapM_nil]
      cases bytes[pos.toNat]? with
      | none => rfl
      | some b0 => cases bytes[(pos + 1).toNat]? <;> rfl
  · simp only [encodeTurn, turnPlaces, if_neg h1, List.mapM_cons, List.mapM_nil]
    cases bytes[pos.toNat]? <;> rfl

theorem turnPlaces_lt {inLen : Nat} {pos : UInt32} (hpos : pos.toNat < inLen) :
    ∀ i ∈ turnPlaces inLen pos, i < inLen := by
  rw [turnPlaces]
  split
  next h1 =>
    split
    next h2 =>
      exact List.forall_mem_cons.mpr ⟨hpos, List.forall_mem_cons.mpr ⟨h1,
        List.forall_mem_singleton.mpr h2⟩⟩
    next => exact List.forall_mem_cons.mpr ⟨hpos, List.forall_mem_singleton.mpr h1⟩
  next => exact List.forall_mem_singleton.mpr hpos

theorem mapM_bytes {bytes : List UInt8} {is : List Nat} (h : ∀ i ∈ is, i < bytes.length) :
    ∃ taken, (is.mapM fun i => bytes[i]?) = some taken := by
  induction is with
  | nil => exact ⟨[], rfl⟩
  | cons i is ih =>
      obtain ⟨hi, his⟩ := List.forall_mem_cons.mp h
      obtain ⟨taken, htaken⟩ := ih his
      refine ⟨bytes[i] :: taken, ?_⟩
      rw [List.mapM_cons, htaken, List.getElem?_eq_getElem hi]
      rfl

/-- The loop of Encode ends where the one over the places does. -/
theorem encodeLoop_isSome (bytes : List UInt8) (url : Bool) (n : Nat) (pos : UInt32)
    (ret : List UInt8) (places : List Nat) :
    (encodeLoop bytes bytes.length url n pos ret).isSome =
      (placesLoop bytes.length n pos places).isSome := by
  induction n generalizing pos ret places with
  | zero => rfl
  | succ n ih =>
      rw [encodeLoop, placesLoop]
      split
      next hpos =>
        obtain ⟨taken, htaken⟩ := mapM_bytes (turnPlaces_lt hpos)
        rw [encodeTurn_places, htaken]
        exact ih (pos + 3) (ret ++ encoded url taken) (places ++ turnPlaces bytes.length pos)
      next => rfl

theorem turnPlaces_range {inLen : Nat} {pos : UInt32} (hpos : pos.toNat < inLen)
    (hmod : pos.toNat % 3 = 0) (hlen : inLen < 2 ^ 32) :
    (pos + 3).toNat = pos.toNat + 3 ∧
      turnPlaces inLen pos = List.range' pos.toNat (min 3 (inLen - pos.toNat)) := by
  have hnext (k : UInt32) (hk : k.toNat ≤ 3) : (pos + k).toNat = pos.toNat + k.toNat := by
    rw [UInt32.toNat_add]
    exact Nat.mod_eq_of_lt (by omega)
  refine ⟨hnext 3 (by decide), ?_⟩
  rw [turnPlaces, hnext 1 (by decide), hnext 2 (by decide)]
  show (if pos.toNat + 1 < inLen then if pos.toNat + 2 < inLen then _ else _ else _) = _
  split
  next h1 =>
    split
    next h2 =>
      rw [Nat.min_eq_left (by omega)]
      rfl
    next h2 =>
      have htwo : inLen - pos.toNat = 2 := by omega
      rw [htwo]
      rfl
  next h1 =>
    have hone : inLen - pos.toNat = 1 := by omega
    rw [hone]
    rfl

theorem placesLoop_range {inLen : Nat} (hlen : inLen < 2 ^ 32) {n : Nat} {pos : UInt32}
    {places : List Nat} (hmod : pos.toNat % 3 = 0) (hn : inLen < n + pos.toNat) :
    placesLoop inLen (n + 1) pos places =
      some (places ++ List.range' pos.toNat (inLen - pos.toNat)) := by
  induction n generalizing pos places with
  | zero =>
      have hend : inLen - pos.toNat = 0 := by omega
      rw [placesLoop, if_neg (by omega), hend, List.range'_zero, List.append_nil]
  | succ n ih =>
      rw [placesLoop]
      split
      next hlt =>
        obtain ⟨hnext, hplaces⟩ := turnPlaces_range hlt hmod hlen
        rw [ih (by omega) (by omega), hplaces, hnext, List.append_assoc]
        obtain hthree | hfew : 3 ≤ inLen - pos.toNat ∨ inLen - pos.toNat < 3 := by omega
        · have hsplit : inLen - pos.toNat = 3 + (inLen - (pos.toNat + 3)) := by omega
          rw [Nat.min_eq_left hthree, hsplit, ← List.range'_append, Nat.one_mul]
        · have hrest : inLen - (pos.toNat + 3) = 0 := by omega
          rw [Nat.min_eq_right (Nat.le_of_lt hfew), hrest, List.range'_zero, List.append_nil]
      next hend =>
        have hnone : inLen - pos.toNat = 0 := by omega
        rw [hnone, List.range'_zero, List.append_nil]

theorem encodeLoop_long {bytes : List UInt8} (hlen : 2 ^ 32 ≤ bytes.length) (url : Bool) (n : Nat)
    (pos : UInt32) (ret : List UInt8) : encodeLoop bytes bytes.length url n pos ret = none := by
  induction n generalizing pos ret with
  | zero => rfl
  | succ n ih =>
      rw [encodeLoop, if_pos (Nat.lt_of_lt_of_le pos.toNat_lt hlen), Option.bind_eq_bind,
        Option.bind_eq_none_iff]
      exact fun chars _ => ih (pos + 3) (ret ++ chars)

/-- Encode ends, and its turns take every byte of the input once, in order. -/
def EncodesAll (s : List UInt8) (url : Bool) : Prop :=
  (Ends fun n => encode n s url) ∧
    Yields (fun n => placesLoop s.length n 0 []) (List.range s.length)

/-- Encode never ends on an input whose length needs more than 32 bits. -/
theorem not_encodesAll {s : List UInt8} (hlong : 2 ^ 32 ≤ s.length) (url : Bool) :
    ¬EncodesAll s url := by
  rintro ⟨hends, -⟩
  exact not_ends (fun n => encodeLoop_long hlong url n 0 []) hends

/-- Encode ends, and takes every byte once, just for the lengths of 32 bits. -/
theorem encodesAll_iff (s : List UInt8) (url : Bool) : EncodesAll s url ↔ s.length < 2 ^ 32 := by
  constructor
  · intro h
    by_contra hlong
    exact not_encodesAll (Nat.not_lt.mp hlong) url h
  · intro hlen
    have hrange := @placesLoop_range s.length hlen (s.length + 1) 0 [] rfl (by omega)
    rw [List.nil_append, UInt32.toNat_zero, Nat.sub_zero, ← List.range_eq_range'] at hrange
    have hsome := encodeLoop_isSome s url (s.length + 2) 0 [] []
    rw [hrange] at hsome
    obtain ⟨chars, hchars⟩ := Option.isSome_iff_exists.mp hsome
    exact ⟨⟨chars, s.length + 2, hchars⟩, s.length + 2, hrange⟩

/-- An input of four gigabytes. -/
theorem encodesAll_four_gigabytes : ¬EncodesAll (List.replicate (2 ^ 32) 0) false :=
  not_encodesAll (Nat.le_of_eq List.length_replicate.symm) false

end Ashe.Base64Ends
