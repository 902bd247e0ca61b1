import Ashe.Base64
import Mathlib.Algebra.Group.Nat.Defs
import Mathlib.Data.List.GetD

namespace Ashe.Base64Padding

open Base64
open HexEncode (ascii)

def Padding (c : UInt8) : Prop := c = ascii '=' ∨ c = ascii '.'

instance (c : UInt8) : Decidable (Padding c) := inferInstanceAs (Decidable (_ ∨ _))

theorem unpadded_iff {t : List UInt8} {pos : Nat} :
    unpadded t pos ↔ pos < t.length ∧ ¬Padding (t.getD pos 0) := by
  rw [unpadded, Padding, not_or]

theorem padding_position : ∀ c, Padding c → getPosOfChar c = none := by decide +kernel

/-- The characters of a chunk that are looked up are characters of the alphabet. -/
def ChunkTaken (t : List UInt8) (pos : Nat) : Prop :=
  getPosOfChar (t.getD pos 0) ≠ none ∧ getPosOfChar (t.getD (pos + 1) 0) ≠ none ∧
    (unpadded t (pos + 2) → getPosOfChar (t.getD (pos + 2) 0) ≠ none ∧
      (unpadded t (pos + 3) → getPosOfChar (t.getD (pos + 3) 0) ≠ none))

/-- One turn of the loop: between one and three bytes for a chunk that is taken. -/
theorem decodeTurn_cases (t : List UInt8) (pos : Nat) :
    (¬ChunkTaken t pos ∧ decodeTurn t pos = none) ∨
    (ChunkTaken t pos ∧ ∃ b0 bytes, decodeTurn t pos = some (b0 :: bytes) ∧
      (bytes.length = 2 ↔ unpadded t (pos + 2) ∧ unpadded t (pos + 3))) := by
  unfold ChunkTaken decodeTurn
  cases getPosOfChar (t.getD (pos + 1) 0) with
  | none => exact .inl ⟨fun h => h.2.1 rfl, rfl⟩
  | some p1 =>
      cases getPosOfChar (t.getD pos 0) with
      | none => exact .inl ⟨fun h => h.1 rfl, rfl⟩
      | some p0 =>
          simp only [Option.bind_eq_bind, Option.bind_some]
          by_cases h2 : unpadded t (pos + 2)
          · rw [if_pos h2]
            cases getPosOfChar (t.getD (pos + 2) 0) with
            | none => exact .inl ⟨fun h => (h.2.2 h2).1 rfl, rfl⟩
            | some p2 =>
                simp only [Option.bind_some]
                by_cases h3 : unpadded t (pos + 3)
                · rw [if_pos h3]
                  cases getPosOfChar (t.getD (pos + 3) 0) with
                  | none => exact .inl ⟨fun h => (h.2.2 h2).2 h3 rfl, rfl⟩
                  | some p3 =>
                      refine .inr ⟨by simp, _, _, rfl, ?_⟩
                      simp [h2, h3]
                · rw [if_neg h3]
                  refine .inr ⟨⟨by simp, by simp, fun _ => ⟨by simp, fun h => absurd h h3⟩⟩, _, _,
                    rfl, ?_⟩
                  simp [h3]
          · rw [if_neg h2]
            refine .inr ⟨⟨by simp, by simp, fun h => absurd h h2⟩, _, _, rfl, ?_⟩
            simp [h2]

/-- The loop comes to the end of the text where every chunk is taken, and no chunk
leaves the bytes as they were. -/
theorem decodeLoop_taken (t : List UInt8) (pos : Nat) (ret : List UInt8) :
    (¬(∀ k, pos + 4 * k < t.length → ChunkTaken t (pos + 4 * k)) ∧
      decodeLoop t pos ret = none) ∨
    ((∀ k, pos + 4 * k < t.length → ChunkTaken t (pos + 4 * k)) ∧
      ∃ out, decodeLoop t pos ret = some out ∧ (pos < t.length → 0 < out.length) ∧
        ret.length ≤ out.length) := by
  induction pos, ret using decodeLoop.induct t with
  | case1 pos ret hlt ih =>
      rw [decodeLoop, if_pos hlt]
      rcases decodeTurn_cases t pos with ⟨hnot, hnone⟩ | ⟨htaken, b0, bytes, hturn, -⟩
      · rw [hnone]
        exact .inl ⟨fun h => hnot (h 0 hlt), rfl⟩
      · rw [hturn]
        simp only [Option.bind_eq_bind, Option.bind_some]
        have hall : (∀ k, pos + 4 * k < t.length → ChunkTaken t (pos + 4 * k)) ↔
            ∀ k, pos + 4 + 4 * k < t.length → ChunkTaken t (pos + 4 + 4 * k) := by
          constructor
          · intro h k hk
            have hnext := h (k + 1)
            rw [Nat.mul_succ, Nat.add_comm (4 * k), ← Nat.add_assoc] at hnext
            exact hnext hk
          · intro h k hk
            cases k with
            | zero => exact htaken
            | succ k =>
                rw [Nat.mul_succ, Nat.add_comm (4 * k), ← Nat.add_assoc] at hk ⊢
                exact h k hk
        rw [hall]
        rcases ih (b0 :: bytes) with hnone | ⟨hrest, out, hout, -, hlen⟩
        · exact .inl hnone
        · rw [List.length_append, List.length_cons] at hlen
          exact .inr ⟨hrest, out, hout, fun _ => by omega, by omega⟩
  | case2 pos ret hend =>
      rw [decodeLoop, if_neg hend]
      exact .inr ⟨fun k hk => absurd hk (by omega), ret, rfl, fun h => absurd h hend, Nat.le_refl _⟩

def withoutBreaks (s : List UInt8) (removeLinebreaks : Bool) : List UInt8 :=
  if removeLinebreaks then s.filter (· ≠ ascii '\n') else s

theorem decodeText_taken (t : List UInt8) :
    (decodeText t = none ∧ ¬(t ≠ [] ∧ ∀ k, 4 * k < t.length → ChunkTaken t (4 * k))) ∨
    (∃ out, decodeText t = some out ∧ 0 < out.length ∧
      (t ≠ [] ∧ ∀ k, 4 * k < t.length → ChunkTaken t (4 * k))) := by
  rw [decodeText]
  split
  next hnil => exact .inl ⟨rfl, fun h => h.1 hnil⟩
  next hne =>
    have hpos := List.length_pos_iff.mpr hne
    rcases decodeLoop_taken t 0 [] with ⟨hnot, hnone⟩ | ⟨hall, out, hout, hlen, -⟩
    · refine .inl ⟨hnone, fun h => hnot fun k hk => ?_⟩
      rw [Nat.zero_add] at hk ⊢
      exact h.2 k hk
    · refine .inr ⟨out, hout, hlen hpos, hne, fun k hk => ?_⟩
      have htaken := hall k
      rw [Nat.zero_add] at htaken
      exact htaken hk

theorem decodeFlag_taken (s : List UInt8) (removeLinebreaks : Bool) :
    decodeFlag s removeLinebreaks ≠ none ↔ withoutBreaks s removeLinebreaks ≠ [] ∧
      ∀ k, 4 * k < (withoutBreaks s removeLinebreaks).length →
        ChunkTaken (withoutBreaks s removeLinebreaks) (4 * k) := by
  rw [decodeFlag, withoutBreaks]
  split
  next hnil =>
    rw [hnil]
    simp
  next =>
    cases removeLinebreaks with
    | false =>
        simp only [Bool.false_eq_true, if_false]
        rcases decodeText_taken s with ⟨hnone, hnot⟩ | ⟨out, hout, -, htaken⟩
        · simp [hnone, hnot]
        · simp only [hout, ne_eq, reduceCtorEq, not_false_eq_true, true_iff]
          exact htaken
    | true =>
        simp only [if_true]
        rcases decodeText_taken (s.filter (· ≠ ascii '\n')) with
          ⟨hnone, hnot⟩ | ⟨out, hout, hlen, htaken⟩
        · simp only [hnone, Option.getD_none, List.length_nil, Nat.lt_irrefl, if_false, ne_eq,
            not_true_eq_false, false_iff]
          exact hnot
        · simp only [hout, Option.getD_some, if_pos hlen, ne_eq, reduceCtorEq, not_false_eq_true,
            true_iff]
          exact htaken

/-- Padding is the last one or two characters, and each chunk before the last one
contributes three bytes. -/
def PaddedAtEnd (t : List UInt8) : Prop :=
  (∃ body padding, t = body ++ padding ∧ padding.length ≤ 2 ∧ (∀ c ∈ body, ¬Padding c) ∧
    ∀ c ∈ padding, Padding c) ∧
  ∀ k, 4 * k + 4 < t.length → ∃ b0 b1 b2, decodeTurn t (4 * k) = some [b0, b1, b2]

/-- No chunk before the last one goes without its third or fourth character, and in the
last one nothing but padding follows a padded third. -/
def PaddedLast (t : List UInt8) : Prop :=
  (∀ k, 4 * k + 4 < t.length → unpadded t (4 * k + 2) ∧ unpadded t (4 * k + 3)) ∧
    ∀ k, 4 * k + 4 = t.length → Padding (t.getD (4 * k + 2) 0) → Padding (t.getD (4 * k + 3) 0)

variable {t : List UInt8}

/-- A text of a part without padding and a padded part, by the place of the cut. -/
theorem padded_cut_iff :
    (∃ body padding, t = body ++ padding ∧ padding.length ≤ 2 ∧ (∀ c ∈ body, ¬Padding c) ∧
      ∀ c ∈ padding, Padding c) ↔
    ∃ i, i ≤ t.length ∧ t.length ≤ i + 2 ∧ (∀ j < i, ¬Padding (t.getD j 0)) ∧
      ∀ j, i ≤ j → j < t.length → Padding (t.getD j 0) := by
  constructor
  · rintro ⟨body, padding, rfl, hlen, hbody, hpadding⟩
    refine ⟨body.length, by simp, by simpa using hlen, fun j hj => ?_, fun j hij hj => ?_⟩
    · rw [List.getD_append _ _ _ _ hj, List.getD_eq_getElem _ _ hj]
      exact hbody _ (List.getElem_mem hj)
    · rw [List.length_append] at hj
      have hj' : j - body.length < padding.length := by omega
      rw [List.getD_append_right _ _ _ _ hij, List.getD_eq_getElem _ _ hj']
      exact hpadding _ (List.getElem_mem hj')
  · rintro ⟨i, hi, hlen, hbody, hpadding⟩
    refine ⟨t.take i, t.drop i, (List.take_append_drop i t).symm, ?_, fun c hc => ?_,
      fun c hc => ?_⟩
    · rw [List.length_drop]
      omega
    · obtain ⟨j, hj, rfl⟩ := List.mem_take_iff_getElem.mp hc
      rw [← List.getD_eq_getElem t 0 (by omega)]
      exact hbody j (by omega)
    · obtain ⟨j, hj, rfl⟩ := List.mem_drop_iff_getElem.mp hc
      rw [← List.getD_eq_getElem t 0 (by omega)]
      exact hpadding (i + j) (by omega) (by omega)

theorem threeBytes_iff {pos : Nat} (h : ChunkTaken t pos) :
    (∃ b0 b1 b2, decodeTurn t pos = some [b0, b1, b2]) ↔
      unpadded t (pos + 2) ∧ unpadded t (pos + 3) := by
  rcases decodeTurn_cases t pos with ⟨hnot, -⟩ | ⟨-, b0, bytes, hturn, hlen⟩
  · exact absurd h hnot
  · rw [← hlen, hturn]
    constructor
    · rintro ⟨c0, c1, c2, heq⟩
      obtain ⟨-, rfl⟩ := List.cons.inj (Option.some.inj heq)
      rfl
    · intro htwo
      obtain ⟨b1, b2, rfl⟩ := List.length_eq_two.mp htwo
      exact ⟨b0, b1, b2, rfl⟩

theorem ChunkTaken.first_two {pos : Nat} (h : ChunkTaken t pos) :
    ¬Padding (t.getD pos 0) ∧ ¬Padding (t.getD (pos + 1) 0) ∧ pos + 1 < t.length := by
  refine ⟨fun hp => h.1 (padding_position _ hp), fun hp => h.2.1 (padding_position _ hp), ?_⟩
  by_contra hend
  have hnone := h.2.1
  rw [List.getD_eq_default _ _ (by omega)] at hnone
  exact hnone rfl

/-- The cut of a text whose chunks are all taken is in its last chunk. -/
theorem PaddedLast.cut (htaken : ∀ k, 4 * k < t.length → ChunkTaken t (4 * k))
    (hlast : PaddedLast t) {k : Nat} (hk : 4 * k < t.length) (hend : t.length ≤ 4 * k + 4) :
    ∃ i, i ≤ t.length ∧ t.length ≤ i + 2 ∧ (∀ j < i, ¬Padding (t.getD j 0)) ∧
      ∀ j, i ≤ j → j < t.length → Padding (t.getD j 0) := by
  obtain ⟨hinner, hthird⟩ := hlast
  have hbefore (j : Nat) (hj : j < 4 * k + 2) (hjt : j < t.length) : ¬Padding (t.getD j 0) := by
    have hstart := htaken (j / 4) (by omega)
    obtain ⟨h0, h1, -⟩ := hstart.first_two
    have hin := hinner (j / 4)
    obtain hj | hj | hj | hj : j = 4 * (j / 4) ∨ j = 4 * (j / 4) + 1 ∨ j = 4 * (j / 4) + 2 ∨
      j = 4 * (j / 4) + 3 := by omega
    · rwa [← hj] at h0
    · rwa [← hj] at h1
    · have hun := (hin (by omega)).1
      rw [← hj] at hun
      exact (unpadded_iff.mp hun).2
    · have hun := (hin (by omega)).2
      rw [← hj] at hun
      exact (unpadded_iff.mp hun).2
  obtain ⟨-, -, htwo⟩ := (htaken k hk).first_two
  obtain hlen | hthree : t.length = 4 * k + 2 ∨ 4 * k + 2 < t.length := by omega
  · exact ⟨t.length, Nat.le_refl _, by omega, fun j hj => hbefore j (by omega) hj,
      fun j hij hj => absurd hj (by omega)⟩
  · by_cases h2 : Padding (t.getD (4 * k + 2) 0)
    · refine ⟨4 * k + 2, by omega, by omega, fun j hj => hbefore j hj (by omega),
        fun j hij hj => ?_⟩
      obtain rfl | rfl : j = 4 * k + 2 ∨ j = 4 * k + 3 := by omega
      · exact h2
      · exact hthird k (by omega) h2
    · have hbody (j : Nat) (hj : j < 4 * k + 3) (hjt : j < t.length) :
          ¬Padding (t.getD j 0) := by
        obtain hj | rfl : j < 4 * k + 2 ∨ j = 4 * k + 2 := by omega
        · exact hbefore j hj hjt
        · exact h2
      by_cases h3 : 4 * k + 3 < t.length ∧ Padding (t.getD (4 * k + 3) 0)
      · refine ⟨4 * k + 3, by omega, by omega, fun j hj => hbody j hj (by omega),
          fun j hij hj => ?_⟩
        obtain rfl : j = 4 * k + 3 := by omega
        exact h3.2
      · refine ⟨t.length, Nat.le_refl _, by omega, fun j hj => ?_,
          fun j hij hj => absurd hj (by omega)⟩
        obtain hj' | rfl : j < 4 * k + 3 ∨ j = 4 * k + 3 := by omega
        · exact hbody j hj' hj
        · exact fun hp => h3 ⟨hj, hp⟩

theorem paddedAtEnd_iff (hne : t ≠ []) (htaken : ∀ k, 4 * k < t.length → ChunkTaken t (4 * k)) :
    PaddedAtEnd t ↔ PaddedLast t := by
  rw [PaddedAtEnd, padded_cut_iff]
  constructor
  · rintro ⟨⟨i, hi, hlen, hbody, hpadding⟩, hthree⟩
    refine ⟨fun k hk => (threeBytes_iff (htaken k (by omega))).mp (hthree k hk),
      fun k hk hp => ?_⟩
    have hcut : i ≤ 4 * k + 2 := Nat.le_of_not_lt fun hlt => hbody _ hlt hp
    exact hpadding (4 * k + 3) (by omega) (by omega)
  · intro hlast
    have hpos := List.length_pos_iff.mpr hne
    refine ⟨hlast.cut htaken (k := (t.length - 1) / 4) (by omega) (by omega), fun k hk => ?_⟩
    exact (threeBytes_iff (htaken k (by omega))).mpr (hlast.1 k hk)

/-- Where the decoding succeeds, padding is at the end only, just when some chunk is
not taken or no padding stands before the last chunk or inside of it. -/
theorem base64_padding (s : List UInt8) (removeLinebreaks : Bool) :
    (decodeFlag s removeLinebreaks ≠ none → PaddedAtEnd (withoutBreaks s removeLinebreaks)) ↔
      (∃ k, 4 * k < (withoutBreaks s removeLinebreaks).length ∧
        ¬ChunkTaken (withoutBreaks s removeLinebreaks) (4 * k)) ∨
      PaddedLast (withoutBreaks s removeLinebreaks) := by
  rw [decodeFlag_taken]
  by_cases hne : withoutBreaks s removeLinebreaks = []
  · rw [hne]
    exact ⟨fun _ => .inr ⟨fun k hk => absurd hk (by simp), fun k hk => absurd hk (by simp)⟩,
      fun _ h => absurd rfl h.1⟩
  · by_cases htaken : ∀ k, 4 * k < (withoutBreaks s removeLinebreaks).length →
        ChunkTaken (withoutBreaks s removeLinebreaks) (4 * k)
    · rw [← paddedAtEnd_iff hne htaken]
      constructor
      · exact fun h => .inr (h ⟨hne, htaken⟩)
      · rintro (⟨k, hk, hnot⟩ | h)
        · exact absurd (htaken k hk) hnot
        · exact fun _ => h
    · refine ⟨fun _ => .inl ?_, fun _ h => absurd h.2 htaken⟩
      simpa only [not_forall, exists_prop] using htaken

/-- The text "QQ==QQ==" decodes to two bytes. -/
theorem base64_padding_inside :
    ¬(decodeFlag ("QQ==QQ==".toList.map ascii) false ≠ none →
      PaddedAtEnd (withoutBreaks ("QQ==QQ==".toList.map ascii) false)) := by
  intro h
  have htaken : ∀ k, 4 * k < 8 → ChunkTaken ("QQ==QQ==".toList.map ascii) (4 * k) := by
    intro k hk
    obtain rfl | rfl : k = 0 ∨ k = 1 := by omega
    · exact ⟨by decide, by decide, fun h => absurd h (by decide)⟩
    · exact ⟨by decide, by decide, fun h => absurd h (by decide)⟩
  have hpadded := h ((decodeFlag_taken _ _).mpr ⟨by decide, htaken⟩)
  have hthree := (threeBytes_iff (htaken 0 (by decide))).mp (hpadded.2 0 (by decide))
  exact absurd hthree.1 (by decide)

end Ashe.Base64Padding
