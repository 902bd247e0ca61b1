import Mathlib.Data.List.Basic

namespace Ashe.Occurrences

variable {α : Type}

def startsWith (eq : α → α → Bool) : List α → List α → Bool
  | [], _ => true
  | _ :: _, [] => false
  | p :: pattern, c :: text => eq c p && startsWith eq pattern text

section

variable (eq : α → α → Bool) (pattern : List α)

def place : List α → Option Nat
  | [] => if pattern.isEmpty then some 0 else none
  | c :: text =>
      if startsWith eq pattern (c :: text) then some 0 else (place text).map (· + 1)

/-- The parts between the occurrences, and how many characters are left of the
occurrence that the text begins in. -/
def cuts : Nat → List α → List (List α)
  | _, [] => [[]]
  | n + 1, _ :: text => cuts n text
  | 0, c :: text =>
      if startsWith eq pattern (c :: text) then [] :: cuts (pattern.length - 1) text
      else (cuts 0 text).modifyHead (c :: ·)

/-- The parts of a text between its leftmost occurrences of the pattern that do
not overlap. -/
def pieces (text : List α) : List (List α) := cuts eq pattern 0 text

def replaceAll (new text : List α) : List α := new.intercalate (pieces eq pattern text)

end

section

variable {eq : α → α → Bool} {pattern text : List α}

theorem startsWith_length (h : startsWith eq pattern text) : pattern.length ≤ text.length := by
  induction pattern generalizing text with
  | nil => exact Nat.zero_le _
  | cons p pattern ih =>
      cases text with
      | nil => exact absurd h (by simp [startsWith])
      | cons c text => exact Nat.succ_le_succ (ih (Bool.and_eq_true_iff.mp h).2)

theorem startsWith_inside (hne : pattern ≠ []) {i : Nat} (h : startsWith eq pattern (text.drop i)) :
    i < text.length := by
  have hlen := startsWith_length h
  have hpos := List.length_pos_iff.mpr hne
  rw [List.length_drop] at hlen
  omega

theorem place_some_iff (hne : pattern ≠ []) {i : Nat} : place eq pattern text = some i ↔
    startsWith eq pattern (text.drop i) ∧ ∀ j < i, ¬ startsWith eq pattern (text.drop j) := by
  induction text generalizing i with
  | nil =>
      obtain ⟨p, pattern, rfl⟩ := List.exists_cons_of_ne_nil hne
      simp [place, startsWith]
  | cons c text ih =>
      rw [place]
      split
      next h =>
        constructor
        · intro hi
          obtain rfl := Option.some.inj hi
          exact ⟨h, fun j hj => absurd hj (Nat.not_lt_zero j)⟩
        · rintro ⟨-, hmin⟩
          cases i with
          | zero => rfl
          | succ i => exact absurd h (hmin 0 (Nat.succ_pos i))
      next h =>
        cases i with
        | zero =>
            constructor
            · intro hi
              obtain ⟨j, -, hj⟩ := Option.map_eq_some_iff.mp hi
              exact absurd hj (Nat.succ_ne_zero j)
            · exact fun hi => absurd hi.1 h
        | succ i =>
            have hmap : (place eq pattern text).map (· + 1) = some (i + 1) ↔
                place eq pattern text = some i := by simp
            rw [hmap, ih]
            refine and_congr_right fun _ => ⟨fun hmin j hj => ?_, fun hmin j hj => ?_⟩
            · cases j with
              | zero => exact h
              | succ j => exact hmin j (Nat.lt_of_succ_lt_succ hj)
            · exact hmin (j + 1) (Nat.succ_lt_succ hj)

theorem place_none_iff (hne : pattern ≠ []) : place eq pattern text = none ↔
    ∀ i, ¬ startsWith eq pattern (text.drop i) := by
  induction text with
  | nil =>
      obtain ⟨p, pattern, rfl⟩ := List.exists_cons_of_ne_nil hne
      simp [place, startsWith]
  | cons c text ih =>
      rw [place]
      split
      next h => exact ⟨fun hn => absurd hn (by simp), fun hn => absurd h (hn 0)⟩
      next h =>
        rw [Option.map_eq_none_iff, ih]
        refine ⟨fun hn i => ?_, fun hn i => hn (i + 1)⟩
        cases i with
        | zero => exact h
        | succ i => exact hn i

theorem place_lt (hne : pattern ≠ []) {i : Nat} (h : place eq pattern text = some i) :
    i + pattern.length ≤ text.length := by
  have hstart := ((place_some_iff hne).mp h).1
  have hinside := startsWith_inside hne hstart
  have hlen := startsWith_length hstart
  rw [List.length_drop] at hlen
  omega

theorem cuts_drop (n : Nat) : cuts eq pattern n text = pieces eq pattern (text.drop n) := by
  induction text generalizing n with
  | nil => cases n <;> rfl
  | cons c text ih =>
      cases n with
      | zero => rfl
      | succ n => exact ih n

theorem pieces_none (hne : pattern ≠ []) (h : place eq pattern text = none) :
    pieces eq pattern text = [text] := by
  induction text with
  | nil => rfl
  | cons c text ih =>
      have hnot := (place_none_iff hne).mp h
      have hrest : place eq pattern text = none :=
        (place_none_iff hne).mpr fun i => hnot (i + 1)
      have hstart : ¬ startsWith eq pattern (c :: text) := hnot 0
      have hpieces := ih hrest
      rw [pieces] at hpieces
      rw [pieces, cuts, if_neg hstart, hpieces]
      rfl

theorem pieces_some (hne : pattern ≠ []) {i : Nat} (h : place eq pattern text = some i) :
    pieces eq pattern text =
      text.take i :: pieces eq pattern (text.drop (i + pattern.length)) := by
  induction text generalizing i with
  | nil =>
      obtain ⟨p, pattern, rfl⟩ := List.exists_cons_of_ne_nil hne
      exact absurd h (by simp [place])
  | cons c text ih =>
      rw [place] at h
      split at h
      next hstart =>
        obtain rfl := Option.some.inj h
        have hpos := List.length_pos_iff.mpr hne
        have hdrop : (c :: text).drop (0 + pattern.length) = text.drop (pattern.length - 1) := by
          rw [Nat.zero_add, ← Nat.sub_add_cancel hpos, List.drop_succ_cons, Nat.add_sub_cancel]
        rw [pieces, cuts, if_pos hstart, cuts_drop, hdrop, List.take_zero]
      next hstart =>
        obtain ⟨j, hj, rfl⟩ := Option.map_eq_some_iff.mp h
        have hpieces := ih hj
        rw [pieces] at hpieces
        rw [pieces, cuts, if_neg hstart, hpieces, List.modifyHead_cons, List.take_succ_cons,
          Nat.succ_add, List.drop_succ_cons]

/-- What holds of a text without an occurrence, and of a text when it holds of
what is behind the first one, holds of every text. -/
theorem pieces_induction (eq : α → α → Bool) {pattern : List α} (hne : pattern ≠ [])
    {motive : List α → Prop}
    (last : ∀ text, place eq pattern text = none → motive text)
    (more : ∀ text i, place eq pattern text = some i →
      motive (text.drop (i + pattern.length)) → motive text) (text : List α) : motive text := by
  induction hn : text.length using Nat.strongRecOn generalizing text with
  | _ n ih =>
      cases hplace : place eq pattern text with
      | none => exact last text hplace
      | some i =>
          refine more text i hplace (ih _ ?_ _ rfl)
          have hpos := List.length_pos_iff.mpr hne
          have hlt := place_lt hne hplace
          rw [List.length_drop]
          omega

theorem startsWith_append (more : List α) (h : startsWith eq pattern text) :
    startsWith eq pattern (text ++ more) := by
  induction pattern generalizing text with
  | nil => rfl
  | cons p pattern ih =>
      cases text with
      | nil => exact absurd h (by simp [startsWith])
      | cons c text =>
          obtain ⟨hc, htext⟩ := Bool.and_eq_true_iff.mp h
          exact Bool.and_eq_true_iff.mpr ⟨hc, ih htext⟩

theorem pieces_ne_nil (hne : pattern ≠ []) (text : List α) : pieces eq pattern text ≠ [] := by
  cases h : place eq pattern text with
  | none => rw [pieces_none hne h]; exact List.cons_ne_nil _ _
  | some i => rw [pieces_some hne h]; exact List.cons_ne_nil _ _

theorem replaceAll_none (hne : pattern ≠ []) (new : List α) (h : place eq pattern text = none) :
    replaceAll eq pattern new text = text := by
  rw [replaceAll, pieces_none hne h, List.intercalate_singleton]

theorem replaceAll_some (hne : pattern ≠ []) (new : List α) {i : Nat}
    (h : place eq pattern text = some i) : replaceAll eq pattern new text =
      text.take i ++ new ++ replaceAll eq pattern new (text.drop (i + pattern.length)) := by
  rw [replaceAll, pieces_some hne h, List.intercalate_cons_of_ne_nil (pieces_ne_nil hne _),
    ← replaceAll, List.append_assoc]

theorem replaceAll_cons (hne : pattern ≠ []) (new : List α) {c : α}
    (h : ¬ startsWith eq pattern (c :: text)) :
    replaceAll eq pattern new (c :: text) = c :: replaceAll eq pattern new text := by
  obtain ⟨t, rest, hpieces⟩ := List.exists_cons_of_ne_nil (@pieces_ne_nil _ eq _ hne text)
  rw [replaceAll, replaceAll, pieces, cuts, if_neg h, ← pieces, hpieces, List.modifyHead_cons]
  cases rest with
  | nil => rw [List.intercalate_singleton, List.intercalate_singleton]
  | cons u rest => rw [List.intercalate_cons_cons, List.intercalate_cons_cons]; rfl

theorem replaceAll_skip (hne : pattern ≠ []) (new : List α) {offset : Nat}
    (hbefore : ∀ i < offset, ¬ startsWith eq pattern (text.drop i)) :
    replaceAll eq pattern new text =
      text.take offset ++ replaceAll eq pattern new (text.drop offset) := by
  induction offset generalizing text with
  | zero => rfl
  | succ offset ih =>
      cases text with
      | nil => rw [List.take_nil, List.drop_nil, List.nil_append]
      | cons c text =>
          have hstart : ¬ startsWith eq pattern (c :: text) := hbefore 0 (Nat.succ_pos offset)
          have hrest := ih fun i hi => hbefore (i + 1) (Nat.succ_lt_succ hi)
          rw [replaceAll_cons hne new hstart, hrest]
          rfl

theorem place_piece (hne : pattern ≠ []) {t : List α} (ht : t ∈ pieces eq pattern text) :
    place eq pattern t = none := by
  induction text using pieces_induction eq hne with
  | last text h =>
      rw [pieces_none hne h, List.mem_singleton] at ht
      rw [ht, h]
  | more text i h ih =>
      rw [pieces_some hne h, List.mem_cons] at ht
      cases ht with
      | inl ht =>
          rw [ht, place_none_iff hne]
          intro j hj
          have hinside := startsWith_inside hne hj
          rw [List.length_take] at hinside
          have hearlier := startsWith_append (text.drop i) hj
          rw [← List.drop_append_of_le_length (by rw [List.length_take]; omega),
            List.take_append_drop] at hearlier
          exact ((place_some_iff hne).mp h).2 j (by omega) hearlier
      | inr ht => exact ih ht

end

end Ashe.Occurrences
