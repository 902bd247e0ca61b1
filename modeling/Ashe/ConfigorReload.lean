import Ashe.ConfigorSteps

namespace Ashe.ConfigorReload

open ConfigorText Fuel ConfigorSteps

def isBlank (c : Char) : Bool := c == ' ' || c == '\t'

/-- A line has text when a character other than the blanks stands in it, and
the first such character does not begin a comment. -/
def HasText (line : Text) : Prop := ∃ c rest, line.dropWhile isBlank = c :: rest ∧ c ≠ '#'

/-- Two objects that read the file, whatever they held before, hold the same
tree afterwards. -/
def DependsOnFile (file : Text) : Prop :=
  ∀ c c' r r', Yields (fun fuel => reloadFile fuel c (some file)) (r, true) →
    Yields (fun fuel => reloadFile fuel c' (some file)) (r', true) → r.root = r'.root

/-- Blanks and comments are left out, and leave the line outside of a string. -/
theorem preprocessLine_blank {line : Text} (h : ¬ HasText line) :
    preprocessLine unquoted line = ([], unquoted) := by
  induction line with
  | nil => rfl
  | cons c line ih =>
      rw [preprocessLine]
      by_cases hb : isBlank c
      · have hskip : ((!unquoted.isstring && (c == ' ' || c == '\t')) = true) := hb
        rw [if_pos hskip]
        apply ih
        rintro ⟨d, rest, hd, hne⟩
        exact h ⟨d, rest, by rw [List.dropWhile_cons_of_pos hb, hd], hne⟩
      · have hskip : ¬ ((!unquoted.isstring && (c == ' ' || c == '\t')) = true) := hb
        have hc : c = '#' := by
          by_contra hne
          exact h ⟨c, line, List.dropWhile_cons_of_neg hb, hne⟩
        rw [if_neg hskip, hc]
        rfl

theorem preprocessLine_text {line : Text} (h : HasText line) :
    (preprocessLine unquoted line).1 ≠ [] := by
  induction line with
  | nil =>
      obtain ⟨c, rest, hc, -⟩ := h
      exact absurd hc (by simp)
  | cons c line ih =>
      obtain ⟨d, rest, hd, hne⟩ := h
      rw [preprocessLine]
      by_cases hb : isBlank c
      · have hskip : ((!unquoted.isstring && (c == ' ' || c == '\t')) = true) := hb
        rw [if_pos hskip]
        rw [List.dropWhile_cons_of_pos hb] at hd
        exact ih ⟨d, rest, hd, hne⟩
      · have hskip : ¬ ((!unquoted.isstring && (c == ' ' || c == '\t')) = true) := hb
        rw [List.dropWhile_cons_of_neg hb] at hd
        obtain ⟨rfl, -⟩ := List.cons.inj hd
        rw [if_neg hskip, if_neg (by simp [hne])]
        simp

theorem preprocessLines_eq_nil_iff (lines : List Text) :
    preprocessLines unquoted lines = [] ↔ ∀ line ∈ lines, ¬ HasText line := by
  induction lines with
  | nil => simp [preprocessLines]
  | cons line lines ih =>
      rw [List.forall_mem_cons, ← ih, preprocessLines]
      by_cases h : HasText line
      · have hne := preprocessLine_text h
        simp [h, hne]
      · rw [preprocessLine_blank h]
        simp [h, unquoted]

theorem preprocess_eq_nil_iff (file : Text) :
    preprocess file = [] ↔ ∀ line ∈ getlines file, ¬ HasText line :=
  preprocessLines_eq_nil_iff (getlines file)

/-- The tree that parse leaves is a matter of the tokens alone. -/
theorem parse_root {c c' r r' : Configor} (ht : c.tokens = c'.tokens)
    (h : Yields (fun fuel => parse fuel c) r) (h' : Yields (fun fuel => parse fuel c') r') :
    r.root = r'.root := by
  obtain ⟨fuel, h⟩ := h
  obtain ⟨fuel', h'⟩ := h'
  dsimp only at h h'
  rw [parse] at h h'
  rw [← ht] at h'
  split at h
  next hpos =>
    rw [if_pos hpos] at h'
    obtain ⟨x, hx, h⟩ := Option.bind_eq_some_iff.mp h
    obtain ⟨x', hx', h'⟩ := Option.bind_eq_some_iff.mp h'
    have hsame : x = x' := (parseVars_steady 0 []).unique ⟨fuel, hx⟩ ⟨fuel', hx'⟩
    obtain rfl := Option.some.inj h
    obtain rfl := Option.some.inj h'
    rw [hsame]
  next hzero =>
    rw [if_neg hzero] at h'
    obtain rfl := Option.some.inj h
    obtain rfl := Option.some.inj h'
    rfl

theorem reloadFile_true {c r : Configor} {file : Text}
    (h : Yields (fun fuel => reloadFile fuel c (some file)) (r, true)) :
    Yields (fun fuel => readText fuel c file) r := by
  obtain ⟨fuel, h⟩ := h
  dsimp only at h
  rw [reloadFile] at h
  split at h
  next => exact absurd h (by simp)
  next =>
    obtain ⟨x, hx, h⟩ := Option.bind_eq_some_iff.mp h
    obtain rfl := (Prod.mk.inj (Option.some.inj h)).1
    exact ⟨fuel, hx⟩

theorem reloadFile_empty {file : Text} (h : preprocess file = []) (root : List Element) :
    Yields (fun fuel => reloadFile fuel ⟨['a'], [], [], 0, root⟩ (some file))
      (⟨['a'], [], [], 0, root⟩, true) := by
  refine ⟨0, ?_⟩
  simp [reloadFile, readText, h]

/-- A file without text is not parsed, and the old tree stays. With text on one
line the old tree is dropped, and the new one comes from the tokens. -/
theorem reload_dependsOnFile_iff (file : Text) :
    DependsOnFile file ↔ ∃ line ∈ getlines file, HasText line := by
  have hnil : preprocess file ≠ [] ↔ ∃ line ∈ getlines file, HasText line := by
    rw [Ne, preprocess_eq_nil_iff]
    simp
  rw [← hnil]
  constructor
  · intro hdep hempty
    have hroot := hdep _ _ _ _ (reloadFile_empty hempty [])
      (reloadFile_empty hempty [⟨['a'], [['1']], []⟩])
    exact absurd hroot (by simp)
  · intro hne c c' r r' h h'
    have hparse := reloadFile_true h
    have hparse' := reloadFile_true h'
    simp only [readText, if_pos hne] at hparse hparse'
    refine parse_root ?_ hparse hparse'
    rfl

/-- A comment leaves each of two different trees where it was. -/
theorem comment_keeps_tree : ¬ ∀ file, DependsOnFile file := by
  intro h
  have hempty : preprocess ['#', 'a'] = [] := by decide
  have hroot := h ['#', 'a'] _ _ _ _ (reloadFile_empty hempty [])
    (reloadFile_empty hempty [⟨['a'], [['1']], []⟩])
  exact absurd hroot (by simp)

end Ashe.ConfigorReload
