import Ashe.ConfigorTokens

namespace Ashe.ConfigorScan

open ConfigorText ConfigorTokens

def skipped (q : Quotes) (c : Char) : Bool := !q.isstring && (c == ' ' || c == '\t')

def after (q : Quotes) (c : Char) : Quotes := if skipped q c then q else (testString q c).2

def taken (q : Quotes) (c : Char) : Text :=
  if skipped q c || (testString q c).1 || c == '\n' then [] else [c]

def finished (token : Text) : List Text := if cut token = [] then [] else [cut token]

/-- The tokens of a line once the preprocessor has gone over it. The token that
is being read and the quotes are what the text before the line leaves. -/
def scan (q : Quotes) (token line : Text) : List Text :=
  tokenizeFrom q token (preprocessLine q line).1

theorem testString_masked {q : Quotes} {c : Char} (h : (testString q c).1 = true) : c = '\\' := by
  rw [testString] at h
  by_cases hc : c = '\\'
  · exact hc
  · simp [hc] at h

theorem delimeter_plain {c : Char} (h : delimeter c) :
    (c == ' ' || c == '\t') = false ∧ c ≠ '\\' ∧ c ≠ '#' ∧ c ≠ '"' := by
  simp only [delimeter, List.mem_cons, List.not_mem_nil, or_false, decide_eq_true_eq] at h
  obtain rfl | rfl | rfl | rfl | rfl | rfl | rfl := h <;> decide

theorem taken_sublist (q : Quotes) (c : Char) : (taken q c).Sublist [c] := by
  rw [taken]
  split
  · exact List.nil_sublist _
  · exact List.Sublist.refl _

theorem scan_cons (q : Quotes) (token : Text) (c : Char) (line : Text) :
    scan q token (c :: line) =
      if !q.isstring && c == '#' then []
      else if !(after q c).isstring && delimeter c then
        finished token ++ [c] :: scan (after q c) [] line
      else scan (after q c) (token ++ taken q c) line := by
  rw [scan, preprocessLine]
  by_cases hs : skipped q c
  · have hspace : (c == ' ' || c == '\t') = true := (Bool.and_eq_true_iff.mp hs).2
    have hd : delimeter c = false := by
      rw [Bool.eq_false_iff]
      intro hd
      exact absurd (hspace.symm.trans (delimeter_plain hd).1) (by decide)
    have hc : (c == '#') = false := by
      obtain h | h := Bool.or_eq_true_iff.mp hspace <;> rw [beq_iff_eq.mp h] <;> rfl
    rw [skipped] at hs
    simp [hs, hd, hc, after, taken, skipped, scan]
  · have hs : skipped q c = false := by simpa using hs
    have hs' : (!q.isstring && (c == ' ' || c == '\t')) = false := hs
    rw [hs', if_neg (by decide)]
    by_cases hc : !q.isstring && c == '#'
    · rw [if_pos hc, if_pos hc]
      rfl
    · rw [if_neg hc, if_neg hc]
      have hafter : after q c = (testString q c).2 := by rw [after, hs, if_neg (by decide)]
      rw [hafter]
      dsimp only
      rw [tokenizeFrom]
      by_cases hm : (testString q c).1 = true
      · obtain rfl := testString_masked hm
        simp [hm, taken, scan, delimeter]
      · by_cases hn : c = '\n'
        · subst hn
          simp [hm, taken, scan, delimeter]
        · simp only [Bool.not_eq_true] at hm
          have htaken : taken q c = [c] := by simp [taken, hs, hm, hn]
          simp only [hm, hn, if_false, Bool.false_eq_true, htaken]
          rfl

def weight (tokens : List Text) : Nat := tokens.flatten.length

theorem weight_cons (t : Text) (ts : List Text) : weight (t :: ts) = t.length + weight ts := by
  rw [weight, List.flatten_cons, List.length_append, weight]

theorem weight_append (ts us : List Text) : weight (ts ++ us) = weight ts + weight us := by
  rw [weight, List.flatten_append, List.length_append, weight, weight]

theorem cut_length (token : Text) : (cut token).length ≤ token.length := by
  rw [cut]
  split
  · rw [List.length_take, List.length_drop]
    omega
  · exact Nat.le_refl _

theorem weight_finished (token : Text) : weight (finished token) ≤ token.length := by
  rw [finished]
  split
  · exact Nat.zero_le _
  · have hcut := cut_length token
    rwa [weight_cons, weight, List.flatten_nil, List.length_nil, Nat.add_zero]

/-- The tokens have no more characters than the text they are read from. -/
theorem weight_scan (q : Quotes) (token line : Text) :
    weight (scan q token line) ≤ token.length + line.length := by
  induction line generalizing q token with
  | nil => exact Nat.zero_le _
  | cons c line ih =>
      rw [scan_cons, List.length_cons]
      split
      next => exact Nat.zero_le _
      next =>
        split
        next =>
          have hfinished := weight_finished token
          have hrest := ih (after q c) []
          rw [weight_append, weight_cons, List.length_singleton]
          rw [List.length_nil] at hrest
          omega
        next =>
          have htaken := (taken_sublist q c).length_le
          have hrest := ih (after q c) (token ++ taken q c)
          rw [List.length_append] at hrest
          rw [List.length_singleton] at htaken
          omega

/-- A text that is read without the end of a token or of the line, and what it
adds to the token. -/
inductive Passes : Quotes → Text → Text → Quotes → Prop
  | nil (q : Quotes) : Passes q [] [] q
  | cons {q q' : Quotes} {c : Char} {s t : Text} (hc : q.isstring = false → c ≠ '#')
      (hd : (after q c).isstring = false → delimeter c = false) (h : Passes (after q c) s t q') :
      Passes q (c :: s) (taken q c ++ t) q'

theorem Passes.sublist {q q' : Quotes} {s t : Text} (h : Passes q s t q') : t.Sublist s := by
  induction h with
  | nil => exact List.Sublist.refl _
  | @cons q q' c s t _ _ _ ih => exact (taken_sublist q c).append ih

theorem taken_delimeter (q : Quotes) {c : Char} (h : delimeter c) : taken q c = [c] := by
  obtain ⟨hspace, hm, -, -⟩ := delimeter_plain h
  have hskipped : skipped q c = false := by rw [skipped, hspace, Bool.and_false]
  have hmasked : (testString q c).1 = false := by
    rw [Bool.eq_false_iff]
    exact fun hc => hm (testString_masked hc)
  simp [taken, hskipped, hmasked, (isQuote_delimeter h).2]

theorem Passes.count_delimeter {q q' : Quotes} {s t : Text} (h : Passes q s t q') {d : Char}
    (hd : delimeter d) : t.count d = s.count d := by
  induction h with
  | nil => rfl
  | @cons q q' c s t _ _ _ ih =>
      rw [List.count_append, ih]
      by_cases hc : c = d
      · rw [hc, taken_delimeter q hd, List.count_singleton_self, List.count_cons_self,
          Nat.add_comm]
      · have htaken := (taken_sublist q c).count_le d
        rw [List.count_singleton, if_neg (by simpa using hc)] at htaken
        rw [List.count_cons_of_ne hc, Nat.le_zero.mp htaken, Nat.zero_add]

theorem taken_quote (q : Quotes) : taken q '"' = ['"'] := by
  have hs : skipped q '"' = false := Bool.and_false _
  have hm : (testString q '"').1 = false := by
    rw [Bool.eq_false_iff]
    exact fun h => absurd (testString_masked h) (by decide)
  simp [taken, hs, hm]

theorem Passes.quote {q q' : Quotes} {s t : Text} (h : Passes q (s ++ ['"']) t q') :
    ∃ u, t = u ++ ['"'] := by
  generalize hs : s ++ ['"'] = r at h
  induction h generalizing s with
  | nil => exact absurd hs (by simp)
  | @cons q q' c r t hc hd h ih =>
      cases s with
      | nil =>
          obtain ⟨rfl, rfl⟩ := List.cons_eq_cons.mp hs
          cases h with
          | nil => exact ⟨[], by rw [taken_quote]; rfl⟩
      | cons d s =>
          obtain ⟨rfl, hr⟩ := List.cons_eq_cons.mp hs
          obtain ⟨u, rfl⟩ := ih hr
          exact ⟨taken q d ++ u, (List.append_assoc _ _ _).symm⟩

/-- The first delimiter of a line, outside of a string, and the token before it. -/
theorem scan_passes (q : Quotes) (token line : Text) :
    scan q token line = [] ∨ ∃ s t q' d rest, line = s ++ d :: rest ∧ Passes q s t q' ∧
      delimeter d ∧ (after q' d).isstring = false ∧
      scan q token line = finished (token ++ t) ++ [d] :: scan (after q' d) [] rest := by
  induction line generalizing q token with
  | nil => exact .inl rfl
  | cons c line ih =>
      rw [scan_cons]
      split
      next => exact .inl rfl
      next hc =>
        have hc : q.isstring = false → c ≠ '#' := by
          intro hq hsharp
          exact hc (by simp [hq, hsharp])
        split
        next hd =>
          obtain ⟨hq, hd⟩ := Bool.and_eq_true_iff.mp hd
          refine .inr ⟨[], [], q, c, line, rfl, .nil q, hd, by simpa using hq, ?_⟩
          rw [List.append_nil]
        next hd =>
          have hd : (after q c).isstring = false → delimeter c = false := by
            intro hq
            simpa [hq] using hd
          obtain h | ⟨s, t, q', d, rest, rfl, hp, hdel, hq', h⟩ :=
            ih (after q c) (token ++ taken q c)
          · exact .inl h
          · refine .inr ⟨c :: s, taken q c ++ t, q', d, rest, rfl, .cons hc hd hp, hdel, hq', ?_⟩
            rw [h, List.append_assoc]

/-- The newline that the preprocessor puts behind an open string. -/
theorem tokenizeFrom_newline (q : Quotes) (token input : Text) :
    tokenizeFrom q token (input ++ ['\n']) = tokenizeFrom q token input := by
  induction input generalizing q token with
  | nil =>
      have hm : ¬ (testString q '\n').1 = true := fun h => absurd (testString_masked h) (by decide)
      simp [tokenizeFrom, hm]
  | cons c input ih =>
      rw [List.cons_append, tokenizeFrom, tokenizeFrom]
      simp only [ih]

end Ashe.ConfigorScan
