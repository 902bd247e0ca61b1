import Ashe.ConfigorText

namespace Ashe.ConfigorTokens

open ConfigorText

def quoted : Quotes := ⟨true, false⟩

def isQuote (c : Char) : Bool := c == '"' || c == '\''

theorem testString_unquoted {c : Char} (h : isQuote c = false) :
    testString unquoted c = (false, unquoted) := by
  rw [isQuote] at h
  simp [testString, unquoted, h]

theorem testString_quoted {c : Char} (h : isQuote c = false) (hm : c ≠ '\\') :
    testString quoted c = (false, quoted) := by
  rw [isQuote] at h
  simp [testString, quoted, h, hm]

theorem testString_open : testString unquoted '"' = (false, quoted) := rfl

theorem testString_close : testString quoted '"' = (false, unquoted) := rfl

/-- A text of which the preprocessor leaves another one, on one line and
outside of a string before and after it. -/
def Strips (s s' : Text) : Prop :=
  '\n' ∉ s ∧ ∀ rest, preprocessLine unquoted (s ++ rest) =
    (s' ++ (preprocessLine unquoted rest).1, (preprocessLine unquoted rest).2)

theorem Strips.append {s s' t t' : Text} (h : Strips s s') (h' : Strips t t') :
    Strips (s ++ t) (s' ++ t') := by
  refine ⟨fun hm => (List.mem_append.mp hm).elim h.1 h'.1, fun rest => ?_⟩
  rw [List.append_assoc, h.2, h'.2, List.append_assoc]

theorem Strips.nil : Strips [] [] := ⟨List.not_mem_nil, fun _ => rfl⟩

theorem strips_space : Strips [' '] [] := ⟨by decide, fun _ => rfl⟩

theorem strips_spaces (n : Nat) : Strips (spaces n) [] := by
  induction n with
  | zero => exact .nil
  | succ n ih => exact strips_space.append ih

def isBare (c : Char) : Bool :=
  !(c == ' ' || c == '\t' || c == '#' || c == '\n' || isQuote c)

theorem strips_bare {c : Char} (h : isBare c) : Strips [c] [c] := by
  simp only [isBare, Bool.not_eq_true', Bool.or_eq_false_iff] at h
  have hn : c ≠ '\n' := by simpa using h.1.2
  refine ⟨by rw [List.mem_singleton]; exact Ne.symm hn, fun rest => ?_⟩
  rw [List.singleton_append, preprocessLine, testString_unquoted h.2]
  simp [unquoted, h]

theorem strips_word {s : Text} (h : ∀ c ∈ s, isBare c) : Strips s s := by
  induction s with
  | nil => exact .nil
  | cons c s ih =>
      exact (strips_bare (h c (.head s))).append (ih fun d hd => h d (.tail c hd))

def isInner (c : Char) : Bool := !(c == '\n' || c == '\\' || isQuote c)

theorem isInner_iff {c : Char} : isInner c ↔ c ≠ '\n' ∧ c ≠ '\\' ∧ isQuote c = false := by
  simp [isInner, and_assoc]

theorem preprocessLine_string {s : Text} (h : ∀ c ∈ s, isInner c) (rest : Text) :
    preprocessLine quoted (s ++ '"' :: rest) =
      (s ++ '"' :: (preprocessLine unquoted rest).1, (preprocessLine unquoted rest).2) := by
  induction s with
  | nil => rfl
  | cons c s ih =>
      have hc := isInner_iff.mp (h c (.head s))
      rw [List.cons_append, preprocessLine, testString_quoted hc.2.2 hc.2.1,
        ih fun d hd => h d (.tail c hd)]
      rfl

theorem strips_string {s : Text} (h : ∀ c ∈ s, isInner c) :
    Strips ('"' :: s ++ ['"']) ('"' :: s ++ ['"']) := by
  constructor
  · have hs : '\n' ∉ s := fun hm => (isInner_iff.mp (h _ hm)).1 rfl
    simp [hs]
  · intro rest
    have hl := preprocessLine_string h rest
    rw [show '"' :: s ++ ['"'] ++ rest = '"' :: (s ++ '"' :: rest) by simp, preprocessLine,
      testString_open]
    simp [unquoted, hl]

def Reduces (s s' : Text) : Prop :=
  ∀ rest, preprocess (s ++ rest) = s' ++ preprocess rest

theorem Reduces.append {s s' t t' : Text} (h : Reduces s s') (h' : Reduces t t') :
    Reduces (s ++ t) (s' ++ t') := by
  intro rest
  rw [List.append_assoc, h, h', List.append_assoc]

theorem Reduces.nil : Reduces [] [] := fun _ => rfl

theorem getlines_line {s : Text} (h : '\n' ∉ s) (rest : Text) :
    getlines (s ++ '\n' :: rest) = s :: getlines rest := by
  induction s with
  | nil => rfl
  | cons c s ih =>
      rw [List.mem_cons, not_or] at h
      obtain ⟨hc, hs⟩ := h
      rw [List.cons_append, getlines, if_neg (Ne.symm hc), ih hs]

theorem Strips.line {s s' : Text} (h : Strips s s') : Reduces (s ++ ['\n']) s' := by
  intro rest
  have hl := h.2 []
  rw [List.append_nil] at hl
  rw [List.append_assoc, List.singleton_append, preprocess, getlines_line h.1, preprocessLines, hl]
  simp [preprocessLine, preprocess, unquoted]

/-- A text that is cut into tokens, with nothing left over before what follows. -/
def Lexes (s : Text) (tokens : List Text) : Prop :=
  ∀ rest, tokenizeFrom unquoted [] (s ++ rest) = tokens ++ tokenizeFrom unquoted [] rest

theorem Lexes.append {s t : Text} {ss ts : List Text} (h : Lexes s ss) (h' : Lexes t ts) :
    Lexes (s ++ t) (ss ++ ts) := by
  intro rest
  rw [List.append_assoc, h, h', List.append_assoc]

theorem Lexes.nil : Lexes [] [] := fun _ => rfl

theorem isQuote_delimeter {c : Char} (h : delimeter c) : isQuote c = false ∧ c ≠ '\n' := by
  simp only [delimeter, List.mem_cons, List.not_mem_nil, or_false, decide_eq_true_eq] at h
  obtain rfl | rfl | rfl | rfl | rfl | rfl | rfl := h <;> exact ⟨rfl, by decide⟩

theorem tokenizeFrom_delimeter {c : Char} (h : delimeter c) (token rest : Text) :
    tokenizeFrom unquoted token (c :: rest) =
      (if cut token = [] then [] else [cut token]) ++ [c] :: tokenizeFrom unquoted [] rest := by
  obtain ⟨hq, hn⟩ := isQuote_delimeter h
  rw [tokenizeFrom, testString_unquoted hq]
  simp [unquoted, h, hn]

theorem lexes_delimeter {c : Char} (h : delimeter c) : Lexes [c] [[c]] := by
  intro rest
  rw [List.singleton_append, tokenizeFrom_delimeter h]
  rfl

theorem tokenizeFrom_word {s : Text} (h : ∀ c ∈ s, isBare c ∧ delimeter c = false)
    (token rest : Text) :
    tokenizeFrom unquoted token (s ++ rest) = tokenizeFrom unquoted (token ++ s) rest := by
  induction s generalizing token with
  | nil => rw [List.append_nil]; rfl
  | cons c s ih =>
      obtain ⟨hb, hd⟩ := h c (.head s)
      simp only [isBare, Bool.not_eq_true', Bool.or_eq_false_iff] at hb
      have hn : c ≠ '\n' := by simpa using hb.1.2
      rw [List.cons_append, tokenizeFrom, testString_unquoted hb.2]
      simp only [hn, hd, if_false, Bool.false_eq_true, Bool.and_false]
      rw [ih fun d hd => h d (.tail c hd), List.append_assoc, List.singleton_append]

theorem cut_word {s : Text} (h : ∀ c ∈ s, isBare c) : cut s = s := by
  rw [cut, if_neg]
  rintro ⟨hs, -⟩
  have hq := h '"' (List.mem_of_mem_head? hs)
  exact absurd hq (by decide)

theorem lexes_word {s : Text} (hs : s ≠ []) (h : ∀ c ∈ s, isBare c ∧ delimeter c = false)
    {d : Char} (hd : delimeter d) : Lexes (s ++ [d]) [s, [d]] := by
  intro rest
  rw [List.append_assoc, tokenizeFrom_word h, List.nil_append, List.singleton_append,
    tokenizeFrom_delimeter hd, cut_word fun c hc => (h c hc).1, if_neg hs]
  rfl

theorem tokenizeFrom_string {s : Text} (h : ∀ c ∈ s, isInner c) (token rest : Text) :
    tokenizeFrom quoted token (s ++ '"' :: rest) =
      tokenizeFrom unquoted (token ++ s ++ ['"']) rest := by
  induction s generalizing token with
  | nil =>
      rw [List.nil_append, tokenizeFrom, testString_close, List.append_nil]
      rfl
  | cons c s ih =>
      obtain ⟨hn, hm, hq⟩ := isInner_iff.mp (h c (.head s))
      rw [List.cons_append, tokenizeFrom, testString_quoted hq hm]
      simp only [hn, if_false, Bool.false_eq_true, quoted, Bool.not_true, Bool.false_and]
      have hnext := ih (fun d hd => h d (.tail c hd)) (token ++ [c])
      rw [quoted] at hnext
      rw [hnext]
      simp

theorem cut_string (s : Text) : cut ('"' :: s ++ ['"']) = s := by
  rw [cut, if_pos ⟨rfl, List.getLast?_concat⟩]
  simp

theorem lexes_string {s : Text} (hs : s ≠ []) (h : ∀ c ∈ s, isInner c) {d : Char}
    (hd : delimeter d) : Lexes ('"' :: s ++ ['"'] ++ [d]) [s, [d]] := by
  intro rest
  rw [show '"' :: s ++ ['"'] ++ [d] ++ rest = '"' :: (s ++ '"' :: (d :: rest)) by simp,
    tokenizeFrom, testString_open]
  have hstring := tokenizeFrom_string h ['"'] (d :: rest)
  simp only [quoted] at hstring
  simp only [quoted, Bool.not_true, Bool.false_and, Bool.false_eq_true, if_false, List.nil_append,
    hstring, show ('"' : Char) ≠ '\n' by decide]
  rw [tokenizeFrom_delimeter hd, List.singleton_append, cut_string, if_neg hs]
  rfl

end Ashe.ConfigorTokens
