import Ashe.ConfigorOrigins
import Ashe.ConfigorRoundTrip

namespace Ashe.ConfigorStrings

open ConfigorText Fuel ConfigorSteps ConfigorTokens ConfigorTrees ConfigorRoundTrip ConfigorScan
  ConfigorOrigins

def toggled (isstring : Bool) (c : Char) : Bool := if isQuote c then !isstring else isstring

/-- Inside of a string only a backslash is lost. Outside of it there are
only quotes and what stands for itself. -/
def stays (isstring : Bool) (c : Char) : Bool :=
  if isstring then c != '\\' else isQuote c || (isBare c && !delimeter c)

/-- A text that is read as it is, up to the quote that ends the string. -/
def keeps : Bool → Text → Bool
  | isstring, [] => isstring
  | isstring, c :: s => stays isstring c && keeps (toggled isstring c) s

theorem testString_plain {isstring : Bool} {c : Char} (h : isstring = true → c ≠ '\\') :
    testString ⟨isstring, false⟩ c = (false, ⟨toggled isstring c, false⟩) := by
  have hm : (isstring && c == '\\') = false := by
    cases isstring with
    | false => rfl
    | true => simpa using h rfl
  simp [testString, hm, toggled, isQuote]

theorem stays_plain {isstring : Bool} {c : Char} (h : stays isstring c) :
    isstring = true → c ≠ '\\' := by
  rintro rfl
  simpa [stays] using h

theorem stays_outside {c : Char} (h : stays false c) :
    (c == ' ' || c == '\t') = false ∧ (c == '#') = false ∧
      (toggled false c = false → delimeter c = false) := by
  have h : isQuote c = true ∨ (isBare c = true ∧ delimeter c = false) := by simpa [stays] using h
  obtain hq | ⟨hb, hd⟩ := h
  · have hc : c = '"' ∨ c = '\'' := by simpa [isQuote] using hq
    obtain rfl | rfl := hc <;> decide
  · simp only [isBare, Bool.not_eq_true', Bool.or_eq_false_iff] at hb
    exact ⟨by simp [hb], hb.1.1.2, fun _ => hd⟩

theorem preprocessLine_stays {isstring : Bool} {c : Char} (h : stays isstring c) (line : Text) :
    preprocessLine ⟨isstring, false⟩ (c :: line) =
      (c :: (preprocessLine ⟨toggled isstring c, false⟩ line).1,
        (preprocessLine ⟨toggled isstring c, false⟩ line).2) := by
  rw [preprocessLine, testString_plain (stays_plain h)]
  cases isstring with
  | true => rfl
  | false => simp [stays_outside h]

theorem tokenizeFrom_stays {isstring : Bool} {c : Char} (h : stays isstring c) (hn : c ≠ '\n')
    (token input : Text) : tokenizeFrom ⟨isstring, false⟩ token (c :: input) =
      tokenizeFrom ⟨toggled isstring c, false⟩ (token ++ [c]) input := by
  have hd : (!toggled isstring c && delimeter c) = false := by
    cases isstring with
    | false =>
        obtain ⟨-, -, hd⟩ := stays_outside h
        cases htoggled : toggled false c with
        | true => rfl
        | false => exact hd htoggled
    | true =>
        cases hq : isQuote c with
        | false => simp [toggled, hq]
        | true =>
            have hc : c = '"' ∨ c = '\'' := by simpa [isQuote] using hq
            obtain rfl | rfl := hc <;> decide
  rw [tokenizeFrom, testString_plain (stays_plain h)]
  simp [hn, hd]

theorem preprocessLine_keeps {isstring : Bool} {s : Text} (h : keeps isstring s) (rest : Text) :
    preprocessLine ⟨isstring, false⟩ (s ++ '"' :: rest) =
      (s ++ '"' :: (preprocessLine unquoted rest).1, (preprocessLine unquoted rest).2) := by
  induction s generalizing isstring with
  | nil =>
      obtain rfl : isstring = true := h
      rfl
  | cons c s ih =>
      obtain ⟨hc, hs⟩ := Bool.and_eq_true_iff.mp h
      rw [List.cons_append, preprocessLine_stays hc, ih hs]
      rfl

theorem tokenizeFrom_keeps {isstring : Bool} {s : Text} (h : keeps isstring s) (hn : '\n' ∉ s)
    (token rest : Text) : tokenizeFrom ⟨isstring, false⟩ token (s ++ '"' :: rest) =
      tokenizeFrom unquoted (token ++ s ++ ['"']) rest := by
  induction s generalizing isstring token with
  | nil =>
      obtain rfl : isstring = true := h
      rw [List.nil_append, List.append_nil, tokenizeFrom_stays rfl (by decide)]
      rfl
  | cons c s ih =>
      obtain ⟨hc, hs⟩ := Bool.and_eq_true_iff.mp h
      rw [List.mem_cons, not_or] at hn
      rw [List.cons_append, tokenizeFrom_stays hc (Ne.symm hn.1), ih hs hn.2]
      simp

theorem strips_keeps {s : Text} (h : keeps true s) (hn : '\n' ∉ s) :
    Strips ('"' :: s ++ ['"']) ('"' :: s ++ ['"']) := by
  refine ⟨by simp [hn], fun rest => ?_⟩
  have hs := preprocessLine_keeps h rest
  have hall := preprocessLine_stays (rfl : stays false '"' = true) (s ++ '"' :: rest)
  rw [show toggled false '"' = true from rfl, hs] at hall
  simpa [unquoted] using hall

theorem lexes_keeps {s : Text} (hs : s ≠ []) (h : keeps true s) (hn : '\n' ∉ s) {d : Char}
    (hd : delimeter d) : Lexes ('"' :: s ++ ['"'] ++ [d]) [s, [d]] := by
  intro rest
  have hstring := tokenizeFrom_keeps h hn ['"'] (d :: rest)
  have hall := tokenizeFrom_stays (rfl : stays false '"' = true) (by decide) []
    (s ++ '"' :: (d :: rest))
  rw [show toggled false '"' = true from rfl, List.nil_append, hstring,
    tokenizeFrom_delimeter hd, List.singleton_append, cut_string, if_neg hs] at hall
  simpa [unquoted] using hall

theorem newline_unprintable {v : Text} (h : ∀ c ∈ v, isPrintable c) : '\n' ∉ v :=
  fun hm => absurd (h _ hm) (by decide)

/-- A value is read as it is when the string it is written in is. -/
theorem spelled_keeps {v : Text} (hv : v ≠ []) (hp : ∀ c ∈ v, isPrintable c)
    (hk : keeps true v) : Spelled v := by
  have hnewline := newline_unprintable hp
  constructor
  · rw [writeValue]
    split
    next hnum => exact strips_word fun c hc => (isBare_of_numeric hnum c hc).1
    next => exact strips_keeps hk hnewline
  · intro d hd
    rw [stored_cons hv, writeValue]
    split
    next hnum => exact lexes_word hv (isBare_of_numeric hnum) hd
    next => exact lexes_keeps hv hk hnewline hd

theorem readable_single {name v : Text} (hn : IsName name) (hv : v ≠ []) (h : Spelled v)
    (ha : v ≠ ['[']) (ho : v ≠ ['{']) :
    ∃ text tokens, Readable ⟨name, [v], []⟩ text tokens [⟨name, [v], []⟩] [⟨name, [v], []⟩] := by
  have htokens : stored (leafTokens [v]) = [v, [';']] := stored_cons hv _
  have hwritten := written_items (by simp) (List.forall_mem_singleton.mpr h)
  rw [htokens] at hwritten
  exact ⟨_, _, readable_leaf hn.word hwritten (readsAs_single name ha ho)⟩

/-- A tree around an element: in it there are that element and elements of
which nothing is in question. -/
inductive Around (x : Element) : Element → Prop
  | here : Around x x
  | wellFormed {e : Element} (h : WellFormed e) : Around x e
  | children {name : Text} {children : List Element} (hn : IsName name) (hne : children ≠ [])
      (hc : ∀ e ∈ children, Around x e) : Around x ⟨name, [], children⟩

/-- Whatever is around the element, reading what save writes gives the saved tree. -/
def Survives (x : Element) : Prop :=
  ∀ c : Configor, (∀ e ∈ c.root, Around x e) →
    ∃ c', Yields (fun fuel => fromStream fuel (save c)) c' ∧ c'.root = c.root

theorem readableAll_exists {es : List Element}
    (h : ∀ e ∈ es, ∃ text tokens, Readable e text tokens [e] [e]) :
    ∃ text tokens, ReadableAll es text tokens es es := by
  induction es with
  | nil => exact ⟨_, _, .nil⟩
  | cons e es ih =>
      obtain ⟨text, tokens, he⟩ := h e (.head es)
      obtain ⟨rest, others, hes⟩ := ih fun f hf => h f (.tail e hf)
      have hall := hes.cons he
      rw [ite_self] at hall
      exact ⟨_, _, hall⟩

theorem Around.readable {x : Element} (hx : ∃ text tokens, Readable x text tokens [x] [x])
    {e : Element} (h : Around x e) : ∃ text tokens, Readable e text tokens [e] [e] := by
  induction h with
  | here => exact hx
  | wellFormed h => exact ⟨_, _, ConfigorRoundTrip.readable h⟩
  | children hn hne hc ih =>
      obtain ⟨text, tokens, hes⟩ := readableAll_exists ih
      exact ⟨_, _, readable_object hn.word hne hes⟩

theorem survives_readable {x : Element} (hx : ∃ text tokens, Readable x text tokens [x] [x]) :
    Survives x := by
  intro c h
  obtain ⟨text, tokens, hall⟩ := readableAll_exists fun e he => (h e he).readable hx
  exact hall.fromStream

theorem taken_self {q : Quotes} {c : Char} (h : taken q c = [c]) :
    skipped q c = false ∧ (testString q c).1 = false ∧ c ≠ '\n' := by
  rw [taken] at h
  split at h
  next => exact absurd h (by simp)
  next hc => simpa [and_assoc] using hc

theorem Passes.cases_cons {q q' : Quotes} {c : Char} {s t : Text} (h : Passes q (c :: s) t q') :
    ∃ u, t = taken q c ++ u ∧ (q.isstring = false → c ≠ '#') ∧
      ((after q c).isstring = false → delimeter c = false) ∧ Passes (after q c) s u q' := by
  cases h with
  | cons hc hd h => exact ⟨_, rfl, hc, hd, h⟩

theorem keeps_passes {isstring : Bool} {v : Text} {q : Quotes}
    (h : Passes ⟨isstring, false⟩ (v ++ ['"']) (v ++ ['"']) q) (hq : q.isstring = false) :
    keeps isstring v := by
  induction v generalizing isstring with
  | nil =>
      obtain ⟨u, -, -, -, hp⟩ := Passes.cases_cons h
      cases hp
      cases isstring with
      | true => rfl
      | false => exact absurd hq (by decide)
  | cons c v ih =>
      obtain ⟨u, ht, hsharp, hd, hp⟩ := Passes.cases_cons h
      have ht : c :: (v ++ ['"']) = taken ⟨isstring, false⟩ c ++ u := ht
      have hp : Passes (after ⟨isstring, false⟩ c) (v ++ ['"']) u q := hp
      have hlen := congrArg List.length ht
      have hu := hp.sublist.length_le
      have htaken : taken ⟨isstring, false⟩ c = [c] := by
        refine (taken_sublist _ c).eq_of_length_le ?_
        simp only [List.length_append, List.length_cons, List.length_nil] at hlen hu ⊢
        omega
      obtain ⟨hspace, hm, hn⟩ := taken_self htaken
      have hplain : isstring = true → c ≠ '\\' := by
        rintro rfl rfl
        exact absurd hm (by decide)
      have hafter : after ⟨isstring, false⟩ c = ⟨toggled isstring c, false⟩ := by
        rw [after, hspace, if_neg (by decide), testString_plain hplain]
      rw [htaken] at ht
      obtain rfl : v ++ ['"'] = u := (List.cons_eq_cons.mp ht).2
      rw [hafter] at hp hd
      refine Bool.and_eq_true_iff.mpr ⟨?_, ih hp⟩
      cases isstring with
      | true => simpa [stays] using hplain
      | false =>
          have hspace : (c == ' ' || c == '\t') = false := hspace
          have hsharp := hsharp rfl
          cases hquote : isQuote c with
          | true => simp [stays, hquote]
          | false =>
              have hd := hd (by rw [toggled, hquote]; rfl)
              simp only [Bool.or_eq_false_iff] at hspace
              simp [stays, isBare, hquote, hd, hspace, hsharp, hn]

/-- A value in its quotes up to the first delimiter outside of them, and the
tokens of it. -/
structure Begins (line : Text) (tokens : List Text) (s t : Text) (q : Quotes) (d : Char)
    (rest : Text) : Prop where
  line_eq : line = s ++ d :: rest
  passes : Passes quoted s t q
  closed : q.isstring = false
  ends : delimeter d
  tokens_eq : tokens = finished ('"' :: t) ++ [d] :: scan (after q d) [] rest

theorem after_delimeter (q : Quotes) {d : Char} (h : delimeter d) :
    (after q d).isstring = q.isstring := by
  obtain ⟨hspace, hm, -⟩ := delimeter_plain h
  have hq := (isQuote_delimeter h).1
  rw [isQuote] at hq
  simp [after, skipped, testString, hspace, hm, hq]

theorem scan_begins (line : Text) :
    scan quoted ['"'] line = [] ∨
      ∃ s t q d rest, Begins line (scan quoted ['"'] line) s t q d rest := by
  obtain h | ⟨s, t, q, d, rest, hline, hp, hd, hq, h⟩ := scan_passes quoted ['"'] line
  · exact .inl h
  · rw [after_delimeter q hd] at hq
    exact .inr ⟨s, t, q, d, rest, hline, hp, hq, hd, h⟩

theorem keeps_delimeter {d : Char} (h : delimeter d) : keeps true [d] := by
  rw [keeps, toggled, (isQuote_delimeter h).1, stays]
  simpa [keeps] using (delimeter_plain h).2.1

theorem count_cut (t : Text) {d : Char} (h : delimeter d) :
    (cut ('"' :: t)).count d = t.count d := by
  have hquote := (delimeter_plain h).2.2.2.symm
  rw [cut]
  split
  next hends =>
    have ht : t = [] ∨ ∃ u, t = u ++ ['"'] := by
      obtain ht | ⟨u, c, rfl⟩ := t.eq_nil_or_concat
      · exact .inl ht
      · have hlast := hends.2
        rw [List.concat_eq_append, ← List.cons_append, List.getLast?_concat] at hlast
        exact .inr ⟨u, by rw [List.concat_eq_append, Option.some.inj hlast]⟩
    obtain rfl | ⟨u, rfl⟩ := ht
    · rfl
    · have hu := cut_string u
      rw [cut, if_pos ⟨rfl, List.getLast?_concat⟩] at hu
      rw [← List.cons_append, hu, List.count_append, List.count_singleton,
        if_neg (by simpa using hquote), Nat.add_zero]
  next => rw [List.count_cons_of_ne hquote]

theorem cut_opened (t : Text) :
    cut ('"' :: t) = '"' :: t ∨ (cut ('"' :: t)).length = t.length - 1 := by
  rw [cut]
  split
  · right
    simp
  · exact .inl rfl

section

variable {line s t rest : Text} {tokens : List Text} {q : Quotes} {d : Char}

theorem Begins.nonempty (h : Begins line tokens s t q d rest) : 0 < s.length := by
  rw [List.length_pos_iff]
  rintro rfl
  cases h.passes
  exact absurd h.closed (by decide)

theorem Begins.head (h : Begins line tokens s t q d rest) :
    (cut ('"' :: t) = [] ∧ tokens = [d] :: scan (after q d) [] rest) ∨
      (cut ('"' :: t) ≠ [] ∧ tokens = cut ('"' :: t) :: [d] :: scan (after q d) [] rest) := by
  have htokens := h.tokens_eq
  rw [finished] at htokens
  split at htokens
  next hc => exact .inl ⟨hc, htokens⟩
  next hc => exact .inr ⟨hc, htokens⟩

/-- A bracket before the others has been in quotes, or the quotes were empty. -/
theorem Begins.weight_bracket (h : Begins line tokens s t q d rest)
    (hhead : tokens.head? = some ['[']) : weight tokens < line.length := by
  have hpos := h.nonempty
  have ht := h.passes.sublist.length_le
  have hrest := weight_scan (after q d) [] rest
  rw [List.length_nil] at hrest
  rw [h.line_eq, List.length_append, List.length_cons]
  obtain ⟨-, htokens⟩ | ⟨-, htokens⟩ := h.head
  · rw [htokens, weight_cons, List.length_singleton]
    omega
  · rw [htokens] at hhead
    have hcut : cut ('"' :: t) = ['['] := Option.some.inj hhead
    obtain hwhole | hlen := cut_opened t
    · exact absurd (hwhole.symm.trans hcut) (by simp)
    · rw [htokens, weight_cons, weight_cons, List.length_singleton, hlen]
      omega

/-- The end of the value is the only place where its token can end. -/
theorem Begins.keeps {v more : Text} {e : Char} (h : Begins (v ++ '"' :: e :: more) tokens s t q d
    rest) (he : delimeter e) (hhead : tokens.head? = some v) : keeps true v := by
  obtain ⟨-, htokens⟩ | ⟨-, htokens⟩ := h.head
  · rw [htokens] at hhead
    obtain rfl : [d] = v := Option.some.inj hhead
    exact keeps_delimeter h.ends
  · rw [htokens] at hhead
    have hcut : cut ('"' :: t) = v := Option.some.inj hhead
    have hcount {c : Char} (hc : delimeter c) : v.count c = s.count c := by
      rw [← hcut, count_cut t hc, h.passes.count_delimeter hc]
    have hquote := (delimeter_plain h.ends).2.2.2
    obtain ⟨u, hs, hu⟩ | ⟨u, hvu, hu⟩ := List.append_eq_append_iff.mp h.line_eq
    · -- the token ends behind the closing quote
      have hs : s = v ++ ['"'] := by
        cases u with
        | nil => exact absurd (List.cons_eq_cons.mp hu).1.symm hquote
        | cons c u =>
            obtain ⟨hc, hu⟩ := List.cons_eq_cons.mp hu
            rw [← hc] at hs
            cases u with
            | nil => exact hs
            | cons c u =>
                obtain ⟨rfl, -⟩ := List.cons_eq_cons.mp hu
                have hsame := hcount he
                rw [hs, List.count_append, List.count_cons_of_ne (delimeter_plain he).2.2.2.symm,
                  List.count_cons_self] at hsame
                omega
      have hp := h.passes
      rw [hs] at hp
      obtain ⟨w, rfl⟩ := hp.quote
      have hw : w = v := (cut_string w).symm.trans hcut
      rw [hw] at hp
      exact keeps_passes hp h.closed
    · -- it cannot end inside of the value
      cases u with
      | nil => exact absurd (List.cons_eq_cons.mp hu).1 hquote
      | cons c u =>
          obtain ⟨rfl, -⟩ := List.cons_eq_cons.mp hu
          have hsame := hcount h.ends
          rw [hvu, List.count_append, List.count_cons_self] at hsame
          omega

end

theorem scan_head (line : Text) : (scan quoted ['"'] line).head? ≠ some [] := by
  obtain h | ⟨s, t, q, d, rest, h⟩ := scan_begins line
  · rw [h]
    simp
  · obtain ⟨-, htokens⟩ | ⟨hc, htokens⟩ := h.head
    · rw [htokens]
      simp
    · rw [htokens]
      simpa using hc

theorem keeps_numeric {v : Text} (h : isNumeric v) : keeps true v := by
  induction v with
  | nil => rfl
  | cons c v ih =>
      obtain ⟨hc, hv⟩ := Bool.and_eq_true_iff.mp h
      have hb := (isBare_of_numeric h c (.head v)).1
      simp only [isBare, Bool.not_eq_true', Bool.or_eq_false_iff] at hb
      have hm : c ≠ '\\' := by
        rintro rfl
        exact absurd hc (by decide)
      rw [keeps, toggled, hb.2, stays]
      simpa [hm] using ih hv

/-- What the reader finds of a line with a string that something else stands
before. -/
theorem line_tokens {s s' : Text} {ts : List Text} {line : Text} (hs : Strips s s')
    (hl : Lexes s' ts) (hn : '\n' ∉ line) :
    tokenize (preprocess (s ++ '"' :: line ++ ['\n'])) = ts ++ scan quoted ['"'] line := by
  have hnewline : '\n' ∉ s ++ '"' :: line := by
    rw [List.mem_append, not_or]
    exact ⟨hs.1, by simp [hn]⟩
  have hopen : preprocessLine unquoted ('"' :: line) =
      ('"' :: (preprocessLine quoted line).1, (preprocessLine quoted line).2) :=
    preprocessLine_stays (rfl : stays false '"' = true) _
  have hall : preprocess (s ++ '"' :: line ++ ['\n']) =
      s' ++ ('"' :: ((preprocessLine quoted line).1 ++
        if (preprocessLine quoted line).2.isstring then ['\n'] else [])) := by
    rw [preprocess, getlines_line hnewline, preprocessLines, hs.2, hopen]
    simp [getlines, preprocessLines]
  have hstring (input : Text) : tokenizeFrom unquoted [] ('"' :: input) =
      tokenizeFrom quoted ['"'] input :=
    tokenizeFrom_stays (rfl : stays false '"' = true) (by decide) [] input
  rw [hall, tokenize, hl, hstring, scan]
  split
  next => rw [tokenizeFrom_newline]
  next => rw [List.append_nil]

/-- What the reader finds of an element with a single value that is a string. -/
theorem single_tokens {name v : Text} (hn : IsName name) (hp : ∀ c ∈ v, isPrintable c)
    (hnum : isNumeric v = false) :
    tokenize (preprocess (writeElements 0 [⟨name, [v], []⟩])) =
      name :: ['='] :: scan quoted ['"'] (v ++ ['"', ';']) := by
  have hnewline : '\n' ∉ v ++ ['"', ';'] := by
    simp [newline_unprintable hp]
  have htext : writeElements 0 [⟨name, [v], []⟩] =
      spaces 0 ++ name ++ [' ', '=', ' '] ++ '"' :: (v ++ ['"', ';']) ++ ['\n'] := by
    simp [writeElements, writeElement, writeLeaf, writeValue, hnum]
  rw [htext, line_tokens (strips_name hn.word 0) (lexes_name hn.word) hnewline]
  rfl

theorem fromStream_children {ss : Text} {c : Configor}
    (h : Yields (fun fuel => fromStream fuel ss) c) (hc : c.root ≠ []) :
    ∃ fuel stop, parseVars (tokenize (preprocess ss)) fuel 0 [] = some (stop, c.root) := by
  obtain ⟨fuel, h⟩ := h
  simp only [fromStream, readText, parse] at h
  split at h
  next =>
    split at h
    next =>
      obtain ⟨x, hx, hr⟩ := Option.bind_eq_some_iff.mp h
      obtain rfl := Option.some.inj hr
      exact ⟨fuel, x.1, hx⟩
    next =>
      obtain rfl := Option.some.inj h
      exact absurd rfl hc
  next =>
    obtain rfl := Option.some.inj h
    exact absurd rfl hc

/-- An opening bracket without its quotes opens an array or an object, and
nothing closes it. -/
theorem no_call {name : Text} (hn : IsWord name) {c : Char} (hc : c = '[' ∨ c = '{')
    {r : Nat × List Element} : ¬ VarCall [name, ['='], [c], [';']] 0 [] r := by
  have hclosed {d : Char} (hd : delimeter d) (hne : d ≠ '=' ∧ d ≠ c ∧ d ≠ ';') {i : Nat} :
      ¬ accept [name, ['='], [c], [';']] d i := by
    intro h
    have hmem : [d] ∈ [name, ['='], [c], [';']] := by
      have hi := accept_inside h
      rw [accept, ConfigorText.get, List.getD_eq_getElem?_getD, List.getElem?_eq_getElem hi,
        Option.getD_some, beq_iff_eq] at h
      exact h ▸ List.getElem_mem hi
    simp only [List.mem_cons, List.not_mem_nil, or_false, List.cons.injEq, and_true] at hmem
    obtain h | h | h | h := hmem
    · exact hn.ne_delimeter hd h.symm
    · exact hne.1 h
    · exact hne.2.1 h
    · exact hne.2.2 h
  have hequals : expect [name, ['='], [c], [';']] '=' (next [name, ['='], [c], [';']] 0) = some 2 :=
    rfl
  have hopen : accept [name, ['='], [c], [';']] c 2 := beq_self_eq_true [c]
  intro h
  cases h with
  | noEquals hs => exact absurd (hequals.symm.trans hs) (by simp)
  | array hs ho hvalues =>
      obtain rfl := Option.some.inj (hequals.symm.trans hs)
      obtain rfl := accept_unique ho hopen
      obtain ⟨n, hvalues⟩ := hvalues
      exact hclosed rfl (by decide) (arrayValues_accept hvalues)
  | object hs ho hchildren =>
      obtain rfl := Option.some.inj (hequals.symm.trans hs)
      obtain rfl := accept_unique ho hopen
      obtain ⟨n, hchildren⟩ := hchildren
      exact hclosed rfl (by decide) (objectVars_accept hchildren)
  | noSemicolon hs ha ho | value hs ha ho =>
      obtain rfl := Option.some.inj (hequals.symm.trans hs)
      obtain rfl | rfl := hc
      · exact ha hopen
      · exact ho hopen

theorem single_lost {name v : Text} (hn : IsName name) (hp : ∀ c ∈ v, isPrintable c)
    (hk : ¬ keeps true v) {fuel : Nat} {r : Nat × List Element}
    (h : parseVars (tokenize (preprocess (writeElements 0 [⟨name, [v], []⟩]))) fuel 0 [] = some r) :
    ⟨name, [v], []⟩ ∉ r.2 := by
  intro he
  have hnum : isNumeric v = false := by
    rw [Bool.eq_false_iff]
    exact fun hnum => hk (keeps_numeric hnum)
  have hv : ∀ c, delimeter c → v ≠ [c] := by
    rintro c hd rfl
    exact hk (keeps_delimeter hd)
  rw [single_tokens hn hp hnum] at h
  have hlen : (v ++ ['"', ';']).length = v.length + 2 := List.length_append
  have hweight := weight_scan quoted ['"'] (v ++ ['"', ';'])
  rw [hlen, List.length_singleton] at hweight
  obtain hnil | ⟨s, t, q, d, rest, hb⟩ := scan_begins (v ++ ['"', ';'])
  · obtain ⟨others, htokens⟩ | ⟨hhead, -⟩ | hmore :=
      parseVars_single hn.word hv (scan_head _) h he
    · exact absurd (hnil.symm.trans htokens) (by simp)
    · exact absurd hhead (by simp [hnil])
    · omega
  · obtain ⟨others, htokens⟩ | ⟨hhead, hmore⟩ | hmore :=
      parseVars_single hn.word hv (scan_head _) h he
    · rw [htokens] at hb
      exact hk (hb.keeps rfl rfl)
    · have hless := hb.weight_bracket hhead
      omega
    · omega

theorem survives_alone {x : Element} (h : Survives x) :
    ∃ fuel stop, parseVars (tokenize (preprocess (writeElements 0 [x]))) fuel 0 [] =
      some (stop, [x]) := by
  obtain ⟨c, hc, hroot⟩ := h ⟨[], [], [], 0, [x]⟩ (List.forall_mem_singleton.mpr .here)
  have hne : c.root ≠ [] := by
    rw [hroot]
    simp
  obtain ⟨fuel, stop, hvars⟩ := fromStream_children hc hne
  rw [hroot] at hvars
  exact ⟨fuel, stop, hvars⟩

/-- A single value comes back, whatever its element is written among, just when
the string it is written in stays what it is and it is not taken for an opening
bracket. -/
theorem survives_single_iff {name v : Text} (hn : IsName name) (hv : v ≠ [])
    (hp : ∀ c ∈ v, isPrintable c) :
    Survives ⟨name, [v], []⟩ ↔ keeps true v ∧ v ≠ ['['] ∧ v ≠ ['{'] := by
  constructor
  · intro hs
    obtain ⟨fuel, stop, hvars⟩ := survives_alone hs
    have hmem : (⟨name, [v], []⟩ : Element) ∈ (stop, [(⟨name, [v], []⟩ : Element)]).2 :=
      List.mem_singleton.mpr rfl
    have hbracket {c : Char} (hc : c = '[' ∨ c = '{') : v ≠ [c] := by
      rintro rfl
      have hnum : isNumeric [c] = false := by
        obtain rfl | rfl := hc <;> decide
      have hscan : scan quoted ['"'] ([c] ++ ['"', ';']) = [[c], [';']] := by
        obtain rfl | rfl := hc <;> decide
      rw [single_tokens hn hp hnum, hscan] at hvars
      obtain ⟨k, hcall⟩ | ⟨y, j, k, hcall, -, -⟩ := parseVars_origin hvars hmem
      · exact no_call hn.word hc hcall
      · exact no_call hn.word hc hcall
    refine ⟨?_, hbracket (.inl rfl), hbracket (.inr rfl)⟩
    by_cases hk : keeps true v
    · exact hk
    · exact absurd hmem (single_lost hn hp hk hvars)
  · rintro ⟨hk, ha, ho⟩
    exact survives_readable (readable_single hn hv (spelled_keeps hv hp hk) ha ho)

end Ashe.ConfigorStrings
