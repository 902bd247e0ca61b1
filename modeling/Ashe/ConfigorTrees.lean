import Ashe.ConfigorSteps
import Ashe.ConfigorTokens

namespace Ashe.ConfigorTrees

open ConfigorText Fuel ConfigorSteps ConfigorTokens

section

variable {tokens : List Text}

theorem get_at {before after : List Text} {t : Text} (h : tokens = before ++ t :: after) {i : Nat}
    (hi : i = before.length) : ConfigorText.get tokens i = t := by
  rw [h, hi, ConfigorText.get, List.getD_eq_getElem?_getD]
  simp

theorem next_at {before after : List Text} {t : Text} (h : tokens = before ++ t :: after)
    (ha : after ≠ []) {i : Nat} (hi : i = before.length) : next tokens i = i + 1 := by
  have hpos := List.length_pos_iff.mpr ha
  rw [next, if_pos]
  rw [h, List.length_append, List.length_cons]
  omega

theorem next_min {i : Nat} (hi : i < tokens.length) :
    next tokens i = min (i + 1) (tokens.length - 1) := by
  rw [next]
  split <;> omega

theorem accept_at {before after : List Text} {t : Text} (h : tokens = before ++ t :: after)
    {i : Nat} (hi : i = before.length) (c : Char) : accept tokens c i ↔ t = [c] := by
  rw [accept, get_at h hi, beq_iff_eq]

theorem expect_at {before after : List Text} {c : Char} (h : tokens = before ++ [c] :: after)
    (ha : after ≠ []) {i : Nat} (hi : i = before.length) :
    expect tokens c i = some (i + 1) := by
  rw [expect_accept ((accept_at h hi c).mpr rfl), next_at h ha hi]

theorem arrayValues_plain {before after values : List Text} {t : Text} {r : Nat × List Text}
    (h : tokens = before ++ t :: after) (ha : after ≠ []) (hc : after.head? ≠ some [','])
    (ht : t ≠ [']']) :
    Yields (fun fuel => arrayValues tokens fuel before.length values) r ↔
      ∃ x, Yields (fun fuel => emptyValues tokens fuel (before ++ [t]).length (values ++ [t])) x ∧
        Yields (fun fuel => arrayValues tokens fuel x.1 x.2) r := by
  have hclose : ¬ accept tokens ']' before.length := fun hc => ht ((accept_at h rfl _).mp hc)
  have hcomma : ¬ accept tokens ',' (before.length + 1) := by
    obtain ⟨u, after, rfl⟩ := List.exists_cons_of_ne_nil ha
    have h' : tokens = (before ++ [t]) ++ u :: after := by simpa using h
    exact fun hu => hc (congrArg some ((accept_at h' (by simp) _).mp hu))
  rw [yields_arrayValues, if_neg hclose, afterValue, next_at h ha rfl, get_at h rfl, if_neg hcomma]
  simp

theorem arrayValues_comma {before after values : List Text} {t : Text} {r : Nat × List Text}
    (h : tokens = before ++ t :: [','] :: after) (ha : after ≠ []) (ht : t ≠ [']']) :
    Yields (fun fuel => arrayValues tokens fuel before.length values) r ↔
      ∃ x, Yields (fun fuel => emptyValues tokens fuel (before ++ [t, [',']]).length
          (values ++ [t])) x ∧
        Yields (fun fuel => arrayValues tokens fuel x.1 x.2) r := by
  have hclose : ¬ accept tokens ']' before.length := fun hc => ht ((accept_at h rfl _).mp hc)
  have h' : tokens = (before ++ [t]) ++ [','] :: after := by simpa using h
  have hcomma : accept tokens ',' (before.length + 1) := (accept_at h' (by simp) _).mpr rfl
  rw [yields_arrayValues, if_neg hclose, afterValue, next_at h (by simp) rfl, get_at h rfl,
    if_pos hcomma, next_at h' ha (by simp)]
  simp

theorem close_at {before after : List Text} {t : Text} (h : tokens = before ++ t :: after)
    (ht : t ≠ [';']) (ha : after.head? ≠ some [';']) {i : Nat} (hi : i = before.length) :
    close tokens i = min (i + 1) (tokens.length - 1) := by
  have hlen : i < tokens.length := by
    rw [h, hi, List.length_append, List.length_cons]
    omega
  have hnone : ¬ accept tokens ';' (next tokens i) := by
    cases after with
    | nil =>
        have hlast : next tokens i = i := by
          rw [next, if_neg]
          rw [h, hi, List.length_append, List.length_singleton]
          omega
        rw [hlast]
        exact fun hc => ht ((accept_at h hi _).mp hc)
    | cons u after =>
        have h' : tokens = (before ++ [t]) ++ u :: after := by simpa using h
        rw [next_at h (by simp) hi, accept_at h' (by simp [hi])]
        simpa using ha
  rw [close, afterBracket, if_neg hnone, next_min hlen]

theorem expect_equals {before after : List Text} {name t : Text}
    (h : tokens = before ++ name :: ['='] :: t :: after) :
    expect tokens '=' (next tokens before.length) = some (before.length + 2) := by
  have h' : tokens = (before ++ [name]) ++ ['='] :: (t :: after) := by simpa using h
  rw [next_at h (by simp) rfl]
  exact expect_at h' (by simp) (by simp)

/-- The closing bracket of an array or object is the last of its tokens. -/
theorem close_bracket {before inner after : List Text} {name bracket t : Text}
    (h : tokens = before ++ [name, ['='], bracket] ++ inner ++ t :: after) (ht : t ≠ [';'])
    (ha : after.head? ≠ some [';']) : close tokens (before.length + 3 + inner.length) =
      min (before.length + (inner.length + 4)) (tokens.length - 1) := by
  have hlen : before.length + 3 + inner.length =
      (before ++ [name, ['='], bracket] ++ inner).length := by
    simp only [List.length_append, List.length_cons, List.length_nil]
  rw [close_at h ht ha hlen]
  congr 1
  omega

end

structure IsWord (word : Text) : Prop where
  nonempty : word ≠ []
  chars : ∀ c ∈ word, isBare c ∧ delimeter c = false

theorem IsWord.ne_delimeter {word : Text} (h : IsWord word) {c : Char} (hc : delimeter c) :
    word ≠ [c] := by
  rintro rfl
  exact absurd (hc.symm.trans (h.chars c (.head [])).2) (by decide)

/-- A call of parseVar at these tokens, wherever they stand, reads the elements:
the first ones when there is a token behind them, and the others at the end. -/
def ReadsAs (tokens : List Text) (more last : List Element) : Prop :=
  ∀ (all before after : List Text) (parent : List Element), all = before ++ tokens ++ after →
    after.head? ≠ some [';'] → VarCall all before.length parent
      (min (before.length + tokens.length) (all.length - 1),
        parent ++ if after = [] then last else more)

/-- What is written for the values of an element, without the white space
around its tokens, and the tokens of that. -/
structure Written (values : List Text) (text : Text) (tokens : List Text) : Prop where
  nonempty : values ≠ []
  strips : Strips (writeLeaf values) text
  lexes : Lexes text tokens

structure Readable (e : Element) (text : Text) (tokens : List Text) (more last : List Element) :
    Prop where
  reduces : ∀ tabs, Reduces (writeElement tabs e) text
  lexes : Lexes text tokens
  named : IsWord e.name
  head : ∃ rest, tokens = e.name :: ['='] :: rest
  reads : ReadsAs tokens more last

inductive ReadableAll : List Element → Text → List Text → List Element → List Element → Prop
  | nil : ReadableAll [] [] [] [] []
  | cons {e : Element} {es : List Element} {text rest : Text} {tokens others : List Text}
      {more last mores lasts : List Element} (he : Readable e text tokens more last)
      (hes : ReadableAll es rest others mores lasts) :
      ReadableAll (e :: es) (text ++ rest) (tokens ++ others) (more ++ mores)
        ((if es = [] then last else more) ++ lasts)

section

variable {name text : Text} {tokens : List Text} {es more last : List Element}

theorem strips_name (h : IsWord name) (tabs : Nat) :
    Strips (spaces tabs ++ name ++ [' ', '=', ' ']) (name ++ ['=']) := by
  have hname := strips_word fun c hc => (h.chars c hc).1
  have hequals : Strips [' ', '=', ' '] ['='] :=
    strips_space.append ((strips_bare rfl).append strips_space)
  exact ((strips_spaces tabs).append hname).append hequals

theorem lexes_name (h : IsWord name) : Lexes (name ++ ['=']) [name, ['=']] :=
  lexes_word h.nonempty h.chars rfl

theorem ReadableAll.reduces (h : ReadableAll es text tokens more last) (tabs : Nat) :
    Reduces (writeElements tabs es) text := by
  induction h with
  | nil => exact .nil
  | cons he hes ih => exact (he.reduces tabs).append ih

theorem ReadableAll.lexes (h : ReadableAll es text tokens more last) : Lexes text tokens := by
  induction h with
  | nil => exact .nil
  | cons he hes ih => exact he.lexes.append ih

/-- The next element does not begin with the semicolon that may follow a bracket. -/
theorem ReadableAll.head (h : ReadableAll es text tokens more last) {after : List Text}
    (ha : after.head? ≠ some [';']) : (tokens ++ after).head? ≠ some [';'] := by
  cases h with
  | nil => exact ha
  | cons he hes =>
      obtain ⟨rest, rfl⟩ := he.head
      have hne := he.named.ne_delimeter (c := ';') rfl
      simpa using hne

theorem ReadableAll.tokens_eq_nil (h : ReadableAll es text tokens more last) :
    tokens = [] ↔ es = [] := by
  cases h with
  | nil => simp
  | cons he hes =>
      obtain ⟨rest, rfl⟩ := he.head
      simp

theorem ReadableAll.objectVars (h : ReadableAll es text tokens more last) :
    ∀ (all before after : List Text) (children : List Element),
      all = before ++ tokens ++ ['}'] :: after →
      Yields (fun fuel => objectVars all fuel before.length children)
        (before.length + tokens.length, children ++ more) := by
  induction h with
  | nil =>
      intro all before after children ht
      have ht : all = before ++ ['}'] :: after := by simpa using ht
      rw [yields_objectVars, if_pos ((accept_at ht rfl _).mpr rfl)]
      simp
  | @cons e es text rest tokens others more last mores lasts he hes ih =>
      intro all before after children ht
      obtain ⟨behind, hbehind⟩ := he.head
      have ht' : all = before ++ tokens ++ (others ++ ['}'] :: after) := by simpa using ht
      have hfirst : all = before ++ e.name ::
          (['='] :: behind ++ (others ++ ['}'] :: after)) := by simpa [hbehind] using ht'
      have hcall := he.reads all before _ children ht' (hes.head (by simp))
      have hmin : min (before.length + tokens.length) (all.length - 1) =
          (before ++ tokens).length := by
        rw [ht']
        simp only [List.length_append, List.length_cons]
        omega
      rw [hmin, if_neg (by simp)] at hcall
      have hnext := ih all (before ++ tokens) after (children ++ more) (by simpa using ht')
      rw [yields_objectVars,
        if_neg fun ha => he.named.ne_delimeter (c := '}') rfl ((accept_at hfirst rfl _).mp ha)]
      refine ⟨_, yields_parseVar.mpr hcall, ?_⟩
      simpa [Nat.add_assoc] using hnext

theorem ReadableAll.parseVars (h : ReadableAll es text tokens more last) :
    ∀ (all before : List Text) (children : List Element), all = before ++ tokens →
      Yields (fun fuel => parseVars all fuel (min before.length (all.length - 1)) children)
        (all.length - 1, children ++ last) := by
  induction h with
  | nil =>
      intro all before children ht
      have hmin : min before.length (all.length - 1) = all.length - 1 := by
        rw [ht, List.append_nil]
        omega
      rw [hmin, yields_parseVars, if_pos rfl, List.append_nil]
  | @cons e es text rest tokens others more last mores lasts he hes ih =>
      intro all before children ht
      obtain ⟨behind, hbehind⟩ := he.head
      have ht' : all = before ++ tokens ++ others := by simpa using ht
      have hcall := he.reads all before _ children ht' (by
        have hhead := hes.head (by simp : ([] : List Text).head? ≠ some [';'])
        simpa using hhead)
      have hlen : before.length < all.length - 1 := by
        rw [ht', hbehind]
        simp only [List.length_append, List.length_cons]
        omega
      simp only [hes.tokens_eq_nil] at hcall
      have hnext := ih all (before ++ tokens) (children ++ if es = [] then last else more) ht'
      rw [Nat.min_eq_left (Nat.le_of_lt hlen), yields_parseVars, if_neg (Nat.ne_of_lt hlen)]
      refine ⟨_, yields_parseVar.mpr hcall, ?_⟩
      simpa using hnext

theorem readsAs_single (name : Text) {v : Text} (ha : v ≠ ['[']) (ho : v ≠ ['{']) :
    ReadsAs [name, ['='], v, [';']] [⟨name, [v], []⟩] [⟨name, [v], []⟩] := by
  intro tokens before after parent ht hafter
  rw [ite_self]
  have h0 : tokens = before ++ name :: ['='] :: v :: ([';'] :: after) := by simpa using ht
  have h2 : tokens = (before ++ [name, ['=']]) ++ v :: ([';'] :: after) := by simpa using h0
  have h3 : tokens = (before ++ [name, ['='], v]) ++ [';'] :: after := by simpa using h0
  have ha : ¬ accept tokens '[' (before.length + 2) := fun h => ha ((accept_at h2 (by simp) _).mp h)
  have ho : ¬ accept tokens '{' (before.length + 2) := fun h => ho ((accept_at h2 (by simp) _).mp h)
  have hs : expect tokens ';' (next tokens (before.length + 2)) =
      some (min (before.length + 4) (tokens.length - 1)) := by
    rw [next_at h2 (by simp) (by simp), expect_accept ((accept_at h3 (by simp) _).mpr rfl),
      next_min]
    rw [h3]
    simp only [List.length_append, List.length_cons, List.length_nil]
    omega
  have hcall : VarCall tokens before.length parent _ := .value (expect_equals h0) ha ho hs
  rwa [get_at h0 rfl, get_at h2 (by simp)] at hcall

theorem readsAs_array (name : Text) {vs inner : List Text}
    (hv : ∀ (tokens before after values : List Text), tokens = before ++ inner ++ [']'] :: after →
      Yields (fun fuel => arrayValues tokens fuel before.length values)
        (before.length + inner.length, values ++ vs)) :
    ReadsAs (name :: ['='] :: ['['] :: inner ++ [[']']]) [⟨name, vs, []⟩] [⟨name, vs, []⟩] := by
  intro tokens before after parent ht hafter
  rw [ite_self]
  have h0 : tokens = before ++ name :: ['='] :: ['['] :: (inner ++ [']'] :: after) := by
    simpa using ht
  have h2 : tokens = (before ++ [name, ['=']]) ++ ['['] :: (inner ++ [']'] :: after) := by
    simpa using h0
  have h3 : tokens = before ++ [name, ['='], ['[']] ++ inner ++ [']'] :: after := by
    simpa using h0
  have hnext : next tokens (before.length + 2) = before.length + 3 :=
    next_at h2 (by simp) (by simp)
  have hvalues := hv tokens _ after [] h3
  rw [List.length_append] at hvalues
  have hcall : VarCall tokens before.length parent _ := .array (expect_equals h0)
    ((accept_at h2 (by simp) '[').mpr rfl) (hnext ▸ hvalues)
  rw [get_at h0 rfl] at hcall
  have hclose := close_bracket h3 (by decide) hafter
  simpa [hnext, hclose] using hcall

theorem readsAs_object (name : Text) (h : ReadableAll es text tokens more last) :
    ReadsAs (name :: ['='] :: ['{'] :: tokens ++ [['}']]) [⟨name, [], more⟩]
      [⟨name, [], more⟩] := by
  intro all before after parent ht hafter
  rw [ite_self]
  have h0 : all = before ++ name :: ['='] :: ['{'] :: (tokens ++ ['}'] :: after) := by
    simpa using ht
  have h2 : all = (before ++ [name, ['=']]) ++ ['{'] :: (tokens ++ ['}'] :: after) := by
    simpa using h0
  have h3 : all = before ++ [name, ['='], ['{']] ++ tokens ++ ['}'] :: after := by
    simpa using h0
  have hnext : next all (before.length + 2) = before.length + 3 :=
    next_at h2 (by simp) (by simp)
  have hchildren := h.objectVars all _ after [] h3
  rw [List.length_append] at hchildren
  have hcall : VarCall all before.length parent _ := .object (expect_equals h0)
    ((accept_at h2 (by simp) '{').mpr rfl) (hnext ▸ hchildren)
  rw [get_at h0 rfl] at hcall
  have hclose := close_bracket h3 (by decide) hafter
  simpa [hnext, hclose] using hcall

theorem readable_leaf {values : List Text} (hn : IsWord name) (h : Written values text tokens)
    (hr : ReadsAs (name :: ['='] :: tokens) more last) :
    Readable ⟨name, values, []⟩ (name ++ ['='] ++ text) (name :: ['='] :: tokens) more last where
  reduces tabs := by
    rw [writeElement, if_neg (by simp [h.nonempty]), if_neg (by simp)]
    exact ((strips_name hn tabs).append h.strips).line
  lexes := (lexes_name hn).append h.lexes
  named := hn
  head := ⟨tokens, rfl⟩
  reads := hr

theorem readable_object (hn : IsWord name) (hne : es ≠ [])
    (h : ReadableAll es text tokens more last) :
    Readable ⟨name, [], es⟩ (name ++ ['='] ++ (['{'] ++ text ++ ['}']))
      (name :: ['='] :: ['{'] :: tokens ++ [['}']]) [⟨name, [], more⟩] [⟨name, [], more⟩] where
  reduces tabs := by
    have hpos := List.length_pos_iff.mpr hne
    rw [writeElement, if_neg (by simp [hne]), if_pos hpos]
    have hopen := ((strips_name hn tabs).append (strips_bare (c := '{') rfl)).line
    have hclose := ((strips_spaces tabs).append (strips_bare (c := '}') rfl)).line
    simpa using (hopen.append (h.reduces (tabs + TABS))).append hclose
  lexes := by
    have hopen := lexes_delimeter (c := '{') rfl
    have hclose := lexes_delimeter (c := '}') rfl
    simpa using (lexes_name hn).append ((hopen.append h.lexes).append hclose)
  named := hn
  head := ⟨_, rfl⟩
  reads := readsAs_object name h

theorem ReadableAll.tokenize (h : ReadableAll es text tokens more last) :
    preprocess (writeElements 0 es) = text ∧
      ConfigorText.tokenize (preprocess (writeElements 0 es)) = tokens := by
  have hp : preprocess (writeElements 0 es) = text := by
    have hr := h.reduces 0 []
    have hnil : preprocess [] = [] := rfl
    simpa [hnil] using hr
  have hl := h.lexes []
  refine ⟨hp, ?_⟩
  rw [hp, ConfigorText.tokenize]
  simpa [tokenizeFrom] using hl

theorem ReadableAll.parse (h : ReadableAll es text tokens more last) {c : Configor}
    (ht : c.tokens = tokens) : ∃ c', Yields (fun fuel => parse fuel c) c' ∧ c'.root = last := by
  obtain ⟨fuel, hvars⟩ := h.parseVars c.tokens [] [] (ht.trans (List.nil_append _).symm)
  rw [List.length_nil, Nat.zero_min, List.nil_append] at hvars
  by_cases hpos : c.tokens.length > 0
  · refine ⟨{ c with index := c.tokens.length - 1, root := last }, ⟨fuel, ?_⟩, rfl⟩
    simp only [ConfigorText.parse, if_pos hpos, hvars]
    rfl
  · have hnil : last = [] := by
      cases h with
      | nil => rfl
      | cons he hes =>
          obtain ⟨rest, rfl⟩ := he.head
          exact absurd hpos (by simp [ht])
    refine ⟨{ c with index := 0, root := [] }, ⟨fuel, ?_⟩, hnil.symm⟩
    simp only [ConfigorText.parse, if_neg hpos]

theorem ReadableAll.fromStream {c : Configor} (h : ReadableAll c.root text tokens more last) :
    ∃ c', Yields (fun fuel => fromStream fuel (save c)) c' ∧ c'.root = last := by
  obtain ⟨-, ht⟩ := h.tokenize
  simp only [ConfigorText.fromStream, readText, save]
  by_cases hinput : preprocess (writeElements 0 c.root) = []
  · simp only [hinput, ne_eq, not_true_eq_false, if_false]
    rw [hinput] at ht
    obtain ⟨c', ⟨fuel, hc⟩, hroot⟩ := h.parse (c := ⟨[], [], [], 0, []⟩) ht
    obtain rfl := Option.some.inj hc
    exact ⟨_, ⟨0, rfl⟩, hroot⟩
  · simp only [hinput, ne_eq, not_false_eq_true, if_true]
    exact h.parse ht

end

end Ashe.ConfigorTrees
