import Ashe.ConfigorTrees

namespace Ashe.ConfigorRoundTrip

open ConfigorText Fuel ConfigorSteps ConfigorTokens ConfigorTrees

def isNameChar (c : Char) : Bool := c.isAlphanum || c == '_'

def isPrintable (c : Char) : Bool := ' ' ≤ c && c ≤ '~'

structure IsName (name : Text) : Prop where
  nonempty : name ≠ []
  chars : ∀ c ∈ name, isNameChar c

/-- A value that the writer and the reader agree on: it is not taken for a
delimiter, and nothing in it ends a string or masks a character. -/
structure IsValue (value : Text) : Prop where
  nonempty : value ≠ []
  chars : ∀ c ∈ value, isPrintable c ∧ isQuote c = false ∧ c ≠ '\\'
  notDelimeter : ∀ c, delimeter c → value ≠ [c]

inductive WellFormed : Element → Prop
  | values {name : Text} {values : List Text} (hn : IsName name) (hne : values ≠ [])
      (hv : ∀ v ∈ values, IsValue v) : WellFormed ⟨name, values, []⟩
  | children {name : Text} {children : List Element} (hn : IsName name) (hne : children ≠ [])
      (hc : ∀ e ∈ children, WellFormed e) : WellFormed ⟨name, [], children⟩

/-- The characters outside of a string that do not stand for themselves. -/
theorem isBare_of_not_special {p : Char → Bool} {c : Char}
    (hp : [' ', '\t', '#', '\n', '"', '\'', '=', ';', '[', ']', '{', '}', ','].all
      (fun d => !p d) = true) (h : p c) : isBare c ∧ delimeter c = false := by
  have hne : ∀ d ∈ [' ', '\t', '#', '\n', '"', '\'', '=', ';', '[', ']', '{', '}', ','], c ≠ d := by
    rintro d hd rfl
    exact absurd (List.all_eq_true.mp hp c hd) (by simp [h])
  simp only [List.forall_mem_cons, List.not_mem_nil, false_imp_iff, implies_true, and_true] at hne
  simp [isBare, isQuote, delimeter, hne]

theorem isBare_of_nameChar {c : Char} (h : isNameChar c) : isBare c ∧ delimeter c = false :=
  isBare_of_not_special (by decide) h

theorem IsName.word {name : Text} (h : IsName name) : IsWord name :=
  ⟨h.nonempty, fun c hc => isBare_of_nameChar (h.chars c hc)⟩

theorem isBare_of_numeric {value : Text} (h : isNumeric value) :
    ∀ c ∈ value, isBare c ∧ delimeter c = false := by
  intro c hc
  exact isBare_of_not_special (p := fun c => c.isDigit || c == '.' || c == '-') (by decide)
    (List.all_eq_true.mp h c hc)

theorem isInner_of_printable {c : Char} (h : isPrintable c ∧ isQuote c = false ∧ c ≠ '\\') :
    isInner c := by
  refine isInner_iff.mpr ⟨?_, h.2.2, h.2.1⟩
  rintro rfl
  exact absurd h.1 (by decide)

def compactValues : List Text → Text
  | [] => []
  | [value] => writeValue value
  | value :: values => writeValue value ++ [','] ++ compactValues values

def compactLeaf : List Text → Text
  | [value] => writeValue value ++ [';']
  | values => ['['] ++ compactValues values ++ [']']

mutual

def compact : Element → Text
  | ⟨name, values, children⟩ =>
      name ++ ['='] ++
        (if children.length > 0 then ['{'] ++ compacts children ++ ['}']
        else compactLeaf values)

def compacts : List Element → Text
  | [] => []
  | e :: es => compact e ++ compacts es

end

def valueTokens : List Text → List Text
  | [] => []
  | [value] => [value]
  | value :: values => value :: [','] :: valueTokens values

def leafTokens : List Text → List Text
  | [value] => [value, [';']]
  | values => ['['] :: valueTokens values ++ [[']']]

mutual

def elementTokens : Element → List Text
  | ⟨name, values, children⟩ =>
      name :: ['='] ::
        (if children.length > 0 then ['{'] :: elementsTokens children ++ [['}']]
        else leafTokens values)

def elementsTokens : List Element → List Text
  | [] => []
  | e :: es => elementTokens e ++ elementsTokens es

end

/-- Tokenize stores no empty token. -/
def stored (tokens : List Text) : List Text := tokens.filter (· ≠ [])

def IsItem (value : Text) : Prop := value = [] ∨ IsValue value

theorem stored_cons {t : Text} (ht : t ≠ []) (ts : List Text) : stored (t :: ts) = t :: stored ts :=
  List.filter_cons_of_pos (by simpa using ht)

theorem stored_append (ts us : List Text) : stored (ts ++ us) = stored ts ++ stored us :=
  List.filter_append ..

theorem stored_values {vs : List Text} (h : ∀ v ∈ vs, IsValue v) :
    stored (valueTokens vs) = valueTokens vs := by
  induction vs with
  | nil => rfl
  | cons v vs ih =>
      have hv := (h v (.head vs)).nonempty
      cases vs with
      | nil => exact stored_cons hv []
      | cons w vs =>
          rw [valueTokens, stored_cons hv, stored_cons (by simp), ih fun u hu => h u (.tail v hu)]
          simp

theorem stored_leafTokens {vs : List Text} (h : ∀ v ∈ vs, IsValue v) :
    stored (leafTokens vs) = leafTokens vs := by
  have harray : stored (['['] :: valueTokens vs ++ [[']']]) =
      ['['] :: valueTokens vs ++ [[']']] := by
    rw [stored_append, stored_cons (by simp), stored_values h]
    rfl
  cases vs with
  | nil => exact harray
  | cons v vs =>
      cases vs with
      | nil => exact stored_cons (h v (.head [])).nonempty _
      | cons w vs => exact harray

theorem strips_writeValue {v : Text} (h : IsItem v) : Strips (writeValue v) (writeValue v) := by
  rw [writeValue]
  split
  next hn => exact strips_word fun c hc => (isBare_of_numeric hn c hc).1
  next hn =>
    cases h with
    | inl h => exact absurd (by rw [h]; rfl) hn
    | inr h => exact strips_string fun c hc => isInner_of_printable (h.chars c hc)

theorem lexes_writeValue {v : Text} (h : IsItem v) {d : Char} (hd : delimeter d) :
    Lexes (writeValue v ++ [d]) (stored [v] ++ [[d]]) := by
  cases h with
  | inl h =>
      rw [h]
      exact lexes_delimeter hd
  | inr h =>
      rw [stored_cons h.nonempty, writeValue]
      split
      next hn => exact lexes_word h.nonempty (isBare_of_numeric hn) hd
      next => exact lexes_string h.nonempty (fun c hc => isInner_of_printable (h.chars c hc)) hd

structure Spelled (v : Text) : Prop where
  strips : Strips (writeValue v) (writeValue v)
  lexes : ∀ {d : Char}, delimeter d → Lexes (writeValue v ++ [d]) (stored [v] ++ [[d]])

theorem IsItem.spelled {v : Text} (h : IsItem v) : Spelled v :=
  ⟨strips_writeValue h, fun hd => lexes_writeValue h hd⟩

theorem strips_writeValues {vs : List Text} (h : ∀ v ∈ vs, Spelled v) :
    Strips (writeValues vs) (compactValues vs) := by
  induction vs with
  | nil => exact .nil
  | cons v vs ih =>
      have hv := (h v (.head vs)).strips
      cases vs with
      | nil => exact hv
      | cons w vs =>
          have hcomma : Strips [',', ' '] [','] := (strips_bare rfl).append strips_space
          exact (hv.append hcomma).append (ih fun u hu => h u (.tail v hu))

/-- The tokens of the values from the first one on, when one more follows it. -/
theorem stored_more (v w : Text) (vs : List Text) : stored (valueTokens (v :: w :: vs)) =
    stored [v] ++ [','] :: stored (valueTokens (w :: vs)) := by
  have htokens : valueTokens (v :: w :: vs) = [v] ++ ([[',']] ++ valueTokens (w :: vs)) := rfl
  rw [htokens, stored_append, stored_append]
  rfl

theorem lexes_compactValues {vs : List Text} (hne : vs ≠ []) (h : ∀ v ∈ vs, Spelled v) :
    Lexes (compactValues vs ++ [']']) (stored (valueTokens vs) ++ [[']']]) := by
  induction vs with
  | nil => exact absurd rfl hne
  | cons v vs ih =>
      have hv := h v (.head vs)
      cases vs with
      | nil => exact hv.lexes rfl
      | cons w vs =>
          have hnext := ih (by simp) fun u hu => h u (.tail v hu)
          have hall := (hv.lexes (d := ',') rfl).append hnext
          have htext : compactValues (v :: w :: vs) ++ [']'] =
              writeValue v ++ [','] ++ (compactValues (w :: vs) ++ [']']) := by
            simp [compactValues]
          rw [htext, stored_more]
          simpa using hall

theorem strips_writeLeaf {vs : List Text} (h : ∀ v ∈ vs, Spelled v) :
    Strips (writeLeaf vs) (compactLeaf vs) := by
  have hopen := strips_bare (c := '[') rfl
  have hclose := strips_bare (c := ']') rfl
  have harray := (hopen.append (strips_writeValues h)).append hclose
  cases vs with
  | nil => exact harray
  | cons v vs =>
      cases vs with
      | nil => exact (h v (.head [])).strips.append (strips_bare (c := ';') rfl)
      | cons w vs => exact harray

theorem lexes_compactLeaf {vs : List Text} (hne : vs ≠ []) (h : ∀ v ∈ vs, Spelled v) :
    Lexes (compactLeaf vs) (stored (leafTokens vs)) := by
  have harray : Lexes (['['] ++ compactValues vs ++ [']'])
      (stored (['['] :: valueTokens vs ++ [[']']])) := by
    have hvalues := (lexes_delimeter (c := '[') rfl).append (lexes_compactValues hne h)
    rw [stored_append, stored_cons (by simp)]
    simpa [stored] using hvalues
  cases vs with
  | nil => exact harray
  | cons v vs =>
      cases vs with
      | nil =>
          have hv := (h v (.head [])).lexes (d := ';') rfl
          have htokens : stored (leafTokens [v]) = stored [v] ++ [[';']] :=
            stored_append [v] [[';']]
          rw [htokens]
          exact hv
      | cons w vs => exact harray

def trimmed (vs : List Text) : List Text := if vs.getLast? = some [] then vs.dropLast else vs

theorem trimmed_cons (v w : Text) (vs : List Text) :
    trimmed (v :: w :: vs) = v :: trimmed (w :: vs) := by
  rw [trimmed, trimmed, List.getLast?_cons_cons]
  split <;> rfl

section

variable {tokens : List Text}

/-- What follows a value that ends the array, or that ends it with an empty one. -/
theorem arrayValues_end {before after : List Text} (values : List Text)
    (h : tokens = before ++ [']'] :: after) :
    ∃ x, Yields (fun fuel => emptyValues tokens fuel before.length values) x ∧
      Yields (fun fuel => arrayValues tokens fuel x.1 x.2) (before.length, values) := by
  have hend := accept_at h rfl
  refine ⟨(before.length, values), ?_, ?_⟩
  · rw [yields_emptyValues, if_neg fun hc => absurd ((hend ',').mp hc) (by decide)]
  · rw [yields_arrayValues, if_pos ((hend ']').mpr rfl)]

/-- From a place in an array that is not the first one, where the empty values
before the next one are read first, and from a value. -/
def ItemsRead (tokens : List Text) (vs : List Text) : Prop :=
  ∀ (before after values : List Text),
    tokens = before ++ stored (valueTokens vs) ++ [']'] :: after →
    (∃ x, Yields (fun fuel => emptyValues tokens fuel before.length values) x ∧
      Yields (fun fuel => arrayValues tokens fuel x.1 x.2)
        (before.length + (stored (valueTokens vs)).length, values ++ trimmed vs)) ∧
    (vs.head? ≠ some [] → Yields (fun fuel => arrayValues tokens fuel before.length values)
      (before.length + (stored (valueTokens vs)).length, values ++ trimmed vs))

theorem itemsRead_empty_last : ItemsRead tokens [[]] := by
  intro before after values ht
  have hend : tokens = before ++ [']'] :: after := by simpa [stored, valueTokens] using ht
  refine ⟨?_, fun hhead => absurd rfl hhead⟩
  simpa [stored, valueTokens, trimmed] using arrayValues_end values hend

theorem itemsRead_empty {w : Text} {vs : List Text} (ih : ItemsRead tokens (w :: vs)) :
    ItemsRead tokens ([] :: w :: vs) := by
  intro before after values ht
  refine ⟨?_, fun hhead => absurd rfl hhead⟩
  have hstored : stored (valueTokens ([] :: w :: vs)) =
      [','] :: stored (valueTokens (w :: vs)) := stored_more ..
  rw [hstored] at ht ⊢
  have hcomma : tokens = before ++ [','] ::
      (stored (valueTokens (w :: vs)) ++ [']'] :: after) := by simpa using ht
  have hnext := next_at hcomma (by simp) rfl
  have hrest : tokens = (before ++ [[',']]) ++ stored (valueTokens (w :: vs)) ++
      [']'] :: after := by simpa using ht
  obtain ⟨⟨x, hx, hr⟩, -⟩ := ih (before ++ [[',']]) after (values ++ [[]]) hrest
  refine ⟨x, ?_, ?_⟩
  · rw [yields_emptyValues, if_pos ((accept_at hcomma rfl _).mpr rfl), hnext]
    simpa using hx
  · simpa [trimmed_cons, Nat.add_assoc, Nat.add_comm 1] using hr

/-- A value that an array is not ended by, and that is not taken for the comma
before it. -/
def Taken (v : Text) : Prop := v ≠ [','] ∧ v ≠ [']']

theorem IsValue.taken {v : Text} (h : IsValue v) : Taken v :=
  ⟨h.notDelimeter ',' rfl, h.notDelimeter ']' rfl⟩

theorem IsItem.taken {v : Text} (h : IsItem v) : Taken v := by
  cases h with
  | inl h =>
      rw [h]
      exact ⟨by simp, by simp⟩
  | inr h => exact h.taken

theorem arrayValues_last {v : Text} (hv : v ≠ []) (hc : v ≠ [']']) (before after values : List Text)
    (ht : tokens = before ++ stored (valueTokens [v]) ++ [']'] :: after) :
    Yields (fun fuel => arrayValues tokens fuel before.length values)
      (before.length + (stored (valueTokens [v])).length, values ++ trimmed [v]) := by
  have hstored : stored (valueTokens [v]) = [v] := stored_cons hv []
  have htrim : trimmed [v] = [v] := if_neg (by simpa using hv)
  rw [hstored] at ht
  have hlast : tokens = before ++ v :: [']'] :: after := by simpa using ht
  have hend : tokens = (before ++ [v]) ++ [']'] :: after := by simpa using ht
  rw [arrayValues_plain hlast (by simp) (by simp) hc, hstored, htrim]
  simpa using arrayValues_end (values ++ [v]) hend

theorem arrayValues_more {v w : Text} {vs : List Text} (hv : v ≠ []) (hc : v ≠ [']'])
    (ih : ItemsRead tokens (w :: vs)) (before after values : List Text)
    (ht : tokens = before ++ stored (valueTokens (v :: w :: vs)) ++ [']'] :: after) :
    Yields (fun fuel => arrayValues tokens fuel before.length values)
      (before.length + (stored (valueTokens (v :: w :: vs))).length,
        values ++ trimmed (v :: w :: vs)) := by
  have hstored : stored (valueTokens (v :: w :: vs)) =
      v :: [','] :: stored (valueTokens (w :: vs)) := by
    rw [stored_more, stored_cons hv]
    rfl
  rw [hstored] at ht ⊢
  have hvalue : tokens = before ++ v :: [','] ::
      (stored (valueTokens (w :: vs)) ++ [']'] :: after) := by simpa using ht
  have hrest : tokens = (before ++ [v, [',']]) ++ stored (valueTokens (w :: vs)) ++
      [']'] :: after := by simpa using ht
  obtain ⟨⟨x, hx, hr⟩, -⟩ := ih (before ++ [v, [',']]) after (values ++ [v]) hrest
  rw [arrayValues_comma hvalue (by simp) hc]
  refine ⟨x, hx, ?_⟩
  simpa [trimmed_cons, Nat.add_assoc, Nat.add_comm 2] using hr

/-- Where there is no comma to skip, it is enough to read on from the value. -/
theorem itemsRead_value {v : Text} {vs : List Text} (hv : v ≠ []) (hcomma : v ≠ [','])
    (h : ∀ before after values : List Text,
      tokens = before ++ stored (valueTokens (v :: vs)) ++ [']'] :: after →
      Yields (fun fuel => arrayValues tokens fuel before.length values)
        (before.length + (stored (valueTokens (v :: vs))).length, values ++ trimmed (v :: vs))) :
    ItemsRead tokens (v :: vs) := by
  intro before after values ht
  obtain ⟨rest, hrest⟩ : ∃ rest, stored (valueTokens (v :: vs)) = v :: rest := by
    cases vs <;> exact ⟨_, stored_cons hv _⟩
  have hfirst : tokens = before ++ v :: (rest ++ [']'] :: after) := by
    rw [hrest] at ht
    simpa using ht
  have hcomma : ¬ accept tokens ',' before.length := fun hc =>
    hcomma ((accept_at hfirst rfl _).mp hc)
  have harray := h before after values ht
  refine ⟨⟨(before.length, values), ?_, harray⟩, fun _ => harray⟩
  rw [yields_emptyValues, if_neg hcomma]

theorem arrayValues_items {vs : List Text} (hne : vs ≠ []) (h : ∀ v ∈ vs, Taken v) :
    ItemsRead tokens vs := by
  induction vs with
  | nil => exact absurd rfl hne
  | cons v vs ih =>
      have hrest : ∀ u ∈ vs, Taken u := fun u hu => h u (.tail v hu)
      obtain ⟨hcomma, hclose⟩ := h v (.head vs)
      by_cases hv : v = []
      · subst hv
        cases vs with
        | nil => exact itemsRead_empty_last
        | cons w vs => exact itemsRead_empty (ih (by simp) hrest)
      · refine itemsRead_value hv hcomma ?_
        cases vs with
        | nil => exact arrayValues_last hv hclose
        | cons w vs => exact arrayValues_more hv hclose (ih (by simp) hrest)

end

theorem written_items {vs : List Text} (hne : vs ≠ []) (h : ∀ v ∈ vs, Spelled v) :
    Written vs (compactLeaf vs) (stored (leafTokens vs)) :=
  ⟨hne, strips_writeLeaf h, lexes_compactLeaf hne h⟩

theorem readsAs_taken (name : Text) {v w : Text} {vs : List Text} (hv : v ≠ []) (hc : v ≠ [']'])
    (h : ∀ u ∈ w :: vs, Taken u) :
    ReadsAs (name :: ['='] :: stored (leafTokens (v :: w :: vs)))
      [⟨name, trimmed (v :: w :: vs), []⟩] [⟨name, trimmed (v :: w :: vs), []⟩] := by
  have htokens : leafTokens (v :: w :: vs) = ['['] :: valueTokens (v :: w :: vs) ++ [[']']] := rfl
  rw [htokens, stored_append, stored_cons (by simp)]
  exact readsAs_array name fun tokens before after values ht =>
    arrayValues_more hv hc (arrayValues_items (by simp) h) before after values ht

theorem readsAs_items (name : Text) {vs : List Text} (hne : vs ≠ []) (h : ∀ v ∈ vs, IsItem v)
    (hfirst : vs.head? ≠ some []) :
    ReadsAs (name :: ['='] :: stored (leafTokens vs)) [⟨name, trimmed vs, []⟩]
      [⟨name, trimmed vs, []⟩] := by
  obtain ⟨v, vs, rfl⟩ := List.exists_cons_of_ne_nil hne
  have hv : IsValue v := (h v (.head vs)).resolve_left (by simpa using hfirst)
  cases vs with
  | nil =>
      have htokens : stored (leafTokens [v]) = [v, [';']] := stored_cons hv.nonempty _
      have htrim : trimmed [v] = [v] := if_neg (by simpa using hv.nonempty)
      rw [htokens, htrim]
      exact readsAs_single name (hv.notDelimeter '[' rfl) (hv.notDelimeter '{' rfl)
  | cons w vs =>
      exact readsAs_taken name hv.nonempty hv.taken.2 fun u hu => (h u (.tail v hu)).taken

theorem readable_values {name : Text} (hn : IsName name) {vs : List Text} (hne : vs ≠ [])
    (h : ∀ v ∈ vs, IsValue v) :
    Readable ⟨name, vs, []⟩ (name ++ ['='] ++ compactLeaf vs) (name :: ['='] :: leafTokens vs)
      [⟨name, vs, []⟩] [⟨name, vs, []⟩] := by
  have hends : ∀ v ∈ vs, some v ≠ some [] := fun v hv he =>
    (h v hv).nonempty (Option.some.inj he)
  have hfirst : vs.head? ≠ some [] := by
    rw [List.head?_eq_some_head hne]
    exact hends _ (List.head_mem hne)
  have htrim : trimmed vs = vs := by
    rw [trimmed, if_neg]
    rw [List.getLast?_eq_some_getLast hne]
    exact hends _ (List.getLast_mem hne)
  have hitems : ∀ v ∈ vs, IsItem v := fun v hv => .inr (h v hv)
  have hreads := readsAs_items name hne hitems hfirst
  rw [htrim] at hreads
  have hleaf := readable_leaf hn.word (written_items hne fun v hv => (hitems v hv).spelled) hreads
  rwa [stored_leafTokens h] at hleaf

theorem readableAll {es : List Element}
    (h : ∀ e ∈ es, Readable e (compact e) (elementTokens e) [e] [e]) :
    ReadableAll es (compacts es) (elementsTokens es) es es := by
  induction es with
  | nil => exact .nil
  | cons e es ih =>
      have hall := (ih fun f hf => h f (.tail e hf)).cons (h e (.head es))
      rwa [ite_self] at hall

theorem readable {e : Element} (h : WellFormed e) :
    Readable e (compact e) (elementTokens e) [e] [e] := by
  induction h with
  | values hn hne hv =>
      rw [compact, elementTokens, if_neg (by simp), if_neg (by simp)]
      exact readable_values hn hne hv
  | children hn hne hc ih =>
      have hpos := List.length_pos_iff.mpr hne
      rw [compact, elementTokens, if_pos hpos, if_pos hpos]
      exact readable_object hn.word hne (readableAll ih)

/-- Reading what save writes gives the saved tree again. -/
theorem save_fromStream (c : Configor) (h : ∀ e ∈ c.root, WellFormed e) :
    ∃ c', Yields (fun fuel => fromStream fuel (save c)) c' ∧ c'.root = c.root :=
  (readableAll fun e he => readable (h e he)).fromStream

theorem save_fromStream_nested :
    let c : Configor := ⟨[], [], [], 0, [⟨['a'], [], [⟨['b'], [[' ', '#'], ['1']], []⟩]⟩]⟩
    ∃ c', Yields (fun fuel => fromStream fuel (save c)) c' ∧ c'.root = c.root := by
  refine save_fromStream _ ?_
  have hvalue {v : Text} (hne : v ≠ [])
      (hc : v.all (fun c => isPrintable c && !isQuote c && c != '\\' && !delimeter c) = true) :
      IsValue v := by
    simp only [List.all_eq_true, Bool.and_eq_true, Bool.not_eq_true', bne_iff_ne] at hc
    refine ⟨hne, fun c h => ⟨(hc c h).1.1.1, (hc c h).1.1.2, (hc c h).1.2⟩, ?_⟩
    rintro c hdc rfl
    exact absurd (hdc.symm.trans (hc c (.head [])).2) (by decide)
  intro e he
  obtain rfl := List.mem_singleton.mp he
  refine .children ⟨by decide, List.forall_mem_singleton.mpr (by decide)⟩ (by simp) fun e he => ?_
  obtain rfl := List.mem_singleton.mp he
  refine .values ⟨by decide, List.forall_mem_singleton.mpr (by decide)⟩ (by decide) ?_
  simp only [List.forall_mem_cons, List.not_mem_nil, false_imp_iff, implies_true, and_true]
  exact ⟨hvalue (by decide) (by decide), hvalue (by decide) (by decide)⟩

end Ashe.ConfigorRoundTrip
