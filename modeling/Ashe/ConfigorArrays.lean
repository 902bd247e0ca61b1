import Ashe.ConfigorRoundTrip

namespace Ashe.ConfigorArrays

open ConfigorText Fuel ConfigorSteps ConfigorTrees ConfigorRoundTrip

/-- A tree of named elements, each with children or with values of a kind. -/
inductive Built (L : List Text → Prop) : Element → Prop
  | values {name : Text} {values : List Text} (hn : IsName name) (hv : L values) :
      Built L ⟨name, values, []⟩
  | children {name : Text} {children : List Element} (hn : IsName name) (hne : children ≠ [])
      (hc : ∀ e ∈ children, Built L e) : Built L ⟨name, [], children⟩

def Padded (vs : List Text) : Prop := vs ≠ [] ∧ ∀ v ∈ vs, IsItem v

def Closed (vs : List Text) : Prop := vs.head? ≠ some [] ∧ vs.getLast? ≠ some []

theorem built_values {L : List Text → Prop} {name : Text} {vs : List Text} (hn : IsName name) :
    Built L ⟨name, vs, []⟩ ↔ L vs := by
  constructor
  · intro h
    cases h with
    | values _ hv => exact hv
    | children _ hne => exact absurd rfl hne
  · exact .values hn

theorem built_children {L : List Text → Prop} {name : Text} {es : List Element} (hn : IsName name)
    (hne : es ≠ []) : Built L ⟨name, [], es⟩ ↔ ∀ e ∈ es, Built L e := by
  constructor
  · intro h
    cases h with
    | values => exact absurd rfl hne
    | children _ _ hc => exact hc
  · exact .children hn hne

theorem trimmed_eq_self {vs : List Text} (hne : vs ≠ []) :
    trimmed vs = vs ↔ vs.getLast? ≠ some [] := by
  rw [trimmed]
  split
  next h =>
    refine ⟨fun heq => ?_, fun hlast => absurd h hlast⟩
    have hlen := congrArg List.length heq
    have hpos := List.length_pos_iff.mpr hne
    rw [List.length_dropLast] at hlen
    omega
  next h => exact ⟨fun _ => h, fun _ => rfl⟩

/-- The comma behind an empty first value is taken for the value. -/
theorem arrayValues_gap {w : Text} {ws : List Text} (h : ∀ v ∈ w :: ws, IsItem v) :
    ∃ us, ∀ (tokens before after values : List Text),
      tokens = before ++ stored (valueTokens ([] :: w :: ws)) ++ [']'] :: after →
      Yields (fun fuel => arrayValues tokens fuel before.length values)
        (before.length + (stored (valueTokens ([] :: w :: ws))).length,
          values ++ [','] :: us) := by
  have hstored : stored (valueTokens ([] :: w :: ws)) =
      [','] :: stored (valueTokens (w :: ws)) := stored_more ..
  rw [hstored]
  -- the loop reads the comma like a value
  by_cases htwo : w = [] ∧ ws ≠ []
  · -- one more comma is skipped, as if it followed that value
    obtain ⟨rfl, hws⟩ := htwo
    obtain ⟨u, ws, rfl⟩ := List.exists_cons_of_ne_nil hws
    refine ⟨trimmed (u :: ws), fun tokens before after values ht => ?_⟩
    have hstored' : stored (valueTokens ([] :: u :: ws)) =
        [','] :: stored (valueTokens (u :: ws)) := stored_more ..
    rw [hstored'] at ht ⊢
    have hfirst : tokens = before ++ [','] :: [','] ::
        (stored (valueTokens (u :: ws)) ++ [']'] :: after) := by simpa using ht
    have hrest : tokens = (before ++ [[','], [',']]) ++ stored (valueTokens (u :: ws)) ++
        [']'] :: after := by simpa using ht
    obtain ⟨⟨x, hx, hr⟩, -⟩ := arrayValues_items (by simp) (fun v hv => (h v (.tail [] hv)).taken)
      (before ++ [[','], [',']]) after (values ++ [[',']]) hrest
    rw [arrayValues_comma hfirst (by simp) (by simp)]
    refine ⟨x, hx, ?_⟩
    simpa [Nat.add_assoc, Nat.add_comm 2] using hr
  · have hhead : (stored (valueTokens (w :: ws))).head? ≠ some [','] := by
      cases h w (.head ws) with
      | inl hw =>
          obtain rfl : ws = [] := Classical.not_not.mp fun hws => htwo ⟨hw, hws⟩
          subst hw
          simp [stored, valueTokens]
      | inr hw =>
          obtain ⟨rest, hrest⟩ : ∃ rest, stored (valueTokens (w :: ws)) = w :: rest := by
            cases ws <;> exact ⟨_, stored_cons hw.nonempty _⟩
          rw [hrest]
          simpa using hw.notDelimeter ',' rfl
    refine ⟨trimmed (w :: ws), fun tokens before after values ht => ?_⟩
    have hfirst : tokens = before ++ [','] ::
        (stored (valueTokens (w :: ws)) ++ [']'] :: after) := by simpa using ht
    have hrest : tokens = (before ++ [[',']]) ++ stored (valueTokens (w :: ws)) ++
        [']'] :: after := by simpa using ht
    obtain ⟨⟨x, hx, hr⟩, -⟩ := arrayValues_items (by simp) (fun v hv => (h v hv).taken)
      (before ++ [[',']]) after
      (values ++ [[',']]) hrest
    have hplain : (stored (valueTokens (w :: ws)) ++ [']'] :: after).head? ≠ some [','] := by
      rw [List.head?_append]
      cases hw : (stored (valueTokens (w :: ws))).head? with
      | none => simp
      | some t => rwa [Option.some_or, ← hw]
    rw [arrayValues_plain hfirst (by simp) hplain (by simp)]
    refine ⟨x, hx, ?_⟩
    simpa [Nat.add_assoc, Nat.add_comm 1] using hr

/-- A single empty value leaves only a semicolon. It is taken for the value,
and what follows it for a missing semicolon. -/
theorem readsAs_empty (name : Text) :
    ReadsAs [name, ['='], [';']] [] [⟨name, [[';']], []⟩] := by
  intro tokens before after parent ht hafter
  have h0 : tokens = before ++ name :: ['='] :: [';'] :: after := by simpa using ht
  have h2 : tokens = (before ++ [name, ['=']]) ++ [';'] :: after := by simpa using h0
  have hat (c : Char) : accept tokens c (before.length + 2) ↔ [';'] = [c] :=
    accept_at h2 (by simp) c
  have ha : ¬ accept tokens '[' (before.length + 2) := fun h => absurd ((hat _).mp h) (by decide)
  have ho : ¬ accept tokens '{' (before.length + 2) := fun h => absurd ((hat _).mp h) (by decide)
  have hlen : tokens.length = before.length + 3 + after.length := by
    rw [h0, List.length_append, List.length_cons, List.length_cons, List.length_cons]
    omega
  have hnext : next tokens (before.length + 2) = min (before.length + 3) (tokens.length - 1) :=
    next_min (by omega)
  cases after with
  | nil =>
      have hlast : next tokens (before.length + 2) = before.length + 2 := by
        rw [hnext, hlen, List.length_nil]
        omega
      have hs : expect tokens ';' (next tokens (before.length + 2)) =
          some (min (before.length + 3) (tokens.length - 1)) := by
        rw [hlast, expect_accept ((hat ';').mpr rfl), hnext]
      have hcall : VarCall tokens before.length parent _ := .value (expect_equals h0) ha ho hs
      rwa [get_at h0 rfl, get_at h2 (by simp)] at hcall
  | cons t after =>
      have h3 : tokens = (before ++ [name, ['='], [';']]) ++ t :: after := by simpa using h0
      have hstart : next tokens (before.length + 2) = before.length + 3 := by
        rw [hnext, hlen, List.length_cons]
        omega
      have hs : expect tokens ';' (next tokens (before.length + 2)) = none := by
        rw [hstart, expect, if_neg]
        intro hc
        exact hafter (congrArg some ((accept_at h3 (by simp) _).mp hc))
      have hcall : VarCall tokens before.length parent _ := .noSemicolon (expect_equals h0) ha ho hs
      rw [hnext] at hcall
      simpa using hcall

/-- What is read for an element is the element just when its lists are closed. -/
def Agrees (e : Element) (r : List Element) : Prop := r.length ≤ 1 ∧ (r = [e] ↔ Built Closed e)

def AgreesAll (es r : List Element) : Prop :=
  r.length ≤ es.length ∧ (r = es ↔ ∀ e ∈ es, Built Closed e)

theorem AgreesAll.cons {e : Element} {es r rs : List Element} (h : Agrees e r)
    (hs : AgreesAll es rs) : AgreesAll (e :: es) (r ++ rs) := by
  obtain ⟨hlen, hr⟩ := h
  obtain ⟨hlens, hrs⟩ := hs
  refine ⟨by rw [List.length_append, List.length_cons]; omega, ?_⟩
  rw [List.forall_mem_cons, ← hr, ← hrs]
  constructor
  · intro heq
    have htotal := congrArg List.length heq
    rw [List.length_append, List.length_cons] at htotal
    have heq : r ++ rs = [e] ++ es := heq
    exact List.append_inj heq (by rw [List.length_singleton]; omega)
  · rintro ⟨rfl, rfl⟩
    rfl

theorem agrees_values {name : Text} (hn : IsName name) {vs us : List Text}
    (h : us = vs ↔ Closed vs) : Agrees ⟨name, vs, []⟩ [⟨name, us, []⟩] := by
  refine ⟨Nat.le_refl 1, ?_⟩
  rw [built_values hn, ← h]
  simp

theorem readable_padded {name : Text} (hn : IsName name) {vs : List Text} (h : Padded vs) :
    ∃ text tokens more last, Readable ⟨name, vs, []⟩ text tokens more last ∧
      Agrees ⟨name, vs, []⟩ more ∧ Agrees ⟨name, vs, []⟩ last := by
  obtain ⟨hne, hitems⟩ := h
  have hleaf {more last : List Element}
      (hr : ReadsAs (name :: ['='] :: stored (leafTokens vs)) more last) :
      Readable ⟨name, vs, []⟩ (name ++ ['='] ++ compactLeaf vs)
        (name :: ['='] :: stored (leafTokens vs)) more last :=
    readable_leaf hn.word (written_items hne fun v hv => (hitems v hv).spelled) hr
  by_cases hfirst : vs.head? ≠ some []
  · have hagrees : Agrees ⟨name, vs, []⟩ [⟨name, trimmed vs, []⟩] := by
      apply agrees_values hn
      rw [trimmed_eq_self hne]
      exact ⟨fun hlast => ⟨hfirst, hlast⟩, fun hclosed => hclosed.2⟩
    exact ⟨_, _, _, _, hleaf (readsAs_items name hne hitems hfirst), hagrees, hagrees⟩
  · have hopen : ¬ Closed vs := fun hclosed => hfirst hclosed.1
    obtain ⟨v, ws, rfl⟩ := List.exists_cons_of_ne_nil hne
    obtain rfl : v = [] := by simpa using hfirst
    cases ws with
    | nil =>
        refine ⟨_, _, _, _, hleaf (readsAs_empty name), ⟨Nat.zero_le 1, ?_⟩,
          agrees_values hn ⟨fun heq => ?_, fun hclosed => absurd hclosed hopen⟩⟩
        · rw [built_values hn]
          exact ⟨fun heq => absurd heq (by simp), fun hclosed => absurd hclosed hopen⟩
        · exact absurd heq (by decide)
    | cons w ws =>
        obtain ⟨us, hus⟩ := arrayValues_gap fun v hv => hitems v (.tail [] hv)
        have htokens : stored (leafTokens ([] :: w :: ws)) =
            ['['] :: stored (valueTokens ([] :: w :: ws)) ++ [[']']] := by
          rw [leafTokens, stored_append, stored_cons (by simp)]
          · rfl
          · simp
        have hagrees : Agrees ⟨name, [] :: w :: ws, []⟩ [⟨name, [','] :: us, []⟩] :=
          agrees_values hn
            ⟨fun heq => absurd heq (by simp), fun hclosed => absurd hclosed hopen⟩
        refine ⟨_, _, _, _, hleaf (htokens ▸ readsAs_array name fun tokens before after values ht =>
          hus tokens before after values ht), hagrees, hagrees⟩

theorem readableAll_agrees {es : List Element}
    (h : ∀ e ∈ es, ∃ text tokens more last, Readable e text tokens more last ∧
      Agrees e more ∧ Agrees e last) :
    ∃ text tokens more last, ReadableAll es text tokens more last ∧
      AgreesAll es more ∧ AgreesAll es last := by
  induction es with
  | nil => exact ⟨_, _, _, _, .nil, by simp [AgreesAll], by simp [AgreesAll]⟩
  | cons e es ih =>
      obtain ⟨text, tokens, more, last, he, hmore, hlast⟩ := h e (.head es)
      obtain ⟨rest, others, mores, lasts, hes, hmores, hlasts⟩ := ih fun f hf => h f (.tail e hf)
      refine ⟨_, _, _, _, hes.cons he, hmores.cons hmore, hlasts.cons ?_⟩
      split
      · exact hlast
      · exact hmore

theorem built_readable {e : Element} (h : Built Padded e) :
    ∃ text tokens more last, Readable e text tokens more last ∧
      Agrees e more ∧ Agrees e last := by
  induction h with
  | values hn hv => exact readable_padded hn hv
  | @children name es hn hne hc ih =>
      obtain ⟨text, tokens, more, last, hes, ⟨-, hmore⟩, -⟩ := readableAll_agrees ih
      have hagrees : Agrees ⟨name, [], es⟩ [⟨name, [], more⟩] := by
        refine ⟨Nat.le_refl 1, ?_⟩
        rw [built_children hn hne, ← hmore]
        simp
      exact ⟨_, _, _, _, readable_object hn.word hne hes, hagrees, hagrees⟩

/-- A tree whose lists of values may have empty ones in any place is read back
as it was just when no list begins or ends with an empty one. -/
theorem padded_roundTrip_iff (c : Configor) (h : ∀ e ∈ c.root, Built Padded e) :
    (∃ c', Yields (fun fuel => fromStream fuel (save c)) c' ∧ c'.root = c.root) ↔
      ∀ e ∈ c.root, Built Closed e := by
  obtain ⟨text, tokens, more, last, hall, -, -, hlast⟩ :=
    readableAll_agrees fun e he => built_readable (h e he)
  obtain ⟨c', hc', hroot⟩ := hall.fromStream
  rw [← hlast]
  constructor
  · rintro ⟨c'', hc'', hroot'⟩
    obtain rfl := (readText_steady _ _).unique hc' hc''
    exact hroot.symm.trans hroot'
  · intro heq
    exact ⟨c', hc', hroot.trans heq⟩

theorem padded_roundTrip_iff_gap :
    let c : Configor := ⟨[], [], [], 0, [⟨['a'], [['x'], [], [], ['1']], []⟩]⟩
    ∃ c', Yields (fun fuel => fromStream fuel (save c)) c' ∧ c'.root = c.root := by
  have hname : IsName ['a'] := ⟨by decide, List.forall_mem_singleton.mpr (by decide)⟩
  have hx : IsValue ['x'] := ⟨by decide, List.forall_mem_singleton.mpr (by decide), by
    rintro c hc h
    obtain rfl := List.singleton_inj.mp h
    exact absurd hc (by decide)⟩
  have h1 : IsValue ['1'] := ⟨by decide, List.forall_mem_singleton.mpr (by decide), by
    rintro c hc h
    obtain rfl := List.singleton_inj.mp h
    exact absurd hc (by decide)⟩
  refine (padded_roundTrip_iff _
    (List.forall_mem_singleton.mpr (.values hname ⟨by decide, ?_⟩))).mpr
    (List.forall_mem_singleton.mpr (.values hname ⟨by decide, by decide⟩))
  simp only [List.forall_mem_cons, List.not_mem_nil, false_imp_iff, implies_true, and_true]
  exact ⟨.inr hx, .inl rfl, .inl rfl, .inr h1⟩

/-- The list that setting the third value of a new element makes. -/
theorem leading_gap_lost :
    let c : Configor := ⟨[], [], [], 0, [⟨['a'], [[], [], ['x']], []⟩]⟩
    ¬ ∃ c', Yields (fun fuel => fromStream fuel (save c)) c' ∧ c'.root = c.root := by
  rintro c ⟨c', h, hroot⟩
  have hsave : preprocess (save c) = ['a', '=', '[', ',', ',', '"', 'x', '"', ']'] := by decide
  have htokens : tokenize ['a', '=', '[', ',', ',', '"', 'x', '"', ']'] =
    [['a'], ['='], ['['], [','], [','], ['x'], [']']] := by decide
  have hread : ∃ r, fromStream 10 (save c) = some r ∧ r.root = [⟨['a'], [[','], ['x']], []⟩] := by
    simp only [fromStream, readText, hsave, htokens]
    exact ⟨_, rfl, rfl⟩
  obtain ⟨r, hr, hroot'⟩ := hread
  obtain rfl := (readText_steady _ _).unique h ⟨10, hr⟩
  exact absurd (hroot'.symm.trans hroot) (by simp [c])

end Ashe.ConfigorArrays
