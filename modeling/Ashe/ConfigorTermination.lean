import Ashe.ConfigorSteps

namespace Ashe.ConfigorTermination

open ConfigorText Fuel ConfigorSteps

/-- What the parser reads next. After a value and after a bracket a semicolon
may follow. -/
inductive Place
  | name
  | equals
  | value
  | semicolon
  | array
deriving DecidableEq

/-- A token at the head of one of the loops over elements, with the number of
objects that are open. -/
def element (depth : Nat) (token : Text) : Nat × Place :=
  if 0 < depth ∧ token = ['}'] then (depth - 1, .semicolon) else (depth, .equals)

/-- The parser as a machine over the tokens, as long as it does not stand at
the last of them. -/
def step (s : Nat × Place) (token : Text) : Nat × Place :=
  match s.2 with
  | .name => element s.1 token
  | .equals => if token = ['='] then (s.1, .value) else element s.1 token
  | .value =>
      if token = ['['] then (s.1, .array)
      else if token = ['{'] then (s.1 + 1, .name)
      else (s.1, .semicolon)
  | .semicolon => if token = [';'] then (s.1, .name) else element s.1 token
  | .array => if token = [']'] then (s.1, .semicolon) else s

/-- The last token closes what is open. The cursor stays on it: it closes one
array, or any number of objects. -/
def LastCloses (s : Nat × Place) (last : Text) : Prop :=
  match s.2 with
  | .array => s.1 = 0 ∧ last = [']']
  | .value => if s.1 = 0 then last ≠ ['['] ∧ last ≠ ['{'] else last = ['}']
  | .name | .equals | .semicolon => s.1 = 0 ∨ last = ['}']

instance (last : Text) : (s : Nat × Place) → Decidable (LastCloses s last)
  | (depth, .array) => inferInstanceAs (Decidable (depth = 0 ∧ last = [']']))
  | (depth, .value) => inferInstanceAs
      (Decidable (if depth = 0 then last ≠ ['['] ∧ last ≠ ['{'] else last = ['}']))
  | (depth, .name) | (depth, .equals) | (depth, .semicolon) =>
      inferInstanceAs (Decidable (depth = 0 ∨ last = ['}']))

/-- What is open when the parser comes to the last token is closed by it. -/
def Closes (tokens : List Text) : Prop :=
  tokens = [] ∨ LastCloses (tokens.dropLast.foldl step (0, .name)) (tokens.getLastD [])

instance (tokens : List Text) : Decidable (Closes tokens) := inferInstanceAs (Decidable (_ ∨ _))

section

variable {tokens : List Text}

theorem next_of_lt {i : Nat} (h : i + 1 < tokens.length) : next tokens i = i + 1 :=
  if_pos (by omega)

theorem next_last {i : Nat} (h : i + 1 = tokens.length) : next tokens i = i :=
  if_neg (by omega)

theorem next_le (tokens : List Text) (i : Nat) : next tokens i ≤ i + 1 := by
  rw [next]
  split <;> omega

theorem afterValue_comma {i k : Nat} (hik : i < k) (hk : k < afterValue tokens i) :
    accept tokens ',' k := by
  have h1 := next_le tokens i
  have h2 := next_le tokens (next tokens i)
  rw [afterValue] at hk
  split at hk
  next hcomma =>
    obtain rfl : k = next tokens i := by omega
    exact hcomma
  next => omega

theorem emptyValues_commas {fuel i : Nat} {values : List Text} {r : Nat × List Text}
    (h : emptyValues tokens fuel i values = some r) {k : Nat} (hik : i ≤ k) (hk : k < r.1) :
    accept tokens ',' k := by
  induction fuel generalizing i values with
  | zero => exact absurd h (by simp [emptyValues])
  | succ fuel ih =>
      rw [emptyValues] at h
      split at h
      next hc =>
        obtain rfl | hlt := Nat.eq_or_lt_of_le hik
        · exact hc
        · have hnext := next_le tokens i
          exact ih h (by omega)
      next =>
        obtain rfl := Option.some.inj h
        exact absurd hk (Nat.not_lt.mpr hik)

structure Closing (tokens : List Text) (i j : Nat) : Prop where
  le : i ≤ j
  lt : j < tokens.length
  accept : accept tokens ']' j
  before : ∀ k, i ≤ k → k < j → ¬ ConfigorText.accept tokens ']' k

theorem arrayValues_before {fuel i : Nat} {values : List Text} {r : Nat × List Text}
    (h : arrayValues tokens fuel i values = some r) {k : Nat} (hik : i ≤ k) (hk : k < r.1) :
    ¬ accept tokens ']' k := by
  induction fuel generalizing i values with
  | zero => exact absurd h (by simp [arrayValues])
  | succ fuel ih =>
      rw [arrayValues] at h
      split at h
      next =>
        obtain rfl := Option.some.inj h
        exact absurd hk (Nat.not_lt.mpr hik)
      next hc =>
        obtain ⟨x, hx, hr⟩ := Option.bind_eq_some_iff.mp h
        obtain rfl | hlt := Nat.eq_or_lt_of_le hik
        · exact hc
        by_cases hxk : x.1 ≤ k
        · exact ih hr hxk
        have hcomma : accept tokens ',' k := by
          rw [Nat.not_le] at hxk
          change emptyValues tokens fuel (afterValue tokens i) _ = _ at hx
          by_cases hak : afterValue tokens i ≤ k
          · exact emptyValues_commas hx hak hxk
          · exact afterValue_comma hlt (Nat.not_le.mp hak)
        exact fun hb => absurd (accept_unique hcomma hb) (by decide)

theorem emptyValues_ends {j : Nat} (hj : j < tokens.length) (ha : accept tokens ']' j)
    (n : Nat) : ∀ {i : Nat}, i ≤ j → j - i = n → ∀ values,
      ∃ r, Yields (fun fuel => emptyValues tokens fuel i values) r ∧ r.1 ≤ j := by
  induction n with
  | zero =>
      intro i hi hn values
      obtain rfl : i = j := by omega
      have hc : ¬ accept tokens ',' i := fun hc => absurd (accept_unique hc ha) (by decide)
      exact ⟨_, yields_emptyValues.mpr (by rw [if_neg hc]), hi⟩
  | succ n ih =>
      intro i hi hn values
      by_cases hc : accept tokens ',' i
      · have hnext := next_of_lt (by omega : i + 1 < tokens.length)
        obtain ⟨r, hr, hrj⟩ := ih (by omega : i + 1 ≤ j) (by omega) (values ++ [[]])
        refine ⟨r, yields_emptyValues.mpr ?_, hrj⟩
        rwa [if_pos hc, hnext]
      · exact ⟨_, yields_emptyValues.mpr (by rw [if_neg hc]), hi⟩

theorem arrayValues_ends {j : Nat} (hj : j < tokens.length) (ha : accept tokens ']' j)
    (n : Nat) : ∀ {i : Nat}, i ≤ j → j - i < n → ∀ values,
      Ends fun fuel => arrayValues tokens fuel i values := by
  induction n with
  | zero => intro i hi hn; exact absurd hn (Nat.not_lt_zero _)
  | succ n ih =>
      intro i hi hn values
      by_cases hc : accept tokens ']' i
      · exact ⟨_, yields_arrayValues.mpr (by rw [if_pos hc])⟩
      have hij : i ≠ j := by
        rintro rfl
        exact hc ha
      have hnext := next_of_lt (by omega : i + 1 < tokens.length)
      have hafter : i < afterValue tokens i ∧ afterValue tokens i ≤ j := by
        rw [afterValue, hnext]
        split
        next hcomma =>
          have hne : i + 1 ≠ j := by
            rintro rfl
            exact absurd (accept_unique hcomma ha) (by decide)
          rw [next_of_lt (by omega)]
          omega
        next => omega
      obtain ⟨x, hx, hxj⟩ := emptyValues_ends hj ha _ hafter.2 rfl
        (values ++ [ConfigorText.get tokens i])
      obtain ⟨fuel, hf⟩ := hx
      have hle := (moves_emptyValues hf).1
      obtain ⟨r, hr⟩ := ih hxj (by omega) x.2
      refine ⟨r, yields_arrayValues.mpr ?_⟩
      rw [if_neg hc]
      exact ⟨x, ⟨fuel, hf⟩, hr⟩

/-- The loop over the values of an array ends at the first closing bracket, if
there is one. -/
theorem arrayValues_iff {i j : Nat} (hi : i < tokens.length) :
    (∃ values, Yields (fun fuel => arrayValues tokens fuel i []) (j, values)) ↔
      Closing tokens i j := by
  constructor
  · rintro ⟨values, fuel, h⟩
    have hm := moves_arrayValues h
    exact ⟨hm.1, hm.2 hi, arrayValues_accept h, fun k hik hk => arrayValues_before h hik hk⟩
  · intro h
    obtain ⟨⟨j', values⟩, fuel, hr⟩ := arrayValues_ends h.lt h.accept _ h.le (Nat.lt_succ_self _) []
    obtain rfl : j' = j := by
      obtain hlt | rfl | hlt := Nat.lt_trichotomy j' j
      · exact absurd (arrayValues_accept hr) (h.before _ (moves_arrayValues hr).1 hlt)
      · rfl
      · exact absurd h.accept (arrayValues_before hr h.le hlt)
    exact ⟨values, fuel, hr⟩

variable (tokens) in
/-- With the cursor at a loop head, that loop and the loops around it come to
an end: the loops of the open objects, then the loop of parse. -/
def Unwinds : Nat → Nat → Prop
  | 0, i => Ends fun fuel => parseVars tokens fuel i []
  | depth + 1, i => ∃ j children,
      Yields (fun fuel => objectVars tokens fuel i []) (j, children) ∧
        Unwinds depth (close tokens j)

variable (tokens) in
def UnwindsValue (depth i : Nat) : Prop :=
  if accept tokens '[' i then
    ∃ j, Closing tokens (next tokens i) j ∧ Unwinds tokens depth (close tokens j)
  else if accept tokens '{' i then Unwinds tokens (depth + 1) (next tokens i)
  else Unwinds tokens depth (close tokens i)

variable (tokens) in
/-- What the parser has left to do at a place of the machine comes to an end. -/
def Continues (s : Nat × Place) (i : Nat) : Prop :=
  match s.2 with
  | .name => Unwinds tokens s.1 i
  | .equals =>
      if accept tokens '=' i then UnwindsValue tokens s.1 (next tokens i)
      else Unwinds tokens s.1 i
  | .value => UnwindsValue tokens s.1 i
  | .semicolon => Unwinds tokens s.1 (afterBracket tokens i)
  | .array => ∃ j, Closing tokens i j ∧ Unwinds tokens s.1 (close tokens j)

theorem accept_iff {token : Char} {i : Nat} :
    accept tokens token i ↔ ConfigorText.get tokens i = [token] := beq_iff_eq

/-- After a value the cursor is past the semicolon, or where one is missing. -/
theorem call_value {i j start : Nat} {es : List Element} (h : VarCall tokens i [] (j, es))
    (he : expect tokens '=' (next tokens i) = some start) (ha : ¬ accept tokens '[' start)
    (ho : ¬ accept tokens '{' start) : j = close tokens start := by
  cases h with
  | noEquals he' => exact absurd (he.symm.trans he') (by simp)
  | array he' ha' hv => exact absurd (Option.some.inj (he.symm.trans he') ▸ ha') ha
  | object he' ho' hv => exact absurd (Option.some.inj (he.symm.trans he') ▸ ho') ho
  | noSemicolon he' ha' ho' hs =>
      obtain rfl := Option.some.inj (he.symm.trans he')
      have hc : ¬ accept tokens ';' (next tokens start) := fun hc =>
        absurd ((expect_accept hc).symm.trans hs) (by simp)
      rw [close, afterBracket, if_neg hc]
  | value he' ha' ho' hs =>
      obtain rfl := Option.some.inj (he.symm.trans he')
      obtain ⟨hc, rfl⟩ := expect_some hs
      rw [close, afterBracket, if_pos hc]

theorem call_exists {i start : Nat} (he : expect tokens '=' (next tokens i) = some start)
    (ha : ¬ accept tokens '[' start) (ho : ¬ accept tokens '{' start) :
    ∃ es, VarCall tokens i [] (close tokens start, es) := by
  by_cases hs : accept tokens ';' (next tokens start)
  · rw [close, afterBracket, if_pos hs]
    exact ⟨_, .value he ha ho (expect_accept hs)⟩
  · rw [close, afterBracket, if_neg hs]
    exact ⟨_, .noSemicolon he ha ho (expect_none hs)⟩

/-- What comes after the equals sign of a call, by the token after it. -/
theorem call_start {i start : Nat} (hi : i < tokens.length)
    (he : expect tokens '=' (next tokens i) = some start) (depth : Nat) :
    (∃ j es, VarCall tokens i [] (j, es) ∧ Unwinds tokens depth j) ↔
      UnwindsValue tokens depth start := by
  have hstart : next tokens start < tokens.length :=
    (((moves_next i).trans (moves_expect he)).trans (moves_next start)).2 hi
  rw [UnwindsValue]
  by_cases ha : accept tokens '[' start
  · rw [if_pos ha]
    constructor
    · rintro ⟨j, es, h, hu⟩
      cases h with
      | array he' ha' hv =>
          obtain rfl := Option.some.inj (he.symm.trans he')
          exact ⟨_, (arrayValues_iff hstart).mp ⟨_, hv⟩, hu⟩
      | noEquals he' => exact absurd (he.symm.trans he') (by simp)
      | object he' ho' hv =>
          obtain rfl := Option.some.inj (he.symm.trans he')
          exact absurd (accept_unique ha ho') (by decide)
      | noSemicolon he' ha' ho' hs => exact absurd (Option.some.inj (he.symm.trans he') ▸ ha) ha'
      | value he' ha' ho' hs => exact absurd (Option.some.inj (he.symm.trans he') ▸ ha) ha'
    · rintro ⟨j, hj, hu⟩
      obtain ⟨values, hv⟩ := (arrayValues_iff hstart).mpr hj
      exact ⟨_, _, .array he ha hv, hu⟩
  · rw [if_neg ha]
    by_cases ho : accept tokens '{' start
    · rw [if_pos ho]
      constructor
      · rintro ⟨j, es, h, hu⟩
        cases h with
        | object he' ho' hv =>
            obtain rfl := Option.some.inj (he.symm.trans he')
            exact ⟨_, _, hv, hu⟩
        | noEquals he' => exact absurd (he.symm.trans he') (by simp)
        | array he' ha' hv => exact absurd (Option.some.inj (he.symm.trans he') ▸ ha') ha
        | noSemicolon he' ha' ho' hs => exact absurd (Option.some.inj (he.symm.trans he') ▸ ho) ho'
        | value he' ha' ho' hs => exact absurd (Option.some.inj (he.symm.trans he') ▸ ho) ho'
      · rintro ⟨j, children, hv, hu⟩
        exact ⟨_, _, .object he ho hv, hu⟩
    · rw [if_neg ho]
      constructor
      · rintro ⟨j, es, h, hu⟩
        rwa [← call_value h he ha ho]
      · intro hu
        obtain ⟨es, h⟩ := call_exists he ha ho
        exact ⟨_, es, h, hu⟩

theorem call_iff {i : Nat} (hi : i < tokens.length) (depth : Nat) :
    (∃ j es, VarCall tokens i [] (j, es) ∧ Unwinds tokens depth j) ↔
      Continues tokens (depth, .equals) (next tokens i) := by
  rw [Continues]
  by_cases hc : accept tokens '=' (next tokens i)
  · rw [if_pos hc]
    exact call_start hi (expect_accept hc) depth
  · rw [if_neg hc]
    constructor
    · rintro ⟨j, es, h, hu⟩
      cases h with
      | noEquals => exact hu
      | array he | object he | noSemicolon he | value he => exact absurd (expect_some he).1 hc
    · intro hu
      exact ⟨_, _, .noEquals (expect_none hc), hu⟩

theorem parseVars_ends {i : Nat} (children : List Element) :
    Ends (fun fuel => parseVars tokens fuel i children) ↔
      Ends fun fuel => parseVars tokens fuel i [] := by
  simp only [Ends, Yields, parseVars_children _ _ children, Option.map_eq_some_iff]
  constructor
  · rintro ⟨_, fuel, x, h, _⟩
    exact ⟨x, fuel, h⟩
  · rintro ⟨x, fuel, h⟩
    exact ⟨_, fuel, x, h, rfl⟩

theorem objectVars_ends {i j : Nat} (children : List Element) :
    (∃ es, Yields (fun fuel => objectVars tokens fuel i children) (j, es)) ↔
      ∃ es, Yields (fun fuel => objectVars tokens fuel i []) (j, es) := by
  simp only [Yields, objectVars_children _ _ children, Option.map_eq_some_iff]
  constructor
  · rintro ⟨_, fuel, x, h, hx⟩
    obtain rfl := (Prod.mk.inj hx).1
    exact ⟨x.2, fuel, h⟩
  · rintro ⟨es, fuel, h⟩
    exact ⟨_, fuel, _, h, rfl⟩

theorem unwinds_call {depth i : Nat} (h0 : depth = 0 → i + 1 < tokens.length)
    (hb : 0 < depth → ¬ accept tokens '}' i) :
    Unwinds tokens depth i ↔ ∃ j es, VarCall tokens i [] (j, es) ∧ Unwinds tokens depth j := by
  cases depth with
  | zero =>
      have hlast : i ≠ tokens.length - 1 := by
        have := h0 rfl
        omega
      simp only [Unwinds]
      constructor
      · rintro ⟨r, hr⟩
        rw [yields_parseVars, if_neg hlast] at hr
        obtain ⟨x, hx, hr⟩ := hr
        exact ⟨x.1, x.2, yields_parseVar.mp hx, (parseVars_ends x.2).mp ⟨r, hr⟩⟩
      · rintro ⟨j, es, hx, hr⟩
        obtain ⟨r, hr⟩ := (parseVars_ends es).mpr hr
        refine ⟨r, yields_parseVars.mpr ?_⟩
        rw [if_neg hlast]
        exact ⟨_, yields_parseVar.mpr hx, hr⟩
  | succ depth =>
      have hb := hb (Nat.succ_pos depth)
      simp only [Unwinds]
      constructor
      · rintro ⟨j, children, hr, hu⟩
        rw [yields_objectVars, if_neg hb] at hr
        obtain ⟨x, hx, hr⟩ := hr
        obtain ⟨es, hes⟩ := (objectVars_ends x.2).mp ⟨_, hr⟩
        exact ⟨x.1, x.2, yields_parseVar.mp hx, j, es, hes, hu⟩
      · rintro ⟨k, es, hx, j, children, hr, hu⟩
        obtain ⟨children', hr⟩ := (objectVars_ends es).mpr ⟨_, hr⟩
        refine ⟨j, children', yields_objectVars.mpr ?_, hu⟩
        rw [if_neg hb]
        exact ⟨_, yields_parseVar.mpr hx, hr⟩

theorem unwinds_brace {depth i : Nat} (h : accept tokens '}' i) :
    Unwinds tokens (depth + 1) i ↔ Unwinds tokens depth (close tokens i) := by
  rw [Unwinds]
  constructor
  · rintro ⟨j, children, hr, hu⟩
    rw [yields_objectVars, if_pos h] at hr
    obtain rfl := (Prod.mk.inj hr).1
    exact hu
  · intro hu
    exact ⟨i, [], yields_objectVars.mpr (by rw [if_pos h]), hu⟩

theorem unwinds_element {i : Nat} (hi : i + 1 < tokens.length) (depth : Nat) :
    Unwinds tokens depth i ↔
      Continues tokens (element depth (ConfigorText.get tokens i)) (i + 1) := by
  rw [element]
  split
  next h =>
    obtain ⟨depth, rfl⟩ := Nat.exists_eq_succ_of_ne_zero (Nat.ne_of_gt h.1)
    rw [unwinds_brace (accept_iff.mpr h.2), close, next_of_lt hi]
    rfl
  next h =>
    rw [unwinds_call (fun _ => hi) (fun hd hb => h ⟨hd, accept_iff.mp hb⟩), call_iff (by omega),
      next_of_lt hi]

theorem closing_here {i j : Nat} (hi : i < tokens.length) (h : accept tokens ']' i) :
    Closing tokens i j ↔ j = i := by
  constructor
  · intro hc
    by_contra hne
    exact hc.before i (Nat.le_refl i) (by have := hc.le; omega) h
  · rintro rfl
    exact ⟨Nat.le_refl j, hi, h, fun k hjk hkj => absurd hjk (Nat.not_le.mpr hkj)⟩

theorem closing_later {i j : Nat} (h : ¬ accept tokens ']' i) :
    Closing tokens i j ↔ Closing tokens (i + 1) j := by
  constructor
  · intro hc
    have hne : i ≠ j := by
      rintro rfl
      exact h hc.accept
    exact ⟨by have := hc.le; omega, hc.lt, hc.accept, fun k hik => hc.before k (by omega)⟩
  · intro hc
    refine ⟨by have := hc.le; omega, hc.lt, hc.accept, fun k hik hkj => ?_⟩
    obtain rfl | hlt := Nat.eq_or_lt_of_le hik
    · exact h
    · exact hc.before k hlt hkj

/-- What is left to do before a token that is not the last is what is left to
do after it, where the machine stands then. -/
theorem continues_step {i : Nat} (hi : i + 1 < tokens.length) (s : Nat × Place) :
    Continues tokens s i ↔ Continues tokens (step s (ConfigorText.get tokens i)) (i + 1) := by
  obtain ⟨depth, place⟩ := s
  have hvalue : UnwindsValue tokens depth i ↔
      Continues tokens (step (depth, .value) (ConfigorText.get tokens i)) (i + 1) := by
    simp only [UnwindsValue, step, accept_iff, close, next_of_lt hi]
    split
    next => rfl
    next =>
      split
      next => rfl
      next => rfl
  cases place with
  | name => exact unwinds_element hi depth
  | value => exact hvalue
  | equals =>
      change (if accept tokens '=' i then UnwindsValue tokens depth (next tokens i)
        else Unwinds tokens depth i) ↔ Continues tokens (if _ then _ else _) (i + 1)
      by_cases hc : accept tokens '=' i
      · rw [if_pos hc, if_pos (accept_iff.mp hc), next_of_lt hi]
        rfl
      · rw [if_neg hc, if_neg (fun h => hc (accept_iff.mpr h))]
        exact unwinds_element hi depth
  | semicolon =>
      change Unwinds tokens depth (if accept tokens ';' i then next tokens i else i) ↔
        Continues tokens (if _ then _ else _) (i + 1)
      by_cases hc : accept tokens ';' i
      · rw [if_pos hc, if_pos (accept_iff.mp hc), next_of_lt hi]
        rfl
      · rw [if_neg hc, if_neg (fun h => hc (accept_iff.mpr h))]
        exact unwinds_element hi depth
  | array =>
      change (∃ j, Closing tokens i j ∧ Unwinds tokens depth (close tokens j)) ↔
        Continues tokens (if _ then _ else _) (i + 1)
      by_cases hc : accept tokens ']' i
      · rw [if_pos (accept_iff.mp hc)]
        simp only [closing_here (by omega : i < tokens.length) hc, exists_eq_left, close,
          next_of_lt hi]
        rfl
      · rw [if_neg (fun h => hc (accept_iff.mpr h))]
        simp only [closing_later hc]
        rfl

theorem close_last {i : Nat} (hi : i + 1 = tokens.length) :
    close tokens i = i ∧ afterBracket tokens i = i := by
  simp [close, afterBracket, next_last hi]

/-- The cursor stays at the last token: a closing brace there closes every
open object, and nothing else closes one. -/
theorem unwinds_last {i : Nat} (hi : i + 1 = tokens.length) (depth : Nat) :
    Unwinds tokens depth i ↔ depth = 0 ∨ accept tokens '}' i := by
  induction depth with
  | zero =>
      have hr : Yields (fun fuel => parseVars tokens fuel i []) (i, []) :=
        yields_parseVars.mpr (by rw [if_pos (by omega)])
      exact ⟨fun _ => .inl rfl, fun _ => ⟨_, hr⟩⟩
  | succ depth ih =>
      constructor
      · rintro ⟨j, children, hr, hu⟩
        have hm := moves_objectVars hr
        obtain ⟨fuel, hr⟩ := hr
        have hij : i = j := by
          have h1 : i ≤ j := hm.1
          have h2 : j < tokens.length := hm.2 (by omega)
          omega
        exact .inr (hij ▸ objectVars_accept hr)
      · rintro (h | h)
        · exact absurd h (Nat.succ_ne_zero depth)
        · rw [unwinds_brace h, (close_last hi).1]
          exact ih.mpr (.inr h)

theorem unwindsValue_last {i : Nat} (hi : i + 1 = tokens.length) (depth : Nat) :
    UnwindsValue tokens depth i ↔ LastCloses (depth, .value) (ConfigorText.get tokens i) := by
  change (if accept tokens '[' i then _ else if accept tokens '{' i then _ else _) ↔
    if depth = 0 then _ else _
  simp only [next_last hi, close_last hi, unwinds_last hi, accept_iff]
  by_cases ha : ConfigorText.get tokens i = ['[']
  · have hno : ¬ ∃ j, Closing tokens i j ∧ Unwinds tokens depth (close tokens j) := by
      rintro ⟨j, hj, -⟩
      have hij : j = i := by
        have h1 := hj.le
        have h2 := hj.lt
        omega
      exact absurd (accept_unique (hij ▸ hj.accept) (accept_iff.mpr ha)) (by decide)
    simp [ha, hno]
  · by_cases ho : ConfigorText.get tokens i = ['{']
    · simp [ho]
    · by_cases hd : depth = 0 <;> simp [ha, ho, hd]

theorem continues_last {i : Nat} (hi : i + 1 = tokens.length) (s : Nat × Place) :
    Continues tokens s i ↔ LastCloses s (ConfigorText.get tokens i) := by
  obtain ⟨depth, place⟩ := s
  cases place with
  | name =>
      change Unwinds tokens depth i ↔ depth = 0 ∨ _
      rw [unwinds_last hi, accept_iff]
  | value => exact unwindsValue_last hi depth
  | equals =>
      change (if accept tokens '=' i then _ else _) ↔ depth = 0 ∨ _
      simp only [next_last hi]
      split
      next hc =>
        rw [unwindsValue_last hi, accept_iff.mp hc]
        change (if depth = 0 then _ else _) ↔ _
        by_cases hd : depth = 0 <;> simp [hd]
      next => rw [unwinds_last hi, accept_iff]
  | semicolon =>
      change Unwinds tokens depth (afterBracket tokens i) ↔ depth = 0 ∨ _
      rw [(close_last hi).2, unwinds_last hi, accept_iff]
  | array =>
      change (∃ j, Closing tokens i j ∧ Unwinds tokens depth (close tokens j)) ↔ depth = 0 ∧ _
      rw [← accept_iff]
      constructor
      · rintro ⟨j, hj, hu⟩
        obtain rfl : j = i := by
          have h1 := hj.le
          have h2 := hj.lt
          omega
        rw [(close_last hi).1, unwinds_last hi] at hu
        refine ⟨hu.resolve_right fun hb => ?_, hj.accept⟩
        exact absurd (accept_unique hb hj.accept) (by decide)
      · rintro ⟨hd, hb⟩
        refine ⟨i, (closing_here (by omega) hb).mpr rfl, ?_⟩
        rw [(close_last hi).1, unwinds_last hi]
        exact .inl hd

/-- The machine goes over the tokens with the cursor, up to the last token. -/
theorem continues_run {i : Nat} (hi : i < tokens.length) :
    Ends (fun fuel => parseVars tokens fuel 0 []) ↔
      Continues tokens ((tokens.take i).foldl step (0, .name)) i := by
  induction i with
  | zero => rfl
  | succ i ih =>
      have htake : tokens.take (i + 1) = tokens.take i ++ [ConfigorText.get tokens i] := by
        rw [List.take_add_one, ConfigorText.get, List.getD_eq_getElem?_getD,
          List.getElem?_eq_getElem (by omega)]
        rfl
      rw [ih (by omega), continues_step hi, htake, List.foldl_append]
      rfl

end

/-- Parsing ends on exactly the lists of tokens that the last token closes. -/
theorem parse_ends_iff (c : Configor) : Ends (fun fuel => parse fuel c) ↔ Closes c.tokens := by
  cases List.eq_nil_or_concat c.tokens with
  | inl hnil =>
      have hp : ∀ fuel, parse fuel c = some { c with index := 0, root := [] } := by
        intro fuel
        rw [parse, hnil]
        rfl
      exact ⟨fun _ => .inl hnil, fun _ => ⟨_, 0, hp 0⟩⟩
  | inr h =>
      obtain ⟨before, last, h⟩ := h
      rw [List.concat_eq_append] at h
      have hlen : before.length + 1 = c.tokens.length := by rw [h, List.length_append]; rfl
      have hget : ConfigorText.get c.tokens before.length = last := by
        rw [h, ConfigorText.get, List.getD_eq_getElem?_getD]
        simp
      have hends : Ends (fun fuel => parse fuel c) ↔
          Ends fun fuel => parseVars c.tokens fuel 0 [] := by
        simp only [Ends, Yields, parse, if_pos (by omega : c.tokens.length > 0)]
        constructor
        · rintro ⟨r, fuel, hr⟩
          obtain ⟨x, hx, -⟩ := Option.bind_eq_some_iff.mp hr
          exact ⟨x, fuel, hx⟩
        · rintro ⟨x, fuel, hx⟩
          exact ⟨_, fuel, Option.bind_eq_some_iff.mpr ⟨x, hx, rfl⟩⟩
      rw [hends, continues_run (by omega : before.length < c.tokens.length),
        continues_last hlen, hget, Closes, h, List.take_left' rfl, List.dropLast_concat,
        List.getLastD_concat]
      exact (or_iff_right (by simp)).symm

theorem readText_ends_iff (c : Configor) (file : Text) :
    Ends (fun fuel => readText fuel c file) ↔ Closes (tokenize (preprocess file)) := by
  by_cases h : preprocess file = []
  · have hr : ∀ fuel, readText fuel c file = some { c with input := preprocess file } := by
      intro fuel
      rw [readText, if_neg (not_not_intro h)]
    have htokens : tokenize (preprocess file) = [] := by rw [h]; rfl
    exact ⟨fun _ => .inl htokens, fun _ => ⟨_, 0, hr 0⟩⟩
  · simp only [readText, if_pos h]
    exact parse_ends_iff _

/-- Reading a text, into a new object or into any other, ends exactly if the
last token of the text closes what is open before it. -/
theorem parsing_ends_iff (ss : Text) (c : Configor) (file : Option Text) :
    (Ends (fun fuel => fromStream fuel ss) ↔ Closes (tokenize (preprocess ss))) ∧
    (Ends (fun fuel => reloadFile fuel c file) ↔
      c.filePath = [] ∨ ∀ text, file = some text → Closes (tokenize (preprocess text))) := by
  refine ⟨readText_ends_iff _ ss, ?_⟩
  by_cases hpath : c.filePath = []
  · simp only [reloadFile, if_pos hpath]
    exact ⟨fun _ => .inl hpath, fun _ => ⟨_, 0, rfl⟩⟩
  · simp only [reloadFile, if_neg hpath]
    rw [or_iff_right hpath]
    cases file with
    | none =>
        dsimp only
        exact ⟨fun _ text h => absurd h (by simp), fun _ => ⟨_, 0, rfl⟩⟩
    | some text =>
        dsimp only
        simp only [Option.some_inj, forall_eq', ← readText_ends_iff c text]
        constructor
        · rintro ⟨r, fuel, hr⟩
          obtain ⟨x, hx, -⟩ := Option.bind_eq_some_iff.mp hr
          exact ⟨x, fuel, hx⟩
        · rintro ⟨x, fuel, hx⟩
          exact ⟨_, fuel, Option.bind_eq_some_iff.mpr ⟨x, hx, rfl⟩⟩

/-- A brace that nothing follows is never closed. -/
theorem unclosed_brace_not_ends : ¬ Ends fun fuel => fromStream fuel ['a', '=', '{'] := by
  intro h
  exact absurd ((readText_ends_iff _ _).mp h) (by decide)

end Ashe.ConfigorTermination
