import Ashe.CmdLineParser

namespace Ashe.CmdLineRender

open CmdLineParser

inductive Delim
  | dash
  | slash

inductive Separator
  | colon
  | equals

structure Key where
  text : WString
  nonempty : text ≠ []
  no_nul : 0 ∉ text
  no_sep : ∀ c ∈ text, c ∉ valueSep

inductive Form
  | flag
  | quoted (sep : Separator) (text : WString) (no_quote : code '"' ∉ text)
  | plain (sep : Separator) (text : WString) (nonempty : text ≠ []) (no_space : code ' ' ∉ text)
      (no_quote : text.head? ≠ some (code '"'))

/-- An option in one of the documented forms. Other white space than the space
may stand in a value without quotes. -/
structure CmdOption where
  delim : Delim
  key : Key
  form : Form

def Delim.char : Delim → WChar
  | .dash => code '-'
  | .slash => code '/'

def Separator.char : Separator → WChar
  | .colon => code ':'
  | .equals => code '='

def Form.render : Form → WString
  | .flag => []
  | .quoted sep text _ => sep.char :: code '"' :: (text ++ [code '"'])
  | .plain sep text .. => sep.char :: text

def Form.value : Form → WString
  | .flag => []
  | .quoted _ text _ => text
  | .plain _ text .. => text

def CmdOption.render (o : CmdOption) : WString := o.delim.char :: (o.key.text ++ o.form.render)

def CmdOption.name (o : CmdOption) : WString := strToLower o.key.text

def commandLine (program : WString) (options : List CmdOption) : WString :=
  program ++ code ' ' :: List.intercalate [code ' '] (options.map CmdOption.render)

/-- The map has the lower-cased keys, each with its value, and nothing else. -/
def Holds (values : ValsMap) (options : List CmdOption) : Prop :=
  ∀ key value, values.lookup key = some value ↔
    ∃ o ∈ options, key = o.name ∧ value = o.form.value

def Inverts (program : WString) (options : List CmdOption) : Prop :=
  ∃ values, cmdLineParser (commandLine program options) = some values ∧ Holds values options

/-- Neither a length that is negative as an int nor a terminating zero. -/
def CmdOption.Plain (o : CmdOption) : Prop :=
  o.key.text.length < 2 ^ 31 ∧ o.form.value.length < 2 ^ 31 ∧ 0 ∉ o.form.value

section Scanning

variable {s t set : WString} {c : WChar}

theorem wcspbrk_skip (hs : ∀ c ∈ s, c ∉ set) : wcspbrk (s ++ t) set = wcspbrk t set := by
  induction s with
  | nil => rfl
  | cons c s ih =>
      rw [List.cons_append, wcspbrk, if_neg (hs c (List.mem_cons_self ..))]
      exact ih fun c hc => hs c (List.mem_cons_of_mem _ hc)

theorem wcspbrk_here (hc : c ∈ set) : wcspbrk (c :: t) set = some (c :: t) := by
  rw [wcspbrk, if_pos hc]

theorem wcspbrk_find (hs : ∀ c ∈ s, c ∉ set) (hc : c ∈ set) :
    wcspbrk (s ++ c :: t) set = some (c :: t) := by rw [wcspbrk_skip hs, wcspbrk_here hc]

theorem wcspbrk_none (hs : ∀ c ∈ s, c ∉ set) : wcspbrk s set = none := by
  have h := wcspbrk_skip (t := []) hs
  rwa [List.append_nil] at h

/-- What is found is another pointer, unless it is found at once. -/
theorem wcspbrk_ne_self (hs : ∀ c, s.head? = some c → c ∉ set) : wcspbrk s set ≠ some s := by
  intro h
  cases s with
  | nil => exact absurd h (by simp [wcspbrk])
  | cons c s =>
      rw [wcspbrk, if_neg (hs c rfl)] at h
      have hle := (wcspbrk_suffix h).2.length_le
      rw [List.length_cons] at hle
      omega

theorem between_append (hs : s.length < 2 ^ 31) : between (s ++ t) t = some s := by
  have hint : (Int32.ofNat s.length).toInt = s.length := Int32.toInt_ofNat_of_lt hs
  simp only [between, List.length_append, Nat.add_sub_cancel, hint]
  rw [if_pos (Int.natCast_nonneg _), Int.toNat_natCast, List.take_left]

theorem between_long (hs : 2 ^ 31 ≤ s.length) (hl : s.length < 2 ^ 32) :
    between (s ++ t) t = none := by
  have hneg : (Int32.ofNat s.length).toInt < 0 := by
    have hsize : (Int32.size : Int) = 2 ^ 32 := rfl
    rw [Int32.toInt_ofNat', Int.bmod_def, hsize]
    split <;> omega
  simp only [between, List.length_append, Nat.add_sub_cancel]
  rw [if_neg (by omega)]

end Scanning

section Loop

variable {values : ValsMap}

theorem parseLoop_throw {s : WString} (h : parseTurn s values = none) :
    parseLoop s values = none := by
  rw [parseLoop]
  split
  next => rfl
  next v hv => exact absurd (h.symm.trans hv) (by simp)
  next v next hv => exact absurd (h.symm.trans hv) (by simp)

theorem parseLoop_stop {s : WString} {values' : ValsMap}
    (h : parseTurn s values = some (values', none)) : parseLoop s values = some values' := by
  rw [parseLoop]
  split
  next hv => exact absurd (h.symm.trans hv) (by simp)
  next v hv =>
    obtain ⟨rfl, -⟩ := Prod.mk.inj (Option.some.inj (h.symm.trans hv))
    rfl
  next v next hv =>
    exact absurd (Prod.mk.inj (Option.some.inj (h.symm.trans hv))).2 (by simp)

theorem parseLoop_next {s next : WString} {values' : ValsMap}
    (h : parseTurn s values = some (values', some next)) :
    parseLoop s values = parseLoop next values' := by
  rw [parseLoop]
  split
  next hv => exact absurd (h.symm.trans hv) (by simp)
  next v hv => exact absurd (Prod.mk.inj (Option.some.inj (h.symm.trans hv))).2 (by simp)
  next v next' hv =>
    obtain ⟨rfl, hn⟩ := Prod.mk.inj (Option.some.inj (h.symm.trans hv))
    obtain rfl := Option.some.inj hn
    rfl

theorem parseLoop_nil : parseLoop [] values = some values :=
  parseLoop_stop (by rw [parseTurn, if_pos rfl])

/-- Text without a delimiter before the next option makes no difference. -/
theorem parseLoop_skip {s t : WString} (hs : ∀ c ∈ s, c ∉ delims) :
    parseLoop (s ++ t) values = parseLoop t values := by
  have hturn : parseTurn (s ++ t) values = parseTurn t values := by
    unfold parseTurn
    rw [wcspbrk_skip hs]
    by_cases ht : t = []
    · subst ht
      simp [wcspbrk]
    · simp [ht]
  cases h : parseTurn t values with
  | none => rw [parseLoop_throw (hturn.trans h), parseLoop_throw h]
  | some r =>
      obtain ⟨values', next⟩ := r
      have hturn := hturn.trans h
      cases next with
      | none => rw [parseLoop_stop hturn, parseLoop_stop h]
      | some next => rw [parseLoop_next hturn, parseLoop_next h]

end Loop

section Options

variable {values : ValsMap}

theorem delim_mem (d : Delim) : d.char ∈ delims := by cases d <;> simp [Delim.char, delims]

theorem separator_mem (s : Separator) : s.char ∈ valueSep := by
  cases s <;> simp [Separator.char, valueSep]

theorem separator_ne_space (s : Separator) : s.char ≠ code ' ' := by cases s <;> decide

theorem strToLower_pos (k : Key) : 0 < (strToLower k.text).length := by
  rw [strToLower, List.length_map]
  exact List.length_pos_of_ne_nil k.nonempty

theorem insertNonempty_key (k : Key) (value : WString) :
    insertNonempty values (strToLower k.text) value =
      mapInsert values (strToLower k.text) value := by
  rw [insertNonempty, if_pos (strToLower_pos k)]

theorem parseArg_last (k : Key) :
    parseArg k.text values = some (mapInsert values (strToLower k.text) [], none) := by
  rw [parseArg, if_neg k.nonempty, wcspbrk_none k.no_sep]

theorem parseArg_bind (k : Key) {c : WChar} {t : WString} (hc : c ∈ valueSep) :
    parseArg (k.text ++ c :: t) values = (between (k.text ++ c :: t) (c :: t)).bind fun key =>
      if c = code ' ' ∨ t = [] then some (insertNonempty values (strToLower key) [], some t)
      else parseValue (strToLower key) t values := by
  have hne : k.text ++ c :: t ≠ [] := by simp
  rw [parseArg, if_neg hne, wcspbrk_find k.no_sep hc]
  simp only [List.head?_cons, Option.some.injEq, List.tail_cons, List.length_cons,
    Nat.add_eq_right, List.length_eq_zero_iff, Option.bind_eq_bind]

theorem parseArg_key (k : Key) (hk : k.text.length < 2 ^ 31) {c : WChar} {t : WString}
    (hc : c ∈ valueSep) : parseArg (k.text ++ c :: t) values =
      if c = code ' ' ∨ t = [] then some (mapInsert values (strToLower k.text) [], some t)
      else parseValue (strToLower k.text) t values := by
  rw [parseArg_bind k hc, between_append hk, Option.bind_some, insertNonempty_key]

theorem parseValue_quoted (k : Key) {text t : WString} (hl : text.length < 2 ^ 31)
    (hq : code '"' ∉ text) :
    parseValue (strToLower k.text) (code '"' :: (text ++ code '"' :: t)) values =
      some (mapInsert values (strToLower k.text) text, some t) := by
  have hmem : code '"' ∈ quotes := by simp [quotes]
  have hend : wcspbrk (text ++ code '"' :: t) quotes = some (code '"' :: t) :=
    wcspbrk_find (fun c hc hcq => hq (List.mem_singleton.mp hcq ▸ hc)) hmem
  rw [parseValue, wcspbrk_here hmem, if_pos rfl]
  simp only [List.tail_cons, hend, between_append hl, Option.bind_eq_bind, Option.bind_some]
  rw [if_pos (strToLower_pos k)]

theorem parseValue_plain (k : Key) {text : WString} (hne : text ≠ [])
    (hq : text.head? ≠ some (code '"')) (t : WString) :
    parseValue (strToLower k.text) (text ++ t) values =
      match wcschr (text ++ t) (code ' ') with
      | none => some (mapInsert values (strToLower k.text) (text ++ t), none)
      | some sEndQuote => (between (text ++ t) sEndQuote).bind fun csVal =>
          some (mapInsert values (strToLower k.text) csVal, some sEndQuote.tail) := by
  have hhead : (text ++ t).head? = text.head? := List.head?_append_of_ne_nil text hne
  have hself : wcspbrk (text ++ t) quotes ≠ some (text ++ t) := by
    refine wcspbrk_ne_self fun c hc hcq => hq ?_
    rw [← hhead, hc, List.mem_singleton.mp hcq]
  rw [parseValue, if_neg hself]
  cases h : wcschr (text ++ t) (code ' ') with
  | none => simp only [insertNonempty_key]
  | some sEndQuote => simp only [if_pos (strToLower_pos k), Option.bind_eq_bind]

def Ending (t : WString) : Prop := t = [] ∨ ∃ r, t = code ' ' :: r

theorem parseTurn_option (o : CmdOption) (t : WString) (values : ValsMap) :
    parseTurn (o.render ++ t) values = parseArg (o.key.text ++ (o.form.render ++ t)) values := by
  have hne : o.render ++ t ≠ [] := by simp [CmdOption.render]
  rw [parseTurn, if_neg hne, CmdOption.render, List.cons_append, wcspbrk_here (delim_mem o.delim),
    List.append_assoc]
  rfl

theorem parseLoop_space (r : WString) : parseLoop (code ' ' :: r) values = parseLoop r values :=
  parseLoop_skip (s := [code ' ']) (List.forall_mem_singleton.mpr (by decide))

theorem parseLoop_plain (o : CmdOption) (hk : o.key.text.length < 2 ^ 31) {sep : Separator}
    {text t : WString} (hl : text.length < 2 ^ 31) (hne : text ≠ []) (hs : code ' ' ∉ text)
    (hq : text.head? ≠ some (code '"')) (ho : o.form = .plain sep text hne hs hq)
    (ht : Ending t) :
    parseLoop (o.render ++ t) values = parseLoop t (mapInsert values o.name text) := by
  have hspace : ∀ c ∈ text, c ∉ [code ' '] := fun c hc hcs => hs (List.mem_singleton.mp hcs ▸ hc)
  have hcond : ¬(sep.char = code ' ' ∨ text ++ t = []) := by simp [separator_ne_space, hne]
  have hturn := parseTurn_option o t values
  rw [ho, Form.render, List.cons_append, parseArg_key o.key hk (separator_mem sep),
    if_neg hcond, parseValue_plain o.key hne hq] at hturn
  cases ht with
  | inl ht =>
      subst ht
      have hend : wcschr text (code ' ') = none := wcspbrk_none hspace
      simp only [List.append_nil, hend] at hturn
      rw [List.append_nil, parseLoop_stop hturn, parseLoop_nil]
      rfl
  | inr ht =>
      obtain ⟨r, rfl⟩ := ht
      have hend : wcschr (text ++ code ' ' :: r) (code ' ') = some (code ' ' :: r) :=
        wcspbrk_find hspace (List.mem_singleton_self _)
      simp only [hend, between_append hl, List.tail_cons, Option.bind_some] at hturn
      rw [parseLoop_next hturn, parseLoop_space]
      rfl

theorem parseLoop_option {o : CmdOption} (hp : o.Plain) {t : WString} (ht : Ending t) :
    parseLoop (o.render ++ t) values = parseLoop t (mapInsert values o.name o.form.value) := by
  obtain ⟨hk, hl, -⟩ := hp
  cases ho : o.form with
  | flag =>
      have hturn := parseTurn_option o t values
      rw [ho, Form.render, List.nil_append] at hturn
      cases ht with
      | inl ht =>
          subst ht
          rw [List.append_nil o.key.text, parseArg_last] at hturn
          rw [parseLoop_stop hturn, parseLoop_nil]
          rfl
      | inr ht =>
          obtain ⟨r, rfl⟩ := ht
          rw [parseArg_key o.key hk (by simp [valueSep]), if_pos (Or.inl rfl)] at hturn
          rw [parseLoop_next hturn, parseLoop_space]
          rfl
  | quoted sep text hq =>
      have hl : text.length < 2 ^ 31 := by rwa [ho] at hl
      have hturn := parseTurn_option o t values
      have hcond : ¬(sep.char = code ' ' ∨ code '"' :: (text ++ [code '"']) ++ t = []) := by
        simp [separator_ne_space]
      rw [ho, Form.render, List.cons_append, parseArg_key o.key hk (separator_mem sep),
        if_neg hcond, List.cons_append, List.append_assoc, List.singleton_append,
        parseValue_quoted o.key hl hq] at hturn
      rw [parseLoop_next hturn]
      rfl
  | plain sep text hne hs hq =>
      have hl : text.length < 2 ^ 31 := by rwa [ho] at hl
      exact parseLoop_plain o hk hl hne hs hq ho ht

theorem joined_cons (s : WString) (l : List WString) :
    List.intercalate [code ' '] (s :: l) = s ++ l.flatMap (code ' ' :: ·) := by
  induction l generalizing s with
  | nil => rw [List.intercalate_singleton, List.flatMap_nil, List.append_nil]
  | cons s' l ih =>
      rw [List.intercalate_cons_cons, ih, List.flatMap_cons, List.append_assoc,
        List.singleton_append, List.cons_append]

/-- Every option is taken in its turn: the tail of the line always starts with the
space before the next option. -/
theorem parseLoop_options {options : List CmdOption} (hp : ∀ o ∈ options, o.Plain) :
    parseLoop ((options.map CmdOption.render).flatMap (code ' ' :: ·)) values =
      some (options.foldl (fun values o => mapInsert values o.name o.form.value) values) := by
  induction options generalizing values with
  | nil => exact parseLoop_nil
  | cons o options ih =>
      obtain ⟨ho, hp⟩ := List.forall_mem_cons.mp hp
      have hend : Ending ((options.map CmdOption.render).flatMap (code ' ' :: ·)) := by
        cases options with
        | nil => exact Or.inl rfl
        | cons o' options => exact Or.inr ⟨_, rfl⟩
      rw [List.map_cons, List.flatMap_cons, List.cons_append, parseLoop_space,
        parseLoop_option ho hend, ih hp, List.foldl_cons]

end Options

section Map

theorem lookup_insert_iff {values : ValsMap} {name value key val : WString}
    (hnew : name ∉ values) : (mapInsert values name value).lookup key = some val ↔
      (key = name ∧ val = value) ∨ values.lookup key = some val := by
  rw [mapInsert, if_neg hnew]
  by_cases hk : key = name
  · subst hk
    have hnone : values.lookup key = none := Finmap.lookup_eq_none.mpr hnew
    rw [Finmap.lookup_insert, hnone]
    simp [eq_comm]
  · rw [Finmap.lookup_insert_of_ne _ hk]
    simp [hk]

theorem mem_insert_iff {values : ValsMap} {name value key : WString} :
    key ∈ mapInsert values name value ↔ key = name ∨ key ∈ values := by
  rw [mapInsert]
  split
  next h =>
    refine ⟨Or.inr, ?_⟩
    rintro (rfl | hk)
    · exact h
    · exact hk
  next => exact Finmap.mem_insert

theorem lookup_options (options : List CmdOption) {values : ValsMap}
    (hd : options.Pairwise fun o o' => o.name ≠ o'.name) (hnew : ∀ o ∈ options, o.name ∉ values)
    (key val : WString) :
    (options.foldl (fun values o => mapInsert values o.name o.form.value) values).lookup key =
        some val ↔
      (∃ o ∈ options, key = o.name ∧ val = o.form.value) ∨ values.lookup key = some val := by
  induction options generalizing values with
  | nil => simp
  | cons o options ih =>
      obtain ⟨hne, hd⟩ := List.pairwise_cons.mp hd
      have hnew' : ∀ o' ∈ options, o'.name ∉ mapInsert values o.name o.form.value := by
        intro o' ho' hmem
        cases mem_insert_iff.mp hmem with
        | inl h => exact hne o' ho' h.symm
        | inr h => exact hnew o' (List.mem_cons_of_mem _ ho') h
      rw [List.foldl_cons, ih hd hnew', lookup_insert_iff (hnew o (List.mem_cons_self ..))]
      simp only [List.mem_cons, exists_eq_or_imp]
      rw [or_left_comm, or_assoc]

theorem Holds.findKey {values : ValsMap} {options : List CmdOption} (h : Holds values options)
    {o : CmdOption} (ho : o ∈ options) {key : WString} (hk : strToLower key = o.name) :
    findKey values key = some o.form.value := by
  rw [CmdLineParser.findKey, hk]
  exact (h o.name o.form.value).mpr ⟨o, ho, rfl, rfl⟩

theorem Holds.getVal {values : ValsMap} {options : List CmdOption} (h : Holds values options)
    {o : CmdOption} (ho : o ∈ options) {key : WString} (hk : strToLower key = o.name) :
    hasKey values key = true ∧ getVal values key = o.form.value := by
  rw [hasKey, CmdLineParser.getVal, h.findKey ho hk]
  exact ⟨rfl, rfl⟩

theorem Holds.hasKey {values : ValsMap} {options : List CmdOption} (h : Holds values options)
    {key : WString} (hk : hasKey values key = true) : ∃ o ∈ options, strToLower key = o.name := by
  obtain ⟨value, hv⟩ := Option.isSome_iff_exists.mp hk
  obtain ⟨o, ho, hname, -⟩ := (h _ _).mp hv
  exact ⟨o, ho, hname⟩

end Map

section Nul

theorem cStr_eq {s : WString} (hs : 0 ∉ s) : cStr s = s := by
  induction s with
  | nil => rfl
  | cons c s ih =>
      have hc : c ≠ 0 := fun h => hs (h ▸ List.mem_cons_self ..)
      have ih := ih fun h => hs (List.mem_cons_of_mem _ h)
      rw [cStr] at ih ⊢
      rw [@List.takeWhile_cons_of_pos _ (fun c : WChar => decide (c ≠ 0)) _ _ (decide_eq_true hc),
        ih]

theorem delim_ne_nul (d : Delim) : 0 ≠ d.char := by cases d <;> decide

theorem separator_ne_nul (s : Separator) : 0 ≠ s.char := by cases s <;> decide

theorem quote_ne_nul : 0 ≠ code '"' := by decide

theorem space_ne_nul : 0 ≠ code ' ' := by decide

theorem render_no_nul (o : CmdOption) (hv : 0 ∉ o.form.value) : 0 ∉ o.render := by
  have hform : 0 ∉ o.form.render := by
    cases hf : o.form with
    | flag => simp [Form.render]
    | quoted sep text hq =>
        have htext : 0 ∉ text := by rwa [hf] at hv
        simp [Form.render, separator_ne_nul, quote_ne_nul, htext]
    | plain sep text hne hs hq =>
        have htext : 0 ∉ text := by rwa [hf] at hv
        simp [Form.render, separator_ne_nul, htext]
  simp [CmdOption.render, delim_ne_nul, o.key.no_nul, hform]

theorem commandLine_no_nul {program : WString} {options : List CmdOption} (hp : 0 ∉ program)
    (hv : ∀ o ∈ options, 0 ∉ o.form.value) : 0 ∉ commandLine program options := by
  have hjoined : 0 ∉ List.intercalate [code ' '] (options.map CmdOption.render) := by
    cases options with
    | nil => simp [List.intercalate]
    | cons o options =>
        obtain ⟨ho, hv⟩ := List.forall_mem_cons.mp hv
        rw [List.map_cons, joined_cons]
        simp only [List.mem_append, List.mem_flatMap, List.mem_map, List.mem_cons, not_or]
        refine ⟨render_no_nul o ho, ?_⟩
        rintro ⟨s, ⟨o', ho', rfl⟩, h | h⟩
        · exact space_ne_nul h
        · exact render_no_nul o' (hv o' ho') h
  simp [commandLine, hp, space_ne_nul, hjoined]

end Nul

/-- The parser inverts the rendering of a command line: after the program and a space
come options whose keys differ in lower case. -/
theorem parser_inverts (program : WString) (options : List CmdOption)
    (hp : ∀ c ∈ program, c ∉ delims) (hd : options.Pairwise fun o o' => o.name ≠ o'.name)
    (hz : 0 ∉ program) (ho : ∀ o ∈ options, o.Plain) : Inverts program options := by
  have hne : commandLine program options ≠ [] := by simp [commandLine]
  have hskip : ∀ c ∈ program ++ [code ' '], c ∉ delims := by
    intro c hc
    cases List.mem_append.mp hc with
    | inl h => exact hp c h
    | inr h =>
        obtain rfl := List.mem_singleton.mp h
        decide
  have hz : 0 ∉ commandLine program options := commandLine_no_nul hz fun o h => (ho o h).2.2
  refine ⟨options.foldl (fun values o => mapInsert values o.name o.form.value) ∅, ?_, ?_⟩
  · rw [cmdLineParser, if_neg hne, parse, cStr_eq hz, commandLine, List.append_cons,
      parseLoop_skip hskip]
    cases options with
    | nil => exact parseLoop_nil
    | cons o options =>
        rw [List.map_cons, joined_cons, ← parseLoop_options ho, ← parseLoop_space]
        rfl
  · intro key value
    rw [lookup_options options hd fun o _ => Finmap.notMem_empty]
    simp

def keyA : Key :=
  ⟨[code 'A'], by decide, by decide, List.forall_mem_singleton.mpr (by decide)⟩

def keyB : Key :=
  ⟨[code '-', code 'b'], by decide, by decide,
    List.forall_mem_cons.mpr ⟨by decide, List.forall_mem_singleton.mpr (by decide)⟩⟩

/-- The line x /A:"- -" --b -/
theorem parser_inverts_two : Inverts [code 'x']
    [⟨.slash, keyA, .quoted .colon [code '-', code ' ', code '-'] (by decide)⟩,
      ⟨.dash, keyB, .flag⟩] :=
  parser_inverts _ _ (List.forall_mem_singleton.mpr (by decide)) (by decide) (by decide)
    (by simp only [CmdOption.Plain]; decide)

section Lost

theorem not_inverts_nul :
    ¬Inverts [] [⟨.slash, keyA, .quoted .colon [0] (by decide)⟩] := by
  rintro ⟨values, hmap, hall⟩
  have hturn : parseTurn [code ' ', code '/', code 'A', code ':', code '"'] ∅ =
      some (mapInsert ∅ [code 'a'] [], none) := by rfl
  obtain rfl := Option.some.inj (hmap.symm.trans (parseLoop_stop hturn))
  have hlost := hall [code 'a'] []
  rw [lookup_insert_iff Finmap.notMem_empty] at hlost
  obtain ⟨o, ho, -, hval⟩ := hlost.mp (Or.inl ⟨rfl, rfl⟩)
  obtain rfl := List.mem_singleton.mp ho
  exact absurd hval (by decide)

/-- A key with a value throws when its length is negative as an int. -/
theorem parseTurn_long {o : CmdOption} (hk : 2 ^ 31 ≤ o.key.text.length)
    (hl : o.key.text.length < 2 ^ 32) (hf : o.form ≠ .flag) (values : ValsMap) :
    parseTurn o.render values = none := by
  have hturn := parseTurn_option o [] values
  rw [List.append_nil, List.append_nil] at hturn
  rw [hturn]
  cases ho : o.form with
  | flag => exact absurd ho hf
  | quoted sep text hq =>
      rw [Form.render, parseArg_bind _ (separator_mem sep), between_long hk hl, Option.bind_none]
  | plain sep text hne hs hq =>
      rw [Form.render, parseArg_bind _ (separator_mem sep), between_long hk hl, Option.bind_none]

theorem not_inverts_long {o : CmdOption} (hk : 2 ^ 31 ≤ o.key.text.length)
    (hl : o.key.text.length < 2 ^ 32) (hf : o.form ≠ .flag) (hv : 0 ∉ o.form.value) :
    ¬Inverts [] [o] := by
  rintro ⟨values, hmap, -⟩
  have hline : commandLine [] [o] = code ' ' :: o.render := by simp [commandLine, List.intercalate]
  have hnul : 0 ∉ commandLine [] [o] := commandLine_no_nul (by simp) (by simpa using hv)
  have hnone : cmdLineParser (commandLine [] [o]) = none := by
    rw [cmdLineParser, if_neg (by simp [hline]), parse, cStr_eq hnul, hline, parseLoop_space]
    exact parseLoop_throw (parseTurn_long hk hl hf ∅)
  exact absurd (hnone.symm.trans hmap) (by simp)

def longKey (n : Nat) : Key where
  text := List.replicate (n + 1) (code 'a')
  nonempty := List.cons_ne_nil _ _
  no_nul := by
    intro h
    exact absurd (List.eq_of_mem_replicate h) (by decide)
  no_sep := by
    intro c hc
    rw [List.eq_of_mem_replicate hc]
    decide

theorem longKey_length (n : Nat) : (longKey n).text.length = n + 1 := List.length_replicate

/-- A zero in the value of /A:"", and a key of 2^31 characters. -/
theorem not_inverts_all :
    ¬Inverts [] [⟨.slash, keyA, .quoted .colon [0] (by decide)⟩] ∧
      ¬Inverts [] [⟨.slash, longKey (2 ^ 31 - 1),
        .plain .colon [code 'v'] (by decide) (by decide) (by decide)⟩] := by
  refine ⟨not_inverts_nul, not_inverts_long ?_ ?_ (by simp) (by decide)⟩
  · rw [longKey_length]
    omega
  · rw [longKey_length]
    omega

end Lost

end Ashe.CmdLineRender
