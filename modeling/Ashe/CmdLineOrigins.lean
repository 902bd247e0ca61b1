import Ashe.CmdLineRender

namespace Ashe.CmdLineOrigins

open CmdLineParser CmdLineRender

/-- What stands behind the key of an option, with the character that ends the option:
the space behind a flag, or ':' or '=' and a value with the space or the quote behind it. -/
inductive Closing : WString → Prop
  | flag : Closing [code ' ']
  | quoted {sep : WChar} {value : WString} (hs : sep = code ':' ∨ sep = code '=')
      (hv : code '"' ∉ value) : Closing (sep :: code '"' :: (value ++ [code '"']))
  | plain {sep : WChar} {value : WString} (hs : sep = code ':' ∨ sep = code '=')
      (hv : code ' ' ∉ value) (hq : value.head? ≠ some (code '"')) :
      Closing (sep :: (value ++ [code ' ']))

/-- The parts of the line where the search for an option starts: the empty one, and one
that ends with an option, whose '-' or '/' was the first behind the part before. -/
inductive Resumes : WString → Prop
  | start : Resumes []
  | behind {done skip word closing : WString} {d : WChar} (hdone : Resumes done)
      (hskip : ∀ c ∈ skip, c ∉ delims) (hd : d ∈ delims) (hword : ∀ c ∈ word, c ∉ valueSep)
      (hclosing : Closing closing) : Resumes (done ++ (skip ++ d :: (word ++ closing)))

/-- The key is the word behind the first '-' or '/' at or behind such a part. A word of
2 ^ 31 characters or more may be cut. -/
structure StemsFrom (line key done skip word rest : WString) (d : WChar) : Prop where
  line_eq : line = done ++ (skip ++ d :: (word ++ rest))
  resumes : Resumes done
  skip_plain : ∀ c ∈ skip, c ∉ delims
  delim : d ∈ delims
  word_plain : ∀ c ∈ word, c ∉ valueSep
  word_ends : ∀ c, rest.head? = some c → c ∈ valueSep
  key_eq : ∃ text, text <+: word ∧ (word.length < 2 ^ 31 → text = word) ∧ key = strToLower text

def Stems (line key : WString) : Prop := ∃ done skip word rest d,
  StemsFrom line key done skip word rest d

section Scanning

variable {s set : WString}

theorem wcspbrk_some {t : WString} (h : wcspbrk s set = some t) : ∃ skip c r,
    s = skip ++ c :: r ∧ t = c :: r ∧ (∀ c ∈ skip, c ∉ set) ∧ c ∈ set := by
  induction s with
  | nil => exact absurd h (by simp [wcspbrk])
  | cons c s ih =>
      rw [wcspbrk] at h
      split at h
      next hc =>
        obtain rfl := Option.some.inj h
        exact ⟨[], c, s, rfl, rfl, by simp, hc⟩
      next hc =>
        obtain ⟨skip, c', r, rfl, rfl, hskip, hc'⟩ := ih h
        exact ⟨c :: skip, c', r, rfl, rfl, List.forall_mem_cons.mpr ⟨hc, hskip⟩, hc'⟩

theorem wcspbrk_absent (h : wcspbrk s set = none) : ∀ c ∈ s, c ∉ set := by
  induction s with
  | nil => simp
  | cons c s ih =>
      rw [wcspbrk] at h
      split at h
      next => exact absurd h (by simp)
      next hc => exact List.forall_mem_cons.mpr ⟨hc, ih h⟩

theorem int_length_le (n : Nat) : (Int32.ofNat n).toInt ≤ n := by
  have hsize : (Int32.size : Int) = 2 ^ 32 := rfl
  rw [Int32.toInt_ofNat', Int.bmod_def, hsize]
  split <;> omega

theorem between_some {word t text : WString} (h : between (word ++ t) t = some text) :
    text <+: word ∧ (word.length < 2 ^ 31 → text = word) := by
  constructor
  · have hle := int_length_le word.length
    simp only [between, List.length_append, Nat.add_sub_cancel] at h
    split at h
    next hpos =>
      rw [List.take_append_of_le_length (by omega)] at h
      exact Option.some.inj h ▸ List.take_prefix _ _
    next => exact absurd h (by simp)
  · intro hlen
    exact (Option.some.inj ((between_append hlen).symm.trans h)).symm

end Scanning

section Turn

variable {values values' : ValsMap} {next : Option WString} {k : WString}

theorem mem_insertNonempty {key value : WString} (h : k ∈ insertNonempty values key value) :
    k ∈ values ∨ k = key := by
  rw [insertNonempty] at h
  split at h
  next => exact (mem_insert_iff.mp h).symm
  next => exact Or.inl h

theorem closing_quoted {sVal sEndQuote : WString} {sep : WChar}
    (hsep : sep = code ':' ∨ sep = code '=')
    (hopen : wcspbrk sVal quotes = some sVal) (hend : wcspbrk sVal.tail quotes = some sEndQuote) :
    ∃ closing, Closing closing ∧ sep :: sVal = closing ++ sEndQuote.tail := by
  obtain ⟨-, c, r, -, rfl, -, hc⟩ := wcspbrk_some hopen
  obtain ⟨value, c', r', hr, rfl, hvalue, hc'⟩ := wcspbrk_some hend
  obtain rfl := List.mem_singleton.mp hc
  obtain rfl := List.mem_singleton.mp hc'
  rw [List.tail_cons] at hr
  refine ⟨_, Closing.quoted hsep fun hv => hvalue _ hv (List.mem_singleton_self _), ?_⟩
  rw [hr]
  simp

theorem closing_plain {sVal sEndQuote : WString} {sep : WChar}
    (hsep : sep = code ':' ∨ sep = code '=')
    (hopen : wcspbrk sVal quotes ≠ some sVal) (hend : wcschr sVal (code ' ') = some sEndQuote) :
    ∃ closing, Closing closing ∧ sep :: sVal = closing ++ sEndQuote.tail := by
  obtain ⟨value, c, r, rfl, rfl, hvalue, hc⟩ := wcspbrk_some hend
  obtain rfl := List.mem_singleton.mp hc
  have hhead : value.head? ≠ some (code '"') := by
    intro hq
    obtain ⟨v, rfl⟩ := List.head?_eq_some_iff.mp hq
    exact hopen (wcspbrk_here (List.mem_singleton_self _))
  refine ⟨_, Closing.plain hsep (fun hv => hvalue _ hv (List.mem_singleton_self _)) hhead, ?_⟩
  simp

/-- The value is read up to the character behind which the loop goes on. -/
theorem parseValue_cases {key sVal : WString} {sep : WChar}
    (hsep : sep = code ':' ∨ sep = code '=')
    (h : parseValue key sVal values = some (values', next)) :
    (∀ k ∈ values', k ∈ values ∨ k = key) ∧
    ∀ t, next = some t → ∃ closing, Closing closing ∧ sep :: sVal = closing ++ t := by
  unfold parseValue at h
  split at h
  next sQuote sEndQuote hquote =>
    split at h
    next =>
      obtain ⟨rfl, rfl⟩ := Prod.mk.inj (Option.some.inj h)
      exact ⟨fun k hk => mem_insertNonempty hk, by simp⟩
    next sEndQuote =>
      have hclosing : ∃ closing, Closing closing ∧ sep :: sVal = closing ++ sEndQuote.tail := by
        split at hquote
        next hopen => exact closing_quoted hsep hopen (Prod.mk.inj hquote).2
        next hopen => exact closing_plain hsep hopen (Prod.mk.inj hquote).2
      split at h
      next =>
        obtain ⟨csVal, -, h⟩ := Option.bind_eq_some_iff.mp h
        obtain ⟨rfl, rfl⟩ := Prod.mk.inj (Option.some.inj h)
        exact ⟨fun k hk => (mem_insert_iff.mp hk).symm, fun t ht => Option.some.inj ht ▸ hclosing⟩
      next =>
        obtain ⟨rfl, rfl⟩ := Prod.mk.inj (Option.some.inj h)
        exact ⟨fun k hk => Or.inl hk, fun t ht => Option.some.inj ht ▸ hclosing⟩

/-- A key is taken from behind a delimiter up to the next separator. -/
theorem parseArg_cases {sArg : WString} (h : parseArg sArg values = some (values', next)) :
    ∃ word rest, sArg = word ++ rest ∧ (∀ c ∈ word, c ∉ valueSep) ∧
      (∀ c, rest.head? = some c → c ∈ valueSep) ∧
      (∀ k ∈ values', k ∈ values ∨ ∃ text, text <+: word ∧
        (word.length < 2 ^ 31 → text = word) ∧ k = strToLower text) ∧
      ∀ t, next = some t → t = [] ∨ ∃ closing, Closing closing ∧ rest = closing ++ t := by
  unfold parseArg at h
  split at h
  next hend =>
    obtain ⟨rfl, rfl⟩ := Prod.mk.inj (Option.some.inj h)
    exact ⟨[], [], hend, by simp, by simp, fun k hk => Or.inl hk, by simp⟩
  next =>
    split at h
    next hnone =>
      obtain ⟨rfl, rfl⟩ := Prod.mk.inj (Option.some.inj h)
      refine ⟨sArg, [], (List.append_nil _).symm, wcspbrk_absent hnone, by simp, ?_, by simp⟩
      intro k hk
      exact (mem_insert_iff.mp hk).symm.imp_right fun hk =>
        ⟨sArg, List.prefix_refl _, fun _ => rfl, hk⟩
    next sVal hsep =>
      obtain ⟨word, c, r, rfl, rfl, hword, hc⟩ := wcspbrk_some hsep
      obtain ⟨key, hkey, h⟩ := Option.bind_eq_some_iff.mp h
      obtain ⟨hcut, hwhole⟩ := between_some hkey
      have hadds : ∀ k, k = strToLower key → ∃ text, text <+: word ∧
          (word.length < 2 ^ 31 → text = word) ∧ k = strToLower text :=
        fun k hk => ⟨key, hcut, hwhole, hk⟩
      refine ⟨word, c :: r, rfl, hword, fun c' hc' => Option.some.inj hc' ▸ hc, ?_⟩
      split at h
      next hflag =>
        obtain ⟨rfl, rfl⟩ := Prod.mk.inj (Option.some.inj h)
        refine ⟨fun k hk => (mem_insertNonempty hk).imp_right (hadds k), fun t ht => ?_⟩
        obtain rfl := Option.some.inj ht
        cases hflag with
        | inl hspace =>
            obtain rfl := Option.some.inj hspace
            exact Or.inr ⟨[code ' '], Closing.flag, rfl⟩
        | inr hlast => exact Or.inl (List.length_eq_zero_iff.mp (Nat.succ.inj hlast))
      next hvalue =>
        have hsep : c = code ':' ∨ c = code '=' := by
          have hspace : c ≠ code ' ' := fun heq => hvalue (.inl (congrArg some heq))
          simpa [valueSep, hspace] using hc
        obtain ⟨hmem, hnext⟩ := parseValue_cases hsep h
        exact ⟨fun k hk => (hmem k hk).imp_right (hadds k), fun t ht => Or.inr (hnext t ht)⟩

/-- A turn adds at most the word behind the first '-' or '/', and goes on behind an
option or at the end of the line. -/
theorem parseTurn_cases {s : WString} (h : parseTurn s values = some (values', next)) :
    (values' = values ∧ next = none) ∨ ∃ skip word rest d,
      s = skip ++ d :: (word ++ rest) ∧ (∀ c ∈ skip, c ∉ delims) ∧ d ∈ delims ∧
      (∀ c ∈ word, c ∉ valueSep) ∧ (∀ c, rest.head? = some c → c ∈ valueSep) ∧
      (∀ k ∈ values', k ∈ values ∨ ∃ text, text <+: word ∧
        (word.length < 2 ^ 31 → text = word) ∧ k = strToLower text) ∧
      ∀ t, next = some t → t = [] ∨ ∃ closing, Closing closing ∧ rest = closing ++ t := by
  unfold parseTurn at h
  split at h
  next =>
    obtain ⟨rfl, rfl⟩ := Prod.mk.inj (Option.some.inj h)
    exact Or.inl ⟨rfl, rfl⟩
  next =>
    split at h
    next =>
      obtain ⟨rfl, rfl⟩ := Prod.mk.inj (Option.some.inj h)
      exact Or.inl ⟨rfl, rfl⟩
    next sArg hdelim =>
      obtain ⟨skip, d, r, rfl, rfl, hskip, hd⟩ := wcspbrk_some hdelim
      obtain ⟨word, rest, hr, hword, hrest, hmem, hnext⟩ := parseArg_cases h
      rw [List.tail_cons] at hr
      exact Or.inr ⟨skip, word, rest, d, by rw [hr], hskip, hd, hword, hrest, hmem, hnext⟩

/-- The loop from behind a part of the line that ends with an option. -/
theorem parseLoop_stems {s : WString} : ∀ {done : WString} {values : ValsMap}, Resumes done →
    parseLoop s values = some values' → ∀ k ∈ values', k ∈ values ∨ Stems (done ++ s) k := by
  induction hn : s.length using Nat.strongRecOn generalizing s with
  | _ n ih =>
      intro done values hdone h k hk
      cases hturn : parseTurn s values with
      | none => exact absurd ((parseLoop_throw hturn).symm.trans h) (by simp)
      | some result =>
          obtain ⟨values1, next⟩ := result
          obtain ⟨rfl, rfl⟩ | ⟨skip, word, rest, d, rfl, hskip, hd, hword, hrest, hmem, hnext⟩ :=
            parseTurn_cases hturn
          · obtain rfl := Option.some.inj ((parseLoop_stop hturn).symm.trans h)
            exact Or.inl hk
          · have hstep : ∀ k ∈ values1, k ∈ values ∨
                Stems (done ++ (skip ++ d :: (word ++ rest))) k :=
              fun k hk => (hmem k hk).imp_right fun hkey =>
                ⟨done, skip, word, rest, d, rfl, hdone, hskip, hd, hword, hrest, hkey⟩
            cases next with
            | none =>
                obtain rfl := Option.some.inj ((parseLoop_stop hturn).symm.trans h)
                exact hstep k hk
            | some t =>
                rw [parseLoop_next hturn] at h
                have hlt := parseTurn_shorter hturn
                cases hnext t rfl with
                | inl hend =>
                    subst hend
                    obtain rfl := Option.some.inj (parseLoop_nil.symm.trans h)
                    exact hstep k hk
                | inr hclosing =>
                    obtain ⟨closing, hclosing, rfl⟩ := hclosing
                    have hline : done ++ (skip ++ d :: (word ++ closing)) ++ t =
                        done ++ (skip ++ d :: (word ++ (closing ++ t))) := by simp
                    have hbehind := ih t.length (hn ▸ hlt) rfl
                      (Resumes.behind hdone hskip hd hword hclosing) h k hk
                    rw [hline] at hbehind
                    exact hbehind.elim (hstep k) Or.inr

end Turn

/-- Each key of the map is the word behind a '-' or '/' that is outside the options
before it. -/
theorem keys_from_options (cmdline : WString) {values : ValsMap}
    (h : cmdLineParser cmdline = some values) {key : WString} (hk : key ∈ values) :
    Stems (cStr cmdline) key := by
  rw [cmdLineParser] at h
  split at h
  next =>
    obtain rfl := Option.some.inj h
    exact absurd hk (Finmap.notMem_empty)
  next => exact (parseLoop_stems Resumes.start h key hk).resolve_left Finmap.notMem_empty

theorem parse_program_key :
    cmdLineParser ("app /K:v".toList.map code) = some (mapInsert ∅ [code 'k'] [code 'v']) := by
  have hline : cStr ("app /K:v".toList.map code) = "app /K:v".toList.map code := by decide
  rw [cmdLineParser, if_neg (by decide), parse, hline]
  exact parseLoop_stop rfl

theorem keys_from_options_program :
    cmdLineParser ("app /K:v".toList.map code) = some (mapInsert ∅ [code 'k'] [code 'v']) ∧
      Stems (cStr ("app /K:v".toList.map code)) [code 'k'] :=
  ⟨parse_program_key, keys_from_options _ parse_program_key (mem_insert_iff.mpr (Or.inl rfl))⟩

def BeginsToken (before : WString) : Prop :=
  before = [] ∨ ∃ c, before.getLast? = some c ∧ (c = code ' ' ∨ 9 ≤ c ∧ c ≤ 13)

/-- The key "app" of the line "my-app" is from the middle of a word. -/
theorem hyphen_creates_key :
    ¬ ∀ (cmdline : WString) (values : ValsMap), cmdLineParser cmdline = some values →
      ∀ key ∈ values, ∃ before d text rest, cStr cmdline = before ++ d :: (text ++ rest) ∧
        d ∈ delims ∧ BeginsToken before ∧ key = strToLower text := by
  intro h
  have hline : cStr ("my-app".toList.map code) = "my-app".toList.map code := by decide
  have hparse : cmdLineParser ("my-app".toList.map code) =
      some (mapInsert ∅ ("app".toList.map code) []) := by
    rw [cmdLineParser, if_neg (by decide), parse, hline]
    exact parseLoop_stop rfl
  have honly : ∀ i < 6, ("my-app".toList.map code).getD i 0 ∈ delims → i = 2 := by decide
  obtain ⟨before, d, text, rest, hsplit, hd, hbegins, -⟩ :=
    h _ _ hparse _ (mem_insert_iff.mpr (Or.inl rfl))
  rw [hline] at hsplit
  have hlt : before.length < 6 := by
    have hlen := congrArg List.length hsplit
    simp at hlen
    omega
  have hget : ("my-app".toList.map code).getD before.length 0 = d := by
    rw [hsplit, List.getD_eq_getElem?_getD, List.getElem?_append_right (Nat.le_refl _),
      Nat.sub_self]
    rfl
  have htwo := honly _ hlt (hget ▸ hd)
  have hbefore : before = "my".toList.map code := by
    have htake : before = ("my-app".toList.map code).take before.length := by
      rw [hsplit, List.take_left]
    rw [htwo] at htake
    exact htake
  rw [hbefore] at hbegins
  obtain hnil | ⟨c, hc, hspace⟩ := hbegins
  · exact absurd hnil (by decide)
  · obtain rfl : code 'y' = c := Option.some.inj hc
    exact absurd hspace (by decide)

end Ashe.CmdLineOrigins
