import Ashe.ConfigorArrays
import Ashe.ConfigorLens
import Ashe.ConfigorStrings

namespace Ashe.ConfigorPlaces

open ConfigorText Fuel ConfigorSteps ConfigorTokens ConfigorTrees ConfigorRoundTrip
  ConfigorScan ConfigorOrigins ConfigorArrays ConfigorStrings

/-- A single value is not an opening bracket. More of them are written as an
array: the first and the last are not empty, the value is no closing bracket,
and it is a comma in the first place only. -/
def Placed (i : Nat) (v : Text) (values : List Text) : Prop :=
  if values.length = 1 then v ≠ ['['] ∧ v ≠ ['{']
  else Closed values ∧ v ≠ [']'] ∧ (v = [','] → i = 0)

def preceding (us : List Text) : List Text := us.flatMap fun u => stored [u] ++ [[',']]

theorem strips_preceding {us : List Text} (h : ∀ u ∈ us, Spelled u) :
    Strips (us.flatMap fun u => writeValue u ++ [',', ' '])
      (us.flatMap fun u => writeValue u ++ [',']) := by
  induction us with
  | nil => exact .nil
  | cons u us ih =>
      have hcomma : Strips [',', ' '] [','] := (strips_bare rfl).append strips_space
      exact ((h u (.head us)).strips.append hcomma).append (ih fun w hw => h w (.tail u hw))

theorem lexes_preceding {us : List Text} (h : ∀ u ∈ us, Spelled u) :
    Lexes (us.flatMap fun u => writeValue u ++ [',']) (preceding us) := by
  induction us with
  | nil => exact .nil
  | cons u us ih =>
      exact ((h u (.head us)).lexes (d := ',') rfl).append (ih fun w hw => h w (.tail u hw))

/-- Behind a value of an array stands a comma or the closing bracket. -/
theorem writeValues_place (us : List Text) (v : Text) {ws : List Text}
    (h : ∀ w ∈ ws, Spelled w) : ∃ d more, delimeter d ∧ '\n' ∉ more ∧
      writeValues (us ++ v :: ws) ++ [']'] =
        (us.flatMap fun u => writeValue u ++ [',', ' ']) ++ (writeValue v ++ d :: more) := by
  induction us with
  | nil =>
      cases ws with
      | nil => exact ⟨']', [], rfl, List.not_mem_nil, rfl⟩
      | cons w ws =>
          refine ⟨',', ' ' :: writeValues (w :: ws) ++ [']'], rfl, ?_, by simp [writeValues]⟩
          have hline := (strips_writeValues h).1
          simp [hline]
  | cons u us ih =>
      obtain ⟨d, more, hd, hmore, htext⟩ := ih
      obtain ⟨x, xs, hx⟩ : ∃ x xs, us ++ v :: ws = x :: xs :=
        List.exists_cons_of_ne_nil (by simp)
      refine ⟨d, more, hd, hmore, ?_⟩
      rw [List.flatMap_cons, List.append_assoc, ← htext, List.cons_append, hx, writeValues]
      · simp
      · simp

/-- What the reader finds of an array with a value that is a string: its tokens
up to that value, and what becomes of the line from its quote on. -/
theorem array_tokens {name v : Text} {us ws : List Text} (hn : IsName name)
    (h : ∀ w ∈ us ++ ws, Spelled w) (hlong : us ++ ws ≠ []) (hp : ∀ c ∈ v, isPrintable c)
    (hnum : isNumeric v = false) : ∃ d more, delimeter d ∧
      tokenize (preprocess (writeElements 0 [⟨name, us ++ v :: ws, []⟩])) =
        name :: ['='] :: ['['] :: (preceding us ++ scan quoted ['"'] (v ++ '"' :: d :: more)) := by
  obtain ⟨d, more, hd, hmore, htext⟩ :=
    writeValues_place us v fun w hw => h w (List.mem_append_right us hw)
  refine ⟨d, more, hd, ?_⟩
  have hus : ∀ u ∈ us, Spelled u := fun u hu => h u (List.mem_append_left ws hu)
  have hlen : (us ++ v :: ws).length ≠ 1 := by
    have hpos := List.length_pos_iff.mpr hlong
    rw [List.length_append] at hpos
    rw [List.length_append, List.length_cons]
    omega
  have hstrips := ((strips_name hn.word 0).append (strips_bare (c := '[') rfl)).append
    (strips_preceding hus)
  have hlexes := ((lexes_name hn.word).append (lexes_delimeter (c := '[') rfl)).append
    (lexes_preceding hus)
  have hnewline : '\n' ∉ v ++ '"' :: d :: more := by
    have hdn := (isQuote_delimeter hd).2.symm
    simp [newline_unprintable hp, hmore, hdn]
  have hline : writeElements 0 [⟨name, us ++ v :: ws, []⟩] =
      spaces 0 ++ name ++ [' ', '=', ' '] ++ ['['] ++
        (us.flatMap fun u => writeValue u ++ [',', ' ']) ++
          '"' :: (v ++ '"' :: d :: more) ++ ['\n'] := by
    have hvalue : writeValue v = '"' :: v ++ ['"'] := by rw [writeValue, hnum, if_neg (by decide)]
    rw [hvalue] at htext
    rw [writeElements, writeElements, writeElement, if_neg (by simp), if_neg (by simp),
      writeLeaf_many hlen, List.append_assoc ['['], htext]
    simp
  rw [hline, line_tokens hstrips hlexes hnewline]
  simp

section

variable {tokens : List Text}

/-- Behind a value the reader goes over the values up to a later one. -/
theorem reads_preceding {us : List Text} (h : ∀ u ∈ us, Taken u) {before after acc : List Text}
    {x r : Nat × List Text} (ht : tokens = before ++ preceding us ++ after) (ha : after ≠ [])
    (hx : Yields (fun fuel => emptyValues tokens fuel before.length acc) x)
    (hr : Yields (fun fuel => arrayValues tokens fuel x.1 x.2) r) :
    ∃ y, Yields (fun fuel => emptyValues tokens fuel (before ++ preceding us).length (acc ++ us))
      y ∧ Yields (fun fuel => arrayValues tokens fuel y.1 y.2) r := by
  induction us generalizing before acc x with
  | nil => exact ⟨x, by simpa [preceding] using hx, hr⟩
  | cons u us ih =>
      have hus : ∀ w ∈ us, Taken w := fun w hw => h w (.tail u hw)
      have hne : preceding us ++ after ≠ [] := by simp [ha]
      by_cases hu : u = []
      · subst hu
        have hhere : tokens = before ++ [','] :: (preceding us ++ after) := by
          simpa [preceding, stored] using ht
        have hnext : tokens = (before ++ [[',']]) ++ preceding us ++ after := by simpa using hhere
        rw [yields_emptyValues, if_pos ((accept_at hhere rfl _).mpr rfl),
          next_at hhere hne rfl] at hx
        obtain ⟨y, hy, hyr⟩ := ih hus hnext (by simpa using hx) hr
        exact ⟨y, by simpa [preceding, stored] using hy, hyr⟩
      · obtain ⟨hcomma, hclose⟩ := h u (.head us)
        have hstored : stored [u] = [u] := stored_cons hu []
        have hhere : tokens = before ++ u :: [','] :: (preceding us ++ after) := by
          simpa [preceding, hstored] using ht
        have hnext : tokens = (before ++ [u, [',']]) ++ preceding us ++ after := by
          simpa using hhere
        rw [yields_emptyValues,
          if_neg fun hc => hcomma ((accept_at hhere rfl _).mp hc)] at hx
        rw [hx] at hr
        obtain ⟨x', hx', hr'⟩ := (arrayValues_comma hhere hne hclose).mp hr
        obtain ⟨y, hy, hyr⟩ := ih hus hnext hx' hr'
        exact ⟨y, by simpa [preceding, hstored] using hy, hyr⟩

theorem value_read (acc : List Text) {p stop : Nat} {ws : List Text} {v : Text}
    (h : Yields (fun fuel => arrayValues tokens fuel p acc) (stop, acc ++ v :: ws)) :
    ConfigorText.get tokens p = v ∧ ¬ accept tokens ']' p := by
  rw [yields_arrayValues] at h
  split at h
  next => exact absurd (Prod.mk.inj h).2 (by simp)
  next hclose =>
    obtain ⟨x, ⟨n, hx⟩, ⟨m, hr⟩⟩ := h
    have hfirst := (emptyValues_extends hx).trans (arrayValues_extends hr)
    rw [List.prefix_append_right_inj, List.cons_prefix_cons] at hfirst
    exact ⟨hfirst.1, hclose⟩

/-- The tokens of an array have the value where the values before it end. -/
theorem place_read (pre : List Text) {us ws after : List Text} {v : Text} {stop : Nat}
    (h : ∀ u ∈ us, Taken u) (hfirst : us.head? ≠ some []) (hv : v ≠ []) (ha : after ≠ [])
    (ht : tokens = pre ++ preceding us ++ after)
    (hr : Yields (fun fuel => arrayValues tokens fuel pre.length []) (stop, us ++ v :: ws)) :
    after.head? = some v ∧ v ≠ [']'] ∧ (v = [','] → us.length = 0) := by
  obtain ⟨t, rest, rfl⟩ := List.exists_cons_of_ne_nil ha
  have hplace := get_at ht rfl
  cases us with
  | nil =>
      have ht : tokens = pre ++ t :: rest := by simpa [preceding] using ht
      obtain ⟨hget, hclose⟩ := value_read [] hr
      obtain rfl : t = v := (get_at ht rfl).symm.trans hget
      exact ⟨rfl, fun hc => hclose ((accept_at ht rfl _).mpr hc), fun _ => rfl⟩
  | cons u us =>
      have hu : u ≠ [] := by simpa using hfirst
      have hstored : stored [u] = [u] := stored_cons hu []
      have hhere : tokens = pre ++ u :: [','] :: (preceding us ++ t :: rest) := by
        simpa [preceding, hstored] using ht
      have hnext : tokens = (pre ++ [u, [',']]) ++ preceding us ++ t :: rest := by
        simpa using hhere
      obtain ⟨x, hx, hxr⟩ := (arrayValues_comma hhere (by simp) (h u (.head us)).2).mp hr
      obtain ⟨y, hy, hyr⟩ := reads_preceding (fun w hw => h w (.tail u hw)) hnext (by simp) hx hxr
      have hcomma : ¬ accept tokens ',' (pre ++ [u, [',']] ++ preceding us).length := by
        intro hc
        rw [yields_emptyValues, if_pos hc] at hy
        obtain ⟨⟨n, hy⟩, ⟨m, hyr⟩⟩ := hy, hyr
        have hempty := (emptyValues_extends hy).trans (arrayValues_extends hyr)
        have hshape : u :: us ++ v :: ws = ([] ++ [u] ++ us) ++ v :: ws := by simp
        rw [hshape, List.prefix_append_right_inj, List.cons_prefix_cons] at hempty
        exact hv hempty.1.symm
      rw [yields_emptyValues, if_neg hcomma] at hy
      subst hy
      have hshape : u :: us ++ v :: ws = ([] ++ [u] ++ us) ++ v :: ws := by simp
      rw [hshape] at hyr
      obtain ⟨hget, hclose⟩ := value_read _ hyr
      obtain rfl : t = v := (get_at hnext rfl).symm.trans hget
      refine ⟨rfl, fun hc => hclose ((accept_at hnext rfl _).mpr hc), fun hc => ?_⟩
      exact absurd ((accept_at hnext rfl _).mpr hc) hcomma

theorem array_alone {name : Text} {rest : List Text} {fuel stop : Nat} {x : Element}
    (h : parseVars (name :: ['='] :: ['['] :: rest) fuel 0 [] = some (stop, [x])) :
    ∃ stop, Yields (fun fuel => arrayValues (name :: ['='] :: ['['] :: rest) fuel
      (next (name :: ['='] :: ['['] :: rest) 2) []) (stop, x.values) := by
  generalize htokens : name :: ['='] :: ['['] :: rest = tokens at h ⊢
  have hequals : expect tokens '=' (next tokens 0) = some 2 :=
    @expect_equals _ [] _ _ _ htokens.symm
  have hopen : accept tokens '[' 2 := by
    rw [← htokens]
    exact beq_self_eq_true [_]
  have hcalls := yields_parseVars.mp ⟨fuel, h⟩
  rw [if_neg (by rw [← htokens]; simp)] at hcalls
  obtain ⟨y, hy, n, hr⟩ := hcalls
  have hr : parseVars tokens n y.1 y.2 = some (stop, [x]) := hr
  rw [parseVars_children] at hr
  obtain ⟨z, -, hz⟩ := Option.map_eq_some_iff.mp hr
  have hroot := (Prod.mk.inj hz).2
  cases yields_parseVar.mp hy with
  | noEquals hs => exact absurd (hequals.symm.trans hs) (by simp)
  | array hs ho hvalues =>
      obtain rfl := Option.some.inj (hequals.symm.trans hs)
      obtain ⟨rfl, -⟩ := List.cons_eq_cons.mp hroot
      exact ⟨_, hvalues⟩
  | object hs ho =>
      obtain rfl := Option.some.inj (hequals.symm.trans hs)
      exact absurd (accept_unique ho hopen) (by decide)
  | noSemicolon hs ha | value hs ha =>
      obtain rfl := Option.some.inj (hequals.symm.trans hs)
      exact absurd hopen ha

end

theorem closes_mem {tokens : List Text} {p : Nat} {acc : List Text} {r : Nat × List Text}
    (h : Yields (fun fuel => arrayValues tokens fuel p acc) r) : [']'] ∈ tokens := by
  obtain ⟨n, h⟩ := h
  have hclose := arrayValues_accept h
  have hi := accept_inside hclose
  rw [accept, ConfigorText.get, List.getD_eq_getElem?_getD, List.getElem?_eq_getElem hi,
    Option.getD_some, beq_iff_eq] at hclose
  exact hclose ▸ List.getElem_mem hi

theorem preceding_open {us : List Text} (h : ∀ u ∈ us, Taken u) : [']'] ∉ preceding us := by
  intro hm
  obtain ⟨u, hu, hm⟩ := List.mem_flatMap.mp hm
  rw [stored, List.mem_append, List.mem_filter, List.mem_singleton, List.mem_singleton] at hm
  obtain ⟨hclose, -⟩ | hcomma := hm
  · exact (h u hu).2 hclose.symm
  · exact absurd hcomma (by decide)

section

variable {name v : Text} {us ws : List Text}

/-- Where the string of the value does not stay what it is, something else is
read in its place. -/
theorem string_survives (hn : IsName name) (h : ∀ w ∈ us ++ ws, IsItem w) (hlong : us ++ ws ≠ [])
    (hv : v ≠ []) (hp : ∀ c ∈ v, isPrintable c) (hnum : isNumeric v = false)
    (hs : Survives ⟨name, us ++ v :: ws, []⟩) :
    keeps true v ∧ us.head? ≠ some [] ∧ v ≠ [']'] ∧ (v = [','] → us.length = 0) := by
  have hus : ∀ u ∈ us, Taken u := fun u hu => (h u (List.mem_append_left ws hu)).taken
  obtain ⟨fuel, stop, hvars⟩ := survives_alone hs
  obtain ⟨d, more, hd, htokens⟩ := array_tokens hn (fun w hw => (h w hw).spelled) hlong hp hnum
  rw [htokens] at hvars
  obtain ⟨stop, hvalues⟩ := array_alone hvars
  have hne : scan quoted ['"'] (v ++ '"' :: d :: more) ≠ [] := by
    intro hnil
    have hmem := closes_mem hvalues
    rw [hnil, List.append_nil] at hmem
    have hword := hn.word.ne_delimeter (c := ']') rfl
    simp [preceding_open hus, hword.symm] at hmem
  have hstart : next (name :: ['='] :: ['['] :: (preceding us ++
      scan quoted ['"'] (v ++ '"' :: d :: more))) 2 = 3 :=
    @next_at _ [name, ['=']] _ _ rfl (by simp [hne]) _ rfl
  rw [hstart] at hvalues
  have hfirst : us.head? ≠ some [] := by
    cases us with
    | nil => simp
    | cons u us =>
        intro hu
        obtain rfl : u = [] := by simpa using hu
        obtain ⟨hget, -⟩ := value_read [] hvalues
        exact absurd hget (by simp [ConfigorText.get, preceding, stored])
  obtain ⟨hhead, hclose, hcomma⟩ := place_read [name, ['='], ['[']] hus hfirst hv hne
    (by simp) hvalues
  refine ⟨?_, hfirst, hclose, hcomma⟩
  obtain hnil | ⟨s, t, q, c, rest, hb⟩ := scan_begins (v ++ '"' :: d :: more)
  · exact absurd hnil hne
  · exact hb.keeps hd hhead

theorem isValue_numeric (hv : v ≠ []) (hp : ∀ c ∈ v, isPrintable c) (h : isNumeric v) :
    IsValue v := by
  have hbare := isBare_of_numeric h
  refine ⟨hv, fun c hc => ⟨hp c hc, ?_, ?_⟩, ?_⟩
  · have hb := (hbare c hc).1
    simp only [isBare, Bool.not_eq_true', Bool.or_eq_false_iff] at hb
    exact hb.2
  · rintro rfl
    exact absurd (List.all_eq_true.mp h _ hc) (by decide)
  · rintro c hd rfl
    exact absurd (hd.symm.trans (hbare c (.head [])).2) (by decide)

theorem length_ne_one (hlong : us ++ ws ≠ []) : (us ++ v :: ws).length ≠ 1 := by
  have hpos := List.length_pos_iff.mpr hlong
  rw [List.length_append] at hpos
  rw [List.length_append, List.length_cons]
  omega

/-- An array is read back whole when its first value is not empty, up to an
empty last one. -/
theorem readable_array (hn : IsName name) (h : ∀ w ∈ us ++ ws, IsItem w) (hlong : us ++ ws ≠ [])
    (hv : v ≠ []) (hs : Spelled v) (hfirst : us.head? ≠ some []) (hclose : v ≠ [']'])
    (hcomma : v = [','] → us.length = 0) : ∃ text tokens,
      Readable ⟨name, us ++ v :: ws, []⟩ text tokens [⟨name, trimmed (us ++ v :: ws), []⟩]
        [⟨name, trimmed (us ++ v :: ws), []⟩] := by
  have hspelled : ∀ w ∈ us ++ v :: ws, Spelled w := by
    intro w hw
    obtain hw | rfl | hw := by simpa using hw
    · exact (h w (List.mem_append_left ws hw)).spelled
    · exact hs
    · exact (h w (List.mem_append_right us hw)).spelled
  have hreads : ReadsAs (name :: ['='] :: stored (leafTokens (us ++ v :: ws)))
      [⟨name, trimmed (us ++ v :: ws), []⟩] [⟨name, trimmed (us ++ v :: ws), []⟩] := by
    cases us with
    | nil =>
        cases ws with
        | nil => exact absurd rfl hlong
        | cons w ws => exact readsAs_taken name hv hclose fun u hu => (h u hu).taken
    | cons u us =>
        have hu : u ≠ [] := by simpa using hfirst
        have htaken : ∀ w ∈ us ++ v :: ws, Taken w := by
          intro w hw
          obtain hw | rfl | hw := by simpa using hw
          · exact (h w (.tail u (List.mem_append_left ws hw))).taken
          · exact ⟨fun hc => absurd (hcomma hc) (by simp), hclose⟩
          · exact (h w (.tail u (List.mem_append_right us hw))).taken
        obtain ⟨x, xs, hx⟩ : ∃ x xs, us ++ v :: ws = x :: xs :=
          List.exists_cons_of_ne_nil (by simp)
        rw [hx] at htaken
        rw [List.cons_append, hx]
        exact readsAs_taken name hu (h u (.head _)).taken.2 htaken
  exact ⟨_, _, readable_leaf hn.word (written_items (by simp) hspelled) hreads⟩

/-- A value among others comes back with them just when the string it is written
in stays what it is and the array is read as it is written. -/
theorem survives_array_iff (hn : IsName name) (h : ∀ w ∈ us ++ ws, IsItem w)
    (hlong : us ++ ws ≠ []) (hv : v ≠ []) (hp : ∀ c ∈ v, isPrintable c) :
    Survives ⟨name, us ++ v :: ws, []⟩ ↔ keeps true v ∧ Placed us.length v (us ++ v :: ws) := by
  rw [Placed, if_neg (length_ne_one hlong)]
  have hhead : (us ++ v :: ws).head? ≠ some [] ↔ us.head? ≠ some [] := by
    cases us with
    | nil => simpa using hv
    | cons u us => simp
  constructor
  · intro hs
    by_cases hnum : isNumeric v = true
    · -- it is one of the values that any array may have
      have hvalue := isValue_numeric hv hp hnum
      have hpadded : Padded (us ++ v :: ws) := by
        refine ⟨by simp, fun w hw => ?_⟩
        obtain hw | rfl | hw := by simpa using hw
        · exact h w (List.mem_append_left ws hw)
        · exact .inr hvalue
        · exact h w (List.mem_append_right us hw)
      obtain ⟨c', hc', hroot⟩ := hs ⟨[], [], [], 0, [_]⟩ (List.forall_mem_singleton.mpr .here)
      have hclosed := (padded_roundTrip_iff ⟨[], [], [], 0, [⟨name, us ++ v :: ws, []⟩]⟩
        (List.forall_mem_singleton.mpr (.values hn hpadded))).mp ⟨c', hc', hroot⟩
      exact ⟨keeps_numeric hnum,
        (built_values hn).mp (List.forall_mem_singleton.mp hclosed), hvalue.taken.2,
        fun hc => absurd hc hvalue.taken.1⟩
    · obtain ⟨hk, hfirst, hclose, hcomma⟩ :=
        string_survives hn h hlong hv hp (Bool.eq_false_iff.mpr hnum) hs
      refine ⟨hk, ⟨hhead.mpr hfirst, ?_⟩, hclose, hcomma⟩
      obtain ⟨text, tokens, hr⟩ := readable_array hn h hlong hv (spelled_keeps hv hp hk) hfirst
        hclose hcomma
      obtain ⟨c, hc, hroot⟩ := hs ⟨[], [], [], 0, [_]⟩ (List.forall_mem_singleton.mpr .here)
      obtain ⟨c', hc', hroot'⟩ := (ReadableAll.nil.cons hr).fromStream
        (c := ⟨[], [], [], 0, [⟨name, us ++ v :: ws, []⟩]⟩)
      obtain rfl := (readText_steady _ _).unique hc hc'
      have hsame := hroot.symm.trans hroot'
      rw [if_pos rfl, List.append_nil, List.singleton_inj] at hsame
      exact (trimmed_eq_self (by simp)).mp (Element.mk.inj hsame).2.1.symm
  · rintro ⟨hk, hclosed, hclose, hcomma⟩
    obtain ⟨text, tokens, hr⟩ := readable_array hn h hlong hv (spelled_keeps hv hp hk)
      (hhead.mp hclosed.1) hclose hcomma
    rw [(trimmed_eq_self (by simp)).mpr hclosed.2] at hr
    exact survives_readable ⟨text, tokens, hr⟩

end

theorem VarCall.leaf {tokens : List Text} {i k : Nat} {e : Element}
    (h : VarCall tokens i [] (k, [e])) : e.values = [] ∨ e.children = [] := by
  generalize hr : (k, [e]) = r at h
  cases h with
  | noEquals | noSemicolon => exact absurd hr (by simp)
  | array | value =>
      obtain rfl := List.singleton_inj.mp (Prod.mk.inj hr).2
      exact .inr rfl
  | object =>
      obtain rfl := List.singleton_inj.mp (Prod.mk.inj hr).2
      exact .inl rfl

theorem survives_leaf {x : Element} (h : Survives x) : x.values = [] ∨ x.children = [] := by
  obtain ⟨fuel, stop, hvars⟩ := survives_alone h
  obtain ⟨k, hcall⟩ | ⟨y, j, k, -, -, hcall⟩ :=
    parseVars_origin hvars (List.mem_singleton.mpr rfl)
  · exact VarCall.leaf hcall
  · exact VarCall.leaf hcall

theorem set_values {memory : Bool} {e x : Element} {v : Text} {i : UInt64}
    (h : ConfigorAccess.set memory v i e = some (some (), x)) :
    x = { e with values := ConfigorLens.stored e.values i.toNat v } := by
  by_cases hi : i.toNat < e.values.length ∨ ConfigorLens.Granted memory i
  · rw [ConfigorLens.set_eq hi] at h
    exact (Prod.mk.inj (Option.some.inj h)).2.symm
  · exact absurd h (ConfigorLens.set_refused hi v x)

theorem stored_split (values : List Text) (i : Nat) (v : Text) :
    ∃ us ws, ConfigorLens.stored values i v = us ++ v :: ws ∧ us.length = i ∧
      ∀ w ∈ us ++ ws, w = [] ∨ ∃ j, values[j]? = some w ∧ j ≠ i := by
  rw [ConfigorLens.stored]
  split
  next h =>
    refine ⟨values.take i, values.drop (i + 1), List.set_eq_take_append_cons_drop.trans
      (if_pos h), by rw [List.length_take]; omega, fun w hw => .inr ?_⟩
    rw [List.mem_append, List.mem_take_iff_getElem, List.mem_drop_iff_getElem] at hw
    obtain ⟨j, hj, rfl⟩ | ⟨j, hj, rfl⟩ := hw
    · exact ⟨j, List.getElem?_eq_getElem _, by omega⟩
    · exact ⟨i + 1 + j, List.getElem?_eq_getElem _, by omega⟩
  next h =>
    refine ⟨values ++ List.replicate (i - values.length) [], [], rfl, ?_, fun w hw => ?_⟩
    · rw [List.length_append, List.length_replicate]
      omega
    · rw [List.append_nil, List.mem_append] at hw
      obtain hw | hw := hw
      · obtain ⟨j, hj, rfl⟩ := List.getElem_of_mem hw
        exact .inr ⟨j, List.getElem?_eq_getElem hj, by omega⟩
      · exact .inl (List.mem_replicate.mp hw).2

/-- What is stored with set comes back with its element, whatever this is
written among, just when the element has no children, the string that the value
is written in stays what it is, and the value is read in its place. -/
theorem survives_iff {memory : Bool} {e x : Element} {v : Text} {i : UInt64}
    (hn : IsName e.name) (hothers : ∀ j w, e.values[j]? = some w → j ≠ i.toNat → IsItem w)
    (hv : v ≠ []) (hp : ∀ c ∈ v, isPrintable c)
    (h : ConfigorAccess.set memory v i e = some (some (), x)) :
    Survives x ↔ e.children = [] ∧ keeps true v ∧ Placed i.toNat v x.values := by
  obtain rfl := set_values h
  obtain ⟨us, ws, hvalues, hlen, hmem⟩ := stored_split e.values i.toNat v
  have hitems : ∀ w ∈ us ++ ws, IsItem w := by
    intro w hw
    obtain hw | ⟨j, hj, hne⟩ := hmem w hw
    · exact .inl hw
    · exact hothers j w hj hne
  rw [hvalues, ← hlen]
  by_cases hc : e.children = []
  · rw [hc, and_iff_right rfl]
    by_cases hlong : us ++ ws = []
    · obtain ⟨rfl, rfl⟩ := List.append_eq_nil_iff.mp hlong
      have hplaced : Placed 0 v [v] ↔ v ≠ ['['] ∧ v ≠ ['{'] := by
        rw [Placed, if_pos List.length_singleton]
      exact (survives_single_iff hn hv hp).trans (and_congr_right' hplaced.symm)
    · exact survives_array_iff hn hitems hlong hv hp
  · refine ⟨fun hs => absurd (survives_leaf hs) ?_, fun hs => absurd hs.1 hc⟩
    simp [hc]

theorem survives_iff_quotes :
    Survives ⟨['n'], [['x'], ['a', '"', 'b', '"', '#'], ['y']], []⟩ := by
  have h : ConfigorAccess.set true ['a', '"', 'b', '"', '#'] 1 ⟨['n'], [['x'], [], ['y']], []⟩ =
      some (some (), ⟨['n'], [['x'], ['a', '"', 'b', '"', '#'], ['y']], []⟩) := rfl
  have hletter {c : Char} (hc : isNameChar c) (hp : isPrintable c) : IsValue [c] := by
    obtain ⟨hb, hd⟩ := isBare_of_nameChar hc
    simp only [isBare, Bool.not_eq_true', Bool.or_eq_false_iff] at hb
    refine ⟨by simp, List.forall_mem_singleton.mpr ⟨hp, hb.2, ?_⟩, ?_⟩
    · rintro rfl
      exact absurd hc (by decide)
    · rintro d hdd heq
      obtain rfl := List.singleton_inj.mp heq
      exact absurd (hdd.symm.trans hd) (by decide)
  refine (survives_iff ⟨by decide, List.forall_mem_singleton.mpr (by decide)⟩ ?_ (by decide) ?_
    h).mpr ⟨rfl, by decide, ?_⟩
  · intro j w hj hne
    have hw := List.mem_of_getElem? hj
    simp only [List.mem_cons, List.not_mem_nil, or_false] at hw
    obtain rfl | rfl | rfl := hw
    · exact .inr (hletter (by decide) (by decide))
    · exact .inl rfl
    · exact .inr (hletter (by decide) (by decide))
  · rw [← List.all_eq_true]
    decide
  · rw [Placed, if_neg (by decide)]
    exact ⟨⟨by decide, by decide⟩, by decide, by decide⟩

/-- The quote ends the string, and the one behind it begins another that goes
on through the next element. -/
theorem quote_swallows :
    let x : Element := ⟨['n'], [['a', '"', 'b']], []⟩
    let c : Configor := ⟨[], [], [], 0, [x, ⟨['m'], [['x']], []⟩]⟩
    ConfigorAccess.set true ['a', '"', 'b'] 0 ⟨['n'], [], []⟩ = some (some (), x) ∧
      (∃ c', Yields (fun fuel => fromStream fuel (save c)) c' ∧ c'.root = []) ∧
      ¬ ∃ c', Yields (fun fuel => fromStream fuel (save c)) c' ∧ c'.root = c.root := by
  intro x c
  have hsave : preprocess (save c) = ['n', '=', '"', 'a', '"', 'b', '"', ';', '\n',
    'm', ' ', '=', ' ', '"', 'x', '"', ';', '\n'] := by decide
  have htokens : tokenize ['n', '=', '"', 'a', '"', 'b', '"', ';', '\n',
    'm', ' ', '=', ' ', '"', 'x', '"', ';', '\n'] = [['n'], ['=']] := by decide
  have hread : ∃ r, fromStream 10 (save c) = some r ∧ r.root = [] := by
    simp only [fromStream, readText, hsave, htokens]
    exact ⟨_, rfl, rfl⟩
  obtain ⟨r, hr, hroot⟩ := hread
  refine ⟨rfl, ⟨r, ⟨10, hr⟩, hroot⟩, ?_⟩
  rintro ⟨c', h, hroot'⟩
  obtain rfl := (readText_steady _ _).unique h ⟨10, hr⟩
  exact absurd (hroot.symm.trans hroot') (by simp [c])

end Ashe.ConfigorPlaces
