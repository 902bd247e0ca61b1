import Ashe.ConfigorScan
import Ashe.ConfigorTrees

namespace Ashe.ConfigorOrigins

open ConfigorText Fuel ConfigorSteps ConfigorTrees ConfigorScan

variable {tokens : List Text}

theorem weight_drop (ts : List Text) (n : Nat) : weight (ts.drop n) ≤ weight ts := by
  have h := congrArg weight (List.take_append_drop n ts)
  rw [weight_append] at h
  omega

theorem drop_weight {i k : Nat} (h : i ≤ k) : weight (tokens.drop k) ≤ weight (tokens.drop i) := by
  obtain ⟨n, rfl⟩ := Nat.exists_eq_add_of_le h
  rw [← List.drop_drop]
  exact weight_drop _ n

/-- A token and all from a later one on are some of the tokens from it on. -/
theorem get_drop {i k : Nat} (h : i < k) :
    (ConfigorText.get tokens i).length + weight (tokens.drop k) ≤ weight (tokens.drop i) := by
  by_cases hi : i < tokens.length
  · have hdrop : tokens.drop i = ConfigorText.get tokens i :: tokens.drop (i + 1) := by
      rw [List.drop_eq_getElem_cons hi, ConfigorText.get, List.getD_eq_getElem?_getD,
        List.getElem?_eq_getElem hi, Option.getD_some]
    rw [hdrop, weight_cons]
    exact Nat.add_le_add_left (drop_weight h) _
  · have hget : ConfigorText.get tokens i = [] := by
      rw [ConfigorText.get, List.getD_eq_getElem?_getD, List.getElem?_eq_none (by omega)]
      rfl
    rw [hget, List.length_nil, Nat.zero_add]
    exact drop_weight (Nat.le_of_lt h)

theorem accept_inside {c : Char} {i : Nat} (h : accept tokens c i) : i < tokens.length := by
  by_cases hi : i < tokens.length
  · exact hi
  · rw [accept, ConfigorText.get, List.getD_eq_getElem?_getD,
      List.getElem?_eq_none (by omega)] at h
    exact absurd h (by simp)

theorem accept_next {c : Char} {i : Nat} (h : accept tokens c (next tokens i))
    (hne : ConfigorText.get tokens i ≠ [c]) : next tokens i = i + 1 ∧ i + 1 < tokens.length := by
  have hinside := accept_inside h
  rw [next] at h hinside ⊢
  split at h
  next hi =>
    rw [if_pos hi] at hinside ⊢
    exact ⟨rfl, hinside⟩
  next => exact absurd (beq_iff_eq.mp h) hne

theorem emptyValues_extends {fuel i : Nat} {values : List Text} {r : Nat × List Text}
    (h : emptyValues tokens fuel i values = some r) : values <+: r.2 := by
  induction fuel generalizing i values with
  | zero => exact absurd h (by simp [emptyValues])
  | succ fuel ih =>
      rw [emptyValues] at h
      split at h
      next => exact (List.prefix_append _ _).trans (ih h)
      next => exact Option.some.inj h ▸ List.prefix_refl _

theorem arrayValues_extends {fuel i : Nat} {values : List Text} {r : Nat × List Text}
    (h : arrayValues tokens fuel i values = some r) : values <+: r.2 := by
  induction fuel generalizing i values with
  | zero => exact absurd h (by simp [arrayValues])
  | succ fuel ih =>
      rw [arrayValues] at h
      split at h
      next => exact Option.some.inj h ▸ List.prefix_refl _
      next =>
        obtain ⟨x, hx, hr⟩ := Option.bind_eq_some_iff.mp h
        exact (List.prefix_append _ _).trans ((emptyValues_extends hx).trans (ih hr))

/-- An array that is read as a single value has this value in it, and a bracket
behind it. -/
theorem arrayValues_single {i stop : Nat} {v : Text}
    (h : Yields (fun fuel => arrayValues tokens fuel i []) (stop, [v])) :
    ConfigorText.get tokens i = v ∧ i < stop ∧ accept tokens ']' stop := by
  rw [yields_arrayValues] at h
  split at h
  next => exact absurd h (by simp)
  next hclose =>
    obtain ⟨x, ⟨n, hx⟩, ⟨m, hr⟩⟩ := h
    have hfirst := (emptyValues_extends hx).trans (arrayValues_extends hr)
    have hstop := arrayValues_accept hr
    have hmoves := (moves_afterValue i).trans ((moves_emptyValues hx).trans (moves_arrayValues hr))
    refine ⟨List.singleton_inj.mp (hfirst.eq_of_length rfl), ?_, hstop⟩
    obtain heq | hlt := Nat.eq_or_lt_of_le hmoves.1
    · exact absurd (heq ▸ hstop) hclose
    · exact hlt

theorem VarCall.single {i : Nat} {r : Nat × List Element} (h : VarCall tokens i [] r) {e : Element}
    (he : e ∈ r.2) : r.2 = [e] := by
  cases h with
  | noEquals | noSemicolon => exact absurd he List.not_mem_nil
  | array | object | value => exact congrArg ([·]) (List.mem_singleton.mp he).symm

/-- Every element that is read comes from a call of parseVar: the first one, or
one that begins where another has ended or later. -/
theorem parseVars_origin {fuel i : Nat} {r : Nat × List Element} {e : Element}
    (h : parseVars tokens fuel i [] = some r) (he : e ∈ r.2) :
    (∃ k, VarCall tokens i [] (k, [e])) ∨
      ∃ x j k, VarCall tokens i [] x ∧ x.1 ≤ j ∧ VarCall tokens j [] (k, [e]) := by
  induction fuel generalizing i r with
  | zero => exact absurd h (by simp [parseVars])
  | succ fuel ih =>
      rw [parseVars] at h
      split at h
      next =>
        obtain rfl := Option.some.inj h
        exact absurd he List.not_mem_nil
      next =>
        obtain ⟨x, hx, hr⟩ := Option.bind_eq_some_iff.mp h
        have hcall := yields_parseVar.mp ⟨fuel, hx⟩
        have hr : parseVars tokens fuel x.1 x.2 = some r := hr
        rw [parseVars_children] at hr
        obtain ⟨y, hy, rfl⟩ := Option.map_eq_some_iff.mp hr
        obtain he | he := List.mem_append.mp he
        · have hsingle := VarCall.single hcall he
          exact .inl ⟨x.1, hsingle ▸ hcall⟩
        · obtain ⟨k, hcall'⟩ | ⟨z, j, k, hcall', hj, hlater⟩ := ih hy he
          · exact .inr ⟨x, x.1, k, hcall, Nat.le_refl _, hcall'⟩
          · exact .inr ⟨x, j, k, hcall, Nat.le_trans hcall'.moves.1 hj, hlater⟩

/-- A call that gets past an equals sign is also past the token after it. -/
theorem VarCall.passes {i : Nat} {r : Nat × List Element} (h : VarCall tokens i [] r)
    (heq : accept tokens '=' (next tokens i)) :
    next tokens (next tokens (next tokens i)) ≤ r.1 := by
  cases h with
  | noEquals hs => exact absurd ((expect_accept heq).symm.trans hs) (by simp)
  | array hs ho hv =>
      obtain ⟨n, hv⟩ := hv
      rw [← (expect_some hs).2]
      exact Nat.le_trans (moves_arrayValues hv).1 (moves_close _).1
  | object hs ho hv =>
      rw [← (expect_some hs).2]
      exact Nat.le_trans (moves_objectVars hv).1 (moves_close _).1
  | noSemicolon hs => exact Nat.le_of_eq (congrArg (next tokens) (expect_some hs).2.symm)
  | value hs ha ho hend =>
      rw [← (expect_some hs).2]
      exact (moves_expect hend).1

/-- A single value that is no delimiter is read from its tokens, or from an array. -/
theorem VarCall.tokens_single {i k : Nat} {name v : Text} (hn : IsWord name)
    (hv : ∀ c, delimeter c → v ≠ [c]) (h : VarCall tokens i [] (k, [⟨name, [v], []⟩])) :
    ConfigorText.get tokens i = name ∧ accept tokens '=' (i + 1) ∧
      ((ConfigorText.get tokens (i + 2) = v ∧ accept tokens ';' (i + 3)) ∨
        (accept tokens '[' (i + 2) ∧ ConfigorText.get tokens (i + 3) = v ∧
          ∃ stop, i + 3 < stop ∧ accept tokens ']' stop)) := by
  generalize hr : (k, [(⟨name, [v], []⟩ : Element)]) = r at h
  -- the equals sign is another token than the name, and what follows it is another one again
  have hequals {start : Nat} (hs : expect tokens '=' (next tokens i) = some start)
      (hname : ConfigorText.get tokens i = name)
      (hstart : ConfigorText.get tokens start ≠ ['=']) :
      accept tokens '=' (i + 1) ∧ start = i + 2 := by
    obtain ⟨heq, rfl⟩ := expect_some hs
    obtain ⟨hnext, -⟩ := accept_next heq (hname ▸ hn.ne_delimeter rfl)
    rw [hnext] at heq hstart ⊢
    refine ⟨heq, ?_⟩
    rw [next] at hstart ⊢
    split at hstart
    next hi => rw [if_pos hi]
    next => exact absurd (beq_iff_eq.mp heq) hstart
  cases h with
  | noEquals | noSemicolon | object => exact absurd hr (by simp)
  | @array start stop values hs ho hvalues =>
      obtain ⟨-, hname, rfl⟩ : k = _ ∧ name = ConfigorText.get tokens i ∧ [v] = values := by
        simpa using hr
      have hbracket : ConfigorText.get tokens start = ['['] := beq_iff_eq.mp ho
      obtain ⟨heq, rfl⟩ := hequals hs hname.symm (by rw [hbracket]; decide)
      obtain ⟨hget, hstop, hclose⟩ := arrayValues_single hvalues
      have hnext : next tokens (i + 2) = i + 3 := by
        rw [next] at hget ⊢
        split at hget
        next hi => rw [if_pos hi]
        next => exact absurd (hget.symm.trans hbracket) (hv '[' rfl)
      rw [hnext] at hget hstop
      exact ⟨hname.symm, heq, .inr ⟨ho, hget, stop, hstop, hclose⟩⟩
  | @value start stop hs ha ho hend =>
      obtain ⟨-, hname, hvalue⟩ :
          k = stop ∧ name = ConfigorText.get tokens i ∧ v = ConfigorText.get tokens start := by
        simpa using hr
      obtain ⟨heq, rfl⟩ := hequals hs hname.symm (hvalue ▸ hv '=' rfl)
      have hsemi := (expect_some hend).1
      obtain ⟨hnext, -⟩ := accept_next hsemi (hvalue ▸ hv ';' rfl)
      exact ⟨hname.symm, heq, .inl ⟨hvalue.symm, hnext ▸ hsemi⟩⟩

theorem accept_length {c : Char} {i : Nat} (h : accept tokens c i) :
    (ConfigorText.get tokens i).length = 1 := congrArg List.length (beq_iff_eq.mp h)

/-- The characters of the tokens that a single value is read from. -/
theorem VarCall.weight_single {i k : Nat} {name v : Text} (hn : IsWord name)
    (hv : ∀ c, delimeter c → v ≠ [c]) (h : VarCall tokens i [] (k, [⟨name, [v], []⟩])) :
    name.length + v.length + 2 ≤ weight (tokens.drop i) := by
  obtain ⟨hname, heq, hvalue⟩ := VarCall.tokens_single hn hv h
  have hfirst := @get_drop tokens i (i + 1) (by omega)
  have hsecond := @get_drop tokens (i + 1) (i + 2) (by omega)
  have hthird := @get_drop tokens (i + 2) (i + 3) (by omega)
  have hfourth := @get_drop tokens (i + 3) (i + 4) (by omega)
  rw [hname] at hfirst
  rw [accept_length heq] at hsecond
  obtain ⟨hget, hsemi⟩ | ⟨ho, hget, -⟩ := hvalue
  · rw [hget] at hthird
    rw [accept_length hsemi] at hfourth
    omega
  · rw [accept_length ho] at hthird
    rw [hget] at hfourth
    omega

/-- The value is the first thing behind the name, or it stands in an array. -/
theorem first_single {k : Nat} {name v : Text} {rest : List Text} (hn : IsWord name)
    (hv : ∀ c, delimeter c → v ≠ [c])
    (h : VarCall (name :: ['='] :: rest) 0 [] (k, [⟨name, [v], []⟩])) :
    (∃ others, rest = v :: [';'] :: others) ∨
      (rest.head? = some ['['] ∧ v.length + 2 ≤ weight rest) := by
  obtain ⟨-, -, ⟨hget, hsemi⟩ | ⟨ho, hget, stop, hstop, hclose⟩⟩ := VarCall.tokens_single hn hv h
  · left
    cases rest with
    | nil => exact absurd hsemi (by simp [accept, ConfigorText.get])
    | cons t rest =>
        cases rest with
        | nil => exact absurd hsemi (by simp [accept, ConfigorText.get])
        | cons u rest =>
            obtain rfl : t = v := hget
            obtain rfl : u = [';'] := beq_iff_eq.mp hsemi
            exact ⟨rest, rfl⟩
  · right
    cases rest with
    | nil => exact absurd ho (by simp [accept, ConfigorText.get])
    | cons t rest =>
        obtain rfl : t = ['['] := beq_iff_eq.mp ho
        have hvalue := @get_drop (name :: ['='] :: ['['] :: rest) _ _ hstop
        have hbracket := @get_drop (name :: ['='] :: ['['] :: rest) _ _ (Nat.lt_add_one stop)
        rw [hget] at hvalue
        rw [accept_length hclose] at hbracket
        rw [List.drop_succ_cons, List.drop_succ_cons, List.drop_succ_cons,
          List.drop_zero] at hvalue
        refine ⟨rfl, ?_⟩
        rw [weight_cons, List.length_singleton]
        omega

theorem later_single {j k : Nat} {name v : Text} {rest : List Text} (hn : IsWord name)
    (hv : ∀ c, delimeter c → v ≠ [c]) (hrest : rest.head? ≠ some []) {x : Nat × List Element}
    (hcall : VarCall (name :: ['='] :: rest) 0 [] x) (hj : x.1 ≤ j)
    (h : VarCall (name :: ['='] :: rest) j [] (k, [⟨name, [v], []⟩])) :
    v.length + 4 ≤ weight rest := by
  obtain ⟨-, heq, -⟩ := VarCall.tokens_single hn hv h
  have hinside := accept_inside heq
  have hj3 : 3 ≤ j := by
    have hpast := Nat.le_trans (VarCall.passes hcall rfl) hj
    have hsecond := @next_min (name :: ['='] :: rest) 1 (by simp)
    have hthird := @next_min (name :: ['='] :: rest) (min 2 (rest.length + 1)) (by
      rw [List.length_cons, List.length_cons]
      omega)
    have hpast : next (name :: ['='] :: rest) (next (name :: ['='] :: rest) 1) ≤ j := hpast
    simp only [List.length_cons, Nat.add_sub_cancel] at hinside hsecond hthird
    rw [hsecond, hthird] at hpast
    omega
  have hweight := VarCall.weight_single hn hv h
  have hdrop := @drop_weight (name :: ['='] :: rest) _ _ hj3
  have hname := List.length_pos_iff.mpr hn.nonempty
  cases rest with
  | nil =>
      simp only [List.length_cons, List.length_nil] at hinside
      omega
  | cons t rest =>
      have ht : t ≠ [] := fun ht => hrest (congrArg some ht)
      have hpos := List.length_pos_iff.mpr ht
      rw [weight_cons]
      simp only [List.drop_succ_cons, List.drop_zero] at hdrop
      omega

/-- A single value that is read from an element of its name: either its tokens
begin with the value, or there are more of them than the value needs. -/
theorem parseVars_single {name v : Text} {rest : List Text} (hn : IsWord name)
    (hv : ∀ c, delimeter c → v ≠ [c]) (hrest : rest.head? ≠ some []) {fuel : Nat}
    {r : Nat × List Element} (h : parseVars (name :: ['='] :: rest) fuel 0 [] = some r)
    (he : ⟨name, [v], []⟩ ∈ r.2) :
    (∃ others, rest = v :: [';'] :: others) ∨
      (rest.head? = some ['['] ∧ v.length + 2 ≤ weight rest) ∨ v.length + 4 ≤ weight rest := by
  obtain ⟨k, hcall⟩ | ⟨x, j, k, hcall, hj, hlater⟩ := parseVars_origin h he
  · exact (first_single hn hv hcall).imp_right .inl
  · exact .inr (.inr (later_single hn hv hrest hcall hj hlater))

end Ashe.ConfigorOrigins
