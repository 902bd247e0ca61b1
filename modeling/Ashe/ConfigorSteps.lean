import Ashe.ConfigorText
import Ashe.Fuel

namespace Ashe.ConfigorSteps

open ConfigorText Fuel

variable {tokens : List Text}

theorem emptyValues_steady (index : Nat) (values : List Text) :
    Steady fun fuel => emptyValues tokens fuel index values := by
  intro fuel
  induction fuel generalizing index values with
  | zero => intro r h; exact absurd h (by simp [emptyValues])
  | succ fuel ih =>
      intro r h
      dsimp only at h ⊢
      rw [emptyValues] at h ⊢
      by_cases hc : accept tokens ',' index
      · rw [if_pos hc] at h ⊢
        exact ih _ _ r h
      · rwa [if_neg hc] at h ⊢

theorem arrayValues_steady (index : Nat) (values : List Text) :
    Steady fun fuel => arrayValues tokens fuel index values := by
  intro fuel
  induction fuel generalizing index values with
  | zero => intro r h; exact absurd h (by simp [arrayValues])
  | succ fuel ih =>
      intro r h
      dsimp only at h ⊢
      rw [arrayValues] at h ⊢
      by_cases hc : accept tokens ']' index
      · rwa [if_pos hc] at h ⊢
      · rw [if_neg hc] at h ⊢
        exact bind_steady h (emptyValues_steady _ _ fuel) fun x hx => ih x.1 x.2 r hx

theorem parseArray_steady (index : Nat) (e : Element) :
    Steady fun fuel => parseArray tokens fuel index e := by
  intro fuel r h
  dsimp only at h ⊢
  rw [parseArray] at h ⊢
  cases he : expect tokens '[' index with
  | none => rwa [he] at h
  | some index' =>
      rw [he] at h
      exact bind_steady h (arrayValues_steady _ _ fuel) fun _ hx => hx

theorem parse_steady (fuel : Nat) :
    (∀ index parent r, parseVar tokens fuel index parent = some r →
      parseVar tokens (fuel + 1) index parent = some r) ∧
    (∀ index e r, parseObject tokens fuel index e = some r →
      parseObject tokens (fuel + 1) index e = some r) ∧
    ∀ index children r, objectVars tokens fuel index children = some r →
      objectVars tokens (fuel + 1) index children = some r := by
  induction fuel with
  | zero => simp [parseVar, parseObject, objectVars]
  | succ fuel ih =>
      obtain ⟨ihv, iho, ihl⟩ := ih
      refine ⟨fun index parent r h => ?_, fun index e r h => ?_, fun index children r h => ?_⟩
      · rw [parseVar] at h ⊢
        cases he : expect tokens '=' (next tokens index) with
        | none => rwa [he] at h
        | some index' =>
            simp only [he] at h ⊢
            by_cases ha : accept tokens '[' index'
            · rw [if_pos ha] at h ⊢
              exact bind_steady h (parseArray_steady _ _ fuel) fun _ hx => hx
            · rw [if_neg ha] at h ⊢
              by_cases ho : accept tokens '{' index'
              · rw [if_pos ho] at h ⊢
                exact bind_steady h (iho _ _) fun _ hx => hx
              · rwa [if_neg ho] at h ⊢
      · rw [parseObject] at h ⊢
        cases he : expect tokens '{' index with
        | none => rwa [he] at h
        | some index' =>
            rw [he] at h
            exact bind_steady h (ihl _ _) fun _ hx => hx
      · rw [objectVars] at h ⊢
        by_cases hc : accept tokens '}' index
        · rwa [if_pos hc] at h ⊢
        · rw [if_neg hc] at h ⊢
          exact bind_steady h (ihv _ _) fun x hx => ihl x.1 x.2 r hx

theorem parseVar_steady (index : Nat) (parent : List Element) :
    Steady fun fuel => parseVar tokens fuel index parent :=
  fun fuel => (parse_steady fuel).1 index parent

theorem objectVars_steady (index : Nat) (children : List Element) :
    Steady fun fuel => objectVars tokens fuel index children :=
  fun fuel => (parse_steady fuel).2.2 index children

theorem parseVars_steady (index : Nat) (children : List Element) :
    Steady fun fuel => parseVars tokens fuel index children := by
  intro fuel
  induction fuel generalizing index children with
  | zero => intro r h; exact absurd h (by simp [parseVars])
  | succ fuel ih =>
      intro r h
      dsimp only at h ⊢
      rw [parseVars] at h ⊢
      by_cases hc : index = tokens.length - 1
      · rwa [if_pos hc] at h ⊢
      · rw [if_neg hc] at h ⊢
        exact bind_steady h (parseVar_steady _ _ fuel) fun x hx => ih x.1 x.2 r hx

theorem readText_steady (c : Configor) (file : Text) : Steady fun fuel => readText fuel c file := by
  intro fuel r h
  simp only [readText, parse] at h ⊢
  split at h
  next hinput =>
    rw [if_pos hinput]
    split at h
    next hpos =>
      rw [if_pos hpos]
      exact bind_steady h (parseVars_steady _ _ fuel) fun _ hx => hx
    next hpos => rwa [if_neg hpos]
  next hinput => rwa [if_neg hinput]

theorem yields_emptyValues {index : Nat} {values : List Text} {r : Nat × List Text} :
    Yields (fun fuel => emptyValues tokens fuel index values) r ↔
      if accept tokens ',' index then
        Yields (fun fuel => emptyValues tokens fuel (next tokens index) (values ++ [[]])) r
      else r = (index, values) := by
  by_cases hc : accept tokens ',' index
  · rw [if_pos hc]
    exact yields_succ rfl fun fuel => by rw [emptyValues, if_pos hc]
  · rw [if_neg hc, ← yields_some]
    exact yields_succ rfl fun fuel => by rw [emptyValues, if_neg hc]

def afterValue (tokens : List Text) (index : Nat) : Nat :=
  if accept tokens ',' (next tokens index) then next tokens (next tokens index)
  else next tokens index

theorem yields_arrayValues {index : Nat} {values : List Text} {r : Nat × List Text} :
    Yields (fun fuel => arrayValues tokens fuel index values) r ↔
      if accept tokens ']' index then r = (index, values)
      else ∃ x, Yields (fun fuel => emptyValues tokens fuel (afterValue tokens index)
            (values ++ [ConfigorText.get tokens index])) x ∧
          Yields (fun fuel => arrayValues tokens fuel x.1 x.2) r := by
  by_cases hc : accept tokens ']' index
  · rw [if_pos hc, ← yields_some]
    exact yields_succ rfl fun fuel => by rw [arrayValues, if_pos hc]
  · rw [if_neg hc, ← yields_bind (emptyValues_steady _ _) fun x => arrayValues_steady x.1 x.2]
    exact yields_succ rfl fun fuel => by rw [arrayValues, if_neg hc]; rfl

theorem yields_objectVars {index : Nat} {children : List Element} {r : Nat × List Element} :
    Yields (fun fuel => objectVars tokens fuel index children) r ↔
      if accept tokens '}' index then r = (index, children)
      else ∃ x, Yields (fun fuel => parseVar tokens fuel index children) x ∧
          Yields (fun fuel => objectVars tokens fuel x.1 x.2) r := by
  by_cases hc : accept tokens '}' index
  · rw [if_pos hc, ← yields_some]
    exact yields_succ rfl fun fuel => by rw [objectVars, if_pos hc]
  · rw [if_neg hc, ← yields_bind (parseVar_steady _ _) fun x => objectVars_steady x.1 x.2]
    exact yields_succ rfl fun fuel => by rw [objectVars, if_neg hc]; rfl

theorem yields_parseVars {index : Nat} {children : List Element} {r : Nat × List Element} :
    Yields (fun fuel => parseVars tokens fuel index children) r ↔
      if index = tokens.length - 1 then r = (index, children)
      else ∃ x, Yields (fun fuel => parseVar tokens fuel index children) x ∧
          Yields (fun fuel => parseVars tokens fuel x.1 x.2) r := by
  by_cases hc : index = tokens.length - 1
  · rw [if_pos hc, ← yields_some]
    exact yields_succ rfl fun fuel => by rw [parseVars, if_pos hc]
  · rw [if_neg hc, ← yields_bind (parseVar_steady _ _) fun x => parseVars_steady x.1 x.2]
    exact yields_succ rfl fun fuel => by rw [parseVars, if_neg hc]; rfl

/-- The loop over the values of an array only ends at a closing bracket. -/
theorem arrayValues_accept {fuel index : Nat} {values : List Text} {r : Nat × List Text}
    (h : arrayValues tokens fuel index values = some r) : accept tokens ']' r.1 := by
  induction fuel generalizing index values with
  | zero => exact absurd h (by simp [arrayValues])
  | succ fuel ih =>
      rw [arrayValues] at h
      split at h
      next hc =>
        obtain rfl := Option.some.inj h
        exact hc
      next =>
        obtain ⟨x, _, hx⟩ := Option.bind_eq_some_iff.mp h
        exact ih hx

theorem objectVars_accept {fuel index : Nat} {children : List Element} {r : Nat × List Element}
    (h : objectVars tokens fuel index children = some r) : accept tokens '}' r.1 := by
  induction fuel generalizing index children with
  | zero => exact absurd h (by simp [objectVars])
  | succ fuel ih =>
      rw [objectVars] at h
      split at h
      next hc =>
        obtain rfl := Option.some.inj h
        exact hc
      next =>
        obtain ⟨x, _, hx⟩ := Option.bind_eq_some_iff.mp h
        exact ih hx

def close (tokens : List Text) (index : Nat) : Nat := afterBracket tokens (next tokens index)

inductive VarCall (tokens : List Text) (index : Nat) (parent : List Element) :
    Nat × List Element → Prop
  | noEquals (h : expect tokens '=' (next tokens index) = none) :
      VarCall tokens index parent (next tokens index, parent)
  | array {start stop : Nat} {values : List Text}
      (h : expect tokens '=' (next tokens index) = some start) (ho : accept tokens '[' start)
      (hv : Yields (fun fuel => arrayValues tokens fuel (next tokens start) []) (stop, values)) :
      VarCall tokens index parent
        (close tokens stop, parent ++ [⟨ConfigorText.get tokens index, values, []⟩])
  | object {start stop : Nat} {children : List Element}
      (h : expect tokens '=' (next tokens index) = some start) (ho : accept tokens '{' start)
      (hv : Yields (fun fuel => objectVars tokens fuel (next tokens start) []) (stop, children)) :
      VarCall tokens index parent
        (close tokens stop, parent ++ [⟨ConfigorText.get tokens index, [], children⟩])
  | noSemicolon {start : Nat} (h : expect tokens '=' (next tokens index) = some start)
      (ha : ¬ accept tokens '[' start) (ho : ¬ accept tokens '{' start)
      (hs : expect tokens ';' (next tokens start) = none) :
      VarCall tokens index parent (next tokens start, parent)
  | value {start stop : Nat} (h : expect tokens '=' (next tokens index) = some start)
      (ha : ¬ accept tokens '[' start) (ho : ¬ accept tokens '{' start)
      (hs : expect tokens ';' (next tokens start) = some stop) :
      VarCall tokens index parent (stop,
        parent ++ [⟨ConfigorText.get tokens index, [ConfigorText.get tokens start], []⟩])

theorem expect_accept {token : Char} {index : Nat} (h : accept tokens token index) :
    expect tokens token index = some (next tokens index) := if_pos h

theorem expect_none {token : Char} {i : Nat} (h : ¬ accept tokens token i) :
    expect tokens token i = none := if_neg h

theorem expect_some {token : Char} {i j : Nat} (h : expect tokens token i = some j) :
    accept tokens token i ∧ j = next tokens i := by
  rw [expect] at h
  split at h
  next hc => exact ⟨hc, (Option.some.inj h).symm⟩
  next => exact absurd h (by simp)

theorem accept_unique {a b : Char} {index : Nat} (ha : accept tokens a index)
    (hb : accept tokens b index) : a = b :=
  List.singleton_inj.mp ((beq_iff_eq.mp ha).symm.trans (beq_iff_eq.mp hb))

theorem yields_parseArray {index : Nat} {e : Element} {r : Nat × Element}
    (ho : accept tokens '[' index) :
    Yields (fun fuel => parseArray tokens fuel index e) r ↔
      ∃ stop values, Yields (fun fuel => arrayValues tokens fuel (next tokens index) e.values)
        (stop, values) ∧ r = (close tokens stop, { e with values := values }) := by
  simp only [parseArray, expect_accept ho]
  constructor
  · rintro ⟨fuel, h⟩
    obtain ⟨x, hx, hr⟩ := Option.bind_eq_some_iff.mp h
    rw [expect_accept (arrayValues_accept hx)] at hr
    exact ⟨x.1, x.2, ⟨fuel, hx⟩, (Option.some.inj hr).symm⟩
  · rintro ⟨stop, values, ⟨fuel, hx⟩, rfl⟩
    refine ⟨fuel, Option.bind_eq_some_iff.mpr ⟨_, hx, ?_⟩⟩
    rw [expect_accept (arrayValues_accept hx)]
    rfl

theorem yields_parseObject {index : Nat} {e : Element} {r : Nat × Element}
    (ho : accept tokens '{' index) :
    Yields (fun fuel => parseObject tokens fuel index e) r ↔
      ∃ stop children, Yields (fun fuel => objectVars tokens fuel (next tokens index) e.children)
        (stop, children) ∧ r = (close tokens stop, { e with children := children }) := by
  rw [yields_succ rfl fun fuel => by rw [parseObject, expect_accept ho]]
  constructor
  · rintro ⟨fuel, h⟩
    obtain ⟨x, hx, hr⟩ := Option.bind_eq_some_iff.mp h
    simp only [expect_accept (objectVars_accept hx)] at hr
    exact ⟨x.1, x.2, ⟨fuel, hx⟩, (Option.some.inj hr).symm⟩
  · rintro ⟨stop, children, ⟨fuel, hx⟩, rfl⟩
    refine ⟨fuel, Option.bind_eq_some_iff.mpr ⟨_, hx, ?_⟩⟩
    simp only [expect_accept (objectVars_accept hx)]
    rfl

theorem yields_parseVar {index : Nat} {parent : List Element} {r : Nat × List Element} :
    Yields (fun fuel => parseVar tokens fuel index parent) r ↔
      VarCall tokens index parent r := by
  rw [yields_succ rfl fun fuel => by rw [parseVar]]
  constructor
  · intro h
    cases he : expect tokens '=' (next tokens index) with
    | none =>
        simp only [he, yields_some] at h
        exact h ▸ .noEquals he
    | some start =>
        simp only [he] at h
        by_cases ha : accept tokens '[' start
        · simp only [if_pos ha] at h
          obtain ⟨fuel, h⟩ := h
          obtain ⟨x, hx, hr⟩ := Option.bind_eq_some_iff.mp h
          obtain ⟨stop, values, hv, rfl⟩ := (yields_parseArray ha).mp ⟨fuel, hx⟩
          exact Option.some.inj hr ▸ .array he ha hv
        · simp only [if_neg ha] at h
          by_cases ho : accept tokens '{' start
          · simp only [if_pos ho] at h
            obtain ⟨fuel, h⟩ := h
            obtain ⟨x, hx, hr⟩ := Option.bind_eq_some_iff.mp h
            obtain ⟨stop, values, hv, rfl⟩ := (yields_parseObject ho).mp ⟨fuel, hx⟩
            exact Option.some.inj hr ▸ .object he ho hv
          · simp only [if_neg ho] at h
            cases hs : expect tokens ';' (next tokens start) with
            | none =>
                simp only [hs, yields_some] at h
                exact h ▸ .noSemicolon he ha ho hs
            | some stop =>
                simp only [hs, yields_some] at h
                exact h ▸ .value he ha ho hs
  · intro h
    cases h with
    | noEquals he => simp only [he, yields_some]
    | array he ha hv =>
        simp only [he, if_pos ha]
        obtain ⟨fuel, hx⟩ := (yields_parseArray (e := ⟨_, [], []⟩) ha).mpr ⟨_, _, hv, rfl⟩
        exact ⟨fuel, Option.bind_eq_some_iff.mpr ⟨_, hx, rfl⟩⟩
    | object he ho hv =>
        have ha : ¬ accept tokens '[' _ := fun ha => absurd (accept_unique ha ho) (by decide)
        simp only [he, if_neg ha, if_pos ho]
        obtain ⟨fuel, hx⟩ := (yields_parseObject (e := ⟨_, [], []⟩) ho).mpr ⟨_, _, hv, rfl⟩
        exact ⟨fuel, Option.bind_eq_some_iff.mpr ⟨_, hx, rfl⟩⟩
    | noSemicolon he ha ho hs => simp only [he, if_neg ha, if_neg ho, hs, yields_some]
    | value he ha ho hs => simp only [he, if_neg ha, if_neg ho, hs, yields_some, List.nil_append]

/-- A call of parseVar appends to the parent, and does not look at it. -/
theorem parseVar_parent (fuel index : Nat) (parent : List Element) :
    parseVar tokens fuel index parent =
      (parseVar tokens fuel index []).map fun r => (r.1, parent ++ r.2) := by
  cases fuel with
  | zero => rfl
  | succ fuel =>
      rw [parseVar, parseVar]
      cases expect tokens '=' (next tokens index) with
      | none => simp
      | some start =>
          dsimp only
          split
          next =>
            cases parseArray tokens fuel start ⟨ConfigorText.get tokens index, [], []⟩ <;> simp
          next =>
            split
            next =>
              cases parseObject tokens fuel start ⟨ConfigorText.get tokens index, [], []⟩ <;> simp
            next => cases expect tokens ';' (next tokens start) <;> simp

theorem objectVars_children (fuel index : Nat) (children : List Element) :
    objectVars tokens fuel index children =
      (objectVars tokens fuel index []).map fun r => (r.1, children ++ r.2) := by
  induction fuel generalizing index children with
  | zero => rfl
  | succ fuel ih =>
      rw [objectVars, objectVars, parseVar_parent]
      split
      next => simp
      next =>
        cases parseVar tokens fuel index [] with
        | none => rfl
        | some x =>
            simp only [Option.map_some, Option.bind_eq_bind, Option.bind_some]
            rw [ih, ih _ x.2, Option.map_map]
            simp [Function.comp_def]

theorem parseVars_children (fuel index : Nat) (children : List Element) :
    parseVars tokens fuel index children =
      (parseVars tokens fuel index []).map fun r => (r.1, children ++ r.2) := by
  induction fuel generalizing index children with
  | zero => rfl
  | succ fuel ih =>
      rw [parseVars, parseVars, parseVar_parent]
      split
      next => simp
      next =>
        cases parseVar tokens fuel index [] with
        | none => rfl
        | some x =>
            simp only [Option.map_some, Option.bind_eq_bind, Option.bind_some]
            rw [ih, ih _ x.2, Option.map_map]
            simp [Function.comp_def]

def Moves (tokens : List Text) (i j : Nat) : Prop :=
  i ≤ j ∧ (i < tokens.length → j < tokens.length)

theorem Moves.refl (i : Nat) : Moves tokens i i := ⟨Nat.le_refl i, id⟩

theorem Moves.trans {i j k : Nat} (h : Moves tokens i j) (h' : Moves tokens j k) :
    Moves tokens i k := ⟨Nat.le_trans h.1 h'.1, h'.2 ∘ h.2⟩

theorem moves_next (i : Nat) : Moves tokens i (next tokens i) := by
  rw [next, Moves]
  split <;> omega

theorem moves_expect {token : Char} {i j : Nat} (h : expect tokens token i = some j) :
    Moves tokens i j := (expect_some h).2 ▸ moves_next i

theorem moves_close (i : Nat) : Moves tokens i (close tokens i) := by
  rw [close, afterBracket]
  split
  next => exact (moves_next i).trans (moves_next _)
  next => exact moves_next i

theorem moves_emptyValues {fuel i : Nat} {values : List Text} {r : Nat × List Text}
    (h : emptyValues tokens fuel i values = some r) : Moves tokens i r.1 := by
  induction fuel generalizing i values with
  | zero => exact absurd h (by simp [emptyValues])
  | succ fuel ih =>
      rw [emptyValues] at h
      split at h
      next => exact (moves_next i).trans (ih h)
      next => exact Option.some.inj h ▸ .refl i

theorem moves_afterValue (i : Nat) : Moves tokens i (afterValue tokens i) := by
  rw [afterValue]
  split
  next => exact (moves_next i).trans (moves_next _)
  next => exact moves_next i

theorem moves_arrayValues {fuel i : Nat} {values : List Text} {r : Nat × List Text}
    (h : arrayValues tokens fuel i values = some r) : Moves tokens i r.1 := by
  induction fuel generalizing i values with
  | zero => exact absurd h (by simp [arrayValues])
  | succ fuel ih =>
      rw [arrayValues] at h
      split at h
      next => exact Option.some.inj h ▸ .refl i
      next =>
        obtain ⟨x, hx, hr⟩ := Option.bind_eq_some_iff.mp h
        exact (moves_afterValue i).trans ((moves_emptyValues hx).trans (ih hr))

theorem moves_parse (fuel : Nat) :
    (∀ i parent r, parseVar tokens fuel i parent = some r → Moves tokens i r.1) ∧
    (∀ i e r, parseObject tokens fuel i e = some r → Moves tokens i r.1) ∧
    ∀ i children r, objectVars tokens fuel i children = some r → Moves tokens i r.1 := by
  induction fuel with
  | zero => simp [parseVar, parseObject, objectVars]
  | succ fuel ih =>
      obtain ⟨ihv, iho, ihl⟩ := ih
      refine ⟨fun i parent r h => ?_, fun i e r h => ?_, fun i children r h => ?_⟩
      · rw [parseVar] at h
        cases he : expect tokens '=' (next tokens i) with
        | none =>
            simp only [he] at h
            exact Option.some.inj h ▸ moves_next i
        | some start =>
            have hstart := (moves_next i).trans (moves_expect he)
            simp only [he] at h
            by_cases ha : accept tokens '[' start
            · rw [if_pos ha] at h
              obtain ⟨x, hx, hr⟩ := Option.bind_eq_some_iff.mp h
              obtain ⟨stop, values, ⟨n, hv⟩, rfl⟩ := (yields_parseArray ha).mp ⟨fuel, hx⟩
              obtain rfl := Option.some.inj hr
              exact hstart.trans ((moves_next start).trans
                ((moves_arrayValues hv).trans (moves_close stop)))
            · rw [if_neg ha] at h
              by_cases ho : accept tokens '{' start
              · rw [if_pos ho] at h
                obtain ⟨x, hx, hr⟩ := Option.bind_eq_some_iff.mp h
                obtain rfl := Option.some.inj hr
                exact hstart.trans (iho _ _ x hx)
              · rw [if_neg ho] at h
                have hvalue := hstart.trans (moves_next start)
                cases hs : expect tokens ';' (next tokens start) with
                | none =>
                    simp only [hs] at h
                    exact Option.some.inj h ▸ hvalue
                | some stop =>
                    simp only [hs] at h
                    exact Option.some.inj h ▸ hvalue.trans (moves_expect hs)
      · rw [parseObject] at h
        cases he : expect tokens '{' i with
        | none =>
            simp only [he] at h
            exact Option.some.inj h ▸ .refl i
        | some start =>
            simp only [he] at h
            obtain ⟨x, hx, hr⟩ := Option.bind_eq_some_iff.mp h
            simp only [expect_accept (objectVars_accept hx)] at hr
            obtain rfl := Option.some.inj hr
            exact (moves_expect he).trans ((ihl _ _ x hx).trans (moves_close x.1))
      · rw [objectVars] at h
        split at h
        next => exact Option.some.inj h ▸ .refl i
        next =>
          obtain ⟨x, hx, hr⟩ := Option.bind_eq_some_iff.mp h
          exact (ihv _ _ x hx).trans (ihl _ _ r hr)

theorem moves_objectVars {i : Nat} {children : List Element} {r : Nat × List Element}
    (h : Yields (fun fuel => objectVars tokens fuel i children) r) : Moves tokens i r.1 := by
  obtain ⟨fuel, h⟩ := h
  exact (moves_parse fuel).2.2 _ _ _ h

theorem VarCall.moves {i : Nat} {parent : List Element} {r : Nat × List Element}
    (h : VarCall tokens i parent r) : Moves tokens i r.1 := by
  obtain ⟨fuel, h⟩ := yields_parseVar.mpr h
  exact (moves_parse fuel).1 _ _ _ h

end Ashe.ConfigorSteps
