import Ashe.ConfigorLens
import Ashe.Runs

namespace Ashe.ConfigorReads

open ConfigorText ConfigorAccess ConfigorLens Runs

inductive Getter (ω φ : Type) where
  | lookup
  | getName
  | getString (i : UInt64) (defaultValue : Text)
  | getWString (i : UInt64) (defaultValue : ω)
  | getInt (i : UInt64) (defaultValue : Int)
  | getFloat (i : UInt64) (defaultValue : φ)
  | valueSize
  | childrenSize
  | elementExists (name : Text)

/-- A read of the root, or of what one or more operator[] lead to. For the
latter the memory that a larger vector needs is there or not. -/
inductive Read (ω φ : Type) where
  | elementExists (name : Text)
  | at (name : Text) (path : List Text) (getter : Getter ω φ) (memory : Bool)

section

variable {ω φ : Type} (unicodeToUtf8 : ω → Text) (utf8ToUnicode : Text → ω)
  (stof : Text → Option φ)

/-- What a getter makes of the element, without its answer; one that throws
leaves it as it is. -/
def run (memory : Bool) (e : Element) : Getter ω φ → Option Element
  | .getString i d => (getString memory i d e).map Prod.snd
  | .getWString i d => (getWString unicodeToUtf8 utf8ToUnicode memory i d e).map Prod.snd
  | .getInt i d => (getInt memory i d e).map Prod.snd
  | .getFloat i d => (getFloat stof memory i d e).map Prod.snd
  | .lookup | .getName | .valueSize | .childrenSize | .elementExists _ => some e

def step (root : List Element) : Read ω φ → Option (List Element)
  | .elementExists _ => some root
  | .at name path getter memory =>
      (subscript name (reach path fun e =>
        (run unicodeToUtf8 utf8ToUnicode stof memory e getter).map fun e => ((), e)) root).map
          Prod.snd

/-- After every read of the sequence the tree is written as at its beginning. -/
def SavesSame (root : List Element) (reads : List (Read ω φ)) : Prop :=
  ∀ before, before <+: reads →
    ∃ root', exec (step unicodeToUtf8 utf8ToUnicode stof) root before = some root' ∧
      writeElements 0 root' = writeElements 0 root

end

section

variable {ω φ : Type}

/-- A getter that stores a default finds the value, or its element is written as
a block, where values do not show, or it throws before it stores anything. -/
def Getter.Quiet (memory : Bool) (e : Element) : Getter ω φ → Prop
  | .getString i _ | .getWString i _ =>
      i.toNat < e.values.length ∨ i + 1 ≠ 0 ∧ (e.children ≠ [] ∨ ¬ Granted memory i)
  | _ => True

/-- No name is looked up in an element without children. -/
def QuietAt (getter : Getter ω φ) (memory : Bool) : List Text → Element → Prop
  | [], e => getter.Quiet memory e
  | name :: path, e => e.children ≠ [] ∧ QuietAt getter memory path (child name e.children)

def Read.Quiet (root : List Element) : Read ω φ → Prop
  | .elementExists _ => True
  | .at name path getter memory => QuietAt getter memory path (child name root)

def QuietRun (step : List Element → Read ω φ → Option (List Element)) :
    List Element → List (Read ω φ) → Prop
  | _, [] => True
  | root, r :: reads => r.Quiet root ∧
      ∀ root', step root r = some root' → QuietRun step root' reads

end

theorem writeElement_block (tabs : Nat) (name : Text) (values : List Text)
    {children : List Element} (h : children ≠ []) :
    writeElement tabs ⟨name, values, children⟩ = spaces tabs ++ name ++ [' ', '=', ' '] ++
      (['{', '\n'] ++ writeElements (tabs + TABS) children ++ spaces tabs ++ ['}']) ++ ['\n'] := by
  have hpos := List.length_pos_iff.mpr h
  rw [writeElement, if_neg (by omega), if_pos hpos]

theorem writeElement_leaf (tabs : Nat) (name : Text) {values : List Text} (h : values ≠ []) :
    writeElement tabs ⟨name, values, []⟩ =
      spaces tabs ++ name ++ [' ', '=', ' '] ++ writeLeaf values ++ ['\n'] := by
  have hpos := List.length_pos_iff.mpr h
  rw [writeElement, if_neg (by omega), if_neg (by simp)]

theorem writeElement_empty (tabs : Nat) (name : Text) : writeElement tabs ⟨name, [], []⟩ = [] := by
  rw [writeElement, if_pos (by simp)]

theorem isNumeric_head {c : Char} {value : Text} (h : isNumeric (c :: value)) :
    c ≠ '[' ∧ c ≠ '{' := by
  rw [isNumeric, List.all_cons, Bool.and_eq_true] at h
  constructor <;> rintro rfl <;> exact absurd h.1 (by decide)

theorem writeLeaf_single_head (value : Text) :
    ∃ c rest, writeLeaf [value] = c :: rest ∧ c ≠ '[' ∧ c ≠ '{' := by
  rw [writeLeaf, writeValue]
  split
  next h =>
    cases value with
    | nil => exact ⟨';', [], rfl, by decide, by decide⟩
    | cons c value => exact ⟨c, value ++ [';'], rfl, isNumeric_head h⟩
  next => exact ⟨'"', value ++ ['"'] ++ [';'], rfl, by decide, by decide⟩

theorem writeLeaf_ne_block {values : List Text} (rest : Text) :
    writeLeaf values ++ ['\n'] ≠ '{' :: rest := by
  by_cases h : values.length = 1
  · obtain ⟨value, rfl⟩ := List.length_eq_one_iff.mp h
    obtain ⟨c, text, htext, -, hc⟩ := writeLeaf_single_head value
    rw [htext]
    intro heq
    exact hc (List.cons.inj heq).1
  · rw [writeLeaf_many h]
    simp

theorem writeValues_cons (v : Text) {values : List Text} (h : values ≠ []) :
    writeValues (v :: values) = writeValue v ++ [',', ' '] ++ writeValues values := by
  obtain ⟨w, values, rfl⟩ := List.exists_cons_of_ne_nil h
  rfl

theorem writeValues_append {values more : List Text} (hv : values ≠ []) (hm : more ≠ []) :
    writeValues (values ++ more) = writeValues values ++ [',', ' '] ++ writeValues more := by
  induction values with
  | nil => exact absurd rfl hv
  | cons v values ih =>
      cases values with
      | nil => exact writeValues_cons v hm
      | cons w values =>
          rw [List.cons_append, writeValues_cons v (by simp), ih (by simp),
            writeValues_cons v (by simp)]
          simp only [List.append_assoc]

theorem writeLeaf_append_ne {values more : List Text} (hv : values ≠ []) (hm : more ≠ []) :
    writeLeaf (values ++ more) ≠ writeLeaf values := by
  have hlong : (values ++ more).length ≠ 1 := by
    have h1 := List.length_pos_iff.mpr hv
    have h2 := List.length_pos_iff.mpr hm
    rw [List.length_append]
    omega
  rw [writeLeaf_many hlong]
  by_cases h : values.length = 1
  · obtain ⟨value, rfl⟩ := List.length_eq_one_iff.mp h
    obtain ⟨c, text, htext, hc, -⟩ := writeLeaf_single_head value
    rw [htext]
    intro heq
    exact hc (List.cons.inj heq).1.symm
  · rw [writeLeaf_many h, writeValues_append hv hm]
    intro heq
    have hlen := congrArg List.length heq
    simp only [List.length_append, List.length_cons, List.length_nil] at hlen
    omega

/-- The text of the children changes exactly when the text of the child does. -/
theorem writeElements_put (tabs : Nat) (name : Text) (new : Element) (es : List Element) :
    writeElements tabs (put name new es) = writeElements tabs es ↔
      writeElement tabs new = writeElement tabs (child name es) := by
  induction es with
  | nil =>
      have hfresh : writeElement tabs (child name []) = [] := writeElement_empty tabs name
      rw [hfresh, put, writeElements, writeElements, writeElements, List.append_nil]
  | cons e es ih =>
      rw [put]
      split
      next h => rw [writeElements, writeElements, child_cons_self es h, List.append_left_inj]
      next h => rw [writeElements, writeElements, child_cons_ne es h, List.append_right_inj, ih]

theorem writeElement_children (tabs : Nat) (e : Element) {children : List Element}
    (hne : children ≠ []) :
    writeElement tabs { e with children := children } = writeElement tabs e ↔
      e.children ≠ [] ∧ writeElements (tabs + TABS) children =
        writeElements (tabs + TABS) e.children := by
  obtain ⟨name, values, old⟩ := e
  rw [writeElement_block tabs name values hne]
  by_cases hold : old = []
  · subst hold
    refine ⟨fun h => absurd h ?_, fun h => absurd rfl h.1⟩
    by_cases hv : values = []
    · subst hv
      rw [writeElement_empty]
      simp
    · rw [writeElement_leaf tabs name hv]
      intro heq
      simp only [List.append_assoc, List.append_cancel_left_eq] at heq
      exact writeLeaf_ne_block _ heq.symm
  · rw [writeElement_block tabs name values hold]
    simp [hold]

theorem put_ne_nil (name : Text) (new : Element) (es : List Element) : put name new es ≠ [] := by
  cases es with
  | nil => simp [put]
  | cons e es =>
      rw [put]
      split <;> simp

/-- Values that are stored behind the others show, unless children hide them. -/
theorem writeElement_grown (tabs : Nat) (e : Element) {more : List Text} (hm : more ≠ []) :
    writeElement tabs { e with values := e.values ++ more } = writeElement tabs e ↔
      e.children ≠ [] := by
  obtain ⟨name, values, children⟩ := e
  by_cases hc : children = []
  · subst hc
    refine ⟨fun h => absurd h ?_, fun h => absurd rfl h⟩
    rw [writeElement_leaf tabs name (by simp [hm])]
    by_cases hv : values = []
    · subst hv
      rw [writeElement_empty]
      simp
    · rw [writeElement_leaf tabs name hv]
      intro heq
      simp only [List.append_assoc, List.append_cancel_left_eq, List.append_cancel_right_eq] at heq
      exact writeLeaf_append_ne hv hm heq
  · rw [writeElement_block tabs name _ hc, writeElement_block tabs name _ hc]
    exact ⟨fun _ => hc, fun _ => rfl⟩

def withDefault (memory : Bool) (i : UInt64) (value : Text) (e : Element) : Option Element :=
  if i.toNat ≥ e.values.length then
    match resize memory e.values (i + 1).toNat with
    | none => some e
    | some values =>
      (Buffers.store values i.toNat value).map fun values => { e with values := values }
  else some e

theorem getString_withDefault (memory : Bool) (i : UInt64) (d : Text) (e : Element) :
    (getString memory i d e).map Prod.snd = withDefault memory i d e := by
  rw [getString, withDefault]
  split
  next =>
    cases resize memory e.values (i + 1).toNat with
    | none => rfl
    | some values =>
        dsimp only
        cases Buffers.store values i.toNat d <;> rfl
  next => rfl

theorem getWString_withDefault {ω : Type} (unicodeToUtf8 : ω → Text) (utf8ToUnicode : Text → ω)
    (memory : Bool) (i : UInt64) (d : ω) (e : Element) :
    (getWString unicodeToUtf8 utf8ToUnicode memory i d e).map Prod.snd =
      withDefault memory i (unicodeToUtf8 d) e := by
  rw [getWString, withDefault]
  split
  next =>
    cases resize memory e.values (i + 1).toNat with
    | none => rfl
    | some values =>
        dsimp only
        cases Buffers.store values i.toNat (unicodeToUtf8 d) <;> rfl
  next => rfl

theorem converted_same {α : Type} (convert : Text → Option α) (memory : Bool) (i : UInt64) (d : α)
    (e : Element) : (converted convert memory i d e).map Prod.snd = some e := by
  rw [converted]
  split
  next => rfl
  next h => rw [getString_inside memory [] (by omega)]; rfl

theorem withDefault_keeps (tabs : Nat) (memory : Bool) (i : UInt64) (value : Text) (e : Element) :
    (∃ e', withDefault memory i value e = some e' ∧
      writeElement tabs e' = writeElement tabs e) ↔
      i.toNat < e.values.length ∨ i + 1 ≠ 0 ∧ (e.children ≠ [] ∨ ¬ Granted memory i) := by
  rw [withDefault]
  by_cases hi : i.toNat < e.values.length
  · rw [if_neg (by omega)]
    exact ⟨fun _ => .inl hi, fun _ => ⟨e, rfl, rfl⟩⟩
  · have hge : e.values.length ≤ i.toNat := Nat.le_of_not_lt hi
    rw [if_pos hge, or_iff_right hi]
    by_cases h : i + 1 = 0
    · simp only [resize_wrapped memory e.values h, store_nil]
      simp [h]
    · rw [and_iff_right h]
      by_cases hgranted : Granted memory i
      · have hmore : List.replicate (i.toNat - e.values.length) [] ++ [value] ≠ [] := by simp
        simp only [resize_granted hge hgranted, store_grown hge, Option.map_some]
        rw [or_iff_left (not_not.mpr hgranted), List.append_assoc,
          ← writeElement_grown tabs e hmore]
        constructor
        · rintro ⟨e', he', htext⟩
          obtain rfl := Option.some.inj he'
          exact htext
        · exact fun htext => ⟨_, rfl, htext⟩
      · simp only [resize_refused hge hgranted h]
        exact ⟨fun _ => .inr hgranted, fun _ => ⟨e, rfl, rfl⟩⟩

section

variable {ω φ : Type} (unicodeToUtf8 : ω → Text) (utf8ToUnicode : Text → ω)
  (stof : Text → Option φ)

/-- A getter keeps the text of its element exactly if it is quiet there. -/
theorem run_keeps (tabs : Nat) (getter : Getter ω φ) (memory : Bool) (e : Element) :
    (∃ e', run unicodeToUtf8 utf8ToUnicode stof memory e getter = some e' ∧
      writeElement tabs e' = writeElement tabs e) ↔ getter.Quiet memory e := by
  have hsame : (∃ e', some e = some e' ∧ writeElement tabs e' = writeElement tabs e) ↔ True :=
    ⟨fun _ => trivial, fun _ => ⟨e, rfl, rfl⟩⟩
  cases getter with
  | getString i d =>
      rw [run, getString_withDefault]
      exact withDefault_keeps tabs memory i d e
  | getWString i d =>
      rw [run, getWString_withDefault]
      exact withDefault_keeps tabs memory i (unicodeToUtf8 d) e
  | getInt i d =>
      rw [run, getInt, converted_same]
      exact hsame
  | getFloat i d =>
      rw [run, getFloat, converted_same]
      exact hsame
  | lookup | getName | valueSize | childrenSize | elementExists name => exact hsame

/-- A path keeps the text as its getter does, as long as no name is looked up
in an element without children. -/
theorem reach_keeps {α : Type} {f : Element → Option (α × Element)} {getter : Getter ω φ}
    {memory : Bool} (hf : ∀ tabs e, (∃ r, f e = some r ∧
      writeElement tabs r.2 = writeElement tabs e) ↔ getter.Quiet memory e)
    (path : List Text) (tabs : Nat) (e : Element) :
    (∃ r, reach path f e = some r ∧ writeElement tabs r.2 = writeElement tabs e) ↔
      QuietAt getter memory path e := by
  induction path generalizing tabs e with
  | nil => exact hf tabs e
  | cons name path ih =>
      rw [reach, subscript_eq, QuietAt, ← ih (tabs + TABS)]
      constructor
      · rintro ⟨r, hr, htext⟩
        obtain ⟨x, hx, rfl⟩ := Option.map_eq_some_iff.mp hr
        obtain ⟨y, hy, rfl⟩ := Option.map_eq_some_iff.mp hx
        obtain ⟨hne, hput⟩ := (writeElement_children tabs e (put_ne_nil _ _ _)).mp htext
        exact ⟨hne, y, hy, (writeElements_put ..).mp hput⟩
      · rintro ⟨hne, y, hy, htext⟩
        refine ⟨_, by rw [hy]; rfl, ?_⟩
        exact (writeElement_children tabs e (put_ne_nil _ _ _)).mpr
          ⟨hne, (writeElements_put ..).mpr htext⟩

/-- The root is written without a block of its own, and a name that is looked
up there may be new. -/
theorem step_keeps (r : Read ω φ) (root : List Element) :
    (∃ root', step unicodeToUtf8 utf8ToUnicode stof root r = some root' ∧
      writeElements 0 root' = writeElements 0 root) ↔ r.Quiet root := by
  cases r with
  | elementExists name => exact ⟨fun _ => trivial, fun _ => ⟨root, rfl, rfl⟩⟩
  | «at» name path getter memory =>
      have hrun : ∀ tabs e, (∃ r, ((run unicodeToUtf8 utf8ToUnicode stof memory e getter).map
          fun e => ((), e)) = some r ∧ writeElement tabs r.2 = writeElement tabs e) ↔
            getter.Quiet memory e := by
        intro tabs e
        rw [← run_keeps unicodeToUtf8 utf8ToUnicode stof tabs getter memory e]
        simp
      have hreach := reach_keeps hrun path 0 (child name root)
      rw [Read.Quiet, ← hreach, step, subscript_eq]
      constructor
      · rintro ⟨root', hr, htext⟩
        obtain ⟨x, hx, rfl⟩ := Option.map_eq_some_iff.mp hr
        obtain ⟨y, hy, rfl⟩ := Option.map_eq_some_iff.mp hx
        exact ⟨y, hy, (writeElements_put ..).mp htext⟩
      · rintro ⟨y, hy, htext⟩
        refine ⟨_, by rw [hy]; rfl, ?_⟩
        exact (writeElements_put ..).mpr htext

/-- After every prefix of a sequence of reads the tree is saved as before them
exactly if each read is quiet in the tree that it meets. -/
theorem reads_savesSame_iff (reads : List (Read ω φ)) (root : List Element) :
    SavesSame unicodeToUtf8 utf8ToUnicode stof root reads ↔
      QuietRun (step unicodeToUtf8 utf8ToUnicode stof) root reads := by
  induction reads generalizing root with
  | nil =>
      refine ⟨fun _ => trivial, fun _ before hbefore => ?_⟩
      rw [List.prefix_nil.mp hbefore]
      exact ⟨root, rfl, rfl⟩
  | cons r reads ih =>
      constructor
      · intro h
        obtain ⟨root1, hone, htext⟩ := h [r] ⟨reads, rfl⟩
        obtain ⟨root1', hstep, hnil⟩ := exec_cons.mp hone
        obtain rfl := Option.some.inj hnil
        refine ⟨(step_keeps _ _ _ r root).mp ⟨_, hstep, htext⟩, ?_⟩
        intro root2 hstep2
        obtain rfl := Option.some.inj (hstep.symm.trans hstep2)
        apply (ih _).mp
        intro before hbefore
        obtain ⟨root', hrun, hsame⟩ := h (r :: before) (List.cons_prefix_cons.mpr ⟨rfl, hbefore⟩)
        obtain ⟨root1'', hstep', hrun⟩ := exec_cons.mp hrun
        obtain rfl := Option.some.inj (hstep.symm.trans hstep')
        exact ⟨root', hrun, hsame.trans htext.symm⟩
      · rintro ⟨hquiet, hrest⟩ before hbefore
        obtain ⟨root1, hstep, htext⟩ :=
          (step_keeps unicodeToUtf8 utf8ToUnicode stof r root).mpr hquiet
        cases before with
        | nil => exact ⟨root, rfl, rfl⟩
        | cons r' before =>
            obtain ⟨rfl, hprefix⟩ := List.cons_prefix_cons.mp hbefore
            obtain ⟨root', hrun, hsame⟩ := (ih root1).mpr (hrest root1 hstep) before hprefix
            exact ⟨root', exec_cons.mpr ⟨root1, hstep, hrun⟩, hsame.trans htext⟩

end

/-- A value that is not there is asked for as a text, and saved from then on. -/
theorem getString_changes_text : ¬ ∀ (reads : List (Read Unit Unit)) (root root' : List Element),
    exec (step (fun _ => []) (fun _ => ()) (fun _ => none)) root reads = some root' →
      writeElements 0 root' = writeElements 0 root := by
  intro h
  have htext := h [.at ['a'] [] (.getString 0 []) true] [] [⟨['a'], [[]], []⟩] rfl
  exact absurd htext (by decide)

end Ashe.ConfigorReads
