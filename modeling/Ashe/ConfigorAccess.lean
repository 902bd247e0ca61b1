import Ashe.Buffers
import Ashe.ConfigorText

namespace Ashe.ConfigorAccess

open ConfigorText Buffers

variable {α ω φ : Type}

/-- A vector of strings has at most so many. -/
def MAX_SIZE : Nat := 0x3ffffffffffffff

/-- The resize of a vector of strings. It throws for a size that no vector can
have, and where there is no memory for the new vector. -/
def resize (memory : Bool) (values : List Text) (n : Nat) : Option (List Text) :=
  if n ≤ values.length then some (values.take n)
  else if n ≤ MAX_SIZE ∧ memory then some (values ++ List.replicate (n - values.length) [])
  else none

/-- The functions of an element have no result where they write outside of its
values; where they throw, their answer is none. The memory is that for a larger
vector, a copy of a string is taken to succeed. The file that set and
removeElement save at their end is left out: it gets what save writes, and the
tree stays as it is. -/
def set (memory : Bool) (value : Text) (i : UInt64) (e : Element) :
    Option (Option Unit × Element) :=
  let resized :=
    if i.toNat ≥ e.values.length then resize memory e.values (i + 1).toNat else some e.values
  match resized with
  | none => some (none, e)
  | some values => do
    let values ← store values i.toNat value
    some (some (), { e with values := values })

def getName (e : Element) : Text := e.name

def getString (memory : Bool) (i : UInt64) (defaultValue : Text) (e : Element) :
    Option (Option Text × Element) :=
  if i.toNat ≥ e.values.length then
    match resize memory e.values (i + 1).toNat with
    | none => some (none, e)
    | some values => do
      let values ← store values i.toNat defaultValue
      some (some (values.getD i.toNat []), { e with values := values })
  else some (some (e.values.getD i.toNat []), e)

def getWString (unicodeToUtf8 : ω → Text) (utf8ToUnicode : Text → ω) (memory : Bool)
    (i : UInt64) (defaultValue : ω) (e : Element) : Option (Option ω × Element) :=
  if i.toNat ≥ e.values.length then
    match resize memory e.values (i + 1).toNat with
    | none => some (none, e)
    | some values => do
      let values ← store values i.toNat (unicodeToUtf8 defaultValue)
      some (some (utf8ToUnicode (values.getD i.toNat [])), { e with values := values })
  else some (some (utf8ToUnicode (e.values.getD i.toNat [])), e)

/-- The number that a text begins with. No result is an exception: there are no
digits, or the number is out of range. -/
def stoi (s : Text) : Option Int :=
  let s := s.dropWhile (fun c => c.isWhitespace || c == '\x0b' || c == '\x0c')
  let negative := s.head? == some '-'
  let digits := (if negative || s.head? == some '+' then s.drop 1 else s).takeWhile Char.isDigit
  let n : Int := digits.foldl (fun n c => 10 * n + (c.toNat - '0'.toNat : Nat)) 0
  let n := if negative then -n else n
  if digits = [] ∨ n < -2147483648 ∨ 2147483647 < n then none else some n

/-- An empty value, or one that the conversion throws on, counts as the default. -/
def converted (convert : Text → Option α) (memory : Bool) (i : UInt64) (defaultValue : α)
    (e : Element) : Option (α × Element) :=
  if i.toNat ≥ e.values.length then some (defaultValue, e)
  else do
    let (s, e) ← getString memory i [] e
    match s with
    | some s => some (if s ≠ [] then (convert s).getD defaultValue else defaultValue, e)
    | none => some (defaultValue, e)

def getInt (memory : Bool) (i : UInt64) (defaultValue : Int) (e : Element) :
    Option (Int × Element) := converted stoi memory i defaultValue e

def getFloat (stof : Text → Option φ) (memory : Bool) (i : UInt64) (defaultValue : φ)
    (e : Element) : Option (φ × Element) := converted stof memory i defaultValue e

def valueSize (e : Element) : Nat := e.values.length

def childrenSize (e : Element) : Nat := e.children.length

def elementExists (name : Text) (e : Element) : Bool := e.children.any (fun e => e.name = name)

def erase (name : Text) : List Element → List Element
  | [] => []
  | e :: es => if e.name = name then es else e :: erase name es

def removeElement (name : Text) (e : Element) : Option (Unit × Element) :=
  some ((), { e with children := erase name e.children })

/-- The loop of operator[], with what is done to the element it returns: the
first of that name, or a new one behind the others. -/
def subscript (name : Text) (f : Element → Option (α × Element)) :
    List Element → Option (α × List Element)
  | [] => (f ⟨name, [], []⟩).map (fun r => (r.1, [r.2]))
  | e :: es =>
      if e.name = name then (f e).map (fun r => (r.1, r.2 :: es))
      else (subscript name f es).map (fun r => (r.1, e :: r.2))

def reach : List Text → (Element → Option (α × Element)) → Element → Option (α × Element)
  | [], f, e => f e
  | name :: path, f, e =>
      (subscript name (reach path f) e.children).map (fun r => (r.1, { e with children := r.2 }))

/-- The first child of a name, and a new one where there is none. -/
def child (name : Text) (es : List Element) : Element :=
  (es.find? (fun e => e.name = name)).getD ⟨name, [], []⟩

def put (name : Text) (new : Element) : List Element → List Element
  | [] => [new]
  | e :: es => if e.name = name then new :: es else e :: put name new es

def node : List Text → Element → Element
  | [], e => e
  | name :: path, e => node path (child name e.children)

def graft (new : Element) : List Text → Element → Element
  | [], _ => new
  | name :: path, e =>
      { e with children := put name (graft new path (child name e.children)) e.children }

theorem child_cons_self {name : Text} {e : Element} (es : List Element) (h : e.name = name) :
    child name (e :: es) = e := by
  simp [child, h]

theorem child_cons_ne {name : Text} {e : Element} (es : List Element) (h : e.name ≠ name) :
    child name (e :: es) = child name es := by
  simp [child, h]

theorem child_name (name : Text) (es : List Element) : (child name es).name = name := by
  induction es with
  | nil => rfl
  | cons e es ih =>
      by_cases h : e.name = name
      · rw [child_cons_self es h, h]
      · rw [child_cons_ne es h, ih]

theorem child_put_self {name : Text} {new : Element} (es : List Element)
    (h : new.name = name) : child name (put name new es) = new := by
  induction es with
  | nil => exact child_cons_self [] h
  | cons e es ih =>
      rw [put]
      split
      next => exact child_cons_self es h
      next he => rw [child_cons_ne _ he, ih]

theorem child_put_ne {name other : Text} {new : Element} (es : List Element)
    (h : new.name = name) (hne : other ≠ name) :
    child other (put name new es) = child other es := by
  have hnew : new.name ≠ other := by
    rw [h]
    exact hne.symm
  induction es with
  | nil => rw [put, child_cons_ne [] hnew]
  | cons e es ih =>
      rw [put]
      split
      next he =>
        have he' : e.name ≠ other := by
          rw [he]
          exact hne.symm
        rw [child_cons_ne es hnew, child_cons_ne es he']
      next =>
        by_cases he : e.name = other
        · rw [child_cons_self _ he, child_cons_self _ he]
        · rw [child_cons_ne _ he, child_cons_ne _ he, ih]

theorem child_erase_ne {name other : Text} (es : List Element) (hne : other ≠ name) :
    child other (erase name es) = child other es := by
  induction es with
  | nil => rfl
  | cons e es ih =>
      rw [erase]
      split
      next he =>
        have he' : e.name ≠ other := by
          rw [he]
          exact hne.symm
        rw [child_cons_ne es he']
      next =>
        by_cases he : e.name = other
        · rw [child_cons_self _ he, child_cons_self _ he]
        · rw [child_cons_ne _ he, child_cons_ne _ he, ih]

theorem erase_first {name : Text} (before after : List Element) {e : Element}
    (hb : ∀ d ∈ before, d.name ≠ name) (he : e.name = name) :
    erase name (before ++ e :: after) = before ++ after := by
  induction before with
  | nil => exact if_pos he
  | cons d before ih =>
      rw [List.cons_append, erase, if_neg (hb d (.head before)),
        ih fun c hc => hb c (.tail d hc), List.cons_append]

theorem erase_absent {name : Text} {es : List Element} (h : ∀ d ∈ es, d.name ≠ name) :
    erase name es = es := by
  induction es with
  | nil => rfl
  | cons d es ih => rw [erase, if_neg (h d (.head es)), ih fun c hc => h c (.tail d hc)]

theorem subscript_eq (name : Text) (f : Element → Option (α × Element)) (es : List Element) :
    subscript name f es = (f (child name es)).map (fun r => (r.1, put name r.2 es)) := by
  induction es with
  | nil => rfl
  | cons e es ih =>
      rw [subscript]
      by_cases h : e.name = name
      · rw [if_pos h, child_cons_self es h]
        simp only [put, if_pos h]
      · rw [if_neg h, child_cons_ne es h, ih, Option.map_map]
        simp only [put, if_neg h, Function.comp_def]

/-- Repeated operator[] finds the node of the path, and puts back there what
becomes of it. -/
theorem reach_eq (path : List Text) (f : Element → Option (α × Element)) (e : Element) :
    reach path f e = (f (node path e)).map (fun r => (r.1, graft r.2 path e)) := by
  induction path generalizing e with
  | nil =>
      rw [reach, node]
      cases f e <;> rfl
  | cons name path ih =>
      rw [reach, subscript_eq, ih, Option.map_map, Option.map_map, node]
      rfl

theorem graft_name {new : Element} {path : List Text} {e : Element}
    (h : new.name = (node path e).name) : (graft new path e).name = e.name := by
  cases path with
  | nil => exact h
  | cons name path => rfl

theorem node_graft_self {new : Element} {path : List Text} {e : Element}
    (h : new.name = (node path e).name) : node path (graft new path e) = new := by
  induction path generalizing e with
  | nil => rfl
  | cons name path ih =>
      have hnode : new.name = (node path (child name e.children)).name := h
      have hname : (graft new path (child name e.children)).name = name := by
        rw [graft_name hnode, child_name]
      rw [node, graft, child_put_self _ hname]
      exact ih hnode

/-- A path at which the new node answers as the old one does goes past it. -/
theorem node_graft_values {new : Element} {path : List Text} {e : Element}
    (h : new.name = (node path e).name) {other : List Text}
    (hsame : ∀ rest, other = path ++ rest → (node rest new).values =
      (node rest (node path e)).values) :
    (node other (graft new path e)).values = (node other e).values := by
  induction path generalizing e other with
  | nil => exact hsame other rfl
  | cons name path ih =>
      have hnode : new.name = (node path (child name e.children)).name := h
      have hname : (graft new path (child name e.children)).name = name := by
        rw [graft_name hnode, child_name]
      cases other with
      | nil => rfl
      | cons first other =>
          rw [node, node, graft]
          by_cases hf : first = name
          · rw [hf, child_put_self _ hname]
            apply ih hnode
            intro rest hrest
            exact hsame rest (by rw [hf, hrest, List.cons_append])
          · rw [child_put_ne _ hname hf]

end Ashe.ConfigorAccess
