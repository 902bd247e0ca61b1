import Mathlib.Data.Finmap

namespace Ashe.CmdLineParser

/-- A wchar_t of four bytes; where it has two, its codes are those below 2^16. -/
abbrev WChar := UInt32

abbrev WString := List WChar

abbrev code (c : Char) : WChar := c.val

abbrev ValsMap := Finmap (fun _ : WString => WString)

def delims : WString := [code '-', code '/']

def quotes : WString := [code '"']

def valueSep : WString := [code ' ', code ':', code '=']

def charToLower (c : WChar) : WChar :=
  if c ≤ code 'Z' ∧ code 'A' ≤ c then c - (code 'Z' - code 'z') else c

def strToLower (s : WString) : WString := s.map charToLower

/-- A pointer into the string is the text from there to the terminating zero. -/
def cStr (s : WString) : WString := s.takeWhile (· ≠ 0)

def wcspbrk : WString → WString → Option WString
  | [], _ => none
  | c :: s, set => if c ∈ set then some (c :: s) else wcspbrk s set

def wcschr (s : WString) (c : WChar) : Option WString := wcspbrk s [c]

/-- The string of the characters from one pointer up to a later one. The constructor
throws when the number of them is negative as an int. -/
def between (s t : WString) : Option WString :=
  let n := (Int32.ofNat (s.length - t.length)).toInt
  if 0 ≤ n then some (s.take n.toNat) else none

/-- unordered_map::insert leaves the value of a key that is there. -/
def mapInsert (values : ValsMap) (key value : WString) : ValsMap :=
  if key ∈ values then values else values.insert key value

def insertNonempty (values : ValsMap) (key value : WString) : ValsMap :=
  if 0 < key.length then mapInsert values key value else values

def parseValue (key sVal : WString) (values : ValsMap) : Option (ValsMap × Option WString) :=
  let (sQuote, sEndQuote) :=
    if wcspbrk sVal quotes = some sVal then (sVal.tail, wcspbrk sVal.tail quotes)
    else (sVal, wcschr sVal (code ' '))
  match sEndQuote with
  -- no end quotes or terminating space, take the rest of the string to its end
  | none => some (insertNonempty values key sQuote, none)
  | some sEndQuote =>
      if 0 < key.length then do
        let csVal ← between sQuote sEndQuote
        some (mapInsert values key csVal, some sEndQuote.tail)
      else some (values, some sEndQuote.tail)

def parseArg (sArg : WString) (values : ValsMap) : Option (ValsMap × Option WString) :=
  if sArg = [] then some (values, none)
  else
    match wcspbrk sArg valueSep with
    | none => some (mapInsert values (strToLower sArg) [], none)
    | some sVal => do
        let key ← between sArg sVal
        if sVal.head? = some (code ' ') ∨ sVal.length = 1 then
          -- cmdline ends with /Key: or a key with no value
          some (insertNonempty values (strToLower key) [], some sVal.tail)
        else parseValue (strToLower key) sVal.tail values

/-- One turn of the loop of parse: the map, and the next sCurrent unless the loop
was left. No result is an exception. -/
def parseTurn (sCurrent : WString) (values : ValsMap) : Option (ValsMap × Option WString) :=
  if sCurrent = [] then some (values, none)
  else
    match wcspbrk sCurrent delims with
    | none => some (values, none)
    | some sArg => parseArg sArg.tail values

theorem wcspbrk_suffix {s set t : WString} (h : wcspbrk s set = some t) : t ≠ [] ∧ t <:+ s := by
  induction s with
  | nil => exact absurd h (by simp [wcspbrk])
  | cons c s ih =>
      unfold wcspbrk at h
      split at h
      next =>
        obtain rfl := Option.some.inj h
        exact ⟨List.cons_ne_nil _ _, List.suffix_refl _⟩
      next => exact ⟨(ih h).1, (ih h).2.trans (List.suffix_cons c s)⟩

theorem tail_shorter {s set t : WString} (h : wcspbrk s set = some t) :
    t.tail.length < s.length := by
  obtain ⟨hne, hsuf⟩ := wcspbrk_suffix h
  have hle := hsuf.length_le
  have hpos := List.length_pos_of_ne_nil hne
  rw [List.length_tail]
  omega

theorem parseValue_shorter {key sVal next : WString} {values values' : ValsMap}
    (h : parseValue key sVal values = some (values', some next)) : next.length < sVal.length := by
  unfold parseValue at h
  split at h
  next sQuote sEndQuote hq =>
    have hend : ∀ t, sEndQuote = some t → t.tail.length < sVal.length := by
      intro t ht
      split at hq
      next =>
        obtain ⟨rfl, rfl⟩ := Prod.mk.inj hq
        exact (tail_shorter ht).trans_le sVal.tail_suffix.length_le
      next =>
        obtain ⟨rfl, rfl⟩ := Prod.mk.inj hq
        exact tail_shorter ht
    split at h
    next => exact absurd (Prod.mk.inj (Option.some.inj h)).2 (by simp)
    next t =>
      have hnext : next = t.tail := by
        split at h
        next =>
          obtain ⟨csVal, -, h⟩ := Option.bind_eq_some_iff.mp h
          exact (Option.some.inj (Prod.mk.inj (Option.some.inj h)).2).symm
        next => exact (Option.some.inj (Prod.mk.inj (Option.some.inj h)).2).symm
      exact hnext ▸ hend t rfl

theorem parseArg_shorter {sArg next : WString} {values values' : ValsMap}
    (h : parseArg sArg values = some (values', some next)) : next.length < sArg.length := by
  unfold parseArg at h
  split at h
  next => exact absurd (Prod.mk.inj (Option.some.inj h)).2 (by simp)
  next =>
    split at h
    next => exact absurd (Prod.mk.inj (Option.some.inj h)).2 (by simp)
    next sVal hsep =>
      have hlt := tail_shorter hsep
      obtain ⟨key, -, h⟩ := Option.bind_eq_some_iff.mp h
      split at h
      next => exact (Option.some.inj (Prod.mk.inj (Option.some.inj h)).2) ▸ hlt
      next => exact (parseValue_shorter h).trans hlt

theorem parseTurn_shorter {sCurrent next : WString} {values values' : ValsMap}
    (h : parseTurn sCurrent values = some (values', some next)) :
    next.length < sCurrent.length := by
  unfold parseTurn at h
  split at h
  next => exact absurd (Prod.mk.inj (Option.some.inj h)).2 (by simp)
  next =>
    split at h
    next => exact absurd (Prod.mk.inj (Option.some.inj h)).2 (by simp)
    next sArg hdelim => exact (parseArg_shorter h).trans (tail_shorter hdelim)

def parseLoop (sCurrent : WString) (values : ValsMap) : Option ValsMap :=
  match _h : parseTurn sCurrent values with
  | none => none
  | some (values, none) => some values
  | some (values, some next) => parseLoop next values
termination_by sCurrent.length
decreasing_by exact parseTurn_shorter _h

def parse (cmdline : WString) : Option ValsMap := parseLoop (cStr cmdline) ∅

def cmdLineParser (cmdline : WString) : Option ValsMap :=
  if cmdline = [] then some ∅ else parse cmdline

def findKey (values : ValsMap) (key : WString) : Option WString := values.lookup (strToLower key)

def hasKey (values : ValsMap) (key : WString) : Bool := (findKey values key).isSome

def getVal (values : ValsMap) (key : WString) : WString := (findKey values key).getD []

end Ashe.CmdLineParser
