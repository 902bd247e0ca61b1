import Mathlib.Data.List.Basic

namespace Ashe.ConfigorText

/-- A byte is the character of its code. -/
abbrev Text := List Char

structure Element where
  name : Text
  values : List Text
  children : List Element

/-- An object of class Configor. A tree is the children of its root_; the flags
isstring_ and mask_ are reset before each use, and are kept apart. -/
structure Configor where
  filePath : Text
  input : Text
  tokens : List Text
  index : Nat
  root : List Element

structure Quotes where
  isstring : Bool
  mask : Bool

def unquoted : Quotes := ⟨false, false⟩

def testString (q : Quotes) (c : Char) : Bool × Quotes :=
  let mask := if q.isstring && c == '\\' then !q.mask else q.mask
  if q.isstring && c == '\\' && mask then (true, { q with mask := mask })
  else
    let isstring := if !mask && (c == '"' || c == '\'') then !q.isstring else q.isstring
    (false, { isstring := isstring, mask := false })

def delimeter (c : Char) : Bool := c ∈ ['=', ';', '[', ']', '{', '}', ',']

/-- The lines that getline reads: a newline ends a line and starts no other. -/
def getlines : Text → List Text
  | [] => []
  | c :: text =>
      if c = '\n' then [] :: getlines text
      else
        match getlines text with
        | [] => [[c]]
        | line :: lines => (c :: line) :: lines

def preprocessLine : Quotes → Text → Text × Quotes
  | q, [] => ([], q)
  | q, c :: line =>
      if !q.isstring && (c == ' ' || c == '\t') then preprocessLine q line
      else if !q.isstring && c == '#' then ([], q)
      else
        let r := preprocessLine (testString q c).2 line
        (c :: r.1, r.2)

def preprocessLines : Quotes → List Text → Text
  | _, [] => []
  | q, line :: lines =>
      let r := preprocessLine q line
      r.1 ++ (if r.2.isstring then ['\n'] else []) ++ preprocessLines r.2 lines

def preprocess (file : Text) : Text := preprocessLines unquoted (getlines file)

def cut (token : Text) : Text :=
  if token.head? = some '"' ∧ token.getLast? = some '"' then
    (token.drop 1).take (token.length - 2)
  else token

/-- The loop of tokenize, with the token that is being read. The lines and
columns of the tokens are not kept: nothing reads them. -/
def tokenizeFrom : Quotes → Text → Text → List Text
  | _, _, [] => []
  | q, token, c :: input =>
      let (masked, q) := testString q c
      if masked then tokenizeFrom q token input
      else if c = '\n' then tokenizeFrom q token input
      else if !q.isstring && delimeter c then
        let stored := if cut token = [] then [] else [cut token]
        stored ++ [c] :: tokenizeFrom q [] input
      else tokenizeFrom q (token ++ [c]) input

def tokenize (input : Text) : List Text := tokenizeFrom unquoted [] input

section

variable (tokens : List Text)

def get (index : Nat) : Text := tokens.getD index []

def next (index : Nat) : Nat := if index < tokens.length - 1 then index + 1 else index

def accept (token : Char) (index : Nat) : Bool := get tokens index == [token]

def expect (token : Char) (index : Nat) : Option Nat :=
  if accept tokens token index then some (next tokens index) else none

/-- The inner loop of parseArray. The fuel of the loops counts their turns: no
result with any fuel is a loop that does not end. -/
def emptyValues : Nat → Nat → List Text → Option (Nat × List Text)
  | 0, _, _ => none
  | fuel + 1, index, values =>
      if accept tokens ',' index then emptyValues fuel (next tokens index) (values ++ [[]])
      else some (index, values)

def arrayValues : Nat → Nat → List Text → Option (Nat × List Text)
  | 0, _, _ => none
  | fuel + 1, index, values =>
      if accept tokens ']' index then some (index, values)
      else do
        let values := values ++ [get tokens index]
        let index := next tokens index
        let index := if accept tokens ',' index then next tokens index else index
        let (index, values) ← emptyValues tokens fuel index values
        arrayValues fuel index values

def afterBracket (index : Nat) : Nat :=
  if accept tokens ';' index then next tokens index else index

def parseArray (fuel index : Nat) (e : Element) : Option (Nat × Element) :=
  match expect tokens '[' index with
  | none => some (index, e)
  | some index => do
      let (index, values) ← arrayValues tokens fuel index e.values
      let e := { e with values := values }
      match expect tokens ']' index with
      | none => some (index, e)
      | some index => some (afterBracket tokens index, e)

mutual

def parseVar : Nat → Nat → List Element → Option (Nat × List Element)
  | 0, _, _ => none
  | fuel + 1, index, parent =>
      let e : Element := ⟨get tokens index, [], []⟩
      match expect tokens '=' (next tokens index) with
      | none => some (next tokens index, parent)
      | some index =>
          if accept tokens '[' index then do
            let (index, e) ← parseArray tokens fuel index e
            some (index, parent ++ [e])
          else if accept tokens '{' index then do
            let (index, e) ← parseObject fuel index e
            some (index, parent ++ [e])
          else
            let e := { e with values := e.values ++ [get tokens index] }
            -- without its semicolon the element is not stored
            match expect tokens ';' (next tokens index) with
            | none => some (next tokens index, parent)
            | some index => some (index, parent ++ [e])

def parseObject : Nat → Nat → Element → Option (Nat × Element)
  | 0, _, _ => none
  | fuel + 1, index, e =>
      match expect tokens '{' index with
      | none => some (index, e)
      | some index => do
          let (index, children) ← objectVars fuel index e.children
          let e := { e with children := children }
          match expect tokens '}' index with
          | none => some (index, e)
          | some index => some (afterBracket tokens index, e)

def objectVars : Nat → Nat → List Element → Option (Nat × List Element)
  | 0, _, _ => none
  | fuel + 1, index, children =>
      if accept tokens '}' index then some (index, children)
      else do
        let (index, children) ← parseVar fuel index children
        objectVars fuel index children

end

def parseVars : Nat → Nat → List Element → Option (Nat × List Element)
  | 0, _, _ => none
  | fuel + 1, index, children =>
      if index = tokens.length - 1 then some (index, children)
      else do
        let (index, children) ← parseVar tokens fuel index children
        parseVars fuel index children

end

def parse (fuel : Nat) (c : Configor) : Option Configor :=
  if c.tokens.length > 0 then do
    let (index, children) ← parseVars c.tokens fuel 0 []
    some { c with index := index, root := children }
  else some { c with index := 0, root := [] }

def readText (fuel : Nat) (c : Configor) (file : Text) : Option Configor :=
  let c := { c with input := preprocess file }
  if c.input ≠ [] then parse fuel { c with tokens := tokenize c.input } else some c

def fromStream (fuel : Nat) (ss : Text) : Option Configor :=
  readText fuel { filePath := [], input := [], tokens := [], index := 0, root := [] } ss

/-- The file is what the path names, unless it cannot be opened. -/
def reloadFile (fuel : Nat) (c : Configor) (file : Option Text) : Option (Configor × Bool) :=
  if c.filePath = [] then some (c, false)
  else
    match file with
    | none => some (c, false)
    | some text => do
        let c ← readText fuel c text
        some (c, true)

def isNumeric (value : Text) : Bool := value.all fun c => c.isDigit || c == '.' || c == '-'

def TABS : Nat := 4

def spaces (tabs : Nat) : Text := List.replicate tabs ' '

def writeValue (value : Text) : Text :=
  if isNumeric value then value else '"' :: value ++ ['"']

def writeValues : List Text → Text
  | [] => []
  | [value] => writeValue value
  | value :: values => writeValue value ++ [',', ' '] ++ writeValues values

def writeLeaf : List Text → Text
  | [value] => writeValue value ++ [';']
  | values => ['['] ++ writeValues values ++ [']']

theorem writeLeaf_many {values : List Text} (h : values.length ≠ 1) :
    writeLeaf values = ['['] ++ writeValues values ++ [']'] := by
  cases values with
  | nil => rfl
  | cons v values =>
      cases values with
      | nil => exact absurd rfl h
      | cons w values => rfl

mutual

def writeElement (tabs : Nat) : Element → Text
  | ⟨name, values, children⟩ =>
      if values.length = 0 ∧ children.length = 0 then []
      else
        spaces tabs ++ name ++ [' ', '=', ' '] ++
          (if children.length > 0 then
            ['{', '\n'] ++ writeElements (tabs + TABS) children ++ spaces tabs ++ ['}']
          else writeLeaf values) ++
          ['\n']

def writeElements (tabs : Nat) : List Element → Text
  | [] => []
  | e :: es => writeElement tabs e ++ writeElements tabs es

end

def save (c : Configor) : Text := writeElements 0 c.root

end Ashe.ConfigorText
