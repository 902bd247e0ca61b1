import Ashe.StrSplit

namespace Ashe.Versions

open StrSplit (strSplit)

/-- The characters of a std::string or a std::wstring by their numbers: all that is
done here is the same for both. -/
abbrev Text := List Nat

def text (s : String) : Text := s.toList.map Char.toNat

def findFirstNotOf (s whitespaces : Text) : Option Nat := s.findIdx? (· ∉ whitespaces)

def findLastNotOf (s whitespaces : Text) : Option Nat :=
  (s.reverse.findIdx? (· ∉ whitespaces)).map (s.length - 1 - ·)

def strTrim (s whitespaces : Text) : Text :=
  match findFirstNotOf s whitespaces, findLastNotOf s whitespaces with
  | some pos, some last => (s.drop pos).take (last - pos + 1)
  | _, _ => []

def whitespaces : Text := [32, 9, 12, 11, 10, 13]

def isdigit (c : Nat) : Bool := 48 ≤ c ∧ c ≤ 57

def strIsDigit (s : Text) : Bool := !s.isEmpty && s.all isdigit

def readDigits : Nat → Text → Nat
  | n, [] => n
  | n, c :: s => if isdigit c then readDigits (n * 10 + (c - 48)) s else n

/-- The number that strtol and wcstol read from a text that begins with a digit. Behind
LONG_MAX, the first argument, they answer with LONG_MAX. -/
def strtol (longMax : Nat) (s : Text) : Nat := min (readDigits 0 s) longMax

structure Version where
  verElems : List UInt32

/-- Both constructors. A long is narrowed to an unsigned int. -/
def Version.construct (longMax : Nat) (s : Text) : Version :=
  let sc := strTrim s whitespaces
  let v := (strSplit (sc.length + 1) sc (text ".") true).getD []
  let valid := !v.isEmpty && v.all strIsDigit
  if valid then ⟨v.map fun c => UInt32.ofNat (strtol longMax c)⟩ else ⟨[]⟩

def Version.isValid (this : Version) : Bool := !this.verElems.isEmpty

def Version.isSameFormat (this that : Version) : Bool :=
  this.verElems.length = that.verElems.length

def eqLoop : List UInt32 → List UInt32 → Bool
  | a :: this, b :: that => if a ≠ b then false else eqLoop this that
  | _, _ => true

def Version.eq (this that : Version) : Bool :=
  if !this.isSameFormat that then false else eqLoop this.verElems that.verElems

def Version.ne (this that : Version) : Bool := !this.eq that

/-- The loop of compare, which has no result where it reads behind the other components. -/
def compareLoop : List UInt32 → List UInt32 → Option Int
  | [], _ => some 0
  | _ :: _, [] => none
  | a :: this, b :: that =>
      if a > b then some 1 else if a < b then some (-1) else compareLoop this that

def Version.compare (this that : Version) : Option Int :=
  compareLoop this.verElems that.verElems

def Version.gt (this that : Version) : Option Bool := (this.compare that).map (· > 0)

def Version.lt (this that : Version) : Option Bool := (this.compare that).map (· < 0)

def Version.le (this that : Version) : Option Bool := (this.compare that).map (· ≤ 0)

def Version.ge (this that : Version) : Option Bool := (this.compare that).map (· ≥ 0)

end Ashe.Versions
