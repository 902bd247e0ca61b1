import Ashe.EnvVariable
import Ashe.ShellinkParser

namespace Ashe.Registry

open ByteWords (littleEndian)
open EnvVariable (WString)
open ShellinkParser (wideChars)

abbrev LSTATUS := UInt32

def errorSuccess : LSTATUS := 0
def errorFileNotFound : LSTATUS := 2
def errorOutOfMemory : LSTATUS := 14
def errorMoreData : LSTATUS := 234
def errorInvalidDatatype : LSTATUS := 1804

def regMultiSz : UInt32 := 7

structure Value where
  dwType : UInt32
  data : List UInt8
  size : data.length < 2 ^ 32

abbrev Values := WString → Option Value

def getValueBufferSize (values : Values) (valueName : WString) : Except LSTATUS UInt32 :=
  match values valueName with
  | none => .error errorFileNotFound
  | some value => .ok (UInt32.ofNat value.data.length)

def getValue (values : Values) (valueName : WString) (typeExpected cbData : UInt32) :
    Except LSTATUS (List UInt8) :=
  match values valueName with
  | none => .error errorFileNotFound
  | some value =>
      if cbData.toNat < value.data.length then .error errorMoreData
      else if value.dwType ≠ typeExpected then .error errorInvalidDatatype
      else .ok value.data

/-- RegSetValueExW answers with the status given, and stores the value when that is success. -/
def setValue (values : Values) (status : LSTATUS) (valueName : WString) (valueType : UInt32)
    (pbData : List UInt8) (cbData : UInt32) : LSTATUS × Values :=
  if status = errorSuccess then
    (errorSuccess, Function.update values valueName (some ⟨valueType, pbData.take cbData.toNat,
      Nat.lt_of_le_of_lt (List.length_take_le _ _) cbData.toNat_lt⟩))
  else (status, values)

def wideBytes (s : List UInt16) : List UInt8 := s.flatMap fun c => littleEndian 2 c.toNat

def walkList : List UInt16 → Option (List WString)
  | [] => none
  | c :: rest =>
      if c = 0 then some []
      else
        let s := c :: rest.takeWhile (· ≠ 0)
        (walkList (rest.drop s.length)).map (s :: ·)
  termination_by chars => chars.length
  decreasing_by
    simp only [List.length_drop, List.length_cons]
    omega

/-- The flag says whether malloc has memory for the buffer. -/
def getMultiSZValue (values : Values) (allocated : Bool) (valueName : WString)
    (vStrValues : List WString) : Option (LSTATUS × List WString) :=
  match getValueBufferSize values valueName with
  | .error ls => some (ls, vStrValues)
  | .ok cb =>
      if cb = 0 then some (errorSuccess, [])
      else if allocated then
        match getValue values valueName regMultiSz cb with
        | .error ls => some (ls, vStrValues)
        | .ok bytes =>
            let buf := bytes ++ List.replicate (cb.toNat + 2 - bytes.length) 0
            (walkList (wideChars buf)).map fun strings => (errorSuccess, vStrValues ++ strings)
      else some (errorOutOfMemory, vStrValues)

def strsafeMaxCch : Nat := 2 ^ 31 - 1

/-- The characters that StringCchCopyW puts at its destination, which may be one zero only. -/
def stringCchCopyW (cchDest : Nat) (src : WString) : List UInt16 :=
  if cchDest = 0 then []
  else if cchDest ≤ strsafeMaxCch then (src.takeWhile (· ≠ 0)).take (cchDest - 1) ++ [0]
  else [0]

def listSize (vStrValues : List WString) : Nat :=
  vStrValues.foldl (fun cch s => cch + (s.length + 1)) 1

def copyLoop (cch : Nat) (memory : Nat → UInt16) : List WString → List UInt16 → List UInt16
  | [], written => written ++ [0]
  | s :: vStrValues, written =>
      let written' := written ++ stringCchCopyW cch s
      let untouched := written.length + (s.length + 1) - written'.length
      copyLoop cch memory vStrValues
        (written' ++ (List.range untouched).map fun i => memory (written'.length + i))

def createDoubleNulTermList (memory : Nat → UInt16) (allocated : Bool)
    (vStrValues : List WString) : Option (List UInt16) :=
  if allocated then some (copyLoop (listSize vStrValues) memory vStrValues []) else none

/-- The byte count is computed in 32 bits. -/
def setMultiSZValue (memory : Nat → UInt16) (allocated : Bool) (values : Values)
    (status : LSTATUS) (valueName : WString) (vStrValues : List WString) : LSTATUS × Values :=
  match createDoubleNulTermList memory allocated vStrValues with
  | none => (errorOutOfMemory, values)
  | some ptrValues => setValue values status valueName regMultiSz (wideBytes ptrValues)
      (UInt32.ofNat (listSize vStrValues) * 2)

end Ashe.Registry
