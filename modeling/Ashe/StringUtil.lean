import Ashe.CmdLineParser
import Ashe.HexEncode
import Ashe.Occurrences
import Ashe.StrSplit

namespace Ashe.StringUtil

open CmdLineParser (WChar code)
open HexEncode (ascii)
open Occurrences (place)
open StrSplit (find)

/-- StrToUpper. The bytes from 128 on are negative as a char, and in no range. -/
def charToUpper (c : UInt8) : UInt8 :=
  if c ≤ ascii 'z' ∧ ascii 'a' ≤ c then c + (ascii 'Z' - ascii 'z') else c

def wcharToUpper (c : WChar) : WChar :=
  if c ≤ code 'z' ∧ code 'a' ≤ c then c + (code 'Z' - code 'z') else c

variable {α : Type} [DecidableEq α]

def equal (upper : α → α) (caseInsensitive : Bool) (ch1 ch2 : α) : Bool :=
  if caseInsensitive then upper ch1 == upper ch2 else ch1 == ch2

def strFind (upper : α → α) (str substring : List α) (offset : Nat) (caseInsensitive : Bool) :
    Option Nat :=
  if offset ≥ str.length then none
  else (place (equal upper caseInsensitive) substring (str.drop offset)).map (offset + ·)

/-- The loop of StrContainTimes. Here and below the first number bounds the turns. -/
def containLoop (str substring : List α) : Nat → Nat → Nat → Option Nat
  | 0, _, _ => none
  | n + 1, offset, times =>
      match find str substring offset with
      | none => some times
      | some pos => containLoop str substring n (pos + substring.length) (times + 1)

def strContainTimes (n : Nat) (str substring : List α) : Option Nat :=
  if substring.length = 0 then some 0 else containLoop str substring n 0 0

def replace (s : List α) (pos count : Nat) (toStr : List α) : List α :=
  s.take pos ++ toStr ++ s.drop (pos + count)

def replaceLoop (upper : α → α) (fromStr toStr : List α) (caseInsensitive : Bool) :
    Nat → Nat → List α → Option (List α)
  | 0, _, _ => none
  | n + 1, startPos, ret =>
      match strFind upper ret fromStr startPos caseInsensitive with
      | none => some ret
      | some startPos =>
          replaceLoop upper fromStr toStr caseInsensitive n (startPos + toStr.length)
            (replace ret startPos fromStr.length toStr)

def strReplace (n : Nat) (upper : α → α) (s fromStr toStr : List α) (offset : Nat)
    (caseInsensitive : Bool) : Option (List α) :=
  if fromStr = [] then some s
  else
    let foundSubstring := (strFind upper s fromStr offset caseInsensitive).isSome
    if !foundSubstring then some s
    else replaceLoop upper fromStr toStr caseInsensitive n 0 s

def strJoin : List (List α) → List α → Bool → List α
  | [], _, _ => []
  | t :: src, delimiter, includeEmptyStr =>
      (if t.length > 0 then t else if includeEmptyStr then t else []) ++
        (if src ≠ [] then delimiter else []) ++ strJoin src delimiter includeEmptyStr

end Ashe.StringUtil
