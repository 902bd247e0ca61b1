import Ashe.HexEncode

namespace Ashe.UrlEncode

open Buffers BufferQueue
open HexEncode (ascii hexDecodeDigit)

def hex : List UInt8 := ("0123456789ABCDEF".toList.map ascii) ++ [0]

def unreserved (cc : UInt8) : Prop :=
  (ascii 'A' ≤ cc ∧ cc ≤ ascii 'Z') ∨ (ascii 'a' ≤ cc ∧ cc ≤ ascii 'z') ∨
    (ascii '0' ≤ cc ∧ cc ≤ ascii '9') ∨ cc = ascii '.' ∨ cc = ascii '_' ∨ cc = ascii '-' ∨
    cc = ascii '*' ∨ cc = ascii '~'

instance (cc : UInt8) : Decidable (unreserved cc) := by
  unfold unreserved
  infer_instance

def encodeByte (cc : UInt8) : List UInt8 :=
  if unreserved cc then [cc]
  else [ascii '%', hex.getD (cc / 16).toNat 0, hex.getD (cc % 16).toNat 0]

def urlEncode (str : List UInt8) : List UInt8 := str.foldl (fun dst cc => dst ++ encodeByte cc) []

/-- The second condition of the loop of UrlDecode: two digits behind a percent sign,
the second of which is read only after the first. The outer result is the access. -/
def readEscape (source : List UInt8) (srclen srcpos : Nat) (ch : UInt8) :
    Option (Option UInt8) :=
  if ch = ascii '%' ∧ srcpos + 1 < srclen then do
    let c1 ← source[srcpos]?
    match hexDecodeDigit c1 with
    | none => some none
    | some h1 =>
        let c2 ← source[srcpos + 1]?
        some ((hexDecodeDigit c2).map fun h2 => (h1 <<< 4) ||| h2)
  else some none

def decodeLoop (source : List UInt8) (srclen buflen : Nat) (buffer : List UInt8)
    (srcpos bufpos : Nat) : Option (List UInt8 × Nat) :=
  if srcpos < srclen ∧ bufpos + 1 < buflen then do
    let ch ← source[srcpos]?
    if ch = ascii '+' then
      let buffer ← store buffer bufpos (ascii ' ')
      decodeLoop source srclen buflen buffer (srcpos + 1) (bufpos + 1)
    else
      match ← readEscape source srclen (srcpos + 1) ch with
      | some c =>
          let buffer ← store buffer bufpos c
          decodeLoop source srclen buflen buffer (srcpos + 3) (bufpos + 1)
      | none =>
          let buffer ← store buffer bufpos ch
          decodeLoop source srclen buflen buffer (srcpos + 1) (bufpos + 1)
  else do
    let buffer ← store buffer bufpos 0
    some (buffer, bufpos)
termination_by srclen - srcpos

/-- The buffer afterwards and the number that is returned, or no result when the
code reads or writes outside of an array. A null pointer is no buffer. -/
def urlDecodeBuffer (buffer : Option (List UInt8)) (buflen : Nat) (source : List UInt8)
    (srclen : Nat) : Option (Option (List UInt8) × Nat) :=
  match buffer with
  | none => some (none, srclen + 1)
  | some buffer =>
      if buflen = 0 then some (some buffer, 0)
      else do
        let (buffer, bufpos) ← decodeLoop source srclen buflen buffer 0 0
        some (some buffer, bufpos)

def Transform : Type :=
  Option (List UInt8) → Nat → List UInt8 → Nat → Option (Option (List UInt8) × Nat)

/-- The function s_transform. The allocation answers with the bytes that were left in
the new buffer, or not at all. -/
def sTransform (mem : Option (Nat → UInt8)) (source : List UInt8) (t : Transform) :
    Option (List UInt8) := do
  let (_, maxlen) ← t none 0 source source.length
  match mem with
  | none => some []
  | some left =>
      let (buffer, len) ← t (some (malloc maxlen left)) maxlen source source.length
      some ((buffer.getD []).take len)

def urlDecode (mem : Option (Nat → UInt8)) (source : List UInt8) : Option (List UInt8) :=
  sTransform mem source urlDecodeBuffer

end Ashe.UrlEncode
