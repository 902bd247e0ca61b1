import Ashe.BufferQueue
import Ashe.Buffers

namespace Ashe.HexEncode

open Buffers BufferQueue

def ascii (c : Char) : UInt8 := UInt8.ofNat c.toNat

def HEX : List UInt8 :=
  ['0', '1', '2', '3', '4', '5', '6', '7', '8', '9', 'a', 'b', 'c', 'd', 'e', 'f'].map ascii

def hexEncodeDigit (val : UInt8) : UInt8 := HEX.getD val.toNat (ascii '!')

def hexDecodeDigit (ch : UInt8) : Option UInt8 :=
  if ascii '0' ≤ ch ∧ ch ≤ ascii '9' then some (ch - ascii '0')
  else if ascii 'A' ≤ ch ∧ ch ≤ ascii 'Z' then some (ch - ascii 'A' + 10)
  else if ascii 'a' ≤ ch ∧ ch ≤ ascii 'z' then some (ch - ascii 'a' + 10)
  else none

def encodeLoop (source : List UInt8) (srclen : Nat) (delimiter : UInt8) (buffer : List UInt8)
    (srcpos bufpos : Nat) : Option (List UInt8 × Nat) :=
  if srcpos < srclen then do
    let ch ← source[srcpos]?
    let buffer ← store buffer bufpos (hexEncodeDigit ((ch >>> 4) &&& 0xF))
    let buffer ← store buffer (bufpos + 1) (hexEncodeDigit (ch &&& 0xF))
    if delimiter ≠ 0 ∧ srcpos + 1 < srclen then
      let buffer ← store buffer (bufpos + 2) delimiter
      encodeLoop source srclen delimiter buffer (srcpos + 1) (bufpos + 3)
    else encodeLoop source srclen delimiter buffer (srcpos + 1) (bufpos + 2)
  else do
    let buffer ← store buffer bufpos 0
    some (buffer, bufpos)
termination_by srclen - srcpos

/-- The buffer afterwards and the number of characters, or no result when the
code reads or writes outside of an array. No length here leaves the range of
size_t while the source is shorter than 2^62. -/
def hexEncodeWithDelimiter (buffer : List UInt8) (buflen : Nat) (csource : List UInt8)
    (srclen : Nat) (delimiter : UInt8) : Option (List UInt8 × Nat) :=
  if buflen = 0 then some (buffer, 0)
  else
    let needed := if delimiter ≠ 0 then srclen * 3 else srclen * 2 + 1
    if buflen < needed then some (buffer, 0)
    else encodeLoop csource srclen delimiter buffer 0 0

/-- The allocation answers with the bytes that were left in the new buffer, or
not at all. -/
def hexEncodeToString (mem : Option (Nat → UInt8)) (source : List UInt8) (srclen : Nat)
    (delimiter : UInt8) : Option (List UInt8) :=
  let kBufferSize := srclen * 3
  match mem with
  | none => some []
  | some left => do
      let (buffer, length) ← hexEncodeWithDelimiter (malloc kBufferSize left) kBufferSize source
        srclen delimiter
      some (buffer.take length)

def hexEncode (mem : Option (Nat → UInt8)) (str : List UInt8) : Option (List UInt8) :=
  hexEncodeToString mem str str.length 0

def decodeLoop (source : List UInt8) (srclen : Nat) (delimiter : UInt8) (buffer : List UInt8)
    (srcpos bufpos : Nat) : Option (List UInt8 × Nat) :=
  if srcpos < srclen then
    if srclen - srcpos < 2 then some (buffer, 0)
    else do
      let c1 ← source[srcpos]?
      match hexDecodeDigit c1 with
      | none => some (buffer, 0)
      | some h1 =>
          let c2 ← source[srcpos + 1]?
          match hexDecodeDigit c2 with
          | none => some (buffer, 0)
          | some h2 =>
              let buffer ← store buffer bufpos ((h1 <<< 4) ||| h2)
              if delimiter ≠ 0 ∧ srclen - (srcpos + 2) > 1 then
                let c ← source[srcpos + 2]?
                if c ≠ delimiter then some (buffer, 0)
                else decodeLoop source srclen delimiter buffer (srcpos + 3) (bufpos + 1)
              else decodeLoop source srclen delimiter buffer (srcpos + 2) (bufpos + 1)
  else some (buffer, bufpos)
termination_by srclen - srcpos

def hexDecodeWithDelimiter (buffer : List UInt8) (buflen : Nat) (source : List UInt8)
    (srclen : Nat) (delimiter : UInt8) : Option (List UInt8 × Nat) :=
  if buflen = 0 then some (buffer, 0)
  else
    let needed := if delimiter ≠ 0 then (srclen + 1) / 3 else srclen / 2
    if buflen < needed then some (buffer, 0)
    else decodeLoop source srclen delimiter buffer 0 0

def hexDecode (mem : Option (Nat → UInt8)) (str : List UInt8) : Option (List UInt8) :=
  if str.length = 0 then some []
  else
    let kBufferSize := str.length
    match mem with
    | none => some []
    | some left => do
        let (buffer, dstSize) ← hexDecodeWithDelimiter (malloc kBufferSize left) kBufferSize str
          str.length 0
        some (buffer.take dstSize)

end Ashe.HexEncode
