import Ashe.HexEncode

namespace Ashe.Base64

open HexEncode (ascii)

/-- The 64 characters and the zero behind them. -/
def base64Chars (url : Bool) : List UInt8 :=
  if url then
    ("ABCDEFGHIJKLMNOPQRSTUVWXYZabcdefghijklmnopqrstuvwxyz0123456789-_".toList.map ascii) ++ [0]
  else
    ("ABCDEFGHIJKLMNOPQRSTUVWXYZabcdefghijklmnopqrstuvwxyz0123456789+/".toList.map ascii) ++ [0]

def base64Char (url : Bool) (i : UInt8) : UInt8 := (base64Chars url).getD i.toNat 0

def trailingChar (url : Bool) : UInt8 := if url then ascii '.' else ascii '='

def threeBytes (url : Bool) (b0 b1 b2 : UInt8) : List UInt8 :=
  [base64Char url ((b0 &&& 0xfc) >>> 2),
    base64Char url (((b0 &&& 0x03) <<< 4) + ((b1 &&& 0xf0) >>> 4)),
    base64Char url (((b1 &&& 0x0f) <<< 2) + ((b2 &&& 0xc0) >>> 6)),
    base64Char url (b2 &&& 0x3f)]

def twoBytes (url : Bool) (b0 b1 : UInt8) : List UInt8 :=
  [base64Char url ((b0 &&& 0xfc) >>> 2),
    base64Char url (((b0 &&& 0x03) <<< 4) + ((b1 &&& 0xf0) >>> 4)),
    base64Char url ((b1 &&& 0x0f) <<< 2), trailingChar url]

def oneByte (url : Bool) (b0 : UInt8) : List UInt8 :=
  [base64Char url ((b0 &&& 0xfc) >>> 2), base64Char url ((b0 &&& 0x03) <<< 4),
    trailingChar url, trailingChar url]

/-- What one turn of the loop of Encode pushes back. The position has 32 bits, the
length those of size_t. -/
def encodeTurn (bytesToEncode : List UInt8) (inLen : Nat) (url : Bool) (pos : UInt32) :
    Option (List UInt8) := do
  let b0 ← bytesToEncode[pos.toNat]?
  if (pos + 1).toNat < inLen then
    let b1 ← bytesToEncode[(pos + 1).toNat]?
    if (pos + 2).toNat < inLen then
      let b2 ← bytesToEncode[(pos + 2).toNat]?
      some (threeBytes url b0 b1 b2)
    else some (twoBytes url b0 b1)
  else some (oneByte url b0)

def encodeLoop (bytesToEncode : List UInt8) (inLen : Nat) (url : Bool) :
    Nat → UInt32 → List UInt8 → Option (List UInt8)
  | 0, _, _ => none
  | n + 1, pos, ret =>
      if pos.toNat < inLen then do
        let chars ← encodeTurn bytesToEncode inLen url pos
        encodeLoop bytesToEncode inLen url n (pos + 3) (ret ++ chars)
      else some ret

/-- The first argument bounds the turns of the loop: a position that wraps around
never comes to the end of the bytes. -/
def encode (n : Nat) (s : List UInt8) (url : Bool) : Option (List UInt8) :=
  encodeLoop s s.length url n 0 []

/-- The loop of insertLineBreaks. The first argument bounds its turns: at a distance of
zero the text would grow for ever. -/
def insertLoop (distance : Nat) : Nat → List UInt8 → Nat → Option (List UInt8)
  | 0, _, _ => none
  | n + 1, str, pos =>
      if pos < str.length then
        insertLoop distance n (str.take pos ++ ascii '\n' :: str.drop pos) (pos + (distance + 1))
      else some str

def insertLineBreaks (n : Nat) (str : List UInt8) (distance : Nat) : Option (List UInt8) :=
  if str.length = 0 then some [] else insertLoop distance n str distance

def encodeWithLineBreaks (lineLength n : Nat) (s : List UInt8) : Option (List UInt8) := do
  insertLineBreaks n (← encode n s false) lineLength

def encodeWithPEM (n : Nat) (s : List UInt8) : Option (List UInt8) := encodeWithLineBreaks 64 n s

def encodeWithMIME (n : Nat) (s : List UInt8) : Option (List UInt8) := encodeWithLineBreaks 76 n s

def getPosOfChar (chr : UInt8) : Option UInt8 :=
  if ascii 'A' ≤ chr ∧ chr ≤ ascii 'Z' then some (chr - ascii 'A')
  else if ascii 'a' ≤ chr ∧ chr ≤ ascii 'z' then
    some (chr - ascii 'a' + (ascii 'Z' - ascii 'A') + 1)
  else if ascii '0' ≤ chr ∧ chr ≤ ascii '9' then
    some (chr - ascii '0' + (ascii 'Z' - ascii 'A') + (ascii 'z' - ascii 'a') + 2)
  -- be liberal with input and accept both url and non-url characters
  else if chr = ascii '+' ∨ chr = ascii '-' then some 62
  else if chr = ascii '/' ∨ chr = ascii '_' then some 63
  else none

def unpadded (encoded : List UInt8) (pos : Nat) : Prop :=
  pos < encoded.length ∧ encoded.getD pos 0 ≠ ascii '=' ∧ encoded.getD pos 0 ≠ ascii '.'

instance (encoded : List UInt8) (pos : Nat) : Decidable (unpadded encoded pos) :=
  inferInstanceAs (Decidable (_ ∧ _ ∧ _))

/-- What one turn of the loop of _Decode pushes back. The character behind the end
of a string is a zero. -/
def decodeTurn (encoded : List UInt8) (pos : Nat) : Option (List UInt8) := do
  let p1 ← getPosOfChar (encoded.getD (pos + 1) 0)
  let p0 ← getPosOfChar (encoded.getD pos 0)
  let b0 := (p0 <<< 2) + ((p1 &&& 0x30) >>> 4)
  if unpadded encoded (pos + 2) then
    let p2 ← getPosOfChar (encoded.getD (pos + 2) 0)
    let b1 := ((p1 &&& 0x0f) <<< 4) + ((p2 &&& 0x3c) >>> 2)
    if unpadded encoded (pos + 3) then
      let p3 ← getPosOfChar (encoded.getD (pos + 3) 0)
      some [b0, b1, ((p2 &&& 0x03) <<< 6) + p3]
    else some [b0, b1]
  else some [b0]

def decodeLoop (encoded : List UInt8) (pos : Nat) (ret : List UInt8) : Option (List UInt8) :=
  if pos < encoded.length then do
    let bytes ← decodeTurn encoded pos
    decodeLoop encoded (pos + 4) (ret ++ bytes)
  else some ret
termination_by encoded.length - pos

/-- The decoding of a text without line breaks; no result is the answer false. -/
def decodeText (encoded : List UInt8) : Option (List UInt8) :=
  if encoded = [] then none else decodeLoop encoded 0 []

def decodeFlag (encoded : List UInt8) (removeLinebreaks : Bool) : Option (List UInt8) :=
  if encoded = [] then none
  else if removeLinebreaks then
    let ret := (decodeText (encoded.filter (· ≠ ascii '\n'))).getD []
    if 0 < ret.length then some ret else none
  else decodeText encoded

def decode (s : List UInt8) (removeLinebreaks : Bool) : List UInt8 :=
  (decodeFlag s removeLinebreaks).getD []

def encoded (url : Bool) : List UInt8 → List UInt8
  | [] => []
  | [b0] => oneByte url b0
  | [b0, b1] => twoBytes url b0 b1
  | b0 :: b1 :: b2 :: bytes => threeBytes url b0 b1 b2 ++ encoded url bytes

section Sextets

theorem getPosOfChar_base64Char : ∀ url, ∀ i : UInt8, i.toNat < 64 →
    getPosOfChar (base64Char url i) = some i := by decide +kernel

theorem base64Char_ne_padding : ∀ url, ∀ i : UInt8, i.toNat < 64 →
    base64Char url i ≠ ascii '=' ∧ base64Char url i ≠ ascii '.' := by decide +kernel

theorem trailingChar_padding :
    ∀ url, trailingChar url = ascii '=' ∨ trailingChar url = ascii '.' := by
  decide

end Sextets

end Ashe.Base64
