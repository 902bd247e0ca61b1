import Mathlib.Data.List.Basic

namespace Ashe.AesCipher

def sbox : List UInt8 := [
  0x63, 0x7c, 0x77, 0x7b, 0xf2, 0x6b, 0x6f, 0xc5, 0x30, 0x01, 0x67, 0x2b, 0xfe, 0xd7, 0xab, 0x76,
  0xca, 0x82, 0xc9, 0x7d, 0xfa, 0x59, 0x47, 0xf0, 0xad, 0xd4, 0xa2, 0xaf, 0x9c, 0xa4, 0x72, 0xc0,
  0xb7, 0xfd, 0x93, 0x26, 0x36, 0x3f, 0xf7, 0xcc, 0x34, 0xa5, 0xe5, 0xf1, 0x71, 0xd8, 0x31, 0x15,
  0x04, 0xc7, 0x23, 0xc3, 0x18, 0x96, 0x05, 0x9a, 0x07, 0x12, 0x80, 0xe2, 0xeb, 0x27, 0xb2, 0x75,
  0x09, 0x83, 0x2c, 0x1a, 0x1b, 0x6e, 0x5a, 0xa0, 0x52, 0x3b, 0xd6, 0xb3, 0x29, 0xe3, 0x2f, 0x84,
  0x53, 0xd1, 0x00, 0xed, 0x20, 0xfc, 0xb1, 0x5b, 0x6a, 0xcb, 0xbe, 0x39, 0x4a, 0x4c, 0x58, 0xcf,
  0xd0, 0xef, 0xaa, 0xfb, 0x43, 0x4d, 0x33, 0x85, 0x45, 0xf9, 0x02, 0x7f, 0x50, 0x3c, 0x9f, 0xa8,
  0x51, 0xa3, 0x40, 0x8f, 0x92, 0x9d, 0x38, 0xf5, 0xbc, 0xb6, 0xda, 0x21, 0x10, 0xff, 0xf3, 0xd2,
  0xcd, 0x0c, 0x13, 0xec, 0x5f, 0x97, 0x44, 0x17, 0xc4, 0xa7, 0x7e, 0x3d, 0x64, 0x5d, 0x19, 0x73,
  0x60, 0x81, 0x4f, 0xdc, 0x22, 0x2a, 0x90, 0x88, 0x46, 0xee, 0xb8, 0x14, 0xde, 0x5e, 0x0b, 0xdb,
  0xe0, 0x32, 0x3a, 0x0a, 0x49, 0x06, 0x24, 0x5c, 0xc2, 0xd3, 0xac, 0x62, 0x91, 0x95, 0xe4, 0x79,
  0xe7, 0xc8, 0x37, 0x6d, 0x8d, 0xd5, 0x4e, 0xa9, 0x6c, 0x56, 0xf4, 0xea, 0x65, 0x7a, 0xae, 0x08,
  0xba, 0x78, 0x25, 0x2e, 0x1c, 0xa6, 0xb4, 0xc6, 0xe8, 0xdd, 0x74, 0x1f, 0x4b, 0xbd, 0x8b, 0x8a,
  0x70, 0x3e, 0xb5, 0x66, 0x48, 0x03, 0xf6, 0x0e, 0x61, 0x35, 0x57, 0xb9, 0x86, 0xc1, 0x1d, 0x9e,
  0xe1, 0xf8, 0x98, 0x11, 0x69, 0xd9, 0x8e, 0x94, 0x9b, 0x1e, 0x87, 0xe9, 0xce, 0x55, 0x28, 0xdf,
  0x8c, 0xa1, 0x89, 0x0d, 0xbf, 0xe6, 0x42, 0x68, 0x41, 0x99, 0x2d, 0x0f, 0xb0, 0x54, 0xbb, 0x16]

def rsbox : List UInt8 := [
  0x52, 0x09, 0x6a, 0xd5, 0x30, 0x36, 0xa5, 0x38, 0xbf, 0x40, 0xa3, 0x9e, 0x81, 0xf3, 0xd7, 0xfb,
  0x7c, 0xe3, 0x39, 0x82, 0x9b, 0x2f, 0xff, 0x87, 0x34, 0x8e, 0x43, 0x44, 0xc4, 0xde, 0xe9, 0xcb,
  0x54, 0x7b, 0x94, 0x32, 0xa6, 0xc2, 0x23, 0x3d, 0xee, 0x4c, 0x95, 0x0b, 0x42, 0xfa, 0xc3, 0x4e,
  0x08, 0x2e, 0xa1, 0x66, 0x28, 0xd9, 0x24, 0xb2, 0x76, 0x5b, 0xa2, 0x49, 0x6d, 0x8b, 0xd1, 0x25,
  0x72, 0xf8, 0xf6, 0x64, 0x86, 0x68, 0x98, 0x16, 0xd4, 0xa4, 0x5c, 0xcc, 0x5d, 0x65, 0xb6, 0x92,
  0x6c, 0x70, 0x48, 0x50, 0xfd, 0xed, 0xb9, 0xda, 0x5e, 0x15, 0x46, 0x57, 0xa7, 0x8d, 0x9d, 0x84,
  0x90, 0xd8, 0xab, 0x00, 0x8c, 0xbc, 0xd3, 0x0a, 0xf7, 0xe4, 0x58, 0x05, 0xb8, 0xb3, 0x45, 0x06,
  0xd0, 0x2c, 0x1e, 0x8f, 0xca, 0x3f, 0x0f, 0x02, 0xc1, 0xaf, 0xbd, 0x03, 0x01, 0x13, 0x8a, 0x6b,
  0x3a, 0x91, 0x11, 0x41, 0x4f, 0x67, 0xdc, 0xea, 0x97, 0xf2, 0xcf, 0xce, 0xf0, 0xb4, 0xe6, 0x73,
  0x96, 0xac, 0x74, 0x22, 0xe7, 0xad, 0x35, 0x85, 0xe2, 0xf9, 0x37, 0xe8, 0x1c, 0x75, 0xdf, 0x6e,
  0x47, 0xf1, 0x1a, 0x71, 0x1d, 0x29, 0xc5, 0x89, 0x6f, 0xb7, 0x62, 0x0e, 0xaa, 0x18, 0xbe, 0x1b,
  0xfc, 0x56, 0x3e, 0x4b, 0xc6, 0xd2, 0x79, 0x20, 0x9a, 0xdb, 0xc0, 0xfe, 0x78, 0xcd, 0x5a, 0xf4,
  0x1f, 0xdd, 0xa8, 0x33, 0x88, 0x07, 0xc7, 0x31, 0xb1, 0x12, 0x10, 0x59, 0x27, 0x80, 0xec, 0x5f,
  0x60, 0x51, 0x7f, 0xa9, 0x19, 0xb5, 0x4a, 0x0d, 0x2d, 0xe5, 0x7a, 0x9f, 0x93, 0xc9, 0x9c, 0xef,
  0xa0, 0xe0, 0x3b, 0x4d, 0xae, 0x2a, 0xf5, 0xb0, 0xc8, 0xeb, 0xbb, 0x3c, 0x83, 0x53, 0x99, 0x61,
  0x17, 0x2b, 0x04, 0x7e, 0xba, 0x77, 0xd6, 0x26, 0xe1, 0x69, 0x14, 0x63, 0x55, 0x21, 0x0c, 0x7d]

def Rcon : List UInt8 := [0x8d, 0x01, 0x02, 0x04, 0x08, 0x10, 0x20, 0x40, 0x80, 0x1b, 0x36]

def getSBoxValue (num : UInt8) : UInt8 := sbox.getD num.toNat 0

def getSBoxInvert (num : UInt8) : UInt8 := rsbox.getD num.toNat 0

/-- Four bytes that stand together in memory: a column of the state or a word
of the round keys. -/
@[ext]
structure Column where
  b0 : UInt8
  b1 : UInt8
  b2 : UInt8
  b3 : UInt8
  deriving DecidableEq, Repr

def Column.map (f : UInt8 → UInt8) (c : Column) : Column := ⟨f c.b0, f c.b1, f c.b2, f c.b3⟩

instance : XorOp Column where
  xor c d := ⟨c.b0 ^^^ d.b0, c.b1 ^^^ d.b1, c.b2 ^^^ d.b2, c.b3 ^^^ d.b3⟩

/-- The array state_t, whose first index is the column: a block of sixteen bytes
in the order of memory. -/
@[ext]
structure State where
  c0 : Column
  c1 : Column
  c2 : Column
  c3 : Column
  deriving DecidableEq, Repr

def State.map (f : Column → Column) (s : State) : State := ⟨f s.c0, f s.c1, f s.c2, f s.c3⟩

instance : XorOp State where
  xor s t := ⟨s.c0 ^^^ t.c0, s.c1 ^^^ t.c1, s.c2 ^^^ t.c2, s.c3 ^^^ t.c3⟩

def word (RoundKey : List Column) (i : Nat) : Column := RoundKey.getD i ⟨0, 0, 0, 0⟩

def Nk : Nat := 4

def Nb : Nat := 4

def Nr : Nat := 10

def expandWord (RoundKey : List Column) (i : Nat) : Column :=
  let tempa := word RoundKey (i - 1)
  let tempa :=
    if i % Nk = 0 then
      let tempa := Column.map getSBoxValue ⟨tempa.b1, tempa.b2, tempa.b3, tempa.b0⟩
      ⟨tempa.b0 ^^^ Rcon.getD (i / Nk) 0, tempa.b1, tempa.b2, tempa.b3⟩
    else tempa
  word RoundKey (i - Nk) ^^^ tempa

/-- The round keys as words, Nb of them for each round. -/
def keyExpansion (Key : State) : List Column :=
  ((List.range (Nb * (Nr + 1))).drop Nk).foldl (fun rk i => rk ++ [expandWord rk i])
    [Key.c0, Key.c1, Key.c2, Key.c3]

def addRoundKey (round : Nat) (state : State) (RoundKey : List Column) : State :=
  state ^^^ ⟨word RoundKey (round * Nb), word RoundKey (round * Nb + 1),
    word RoundKey (round * Nb + 2), word RoundKey (round * Nb + 3)⟩

def subBytes (state : State) : State := state.map (Column.map getSBoxValue)

def shiftRows (s : State) : State :=
  ⟨⟨s.c0.b0, s.c1.b1, s.c2.b2, s.c3.b3⟩, ⟨s.c1.b0, s.c2.b1, s.c3.b2, s.c0.b3⟩,
    ⟨s.c2.b0, s.c3.b1, s.c0.b2, s.c1.b3⟩, ⟨s.c3.b0, s.c0.b1, s.c1.b2, s.c2.b3⟩⟩

def bit (x k : UInt8) : UInt8 := (x >>> k) &&& 1

def xtime (x : UInt8) : UInt8 := (x <<< 1) ^^^ (bit x 7 * 0x1b)

def mixColumn (c : Column) : Column :=
  let Tmp := c.b0 ^^^ c.b1 ^^^ c.b2 ^^^ c.b3
  ⟨c.b0 ^^^ (xtime (c.b0 ^^^ c.b1) ^^^ Tmp), c.b1 ^^^ (xtime (c.b1 ^^^ c.b2) ^^^ Tmp),
    c.b2 ^^^ (xtime (c.b2 ^^^ c.b3) ^^^ Tmp), c.b3 ^^^ (xtime (c.b3 ^^^ c.b0) ^^^ Tmp)⟩

def mixColumns (state : State) : State := state.map mixColumn

def multiply (x y : UInt8) : UInt8 :=
  bit y 0 * x ^^^ bit y 1 * xtime x ^^^ bit y 2 * xtime (xtime x) ^^^
    bit y 3 * xtime (xtime (xtime x)) ^^^ bit y 4 * xtime (xtime (xtime (xtime x)))

def invMixColumn : Column → Column
  | ⟨a, b, c, d⟩ =>
    ⟨multiply a 0x0e ^^^ multiply b 0x0b ^^^ multiply c 0x0d ^^^ multiply d 0x09,
      multiply a 0x09 ^^^ multiply b 0x0e ^^^ multiply c 0x0b ^^^ multiply d 0x0d,
      multiply a 0x0d ^^^ multiply b 0x09 ^^^ multiply c 0x0e ^^^ multiply d 0x0b,
      multiply a 0x0b ^^^ multiply b 0x0d ^^^ multiply c 0x09 ^^^ multiply d 0x0e⟩

def invMixColumns (state : State) : State := state.map invMixColumn

def invSubBytes (state : State) : State := state.map (Column.map getSBoxInvert)

def invShiftRows (s : State) : State :=
  ⟨⟨s.c0.b0, s.c3.b1, s.c2.b2, s.c1.b3⟩, ⟨s.c1.b0, s.c0.b1, s.c3.b2, s.c2.b3⟩,
    ⟨s.c2.b0, s.c1.b1, s.c0.b2, s.c3.b3⟩, ⟨s.c3.b0, s.c2.b1, s.c1.b2, s.c0.b3⟩⟩

def rounds : List Nat := (List.range Nr).drop 1

def cipher (state : State) (RoundKey : List Column) : State :=
  let state := addRoundKey 0 state RoundKey
  let state := rounds.foldl (fun state round =>
    addRoundKey round (mixColumns (shiftRows (subBytes state))) RoundKey) state
  addRoundKey Nr (shiftRows (subBytes state)) RoundKey

def invCipher (state : State) (RoundKey : List Column) : State :=
  let state := addRoundKey Nr state RoundKey
  let state := rounds.reverse.foldl (fun state round =>
    invMixColumns (addRoundKey round (invSubBytes (invShiftRows state)) RoundKey)) state
  addRoundKey 0 (invSubBytes (invShiftRows state)) RoundKey

end Ashe.AesCipher
