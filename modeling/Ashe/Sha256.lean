import Ashe.Buffers
import Ashe.ByteWords
import Ashe.HashInput

namespace Ashe.Sha256

open Buffers ByteWords HashInput

def SHA256_DATA_SIZE : Nat := 64

def SHA256_DATA_LENGTH : Nat := 16

section Compression

def K : List UInt32 := [
  0x428a2f98, 0x71374491, 0xb5c0fbcf, 0xe9b5dba5, 0x3956c25b, 0x59f111f1,
  0x923f82a4, 0xab1c5ed5, 0xd807aa98, 0x12835b01, 0x243185be, 0x550c7dc3,
  0x72be5d74, 0x80deb1fe, 0x9bdc06a7, 0xc19bf174, 0xe49b69c1, 0xefbe4786,
  0xfc19dc6, 0x240ca1cc, 0x2de92c6f, 0x4a7484aa, 0x5cb0a9dc, 0x76f988da,
  0x983e5152, 0xa831c66d, 0xb00327c8, 0xbf597fc7, 0xc6e00bf3, 0xd5a79147,
  0x6ca6351, 0x14292967, 0x27b70a85, 0x2e1b2138, 0x4d2c6dfc, 0x53380d13,
  0x650a7354, 0x766a0abb, 0x81c2c92e, 0x92722c85, 0xa2bfe8a1, 0xa81a664b,
  0xc24b8b70, 0xc76c51a3, 0xd192e819, 0xd6990624, 0xf40e3585, 0x106aa070,
  0x19a4c116, 0x1e376c08, 0x2748774c, 0x34b0bcb5, 0x391c0cb3, 0x4ed8aa4a,
  0x5b9cca4f, 0x682e6ff3, 0x748f82ee, 0x78a5636f, 0x84c87814, 0x8cc70208,
  0x90befffa, 0xa4506ceb, 0xbef9a3f7, 0xc67178f2]

def rotr (n x : UInt32) : UInt32 := (x >>> n) ||| (x <<< (32 - n))

def choice (x y z : UInt32) : UInt32 := z ^^^ (x &&& (y ^^^ z))

def majority (x y z : UInt32) : UInt32 := (x &&& y) ^^^ (z &&& (x ^^^ y))

def S0 (x : UInt32) : UInt32 := rotr 2 x ^^^ rotr 13 x ^^^ rotr 22 x

def S1 (x : UInt32) : UInt32 := rotr 6 x ^^^ rotr 11 x ^^^ rotr 25 x

def s0 (x : UInt32) : UInt32 := rotr 7 x ^^^ rotr 18 x ^^^ (x >>> 3)

def s1 (x : UInt32) : UInt32 := rotr 17 x ^^^ rotr 19 x ^^^ (x >>> 10)

def expand (W : List UInt32) (i : Nat) : List UInt32 :=
  W.set (i % 16) (W.getD (i % 16) 0 + (s1 (W.getD ((i + 14) % 16) 0) + W.getD ((i + 9) % 16) 0 +
    s0 (W.getD ((i + 1) % 16) 0)))

structure Words where
  A : UInt32
  B : UInt32
  C : UInt32
  D : UInt32
  E : UInt32
  F : UInt32
  G : UInt32
  H : UInt32
  deriving DecidableEq

/-- One of the sixty-four rounds. The words change their names from one round to
the next, so that the last one comes first. -/
def round (s : List UInt32 × Words) (i : Nat) : List UInt32 × Words :=
  let data := if i < 16 then s.1 else expand s.1 i
  let v := s.2
  let T1 := v.H + S1 v.E + choice v.E v.F v.G + K.getD i 0 + data.getD (i % 16) 0
  let T2 := S0 v.A + majority v.A v.B v.C
  (data, ⟨T1 + T2, v.A, v.B, v.C, v.D + T1, v.E, v.F, v.G⟩)

def sha256Transform (state : Words) (data : List UInt32) : Words :=
  let v := ((List.range 64).foldl round (data, state)).2
  ⟨state.A + v.A, state.B + v.B, state.C + v.C, state.D + v.D, state.E + v.E, state.F + v.F,
    state.G + v.G, state.H + v.H⟩

def H0 : Words :=
  ⟨0x6a09e667, 0xbb67ae85, 0x3c6ef372, 0xa54ff53a, 0x510e527f, 0x9b05688c, 0x1f83d9ab, 0x5be0cd19⟩

def digestBytes (v : Words) : List UInt8 :=
  [v.A, v.B, v.C, v.D, v.E, v.F, v.G, v.H].flatMap fun (w : UInt32) =>
    [(w >>> 24).toUInt8, ((0xff : UInt32) &&& (w >>> 16)).toUInt8,
      ((0xff : UInt32) &&& (w >>> 8)).toUInt8, ((0xff : UInt32) &&& w).toUInt8]

end Compression

/-- The context, for any kind of chaining value. -/
structure SHA256Ctx (σ : Type) where
  state : σ
  count_low : UInt32
  count_high : UInt32
  block : List UInt8
  index : UInt32

variable {σ : Type} (sha256_transform : σ → List UInt32 → σ)

def init (state : σ) (ctx : SHA256Ctx σ) : SHA256Ctx σ :=
  { ctx with state := state, count_low := 0, count_high := 0, index := 0 }

def sha256Block (ctx : SHA256Ctx σ) (block : List UInt8) : SHA256Ctx σ :=
  let count_low := ctx.count_low + 1
  { ctx with
    count_low := count_low
    count_high := if count_low = 0 then ctx.count_high + 1 else ctx.count_high
    state := sha256_transform ctx.state (bigWords block) }

/-- The loop of update over whole blocks, with the pointer as a place. -/
def blockLoop (ctx : SHA256Ctx σ) (buffer : List UInt8) (pos length : Nat) :
    Option (SHA256Ctx σ × Nat × Nat) :=
  if length ≥ SHA256_DATA_SIZE then do
    let block ← slice buffer pos SHA256_DATA_SIZE
    blockLoop (sha256Block sha256_transform ctx block) buffer (pos + SHA256_DATA_SIZE)
      (length - SHA256_DATA_SIZE)
  else some (ctx, pos, length)
termination_by length
decreasing_by have : 0 < SHA256_DATA_SIZE := by decide
              omega

/-- Whole blocks, and the bytes behind them that are kept for the next call. -/
def updateRest (ctx : SHA256Ctx σ) (buffer : List UInt8) (pos length : Nat) :
    Option (SHA256Ctx σ) := do
  let (ctx, pos, length) ← blockLoop sha256_transform ctx buffer pos length
  let block ← memcpy ctx.block 0 buffer pos length
  some { ctx with block := block, index := UInt32.ofNat length }

def update (ctx : SHA256Ctx σ) (buffer : List UInt8) (length : UInt32) : Option (SHA256Ctx σ) :=
  if ctx.index ≠ 0 then
    let left := UInt32.ofNat SHA256_DATA_SIZE - ctx.index
    if length < left then do
      let block ← memcpy ctx.block ctx.index.toNat buffer 0 length.toNat
      some { ctx with block := block, index := ctx.index + length }
    else do
      let block ← memcpy ctx.block ctx.index.toNat buffer 0 left.toNat
      let ctx := sha256Block sha256_transform { ctx with block := block } block
      updateRest sha256_transform ctx buffer left.toNat (length - left).toNat
  else updateRest sha256_transform ctx buffer 0 length.toNat

def fillWord (block : List UInt8) (i : Nat) : Option (List UInt8 × Nat) :=
  if i % 4 ≠ 0 then do fillWord (← store block i 0) (i + 1)
  else some (block, i)
termination_by (4 - i % 4) % 4
decreasing_by omega

/-- A byte behind the block is never written, so that the place does not leave
its 32 bits. -/
def final (ctx : SHA256Ctx σ) : Option (SHA256Ctx σ) := do
  let i := ctx.index.toNat
  let block ← store ctx.block i 0x80
  let (block, i) ← fillWord block (i + 1)
  let words := i / 4
  let data := bigWords (block.take (4 * words))
  let (state, data) :=
    if words > SHA256_DATA_LENGTH - 2 then
      (sha256_transform ctx.state (data ++ List.replicate (SHA256_DATA_LENGTH - words) 0),
        List.replicate (SHA256_DATA_LENGTH - 2) 0)
    else (ctx.state, data ++ List.replicate (SHA256_DATA_LENGTH - 2 - words) 0)
  let data := data ++ [(ctx.count_high <<< 9) ||| (ctx.count_low >>> 23),
    (ctx.count_low <<< 9) ||| (ctx.index <<< 3)]
  some { ctx with block := block, state := sha256_transform state data }

section Api

/-- What a constructed object holds before its first use is not initialised. -/
def sha256 (block : List UInt8) : SHA256Ctx Words := init H0 ⟨H0, 0, 0, block, 0⟩

def getDataSHA256 (block data : List UInt8) (dataSize : Nat) : Option (List UInt8) := do
  let ctx ← updateData (update sha256Transform) data dataSize (sha256 block) 0
  let ctx ← final sha256Transform ctx
  some (hexText (digestBytes ctx.state))

def getFileSHA256 (block : List UInt8) (file : Option (List UInt8)) : Option (List UInt8) :=
  match file with
  | none => some []
  | some contents => do
    let ctx ← updateFile (update sha256Transform) contents (List.replicate 1024 0) (sha256 block)
    let ctx ← final sha256Transform ctx
    some (hexText (digestBytes ctx.state))

end Api

end Ashe.Sha256
