import Ashe.AesCipher
import Ashe.Buffers

namespace Ashe.AesCbc

open AesCipher Buffers

def Column.bytes (c : Column) : List UInt8 := [c.b0, c.b1, c.b2, c.b3]

def State.bytes (s : State) : List UInt8 :=
  Column.bytes s.c0 ++ Column.bytes s.c1 ++ Column.bytes s.c2 ++ Column.bytes s.c3

def Column.load (buffer : List UInt8) (i : Nat) : Option Column := do
  some ⟨← buffer[i]?, ← buffer[i + 1]?, ← buffer[i + 2]?, ← buffer[i + 3]?⟩

/-- The sixteen bytes from place `i` on. There is no result when one of them is
outside of the buffer. -/
def State.load (buffer : List UInt8) (i : Nat) : Option State := do
  some ⟨← Column.load buffer i, ← Column.load buffer (i + 4), ← Column.load buffer (i + 8),
    ← Column.load buffer (i + 12)⟩

structure AESCtx where
  RoundKey : List Column
  Iv : State

def AES_BLOCKLEN : Nat := 16

def AES_KEYLEN : Nat := 16

def aesInitCtxIv (key iv : State) : AESCtx := ⟨keyExpansion key, iv⟩

def xorWithIv (buf Iv : State) : State := buf ^^^ Iv

def pointee (ctx : AESCtx) (buf : List UInt8) : Option Nat → Option State
  | none => some ctx.Iv
  | some i => State.load buf i

/-- The pointers into the buffer are kept as places. Each pass over a block is
in place, so that the block is stored once after both. -/
def cbcEncryptLoop (ctx : AESCtx) (length : Nat) (buf : List UInt8) (i : Nat) (Iv : Option Nat) :
    Option (List UInt8 × Option Nat) :=
  if i < length then do
    let block ← State.load buf i
    let iv ← pointee ctx buf Iv
    let buf ← copy buf i (State.bytes (cipher (xorWithIv block iv) ctx.RoundKey))
    cbcEncryptLoop ctx length buf (i + AES_BLOCKLEN) (some i)
  else some (buf, Iv)
termination_by length - i
decreasing_by have : 0 < AES_BLOCKLEN := by decide
              omega

def aesCBCEncryptBuffer (ctx : AESCtx) (buf : List UInt8) (length : UInt32) :
    Option (AESCtx × List UInt8) := do
  let (buf, Iv) ← cbcEncryptLoop ctx length.toNat buf 0 none
  let iv ← pointee ctx buf Iv
  some (⟨ctx.RoundKey, iv⟩, buf)

def cbcDecryptLoop (ctx : AESCtx) (length : Nat) (buf : List UInt8) (i : Nat) :
    Option (AESCtx × List UInt8) :=
  if i < length then do
    let storeNextIv ← State.load buf i
    let buf ← copy buf i (State.bytes (xorWithIv (invCipher storeNextIv ctx.RoundKey) ctx.Iv))
    cbcDecryptLoop ⟨ctx.RoundKey, storeNextIv⟩ length buf (i + AES_BLOCKLEN)
  else some (ctx, buf)
termination_by length - i
decreasing_by have : 0 < AES_BLOCKLEN := by decide
              omega

def aesCBCDecryptBuffer (ctx : AESCtx) (buf : List UInt8) (length : UInt32) :
    Option (AESCtx × List UInt8) := cbcDecryptLoop ctx length.toNat buf 0

inductive AESPaddingMode where
  | PKCS7
  | None
  deriving DecidableEq

/-- The answer is the number of bytes written, or minus the number that did not
fit. The modulus is not zero. -/
def pkcs7PaddingPadBuffer (buffer : List UInt8) (data_length buffer_size : Nat)
    (modulus : UInt8) : Option (Int × List UInt8) :=
  let pad_byte := UInt8.ofNat (modulus.toNat - data_length % modulus.toNat)
  if data_length + pad_byte.toNat > buffer_size then some (-pad_byte.toNat, buffer)
  else do
    let buffer ← (List.range pad_byte.toNat).foldlM
      (fun buffer i => store buffer (data_length + i) pad_byte) buffer
    some (pad_byte.toNat, buffer)

def paddingLoop (buffer : List UInt8) (padding_value : UInt8) : Nat → Nat → Option Nat
  | 0, buffer_size => some buffer_size
  | turns + 1, buffer_size => do
    let b ← buffer[buffer_size - 1]?
    if b ≠ padding_value then some 0
    else paddingLoop buffer padding_value turns (buffer_size - 1)

def pkcs7PaddingDataLength (buffer : List UInt8) (buffer_size : Nat) (modulus : UInt8) :
    Option Nat :=
  if buffer_size % modulus.toNat ≠ 0 ∨ buffer_size < modulus.toNat then some 0
  else do
    let padding_value ← buffer[buffer_size - 1]?
    if padding_value < 1 ∨ padding_value > modulus then some 0
    else if buffer_size < padding_value.toNat + 1 then some 0
    else paddingLoop buffer padding_value (padding_value.toNat - 1) (buffer_size - 1)

def bufferSize (size : Nat) : Nat := if size % 16 ≠ 0 then size + (16 - size % 16) else size

def padBuffer (paddingMode : AESPaddingMode) (buffer : List UInt8) (size bufSize : Nat) :
    Option (List UInt8) :=
  match paddingMode with
  | .PKCS7 => (pkcs7PaddingPadBuffer buffer size bufSize 16).map Prod.snd
  | .None => some buffer

/-- The result and the vector for the output afterwards. The buffer is taken to
be allocated, and no size here leaves the range of size_t. -/
def aes128CBCEncrypt (key iv : List UInt8) (paddingMode : AESPaddingMode)
    (plain cipher : List UInt8) : Option (Bool × List UInt8) :=
  if key.length ≠ AES_KEYLEN ∨ iv.length ≠ AES_KEYLEN ∨ plain = [] then some (false, cipher)
  else do
    let ctx := aesInitCtxIv (← State.load key 0) (← State.load iv 0)
    let bufSize := bufferSize plain.length
    let buffer ← copy (List.replicate bufSize 0) 0 plain
    let buffer ← padBuffer paddingMode buffer plain.length bufSize
    -- the length is passed in 32 bits
    let (_, buffer) ← aesCBCEncryptBuffer ctx buffer (UInt32.ofNat plain.length)
    some (true, buffer)

def dataLength (paddingMode : AESPaddingMode) (buffer : List UInt8) (size : Nat) : Option Nat :=
  match paddingMode with
  | .PKCS7 => pkcs7PaddingDataLength buffer size 16
  | .None => some size

def aes128CBCDecrypt (key iv : List UInt8) (paddingMode : AESPaddingMode)
    (cipher plain : List UInt8) : Option (Bool × List UInt8) :=
  if key.length ≠ AES_KEYLEN ∨ iv.length ≠ AES_KEYLEN ∨ cipher = [] then some (false, plain)
  else do
    let ctx := aesInitCtxIv (← State.load key 0) (← State.load iv 0)
    let (_, buffer) ← aesCBCDecryptBuffer ctx cipher (UInt32.ofNat cipher.length)
    let actualDataLength ← dataLength paddingMode buffer cipher.length
    some (true, buffer.take actualDataLength)

end Ashe.AesCbc
