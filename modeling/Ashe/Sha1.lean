import Ashe.Buffers
import Ashe.ByteWords
import Ashe.HashInput

namespace Ashe.Sha1

open Buffers ByteWords HashInput

section Compression

def rol32 (value bits : UInt32) : UInt32 := (value <<< bits) ||| (value >>> (32 - bits))

/-- The word `i` of the workspace, put into the order of the host (SHABLK0). -/
def shablk0 (l : List UInt32) (i : Nat) : List UInt32 :=
  let w := l.getD i 0
  l.set i ((rol32 w 24 &&& 0xFF00FF00) ||| (rol32 w 8 &&& 0x00FF00FF))

/-- The word of round `i`, which replaces the one sixteen rounds before (SHABLK). -/
def shablk (l : List UInt32) (i : Nat) : List UInt32 :=
  l.set (i % 16) (rol32 (l.getD ((i + 13) % 16) 0 ^^^ l.getD ((i + 8) % 16) 0 ^^^
    l.getD ((i + 2) % 16) 0 ^^^ l.getD (i % 16) 0) 1)

structure Words where
  a : UInt32
  b : UInt32
  c : UInt32
  d : UInt32
  e : UInt32
  deriving DecidableEq

def mixed (i : Nat) (w x y : UInt32) : UInt32 :=
  if i < 20 then ((w &&& (x ^^^ y)) ^^^ y) + 0x5A827999
  else if i < 40 then (w ^^^ x ^^^ y) + 0x6ED9EBA1
  else if i < 60 then (((w ||| x) &&& y) ||| (w &&& x)) + 0x8F1BBCDC
  else (w ^^^ x ^^^ y) + 0xCA62C1D6

/-- One of the eighty rounds. The words change their names from one round to the
next, so that the last one comes first. -/
def round (s : List UInt32 × Words) (i : Nat) : List UInt32 × Words :=
  let l := if i < 16 then shablk0 s.1 i else shablk s.1 i
  let z := s.2.e + mixed i s.2.b s.2.c s.2.d + l.getD (i % 16) 0 + rol32 s.2.a 5
  (l, ⟨z, s.2.a, rol32 s.2.b 30, s.2.c, s.2.d⟩)

/-- The block is copied into words of a little endian host. -/
def transform (state : Words) (buffer : List UInt8) : Words :=
  let s := ((List.range 80).foldl round (littleWords buffer, state)).2
  ⟨state.a + s.a, state.b + s.b, state.c + s.c, state.d + s.d, state.e + s.e⟩

def initial : Words := ⟨0x67452301, 0xEFCDAB89, 0x98BADCFE, 0x10325476, 0xC3D2E1F0⟩

def digestBytes (state : Words) : List UInt8 :=
  [state.a, state.b, state.c, state.d, state.e].flatMap fun (w : UInt32) =>
    [(w >>> 24).toUInt8, (w >>> 16).toUInt8, (w >>> 8).toUInt8, w.toUInt8]

end Compression

/-- The members of the class, for any kind of chaining value. -/
structure SHA1 (σ : Type) where
  m_state : σ
  m_count0 : UInt32
  m_count1 : UInt32
  m_buffer : List UInt8
  m_digest : List UInt8

variable {σ : Type} (transform : σ → List UInt8 → σ) (digestBytes : σ → List UInt8)
  (wipe : σ → σ)

def reset (init : σ) (ctx : SHA1 σ) : SHA1 σ :=
  { ctx with m_state := init, m_count0 := 0, m_count1 := 0 }

def transformLoop (data : List UInt8) (len : UInt32) (state : σ) (i : UInt32) :
    Option (σ × UInt32) :=
  if i + 63 < len then
    if _h : i.toNat + 64 ≤ len.toNat then do
      let block ← slice data i.toNat 64
      transformLoop data len (transform state block) (i + 64)
    else none
  else some (state, i)
termination_by len.toNat - i.toNat
decreasing_by
  have hlt := len.toNat_lt
  have h64 : (i + 64).toNat = i.toNat + 64 := by
    rw [UInt32.toNat_add, show (64 : UInt32).toNat = 64 from rfl]
    omega
  omega

def update (ctx : SHA1 σ) (data : List UInt8) (len : UInt32) : Option (SHA1 σ) :=
  let j := (ctx.m_count0 >>> 3) &&& 63
  let count0 := ctx.m_count0 + (len <<< 3)
  let count1 := if count0 < len <<< 3 then ctx.m_count1 + 1 else ctx.m_count1
  let count1 := count1 + (len >>> 29)
  if j + len > 63 then do
    let i := 64 - j
    let buffer ← memcpy ctx.m_buffer j.toNat data 0 i.toNat
    let (state, i) ← transformLoop transform data len (transform ctx.m_state buffer) i
    let buffer ← memcpy buffer 0 data i.toNat (len - i).toNat
    some ⟨state, count0, count1, buffer, ctx.m_digest⟩
  else do
    let buffer ← memcpy ctx.m_buffer j.toNat data 0 len.toNat
    some ⟨ctx.m_state, count0, count1, buffer, ctx.m_digest⟩

theorem update_count0 {ctx ctx' : SHA1 σ} {data : List UInt8} {len : UInt32}
    (h : update transform ctx data len = some ctx') :
    ctx'.m_count0 = ctx.m_count0 + (len <<< 3) := by
  rw [update] at h
  dsimp only at h
  split at h
  next =>
    simp only [Option.bind_eq_bind, Option.bind_eq_some_iff] at h
    obtain ⟨_, -, _, -, _, -, h⟩ := h
    obtain rfl := Option.some.inj h
    rfl
  next =>
    simp only [Option.bind_eq_bind, Option.bind_eq_some_iff] at h
    obtain ⟨_, -, h⟩ := h
    obtain rfl := Option.some.inj h
    rfl

def missing (count0 : UInt32) : Nat := (120 - count0.toNat / 8 % 64) % 64

theorem and_504_toNat (x : UInt32) : (x &&& 504).toNat = x.toNat / 8 % 64 * 8 := by
  have hmask : ∀ n : Nat, n &&& 504 = ((n >>> 3) &&& 63) <<< 3 := by
    intro n
    apply Nat.eq_of_testBit_eq
    intro i
    rw [show 504 = 63 <<< 3 from rfl]
    simp only [Nat.testBit_and, Nat.testBit_shiftLeft, Nat.testBit_shiftRight]
    by_cases hi : i ≥ 3
    · rw [Nat.add_sub_cancel' hi]
      simp [hi]
    · simp [hi]
  rw [UInt32.toNat_and, show (504 : UInt32).toNat = 504 from rfl, hmask, Nat.shiftLeft_eq,
    Nat.shiftRight_eq_div_pow, Nat.and_two_pow_sub_one_eq_mod _ 6]

theorem missing_step {count0 : UInt32} (h : count0 &&& 504 ≠ 448) :
    missing (count0 + (1 : UInt32) <<< 3) + 1 = missing count0 := by
  have hne : count0.toNat / 8 % 64 ≠ 56 := by
    intro he
    apply h
    apply UInt32.toNat_inj.mp
    rw [and_504_toNat, he]
    rfl
  have hstep : (count0 + (1 : UInt32) <<< 3).toNat = (count0.toNat + 8) % 2 ^ 32 := by
    rw [UInt32.toNat_add]
    rfl
  have hlt := count0.toNat_lt
  rw [missing, missing, hstep]
  omega

/-- The loop of final over zero bytes, which ends at each count. -/
def padLoop (ctx : SHA1 σ) : Option (SHA1 σ) :=
  if _h : ctx.m_count0 &&& 504 ≠ 448 then
    match _hu : update transform ctx [0, 0] 1 with
    | none => none
    | some ctx' => padLoop ctx'
  else some ctx
termination_by missing ctx.m_count0
decreasing_by
  rw [update_count0 transform _hu]
  exact Nat.lt_of_succ_le (Nat.le_of_eq (missing_step _h))

def finalcount (ctx : SHA1 σ) : List UInt8 :=
  (List.range 8).map fun i =>
    (((if i ≥ 4 then ctx.m_count0 else ctx.m_count1) >>>
      UInt32.ofNat ((3 - i % 4) * 8)) &&& 255).toUInt8

/-- The digest is taken before the members are wiped. The compression function
runs once more on what is left of them. -/
def final (ctx : SHA1 σ) : Option (SHA1 σ) := do
  let count := finalcount ctx
  let ctx ← update transform ctx [0x80, 0] 1
  let ctx ← padLoop transform ctx
  let ctx ← update transform ctx count 8
  let buffer := List.replicate 64 0
  some ⟨transform (wipe ctx.m_state) buffer, 0, 0, buffer, digestBytes ctx.m_state⟩

section Api

/-- What a constructed object holds before its first use is not initialised. -/
def sha1 (buffer digest : List UInt8) : SHA1 Words := reset initial ⟨initial, 0, 0, buffer, digest⟩

def wiped (_ : Words) : Words := ⟨0, 0, 0, 0, 0⟩

def getDataSHA1 (buffer digest : List UInt8) (data : List UInt8) (dataSize : Nat) :
    Option (List UInt8) := do
  let ctx ← updateData (update Sha1.transform) data dataSize (sha1 buffer digest) 0
  let ctx ← final Sha1.transform Sha1.digestBytes wiped ctx
  some (hexText ctx.m_digest)

def getFileSHA1 (buffer digest : List UInt8) (file : Option (List UInt8)) :
    Option (List UInt8) :=
  match file with
  | none => some []
  | some contents => do
    let ctx ← updateFile (update Sha1.transform) contents (List.replicate 1024 0)
      (sha1 buffer digest)
    let ctx ← final Sha1.transform Sha1.digestBytes wiped ctx
    some (hexText ctx.m_digest)

end Api

end Ashe.Sha1
