import Ashe.Base64
import Ashe.Decimal
import Ashe.StrSplit

namespace Ashe.Rsa

open HexEncode (ascii)
open Decimal

structure PublicKey where
  modulus : Int64
  exponent : Int64

structure PrivateKey where
  modulus : Int64
  exponent : Int64

def euclidLoop (a gcd x y u v : Int64) : Int64 :=
  if _h : a = 0 then y
  else
    let q := gcd / a
    let r := gcd % a
    euclidLoop r a u v (x - u * q) (y - v * q)
termination_by a.toInt.natAbs
decreasing_by
  rw [Int64.toInt_mod, Int.natAbs_tmod]
  have hne : a.toInt ≠ 0 := fun h => _h (Int64.toInt_inj.mp h)
  exact Nat.mod_lt _ (Int.natAbs_pos.mpr hne)

def extEuclid (a b : Int64) : Int64 := euclidLoop a b 0 1 1 0

/-- The last loop of modmult, which does not overflow. -/
def doubleAndAdd (a b mod sum : Int64) : Int64 :=
  if 0 < b then
    let sum := if b &&& 1 ≠ 0 then (sum + a) % mod else sum
    doubleAndAdd (2 * a % mod) (b >>> 1) mod sum
  else sum
termination_by b.toInt.toNat
decreasing_by
  have hb : 0 < b.toInt := Int64.lt_iff_toInt_lt.mp ‹0 < b›
  rw [SignedWords.toInt_shiftRight_one]
  omega

theorem neg_one_mul_div (b : Int64) : -1 * b / -1 = b := by
  have hdiv : -1 * b / -1 = -(-b) := by
    rw [← Int64.neg_eq_neg_one_mul]
    apply Int64.toInt_inj.mp
    rw [Int64.toInt_div, Int64.toInt_neg (-b)]
    show ((-b).toInt.tdiv (-1)).bmod (2 ^ 64) = _
    rw [Int.tdiv_neg, Int.tdiv_one]
  rw [hdiv, Int64.neg_neg]

def modmult (a b mod : Int64) : Int64 :=
  if _h0 : a = 0 then 0
  -- if multiplication does not overflow, we can use it
  else if _hd : a * b / a = b then a * b % mod
  else
    -- both calls of the source give this product
    let product := modmult (a >>> 1) b mod
    if a &&& 1 ≠ 0 ∧ product < product <<< 1 then (product <<< 1 % mod + b) % mod
    else if product < product <<< 1 then product <<< 1 % mod
    else doubleAndAdd a b mod 0
termination_by a.toInt.natAbs
decreasing_by
  have hzero : a.toInt ≠ 0 := fun h => _h0 (Int64.toInt_inj.mp h)
  have hneg : a.toInt ≠ -1 := by
    intro h
    obtain rfl : a = -1 := Int64.toInt_inj.mp h
    exact _hd (neg_one_mul_div b)
  rw [SignedWords.toInt_shiftRight_one]
  omega

def modExpLoop (product b e m : Int64) : Int64 :=
  if 0 < e then
    let product := if e &&& 1 ≠ 0 then modmult product b m else product
    modExpLoop product (modmult b b m) (e >>> 1) m
  else product
termination_by e.toInt.toNat
decreasing_by
  have he : 0 < e.toInt := Int64.lt_iff_toInt_lt.mp ‹0 < e›
  rw [SignedWords.toInt_shiftRight_one]
  omega

def rsaModExp (b e m : Int64) : Int64 :=
  if b < 0 ∨ e < 0 ∨ m ≤ 0 then -1 else modExpLoop 1 (b % m) e m

/-- The loop that makes d positive; it need not end for any phi_max. -/
def makePositive (phiMax : Int64) : Nat → Int64 → Option Int64
  | 0, _ => none
  | n + 1, d => if d < 0 then makePositive phiMax n (d + phiMax) else some d

def rsaGenKeys (n : Nat) (p q : Int64) : Option (PublicKey × PrivateKey) := do
  let e := ((2 : Int64) <<< 16) + 1
  let max := p * q
  let phiMax := (p - 1) * (q - 1)
  let d ← makePositive phiMax n (extEuclid phiMax e)
  some (⟨max, e⟩, ⟨max, d⟩)

/-- The inner RSAEncrypt; no result is the null pointer. -/
def encryptMessage (message : List UInt8) (pub : PublicKey) : Option (List Int64) :=
  message.mapM fun m =>
    let encrypted := rsaModExp (Int64.ofNat m.toNat) pub.exponent pub.modulus
    if encrypted = -1 then none else some encrypted

/-- The inner RSADecrypt. It is given the size of the array, a multiple of
sizeof(long long). -/
def decryptMessage (message : List Int64) (priv : PrivateKey) : Option (List UInt8) :=
  message.mapM fun m =>
    let temp := UInt8.ofInt (rsaModExp m priv.exponent priv.modulus).toInt
    -- a uint8_t is never -1
    if (temp.toNat : Int) = -1 then none else some temp

def addZeroToFront (src : List UInt8) (fixedLen : Nat) : List UInt8 :=
  if fixedLen < src.length then []
  else List.replicate (fixedLen - src.length) (ascii '0') ++ src

def removeLoop : Bool → List UInt8 → List UInt8
  | _, [] => []
  | findNoZero, c :: src =>
      if findNoZero then c :: removeLoop findNoZero src
      else if c ≠ ascii '0' then c :: removeLoop true src
      else removeLoop findNoZero src

def removeFrontZero (src : List UInt8) : List UInt8 :=
  if src.length = 1 then src else removeLoop false src

def keyText (modulus exponent : Int64) : List UInt8 :=
  addZeroToFront (toStdString modulus) 20 ++ addZeroToFront (toStdString exponent) 20

def genKeys (n : Nat) (p q : Int64) : Option (List UInt8 × List UInt8) := do
  let (pub, priv) ← rsaGenKeys n p q
  let pubText ← Base64.encode n (keyText pub.modulus pub.exponent) false
  let privText ← Base64.encode n (keyText priv.modulus priv.exponent) false
  some (pubText, privText)

def readKey (text : List UInt8) : Int64 × Int64 :=
  (atoll (removeFrontZero (text.take 20)), atoll (removeFrontZero (text.drop 20)))

def numbersText : List Int64 → List UInt8
  | [] => []
  | [m] => toStdString m
  | m :: message => toStdString m ++ ascii ',' :: numbersText message

def rsaEncrypt (n : Nat) (plain pub cipher : List UInt8) : Option (Bool × List UInt8) :=
  if plain = [] ∨ pub = [] then some (false, cipher)
  else
    let un64 := Base64.decode pub false
    if un64.length ≠ 40 then some (false, cipher)
    else
      let key := readKey un64
      match encryptMessage plain ⟨key.1, key.2⟩ with
      | none => some (false, cipher)
      | some numberBuffer => do
          let cipher ← Base64.encode n (numbersText numberBuffer) false
          some (true, cipher)

def rsaDecrypt (n : Nat) (cipher priv plain : List UInt8) : Option (Bool × List UInt8) :=
  if cipher = [] ∨ priv = [] then some (false, plain)
  else
    let un64 := Base64.decode priv false
    if un64.length ≠ 40 then some (false, plain)
    else
      let key := readKey un64
      let strCipher := Base64.decode cipher false
      if strCipher = [] then some (false, plain)
      else do
        let numberStrList ← StrSplit.strSplit n strCipher [ascii ','] true
        if [] ∈ numberStrList then some (false, plain)
        else
          match decryptMessage (numberStrList.map atoll) ⟨key.1, key.2⟩ with
          | none => some (false, plain)
          | some buffer => some (true, plain ++ buffer)

end Ashe.Rsa
