import Ashe.Crc32
import Ashe.ReflectedCrc
import Mathlib.Algebra.Group.Nat.Defs

namespace Ashe.Crc32Bitwise

open Crc32 HashInput ReflectedCrc

def polynomial : BitVec 32 := 0xEDB88320

/-- The bits of a message in the order in which a reflected CRC takes them. -/
def messageBits (message : List UInt8) : List Bool :=
  message.flatMap fun byte => bits 8 byte.toBitVec

def crc32 (message : List UInt8) : UInt32 :=
  UInt32.ofBitVec (feed polynomial 0xFFFFFFFF (messageBits message) ^^^ 0xFFFFFFFF)

theorem crc32tab_eq : crc32tab =
    (List.range 256).map fun i => UInt32.ofBitVec (entry polynomial 8 (BitVec.ofNat 8 i)) := by
  decide +kernel

theorem crc32tab_entry (i : BitVec 8) :
    crc32tab[i.toNat]? = some (UInt32.ofBitVec (entry polynomial 8 i)) := by
  rw [crc32tab_eq, List.getElem?_map, List.getElem?_range i.isLt]
  simp

theorem index_toNat (ulCRC32 : UInt32) (byte : UInt8) :
    (byte.toUInt32 ^^^ (ulCRC32 &&& 0x000000FF)).toNat =
      (ulCRC32.toBitVec.setWidth 8 ^^^ byte.toBitVec).toNat := by
  rw [UInt32.toNat_xor, UInt32.toNat_and, UInt8.toNat_toUInt32, BitVec.toNat_xor,
    BitVec.toNat_setWidth, Nat.xor_comm]
  exact congrArg (· ^^^ byte.toNat) (Nat.and_two_pow_sub_one_eq_mod ulCRC32.toNat 8)

theorem byte_step (ulCRC32 : UInt32) (byte : UInt8) : ∃ entry,
    crc32tab[(byte.toUInt32 ^^^ (ulCRC32 &&& 0x000000FF)).toNat]? = some entry ∧
      ((ulCRC32 >>> 8) ^^^ entry).toBitVec =
        feed polynomial ulCRC32.toBitVec (bits 8 byte.toBitVec) := by
  refine ⟨_, (index_toNat ulCRC32 byte).symm ▸ crc32tab_entry _, ?_⟩
  rw [feed_entry polynomial (by decide : 8 ≤ 32)]
  rfl

/-- The loop feeds the bits of the bytes that are left of the chunk. -/
theorem updateLoop_feed (chunk behind : List UInt8) : ∀ (done : List UInt8) (ulCRC32 : UInt32),
    (done ++ chunk).length < 2 ^ 32 → ∃ ulCRC32',
      updateLoop (done ++ (chunk ++ behind)) (UInt32.ofNat (done ++ chunk).length) ulCRC32
        (UInt32.ofNat done.length) = some ulCRC32' ∧
      ulCRC32'.toBitVec = feed polynomial ulCRC32.toBitVec (messageBits chunk) := by
  induction chunk with
  | nil =>
      intro done ulCRC32 _
      refine ⟨ulCRC32, ?_, rfl⟩
      rw [updateLoop, if_neg (by rw [List.append_nil]; exact UInt32.lt_irrefl _)]
  | cons byte chunk ih =>
      intro done ulCRC32 hlen
      have hlen' : done.length + 1 ≤ (done ++ byte :: chunk).length := by
        rw [List.length_append, List.length_cons]
        omega
      have hi : (UInt32.ofNat done.length).toNat = done.length :=
        UInt32.toNat_ofNat_of_lt' (by show _ < 2 ^ 32; omega)
      have hlt : UInt32.ofNat done.length < UInt32.ofNat (done ++ byte :: chunk).length := by
        rw [UInt32.lt_iff_toNat_lt, hi, UInt32.toNat_ofNat_of_lt' hlen]
        omega
      have hnext : UInt32.ofNat done.length + 1 = UInt32.ofNat (done ++ [byte]).length := by
        rw [List.length_append, UInt32.ofNat_add]
        rfl
      have hbyte : (done ++ (byte :: chunk ++ behind))[done.length]? = some byte := by
        rw [List.getElem?_append_right (Nat.le_refl _), Nat.sub_self]
        rfl
      have hsplit (rest : List UInt8) : done ++ byte :: rest = done ++ [byte] ++ rest := by simp
      obtain ⟨entry, hentry, hstep⟩ := byte_step ulCRC32 byte
      obtain ⟨ulCRC32', hloop, hfeed⟩ := ih (done ++ [byte]) ((ulCRC32 >>> 8) ^^^ entry)
        (by rwa [← hsplit])
      refine ⟨ulCRC32', ?_, ?_⟩
      · rw [updateLoop, if_pos hlt, hi, hbyte, Option.bind_eq_bind, Option.bind_some, hentry,
          Option.bind_eq_bind, Option.bind_some, hnext, List.cons_append,
          hsplit (chunk ++ behind), hsplit chunk]
        exact hloop
      · rw [hfeed, hstep, ← feed_append]
        rfl

def Register (ulCRC32 : UInt32) (message : List UInt8) : Prop :=
  ulCRC32.toBitVec = feed polynomial 0xFFFFFFFF (messageBits message)

theorem update_absorbs : Absorbs update Register (2 ^ 32 - 1) := by
  intro ulCRC32 message chunk behind hR hc
  obtain ⟨ulCRC32', hloop, hfeed⟩ := updateLoop_feed chunk behind [] ulCRC32 (by
    show chunk.length < 2 ^ 32
    omega)
  refine ⟨ulCRC32', hloop, ?_⟩
  rw [Register, hfeed, hR, ← feed_append, messageBits, messageBits, messageBits,
    List.flatMap_append]

theorem init_register : Register init [] := rfl

theorem finish_register {ulCRC32 : UInt32} {message : List UInt8} (h : Register ulCRC32 message) :
    finish ulCRC32 = crc32 message := by
  rw [← UInt32.toBitVec_inj, crc32, ← h]
  exact (BitVec.xor_allOnes).symm

/-- The table-driven CRC of a message is the bitwise one, in whatever chunks it comes;
and so are those of the data in memory and of a file. -/
theorem crc32_chunks (chunks : List (List UInt8)) (hc : ∀ chunk ∈ chunks, chunk.length < 2 ^ 32) :
    (updateChunks update init chunks).map finish = some (crc32 chunks.flatten) ∧
    getDataCRC32 chunks.flatten chunks.flatten.length = some (digest (crc32 chunks.flatten)) ∧
    getFileCRC32 (some chunks.flatten) = some (digest (crc32 chunks.flatten)) := by
  have hlimit : Absorbs update Register 10240 := update_absorbs.mono (by decide)
  refine ⟨?_, ?_, ?_⟩
  · obtain ⟨ulCRC32, hu, hR⟩ := update_absorbs.chunks
      (fun chunk hm => Nat.le_pred_of_lt (hc chunk hm)) init_register
    rw [hu, Option.map_some, finish_register hR]
    rfl
  · obtain ⟨ulCRC32, hu, hR⟩ := hlimit.data chunks.flatten init_register
    rw [getDataCRC32, hu, Option.bind_eq_bind, Option.bind_some, finish_register hR]
  · obtain ⟨ulCRC32, hu, hR⟩ := @Absorbs.file _ _ _ hlimit _ _ chunks.flatten
      (List.replicate 1024 0) init_register
    rw [getFileCRC32, hu, Option.bind_eq_bind, Option.bind_some, finish_register hR]
    rfl

theorem crc32_chunks_check :
    (updateChunks update init ["123".toList.map HexEncode.ascii, [],
        "456789".toList.map HexEncode.ascii]).map finish =
      some (crc32 ("123456789".toList.map HexEncode.ascii)) ∧
    getDataCRC32 ("123456789".toList.map HexEncode.ascii) 9 =
      some (digest (crc32 ("123456789".toList.map HexEncode.ascii))) ∧
    getFileCRC32 (some ("123456789".toList.map HexEncode.ascii)) =
      some (digest (crc32 ("123456789".toList.map HexEncode.ascii))) :=
  crc32_chunks ["123".toList.map HexEncode.ascii, [], "456789".toList.map HexEncode.ascii]
    (by decide)

example : crc32 ("123456789".toList.map HexEncode.ascii) = 0xCBF43926 := by
  decide +kernel

end Ashe.Crc32Bitwise
