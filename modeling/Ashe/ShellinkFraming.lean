import Ashe.ShellinkParser

namespace Ashe.ShellinkFraming

open ByteWords FileReading ShellinkParser

section Fields

variable {malloc : Nat → Bool} {e f : ShellinkErr} {n : Nat}

theorem reads_read16 : Reads read16 2 := (reads_fread _ 2).bind fun _ => reads_pure _

theorem reads_read32 : Reads read32 4 := (reads_fread _ 4).bind fun _ => reads_pure _

theorem reads_field16 (update : UInt16 → ExtraData → ExtraData) : Reads (field16 update) 2 :=
  reads_read16.bind fun _ => reads_modify _

theorem reads_field32 (update : UInt32 → ExtraData → ExtraData) : Reads (field32 update) 4 :=
  reads_read32.bind fun _ => reads_modify _

theorem framed_readStr (hn : 0 < n) : Framed (readStr malloc e f n) n := by
  rw [readStr, if_neg (by omega)]
  refine framed_ite (fun _ => framed_fail ..) fun _ => ?_
  exact ((reads_fread _ n).bind fun _ => reads_pure _).framed

theorem framed_readWStr : Framed (readWStr malloc e f n) (n / 2 * 2) := by
  refine framed_ite (fun _ => framed_fail ..) fun _ =>
    framed_ite (fun _ => framed_fail ..) fun _ => ?_
  exact ((reads_fread _ _).bind fun _ => reads_pure _).framed

theorem reads_readWStr (hn : n / 2 ≠ 0) (h : malloc ((n / 2 + 1) * 2) = true) :
    Reads (readWStr malloc e f n) (n / 2 * 2) := by
  rw [readWStr, if_neg hn, if_neg (by simp [h])]
  exact (reads_fread _ _).bind fun _ => reads_pure _

theorem readWStr_fails (h : malloc ((n / 2 + 1) * 2) = false) (s : Session ExtraData) :
    success (readWStr malloc e f n) s = none := by
  rw [readWStr, if_pos h]
  split <;> exact success_fail ..

end Fields

section Console

variable {malloc : Nat → Bool}

theorem reads_readConsoleWindow : Reads readConsoleWindow 16 :=
  ((reads_field16 _).bind fun _ => (reads_field16 _).bind fun _ => (reads_field16 _).bind fun _ =>
    (reads_field16 _).bind fun _ => (reads_field16 _).bind fun _ => (reads_field16 _).bind fun _ =>
    (reads_field16 _).bind fun _ => reads_field16 _).of_eq rfl

theorem reads_readConsoleFont (h : malloc 34 = true) : Reads (readConsoleFont malloc) 44 :=
  ((reads_field32 _).bind fun _ => (reads_field32 _).bind fun _ => (reads_field32 _).bind fun _ =>
    (reads_readWStr (by decide) h).bind fun _ => reads_modify _).of_eq rfl

theorem reads_readConsoleModes : Reads readConsoleModes 36 :=
  ((reads_field32 _).bind fun _ => (reads_field32 _).bind fun _ => (reads_field32 _).bind fun _ =>
    (reads_field32 _).bind fun _ => (reads_field32 _).bind fun _ => (reads_field32 _).bind fun _ =>
    (reads_field32 _).bind fun _ => (reads_field32 _).bind fun _ => reads_field32 _).of_eq rfl

theorem reads_readColorTable : Reads readColorTable 64 :=
  (reads_forM (fun _ => reads_field32 _) (List.range 16)).of_eq rfl

/-- The fields of the console block take 28 bytes less than the block has for them. -/
theorem reads_readConsoleFields (h : malloc 34 = true) : Reads (readConsoleFields malloc) 168 := by
  have hfont := (reads_readConsoleFont h).bind fun _ =>
    reads_readConsoleModes.bind fun _ => reads_readColorTable
  exact reads_readConsoleWindow.bind fun _ => hfont.skip (by decide) 8

theorem readConsoleFields_fails (h : malloc 34 = false) (s : Session ExtraData) :
    success (readConsoleFields malloc) s = none := by
  have hfont (s : Session ExtraData) : success (readConsoleFont malloc) s = none := by
    refine success_bind_none fun _ _ => success_bind_none fun _ _ => success_bind_none fun _ s => ?_
    rw [success_bind, readWStr_fails h]
    rfl
  refine success_bind_none fun _ _ => success_bind_none fun _ s => ?_
  rw [success_bind, hfont]
  rfl

theorem console_success_iff {size : UInt32} {s : Session ExtraData} :
    (∃ p, success (readEConsoleDataBlock malloc size) s = some p) ↔
      size = ConsoleDataBlock.BlockSize ∧ malloc 34 = true ∧ s.file.Holds 168 := by
  rw [readEConsoleDataBlock]
  by_cases hsize : size = ConsoleDataBlock.BlockSize
  · rw [if_neg (by simp [hsize])]
    by_cases hm : malloc 34 = true
    · rw [(reads_readConsoleFields hm).success_iff]
      simp [hsize, hm]
    · simp [readConsoleFields_fails (Bool.eq_false_iff.mpr hm), hm]
  · rw [if_pos hsize]
    simp [success_fail, hsize]

theorem framed_console (size : UInt32) : Framed (readEConsoleDataBlock malloc size) 168 := by
  refine framed_ite (fun _ => framed_fail ..) fun _ => ?_
  by_cases hm : malloc 34 = true
  · exact (reads_readConsoleFields hm).framed
  · refine ⟨fun _ _ => none, fun s => ?_⟩
    rw [readConsoleFields_fails (Bool.eq_false_iff.mpr hm)]
    split <;> rfl

end Console

section Readers

variable {malloc : Nat → Bool} {size sig : UInt32}

/-- The bytes that a reader takes behind the header of a block, the reader of an id list
apart. -/
def taken (sig size : UInt32) : Nat :=
  if sig = ConsoleDataBlock.BlockSignature then 168
  else if sig = ShimDataBlock.BlockSignature then (size.toNat - 8) / 2 * 2
  else size.toNat - 8

theorem framed_consoleFE : Framed (readEConsoleFEDataBlock size) (size.toNat - 8) := by
  refine framed_ite (fun _ => framed_fail ..) fun h => ?_
  rw [not_not.mp h]
  exact (reads_field32 _).framed

/-- The blocks that are two strings are taken at one size only. -/
theorem framed_readTwoStrings {err errAnsi errUnicode : ShellinkErr}
    {storeAnsi : List UInt8 → ExtraData → ExtraData}
    {storeUnicode : List UInt16 → ExtraData → ExtraData} :
    Framed (if size ≠ 0x00000314 then fail err
      else readTwoStrings malloc errAnsi errUnicode storeAnsi storeUnicode) (size.toNat - 8) := by
  refine framed_ite (fun _ => framed_fail ..) fun h => ?_
  rw [not_not.mp h]
  exact (framed_readStr (by decide)).bind fun _ => (reads_modify _).framed.bind fun _ =>
    framed_readWStr.bind fun _ => (reads_modify _).framed

theorem framed_darwin : Framed (readEDarwinDataBlock malloc size) (size.toNat - 8) :=
  framed_readTwoStrings

theorem framed_environmentVariable :
    Framed (readEEnvironmentVariableDataBlock malloc size) (size.toNat - 8) :=
  framed_readTwoStrings

theorem framed_iconEnvironment :
    Framed (readEIconEnvironmentDataBlock malloc size) (size.toNat - 8) :=
  framed_readTwoStrings

theorem framed_knownFolder : Framed (readEKnownFolderDataBlock malloc size) (size.toNat - 8) := by
  refine framed_ite (fun _ => framed_fail ..) fun h => ?_
  rw [not_not.mp h]
  exact (framed_readStr (by decide)).bind fun _ => (reads_modify _).framed.bind fun _ =>
    (reads_field32 _).framed

theorem sub_eight (h : 8 ≤ size.toNat) : (size - 8).toNat = size.toNat - 8 :=
  UInt32.toNat_sub_of_le size 8 (UInt32.le_iff_toNat_le.mpr h)

theorem framed_propertyStore :
    Framed (readEPropertyStoreDataBlock malloc size) (size.toNat - 8) := by
  refine framed_ite (fun _ => framed_fail ..) fun h => ?_
  have hsize : 12 ≤ size.toNat := Nat.le_of_not_lt fun hlt => h (UInt32.lt_iff_toNat_lt.mpr hlt)
  have hsub := sub_eight (by omega : 8 ≤ size.toNat)
  exact ((reads_modify _).framed.bind fun _ => (framed_readStr (by omega)).bind fun _ =>
    (reads_modify _).framed).of_eq (by omega)

theorem framed_shim : Framed (readEShimDataBlock malloc size) ((size.toNat - 8) / 2 * 2) := by
  refine framed_ite (fun _ => framed_fail ..) fun h => ?_
  have hsize : 0x88 ≤ size.toNat := Nat.le_of_not_lt fun hlt => h (UInt32.lt_iff_toNat_lt.mpr hlt)
  have hsub := sub_eight (by omega : 8 ≤ size.toNat)
  exact ((reads_modify _).framed.bind fun _ => framed_readWStr.bind fun _ =>
    (reads_modify _).framed).of_eq (by rw [hsub]; omega)

theorem framed_specialFolder : Framed (readESpecialFolderDataBlock size) (size.toNat - 8) := by
  refine framed_ite (fun _ => framed_fail ..) fun h => ?_
  rw [not_not.mp h]
  exact ((reads_field32 _).bind fun _ => reads_field32 _).framed

theorem framed_tracker : Framed (readETrackerDataBlock malloc size) (size.toNat - 8) := by
  refine framed_ite (fun _ => framed_fail ..) fun h => ?_
  rw [not_not.mp h]
  exact (reads_read32.framed.bind fun _ => (reads_modify _).framed.bind fun _ =>
    framed_ite (fun _ => framed_fail ..) fun _ =>
      reads_read32.framed.bind fun _ => (reads_modify _).framed.bind fun _ =>
      framed_ite (fun _ => framed_fail ..) fun _ =>
        (framed_readStr (by decide)).bind fun _ => (reads_modify _).framed.bind fun _ =>
        (framed_readStr (by decide)).bind fun _ => (reads_modify _).framed.bind fun _ =>
        (framed_readStr (by decide)).bind fun _ => (reads_modify _).framed).of_eq rfl

/-- Every reader but that of an id list looks at the bytes it takes and no others. -/
theorem framed_readBlock (hsig : sig ≠ VistaAndAboveIDListDataBlock.BlockSignature) :
    Framed (readBlock malloc sig size) (taken sig size) := by
  rw [taken]
  refine framed_ite (fun h => ?_) fun hconsole => ?_
  · rw [if_pos h]
    exact framed_console size
  rw [if_neg hconsole]
  have hother {m m' : Reader Unit} {sig' : UInt32} (hsig' : sig' ≠ ShimDataBlock.BlockSignature)
      (h : Framed m (size.toNat - 8)) (h' : Framed m' (if sig = ShimDataBlock.BlockSignature then
        (size.toNat - 8) / 2 * 2 else size.toNat - 8)) :
      Framed (if sig = sig' then m else m') (if sig = ShimDataBlock.BlockSignature then
        (size.toNat - 8) / 2 * 2 else size.toNat - 8) := by
    refine framed_ite (fun heq => ?_) fun _ => h'
    rwa [if_neg (by rw [heq]; exact hsig')]
  refine hother (by decide) framed_consoleFE (hother (by decide) framed_darwin
    (hother (by decide) framed_environmentVariable (hother (by decide) framed_iconEnvironment
    (hother (by decide) framed_knownFolder (hother (by decide) framed_propertyStore
    (framed_ite (fun h => ?_) fun _ => hother (by decide) framed_specialFolder
    (hother (by decide) framed_tracker (framed_ite (fun h => absurd h hsig) fun _ =>
    framed_fail ..))))))))
  rw [if_pos h]
  exact framed_shim

end Readers

section Blocks

variable {malloc : Nat → Bool} {bytes : List UInt8} {start : Nat}

def sizeAt (bytes : List UInt8) (start : Nat) : UInt32 :=
  UInt32.ofNat (ofLittleEndian ((bytes.drop start).take 4))

def signatureAt (bytes : List UInt8) (start : Nat) : UInt32 := sizeAt bytes (start + 4)

def idListSizeAt (bytes : List UInt8) (start : Nat) : Nat :=
  (UInt16.ofNat (ofLittleEndian ((bytes.drop (start + 8)).take 2))).toNat

theorem success_read32 (s : Session ExtraData) : success read32 s =
    if s.file.Holds 4 then
      some (sizeAt s.file.bytes s.file.pos, { s with file := s.file.advance 4 })
    else none := by
  rw [read32, success_bind, success_fread]
  split
  next => rfl
  next => rfl

theorem success_read16 (s : Session ExtraData) : success read16 s =
    if s.file.Holds 2 then
      some (UInt16.ofNat (ofLittleEndian (s.file.window 2)),
        { s with file := s.file.advance 2 })
    else none := by
  rw [read16, success_bind, success_fread]
  split
  next => rfl
  next => rfl

theorem success_readExtraBlock (o : ExtraData) :
    success (readExtraBlock malloc) ⟨⟨bytes, start⟩, o⟩ =
      if start + 8 ≤ bytes.length then
        success (readBlock malloc (signatureAt bytes start) (sizeAt bytes start))
          ⟨⟨bytes, start + 8⟩, o⟩
      else none := by
  rw [readExtraBlock, success_bind, success_read32]
  by_cases h : start + 8 ≤ bytes.length
  · rw [if_pos (.inr (by simpa using by omega)), if_pos h, Option.bind_some, success_bind,
      success_read32, if_pos (.inr (by simpa [File.advance] using by omega)), Option.bind_some]
    rfl
  · rw [if_neg h]
    by_cases h4 : start + 4 ≤ bytes.length
    · rw [if_pos (.inr h4), Option.bind_some, success_bind, success_read32, if_neg]
      · rfl
      · simp only [File.Holds, File.advance]
        omega
    · rw [if_neg]
      · rfl
      · simp only [File.Holds]
        omega

/-- A block that is taken in the size its header states: not the console block, a shim
block of an even size, an id list that fills the rest of its block. -/
structure Exact (malloc : Nat → Bool) (bytes : List UInt8) (start : Nat) : Prop where
  console : signatureAt bytes start = ConsoleDataBlock.BlockSignature →
    sizeAt bytes start = ConsoleDataBlock.BlockSize → malloc 34 = true →
    bytes.length < start + 176
  shim : signatureAt bytes start = ShimDataBlock.BlockSignature →
    0x88 ≤ (sizeAt bytes start).toNat →
    malloc ((((sizeAt bytes start).toNat - 8) / 2 + 1) * 2) = true →
    start + 8 + ((sizeAt bytes start).toNat - 8) / 2 * 2 ≤ bytes.length →
    (sizeAt bytes start).toNat % 2 = 0
  idList : signatureAt bytes start = VistaAndAboveIDListDataBlock.BlockSignature →
    10 ≤ (sizeAt bytes start).toNat → start + 10 ≤ bytes.length →
    (sizeAt bytes start).toNat = 10 + min (idListSizeAt bytes start) (bytes.length - (start + 10))

theorem shim_success_iff {size : UInt32} {s : Session ExtraData} :
    (∃ p, success (readEShimDataBlock malloc size) s = some p) ↔
      0x88 ≤ size.toNat ∧ malloc (((size.toNat - 8) / 2 + 1) * 2) = true ∧
        s.file.Holds ((size.toNat - 8) / 2 * 2) := by
  rw [readEShimDataBlock]
  by_cases hsize : size < 0x88
  · have hlt : ¬0x88 ≤ size.toNat := Nat.not_le_of_lt (UInt32.lt_iff_toNat_lt.mp hsize)
    simp [hsize, success_fail, hlt]
  · have hle : 0x88 ≤ size.toNat :=
      Nat.le_of_not_lt fun hlt => hsize (UInt32.lt_iff_toNat_lt.mpr hlt)
    have hsub := sub_eight (by omega : 8 ≤ size.toNat)
    rw [if_neg hsize]
    by_cases hm : malloc (((size.toNat - 8) / 2 + 1) * 2) = true
    · have hreads := (reads_modify (fun x => { x with shimDB.blockSize := size }) :
        Reads (FileReading.modify _ : Reader Unit) 0).bind fun _ =>
          (reads_readWStr (e := .SHLLINK_ERR_NULLPEXTD) (f := ShellinkErr.SHLLINK_ERR_FIO)
            (by omega : (size.toNat - 8) / 2 ≠ 0) hm).bind fun name =>
          reads_modify fun x : ExtraData => { x with shimDB.layerName := name }
      rw [hsub, hreads.success_iff]
      simp [hle, hm]
    · have hfails (s : Session ExtraData) : success (readWStr malloc .SHLLINK_ERR_NULLPEXTD
          ShellinkErr.SHLLINK_ERR_FIO (size - 8).toNat) s = none := by
        rw [hsub]
        exact readWStr_fails (Bool.eq_false_iff.mpr hm) s
      rw [success_bind_none fun _ s => by rw [success_bind, hfails]; rfl]
      simp [hm]

def idListStored (size : UInt32) (count : Nat) (data : List UInt8) (o : ExtraData) : ExtraData :=
  { o with vistaAboveIDListDB :=
    { blockSize := size, wholeIDList := readOver o.vistaAboveIDListDB.wholeIDList count data } }

theorem success_idList (size : UInt32) (o : ExtraData) :
    success (readEVistaAndAboveIDListDataBlock size) ⟨⟨bytes, start + 8⟩, o⟩ =
      if 10 ≤ size.toNat ∧ start + 10 ≤ bytes.length then
        let data := (bytes.drop (start + 10)).take (idListSizeAt bytes start)
        some ((), ⟨⟨bytes, start + 10 + data.length⟩,
          idListStored size (idListSizeAt bytes start) data o⟩)
      else none := by
  rw [readEVistaAndAboveIDListDataBlock]
  by_cases hsize : size < 0x0000000A
  · have hlt : ¬10 ≤ size.toNat := Nat.not_le_of_lt (UInt32.lt_iff_toNat_lt.mp hsize)
    rw [if_pos hsize, if_neg fun h => hlt h.1, success_fail]
  · have hle : 10 ≤ size.toNat :=
      Nat.le_of_not_lt fun hlt => hsize (UInt32.lt_iff_toNat_lt.mpr hlt)
    have hmodify (f : ExtraData → ExtraData) (s : Session ExtraData) :
        success (FileReading.modify f : Reader Unit) s =
          some ((), { s with object := f s.object }) := rfl
    rw [if_neg hsize, success_bind, hmodify, Option.bind_some, success_bind, success_read16]
    by_cases hlen : start + 10 ≤ bytes.length
    · rw [if_pos (.inr hlen), if_pos ⟨hle, hlen⟩]
      rfl
    · have hshort : ¬(⟨bytes, start + 8⟩ : File).Holds 2 := by
        simp only [File.Holds]
        omega
      rw [if_neg hshort, if_neg fun h => hlen h.2]
      rfl

theorem readBlock_idList (malloc : Nat → Bool) (size : UInt32) :
    readBlock malloc VistaAndAboveIDListDataBlock.BlockSignature size =
      readEVistaAndAboveIDListDataBlock size := rfl

theorem readBlock_console (malloc : Nat → Bool) (size : UInt32) :
    readBlock malloc ConsoleDataBlock.BlockSignature size = readEConsoleDataBlock malloc size := rfl

theorem readBlock_shim (malloc : Nat → Bool) (size : UInt32) :
    readBlock malloc ShimDataBlock.BlockSignature size = readEShimDataBlock malloc size := rfl

/-- No reader answers for a block that is shorter than its header. -/
theorem readBlock_short {sig size : UInt32} (hsize : size.toNat < 8) (s : Session ExtraData) :
    success (readBlock malloc sig size) s = none := by
  have hconst {c : UInt32} (hc : 8 ≤ c.toNat) (m : Reader Unit) :
      success (if size ≠ c then fail .SHLLINK_ERRX_WRONGSIZE else m) s = none := by
    have hne : size ≠ c := by
      rintro rfl
      omega
    rw [if_pos hne, success_fail]
  have hbound {c : UInt32} (hc : 8 ≤ c.toNat) (m : Reader Unit) :
      success (if size < c then fail .SHLLINK_ERRX_WRONGSIZE else m) s = none := by
    rw [if_pos (UInt32.lt_iff_toNat_lt.mpr (Nat.lt_of_lt_of_le hsize hc)), success_fail]
  have hite {c : Prop} [Decidable c] {m m' : Reader Unit} (h : success m s = none)
      (h' : success m' s = none) : success (if c then m else m') s = none := by
    split
    · exact h
    · exact h'
  exact hite (hconst (by decide) _) (hite (hconst (by decide) _) (hite (hconst (by decide) _)
    (hite (hconst (by decide) _) (hite (hconst (by decide) _) (hite (hconst (by decide) _)
    (hite (hbound (by decide) _) (hite (hbound (by decide) _) (hite (hconst (by decide) _)
    (hite (hconst (by decide) _) (hite (hbound (by decide) _) (success_fail ..)))))))))))

theorem taken_eq (hexact : Exact malloc bytes start) {s s' : Session ExtraData}
    (hroom : ∀ n, s.file.Holds n → (⟨bytes, start + 8⟩ : File).Holds n)
    (hs : success (readBlock malloc (signatureAt bytes start) (sizeAt bytes start)) s =
      some ((), s')) :
    8 + taken (signatureAt bytes start) (sizeAt bytes start) = (sizeAt bytes start).toNat := by
  have hsize : 8 ≤ (sizeAt bytes start).toNat := by
    refine Nat.le_of_not_lt fun hlt => ?_
    rw [readBlock_short hlt] at hs
    exact absurd hs (by simp)
  rw [taken]
  by_cases hconsole : signatureAt bytes start = ConsoleDataBlock.BlockSignature
  · rw [hconsole, readBlock_console] at hs
    obtain ⟨h, hm, hholds⟩ := console_success_iff.mp ⟨_, hs⟩
    have hshort := hexact.console hconsole h hm
    have hlong := hroom _ hholds
    simp only [File.Holds] at hlong
    omega
  · rw [if_neg hconsole]
    split
    next hshim =>
      rw [hshim, readBlock_shim] at hs
      obtain ⟨h, hm, hholds⟩ := shim_success_iff.mp ⟨_, hs⟩
      have hlong := hroom _ hholds
      simp only [File.Holds] at hlong
      have heven := hexact.shim hshim h hm (by omega)
      omega
    next => omega

/-- A reader that answers has taken the stated size exactly if the block is one of those
that are taken so. -/
theorem block_exact_iff (malloc : Nat → Bool) (bytes : List UInt8) (start : Nat) (o : ExtraData) :
    (∀ s', readExtraBlock malloc ⟨⟨bytes, start⟩, o⟩ = (.ok (), s') →
        s'.file.pos = start + (sizeAt bytes start).toNat) ↔ Exact malloc bytes start := by
  simp only [← success_eq_some, success_readExtraBlock]
  constructor
  · intro h
    refine ⟨fun hsig hsize hm => Nat.lt_of_not_le fun hlen => ?_,
      fun hsig hsize hm hlen => ?_, fun hsig hsize hlen => ?_⟩
    · have hsuccess : ∃ p, success (readEConsoleDataBlock malloc (sizeAt bytes start))
          ⟨⟨bytes, start + 8⟩, o⟩ = some p := console_success_iff.mpr ⟨hsize, hm, .inr hlen⟩
      obtain ⟨⟨⟨⟩, s'⟩, hs⟩ := hsuccess
      rw [if_pos (by omega), hsig, readBlock_console] at h
      have hpos := h s' hs
      rw [(framed_console _).file hs, hsize] at hpos
      have h204 : start + 8 + 168 = start + 204 := hpos
      omega
    · have hsuccess : ∃ p, success (readEShimDataBlock malloc (sizeAt bytes start))
          ⟨⟨bytes, start + 8⟩, o⟩ = some p := shim_success_iff.mpr ⟨hsize, hm, .inr hlen⟩
      obtain ⟨⟨⟨⟩, s'⟩, hs⟩ := hsuccess
      rw [if_pos (by omega), hsig, readBlock_shim] at h
      have hpos := h s' hs
      rw [framed_shim.file hs] at hpos
      have heven : start + 8 + ((sizeAt bytes start).toNat - 8) / 2 * 2 =
        start + (sizeAt bytes start).toNat := hpos
      omega
    · rw [if_pos (by omega), hsig, readBlock_idList, success_idList, if_pos ⟨hsize, hlen⟩] at h
      have hpos : start + 10 + ((bytes.drop (start + 10)).take (idListSizeAt bytes start)).length =
        start + (sizeAt bytes start).toNat := h _ rfl
      rw [List.length_take, List.length_drop] at hpos
      omega
  · intro hexact s' hs
    split at hs
    next hlen =>
      by_cases hsig : signatureAt bytes start = VistaAndAboveIDListDataBlock.BlockSignature
      · rw [hsig, readBlock_idList, success_idList] at hs
        split at hs
        next h =>
          obtain ⟨-, rfl⟩ := Prod.mk.inj (Option.some.inj hs)
          have hsize := hexact.idList hsig h.1 h.2
          simp only [List.length_take, List.length_drop]
          omega
        next => exact absurd hs (by simp)
      · have htaken := taken_eq hexact (fun _ h => h) hs
        rw [(framed_readBlock hsig).file hs, ← htaken, ← Nat.add_assoc]
        rfl
    next => exact absurd hs (by simp)

end Blocks

section Sequences

variable {malloc : Nat → Bool}

def readAlone (malloc : Nat → Bool) (o : ExtraData) (block : List UInt8) : Option ExtraData :=
  (success (readExtraBlock malloc) ⟨⟨block, 0⟩, o⟩).map fun p => p.2.object

theorem sizeAt_inside (before block after : List UInt8) {i : Nat} (h : i + 4 ≤ block.length) :
    sizeAt (before ++ (block ++ after)) (before.length + i) = sizeAt block i := by
  rw [sizeAt, sizeAt, List.drop_length_add_append, List.drop_append_of_le_length (by omega),
    List.take_append_of_le_length (by rw [List.length_drop]; omega)]

theorem window_inside (before block after : List UInt8) {i n : Nat} (h : i + n ≤ block.length) :
    (⟨before ++ (block ++ after), before.length + i⟩ : File).window n =
      (⟨block, i⟩ : File).window n := by
  simp only [File.window]
  rw [List.drop_length_add_append, List.drop_append_of_le_length (by omega),
    List.take_append_of_le_length (by rw [List.length_drop]; omega)]

theorem idListSizeAt_inside (before block after : List UInt8) (h : 10 ≤ block.length) :
    idListSizeAt (before ++ (block ++ after)) before.length = idListSizeAt block 0 := by
  have hwindow := window_inside before block after (i := 8) (n := 2) (by omega)
  simp only [File.window] at hwindow
  rw [idListSizeAt, idListSizeAt, hwindow]

theorem idList_inside (before block after : List UInt8) {size : UInt32} {o : ExtraData}
    {s' : Session ExtraData}
    (hids : 10 ≤ size.toNat → 10 ≤ block.length → 10 + idListSizeAt block 0 = block.length)
    (hs : success (readEVistaAndAboveIDListDataBlock size) ⟨⟨block, 8⟩, o⟩ = some ((), s')) :
    success (readEVistaAndAboveIDListDataBlock size)
        ⟨⟨before ++ (block ++ after), before.length + 8⟩, o⟩ =
      some ((), ⟨⟨before ++ (block ++ after), (before ++ block).length⟩, s'.object⟩) := by
  rw [← Nat.zero_add 8, success_idList] at hs
  split at hs
  next h =>
    obtain ⟨-, rfl⟩ := Prod.mk.inj (Option.some.inj hs)
    have hids := hids h.1 (by omega)
    have hwindow := window_inside before block after (Nat.le_of_eq hids)
    simp only [File.window] at hwindow
    have hlength : ((block.drop 10).take (idListSizeAt block 0)).length =
        idListSizeAt block 0 := by
      rw [List.length_take, List.length_drop]
      omega
    rw [success_idList, if_pos ⟨h.1, by simp; omega⟩,
      idListSizeAt_inside before block after (by omega), hwindow]
    simp only [Nat.zero_add, hlength, List.length_append]
    rw [Nat.add_assoc, hids]
  next => exact absurd hs (by simp)

/-- A block that is taken in its size is read among others as it is read alone. -/
theorem readExtraBlock_inside (before block after : List UInt8) {o o' : ExtraData}
    (hsize : (sizeAt block 0).toNat = block.length) (hafter : after ≠ [])
    (hexact : Exact malloc (before ++ (block ++ after)) before.length)
    (halone : readAlone malloc o block = some o') :
    8 ≤ block.length ∧
    success (readExtraBlock malloc) ⟨⟨before ++ (block ++ after), before.length⟩, o⟩ =
      some ((), ⟨⟨before ++ (block ++ after), (before ++ block).length⟩, o'⟩) := by
  obtain ⟨⟨⟨⟩, s'⟩, hs, rfl⟩ := Option.map_eq_some_iff.mp halone
  rw [success_readExtraBlock, Nat.zero_add] at hs
  split at hs
  next hlen =>
    have hsizes : sizeAt (before ++ (block ++ after)) before.length = sizeAt block 0 :=
      sizeAt_inside before block after (i := 0) (by omega)
    have hsigs : signatureAt (before ++ (block ++ after)) before.length = signatureAt block 0 :=
      sizeAt_inside before block after (i := 4) (by omega)
    refine ⟨hlen, ?_⟩
    rw [success_readExtraBlock, if_pos (by simp; omega), hsizes, hsigs]
    by_cases hsig : signatureAt block 0 = VistaAndAboveIDListDataBlock.BlockSignature
    · rw [hsig, readBlock_idList] at hs ⊢
      refine idList_inside before block after (fun h10 hlen10 => ?_) hs
      have hmore := List.length_pos_of_ne_nil hafter
      have hfull := hexact.idList (hsigs.trans hsig) (by rwa [hsizes]) (by simp; omega)
      rw [hsizes, idListSizeAt_inside before block after hlen10, List.length_append,
        List.length_append] at hfull
      omega
    · rw [← hsigs, ← hsizes] at hs
      have htaken := taken_eq hexact (fun n hn => by
        simp only [File.Holds, List.length_append] at hn ⊢
        omega) hs
      rw [hsigs, hsizes] at htaken hs
      rw [hsize] at htaken
      have hwindow := window_inside before block after (Nat.le_of_eq htaken)
      have hholds : (⟨before ++ (block ++ after), before.length + 8⟩ : File).Holds
          (taken (signatureAt block 0) (sizeAt block 0)) := by
        simp only [File.Holds, List.length_append]
        omega
      rw [(framed_readBlock hsig).elsewhere hs
        (t := ⟨⟨before ++ (block ++ after), before.length + 8⟩, o⟩) hholds rfl hwindow]
      simp only [File.advance, List.length_append]
      rw [Nat.add_assoc, htaken]
  next => exact absurd hs (by simp)

theorem success_extraDataLoop (epos : Int) (i : Nat) (s : Session ExtraData) :
    success (extraDataLoop malloc epos (i + 1)) s =
      if epos ≤ (if s.file.pos < 2 ^ 31 then (s.file.pos : Int) else -1) then some ((), s)
      else (success (readExtraBlock malloc) s).bind fun p =>
        success (extraDataLoop malloc epos i) p.2 := by
  have hftell : success (ftell : Reader Int) s =
      some (if s.file.pos < 2 ^ 31 then (s.file.pos : Int) else -1, s) := rfl
  generalize (if s.file.pos < 2 ^ 31 then (s.file.pos : Int) else -1) = cpos at hftell ⊢
  rw [extraDataLoop, success_bind, hftell, Option.bind_some]
  split
  next => rfl
  next => rw [success_bind]

/-- In a file below 2 ^ 31 bytes the end is found, and the place before that again. -/
theorem success_loadExtraData {before after : List UInt8} {o : ExtraData}
    (h : (before ++ after).length < 2 ^ 31) :
    success (loadExtraData malloc) ⟨⟨before ++ after, before.length⟩, o⟩ =
      success (extraDataLoop malloc ((before ++ after).length - 4) kExtraDataBlockNum)
        ⟨⟨before ++ after, before.length⟩, o⟩ := by
  have hpos : before.length < 2 ^ 31 :=
    Nat.lt_of_le_of_lt (by rw [List.length_append]; exact Nat.le_add_right ..) h
  have hplace : ¬ (before.length : Int) < 0 := by omega
  have hftell {s : Session ExtraData} (hs : s.file.pos < 2 ^ 31) :
      success (ftell : Reader Int) s = some ((s.file.pos : Int), s) := by
    rw [success, ftell, if_pos hs]
  have hend (s : Session ExtraData) : success (fseekEnd : Reader Unit) s =
      some ((), { s with file.pos := s.file.bytes.length }) := rfl
  have hset (s : Session ExtraData) : success (fseekSet before.length : Reader Unit) s =
      some ((), { s with file.pos := before.length }) := by
    rw [success, fseekSet, if_neg hplace, Int.toNat_natCast]
  rw [loadExtraData, success_bind, hftell hpos, Option.bind_some, success_bind, hend,
    Option.bind_some, success_bind, hftell h, Option.bind_some, success_bind, hset,
    Option.bind_some]

/-- Blocks that are taken in their sizes are each read as they are alone, one after the
other. -/
theorem extraDataLoop_blocks {terminal : List UInt8} (hterminal : terminal.length = 4) (i : Nat) :
    ∀ (blocks : List (List UInt8)) (before : List UInt8) (o o' : ExtraData),
      (∀ block ∈ blocks, (sizeAt block 0).toNat = block.length) →
      (∀ done block rest, blocks = done ++ block :: rest →
        Exact malloc (before ++ (blocks.flatten ++ terminal)) (before ++ done.flatten).length) →
      (before ++ (blocks.flatten ++ terminal)).length < 2 ^ 31 →
      (blocks.take i).foldlM (readAlone malloc) o = some o' →
      success (extraDataLoop malloc ((before ++ (blocks.flatten ++ terminal)).length - 4) i)
          ⟨⟨before ++ (blocks.flatten ++ terminal), before.length⟩, o⟩ =
        some ((), ⟨⟨before ++ (blocks.flatten ++ terminal),
          (before ++ (blocks.take i).flatten).length⟩, o'⟩) := by
  induction i with
  | zero =>
      intro blocks before o o' _ _ _ hfold
      obtain rfl := Option.some.inj hfold
      rw [List.take_zero, List.flatten_nil, List.append_nil]
      rfl
  | succ i ih =>
      intro blocks before o o' hsize hexact hsmall hfold
      have hpos : before.length < 2 ^ 31 :=
        Nat.lt_of_le_of_lt (by rw [List.length_append]; exact Nat.le_add_right ..) hsmall
      rw [success_extraDataLoop, if_pos hpos]
      cases blocks with
      | nil =>
          obtain rfl := Option.some.inj hfold
          rw [if_pos (by simp; omega), List.take_nil, List.flatten_nil, List.append_nil]
      | cons block blocks =>
          obtain ⟨hb, hsize⟩ := List.forall_mem_cons.mp hsize
          rw [List.take_succ_cons, List.foldlM_cons] at hfold
          obtain ⟨o1, halone, hfold⟩ := Option.bind_eq_some_iff.mp hfold
          have hfirst := hexact [] block blocks rfl
          have hbytes : before ++ ((block :: blocks).flatten ++ terminal) =
              before ++ (block ++ (blocks.flatten ++ terminal)) := by simp
          have hbytes' : before ++ (block ++ (blocks.flatten ++ terminal)) =
              (before ++ block) ++ (blocks.flatten ++ terminal) := by simp
          rw [List.flatten_nil, List.append_nil, hbytes] at hfirst
          obtain ⟨hlen, hread⟩ := readExtraBlock_inside before block (blocks.flatten ++ terminal) hb
            (fun h => by rw [List.append_eq_nil_iff] at h; simp [h.2] at hterminal) hfirst halone
          have hmore : ¬(((before ++ ((block :: blocks).flatten ++ terminal)).length : Int) - 4 ≤
              before.length) := by
            rw [hbytes]
            simp only [List.length_append]
            omega
          rw [if_neg hmore, hbytes, hread, Option.bind_some, List.take_succ_cons, hbytes']
          rw [hbytes, hbytes'] at hsmall
          refine (ih blocks (before ++ block) o1 o' hsize (fun done block' rest h => ?_) hsmall
            hfold).trans ?_
          · have hnext := hexact (block :: done) block' rest (by rw [h, List.cons_append])
            rw [hbytes, hbytes', List.flatten_cons, ← List.append_assoc before block] at hnext
            exact hnext
          · rw [List.flatten_cons, ← List.append_assoc before block]

end Sequences

/-- A reader that answers has taken the bytes of its block exactly under the condition,
and blocks that meet it in their file are all decoded from their own bytes. -/
theorem extra_data_framing (malloc : Nat → Bool) :
    (∀ bytes start o,
      (∀ s', readExtraBlock malloc ⟨⟨bytes, start⟩, o⟩ = (.ok (), s') →
        s'.file.pos = start + (sizeAt bytes start).toNat) ↔ Exact malloc bytes start) ∧
    ∀ (before terminal : List UInt8) (blocks : List (List UInt8)) (o o' : ExtraData),
      terminal.length = 4 → blocks.length ≤ kExtraDataBlockNum →
      (before ++ (blocks.flatten ++ terminal)).length < 2 ^ 31 →
      (∀ block ∈ blocks, (sizeAt block 0).toNat = block.length) →
      (∀ done block rest, blocks = done ++ block :: rest →
        Exact malloc (before ++ (blocks.flatten ++ terminal)) (before ++ done.flatten).length) →
      blocks.foldlM (readAlone malloc) o = some o' →
      loadExtraData malloc ⟨⟨before ++ (blocks.flatten ++ terminal), before.length⟩, o⟩ =
        (.ok (), ⟨⟨before ++ (blocks.flatten ++ terminal),
          (before ++ blocks.flatten).length⟩, o'⟩) := by
  refine ⟨block_exact_iff malloc, ?_⟩
  intro before terminal blocks o o' hterminal hcount hsmall hsize hexact hfold
  rw [← success_eq_some, success_loadExtraData hsmall]
  have hall := List.take_of_length_le hcount
  rw [← hall] at hfold
  have hloop := extraDataLoop_blocks hterminal kExtraDataBlockNum blocks before o o' hsize hexact
    hsmall hfold
  rwa [hall] at hloop

def consoleBlock : List UInt8 := [0xCC, 0, 0, 0, 0x02, 0, 0, 0xA0] ++ List.replicate 196 0

/-- The reader of a console block stops 28 bytes before the end of the block. -/
theorem console_block_misread :
    ¬∀ (malloc : Nat → Bool) (bytes : List UInt8) (start : Nat) (o : ExtraData) s',
      readExtraBlock malloc ⟨⟨bytes, start⟩, o⟩ = (.ok (), s') →
        s'.file.pos = start + (sizeAt bytes start).toNat := by
  intro h
  have hexact := (block_exact_iff (fun _ => true) consoleBlock 0 {}).mp (h _ _ _ _)
  have hlength : consoleBlock.length = 204 := by
    rw [consoleBlock, List.length_append, List.length_replicate]
    rfl
  have hshort := hexact.console rfl rfl rfl
  omega

def codePageBlock : List UInt8 := [0x0C, 0, 0, 0, 0x04, 0, 0, 0xA0, 0xE4, 0x04, 0, 0]

theorem extra_data_framing_codePage :
    loadExtraData (fun _ => true) ⟨⟨[] ++ ([codePageBlock].flatten ++ [0, 0, 0, 0]), 0⟩, {}⟩ =
      (.ok (), ⟨⟨[] ++ ([codePageBlock].flatten ++ [0, 0, 0, 0]), 12⟩,
        { consoleFEDB := { codePage := 1252 } }⟩) := by
  refine (extra_data_framing fun _ => true).2 [] [0, 0, 0, 0] [codePageBlock] {} _ rfl
    (by decide) (by decide) (List.forall_mem_singleton.mpr rfl) (fun done block rest h => ?_) rfl
  obtain rfl : done = [] := by
    cases done with
    | nil => rfl
    | cons _ done => simp at h
  exact ⟨fun hsig => absurd hsig (by decide), fun hsig => absurd hsig (by decide),
    fun hsig => absurd hsig (by decide)⟩

end Ashe.ShellinkFraming
