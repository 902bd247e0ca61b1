import Ashe.ShellinkLoad
import Ashe.TwoRuns

namespace Ashe.ShellinkTwice

open ByteWords FileReading ShellinkParser ShellinkLoad TwoRuns

section Loaders

variable {P R : ShellinkParser → ShellinkParser → Prop}
  {malloc malloc' : Nat → Bool}

theorem part_extraData : Part ShellinkParser.extraData
    (fun x p => { p with extraData := x }) where
  get_set _ _ := rfl
  set_set _ _ _ := rfl
  set_get _ := rfl

theorem twin_loadNumber (n : Nat) : Twin P (loadNumber n) (loadNumber n) fun _ => P :=
  (twin_fread _ n).bind fun _ => twin_pure fun _ _ h => h

theorem twin_load16 {update : UInt16 → ShellinkParser → ShellinkParser}
    (h : ∀ v o o', P o o' → R (update v o) (update v o')) :
    Twin P (load16 update) (load16 update) fun _ => R :=
  (twin_loadNumber 2).bind fun v => twin_modify (h (UInt16.ofNat v))

theorem twin_load32 {update : UInt32 → ShellinkParser → ShellinkParser}
    (h : ∀ v o o', P o o' → R (update v o) (update v o')) :
    Twin P (load32 update) (load32 update) fun _ => R :=
  (twin_loadNumber 4).bind fun v => twin_modify (h (UInt32.ofNat v))

theorem twin_load64 {update : UInt64 → ShellinkParser → ShellinkParser}
    (h : ∀ v o o', P o o' → R (update v o) (update v o')) :
    Twin P (load64 update) (load64 update) fun _ => R :=
  (twin_loadNumber 8).bind fun v => twin_modify (h (UInt64.ofNat v))

theorem twin_keep32 {update : UInt32 → ShellinkParser → ShellinkParser}
    (h : ∀ v o o', P o o' → P (update v o) (update v o')) :
    Twin P (load32 update) (load32 update) fun _ => P := twin_load32 h

theorem twin_keep64 {update : UInt64 → ShellinkParser → ShellinkParser}
    (h : ∀ v o o', P o o' → P (update v o) (update v o')) :
    Twin P (load64 update) (load64 update) fun _ => P := twin_load64 h

theorem lift_readStr (e f : ShellinkErr) (n : Nat) : lift (readStr malloc e f n) =
    if n = 0 then fail (Stop.err e)
    else if malloc (n + 1) = false then fail (Stop.err e)
    else fread (Stop.err f) n >>= fun buf => pure (buf.takeWhile (· ≠ 0)) := by
  rw [lift, readStr]
  split
  next => exact within_fail part_extraData e
  next =>
    split
    next => exact within_fail part_extraData e
    next =>
      rw [within_bind part_extraData, within_fread part_extraData]
      congr 1

theorem lift_readWStr (e f : ShellinkErr) (n : Nat) : lift (readWStr malloc e f n) =
    if n / 2 = 0 then fail (Stop.err e)
    else if malloc ((n / 2 + 1) * 2) = false then fail (Stop.err e)
    else fread (Stop.err f) (n / 2 * 2) >>= fun buf =>
      pure ((wideChars buf).takeWhile (· ≠ 0)) := by
  rw [lift, readWStr]
  split
  next => exact within_fail part_extraData e
  next =>
    split
    next => exact within_fail part_extraData e
    next =>
      rw [within_bind part_extraData, within_fread part_extraData]
      congr 1

theorem twin_lift_readStr (e f : ShellinkErr) (n : Nat) :
    Twin P (lift (readStr malloc e f n)) (lift (readStr malloc' e f n)) fun _ => P := by
  rw [lift_readStr, lift_readStr]
  exact twin_guard (twin_guard ((twin_fread _ n).bind fun _ => twin_pure fun _ _ h => h))

theorem twin_lift_readWStr (e f : ShellinkErr) (n : Nat) :
    Twin P (lift (readWStr malloc e f n)) (lift (readWStr malloc' e f n)) fun _ => P := by
  rw [lift_readWStr, lift_readWStr]
  exact twin_guard (twin_guard ((twin_fread _ _).bind fun _ => twin_pure fun _ _ h => h))

theorem twin_fileSize : Twin P fileSize fileSize fun _ => P :=
  twin_file (fun f => some (f.bytes.length, f)) fun _ => rfl

theorem twin_nullLoop (e : ShellinkErr) (width n tmpS : Nat) :
    Twin P (nullLoop malloc e width n tmpS) (nullLoop malloc' e width n tmpS) fun _ => P := by
  induction n generalizing tmpS with
  | zero => exact twin_fail_left
  | succ n ih =>
      exact twin_refuse.bind fun _ => (twin_loadNumber width).bind fun tmpC =>
        twin_ite (fun _ => twin_pure fun _ _ h => h) fun _ =>
          (ih (tmpS + 1)).bind fun _ => twin_pure fun _ _ h => h

theorem twin_readNULLStr (e : ShellinkErr) :
    Twin P (readNULLStr malloc e) (readNULLStr malloc' e) fun _ => P :=
  twin_fileSize.bind fun _ => (twin_nullLoop e 1 _ 0).bind fun _ => twin_pure fun _ _ h => h

theorem twin_readNULLWStr (e : ShellinkErr) :
    Twin P (readNULLWStr malloc e) (readNULLWStr malloc' e) fun _ => P :=
  twin_fileSize.bind fun _ => (twin_nullLoop e 2 _ 0).bind fun _ => twin_pure fun _ _ h => h

end Loaders

section Front

variable {malloc malloc' : Nat → Bool}

def SameHeader (o o' : ShellinkParser) : Prop :=
  o'.header.linkFlags = o.header.linkFlags ∧ o'.header.iconIndex = o.header.iconIndex

theorem twin_readHeader : Twin (fun _ _ => True) readHeader readHeader fun _ => SameHeader := by
  refine Twin.bind (twin_loadNumber 4) fun _ => Twin.bind twin_refuse fun _ =>
    Twin.bind (twin_fread _ 16) fun _ => ?_
  refine Twin.bind (twin_modify (R := fun o o' => o'.header.linkCLSID_H = o.header.linkCLSID_H ∧
    o'.header.linkCLSID_L = o.header.linkCLSID_L) fun _ _ _ => ⟨rfl, rfl⟩) fun _ => ?_
  refine Twin.bind (twin_inspect fun _ _ h => h.1) fun _ => Twin.bind twin_refuse fun _ => ?_
  refine Twin.bind (twin_inspect fun _ _ h => h.1.2) fun _ => Twin.bind twin_refuse fun _ => ?_
  refine Twin.bind (twin_load32 (R := fun o o' => o'.header.linkFlags = o.header.linkFlags)
    fun _ _ _ _ => rfl) fun _ => ?_
  refine Twin.bind (twin_keep32 fun _ _ _ h => h) fun _ => ?_
  refine Twin.bind (twin_keep64 fun _ _ _ h => h) fun _ => ?_
  refine Twin.bind (twin_keep64 fun _ _ _ h => h) fun _ => ?_
  refine Twin.bind (twin_keep64 fun _ _ _ h => h) fun _ => ?_
  refine Twin.bind (twin_keep32 fun _ _ _ h => h) fun _ => ?_
  refine Twin.bind (twin_load32 (R := SameHeader) fun _ _ _ h => ⟨h, rfl⟩) fun _ => ?_
  refine Twin.bind (twin_keep32 fun _ _ _ h => h) fun _ => ?_
  exact Twin.bind (twin_load16 (R := SameHeader) fun _ _ _ h => h) fun _ => twin_fseek 10

def ended (list : List UInt8) : Bool :=
  if list.length < 2 then false
  else if itemSize list = 0 then true
  else ended (list.drop (itemSize list))
termination_by list.length
decreasing_by
  rw [List.length_drop]
  omega

/-- What comes behind the item of size zero is not looked at. -/
theorem itemsAt_append {list : List UInt8} (h : ended list = true) (behind : List UInt8) :
    itemsAt (list ++ behind) = itemsAt list := by
  fun_induction ended list with
  | case1 list hshort => exact absurd h Bool.false_ne_true
  | case2 list hlong hzero =>
      have hsize : itemSize (list ++ behind) = itemSize list := by
        rw [itemSize, itemSize, List.take_append_of_le_length (by omega)]
      rw [itemsAt.eq_def (list ++ behind), itemsAt.eq_def list, hsize, if_pos hzero, if_pos hzero]
  | case3 list hlong hsize ih =>
      have hsame : itemSize (list ++ behind) = itemSize list := by
        rw [itemSize, itemSize, List.take_append_of_le_length (by omega)]
      have hle : itemSize list ≤ list.length := by
        by_contra hover
        rw [ended, if_pos] at h
        · exact absurd h Bool.false_ne_true
        · rw [List.length_drop]
          omega
      rw [itemsAt.eq_def (list ++ behind), itemsAt.eq_def list, hsame, if_neg hsize, if_neg hsize,
        List.take_append_of_le_length hle, List.drop_append_of_le_length hle, ih h]

/-- The id list, which only one of the getters reads and only when the header says so. The
memory behind it is the same on no two objects. -/
def SameIdList (whole : Bool) (o o' : ShellinkParser) : Prop :=
  o.header.linkFlags &&& LF_HasLinkTargetIDList ≠ 0 → whole = true → ∀ behind behind',
    itemsAt (o'.targetIdList ++ behind') = itemsAt (o.targetIdList ++ behind)

/-- The reader of the id list, which tells whether the file has it up to its end. -/
def seenIdList : Loader Bool := do
  let idListSize ← loadNumber 2
  let data ← freadSome idListSize
  modify fun p => { p with targetIdList := readOver p.targetIdList idListSize data }
  pure (ended data)

theorem twin_seenIdList (flags : UInt64) : Twin
    (fun o o' => SameHeader o o' ∧ o.header.linkFlags = flags) seenIdList seenIdList
    fun whole o o' => (SameHeader o o' ∧ SameIdList whole o o') ∧ o.header.linkFlags = flags := by
  refine Twin.bind (twin_loadNumber 2) fun idListSize => ?_
  refine Twin.bind (twin_freadSome idListSize) fun data => ?_
  refine Twin.bind (twin_modify (R := fun o o' => (SameHeader o o' ∧
    SameIdList (ended data) o o') ∧ o.header.linkFlags = flags) ?_)
    fun _ => twin_pure fun _ _ h => h
  refine fun o o' h => ⟨⟨h.1, fun _ hended behind behind' => ?_⟩, h.2⟩
  show itemsAt (readOver o'.targetIdList _ _ ++ behind') =
    itemsAt (readOver o.targetIdList _ _ ++ behind)
  rw [readOver, readOver, List.append_assoc, List.append_assoc, itemsAt_append hended,
    itemsAt_append hended]

/-- What is known of the objects where the link info is read, with the fields of its header
that load looks at. -/
def Known (whole : Bool) (flags : UInt64) (size : UInt32) (o o' : ShellinkParser) : Prop :=
  (SameHeader o o' ∧ SameIdList whole o o') ∧
    (o.linkInfo.lnkInfFlags = flags ∧ o'.linkInfo.lnkInfFlags = flags) ∧
    (o.linkInfo.linkInfoHeaderSize = size ∧ o'.linkInfo.linkInfoHeaderSize = size)

def SameBasePath (o o' : ShellinkParser) : Prop :=
  o'.linkInfo.localBasePath = o.linkInfo.localBasePath

def KnownBase (whole : Bool) (flags : UInt64) (size : UInt32) (o o' : ShellinkParser) : Prop :=
  Known whole flags size o o' ∧ (flags &&& LIF_VolumeIDAndLocalBasePath ≠ 0 → SameBasePath o o')

def SameNet (o o' : ShellinkParser) : Prop :=
  let net := o.linkInfo.commonNetRelLnk
  let net' := o'.linkInfo.commonNetRelLnk
  net'.comNetRelLnkFlags = net.comNetRelLnkFlags ∧ net'.netNameOffset = net.netNameOffset ∧
    net'.netName = net.netName ∧ net'.deviceName = net.deviceName ∧
    (0x14 < net.netNameOffset → net'.netNameUnicode = net.netNameUnicode ∧
      net'.deviceNameUnicode = net.deviceNameUnicode)

def KnownNet (whole : Bool) (flags : UInt64) (size : UInt32) (o o' : ShellinkParser) : Prop :=
  KnownBase whole flags size o o' ∧
    (flags &&& LIF_CommonNetworkRelativeLinkAndPathSuffix ≠ 0 → SameNet o o')

variable {whole : Bool} {flags : UInt64} {size : UInt32}

theorem twin_readVolumeID : Twin (Known whole flags size) (readVolumeID malloc)
    (readVolumeID malloc') fun _ o o' => Known whole flags size o o' ∧ SameBasePath o o' := by
  refine Twin.bind (twin_load32 (R := Alike (Known whole flags size) fun p =>
    p.linkInfo.volID.volumeIDSize) fun _ _ _ h => ⟨h, rfl⟩) fun _ => ?_
  refine Twin.bind (twin_keep32 fun _ _ _ h => h) fun _ => ?_
  refine Twin.bind (twin_keep32 fun _ _ _ h => h) fun _ => ?_
  refine Twin.bind (twin_load32 (R := Alike (Alike (Known whole flags size) fun p =>
    p.linkInfo.volID.volumeIDSize) fun p => p.linkInfo.volID.volumeLabelOffset)
    fun _ _ _ h => ⟨h, rfl⟩) fun _ => ?_
  refine Twin.bind (twin_inspect fun _ _ h => h.2) fun offset => ?_
  refine Twin.bind (twin_when (R := Alike (Known whole flags size) fun p =>
    p.linkInfo.volID.volumeIDSize) (fun _ => twin_load32 fun _ _ _ h => h.1.1)
    fun _ _ _ h => h.1.1) fun _ => ?_
  refine Twin.bind (twin_inspect fun _ _ h => h.2) fun volumeIDSize => ?_
  refine Twin.bind twin_refuse fun _ => ?_
  refine Twin.bind (twin_modify (R := Known whole flags size) fun _ _ h => h.1.1) fun _ => ?_
  refine Twin.bind (twin_fread _ _) fun _ => ?_
  refine Twin.bind (twin_modify (R := Known whole flags size) fun _ _ h => h) fun _ => ?_
  exact Twin.bind (twin_readNULLStr _) fun _ => twin_modify fun _ _ h => ⟨h, rfl⟩

def KnownLink (whole : Bool) (flags : UInt64) (size offset : UInt32) (o o' : ShellinkParser) :
    Prop :=
  Alike (KnownBase whole flags size) (fun p => p.linkInfo.commonNetRelLnk.comNetRelLnkFlags) o o' ∧
    o.linkInfo.commonNetRelLnk.netNameOffset = offset ∧
    o'.linkInfo.commonNetRelLnk.netNameOffset = offset

def KnownNames (whole : Bool) (flags : UInt64) (size offset : UInt32) (o o' : ShellinkParser) :
    Prop :=
  KnownLink whole flags size offset o o' ∧
    o'.linkInfo.commonNetRelLnk.netName = o.linkInfo.commonNetRelLnk.netName ∧
    o'.linkInfo.commonNetRelLnk.deviceName = o.linkInfo.commonNetRelLnk.deviceName

theorem twin_readNetNames {offset : UInt32} : Twin (KnownLink whole flags size offset)
    (readNetNames malloc) (readNetNames malloc') fun _ => KnownNames whole flags size offset := by
  refine Twin.bind (twin_readNULLStr _) fun _ => ?_
  refine Twin.bind (twin_modify (R := Alike (KnownLink whole flags size offset) fun p =>
    p.linkInfo.commonNetRelLnk.netName) fun _ _ h => ⟨h, rfl⟩) fun _ => ?_
  exact Twin.bind (twin_readNULLStr _) fun _ => twin_modify fun _ _ h => ⟨h.1, h.2, rfl⟩

theorem twin_readNetNamesUnicode {offset : UInt32} : Twin (KnownNames whole flags size offset)
    (readNetNamesUnicode malloc) (readNetNamesUnicode malloc') fun _ o o' =>
      KnownNames whole flags size offset o o' ∧
        o'.linkInfo.commonNetRelLnk.netNameUnicode = o.linkInfo.commonNetRelLnk.netNameUnicode ∧
        o'.linkInfo.commonNetRelLnk.deviceNameUnicode =
          o.linkInfo.commonNetRelLnk.deviceNameUnicode := by
  refine Twin.bind (twin_readNULLWStr _) fun _ => ?_
  refine Twin.bind (twin_modify (R := Alike (KnownNames whole flags size offset) fun p =>
    p.linkInfo.commonNetRelLnk.netNameUnicode) fun _ _ h => ⟨h, rfl⟩) fun _ => ?_
  exact Twin.bind (twin_readNULLWStr _) fun _ => twin_modify fun _ _ h => ⟨h.1, h.2, rfl⟩

theorem twin_readCommonNetworkRelativeLink : Twin (KnownBase whole flags size)
    (readCommonNetworkRelativeLink malloc) (readCommonNetworkRelativeLink malloc')
    fun _ o o' => KnownBase whole flags size o o' ∧ SameNet o o' := by
  refine Twin.bind (twin_keep32 fun _ _ _ h => h) fun _ => ?_
  refine Twin.bind (twin_load32 (R := Alike (KnownBase whole flags size) fun p =>
    p.linkInfo.commonNetRelLnk.comNetRelLnkFlags) fun _ _ _ h => ⟨h, rfl⟩) fun _ => ?_
  refine Twin.bind (twin_load32 (R := Alike (Alike (KnownBase whole flags size) fun p =>
    p.linkInfo.commonNetRelLnk.comNetRelLnkFlags) fun p =>
    p.linkInfo.commonNetRelLnk.netNameOffset) fun _ _ _ h => ⟨h, rfl⟩) fun _ => ?_
  refine Twin.bind (twin_keep32 fun _ _ _ h => h) fun _ => ?_
  refine Twin.bind (twin_keep32 fun _ _ _ h => h) fun _ => ?_
  refine Twin.bind (twin_inspect fun _ _ h => h.2) fun offset => ?_
  refine Twin.bind (twin_when (R := KnownLink whole flags size offset) (fun _ => ?_)
    fun _ _ _ h => ⟨h.1.1, h.2⟩) fun _ => ?_
  · exact Twin.bind (twin_load32 (R := KnownLink whole flags size offset)
      fun _ _ _ h => ⟨h.1.1, h.2⟩) fun _ => twin_keep32 fun _ _ _ h => h
  refine Twin.bind twin_readNetNames fun _ =>
    twin_when (fun _ => twin_readNetNamesUnicode.mono (fun _ _ h => h) ?_) ?_
  · rintro - o o' ⟨⟨⟨⟨hbase, hflags⟩, hoffset, hoffset'⟩, hnet, hdevice⟩, hunicode⟩
    exact ⟨hbase, hflags, hoffset'.trans hoffset.symm, hnet, hdevice, fun _ => hunicode⟩
  · rintro hno o o' ⟨⟨⟨hbase, hflags⟩, hoffset, hoffset'⟩, hnet, hdevice⟩
    exact ⟨hbase, hflags, hoffset'.trans hoffset.symm, hnet, hdevice,
      fun hlt => absurd (hoffset ▸ hlt) hno⟩

/-- What is known behind the link info. A link with a wide path has not got there. -/
def SameLinkInfo (o o' : ShellinkParser) : Prop :=
  let l := o.linkInfo
  let l' := o'.linkInfo
  l'.lnkInfFlags = l.lnkInfFlags ∧ l'.linkInfoHeaderSize = l.linkInfoHeaderSize ∧
    (l.lnkInfFlags &&& LIF_VolumeIDAndLocalBasePath ≠ 0 →
      SameBasePath o o' ∧ ¬0x24 ≤ l.linkInfoHeaderSize) ∧
    (l.lnkInfFlags &&& LIF_CommonNetworkRelativeLinkAndPathSuffix ≠ 0 → SameNet o o') ∧
    l'.commonPathSuffix = l.commonPathSuffix

def SameInfoHeader (whole : Bool) (o o' : ShellinkParser) : Prop :=
  (SameHeader o o' ∧ SameIdList whole o o') ∧
    o'.linkInfo.lnkInfFlags = o.linkInfo.lnkInfFlags ∧
    o'.linkInfo.linkInfoHeaderSize = o.linkInfo.linkInfoHeaderSize

theorem twin_readLinkInfoHeader : Twin (fun o o' => SameHeader o o' ∧ SameIdList whole o o')
    readLinkInfoHeader readLinkInfoHeader fun _ => SameInfoHeader whole := by
  refine Twin.bind (twin_keep32 fun _ _ _ h => h) fun _ => ?_
  refine Twin.bind (twin_load32 (R := Alike (fun o o' => SameHeader o o' ∧ SameIdList whole o o')
    fun p => p.linkInfo.linkInfoHeaderSize) fun _ _ _ h => ⟨h, rfl⟩) fun _ => ?_
  refine Twin.bind (twin_inspect fun _ _ h => h.2) fun size => Twin.bind twin_refuse fun _ => ?_
  refine Twin.bind (twin_load32 (R := SameInfoHeader whole) fun _ _ _ h =>
    ⟨h.1.1, rfl, h.1.2⟩) fun _ => ?_
  refine Twin.bind (twin_keep32 fun _ _ _ h => h) fun _ => ?_
  refine Twin.bind (twin_keep32 fun _ _ _ h => h) fun _ => ?_
  refine Twin.bind (twin_keep32 fun _ _ _ h => h) fun _ => ?_
  refine Twin.bind (twin_keep32 fun _ _ _ h => h) fun _ => ?_
  refine twin_when (R := SameInfoHeader whole) (fun _ => ?_) fun _ _ _ h => h
  exact Twin.bind (twin_keep32 fun _ _ _ h => h) fun _ => twin_keep32 fun _ _ _ h => h

def KnownSuffix (whole : Bool) (flags : UInt64) (size : UInt32) : ShellinkParser →
    ShellinkParser → Prop :=
  Alike (KnownNet whole flags size) fun p => p.linkInfo.commonPathSuffix

theorem KnownSuffix.same {o o' : ShellinkParser} (h : KnownSuffix whole flags size o o')
    (hsize : flags &&& LIF_VolumeIDAndLocalBasePath ≠ 0 → ¬0x24 ≤ size) :
    (SameHeader o o' ∧ SameIdList whole o o') ∧ SameLinkInfo o o' := by
  obtain ⟨⟨⟨⟨hheader, ⟨rfl, hflags⟩, rfl, hsizes⟩, hbase⟩, hnet⟩, hsuffix⟩ := h
  exact ⟨hheader, hflags, hsizes, fun hflag => ⟨hbase hflag, hsize hflag⟩, hnet, hsuffix⟩

theorem twin_readLinkInfo : Twin (fun o o' => SameHeader o o' ∧ SameIdList whole o o')
    (readLinkInfo malloc) (readLinkInfo malloc') fun _ o o' =>
      (SameHeader o o' ∧ SameIdList whole o o') ∧ SameLinkInfo o o' := by
  refine Twin.bind twin_readLinkInfoHeader fun _ => ?_
  refine Twin.bind (twin_inspect fun _ _ h => h.2.1) fun flags => ?_
  refine Twin.bind (twin_inspect fun _ _ h => h.1.2.2) fun size => ?_
  refine Twin.bind (twin_when (R := KnownBase whole flags size) (fun _ => ?_) ?_) fun _ => ?_
  · exact twin_readVolumeID.mono (fun _ _ h => ⟨h.1.1.1, h.1.2, h.2⟩) fun _ _ _ h =>
      ⟨h.1, fun _ => h.2⟩
  · exact fun hno _ _ h => ⟨⟨h.1.1.1, h.1.2, h.2⟩, fun hflag => absurd hflag hno⟩
  refine Twin.bind (twin_when (R := KnownNet whole flags size) (fun _ => ?_) ?_) fun _ => ?_
  · exact twin_readCommonNetworkRelativeLink.mono (fun _ _ h => h) fun _ _ _ h =>
      ⟨h.1, fun _ => h.2⟩
  · exact fun hno _ _ h => ⟨h, fun hflag => absurd hflag hno⟩
  refine Twin.bind (twin_readNULLStr _) fun _ => ?_
  refine Twin.bind (twin_modify (R := KnownSuffix whole flags size) fun _ _ h => ⟨h, rfl⟩)
    fun _ => ?_
  refine twin_when (fun hlong => ?_) fun hshort _ _ h => h.same fun _ => hshort
  refine Twin.bind (twin_when (R := fun o o' => KnownSuffix whole flags size o o' ∧
    ¬flags &&& LIF_VolumeIDAndLocalBasePath ≠ 0) (fun _ => ?_) fun hno _ _ h => ⟨h, hno⟩)
    fun _ => ?_
  · refine Twin.bind (twin_readNULLWStr _) fun _ => ?_
    exact Twin.bind (twin_modify (R := KnownSuffix whole flags size) fun _ _ h => h)
      fun _ => twin_fail_left
  refine Twin.bind (twin_readNULLWStr _) fun _ => twin_modify fun o o' h => ?_
  exact KnownSuffix.same h.1 fun hflag => absurd hflag h.2

end Front

end Ashe.ShellinkTwice
