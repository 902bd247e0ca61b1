import Ashe.EnvVariable
import Ashe.ShellinkParser

namespace Ashe.ShellinkLoad

open ByteWords FileReading ShellinkParser
open EnvVariable (WString)

/-- The bits of LinkFlags. -/
def LF_HasLinkTargetIDList : UInt64 := 0x1
def LF_HasLinkInfo : UInt64 := 0x2
def LF_HasName : UInt64 := 0x4
def LF_HasRelativePath : UInt64 := 0x8
def LF_HasWorkingDir : UInt64 := 0x10
def LF_HasArguments : UInt64 := 0x20
def LF_HasIconLocation : UInt64 := 0x40
def LF_IsUnicode : UInt64 := 0x80
def LF_ForceNoLinkInfo : UInt64 := 0x100
def LF_HasExpString : UInt64 := 0x200
def LF_HasExpIcon : UInt64 := 0x4000
def LIF_VolumeIDAndLocalBasePath : UInt64 := 0x1
def LIF_CommonNetworkRelativeLinkAndPathSuffix : UInt64 := 0x2
def CNETRLNK_ValidDevice : UInt64 := 0x1
def CNETRLNK_ValidNetType : UInt64 := 0x2

structure LinkHeader where
  linkCLSID_L : UInt64 := 0
  linkCLSID_H : UInt64 := 0
  linkFlags : UInt64
  targetFileAttributes : UInt64
  creationTime : UInt64 := 0
  accessTime : UInt64 := 0
  writeTime : UInt64 := 0
  fileSize : UInt32 := 0
  iconIndex : UInt32 := 0
  showCommand : UInt32 := 0
  hotKey : UInt16 := 0

def LinkHeader.HeaderSize : Nat := 0x0000004C

structure VolumeID where
  volumeIDSize : UInt32 := 0
  driveType : UInt32 := 0
  driveSerialNumber : UInt32 := 0
  volumeLabelOffset : UInt32 := 0
  volumeLabelOffsetUnicode : UInt32 := 0
  data : List UInt8 := []

structure CommonNetworkRelativeLink where
  commonNetworkRelativeSize : UInt32 := 0
  comNetRelLnkFlags : UInt64
  netNameOffset : UInt32 := 0
  deviceNameOffset : UInt32 := 0
  networkProviderType : UInt32 := 0
  netNameOffsetUnicode : UInt32 := 0
  deviceNameOffsetUnicode : UInt32 := 0
  netName : List UInt8 := []
  deviceName : List UInt8 := []
  netNameUnicode : WString := []
  deviceNameUnicode : WString := []

structure LinkInfo where
  linkInfoSize : UInt32 := 0
  linkInfoHeaderSize : UInt32 := 0
  lnkInfFlags : UInt64
  volumeIDOffset : UInt32 := 0
  localBasePathOffset : UInt32 := 0
  commonNetworkRelativeLinkOffset : UInt32 := 0
  commonPathSuffixOffset : UInt32 := 0
  localBasePathOffsetUnicode : UInt32 := 0
  commonPathSuffixOffsetUnicode : UInt32 := 0
  volID : VolumeID := {}
  localBasePath : List UInt8 := []
  commonNetRelLnk : CommonNetworkRelativeLink
  commonPathSuffix : List UInt8 := []
  localBasePathUnicode : WString := []
  commonPathSuffixUnicode : WString := []

structure StringData where
  nameStringW : WString := []
  nameStringA : List UInt8 := []
  relativePathW : WString := []
  relativePathA : List UInt8 := []
  workingDirW : WString := []
  workingDirA : List UInt8 := []
  commandLineArgumentsW : WString := []
  commandLineArgumentsA : List UInt8 := []
  iconLocationW : WString := []
  iconLocationA : List UInt8 := []

/-- The object. The fields of flags have no initial value. -/
structure ShellinkParser where
  linkPath : WString := []
  iconIndex : UInt32 := 0
  header : LinkHeader
  targetIdList : List UInt8 := []
  linkInfo : LinkInfo
  stringData : StringData := {}
  extraData : ExtraData := {}
  targetPath : WString := []

/-- What ends load early: an answer, or a use of a buffer that has been freed. -/
inductive Stop where
  | err (e : ShellinkErr)
  | undefined
  deriving DecidableEq

abbrev Loader (α : Type) : Type := Reading Stop ShellinkParser α

section Loaders

def loadNumber (n : Nat) : Loader Nat := do
  let bytes ← fread (Stop.err ShellinkErr.SHLLINK_ERR_FIO) n
  pure (ofLittleEndian bytes)

def load16 (update : UInt16 → ShellinkParser → ShellinkParser) : Loader Unit := do
  let v ← loadNumber 2
  modify (update (UInt16.ofNat v))

def load32 (update : UInt32 → ShellinkParser → ShellinkParser) : Loader Unit := do
  let v ← loadNumber 4
  modify (update (UInt32.ofNat v))

def load64 (update : UInt64 → ShellinkParser → ShellinkParser) : Loader Unit := do
  let v ← loadNumber 8
  modify (update (UInt64.ofNat v))

def lift {α : Type} (m : Reader α) : Loader α :=
  within ShellinkParser.extraData (fun x p => { p with extraData := x }) Stop.err m

def readHeader : Loader Unit := do
  let headerSizeValue ← loadNumber 4
  refuse (LinkHeader.HeaderSize ≠ headerSizeValue) (.err .SHLLINK_ERR_WHEADS)
  let clsid ← fread (Stop.err ShellinkErr.SHLLINK_ERR_FIO) 16
  -- the sixteen bytes are turned round, and the low half comes first
  modify fun p =>
    let low := UInt64.ofNat (ofLittleEndian (clsid.reverse.take 8))
    let high := UInt64.ofNat (ofLittleEndian (clsid.reverse.drop 8))
    { p with header.linkCLSID_L := low, header.linkCLSID_H := high }
  let linkCLSID_H ← inspect fun p => p.header.linkCLSID_H
  refuse (linkCLSID_H ≠ 0x0114020000000000) (.err .SHLLINK_ERR_WCLSIDS)
  let linkCLSID_L ← inspect fun p => p.header.linkCLSID_L
  refuse (linkCLSID_L ≠ 0xC000000000000046) (.err .SHLLINK_ERR_WCLSIDS)
  load32 fun v p => { p with header.linkFlags := v.toUInt64 }
  load32 fun v p => { p with header.targetFileAttributes := v.toUInt64 }
  load64 fun v p => { p with header.creationTime := v }
  load64 fun v p => { p with header.accessTime := v }
  load64 fun v p => { p with header.writeTime := v }
  load32 fun v p => { p with header.fileSize := v }
  load32 fun v p => { p with header.iconIndex := v }
  load32 fun v p => { p with header.showCommand := v }
  load16 fun v p => { p with header.hotKey := v }
  fseek 10

/-- The list is read up to the end of the file, which nothing checks. -/
def readTargetIdList : Loader Unit := do
  let idListSize ← loadNumber 2
  let data ← freadSome idListSize
  modify fun p => { p with targetIdList := readOver p.targetIdList idListSize data }

variable (malloc : Nat → Bool)

def fileSize : Loader Nat := fun s => (.ok s.file.bytes.length, s)

/-- The loop of readNULLStr and readNULLWStr, with the turns that the file is enough for.
The argument malloc says which sizes realloc has memory for. -/
def nullLoop (errv1 : ShellinkErr) (width : Nat) : Nat → Nat → Loader (List Nat)
  | 0, _ => fail (Stop.err ShellinkErr.SHLLINK_ERR_FIO)
  | n + 1, tmpS => do
      refuse (malloc ((tmpS + 1) * width) = false) (.err errv1)
      let tmpC ← loadNumber width
      if tmpC = 0 then pure []
      else
        let chars ← nullLoop errv1 width n (tmpS + 1)
        pure (tmpC :: chars)

def readNULLStr (errv1 : ShellinkErr) : Loader (List UInt8) := do
  let size ← fileSize
  let chars ← nullLoop malloc errv1 1 (size + 1) 0
  pure (chars.map UInt8.ofNat)

def readNULLWStr (errv1 : ShellinkErr) : Loader WString := do
  let size ← fileSize
  let chars ← nullLoop malloc errv1 2 (size + 1) 0
  pure (chars.map UInt16.ofNat)

def readVolumeID : Loader Unit := do
  load32 fun v p => { p with linkInfo.volID.volumeIDSize := v }
  load32 fun v p => { p with linkInfo.volID.driveType := v }
  load32 fun v p => { p with linkInfo.volID.driveSerialNumber := v }
  load32 fun v p => { p with linkInfo.volID.volumeLabelOffset := v }
  let volumeLabelOffset ← inspect fun p => p.linkInfo.volID.volumeLabelOffset
  when (volumeLabelOffset = 0x14)
    (load32 fun v p => { p with linkInfo.volID.volumeLabelOffsetUnicode := v })
  let vtmpSize : UInt32 := if volumeLabelOffset = 0x14 then 20 else 16
  let volumeIDSize ← inspect fun p => p.linkInfo.volID.volumeIDSize
  refuse (volumeIDSize ≤ vtmpSize) (.err .SHLLINK_ERR_VIDSLOW)
  let n := (volumeIDSize - vtmpSize).toNat
  modify fun p =>
    let data := readOver p.linkInfo.volID.data n []
    { p with linkInfo.volID.data := data }
  let data ← fread (Stop.err ShellinkErr.SHLLINK_ERR_FIO)
    (if volumeLabelOffset = 0x14 then n / 2 * 2 else n)
  modify fun p =>
    let data := readOver p.linkInfo.volID.data n data
    { p with linkInfo.volID.data := data }
  let path ← readNULLStr malloc .SHLLINK_ERR_NULLPLBP
  modify fun p => { p with linkInfo.localBasePath := path }

def readNetNames : Loader Unit := do
  let netName ← readNULLStr malloc .SHLLINK_ERR_NULLPNETN
  modify fun p => { p with linkInfo.commonNetRelLnk.netName := netName }
  let deviceName ← readNULLStr malloc .SHLLINK_ERR_NULLPDEVN
  modify fun p => { p with linkInfo.commonNetRelLnk.deviceName := deviceName }

def readNetNamesUnicode : Loader Unit := do
  let netName ← readNULLWStr malloc .SHLLINK_ERR_NULLPNNU
  modify fun p => { p with linkInfo.commonNetRelLnk.netNameUnicode := netName }
  let deviceName ← readNULLWStr malloc .SHLLINK_ERR_NULLPDNU
  modify fun p => { p with linkInfo.commonNetRelLnk.deviceNameUnicode := deviceName }

def readCommonNetworkRelativeLink : Loader Unit := do
  load32 fun v p => { p with linkInfo.commonNetRelLnk.commonNetworkRelativeSize := v }
  load32 fun v p => { p with linkInfo.commonNetRelLnk.comNetRelLnkFlags := v.toUInt64 }
  load32 fun v p => { p with linkInfo.commonNetRelLnk.netNameOffset := v }
  load32 fun v p => { p with linkInfo.commonNetRelLnk.deviceNameOffset := v }
  load32 fun v p => { p with linkInfo.commonNetRelLnk.networkProviderType := v }
  let netNameOffset ← inspect fun p => p.linkInfo.commonNetRelLnk.netNameOffset
  when (0x14 < netNameOffset) (do
    load32 fun v p => { p with linkInfo.commonNetRelLnk.netNameOffsetUnicode := v }
    load32 fun v p => { p with linkInfo.commonNetRelLnk.deviceNameOffsetUnicode := v })
  readNetNames malloc
  when (0x14 < netNameOffset) (readNetNamesUnicode malloc)

def readLinkInfoHeader : Loader Unit := do
  load32 fun v p => { p with linkInfo.linkInfoSize := v }
  load32 fun v p => { p with linkInfo.linkInfoHeaderSize := v }
  let headerSize ← inspect fun p => p.linkInfo.linkInfoHeaderSize
  refuse (headerSize ≠ 0x1C ∧ headerSize < 0x24) (.err .SHLLINK_ERR_INVLIHS)
  load32 fun v p => { p with linkInfo.lnkInfFlags := v.toUInt64 }
  load32 fun v p => { p with linkInfo.volumeIDOffset := v }
  load32 fun v p => { p with linkInfo.localBasePathOffset := v }
  load32 fun v p => { p with linkInfo.commonNetworkRelativeLinkOffset := v }
  load32 fun v p => { p with linkInfo.commonPathSuffixOffset := v }
  when (0x24 ≤ headerSize) (do
    load32 fun v p => { p with linkInfo.localBasePathOffsetUnicode := v }
    load32 fun v p => { p with linkInfo.commonPathSuffixOffsetUnicode := v })

def readLinkInfo : Loader Unit := do
  readLinkInfoHeader
  let lnkInfFlags ← inspect fun p => p.linkInfo.lnkInfFlags
  let headerSize ← inspect fun p => p.linkInfo.linkInfoHeaderSize
  when (lnkInfFlags &&& LIF_VolumeIDAndLocalBasePath ≠ 0) (readVolumeID malloc)
  when (lnkInfFlags &&& LIF_CommonNetworkRelativeLinkAndPathSuffix ≠ 0)
    (readCommonNetworkRelativeLink malloc)
  let suffix ← readNULLStr malloc .SHLLINK_ERR_NULLPCPS
  modify fun p => { p with linkInfo.commonPathSuffix := suffix }
  when (0x24 ≤ headerSize) (do
    when (lnkInfFlags &&& LIF_VolumeIDAndLocalBasePath ≠ 0) (do
      let path ← readNULLWStr malloc .SHLLINK_ERR_NULLPLBPU
      modify fun p => { p with linkInfo.localBasePathUnicode := path }
      -- the buffer of this string is freed, and then given to realloc for the next one
      fail .undefined)
    let suffix ← readNULLWStr malloc .SHLLINK_ERR_NULLPCPSU
    modify fun p => { p with linkInfo.commonPathSuffixUnicode := suffix })

inductive StringItem where
  | nameString
  | relativePath
  | workingDir
  | commandLineArguments
  | iconLocation
  deriving DecidableEq

namespace StringItem

def flag : StringItem → UInt64
  | nameString => LF_HasName
  | relativePath => LF_HasRelativePath
  | workingDir => LF_HasWorkingDir
  | commandLineArguments => LF_HasArguments
  | iconLocation => LF_HasIconLocation

def errv1 : StringItem → ShellinkErr
  | nameString => .SHLLINK_ERR_NULLPSTRDNAME
  | relativePath => .SHLLINK_ERR_NULLPSTRDRPATH
  | workingDir => .SHLLINK_ERR_NULLPSTRDWDIR
  | commandLineArguments => .SHLLINK_ERR_NULLPSTRDARG
  | iconLocation => .SHLLINK_ERR_NULLPSTRDICO

def wide (item : StringItem) (d : StringData) : WString :=
  match item with
  | nameString => d.nameStringW
  | relativePath => d.relativePathW
  | workingDir => d.workingDirW
  | commandLineArguments => d.commandLineArgumentsW
  | iconLocation => d.iconLocationW

def ansi (item : StringItem) (d : StringData) : List UInt8 :=
  match item with
  | nameString => d.nameStringA
  | relativePath => d.relativePathA
  | workingDir => d.workingDirA
  | commandLineArguments => d.commandLineArgumentsA
  | iconLocation => d.iconLocationA

def storeWide (item : StringItem) (s : WString) (d : StringData) : StringData :=
  match item with
  | nameString => { d with nameStringW := s }
  | relativePath => { d with relativePathW := s }
  | workingDir => { d with workingDirW := s }
  | commandLineArguments => { d with commandLineArgumentsW := s }
  | iconLocation => { d with iconLocationW := s }

def storeAnsi (item : StringItem) (s : List UInt8) (d : StringData) : StringData :=
  match item with
  | nameString => { d with nameStringA := s }
  | relativePath => { d with relativePathA := s }
  | workingDir => { d with workingDirA := s }
  | commandLineArguments => { d with commandLineArgumentsA := s }
  | iconLocation => { d with iconLocationA := s }

/-- In the order in which load reads them. -/
def all : List StringItem :=
  [nameString, relativePath, workingDir, commandLineArguments, iconLocation]

end StringItem

def readStringItem (item : StringItem) : Loader Unit := do
  let linkFlags ← inspect fun p => p.header.linkFlags
  when (linkFlags &&& item.flag ≠ 0) (do
    let countCharacters ← loadNumber 2
    if linkFlags &&& LF_IsUnicode ≠ 0 then
      let s ← lift (readWStr malloc item.errv1 ShellinkErr.SHLLINK_ERR_FIO (countCharacters * 2))
      modify fun p => { p with stringData := item.storeWide s p.stringData }
    else
      let s ← lift (readStr malloc item.errv1 ShellinkErr.SHLLINK_ERR_FIO countCharacters)
      modify fun p => { p with stringData := item.storeAnsi s p.stringData })

def readFront : Loader Unit := do
  readHeader
  let linkFlags ← inspect fun p => p.header.linkFlags
  when (linkFlags &&& LF_HasLinkTargetIDList ≠ 0) readTargetIdList
  when (linkFlags &&& LF_HasLinkInfo ≠ 0) (readLinkInfo malloc)

def loadFile : Loader Unit := do
  readFront malloc
  StringItem.all.forM (readStringItem malloc)
  lift (loadExtraData malloc)

/-- There is no file where it cannot be opened. -/
def load (lnkPath : WString) (file : Option (List UInt8)) (p : ShellinkParser) :
    Except Stop Unit × ShellinkParser :=
  let p := { p with targetPath := [], linkPath := lnkPath }
  match file with
  | none => (.error (.err .SHLLINK_ERR_FCL), p)
  | some bytes =>
      let (answer, s) := loadFile malloc ⟨⟨bytes, 0⟩, p⟩
      (answer, s.object)

end Loaders

section Getters

inductive StrRet where
  | cstr (s : List UInt8)
  | wstr (s : WString)
  | offset

/-- The functions of the shell that the getters call. An id list is known to them by its items,
and its name is that which the desktop folder has for it, if there is one. -/
structure Shell where
  ansiToUnicode : List UInt8 → WString
  folderPath : UInt32 → Option WString
  pathFromIDList : List (List UInt8) → Option WString
  displayNameOf : List (List UInt8) → Option StrRet
  parseIconLocation : WString → WString × UInt32

/-- The size in the first two bytes of an item, which counts these bytes too. -/
def itemSize (memory : List UInt8) : Nat := ofLittleEndian (memory.take 2)

/-- What the shell makes of a pointer to an id list: it walks on from there, from item to item,
to one of size zero. -/
def itemsAt (memory : List UInt8) : List (List UInt8) :=
  if itemSize memory = 0 then []
  else memory.take (itemSize memory) :: itemsAt (memory.drop (itemSize memory))
termination_by memory.length
decreasing_by
  next hsize =>
    cases memory with
    | nil => exact absurd rfl hsize
    | cons b bs =>
        rw [List.length_drop, List.length_cons]
        omega

variable (shell : Shell) (behind : List UInt8) (p : ShellinkParser)

def linkInfoPath : WString :=
  let linkInfo := p.linkInfo
  let net := linkInfo.commonNetRelLnk
  if p.header.linkFlags &&& LF_HasLinkInfo ≠ 0 ∧
      p.header.linkFlags &&& LF_ForceNoLinkInfo = 0 then
    if linkInfo.lnkInfFlags &&& LIF_VolumeIDAndLocalBasePath ≠ 0 then
      if 0x24 ≤ linkInfo.linkInfoHeaderSize then
        linkInfo.localBasePathUnicode ++ linkInfo.commonPathSuffixUnicode
      else shell.ansiToUnicode (linkInfo.localBasePath ++ linkInfo.commonPathSuffix)
    else if linkInfo.lnkInfFlags &&& LIF_CommonNetworkRelativeLinkAndPathSuffix ≠ 0 then
      if net.comNetRelLnkFlags &&& CNETRLNK_ValidDevice ≠ 0 then
        if 0x14 < net.netNameOffset then net.deviceNameUnicode
        else shell.ansiToUnicode net.deviceName
      else if net.comNetRelLnkFlags &&& CNETRLNK_ValidNetType ≠ 0 then
        if 0x14 < net.netNameOffset then net.netNameUnicode
        else shell.ansiToUnicode net.netName
      else []
    else []
  else []

def specialFolderPath : WString :=
  if p.extraData.speFolderDB.specialFolderID ≠ 0 then
    (shell.folderPath p.extraData.speFolderDB.specialFolderID).getD []
  else []

/-- The shell is given the pointer to the first byte of the list and no length. The memory
behind the list is the argument behind. -/
def idListPath : WString :=
  if p.header.linkFlags &&& LF_HasLinkTargetIDList ≠ 0 then
    let pIDL := itemsAt (p.targetIdList ++ behind)
    let result := (shell.pathFromIDList pIDL).getD []
    if result = [] then
      match shell.displayNameOf pIDL with
      | some (.cstr s) => shell.ansiToUnicode s
      | some (.wstr s) => s
      | _ => []
    else result
  else []

def targetOf (block : TargetDataBlock) : WString :=
  if block.targetUnicode ≠ [] then block.targetUnicode
  else if block.targetAnsi ≠ [] then shell.ansiToUnicode block.targetAnsi
  else []

def expStringPath : WString :=
  if p.header.linkFlags &&& LF_HasExpString ≠ 0 then targetOf shell p.extraData.envVarDB else []

def getTargetPath : WString × ShellinkParser :=
  let result :=
    if linkInfoPath shell p ≠ [] then linkInfoPath shell p
    else if specialFolderPath shell p ≠ [] then specialFolderPath shell p
    else if idListPath shell behind p ≠ [] then idListPath shell behind p
    else expStringPath shell p
  (result, { p with targetPath := result })

def getString (item : StringItem) : WString :=
  if p.header.linkFlags &&& item.flag ≠ 0 then
    if p.header.linkFlags &&& LF_IsUnicode ≠ 0 then item.wide p.stringData
    else shell.ansiToUnicode (item.ansi p.stringData)
  else []

def getDescription : WString := getString shell p .nameString

def getWorkingDir : WString := getString shell p .workingDir

def getArguments : WString := getString shell p .commandLineArguments

def expIconPath : WString :=
  if p.header.linkFlags &&& LF_HasExpIcon ≠ 0 then targetOf shell p.extraData.iconEnvDB else []

/-- StringCchCopyW copies one character less than MAX_PATH. -/
def getIconPath : WString × ShellinkParser :=
  let result :=
    if getString shell p .iconLocation ≠ [] then getString shell p .iconLocation
    else expIconPath shell p
  if result ≠ [] then
    let (icFile, index) := shell.parseIconLocation ((result.takeWhile (· ≠ 0)).take 259)
    (icFile, { p with iconIndex := index })
  else (result, { p with iconIndex := 0 })

def getIconIndex : UInt32 × ShellinkParser :=
  if p.header.iconIndex ≠ 0 then (p.header.iconIndex, p)
  else
    let p := (getIconPath shell p).2
    (p.iconIndex, p)

end Getters

end Ashe.ShellinkLoad
