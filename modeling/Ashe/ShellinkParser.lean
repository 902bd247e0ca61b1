import Ashe.ByteWords
import Ashe.FileReading

namespace Ashe.ShellinkParser

open ByteWords FileReading

/-- The answers of load and of the readers of extra data, SHLLINK_ERR_NONE apart. -/
inductive ShellinkErr where
  | SHLLINK_ERR_FCL
  | SHLLINK_ERR_FIO
  | SHLLINK_ERR_WHEADS
  | SHLLINK_ERR_WCLSIDS
  | SHLLINK_ERR_INVLIHS
  | SHLLINK_ERR_VIDSLOW
  | SHLLINK_ERR_NULLPLBP
  | SHLLINK_ERR_NULLPCPS
  | SHLLINK_ERR_NULLPLBPU
  | SHLLINK_ERR_NULLPCPSU
  | SHLLINK_ERR_NULLPNETN
  | SHLLINK_ERR_NULLPDEVN
  | SHLLINK_ERR_NULLPNNU
  | SHLLINK_ERR_NULLPDNU
  | SHLLINK_ERR_NULLPSTRDNAME
  | SHLLINK_ERR_NULLPSTRDRPATH
  | SHLLINK_ERR_NULLPSTRDWDIR
  | SHLLINK_ERR_NULLPSTRDARG
  | SHLLINK_ERR_NULLPSTRDICO
  | SHLLINK_ERR_UNKEDBSIG
  | SHLLINK_ERRX_WRONGSIZE
  | SHLLINK_ERRX_WRONGVERSION
  | SHLLINK_ERR_NULLPEXTD
  | SHLLINK_ERRX_NULLPSTRFNAME
  | SHLLINK_ERRX_NULLPSTRDARDA
  | SHLLINK_ERRX_NULLPSTRDARDU
  | SHLLINK_ERRX_NULLPSTRENVDA
  | SHLLINK_ERRX_NULLPSTRENVDU
  | SHLLINK_ERRX_NULLPSTRIENVDA
  | SHLLINK_ERRX_NULLPSTRIENVDU
  deriving DecidableEq, Repr

structure ConsoleDataBlock where
  fillAttributes : UInt64 := 0
  popupFillAttributes : UInt64 := 0
  screenBufferSizeX : UInt16 := 0
  screenBufferSizeY : UInt16 := 0
  windowSizeX : UInt16 := 0
  windowSizeY : UInt16 := 0
  windowOriginX : UInt16 := 0
  windowOriginY : UInt16 := 0
  fontSize : UInt32 := 0
  fontFamilys : UInt64 := 0
  fontWeight : UInt32 := 0
  faceName : List UInt16 := []
  cursorSize : UInt32 := 0
  fullScreen : UInt32 := 0
  quickEdit : UInt32 := 0
  insertMode : UInt32 := 0
  autoPosition : UInt32 := 0
  historyBufferSize : UInt32 := 0
  numberOfHistoryBuffers : UInt32 := 0
  historyNoDup : UInt32 := 0
  colorTable : List UInt32 := List.replicate 16 0

structure ConsoleFEDataBlock where
  codePage : UInt32 := 0

structure DarwinDataBlock where
  darwinDataAnsi : List UInt8 := []
  darwinDataUnicode : List UInt16 := []

structure TargetDataBlock where
  targetAnsi : List UInt8 := []
  targetUnicode : List UInt16 := []

structure KnownFolderDataBlock where
  knownFolderID : List UInt8 := []
  offset : UInt32 := 0

structure PropertyStoreDataBlock where
  blockSize : UInt32 := 0
  propertyStore : List UInt8 := []

structure ShimDataBlock where
  blockSize : UInt32 := 0
  layerName : List UInt16 := []

structure SpecialFolderDataBlock where
  specialFolderID : UInt32 := 0
  offset : UInt32 := 0

structure TrackerDataBlock where
  length : UInt32 := 0
  version : UInt32 := 0
  machineID : List UInt8 := []
  droid : List UInt8 := []
  droidBirth : List UInt8 := []

structure VistaAndAboveIDListDataBlock where
  blockSize : UInt32 := 0
  wholeIDList : List UInt8 := []

structure ExtraData where
  consoleDB : ConsoleDataBlock := {}
  consoleFEDB : ConsoleFEDataBlock := {}
  darDB : DarwinDataBlock := {}
  envVarDB : TargetDataBlock := {}
  iconEnvDB : TargetDataBlock := {}
  knownFolderDB : KnownFolderDataBlock := {}
  propStoreDB : PropertyStoreDataBlock := {}
  shimDB : ShimDataBlock := {}
  speFolderDB : SpecialFolderDataBlock := {}
  trackerDB : TrackerDataBlock := {}
  vistaAboveIDListDB : VistaAndAboveIDListDataBlock := {}

/-- The constants of the block structures. A size is that of the whole block. -/
def ConsoleDataBlock.BlockSize : UInt32 := 0x000000CC
def ConsoleDataBlock.BlockSignature : UInt32 := 0xA0000002
def ConsoleFEDataBlock.BlockSize : UInt32 := 0x0000000C
def ConsoleFEDataBlock.BlockSignature : UInt32 := 0xA0000004
def DarwinDataBlock.BlockSize : UInt32 := 0x00000314
def DarwinDataBlock.BlockSignature : UInt32 := 0xA0000006
def EnvironmentVariableDataBlock.BlockSize : UInt32 := 0x00000314
def EnvironmentVariableDataBlock.BlockSignature : UInt32 := 0xA0000001
def IconEnvironmentDataBlock.BlockSize : UInt32 := 0x00000314
def IconEnvironmentDataBlock.BlockSignature : UInt32 := 0xA0000007
def KnownFolderDataBlock.BlockSize : UInt32 := 0x0000001C
def KnownFolderDataBlock.BlockSignature : UInt32 := 0xA000000B
def PropertyStoreDataBlock.BlockSignature : UInt32 := 0xA0000009
def ShimDataBlock.BlockSignature : UInt32 := 0xA0000008
def SpecialFolderDataBlock.BlockSize : UInt32 := 0x00000010
def SpecialFolderDataBlock.BlockSignature : UInt32 := 0xA0000005
def TrackerDataBlock.BlockSize : UInt32 := 0x00000060
def TrackerDataBlock.BlockSignature : UInt32 := 0xA0000003
def VistaAndAboveIDListDataBlock.BlockSignature : UInt32 := 0xA000000C

abbrev Reader (α : Type) : Type := Reading ShellinkErr ExtraData α

section Fields

def read16 : Reader UInt16 := do
  let bytes ← fread ShellinkErr.SHLLINK_ERR_FIO 2
  pure (UInt16.ofNat (ofLittleEndian bytes))

def read32 : Reader UInt32 := do
  let bytes ← fread ShellinkErr.SHLLINK_ERR_FIO 4
  pure (UInt32.ofNat (ofLittleEndian bytes))

def field16 (update : UInt16 → ExtraData → ExtraData) : Reader Unit := do
  let v ← read16
  modify (update v)

def field32 (update : UInt32 → ExtraData → ExtraData) : Reader Unit := do
  let v ← read32
  modify (update v)

def wideChars : List UInt8 → List UInt16
  | b0 :: b1 :: bytes => UInt16.ofNat (ofLittleEndian [b0, b1]) :: wideChars bytes
  | _ => []

variable (malloc : Nat → Bool)

/-- The argument malloc says which allocations succeed. The string ends at the first
zero. -/
def readStr (errv1 errv2 : ShellinkErr) (size : Nat) : Reader (List UInt8) := do
  if size = 0 then fail errv1
  else if malloc (size + 1) = false then fail errv1
  else
    let buf ← fread errv2 size
    pure (buf.takeWhile (· ≠ 0))

def readWStr (errv1 errv2 : ShellinkErr) (size : Nat) : Reader (List UInt16) := do
  if size / 2 = 0 then fail errv1
  else if malloc ((size / 2 + 1) * 2) = false then fail errv1
  else
    let buf ← fread errv2 (size / 2 * 2)
    pure ((wideChars buf).takeWhile (· ≠ 0))

end Fields

section Readers

variable (malloc : Nat → Bool)

def readConsoleWindow : Reader Unit := do
  field16 fun v x => { x with consoleDB.fillAttributes := v.toUInt64 }
  field16 fun v x => { x with consoleDB.popupFillAttributes := v.toUInt64 }
  field16 fun v x => { x with consoleDB.screenBufferSizeX := v }
  field16 fun v x => { x with consoleDB.screenBufferSizeY := v }
  field16 fun v x => { x with consoleDB.windowSizeX := v }
  field16 fun v x => { x with consoleDB.windowSizeY := v }
  field16 fun v x => { x with consoleDB.windowOriginX := v }
  field16 fun v x => { x with consoleDB.windowOriginY := v }

def readConsoleFont : Reader Unit := do
  field32 fun v x => { x with consoleDB.fontSize := v }
  field32 fun v x => { x with consoleDB.fontFamilys := v.toUInt64 }
  field32 fun v x => { x with consoleDB.fontWeight := v }
  let faceName ← readWStr malloc .SHLLINK_ERRX_NULLPSTRFNAME ShellinkErr.SHLLINK_ERR_FIO 32
  modify fun x => { x with consoleDB.faceName := faceName }

def readConsoleModes : Reader Unit := do
  field32 fun v x => { x with consoleDB.cursorSize := v }
  field32 fun v x => { x with consoleDB.fullScreen := v }
  field32 fun v x => { x with consoleDB.quickEdit := v }
  field32 fun v x => { x with consoleDB.insertMode := v }
  field32 fun v x => { x with consoleDB.autoPosition := v }
  field32 fun v x => { x with consoleDB.historyBufferSize := v }
  field32 fun v x => { x with consoleDB.numberOfHistoryBuffers := v }
  field32 fun v x => { x with consoleDB.historyNoDup := v }
  -- read a second time, behind the last field before the table
  field32 fun v x => { x with consoleDB.autoPosition := v }

def readColorTable : Reader Unit :=
  (List.range 16).forM fun i =>
    field32 fun v x => { x with consoleDB.colorTable := x.consoleDB.colorTable.set i v }

def readConsoleFields : Reader Unit := do
  readConsoleWindow
  fseek 8
  readConsoleFont malloc
  readConsoleModes
  readColorTable

def readEConsoleDataBlock (blockSize : UInt32) : Reader Unit :=
  if blockSize ≠ ConsoleDataBlock.BlockSize then fail .SHLLINK_ERRX_WRONGSIZE
  else readConsoleFields malloc

def readEConsoleFEDataBlock (blockSize : UInt32) : Reader Unit :=
  if blockSize ≠ ConsoleFEDataBlock.BlockSize then fail .SHLLINK_ERRX_WRONGSIZE
  else field32 fun v x => { x with consoleFEDB.codePage := v }

def readTwoStrings (errAnsi errUnicode : ShellinkErr)
    (storeAnsi : List UInt8 → ExtraData → ExtraData)
    (storeUnicode : List UInt16 → ExtraData → ExtraData) : Reader Unit := do
  let ansi ← readStr malloc errAnsi ShellinkErr.SHLLINK_ERR_FIO 260
  modify (storeAnsi ansi)
  let unicode ← readWStr malloc errUnicode ShellinkErr.SHLLINK_ERR_FIO 520
  modify (storeUnicode unicode)

def readEDarwinDataBlock (blockSize : UInt32) : Reader Unit :=
  if blockSize ≠ DarwinDataBlock.BlockSize then fail .SHLLINK_ERRX_WRONGSIZE
  else readTwoStrings malloc .SHLLINK_ERRX_NULLPSTRDARDA .SHLLINK_ERRX_NULLPSTRDARDU
    (fun s x => { x with darDB.darwinDataAnsi := s })
    (fun s x => { x with darDB.darwinDataUnicode := s })

def readEEnvironmentVariableDataBlock (blockSize : UInt32) : Reader Unit :=
  if blockSize ≠ EnvironmentVariableDataBlock.BlockSize then fail .SHLLINK_ERRX_WRONGSIZE
  else readTwoStrings malloc .SHLLINK_ERRX_NULLPSTRENVDA .SHLLINK_ERRX_NULLPSTRENVDU
    (fun s x => { x with envVarDB.targetAnsi := s })
    (fun s x => { x with envVarDB.targetUnicode := s })

def readEIconEnvironmentDataBlock (blockSize : UInt32) : Reader Unit :=
  if blockSize ≠ IconEnvironmentDataBlock.BlockSize then fail .SHLLINK_ERRX_WRONGSIZE
  else readTwoStrings malloc .SHLLINK_ERRX_NULLPSTRIENVDA .SHLLINK_ERRX_NULLPSTRIENVDU
    (fun s x => { x with iconEnvDB.targetAnsi := s })
    (fun s x => { x with iconEnvDB.targetUnicode := s })

def readEKnownFolderDataBlock (blockSize : UInt32) : Reader Unit :=
  if blockSize ≠ KnownFolderDataBlock.BlockSize then fail .SHLLINK_ERRX_WRONGSIZE
  else do
    let id ← readStr malloc .SHLLINK_ERR_NULLPEXTD ShellinkErr.SHLLINK_ERR_FIO 16
    modify fun x => { x with knownFolderDB.knownFolderID := id }
    field32 fun v x => { x with knownFolderDB.offset := v }

def readEPropertyStoreDataBlock (blockSize : UInt32) : Reader Unit :=
  if blockSize < 0x0000000C then fail .SHLLINK_ERRX_WRONGSIZE
  else do
    modify fun x => { x with propStoreDB.blockSize := blockSize }
    let store ← readStr malloc .SHLLINK_ERR_NULLPEXTD ShellinkErr.SHLLINK_ERR_FIO
      (blockSize - 8).toNat
    modify fun x => { x with propStoreDB.propertyStore := store }

def readEShimDataBlock (blockSize : UInt32) : Reader Unit :=
  if blockSize < 0x00000088 then fail .SHLLINK_ERRX_WRONGSIZE
  else do
    modify fun x => { x with shimDB.blockSize := blockSize }
    let name ← readWStr malloc .SHLLINK_ERR_NULLPEXTD ShellinkErr.SHLLINK_ERR_FIO
      (blockSize - 8).toNat
    modify fun x => { x with shimDB.layerName := name }

def readESpecialFolderDataBlock (blockSize : UInt32) : Reader Unit :=
  if blockSize ≠ SpecialFolderDataBlock.BlockSize then fail .SHLLINK_ERRX_WRONGSIZE
  else do
    field32 fun v x => { x with speFolderDB.specialFolderID := v }
    field32 fun v x => { x with speFolderDB.offset := v }

def readETrackerDataBlock (blockSize : UInt32) : Reader Unit :=
  if blockSize ≠ TrackerDataBlock.BlockSize then fail .SHLLINK_ERRX_WRONGSIZE
  else do
    let length ← read32
    modify fun x => { x with trackerDB.length := length }
    if length ≠ 0x00000058 then fail .SHLLINK_ERRX_WRONGSIZE
    else
      let version ← read32
      modify fun x => { x with trackerDB.version := version }
      if version ≠ 0 then fail .SHLLINK_ERRX_WRONGVERSION
      else
        let machineID ← readStr malloc .SHLLINK_ERR_NULLPEXTD ShellinkErr.SHLLINK_ERR_FIO 16
        modify fun x => { x with trackerDB.machineID := machineID }
        let droid ← readStr malloc .SHLLINK_ERR_NULLPEXTD ShellinkErr.SHLLINK_ERR_FIO 32
        modify fun x => { x with trackerDB.droid := droid }
        let droidBirth ← readStr malloc .SHLLINK_ERR_NULLPEXTD ShellinkErr.SHLLINK_ERR_FIO 32
        modify fun x => { x with trackerDB.droidBirth := droidBirth }

/-- A vector resized to n bytes, with data read over its beginning. -/
def readOver (old : List UInt8) (n : Nat) (data : List UInt8) : List UInt8 :=
  data ++ (old.take n ++ List.replicate (n - old.length) 0).drop data.length

/-- The list is read up to the end of the file, which nothing checks. -/
def readEVistaAndAboveIDListDataBlock (blockSize : UInt32) : Reader Unit :=
  if blockSize < 0x0000000A then fail .SHLLINK_ERRX_WRONGSIZE
  else do
    modify fun x => { x with vistaAboveIDListDB.blockSize := blockSize }
    let idListSize ← read16
    let bytes ← freadSome idListSize.toNat
    modify fun x =>
      let list := readOver x.vistaAboveIDListDB.wholeIDList idListSize.toNat bytes
      { x with vistaAboveIDListDB.wholeIDList := list }

def readBlock (blockSignature blockSize : UInt32) : Reader Unit :=
  if blockSignature = ConsoleDataBlock.BlockSignature then readEConsoleDataBlock malloc blockSize
  else if blockSignature = ConsoleFEDataBlock.BlockSignature then
    readEConsoleFEDataBlock blockSize
  else if blockSignature = DarwinDataBlock.BlockSignature then
    readEDarwinDataBlock malloc blockSize
  else if blockSignature = EnvironmentVariableDataBlock.BlockSignature then
    readEEnvironmentVariableDataBlock malloc blockSize
  else if blockSignature = IconEnvironmentDataBlock.BlockSignature then
    readEIconEnvironmentDataBlock malloc blockSize
  else if blockSignature = KnownFolderDataBlock.BlockSignature then
    readEKnownFolderDataBlock malloc blockSize
  else if blockSignature = PropertyStoreDataBlock.BlockSignature then
    readEPropertyStoreDataBlock malloc blockSize
  else if blockSignature = ShimDataBlock.BlockSignature then readEShimDataBlock malloc blockSize
  else if blockSignature = SpecialFolderDataBlock.BlockSignature then
    readESpecialFolderDataBlock blockSize
  else if blockSignature = TrackerDataBlock.BlockSignature then
    readETrackerDataBlock malloc blockSize
  else if blockSignature = VistaAndAboveIDListDataBlock.BlockSignature then
    readEVistaAndAboveIDListDataBlock blockSize
  else fail .SHLLINK_ERR_UNKEDBSIG

/-- One turn of the loop that has not come to the end: the header of a block and what its
reader does. -/
def readExtraBlock : Reader Unit := do
  let blockSize ← read32
  let blockSignature ← read32
  readBlock malloc blockSignature blockSize

def extraDataLoop (epos : Int) : Nat → Reader Unit
  | 0 => pure ()
  | i + 1 => do
      let cpos ← ftell
      if epos ≤ cpos then pure ()
      else
        readExtraBlock malloc
        extraDataLoop epos i

def kExtraDataBlockNum : Nat := 11

/-- The part of load that reads the extra data, up to the terminal block. -/
def loadExtraData : Reader Unit := do
  let cpos ← ftell
  fseekEnd
  let size ← ftell
  fseekSet cpos
  extraDataLoop malloc (size - 4) kExtraDataBlockNum

end Readers

end Ashe.ShellinkParser
