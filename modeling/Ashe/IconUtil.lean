import Mathlib.Algebra.Group.Nat.Defs
import Ashe.ByteWords
import Ashe.FileWriting

namespace Ashe.IconUtil

open ByteWords FileWriting

/-- A bitmap as GetObject and GetBitmapBits tell of it: its lines lie one after the other, the
top one first, and each is a whole number of words. -/
structure Bitmap where
  bmWidth : Nat
  bmHeight : Nat
  bmWidthBytes : Nat
  bmPlanes : Nat
  bmBitsPixel : Nat
  bits : List UInt8
  width_pos : 0 < bmWidth
  width_lt : bmWidth < 2 ^ 31
  height_pos : 0 < bmHeight
  planes_pos : 0 < bmPlanes
  bitsPixel_pos : 0 < bmBitsPixel
  depth_le : bmPlanes * bmBitsPixel ≤ 32
  widthBytes_eq : bmWidthBytes = (bmWidth * (bmPlanes * bmBitsPixel) + 15) / 16 * 2
  size_lt : (bmWidthBytes + 4) * bmHeight < 2 ^ 31
  bits_length : bits.length = bmHeight * bmWidthBytes
  deriving DecidableEq

/-- The mask has the size of the picture, and one bit for each of its points. -/
structure Icon where
  hbmColor : Bitmap
  hbmMask : Bitmap
  mask_width : hbmMask.bmWidth = hbmColor.bmWidth
  mask_height : hbmMask.bmHeight = hbmColor.bmHeight
  mask_planes : hbmMask.bmPlanes = 1
  mask_bitsPixel : hbmMask.bmBitsPixel = 1
  deriving DecidableEq

/-- What a WriteFile comes to: how many bytes it writes at most, and the memory behind its
buffer, as far as it can be read. -/
structure Answer where
  wrote : Nat
  behind : List UInt8
  deriving DecidableEq

/-- What the system answers in the course of SaveToFile. A malloc or a WriteFile for which no
answer is left succeeds, the write with all that can be read. -/
structure System where
  creates : Bool
  mallocs : List Bool
  answers : List Answer
  deriving DecidableEq

/-- A file that is saved to, what the system will answer, and whether any WriteFile was given
more bytes to write than its buffer has. -/
structure Saving where
  file : File
  system : System
  overrun : Bool
  deriving DecidableEq

def sizeofIconHeader : Nat := 6

def sizeofIconDir : Nat := 16

def sizeofBitmapInfoHeader : Nat := 40

def writeFile (s : Saving) (buffer : List UInt8) (n : Nat) : Saving × Nat :=
  let answer := s.system.answers.headD ⟨n, []⟩
  let written := ((buffer ++ answer.behind).take n).take answer.wrote
  ({ file := if written.length = 0 then s.file else s.file.put written
     system := { s.system with answers := s.system.answers.tail }
     overrun := s.overrun || buffer.length < n }, written.length)

def malloc (s : Saving) : Saving × Bool :=
  ({ s with system := { s.system with mallocs := s.system.mallocs.tail } },
    s.system.mallocs.headD true)

def toLong (n : Nat) : Int := (n : Int).bmod (2 ^ 32)

/-- A distance is a LONG, and none leads to before the file. -/
def setFilePointer (f : File) (distance : Nat) : File :=
  if f.pos + toLong distance < 0 then f else f.seek (f.pos + toLong distance).toNat

def writeIconHeader (s : Saving) (nImages : Nat) : Saving × Nat :=
  writeFile s (littleEndian 2 0 ++ littleEndian 2 1 ++ littleEndian 2 nImages) sizeofIconHeader

def numBitmapBytes (b : Bitmap) : Nat :=
  let nWidthBytes := if b.bmWidthBytes % 4 ≠ 0 then (b.bmWidthBytes + 4) / 4 * 4 else b.bmWidthBytes
  nWidthBytes * b.bmHeight

/-- The BITMAPINFOHEADER of an image. The fields that stay zero come last. -/
def bitmapInfoHeader (color mask : Bitmap) : List UInt8 :=
  littleEndian 4 sizeofBitmapInfoHeader ++ littleEndian 4 color.bmWidth ++
    littleEndian 4 (color.bmHeight * 2) ++ littleEndian 2 color.bmPlanes ++
    littleEndian 2 color.bmBitsPixel ++ littleEndian 4 0 ++
    littleEndian 4 (numBitmapBytes color + numBitmapBytes mask) ++ List.replicate 16 0

def writeIconImageHeader (s : Saving) (color mask : Bitmap) : Saving × Nat :=
  writeFile s (bitmapInfoHeader color mask) sizeofBitmapInfoHeader

def nColorCount (color : Bitmap) : Nat :=
  if 8 ≤ color.bmBitsPixel then 0 else 2 ^ (color.bmBitsPixel * color.bmPlanes)

def iconDir (icon : Icon) (nImageOffset : Nat) : List UInt8 :=
  littleEndian 1 icon.hbmColor.bmWidth ++ littleEndian 1 icon.hbmColor.bmHeight ++
    littleEndian 1 (nColorCount icon.hbmColor) ++ littleEndian 1 0 ++
    littleEndian 2 icon.hbmColor.bmPlanes ++ littleEndian 2 icon.hbmColor.bmBitsPixel ++
    littleEndian 4 (sizeofBitmapInfoHeader +
      (numBitmapBytes icon.hbmColor + numBitmapBytes icon.hbmMask)) ++
    littleEndian 4 nImageOffset

def writeIconDirectoryEntry (s : Saving) (icon : Icon) (nImageOffset : Nat) : Saving × Nat :=
  writeFile s (iconDir icon nImageOffset) sizeofIconDir

/-- The count of padding, a DWORD: 4 - bmWidthBytes wraps where a line has more than four
bytes. -/
def paddingBytes (bmWidthBytes : Nat) : Nat := (2 ^ 32 + 4 - bmWidthBytes) % 2 ^ 32

def writePadding (s : Saving) (b : Bitmap) : Saving :=
  if b.bmWidthBytes % 4 ≠ 0 then
    (writeFile s (List.replicate 4 0) (paddingBytes b.bmWidthBytes)).1
  else s

/-- The loop of WriteIconData over the lines below `i`, the lowest on the screen first. What
WriteFile tells is not looked at. -/
def writeLines (b : Bitmap) (data : List UInt8) : Nat → Saving → Saving
  | 0, s => s
  | i + 1, s =>
      let s := (writeFile s (data.drop (i * b.bmWidthBytes)) b.bmWidthBytes).1
      writeLines b data i (writePadding s b)

/-- The lines are written from nowhere where malloc has failed. -/
def writeIconData (s : Saving) (b : Bitmap) : Saving × Nat :=
  let (s, pIconData) := malloc s
  let data := if pIconData then b.bits else []
  (writeLines b data b.bmHeight s, numBitmapBytes b)

/-- The first loop of SaveToFile, with pImageOffset. It is left where a function tells of no
bytes. -/
def writeImages : List Icon → Saving → Saving × Option (List Nat)
  | [], s => (s, some [])
  | icon :: icons, s =>
      let offset := s.file.pos
      let (s, nWritten) := writeIconImageHeader s icon.hbmColor icon.hbmMask
      if nWritten = 0 then (s, none)
      else
        let (s, nColor) := writeIconData s icon.hbmColor
        if nColor = 0 then (s, none)
        else
          let (s, nMask) := writeIconData s icon.hbmMask
          if nMask = 0 then (s, none)
          else
            let (s, pImageOffset) := writeImages icons s
            (s, pImageOffset.map fun offsets => offset :: offsets)

def writeDirectory : List (Icon × Nat) → Saving → Saving × Bool
  | [], s => (s, true)
  | (icon, offset) :: entries, s =>
      let (s, nWritten) := writeIconDirectoryEntry s icon offset
      if nWritten = 0 then (s, false) else writeDirectory entries s

/-- SaveToFile of colour icons that GetIconInfo tells of. A null handle is none, and a file
that was not created is empty. -/
def saveToFile (system : System) (hIcons : List (Option Icon)) (filePath : List Char) :
    Saving × Bool :=
  let s : Saving := ⟨⟨[], 0⟩, system, false⟩
  if hIcons.length = 0 ∨ filePath = [] ∨ none ∈ hIcons then (s, false)
  else if !system.creates then (s, false)
  else
    let icons := hIcons.filterMap id
    let (s, nWritten) := writeIconHeader s icons.length
    if nWritten = 0 then (s, false)
    else
      let s := { s with file := setFilePointer s.file (sizeofIconDir * icons.length) }
      let (s, allocated) := malloc s
      if !allocated then (s, false)
      else match writeImages icons s with
        | (s, none) => (s, false)
        | (s, some pImageOffset) =>
            writeDirectory (icons.zip pImageOffset)
              { s with file := s.file.seek sizeofIconHeader }

/-- What an icon shows. The colours are those of its table, which it has up to eight bits. -/
structure Picture where
  width : Nat
  height : Nat
  bitsPixel : Nat
  colors : List UInt8
  color : List UInt8
  mask : List UInt8
  deriving DecidableEq

def Icon.picture (icon : Icon) : Picture :=
  ⟨icon.hbmColor.bmWidth, icon.hbmColor.bmHeight, icon.hbmColor.bmBitsPixel, [],
    icon.hbmColor.bits, icon.hbmMask.bits⟩

def field (bytes : List UInt8) (a k : Nat) : Nat := ofLittleEndian ((bytes.drop a).take k)

/-- The bytes of a line in a file, a multiple of four. -/
def diskStride (bits : Nat) : Nat := (bits + 31) / 32 * 4

/-- The bytes of a line of a bitmap, a multiple of two. -/
def stride (bits : Nat) : Nat := (bits + 15) / 16 * 2

/-- The lines of a bitmap from a file, where the lowest comes first. -/
def readLines (bits : Nat) : Nat → List UInt8 → List UInt8
  | 0, _ => []
  | n + 1, bs => readLines bits n (bs.drop (diskStride bits)) ++ bs.take (stride bits)

def colorTableBytes (bitsPixel clrUsed : Nat) : Nat :=
  if clrUsed ≠ 0 then 4 * clrUsed else if bitsPixel ≤ 8 then 4 * 2 ^ bitsPixel else 0

/-- An image by the format: a header of one plane without compression, the colour table, the
lines of the picture and those of the mask. -/
def readImage (bs : List UInt8) : Option Picture :=
  let width := field bs 4 4
  let height := field bs 8 4 / 2
  let bitsPixel := field bs 14 2
  let tableBytes := colorTableBytes bitsPixel (field bs 32 4)
  let colorBytes := diskStride (width * bitsPixel) * height
  let table := bs.drop sizeofBitmapInfoHeader
  let color := table.drop tableBytes
  if field bs 0 4 = sizeofBitmapInfoHeader ∧ field bs 8 4 % 2 = 0 ∧ field bs 12 2 = 1 ∧
      bitsPixel ∈ [1, 4, 8, 16, 24, 32] ∧ field bs 16 4 = 0 ∧
      sizeofBitmapInfoHeader + tableBytes + colorBytes + diskStride width * height ≤ bs.length then
    some ⟨width, height, bitsPixel, table.take tableBytes,
      readLines (width * bitsPixel) height color,
      readLines width height (color.drop colorBytes)⟩
  else none

/-- A size in an entry is one byte, of which zero stands for 256. -/
def entrySize (n : Nat) : Nat := if n = 0 then 256 else n

/-- The image that the entry at `e` tells of. It must lie in the file, and have the size and
the depth that the entry has. -/
def readEntry (bytes : List UInt8) (e : Nat) : Option Picture :=
  let size := field bytes (e + 8) 4
  let offset := field bytes (e + 12) 4
  if offset + size ≤ bytes.length then
    match readImage ((bytes.drop offset).take size) with
    | none => none
    | some picture =>
        if picture.width = entrySize (field bytes e 1) ∧
            picture.height = entrySize (field bytes (e + 1) 1) ∧
            picture.bitsPixel = field bytes (e + 6) 2 then some picture
        else none
  else none

def readEntries (bytes : List UInt8) : Nat → Nat → Option (List Picture)
  | _, 0 => some []
  | e, n + 1 => do
      let picture ← readEntry bytes e
      let pictures ← readEntries bytes (e + sizeofIconDir) n
      some (picture :: pictures)

def readIcons (bytes : List UInt8) : Option (List Picture) :=
  if field bytes 0 2 = 0 ∧ field bytes 2 2 = 1 then
    readEntries bytes sizeofIconHeader (field bytes 4 2)
  else none

end Ashe.IconUtil
