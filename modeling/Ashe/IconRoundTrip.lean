import Mathlib.Algebra.Group.Nat.Defs
import Ashe.IconFiles

namespace Ashe.IconRoundTrip

open ByteWords FileWriting IconUtil IconFiles

section Fields

variable {a j k n : Nat} (bs : List UInt8)

theorem field_append (xs : List UInt8) (j k : Nat) :
    field (xs ++ bs) (xs.length + j) k = field bs j k := by
  rw [field, ← List.drop_drop, List.drop_left, field]

theorem field_skip (h : j ≤ a) : field (littleEndian j n ++ bs) a k = field bs (a - j) k := by
  have hfield := field_append bs (littleEndian j n) (a - j) k
  rwa [littleEndian_length, Nat.add_sub_cancel' h] at hfield

theorem field_here (h : n < 256 ^ k) : field (littleEndian k n ++ bs) 0 k = n := by
  have htake : (littleEndian k n ++ bs).take k = littleEndian k n :=
    List.take_left' (littleEndian_length k n)
  rw [field, List.drop_zero, htake, ofLittleEndian_littleEndian h]

theorem entrySize_here (hpos : 0 < n) (hle : n ≤ 256) :
    entrySize (field (littleEndian 1 n ++ bs) 0 1) = n := by
  have htake : (littleEndian 1 n ++ bs).take 1 = littleEndian 1 n :=
    List.take_left' (littleEndian_length 1 n)
  rw [field, List.drop_zero, htake, littleEndian, littleEndian, ofLittleEndian, ofLittleEndian,
    UInt8.toNat_ofNat', entrySize]
  split <;> omega

end Fields

section Save

def afterHeader (n : Nat) : File := ⟨headerBytes n, sizeofIconHeader + sizeofIconDir * n⟩

theorem afterHeader_atEnd (n : Nat) : (afterHeader n).AtEnd :=
  Nat.le_trans (Nat.le_of_eq (headerBytes_length n)) (Nat.le_add_right _ _)

theorem offsets_length (offset : Nat) (icons : List Icon) :
    (offsets offset icons).length = icons.length := by
  induction icons generalizing offset with
  | nil => rfl
  | cons icon icons ih => rw [offsets, List.length_cons, ih, List.length_cons]

def entriesOf (icons : List Icon) : List (Icon × Nat) :=
  icons.zip (offsets (sizeofIconHeader + sizeofIconDir * icons.length) icons)

theorem entriesOf_length (icons : List Icon) : (entriesOf icons).length = icons.length := by
  rw [entriesOf, List.length_zip, offsets_length, Nat.min_self]

def iconFile (icons : List Icon) : List UInt8 :=
  headerBytes icons.length ++ directory (entriesOf icons) ++ images icons

theorem afterHeader_put (n : Nat) (xs : List UInt8) : ((afterHeader n).put xs).bytes =
    headerBytes n ++ List.replicate (sizeofIconDir * n) 0 ++ xs := by
  have hroom : sizeofIconHeader + sizeofIconDir * n - sizeofIconHeader = sizeofIconDir * n :=
    Nat.add_sub_cancel_left _ _
  rw [File.put_bytes (afterHeader_atEnd n), File.before,
    List.take_of_length_le (afterHeader_atEnd n), afterHeader, headerBytes_length, hroom]

theorem setFilePointer_eq (f : File) {n : Nat} (h : n < 2 ^ 31) :
    setFilePointer f n = f.seek (f.pos + n) := by
  have hlong : toLong n = n := Int.bmod_eq_of_le_mul_two (by omega) (by omega)
  rw [setFilePointer, hlong, if_neg (by omega), ← Int.natCast_add, Int.toNat_natCast]

/-- The room for the directory is filled, and the images are left as they are. -/
theorem saveToFile_fits {hIcons : List (Option Icon)} {filePath : List Char}
    (h : Accepted hIcons filePath) (hn : (hIcons.filterMap id).length < 2 ^ 16)
    (hfits : ∀ icon ∈ hIcons.filterMap id, IconFits icon) :
    ∃ pos, saveToFile whole hIcons filePath =
      (⟨⟨iconFile (hIcons.filterMap id), pos⟩, whole, false⟩, true) := by
  rw [saveToFile_whole h]
  have hne := filterMap_id_ne_nil h
  generalize hIcons.filterMap id = icons at hfits hne hn
  have hroom : (List.replicate (sizeofIconDir * icons.length) (0 : UInt8)).length =
      sizeofIconDir * (entriesOf icons).length := by
    rw [List.length_replicate, entriesOf_length]
  have hsmall : sizeofIconDir * icons.length < 2 ^ 31 := by
    rw [sizeofIconDir]
    omega
  have hseek : ((afterHeader icons.length).put (images icons)).seek sizeofIconHeader =
      ⟨headerBytes icons.length ++ List.replicate (sizeofIconDir * icons.length) 0 ++ images icons,
        (headerBytes icons.length).length⟩ := by
    rw [File.seek, afterHeader_put, headerBytes_length]
  have hafter : setFilePointer ⟨headerBytes icons.length, sizeofIconHeader⟩
      (sizeofIconDir * icons.length) = afterHeader icons.length := setFilePointer_eq _ hsmall
  rw [hafter, writeImages_fits hne hfits (afterHeader_atEnd _)]
  dsimp only
  rw [hseek, afterHeader, ← entriesOf, writeDirectory_room _ _ hroom]
  exact ⟨_, rfl⟩

end Save

/-- An icon of the format that has no colour table: it has one plane of 16, 24 or 32 bits, and
no side is longer than 256. Its lines fit. -/
structure Supported (icon : Icon) : Prop where
  planes : icon.hbmColor.bmPlanes = 1
  depth : icon.hbmColor.bmBitsPixel ∈ [16, 24, 32]
  width : icon.hbmColor.bmWidth ≤ 256
  height : icon.hbmColor.bmHeight ≤ 256
  fits : IconFits icon

section Images

variable (color mask : Bitmap) (bs : List UInt8)

theorem bitmapInfoHeader_fields :
    field (bitmapInfoHeader color mask ++ bs) 0 4 = sizeofBitmapInfoHeader ∧
      field (bitmapInfoHeader color mask ++ bs) 4 4 = color.bmWidth ∧
      field (bitmapInfoHeader color mask ++ bs) 8 4 = color.bmHeight * 2 ∧
      field (bitmapInfoHeader color mask ++ bs) 12 2 = color.bmPlanes ∧
      field (bitmapInfoHeader color mask ++ bs) 14 2 = color.bmBitsPixel ∧
      field (bitmapInfoHeader color mask ++ bs) 16 4 = 0 ∧
      field (bitmapInfoHeader color mask ++ bs) 32 4 = 0 := by
  have hwidth : color.bmWidth < 256 ^ 4 := Nat.lt_trans color.width_lt (by decide)
  have hheight : color.bmHeight * 2 < 256 ^ 4 := by
    have hlt := height_lt color
    omega
  have hplanes : color.bmPlanes < 256 ^ 2 := by
    have hle := Nat.le_mul_of_pos_right color.bmPlanes color.bitsPixel_pos
    have hdepth := color.depth_le
    omega
  have hbits : color.bmBitsPixel < 256 ^ 2 := by
    have hle := Nat.le_mul_of_pos_left color.bmBitsPixel color.planes_pos
    have hdepth := color.depth_le
    omega
  simp only [bitmapInfoHeader, List.append_assoc]
  refine ⟨field_here _ (by decide), ?_, ?_, ?_, ?_, ?_, ?_⟩
  · rw [field_skip _ (by decide)]
    exact field_here _ hwidth
  · rw [field_skip _ (by decide), field_skip _ (by decide)]
    exact field_here _ hheight
  · rw [field_skip _ (by decide), field_skip _ (by decide), field_skip _ (by decide)]
    exact field_here _ hplanes
  · rw [field_skip _ (by decide), field_skip _ (by decide), field_skip _ (by decide),
      field_skip _ (by decide)]
    exact field_here _ hbits
  · rw [field_skip _ (by decide), field_skip _ (by decide), field_skip _ (by decide),
      field_skip _ (by decide), field_skip _ (by decide)]
    exact field_here _ (by decide)
  · rw [field_skip _ (by decide), field_skip _ (by decide), field_skip _ (by decide),
      field_skip _ (by decide), field_skip _ (by decide), field_skip _ (by decide),
      field_skip _ (by decide)]
    rfl

/-- The lines come back in the order of the screen, without what pads them. -/
theorem readLines_diskLines (b : Bitmap) {i : Nat} (hi : i ≤ b.bmHeight) :
    readLines (lineBits b) i (diskLines b i ++ bs) = b.bits.take (i * b.bmWidthBytes) := by
  induction i with
  | zero => rw [readLines, Nat.zero_mul, List.take_zero]
  | succ i ih =>
      have hdrop : (diskLines b (i + 1) ++ bs).drop (diskStride (lineBits b)) =
          diskLines b i ++ bs := by
        rw [diskLines, List.append_assoc, List.drop_left' (diskLine_length hi)]
      have htake : (diskLines b (i + 1) ++ bs).take (stride (lineBits b)) = line b i := by
        rw [diskLines, diskLine, List.append_assoc, List.append_assoc, ← widthBytes_stride,
          List.take_left' (line_length hi)]
      rw [readLines, hdrop, htake, ih (Nat.le_of_lt hi), line, ← List.take_add, Nat.add_mul,
        Nat.one_mul]

theorem readLines_whole (b : Bitmap) :
    readLines (lineBits b) b.bmHeight (diskLines b b.bmHeight ++ bs) = b.bits := by
  rw [readLines_diskLines bs b (Nat.le_refl _), ← b.bits_length, List.take_length]

theorem mask_lineBits (icon : Icon) : lineBits icon.hbmMask = icon.hbmColor.bmWidth := by
  rw [lineBits, icon.mask_planes, icon.mask_bitsPixel, icon.mask_width, Nat.mul_one]

theorem image_length (icon : Icon) : (image icon).length =
    sizeofBitmapInfoHeader + (numBitmapBytes icon.hbmColor + numBitmapBytes icon.hbmMask) := by
  rw [image, List.length_append, List.length_append, bitmapInfoHeader_length,
    diskLines_length (Nat.le_refl _), diskLines_length (Nat.le_refl _), ← numBitmapBytes_eq,
    ← numBitmapBytes_eq, Nat.add_assoc]

theorem lineBits_supported {icon : Icon} (h : Supported icon) :
    lineBits icon.hbmColor = icon.hbmColor.bmWidth * icon.hbmColor.bmBitsPixel := by
  rw [lineBits, h.planes, Nat.one_mul]

theorem readImage_image {icon : Icon} (h : Supported icon) :
    readImage (image icon) = some icon.picture := by
  obtain ⟨hsize, hwidth, hheight, hplanes, hbits, hcompression, hused⟩ :=
    bitmapInfoHeader_fields icon.hbmColor icon.hbmMask
      (diskLines icon.hbmColor icon.hbmColor.bmHeight ++
        diskLines icon.hbmMask icon.hbmMask.bmHeight)
  have hhalf : icon.hbmColor.bmHeight * 2 / 2 = icon.hbmColor.bmHeight :=
    Nat.mul_div_cancel _ (by decide)
  have htable : colorTableBytes icon.hbmColor.bmBitsPixel 0 = 0 := by
    have hdepth : ¬ icon.hbmColor.bmBitsPixel ≤ 8 := by
      have hmem := h.depth
      simp only [List.mem_cons, List.not_mem_nil, or_false] at hmem
      omega
    rw [colorTableBytes, if_neg (by decide), if_neg hdepth]
  have hcolor : diskStride (lineBits icon.hbmColor) * icon.hbmColor.bmHeight =
      (diskLines icon.hbmColor icon.hbmColor.bmHeight).length :=
    (diskLines_length (Nat.le_refl _)).symm
  have hdrop : (image icon).drop sizeofBitmapInfoHeader =
      diskLines icon.hbmColor icon.hbmColor.bmHeight ++
        diskLines icon.hbmMask icon.hbmMask.bmHeight := by
    rw [image, List.append_assoc, List.drop_left' (bitmapInfoHeader_length _ _)]
  have hlength : sizeofBitmapInfoHeader + 0 +
      diskStride (lineBits icon.hbmColor) * icon.hbmColor.bmHeight +
      diskStride icon.hbmColor.bmWidth * icon.hbmColor.bmHeight = (image icon).length := by
    rw [image_length, numBitmapBytes_eq, numBitmapBytes_eq, mask_lineBits, icon.mask_height,
      Nat.add_zero, Nat.add_assoc]
  have hdepth : icon.hbmColor.bmBitsPixel ∈ [1, 4, 8, 16, 24, 32] := by
    have hmem := h.depth
    simp only [List.mem_cons, List.not_mem_nil, or_false] at hmem ⊢
    exact .inr (.inr (.inr hmem))
  rw [← List.append_assoc, ← image] at hsize hwidth hheight hplanes hbits hcompression hused
  have hmask := readLines_whole [] icon.hbmMask
  rw [mask_lineBits, icon.mask_height, List.append_nil] at hmask
  rw [readImage, hsize, hwidth, hheight, hplanes, hbits, hcompression, hused, hhalf, htable,
    ← lineBits_supported h,
    if_pos ⟨rfl, Nat.mul_mod_left _ _, h.planes, hdepth, rfl, Nat.le_of_eq hlength⟩,
    List.drop_zero, hdrop, readLines_whole, hcolor, List.drop_left, icon.mask_height, hmask,
    Icon.picture, List.take_zero]

end Images

section Entries

variable {bytes : List UInt8}

theorem iconDir_fields {icon : Icon} (h : Supported icon) {offset : Nat} (bs : List UInt8)
    (hsize : (image icon).length < 2 ^ 32) (hoffset : offset < 2 ^ 32) :
    entrySize (field (iconDir icon offset ++ bs) 0 1) = icon.hbmColor.bmWidth ∧
      entrySize (field (iconDir icon offset ++ bs) 1 1) = icon.hbmColor.bmHeight ∧
      field (iconDir icon offset ++ bs) 6 2 = icon.hbmColor.bmBitsPixel ∧
      field (iconDir icon offset ++ bs) 8 4 = (image icon).length ∧
      field (iconDir icon offset ++ bs) 12 4 = offset := by
  have hbits : icon.hbmColor.bmBitsPixel < 256 ^ 2 := by
    have hle := Nat.le_mul_of_pos_left icon.hbmColor.bmBitsPixel icon.hbmColor.planes_pos
    have hdepth := icon.hbmColor.depth_le
    omega
  rw [image_length] at hsize ⊢
  simp only [iconDir, List.append_assoc]
  have hskip (j k : Nat) (hj : 6 ≤ j) (ys : List UInt8) :
      field (littleEndian 1 icon.hbmColor.bmWidth ++ (littleEndian 1 icon.hbmColor.bmHeight ++
        (littleEndian 1 (nColorCount icon.hbmColor) ++ (littleEndian 1 0 ++
          (littleEndian 2 icon.hbmColor.bmPlanes ++ ys))))) j k = field ys (j - 6) k := by
    rw [field_skip _ (by omega), field_skip _ (by omega), field_skip _ (by omega),
      field_skip _ (by omega), field_skip _ (by omega)]
    exact congrArg (field ys · k) (by omega)
  refine ⟨entrySize_here _ icon.hbmColor.width_pos h.width, ?_, ?_, ?_, ?_⟩
  · rw [field_skip _ (by decide)]
    exact entrySize_here _ icon.hbmColor.height_pos h.height
  · rw [hskip 6 2 (by decide)]
    exact field_here _ hbits
  · rw [hskip 8 4 (by decide), field_skip _ (by decide)]
    exact field_here _ hsize
  · rw [hskip 12 4 (by decide), field_skip _ (by decide), field_skip _ (by decide)]
    exact field_here _ hoffset

theorem readEntry_at {icon : Icon} (h : Supported icon) {a b c d : List UInt8}
    (hentry : bytes = a ++ iconDir icon b.length ++ c) (himage : bytes = b ++ image icon ++ d)
    (hlt : bytes.length < 2 ^ 32) : readEntry bytes a.length = some icon.picture := by
  have hlen : b.length + (image icon).length ≤ bytes.length := by
    rw [himage, List.length_append, List.length_append]
    exact Nat.le_add_right _ _
  obtain ⟨hwidth, hheight, hbits, hsize, hoffset⟩ :=
    iconDir_fields h c (by omega) (show b.length < 2 ^ 32 by omega)
  have hplace (j k : Nat) :
      field bytes (a.length + j) k = field (iconDir icon b.length ++ c) j k := by
    rw [hentry, List.append_assoc, field_append]
  have hslice : (bytes.drop b.length).take (image icon).length = image icon := by
    rw [himage, List.append_assoc, List.drop_left, List.take_left]
  have hfirst : field bytes a.length 1 = field (iconDir icon b.length ++ c) 0 1 := hplace 0 1
  rw [readEntry, hplace, hplace, hsize, hoffset, if_pos hlen, hslice, readImage_image h]
  dsimp only
  rw [hfirst, hplace, hplace, hwidth, hheight, hbits, if_pos ⟨rfl, rfl, rfl⟩]

theorem images_cons (icon : Icon) (icons : List Icon) :
    images (icon :: icons) = image icon ++ images icons := by
  rw [images, List.map_cons, List.flatten_cons, ← images]

theorem readEntries_at {icons : List Icon} {a b c d : List UInt8}
    (h : ∀ icon ∈ icons, Supported icon)
    (hentries : bytes = a ++ directory (icons.zip (offsets b.length icons)) ++ c)
    (himages : bytes = b ++ images icons ++ d) (hlt : bytes.length < 2 ^ 32) :
    readEntries bytes a.length icons.length = some (icons.map Icon.picture) := by
  induction icons generalizing a b with
  | nil => rfl
  | cons icon icons ih =>
      rw [offsets, List.zip_cons_cons, directory_cons] at hentries
      rw [images_cons] at himages
      have hentry : bytes = a ++ iconDir icon b.length ++
          (directory (icons.zip (offsets (b.length + (image icon).length) icons)) ++ c) := by
        rw [hentries, List.append_assoc, List.append_assoc, List.append_assoc]
      have himage : bytes = b ++ image icon ++ (images icons ++ d) := by
        rw [himages, List.append_assoc, List.append_assoc, List.append_assoc]
      have hrest := ih (a := a ++ iconDir icon b.length) (b := b ++ image icon)
        (fun other hin => h other (List.mem_cons_of_mem _ hin))
        (by rw [List.length_append, List.append_assoc]; exact hentry)
        (by rw [List.append_assoc]; exact himage)
      rw [List.length_append, iconDir_length] at hrest
      rw [List.length_cons, readEntries,
        readEntry_at (h icon List.mem_cons_self) hentry himage hlt, hrest]
      rfl

theorem headerBytes_fields {n : Nat} (hn : n < 2 ^ 16) (bs : List UInt8) :
    field (headerBytes n ++ bs) 0 2 = 0 ∧ field (headerBytes n ++ bs) 2 2 = 1 ∧
      field (headerBytes n ++ bs) 4 2 = n := by
  simp only [headerBytes, List.append_assoc]
  refine ⟨field_here _ (by decide), ?_, ?_⟩
  · rw [field_skip _ (by decide)]
    exact field_here _ (by decide)
  · rw [field_skip _ (by decide), field_skip _ (by decide)]
    exact field_here _ hn

theorem readIcons_iconFile {icons : List Icon} (h : ∀ icon ∈ icons, Supported icon)
    (hn : icons.length < 2 ^ 16) (hlt : (iconFile icons).length < 2 ^ 32) :
    readIcons (iconFile icons) = some (icons.map Icon.picture) := by
  obtain ⟨hreserved, htype, hcount⟩ := headerBytes_fields hn
    (directory (entriesOf icons) ++ images icons)
  rw [← List.append_assoc, ← iconFile] at hreserved htype hcount
  have hroom : (headerBytes icons.length ++ directory (entriesOf icons)).length =
      sizeofIconHeader + sizeofIconDir * icons.length := by
    rw [List.length_append, headerBytes_length, directory_length, entriesOf_length]
  have hentries : iconFile icons = headerBytes icons.length ++ directory (icons.zip
      (offsets (headerBytes icons.length ++ directory (entriesOf icons)).length icons)) ++
        images icons := by
    rw [hroom, ← entriesOf, iconFile]
  have himages : iconFile icons =
      (headerBytes icons.length ++ directory (entriesOf icons)) ++ images icons ++ [] := by
    rw [List.append_nil, iconFile]
  have hread := readEntries_at h hentries himages hlt
  rw [headerBytes_length] at hread
  rw [readIcons, hreserved, htype, hcount, if_pos ⟨rfl, rfl⟩, hread]

end Entries

/-- Reading back. Where the system grants everything, the file that SaveToFile leaves of icons
without a colour table shows those icons to a reader of the format: the directory leads to each
image and has its size, and the header to each line. -/
theorem saved_reads_back {icons : List Icon} {filePath : List Char} (hne : icons ≠ [])
    (hpath : filePath ≠ []) (h : ∀ icon ∈ icons, Supported icon) (hn : icons.length < 2 ^ 16)
    (hlt : (saveToFile whole (icons.map some) filePath).1.file.bytes.length < 2 ^ 31) :
    (saveToFile whole (icons.map some) filePath).2 = true ∧
      readIcons (saveToFile whole (icons.map some) filePath).1.file.bytes =
        some (icons.map Icon.picture) := by
  have hicons : (icons.map some).filterMap id = icons := by simp
  have haccepted : Accepted (icons.map some) filePath := by
    refine ⟨?_, hpath, by simp⟩
    rw [Ne, List.map_eq_nil_iff]
    exact hne
  obtain ⟨pos, hfile⟩ := saveToFile_fits haccepted (by rwa [hicons])
    fun icon hin => (h icon (by rwa [hicons] at hin)).fits
  rw [hicons] at hfile
  rw [hfile] at hlt ⊢
  exact ⟨rfl, readIcons_iconFile h hn (Nat.lt_trans hlt (by decide))⟩

/-- Four columns of eight bits, which come without their colour table. -/
def paletted : Icon where
  hbmColor := plane 4 1 8 [0, 1, 2, 3] (by decide)
  hbmMask := plane 4 1 1 [0, 0] (by decide)
  mask_width := rfl
  mask_height := rfl
  mask_planes := rfl
  mask_bitsPixel := rfl

example : (saveToFile whole [some paletted] ['x']).2 = true ∧
    readIcons (saveToFile whole [some paletted] ['x']).1.file.bytes = none := by decide +kernel

def wide : Icon where
  hbmColor := plane 2 1 32 [1, 2, 3, 255, 4, 5, 6, 0] (by decide)
  hbmMask := plane 2 1 1 [64, 0] (by decide)
  mask_width := rfl
  mask_height := rfl
  mask_planes := rfl
  mask_bitsPixel := rfl

def deep : Icon where
  hbmColor := plane 1 2 32 [1, 2, 3, 255, 4, 5, 6, 255] (by decide)
  hbmMask := plane 1 2 1 [0, 0, 0, 0] (by decide)
  mask_width := rfl
  mask_height := rfl
  mask_planes := rfl
  mask_bitsPixel := rfl

theorem saved_reads_back_twoIcons :
    (saveToFile whole [some wide, some deep] ['x']).1.file.bytes.length = 146 ∧
      readIcons (saveToFile whole [some wide, some deep] ['x']).1.file.bytes =
        some [wide.picture, deep.picture] := by
  have hsupported : ∀ icon ∈ [wide, deep], Supported icon := by
    intro icon hin
    rcases List.mem_pair.mp hin with rfl | rfl
    · exact ⟨rfl, by decide, by decide, by decide, by decide⟩
    · exact ⟨rfl, by decide, by decide, by decide, by decide⟩
  exact ⟨by decide +kernel, (@saved_reads_back [wide, deep] ['x'] nofun nofun hsupported
    (by decide) (by decide +kernel)).2⟩

end Ashe.IconRoundTrip
