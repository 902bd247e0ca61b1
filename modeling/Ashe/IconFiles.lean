import Ashe.IconUtil

namespace Ashe.IconFiles

open ByteWords FileWriting IconUtil

/-- A line needs no padding, or four bytes hold it. -/
def Fits (b : Bitmap) : Prop := b.bmWidthBytes % 4 = 0 ∨ b.bmWidthBytes < 4

instance (b : Bitmap) : Decidable (Fits b) := inferInstanceAs (Decidable (_ ∨ _))

def IconFits (icon : Icon) : Prop := Fits icon.hbmColor ∧ Fits icon.hbmMask

instance (icon : Icon) : Decidable (IconFits icon) := inferInstanceAs (Decidable (_ ∧ _))

def lineBits (b : Bitmap) : Nat := b.bmWidth * (b.bmPlanes * b.bmBitsPixel)

def whole : System := ⟨true, [], []⟩

section Lines

variable (b : Bitmap)

theorem widthBytes_stride : b.bmWidthBytes = stride (lineBits b) := b.widthBytes_eq

theorem widthBytes_lt : b.bmWidthBytes < 2 ^ 31 := by
  have hle : (b.bmWidthBytes + 4) * 1 ≤ (b.bmWidthBytes + 4) * b.bmHeight :=
    Nat.mul_le_mul_left _ b.height_pos
  have hlt := b.size_lt
  omega

theorem height_lt : b.bmHeight < 2 ^ 31 := by
  have hle : 1 * b.bmHeight ≤ (b.bmWidthBytes + 4) * b.bmHeight :=
    Nat.mul_le_mul_right _ (by omega)
  have hlt := b.size_lt
  omega

theorem stride_even (n : Nat) : stride n % 2 = 0 := by
  rw [stride]
  omega

/-- A line in a file is the line and what brings it to a multiple of four. -/
theorem diskStride_eq (n : Nat) :
    diskStride n = if stride n % 4 ≠ 0 then (stride n + 4) / 4 * 4 else stride n := by
  rw [diskStride, stride]
  split <;> omega

theorem stride_le (n : Nat) : stride n ≤ diskStride n := by
  rw [diskStride, stride]
  omega

theorem numBitmapBytes_eq : numBitmapBytes b = diskStride (lineBits b) * b.bmHeight := by
  rw [numBitmapBytes, diskStride_eq, ← widthBytes_stride]

theorem lineBits_pos : 0 < lineBits b :=
  Nat.mul_pos b.width_pos (Nat.mul_pos b.planes_pos b.bitsPixel_pos)

theorem numBitmapBytes_pos : 0 < numBitmapBytes b := by
  rw [numBitmapBytes_eq]
  refine Nat.mul_pos ?_ b.height_pos
  have hpos := lineBits_pos b
  rw [diskStride]
  omega

theorem widthBytes_pos : 0 < b.bmWidthBytes := by
  have hpos := lineBits_pos b
  rw [widthBytes_stride, stride]
  omega

def line (i : Nat) : List UInt8 := (b.bits.drop (i * b.bmWidthBytes)).take b.bmWidthBytes

def diskLine (i : Nat) : List UInt8 :=
  line b i ++ List.replicate (diskStride (lineBits b) - b.bmWidthBytes) 0

/-- The lines below `i`, the lowest on the screen first. -/
def diskLines : Nat → List UInt8
  | 0 => []
  | i + 1 => diskLine b i ++ diskLines i

variable {b}

theorem line_inside {i : Nat} (hi : i < b.bmHeight) :
    b.bmWidthBytes ≤ (b.bits.drop (i * b.bmWidthBytes)).length := by
  have hle : (i + 1) * b.bmWidthBytes ≤ b.bmHeight * b.bmWidthBytes :=
    Nat.mul_le_mul_right _ hi
  rw [List.length_drop, b.bits_length]
  rw [Nat.add_mul, Nat.one_mul] at hle
  omega

theorem line_length {i : Nat} (hi : i < b.bmHeight) : (line b i).length = b.bmWidthBytes := by
  rw [line, List.length_take, Nat.min_eq_left (line_inside hi)]

theorem diskLine_length {i : Nat} (hi : i < b.bmHeight) :
    (diskLine b i).length = diskStride (lineBits b) := by
  have hle := stride_le (lineBits b)
  rw [diskLine, List.length_append, line_length hi, List.length_replicate]
  rw [← widthBytes_stride] at hle
  omega

theorem diskLines_length {i : Nat} (hi : i ≤ b.bmHeight) :
    (diskLines b i).length = diskStride (lineBits b) * i := by
  induction i with
  | zero => rfl
  | succ i ih =>
      rw [diskLines, List.length_append, diskLine_length hi, ih (Nat.le_of_lt hi), Nat.mul_succ,
        Nat.add_comm]

theorem writeFile_whole (f : File) (overrun : Bool) {buffer : List UInt8} {n : Nat}
    (hn : n ≤ buffer.length) (hpos : 0 < n) :
    writeFile ⟨f, whole, overrun⟩ buffer n = (⟨f.put (buffer.take n), whole, overrun⟩, n) := by
  have hlength : (buffer.take n).length = n := List.length_take_of_le hn
  have hnot : decide (buffer.length < n) = false := decide_eq_false (Nat.not_lt.mpr hn)
  have hne : n ≠ 0 := Nat.ne_of_gt hpos
  simp only [writeFile, whole, List.headD_nil, List.append_nil, List.take_take, Nat.min_self,
    hlength, hne, hnot, if_false, Bool.or_false, List.tail_nil]

theorem writePadding_some (h : Fits b) (f : File) (overrun : Bool) (hw : b.bmWidthBytes % 4 ≠ 0) :
    writePadding ⟨f, whole, overrun⟩ b =
      ⟨f.put (List.replicate (diskStride (lineBits b) - b.bmWidthBytes) 0), whole, overrun⟩ := by
  have hlt : b.bmWidthBytes < 4 := h.resolve_left hw
  have heven := stride_even (lineBits b)
  rw [← widthBytes_stride] at heven
  have htwo : b.bmWidthBytes = 2 := by omega
  have hpad : paddingBytes b.bmWidthBytes = 2 := by
    rw [htwo]
    rfl
  have hroom : diskStride (lineBits b) - b.bmWidthBytes = 2 := by
    rw [diskStride_eq, ← widthBytes_stride, htwo]
    rfl
  rw [writePadding, if_pos hw, hpad, hroom, writeFile_whole f overrun (by decide) (by decide)]
  rfl

theorem writePadding_none (s : Saving) (hw : b.bmWidthBytes % 4 = 0) : writePadding s b = s :=
  if_neg (not_not_intro hw)

theorem writeLines_fits (h : Fits b) {i : Nat} (hi : i ≤ b.bmHeight) {f : File} (hf : f.AtEnd)
    (overrun : Bool) (xs : List UInt8) :
    writeLines b b.bits i ⟨f.put xs, whole, overrun⟩ =
      ⟨f.put (xs ++ diskLines b i), whole, overrun⟩ := by
  induction i generalizing xs with
  | zero => rw [diskLines, List.append_nil, writeLines]
  | succ i ih =>
      rw [writeLines, writeFile_whole _ _ (line_inside hi) (widthBytes_pos b), ← line,
        File.put_put hf]
      by_cases hw : b.bmWidthBytes % 4 = 0
      · have hnone : diskStride (lineBits b) - b.bmWidthBytes = 0 := by
          rw [diskStride_eq, ← widthBytes_stride, if_neg (not_not_intro hw), Nat.sub_self]
        have hline : diskLine b i = line b i := by
          rw [diskLine, hnone, List.replicate_zero, List.append_nil]
        rw [writePadding_none _ hw, diskLines, hline, ← List.append_assoc]
        exact ih (Nat.le_of_lt hi) (xs ++ line b i)
      · rw [writePadding_some h _ _ hw, File.put_put hf, diskLines, diskLine,
          ← List.append_assoc, ← List.append_assoc]
        exact ih (Nat.le_of_lt hi) _

theorem writeIconData_fits (h : Fits b) {f : File} (hf : f.AtEnd) (overrun : Bool)
    (xs : List UInt8) :
    writeIconData ⟨f.put xs, whole, overrun⟩ b =
      (⟨f.put (xs ++ diskLines b b.bmHeight), whole, overrun⟩, numBitmapBytes b) :=
  Prod.ext (writeLines_fits h (Nat.le_refl _) hf overrun xs) rfl

theorem writePadding_overrun (s : Saving) :
    (writePadding s b).overrun = true ↔ s.overrun = true ∨ ¬ Fits b := by
  have hlt := widthBytes_lt b
  have heven := stride_even (lineBits b)
  rw [← widthBytes_stride] at heven
  rw [writePadding]
  split
  next hw =>
    have hpad : 4 < paddingBytes b.bmWidthBytes ↔ ¬ Fits b := by
      rw [paddingBytes, Fits]
      omega
    rw [← hpad, writeFile, Bool.or_eq_true, decide_eq_true_eq, List.length_replicate]
  next hw =>
    have hfits : Fits b := .inl (not_not.mp hw)
    simp [hfits]

theorem writePadding_mallocs (s : Saving) :
    (writePadding s b).system.mallocs = s.system.mallocs := by
  rw [writePadding]
  split
  next => rfl
  next => rfl

theorem writeLines_overrun {i : Nat} (hi : i ≤ b.bmHeight) (s : Saving) :
    ((writeLines b b.bits i s).overrun = true ↔ s.overrun = true ∨ 0 < i ∧ ¬ Fits b) ∧
      (writeLines b b.bits i s).system.mallocs = s.system.mallocs := by
  induction i generalizing s with
  | zero => simp [writeLines]
  | succ i ih =>
      obtain ⟨hoverrun, hmallocs⟩ := ih (Nat.le_of_lt hi)
        (writePadding (writeFile s (b.bits.drop (i * b.bmWidthBytes)) b.bmWidthBytes).1 b)
      have hinside : ¬ (b.bits.drop (i * b.bmWidthBytes)).length < b.bmWidthBytes :=
        Nat.not_lt.mpr (line_inside hi)
      rw [writePadding_overrun, writeFile, Bool.or_eq_true, decide_eq_true_eq] at hoverrun
      rw [writeLines, writeFile]
      refine ⟨hoverrun.trans ?_, hmallocs.trans (writePadding_mallocs _)⟩
      simp only [hinside, or_false, or_assoc, Nat.zero_lt_succ, true_and]
      exact or_congr_right (or_iff_left_of_imp And.right)

def Allocates (s : Saving) : Prop := ∀ a ∈ s.system.mallocs, a = true

theorem malloc_allocates {s : Saving} (h : Allocates s) :
    (malloc s).2 = true ∧ Allocates (malloc s).1 := by
  rw [malloc, Allocates]
  rw [Allocates] at h
  cases hm : s.system.mallocs with
  | nil => exact ⟨rfl, nofun⟩
  | cons a mallocs =>
      rw [hm] at h
      exact ⟨h a List.mem_cons_self, fun c hc => h c (List.mem_cons_of_mem _ hc)⟩

theorem malloc_overrun (s : Saving) (file : File) :
    (malloc { s with file := file }).1.overrun = s.overrun := rfl

theorem writeIconData_overrun {s : Saving} (h : Allocates s) :
    ((writeIconData s b).1.overrun = true ↔ s.overrun = true ∨ ¬ Fits b) ∧
      Allocates (writeIconData s b).1 := by
  obtain ⟨hgiven, halloc⟩ := malloc_allocates h
  have hlines := writeLines_overrun (Nat.le_refl b.bmHeight) (malloc s).1
  rw [writeIconData]
  dsimp only
  rw [hgiven, if_pos rfl]
  refine ⟨hlines.1.trans ?_, ?_⟩
  · simp only [b.height_pos, true_and]
    exact Iff.rfl
  · rw [Allocates, hlines.2]
    exact halloc

end Lines

def image (icon : Icon) : List UInt8 :=
  bitmapInfoHeader icon.hbmColor icon.hbmMask ++ diskLines icon.hbmColor icon.hbmColor.bmHeight ++
    diskLines icon.hbmMask icon.hbmMask.bmHeight

def images (icons : List Icon) : List UInt8 := (icons.map image).flatten

def offsets : Nat → List Icon → List Nat
  | _, [] => []
  | offset, icon :: icons => offset :: offsets (offset + (image icon).length) icons

def directory (entries : List (Icon × Nat)) : List UInt8 :=
  (entries.map fun entry => iconDir entry.1 entry.2).flatten

section Files

variable {f : File}

theorem bitmapInfoHeader_length (color mask : Bitmap) :
    (bitmapInfoHeader color mask).length = sizeofBitmapInfoHeader := by
  simp [bitmapInfoHeader, sizeofBitmapInfoHeader]

theorem iconDir_length (icon : Icon) (offset : Nat) :
    (iconDir icon offset).length = sizeofIconDir := by
  simp [iconDir, sizeofIconDir]

theorem writeFile_exactly (f : File) (overrun : Bool) {xs : List UInt8} {n : Nat}
    (h : xs.length = n) (hpos : 0 < n) :
    writeFile ⟨f, whole, overrun⟩ xs n = (⟨f.put xs, whole, overrun⟩, n) := by
  rw [writeFile_whole f overrun (Nat.le_of_eq h.symm) hpos,
    List.take_of_length_le (Nat.le_of_eq h)]

/-- The images come one after the other from where the position is. -/
theorem writeImages_fits {icons : List Icon} (hne : icons ≠ []) (h : ∀ icon ∈ icons, IconFits icon)
    (hf : f.AtEnd) (overrun : Bool) :
    writeImages icons ⟨f, whole, overrun⟩ =
      (⟨f.put (images icons), whole, overrun⟩, some (offsets f.pos icons)) := by
  induction icons generalizing f with
  | nil => exact absurd rfl hne
  | cons icon icons ih =>
      obtain ⟨hcolor, hmask⟩ := h icon List.mem_cons_self
      have himages : images (icon :: icons) = image icon ++ images icons := by
        rw [images, List.map_cons, List.flatten_cons, images]
      have hpos : (f.put (image icon)).pos = f.pos + (image icon).length := rfl
      rw [writeImages, writeIconImageHeader,
        writeFile_exactly f overrun (bitmapInfoHeader_length _ _) (by decide)]
      dsimp only
      rw [if_neg (by decide), writeIconData_fits hcolor hf]
      dsimp only
      rw [if_neg (Nat.ne_of_gt (numBitmapBytes_pos _)), writeIconData_fits hmask hf]
      dsimp only
      rw [if_neg (Nat.ne_of_gt (numBitmapBytes_pos _)), ← image, himages, offsets, ← hpos]
      cases icons with
      | nil =>
          rw [writeImages, images, List.map_nil, List.flatten_nil, List.append_nil, offsets]
          rfl
      | cons other icons =>
          have hrest := fun icon hin => h icon (List.mem_cons_of_mem _ hin)
          rw [ih (List.cons_ne_nil _ _) hrest (File.put_atEnd hf _), File.put_put hf]
          rfl

theorem writeFile_allocates {s : Saving} (h : Allocates s) (buffer : List UInt8) (n : Nat) :
    Allocates (writeFile s buffer n).1 := h

theorem writeFile_overrun (s : Saving) {buffer : List UInt8} {n : Nat} (h : buffer.length = n) :
    (writeFile s buffer n).1.overrun = s.overrun := by
  rw [writeFile, decide_eq_false (Nat.not_lt.mpr (Nat.le_of_eq h.symm)), Bool.or_false]

/-- A bitmap that does not fit makes a write run out of its buffer once the loop comes to it. -/
theorem writeImages_overrun {icons : List Icon} {s : Saving} (h : Allocates s) :
    ((writeImages icons s).1.overrun = true →
        s.overrun = true ∨ ∃ icon ∈ icons, ¬ IconFits icon) ∧
      ((writeImages icons s).2.isSome = true →
        (s.overrun = true ∨ ∃ icon ∈ icons, ¬ IconFits icon) →
          (writeImages icons s).1.overrun = true) := by
  induction icons generalizing s with
  | nil => exact ⟨.inl, fun _ hs => hs.resolve_right nofun⟩
  | cons icon icons ih =>
      have hheader : (writeIconImageHeader s icon.hbmColor icon.hbmMask).1.overrun = s.overrun :=
        writeFile_overrun s (bitmapInfoHeader_length _ _)
      obtain ⟨hcolor, halloc⟩ := writeIconData_overrun (b := icon.hbmColor)
        (writeFile_allocates h (bitmapInfoHeader icon.hbmColor icon.hbmMask)
          sizeofBitmapInfoHeader)
      rw [← writeIconImageHeader, hheader] at hcolor
      obtain ⟨hmask, halloc⟩ := writeIconData_overrun (b := icon.hbmMask) halloc
      rw [← writeIconImageHeader, hcolor, or_assoc, ← not_and_or] at hmask
      obtain ⟨hback, hon⟩ := ih halloc
      rw [← writeIconImageHeader, hmask, or_assoc] at hback hon
      have hicons : (¬ IconFits icon ∨ ∃ icon ∈ icons, ¬ IconFits icon) ↔
          ∃ other ∈ icon :: icons, ¬ IconFits other := by
        simp
      have hfirst {o : Bool} (ho : o = true → s.overrun = true ∨ ¬ IconFits icon) :
          o = true → s.overrun = true ∨ ∃ other ∈ icon :: icons, ¬ IconFits other :=
        fun hi => (ho hi).imp_right fun hn => ⟨icon, List.mem_cons_self, hn⟩
      rw [writeImages]
      dsimp only
      split
      next => exact ⟨fun hs => .inl (hheader ▸ hs), nofun⟩
      next =>
        split
        next =>
          exact ⟨hfirst fun hs => (hcolor.mp hs).imp_right fun hn hfits => hn hfits.1, nofun⟩
        next =>
          split
          next => exact ⟨hfirst hmask.mp, nofun⟩
          next =>
            rw [Option.isSome_map, ← hicons]
            exact ⟨hback, hon⟩

theorem directory_cons (icon : Icon) (offset : Nat) (entries : List (Icon × Nat)) :
    directory ((icon, offset) :: entries) = iconDir icon offset ++ directory entries := by
  rw [directory, List.map_cons, List.flatten_cons, ← directory]

theorem directory_length (entries : List (Icon × Nat)) :
    (directory entries).length = sizeofIconDir * entries.length := by
  induction entries with
  | nil => rfl
  | cons entry entries ih =>
      rw [directory_cons, List.length_append, iconDir_length, ih, List.length_cons, Nat.mul_succ,
        Nat.add_comm]

theorem writeDirectory_room {entries : List (Icon × Nat)} (a c : List UInt8) {room : List UInt8}
    (hroom : room.length = sizeofIconDir * entries.length) (overrun : Bool) :
    writeDirectory entries ⟨⟨a ++ room ++ c, a.length⟩, whole, overrun⟩ =
      (⟨⟨a ++ directory entries ++ c, (a ++ directory entries).length⟩, whole, overrun⟩, true) := by
  induction entries generalizing a room with
  | nil =>
      obtain rfl := List.eq_nil_of_length_eq_zero hroom
      rw [writeDirectory, directory, List.map_nil, List.flatten_nil, List.append_nil]
  | cons entry entries ih =>
      obtain ⟨icon, offset⟩ := entry
      rw [List.length_cons, Nat.mul_succ] at hroom
      have hfirst : (iconDir icon offset).length = (room.take sizeofIconDir).length := by
        rw [iconDir_length, List.length_take]
        omega
      have hrest : (room.drop sizeofIconDir).length = sizeofIconDir * entries.length := by
        rw [List.length_drop]
        omega
      have hsplit : a ++ room ++ c =
          a ++ room.take sizeofIconDir ++ (room.drop sizeofIconDir ++ c) := by
        rw [List.append_assoc, List.append_assoc, ← List.append_assoc (room.take _),
          List.take_append_drop]
      rw [writeDirectory, writeIconDirectoryEntry,
        writeFile_exactly _ _ (iconDir_length icon offset) (by decide)]
      dsimp only
      rw [if_neg (by decide), hsplit, File.put_over _ _ _ _ hfirst, ← List.append_assoc,
        ih _ hrest, directory_cons, List.append_assoc a]

theorem writeDirectory_overrun (entries : List (Icon × Nat)) (s : Saving) :
    (writeDirectory entries s).1.overrun = s.overrun := by
  induction entries generalizing s with
  | nil => rfl
  | cons entry entries ih =>
      obtain ⟨icon, offset⟩ := entry
      have hentry := writeFile_overrun s (iconDir_length icon offset)
      rw [writeDirectory]
      dsimp only
      split
      next => exact hentry
      next => exact (ih _).trans hentry

end Files

def Accepted (hIcons : List (Option Icon)) (filePath : List Char) : Prop :=
  hIcons ≠ [] ∧ filePath ≠ [] ∧ none ∉ hIcons

def headerBytes (n : Nat) : List UInt8 := littleEndian 2 0 ++ littleEndian 2 1 ++ littleEndian 2 n

theorem headerBytes_length (n : Nat) : (headerBytes n).length = sizeofIconHeader := by
  simp [headerBytes, sizeofIconHeader]

section Save

variable {system : System} {hIcons : List (Option Icon)} {filePath : List Char}

theorem mem_filterMap_id {icon : Icon} : icon ∈ hIcons.filterMap id ↔ some icon ∈ hIcons := by
  simp

theorem accepted_iff_not_refused : Accepted hIcons filePath ↔
    ¬ (hIcons.length = 0 ∨ filePath = [] ∨ none ∈ hIcons) := by
  rw [Accepted, not_or, not_or, List.length_eq_zero_iff]

/-- The overrun of a call is that of its images, if it comes to them. -/
theorem saveToFile_overrun (halloc : ∀ a ∈ system.mallocs.tail, a = true) :
    ((saveToFile system hIcons filePath).1.overrun = true →
        ∃ icon ∈ hIcons.filterMap id, ¬ IconFits icon) ∧
      ((saveToFile system hIcons filePath).2 = true →
        (∃ icon ∈ hIcons.filterMap id, ¬ IconFits icon) →
          (saveToFile system hIcons filePath).1.overrun = true) := by
  rw [saveToFile]
  dsimp only
  generalize hIcons.filterMap id = icons
  have hheader : (writeIconHeader ⟨⟨[], 0⟩, system, false⟩ icons.length).1.overrun = false :=
    writeFile_overrun _ (headerBytes_length _)
  have hmallocs : ∀ a ∈ (writeIconHeader ⟨⟨[], 0⟩, system, false⟩
      icons.length).1.system.mallocs.tail, a = true := halloc
  generalize writeIconHeader ⟨⟨[], 0⟩, system, false⟩ icons.length = header at hheader hmallocs
  obtain ⟨s, nWritten⟩ := header
  dsimp only at hheader hmallocs
  split
  next => exact ⟨nofun, nofun⟩
  next =>
    split
    next => exact ⟨nofun, nofun⟩
    next =>
      split
      next => exact ⟨fun hs => absurd (hheader.symm.trans hs) nofun, nofun⟩
      next =>
        generalize setFilePointer s.file (sizeofIconDir * icons.length) = file
        have hmalloc := (malloc_overrun s file).trans hheader
        split
        next => exact ⟨fun hs => absurd (hmalloc.symm.trans hs) nofun, nofun⟩
        next =>
          have hleft : Allocates (malloc { s with file := file }).1 := hmallocs
          obtain ⟨hback, hon⟩ := @writeImages_overrun icons _ hleft
          rw [hmalloc] at hback hon
          split
          next t heq =>
            rw [heq] at hback
            exact ⟨fun hs => (hback hs).resolve_left nofun, nofun⟩
          next t offsets heq =>
            rw [heq] at hback hon
            rw [writeDirectory_overrun]
            exact ⟨fun hs => (hback hs).resolve_left nofun, fun _ hicons => hon rfl (.inr hicons)⟩

theorem accepted_of_saved (h : (saveToFile system hIcons filePath).2 = true) :
    Accepted hIcons filePath := by
  refine accepted_iff_not_refused.mpr fun hrefused => ?_
  rw [saveToFile, if_pos hrefused] at h
  cases h

theorem filterMap_id_ne_nil (h : Accepted hIcons filePath) : hIcons.filterMap id ≠ [] := by
  obtain ⟨hne, _, hnone⟩ := h
  cases hIcons with
  | nil => exact absurd rfl hne
  | cons hIcon hIcons =>
      cases hIcon with
      | none => exact absurd List.mem_cons_self hnone
      | some icon => exact List.cons_ne_nil _ _

theorem saveToFile_whole (h : Accepted hIcons filePath) :
    saveToFile whole hIcons filePath =
      match writeImages (hIcons.filterMap id) ⟨setFilePointer
          ⟨headerBytes (hIcons.filterMap id).length, sizeofIconHeader⟩
          (sizeofIconDir * (hIcons.filterMap id).length), whole, false⟩ with
      | (s, none) => (s, false)
      | (s, some pImageOffset) => writeDirectory ((hIcons.filterMap id).zip pImageOffset)
          { s with file := s.file.seek sizeofIconHeader } := by
  have hheader (n : Nat) : writeIconHeader ⟨⟨[], 0⟩, whole, false⟩ n =
      (⟨⟨headerBytes n, sizeofIconHeader⟩, whole, false⟩, sizeofIconHeader) := by
    rw [writeIconHeader, ← headerBytes, writeFile_exactly _ _ (headerBytes_length n) (by decide),
      File.put, headerBytes_length]
    simp [File.before]
  have hmalloc (file : File) : malloc ⟨file, whole, false⟩ = (⟨file, whole, false⟩, true) := rfl
  have hcreates : ¬ (!whole.creates) = true := by decide
  rw [saveToFile, if_neg (accepted_iff_not_refused.mp h), if_neg hcreates]
  dsimp only
  rw [hheader]
  dsimp only
  rw [if_neg (by decide), hmalloc]
  dsimp only
  generalize writeImages (hIcons.filterMap id) _ = saved
  obtain ⟨s, pImageOffset⟩ := saved
  cases pImageOffset with
  | none => exact if_neg (by decide)
  | some pImageOffset => exact if_neg (by decide)

end Save

section Whole

variable {s : Saving} {b : Bitmap}

theorem writeFile_system (h : s.system = whole) (buffer : List UInt8) (n : Nat) :
    (writeFile s buffer n).1.system = whole := by
  rw [writeFile, h]
  rfl

theorem writeFile_count (h : s.system = whole) {xs : List UInt8} {n : Nat} (hn : xs.length = n)
    (hpos : 0 < n) : (writeFile s xs n).2 = n := by
  obtain ⟨f, system, overrun⟩ := s
  obtain rfl : system = whole := h
  rw [writeFile_exactly f overrun hn hpos]

theorem writePadding_system (h : s.system = whole) : (writePadding s b).system = whole := by
  rw [writePadding]
  split
  next => exact writeFile_system h _ _
  next => exact h

theorem writeLines_system (h : s.system = whole) (data : List UInt8) (i : Nat) :
    (writeLines b data i s).system = whole := by
  induction i generalizing s with
  | zero => exact h
  | succ i ih => exact ih (writePadding_system (writeFile_system h _ _))

theorem writeIconData_system (h : s.system = whole) : (writeIconData s b).1.system = whole := by
  have hmalloc : (malloc s).1.system = whole := by
    rw [malloc, h]
    rfl
  exact writeLines_system hmalloc _ _

theorem writeIconData_count (s : Saving) (b : Bitmap) :
    (writeIconData s b).2 = numBitmapBytes b := rfl

/-- Whatever the lines of the bitmaps, no function tells of no bytes. -/
theorem writeImages_whole (h : s.system = whole) (icons : List Icon) :
    (writeImages icons s).2.isSome = true ∧ (writeImages icons s).1.system = whole := by
  induction icons generalizing s with
  | nil => exact ⟨rfl, h⟩
  | cons icon icons ih =>
      have hcount := writeFile_count h (bitmapInfoHeader_length icon.hbmColor icon.hbmMask)
        (by decide)
      have hheader : (writeIconImageHeader s icon.hbmColor icon.hbmMask).1.system = whole :=
        writeFile_system h _ _
      obtain ⟨hsome, hsystem⟩ := ih (writeIconData_system (b := icon.hbmMask)
        (writeIconData_system (b := icon.hbmColor) hheader))
      have hne : (writeIconImageHeader s icon.hbmColor icon.hbmMask).2 ≠ 0 := by
        rw [writeIconImageHeader, hcount]
        decide
      rw [writeImages]
      dsimp only
      rw [if_neg hne, writeIconData_count, if_neg (Nat.ne_of_gt (numBitmapBytes_pos icon.hbmColor)),
        writeIconData_count, if_neg (Nat.ne_of_gt (numBitmapBytes_pos icon.hbmMask)),
        Option.isSome_map]
      exact ⟨hsome, hsystem⟩

theorem writeDirectory_whole (h : s.system = whole) (entries : List (Icon × Nat)) :
    (writeDirectory entries s).2 = true := by
  induction entries generalizing s with
  | nil => rfl
  | cons entry entries ih =>
      obtain ⟨icon, offset⟩ := entry
      have hcount := writeFile_count h (iconDir_length icon offset) (by decide)
      have hne : (writeIconDirectoryEntry s icon offset).2 ≠ 0 := by
        rw [writeIconDirectoryEntry, hcount]
        decide
      rw [writeDirectory]
      dsimp only
      rw [if_neg hne]
      exact ih (writeFile_system h _ _)

end Whole

/-- Overruns. In whatever way the file is created and written to, where there is memory for the
bitmaps, a write of SaveToFile runs out of its buffer only where an icon has a bitmap whose lines
are neither a multiple of four bytes nor fewer than four, and in a call that returns true exactly
there. In a system that grants everything each call that is not turned away returns true, overrun
or not. -/
theorem overruns_iff {system : System} (halloc : ∀ a ∈ system.mallocs.tail, a = true)
    (hIcons : List (Option Icon)) (filePath : List Char) :
    ((saveToFile system hIcons filePath).1.overrun = true →
        ∃ icon, some icon ∈ hIcons ∧ ¬ IconFits icon) ∧
      ((saveToFile system hIcons filePath).2 = true →
        (∃ icon, some icon ∈ hIcons ∧ ¬ IconFits icon) →
          (saveToFile system hIcons filePath).1.overrun = true) ∧
      ((saveToFile whole hIcons filePath).2 = true ↔ Accepted hIcons filePath) := by
  obtain ⟨hback, hon⟩ := @saveToFile_overrun system hIcons filePath halloc
  simp only [mem_filterMap_id] at hback hon
  refine ⟨hback, hon, accepted_of_saved, fun h => ?_⟩
  rw [saveToFile_whole h]
  generalize setFilePointer ⟨headerBytes (hIcons.filterMap id).length, sizeofIconHeader⟩
    (sizeofIconDir * (hIcons.filterMap id).length) = file
  obtain ⟨hsome, hsystem⟩ := writeImages_whole (s := ⟨file, whole, false⟩) rfl
    (hIcons.filterMap id)
  split
  next s heq =>
    rw [heq] at hsome
    cases hsome
  next s pImageOffset heq =>
    rw [heq] at hsystem
    exact writeDirectory_whole (s := ⟨s.file.seek sizeofIconHeader, s.system, s.overrun⟩) hsystem _

def plane (width height bits : Nat) (data : List UInt8)
    (h : (0 < width ∧ width ≤ 256) ∧ (0 < height ∧ height ≤ 256) ∧ (0 < bits ∧ bits ≤ 32) ∧
      data.length = height * ((width * (1 * bits) + 15) / 16 * 2)) : Bitmap where
  bmWidth := width
  bmHeight := height
  bmWidthBytes := (width * (1 * bits) + 15) / 16 * 2
  bmPlanes := 1
  bmBitsPixel := bits
  bits := data
  width_pos := h.1.1
  width_lt := Nat.lt_of_le_of_lt h.1.2 (by decide)
  height_pos := h.2.1.1
  planes_pos := Nat.one_pos
  bitsPixel_pos := h.2.2.1.1
  depth_le := by omega
  widthBytes_eq := rfl
  size_lt := by
    have hbits : width * (1 * bits) ≤ 256 * (1 * 32) :=
      Nat.mul_le_mul h.1.2 (Nat.mul_le_mul_left 1 h.2.2.1.2)
    have hline : (width * (1 * bits) + 15) / 16 * 2 + 4 ≤ 2000 := by omega
    exact Nat.lt_of_le_of_lt (Nat.mul_le_mul hline h.2.1.2) (by decide)
  bits_length := h.2.2.2

def threeColumns : Icon where
  hbmColor := plane 3 1 16 [1, 2, 3, 4, 5, 6] (by decide)
  hbmMask := plane 3 1 1 [0, 0] (by decide)
  mask_width := rfl
  mask_height := rfl
  mask_planes := rfl
  mask_bitsPixel := rfl

/-- The padding of the line is asked for with a count of 2^32 - 2. -/
theorem overruns_iff_threeColumns :
    (saveToFile whole [some threeColumns] ['x']).2 = true ∧
      (saveToFile whole [some threeColumns] ['x']).1.overrun = true :=
  have h := @overruns_iff whole nofun [some threeColumns] ['x']
  have hsaved := h.2.2.mpr ⟨nofun, nofun, by simp⟩
  ⟨hsaved, h.2.1 hsaved ⟨threeColumns, List.mem_singleton_self _, by decide⟩⟩

end Ashe.IconFiles
