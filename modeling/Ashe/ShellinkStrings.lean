import Ashe.ShellinkCarry
import Mathlib.Data.List.TakeWhile

namespace Ashe.ShellinkStrings

open ByteWords FileReading ShellinkParser ShellinkLoad ShellinkTwice ShellinkCarry TwoRuns
open EnvVariable (WString)

def charWidth (linkFlags : UInt64) : Nat := if linkFlags &&& LF_IsUnicode ≠ 0 then 2 else 1

/-- A string as it stands in a link, behind the number of its characters. -/
structure Text (width : Nat) where
  countCharacters : UInt16
  raw : List UInt8
  size : raw.length = countCharacters.toNat * width

/-- A link, with what stands before its strings and what stands behind them. -/
structure Link where
  front : List UInt8
  linkFlags : UInt64
  text : StringItem → Text (charWidth linkFlags)
  extra : List UInt8

namespace Link

variable (link : Link)

def Has (item : StringItem) : Prop := link.linkFlags &&& item.flag ≠ 0

instance (item : StringItem) : Decidable (link.Has item) := inferInstanceAs (Decidable (_ ≠ _))

def itemBytes (item : StringItem) : List UInt8 :=
  if link.Has item then
    littleEndian 2 (link.text item).countCharacters.toNat ++ (link.text item).raw
  else []

def bytes : List UInt8 := link.front ++ StringItem.all.flatMap link.itemBytes ++ link.extra

def offset (k : Nat) : Nat :=
  (link.front ++ (StringItem.all.take k).flatMap link.itemBytes).length

def bufferSize (item : StringItem) : Nat :=
  ((link.text item).countCharacters.toNat + 1) * charWidth link.linkFlags

def Readable (malloc : Nat → Bool) (item : StringItem) : Prop :=
  link.Has item → (link.text item).countCharacters ≠ 0 ∧ malloc (link.bufferSize item) = true

instance (malloc : Nat → Bool) (item : StringItem) : Decidable (link.Readable malloc item) :=
  inferInstanceAs (Decidable (_ → _))

def store (item : StringItem) (o : ShellinkParser) : ShellinkParser :=
  if link.Has item then
    if link.linkFlags &&& LF_IsUnicode ≠ 0 then
      let s := (wideChars (link.text item).raw).takeWhile (· ≠ 0)
      { o with stringData := item.storeWide s o.stringData }
    else
      let s := (link.text item).raw.takeWhile (· ≠ 0)
      { o with stringData := item.storeAnsi s o.stringData }
  else o

def storeAll (items : List StringItem) (o : ShellinkParser) : ShellinkParser :=
  items.foldl (fun o item => link.store item o) o

def Kept (item : StringItem) (d : StringData) : Prop :=
  (link.linkFlags &&& LF_IsUnicode ≠ 0 →
    item.wide d = (wideChars (link.text item).raw).takeWhile (· ≠ 0)) ∧
    (link.linkFlags &&& LF_IsUnicode = 0 →
      item.ansi d = (link.text item).raw.takeWhile (· ≠ 0))

def Exact (item : StringItem) (d : StringData) : Prop :=
  (link.linkFlags &&& LF_IsUnicode ≠ 0 → 0 ∉ wideChars (link.text item).raw →
    item.wide d = wideChars (link.text item).raw) ∧
    (link.linkFlags &&& LF_IsUnicode = 0 → 0 ∉ (link.text item).raw →
      item.ansi d = (link.text item).raw)

/-- Apart from its strings, load can read the link: the front as far as it goes, with the
flags that the link has, and the extra data behind all the strings. -/
def WellFormed (malloc : Nat → Bool) (p : ShellinkParser) : Prop :=
  ∃ o, success (readFront malloc) ⟨⟨link.bytes, 0⟩, p⟩ =
      some ((), ⟨⟨link.bytes, link.front.length⟩, o⟩) ∧
    o.header.linkFlags = link.linkFlags ∧
    (success (loadExtraData malloc) ⟨⟨link.bytes, link.offset 5⟩, o.extraData⟩).isSome = true

end Link

def readUpTo (malloc : Nat → Bool) (k : Nat) : Loader Unit := do
  readFront malloc
  (StringItem.all.take k).forM (readStringItem malloc)

/-- The link is loaded, each of its strings without a zero is that of the object, and each
item is read right behind the one before. -/
structure Accepted (malloc : Nat → Bool) (lnkPath : WString) (link : Link) (p : ShellinkParser) :
    Prop where
  loaded : (load malloc lnkPath (some link.bytes) p).1 = .ok ()
  strings : ∀ item, link.Has item →
    link.Exact item (load malloc lnkPath (some link.bytes) p).2.stringData
  offsets : ∀ k, ∃ s, success (readUpTo malloc k) ⟨⟨link.bytes, 0⟩, opened lnkPath p⟩ =
    some ((), s) ∧ s.file.pos = link.offset k

section Items

variable {malloc : Nat → Bool} {link : Link}

theorem store_linkFlags (item : StringItem) (o : ShellinkParser) :
    (link.store item o).header.linkFlags = o.header.linkFlags := by
  rw [Link.store]
  split
  next => split <;> rfl
  next => rfl

theorem store_extraData (item : StringItem) (o : ShellinkParser) :
    (link.store item o).extraData = o.extraData := by
  rw [Link.store]
  split
  next => split <;> rfl
  next => rfl

theorem success_readCount (before after : List UInt8) (count : UInt16) (o : ShellinkParser) :
    success (loadNumber 2) ⟨⟨before ++ littleEndian 2 count.toNat ++ after, before.length⟩, o⟩ =
      some (count.toNat, ⟨⟨before ++ littleEndian 2 count.toNat ++ after,
        (before ++ littleEndian 2 count.toNat).length⟩, o⟩) := by
  rw [loadNumber, success_bind,
    success_fread_inside _ before _ after o (littleEndian_length 2 count.toNat), Option.bind_some,
    success_pure, ofLittleEndian_littleEndian count.toNat_lt]

theorem success_lift_readStr (e f : ShellinkErr) (before raw after : List UInt8)
    (o : ShellinkParser) : success (lift (readStr malloc e f raw.length))
      ⟨⟨before ++ raw ++ after, before.length⟩, o⟩ =
      if raw.length ≠ 0 ∧ malloc (raw.length + 1) = true then
        some (raw.takeWhile (· ≠ 0), ⟨⟨before ++ raw ++ after, (before ++ raw).length⟩, o⟩)
      else none := by
  rw [lift_readStr]
  by_cases hzero : raw.length = 0
  · rw [if_pos hzero, if_neg fun h => h.1 hzero, success_fail]
  rw [if_neg hzero]
  cases hmem : malloc (raw.length + 1) with
  | false => rw [if_pos rfl, if_neg fun h => Bool.false_ne_true h.2, success_fail]
  | true =>
      rw [if_neg (Ne.symm Bool.false_ne_true), if_pos ⟨hzero, rfl⟩, success_bind,
        success_fread_inside _ before raw after o rfl, Option.bind_some, success_pure]

theorem success_lift_readWStr (e f : ShellinkErr) (before raw after : List UInt8)
    (o : ShellinkParser) {count : Nat} (hraw : raw.length = count * 2) :
    success (lift (readWStr malloc e f (count * 2)))
      ⟨⟨before ++ raw ++ after, before.length⟩, o⟩ =
      if count ≠ 0 ∧ malloc ((count + 1) * 2) = true then
        some ((wideChars raw).takeWhile (· ≠ 0),
          ⟨⟨before ++ raw ++ after, (before ++ raw).length⟩, o⟩)
      else none := by
  rw [lift_readWStr, Nat.mul_div_cancel count (by decide)]
  by_cases hzero : count = 0
  · rw [if_pos hzero, if_neg fun h => h.1 hzero, success_fail]
  rw [if_neg hzero]
  cases hmem : malloc ((count + 1) * 2) with
  | false => rw [if_pos rfl, if_neg fun h => Bool.false_ne_true h.2, success_fail]
  | true =>
      rw [if_neg (Ne.symm Bool.false_ne_true), if_pos ⟨hzero, rfl⟩, success_bind,
        success_fread_inside _ before raw after o hraw, Option.bind_some, success_pure]

theorem toNat_ne_zero {count : UInt16} : count.toNat ≠ 0 ↔ count ≠ 0 :=
  not_congr (UInt16.toNat_inj (b := 0))

/-- Each item is read from its place if it is readable, and load goes on right behind it. -/
theorem success_readStringItem (item : StringItem) (before after : List UInt8)
    {o : ShellinkParser} (hflags : o.header.linkFlags = link.linkFlags) :
    success (readStringItem malloc item)
      ⟨⟨before ++ link.itemBytes item ++ after, before.length⟩, o⟩ =
      if link.Readable malloc item then
        some ((), ⟨⟨before ++ link.itemBytes item ++ after,
          (before ++ link.itemBytes item).length⟩, link.store item o⟩)
      else none := by
  have hinspect (f : UInt64 → Loader Unit) (s : Session ShellinkParser) :
      success ((inspect fun p => p.header.linkFlags) >>= f) s =
        success (f s.object.header.linkFlags) s := rfl
  rw [readStringItem, hinspect, hflags, FileReading.when, Link.store, Link.itemBytes]
  by_cases hhas : link.Has item
  · have hcondition : link.linkFlags &&& item.flag ≠ 0 := hhas
    have hreadable : link.Readable malloc item ↔ (link.text item).countCharacters.toNat ≠ 0 ∧
        malloc (link.bufferSize item) = true := by
      rw [Link.Readable, toNat_ne_zero]
      exact ⟨fun h => h hhas, fun h _ => h⟩
    have hsize := (link.text item).size
    rw [if_pos hcondition, if_pos hhas, if_pos hhas]
    simp only [hreadable, Link.bufferSize]
    generalize (link.text item).countCharacters = count at hsize ⊢
    generalize (link.text item).raw = raw at hsize ⊢
    rw [← List.append_assoc before, List.append_assoc _ raw after, success_bind,
      success_readCount, Option.bind_some, ← List.append_assoc _ raw after]
    by_cases hwide : link.linkFlags &&& LF_IsUnicode ≠ 0
    · have hwidth : charWidth link.linkFlags = 2 := if_pos hwide
      rw [hwidth] at hsize ⊢
      rw [if_pos hwide, if_pos hwide, success_bind, success_lift_readWStr _ _ _ raw after o hsize]
      split
      next => rfl
      next => rfl
    · have hwidth : charWidth link.linkFlags = 1 := if_neg hwide
      rw [hwidth, Nat.mul_one] at hsize ⊢
      rw [if_neg hwide, if_neg hwide, success_bind, ← hsize, success_lift_readStr]
      split
      next => rfl
      next => rfl
  · have hcondition : ¬link.linkFlags &&& item.flag ≠ 0 := hhas
    have hreadable : link.Readable malloc item := fun h => absurd h hhas
    rw [if_neg hcondition, if_neg hhas, if_neg hhas, if_pos hreadable, List.append_nil,
      success_pure]

/-- All items in turn, each from the place behind the one before it. -/
theorem success_readStringItems (items : List StringItem) (before after : List UInt8)
    {o : ShellinkParser} (hflags : o.header.linkFlags = link.linkFlags) :
    success (items.forM (readStringItem malloc))
      ⟨⟨before ++ items.flatMap link.itemBytes ++ after, before.length⟩, o⟩ =
      if ∀ item ∈ items, link.Readable malloc item then
        some ((), ⟨⟨before ++ items.flatMap link.itemBytes ++ after,
          (before ++ items.flatMap link.itemBytes).length⟩,
          link.storeAll items o⟩)
      else none := by
  induction items generalizing before o with
  | nil =>
      rw [if_pos fun _ h => absurd h List.not_mem_nil, List.flatMap_nil, List.append_nil]
      rfl
  | cons item items ih =>
      have hstored : (link.store item o).header.linkFlags = link.linkFlags :=
        (store_linkFlags item o).trans hflags
      have hforM : (item :: items).forM (readStringItem malloc) =
          readStringItem malloc item >>= fun _ => items.forM (readStringItem malloc) := rfl
      rw [List.flatMap_cons, ← List.append_assoc before, List.append_assoc _ _ after,
        hforM, success_bind, success_readStringItem item before _ hflags]
      by_cases hitem : link.Readable malloc item
      · rw [if_pos hitem, Option.bind_some, ← List.append_assoc _ _ after, ih _ hstored]
        simp only [List.forall_mem_cons, hitem, true_and, Link.storeAll,
          List.foldl_cons]
      · rw [if_neg hitem, if_neg fun h => hitem (List.forall_mem_cons.mp h).1]
        rfl

theorem storeAll_extraData (items : List StringItem) (o : ShellinkParser) :
    (link.storeAll items o).extraData = o.extraData := by
  induction items generalizing o with
  | nil => rfl
  | cons item items ih => exact (ih (link.store item o)).trans (store_extraData item o)

theorem kept_store {item other : StringItem} {o : ShellinkParser} (hhas : link.Has item)
    (h : link.Kept item o.stringData ∨ item = other) :
    link.Kept item (link.store other o).stringData := by
  rw [Link.store]
  split
  next =>
    split
    next hwide =>
      refine ⟨fun _ => ?_, fun hansi => absurd hansi hwide⟩
      show item.wide (other.storeWide _ o.stringData) = _
      rw [wide_storeWide]
      split
      next heq => rw [heq]
      next hne => exact (h.resolve_right hne).1 hwide
    next hansi =>
      refine ⟨fun hwide => absurd hwide hansi, fun _ => ?_⟩
      show item.ansi (other.storeAnsi _ o.stringData) = _
      rw [ansi_storeAnsi]
      split
      next heq => rw [heq]
      next hne => exact (h.resolve_right hne).2 (not_not.mp hansi)
  next hno => exact h.resolve_right fun heq => hno (heq ▸ hhas)

theorem kept_storeAll {item : StringItem} (hhas : link.Has item) (items : List StringItem)
    (o : ShellinkParser) (h : link.Kept item o.stringData ∨ item ∈ items) :
    link.Kept item (link.storeAll items o).stringData := by
  induction items generalizing o with
  | nil => exact h.resolve_right List.not_mem_nil
  | cons other items ih =>
      refine ih (link.store other o) ?_
      rw [List.mem_cons, ← or_assoc] at h
      exact h.imp_left (kept_store hhas)

theorem Link.Kept.exact {item : StringItem} {d : StringData} (h : link.Kept item d) :
    link.Exact item d := by
  refine ⟨fun hwide hzero => ?_, fun hansi hzero => ?_⟩
  · rw [h.1 hwide]
    exact List.takeWhile_eq_self_iff.mpr fun c hc =>
      decide_eq_true fun heq : c = 0 => hzero (heq ▸ hc)
  · rw [h.2 hansi]
    exact List.takeWhile_eq_self_iff.mpr fun c hc =>
      decide_eq_true fun heq : c = 0 => hzero (heq ▸ hc)

end Items

section Links

variable {malloc : Nat → Bool} {link : Link} {p : ShellinkParser}

theorem bytes_take (k : Nat) : link.bytes = link.front ++
    (StringItem.all.take k).flatMap link.itemBytes ++
    ((StringItem.all.drop k).flatMap link.itemBytes ++ link.extra) := by
  have hsplit : StringItem.all.flatMap link.itemBytes =
      (StringItem.all.take k).flatMap link.itemBytes ++
        (StringItem.all.drop k).flatMap link.itemBytes := by
    rw [← List.flatMap_append, List.take_append_drop]
  rw [Link.bytes, hsplit, ← List.append_assoc link.front, List.append_assoc _ _ link.extra]

theorem success_readUpTo {o : ShellinkParser}
    (hfront : success (readFront malloc) ⟨⟨link.bytes, 0⟩, p⟩ =
      some ((), ⟨⟨link.bytes, link.front.length⟩, o⟩))
    (hflags : o.header.linkFlags = link.linkFlags) (k : Nat) :
    success (readUpTo malloc k) ⟨⟨link.bytes, 0⟩, p⟩ =
      if ∀ item ∈ StringItem.all.take k, link.Readable malloc item then
        some ((), ⟨⟨link.bytes, link.offset k⟩, link.storeAll (StringItem.all.take k) o⟩)
      else none := by
  have hitems := @success_readStringItems malloc link (StringItem.all.take k) link.front
    ((StringItem.all.drop k).flatMap link.itemBytes ++ link.extra) o hflags
  rw [← bytes_take k] at hitems
  rw [readUpTo, success_bind, hfront]
  exact hitems

theorem success_loadFile : success (loadFile malloc) ⟨⟨link.bytes, 0⟩, p⟩ =
    (success (readUpTo malloc 5) ⟨⟨link.bytes, 0⟩, p⟩).bind fun r =>
      success (lift (loadExtraData malloc)) r.2 := by
  rw [loadFile, readUpTo, success_bind, success_bind, Option.bind_assoc]
  congr 1
  funext r
  exact success_bind _ _ r.2

theorem mem_all (item : StringItem) : item ∈ StringItem.all := by cases item <;> decide

/-- A link is accepted exactly if none of its items is empty and there is memory for all. -/
theorem accepted_iff (malloc : Nat → Bool) (lnkPath : WString) (link : Link) (p : ShellinkParser)
    (h : link.WellFormed malloc (opened lnkPath p)) :
    Accepted malloc lnkPath link p ↔ ∀ item, link.Readable malloc item := by
  obtain ⟨o, hfront, hflags, hextra⟩ := h
  have hupTo := success_readUpTo hfront hflags
  constructor
  · intro haccepted item
    obtain ⟨s, hs, -⟩ := haccepted.offsets 5
    rw [hupTo] at hs
    split at hs
    next hall => exact hall item (mem_all item)
    next => exact absurd hs (by simp)
  · intro hreadable
    have hread (k : Nat) := (hupTo k).trans (if_pos fun item _ => hreadable item)
    obtain ⟨⟨⟨⟩, t⟩, ht⟩ := Option.isSome_iff_exists.mp hextra
    have hload : success (loadFile malloc) ⟨⟨link.bytes, 0⟩, opened lnkPath p⟩ =
        some ((), ⟨t.file, { link.storeAll StringItem.all o with extraData := t.object }⟩) := by
      rw [success_loadFile, hread, Option.bind_some, lift]
      refine success_within.mpr ⟨t, ?_, rfl⟩
      rw [storeAll_extraData]
      exact ht
    have hloaded := load_of_success hload
    refine ⟨?_, fun item hhas => ?_, fun k => ⟨_, hread k, rfl⟩⟩
    · rw [hloaded]
    · rw [hloaded]
      exact (kept_storeAll hhas StringItem.all o (.inr (mem_all item))).exact

def met (malloc : Nat → Bool) (link : Link) (p : ShellinkParser) :
    Option (File × UInt64 × Bool) :=
  (success (readFront malloc) ⟨⟨link.bytes, 0⟩, p⟩).map fun r =>
    (r.2.file, r.2.object.header.linkFlags,
      (success (loadExtraData malloc) ⟨⟨link.bytes, link.offset 5⟩, r.2.object.extraData⟩).isSome)

theorem wellFormed_of_met
    (h : met malloc link p = some (⟨link.bytes, link.front.length⟩, link.linkFlags, true)) :
    link.WellFormed malloc p := by
  obtain ⟨⟨⟨⟩, s⟩, hs, hmet⟩ := Option.map_eq_some_iff.mp h
  obtain ⟨hfile, hrest⟩ := Prod.mk.inj hmet
  obtain ⟨hflags, hextra⟩ := Prod.mk.inj hrest
  refine ⟨s.object, hs.trans ?_, hflags, hextra⟩
  rw [← hfile]

def namedLink (name : Text (charWidth LF_HasName)) : Link where
  front := plainHeader.take 20 ++ [4, 0, 0, 0] ++ List.replicate 52 0
  linkFlags := LF_HasName
  text _ := name
  extra := [0, 0, 0, 0]

def emptyName : Text (charWidth LF_HasName) := ⟨0, [], by decide⟩

def twoCharacters : Text (charWidth LF_HasName) := ⟨2, [0x61, 0x62], by decide⟩

theorem accepted_iff_twoCharacters :
    Accepted (fun _ => true) [] (namedLink twoCharacters) (constructed 0) ↔
      ∀ item, (namedLink twoCharacters).Readable (fun _ => true) item :=
  accepted_iff (fun _ => true) [] (namedLink twoCharacters) (constructed 0)
    (wellFormed_of_met (by decide +kernel))

/-- A link whose name has no characters is refused. -/
theorem accepted_emptyName : ¬∀ (lnkPath : WString) (link : Link) (p : ShellinkParser),
    link.WellFormed (fun _ => true) (opened lnkPath p) →
      Accepted (fun _ => true) lnkPath link p := by
  intro h
  have haccepted := h [] (namedLink emptyName) (constructed 0)
    (wellFormed_of_met (by decide +kernel))
  have hloaded := haccepted.loaded
  revert hloaded
  decide +kernel

end Links

end Ashe.ShellinkStrings
