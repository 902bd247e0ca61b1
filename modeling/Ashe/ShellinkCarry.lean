import Ashe.ShellinkBlocks
import Ashe.ShellinkTwice

namespace Ashe.ShellinkCarry

open FileReading ShellinkParser ShellinkLoad TwoRuns ShellinkBlocks ShellinkTwice
open EnvVariable (WString)

section Runs

variable {malloc malloc' : Nat → Bool} {whole : Bool}

def SameFront (whole : Bool) (o o' : ShellinkParser) : Prop :=
  (SameHeader o o' ∧ SameIdList whole o o') ∧
    (o.header.linkFlags &&& LF_HasLinkInfo ≠ 0 → SameLinkInfo o o')

/-- A link without an id list has nothing to end. -/
def seenIdListOf (linkFlags : UInt64) : Loader Bool :=
  if linkFlags &&& LF_HasLinkTargetIDList ≠ 0 then seenIdList else pure true

def seenFront (malloc : Nat → Bool) : Loader Bool := do
  readHeader
  let linkFlags ← inspect fun p => p.header.linkFlags
  let whole ← seenIdListOf linkFlags
  when (linkFlags &&& LF_HasLinkInfo ≠ 0) (readLinkInfo malloc)
  pure whole

theorem twin_seenIdListOf (flags : UInt64) : Twin (fun o o' => SameHeader o o' ∧
    o.header.linkFlags = flags) (seenIdListOf flags) (seenIdListOf flags) fun whole o o' =>
      (SameHeader o o' ∧ SameIdList whole o o') ∧ o.header.linkFlags = flags := by
  refine twin_ite (fun _ => twin_seenIdList flags) fun hno => twin_pure fun o o' h => ?_
  exact ⟨⟨h.1, fun hflag => absurd (h.2 ▸ hflag) hno⟩, h.2⟩

theorem twin_seenFront : Twin (fun _ _ => True) (seenFront malloc) (seenFront malloc')
    fun whole => SameFront whole := by
  refine Twin.bind twin_readHeader fun _ => ?_
  refine Twin.bind (twin_inspect fun _ _ h => h.1) fun flags => ?_
  refine Twin.bind ((twin_seenIdListOf flags).mono (fun _ _ h => ⟨h.1, h.2.1⟩) fun _ _ _ h => h)
    fun whole => ?_
  refine Twin.bind (twin_when (R := SameFront whole) (fun _ => ?_) fun hno o o' h => ?_) fun _ =>
    twin_pure fun _ _ h => h
  · exact twin_readLinkInfo.mono (fun _ _ h => h.1) fun _ _ _ h => ⟨h.1, fun _ => h.2⟩
  · exact ⟨h.1, fun hflag => absurd (h.2 ▸ hflag) hno⟩

def SameString (item : StringItem) (o o' : ShellinkParser) : Prop :=
  o.header.linkFlags &&& item.flag ≠ 0 →
    (o.header.linkFlags &&& LF_IsUnicode ≠ 0 →
      item.wide o'.stringData = item.wide o.stringData) ∧
    (o.header.linkFlags &&& LF_IsUnicode = 0 → item.ansi o'.stringData = item.ansi o.stringData)

theorem wide_storeWide (item other : StringItem) (s : WString) (d : StringData) :
    other.wide (item.storeWide s d) = if other = item then s else other.wide d := by
  cases item <;> cases other <;> rfl

theorem ansi_storeAnsi (item other : StringItem) (s : List UInt8) (d : StringData) :
    other.ansi (item.storeAnsi s d) = if other = item then s else other.ansi d := by
  cases item <;> cases other <;> rfl

/-- An item that is stored alike is the same, and so are those that were. -/
theorem SameString.storeWide {item other : StringItem} {o o' : ShellinkParser}
    (hwide : o.header.linkFlags &&& LF_IsUnicode ≠ 0) (h : SameString other o o' ∨ other = item)
    (s : WString) : SameString other { o with stringData := item.storeWide s o.stringData }
      { o' with stringData := item.storeWide s o'.stringData } := by
  refine fun hflag => ⟨fun _ => ?_, fun hansi => absurd hansi hwide⟩
  show other.wide (item.storeWide s o'.stringData) = other.wide (item.storeWide s o.stringData)
  rw [wide_storeWide, wide_storeWide]
  split
  next => rfl
  next hne => exact ((h.resolve_right hne) hflag).1 hwide

theorem SameString.storeAnsi {item other : StringItem} {o o' : ShellinkParser}
    (hansi : o.header.linkFlags &&& LF_IsUnicode = 0) (h : SameString other o o' ∨ other = item)
    (s : List UInt8) : SameString other { o with stringData := item.storeAnsi s o.stringData }
      { o' with stringData := item.storeAnsi s o'.stringData } := by
  refine fun hflag => ⟨fun hwide => absurd hansi hwide, fun _ => ?_⟩
  show other.ansi (item.storeAnsi s o'.stringData) = other.ansi (item.storeAnsi s o.stringData)
  rw [ansi_storeAnsi, ansi_storeAnsi]
  split
  next => rfl
  next hne => exact ((h.resolve_right hne) hflag).2 hansi

def SameStrings (whole : Bool) (done : List StringItem) (o o' : ShellinkParser) : Prop :=
  SameFront whole o o' ∧ ∀ item ∈ done, SameString item o o'

theorem SameStrings.done {done : List StringItem} {item other : StringItem}
    {o o' : ShellinkParser} (h : SameStrings whole done o o') (hother : other ∈ done ++ [item]) :
    SameString other o o' ∨ other = item := by
  rw [List.mem_append, List.mem_singleton] at hother
  exact hother.imp_left (h.2 other)

theorem twin_readStringItem (item : StringItem) (done : List StringItem) :
    Twin (SameStrings whole done) (readStringItem malloc item) (readStringItem malloc' item)
      fun _ => SameStrings whole (done ++ [item]) := by
  refine Twin.bind (twin_inspect fun _ _ h => h.1.1.1.1) fun flags => twin_when (fun hflag => ?_) ?_
  · refine Twin.bind (twin_loadNumber 2) fun count => twin_ite (fun hwide => ?_) fun hansi => ?_
    · refine Twin.bind (twin_lift_readWStr _ _ _) fun s => twin_modify ?_
      rintro o o' ⟨h, rfl, -⟩
      exact ⟨h.1, fun other hother => SameString.storeWide hwide (h.done hother) s⟩
    · refine Twin.bind (twin_lift_readStr _ _ _) fun s => twin_modify ?_
      rintro o o' ⟨h, rfl, -⟩
      exact ⟨h.1, fun other hother =>
        SameString.storeAnsi (not_not.mp hansi) (h.done hother) s⟩
  · rintro hno o o' ⟨h, rfl, -⟩
    refine ⟨h.1, fun other hother => (h.done hother).elim id ?_⟩
    rintro rfl hflag
    exact absurd hflag hno

theorem twin_readStringItems (items done : List StringItem) :
    Twin (SameStrings whole done) (items.forM (readStringItem malloc))
      (items.forM (readStringItem malloc')) fun _ => SameStrings whole (done ++ items) := by
  induction items generalizing done with
  | nil =>
      refine twin_pure fun _ _ h => ?_
      rw [List.append_nil]
      exact h
  | cons item items ih =>
      refine Twin.bind (twin_readStringItem item done) fun _ => ?_
      have hrest := ih (done ++ [item])
      rw [List.append_assoc] at hrest
      exact hrest

/-- All of load, which tells whether the id list is there as a whole and which blocks
have been read. -/
def seenFile (malloc : Nat → Bool) : Loader (Bool × List UInt32) := do
  let whole ← seenFront malloc
  StringItem.all.forM (readStringItem malloc)
  let signatures ← lift (seenBlocks malloc)
  pure (whole, signatures)

def SameFile (seen : Bool × List UInt32) (o o' : ShellinkParser) : Prop :=
  SameStrings seen.1 StringItem.all o o' ∧ SameBlocks seen.2 o.extraData o'.extraData

theorem twin_seenFile : Twin (fun _ _ => True) (seenFile malloc) (seenFile malloc') SameFile := by
  refine Twin.bind twin_seenFront fun whole => ?_
  refine Twin.bind (Twin.mono (twin_readStringItems StringItem.all []) (fun _ _ h => ⟨h, ?_⟩)
    fun _ _ _ h => h) fun _ => ?_
  · exact fun item hitem => absurd hitem List.not_mem_nil
  refine Twin.bind (Q := fun signatures => SameFile (whole, signatures)) ?_ fun signatures =>
    twin_pure fun _ _ h => h
  refine Twin.within (twin_seenBlocks malloc') (fun _ _ _ => ?_) fun _ _ _ _ _ h hx => ⟨h, hx⟩
  exact ⟨fun h => absurd h List.not_mem_nil, fun h => absurd h List.not_mem_nil,
    fun h => absurd h List.not_mem_nil⟩

theorem tells_seenFront : Tells (readFront malloc) (seenFront malloc) := by
  refine tells_bind fun _ => tells_bind fun flags => Tells.bind ?_ fun whole => ?_
  · exact tells_ite (tells_bind fun _ => tells_bind fun _ => (tells_refl _).pure _) fun _ => rfl
  · exact (tells_refl _).pure fun _ => whole

theorem tells_seenFile : Tells (loadFile malloc) (seenFile malloc) := by
  refine Tells.bind tells_seenFront fun whole => tells_bind fun _ => ?_
  exact tells_seenBlocks.within.pure fun signatures => (whole, signatures)

end Runs

section Getters

variable {shell : Shell} {whole : Bool} {o o' : ShellinkParser}

theorem linkInfoPath_same (h : SameFront whole o o') :
    linkInfoPath shell o' = linkInfoPath shell o := by
  rw [linkInfoPath, linkInfoPath, h.1.1.1]
  split
  next hinfo =>
    obtain ⟨hflags, hsize, hbase, hnet, hsuffix⟩ := h.2 hinfo.1
    rw [hflags, hsize]
    split
    next hvolume =>
      obtain ⟨hpath, hshort⟩ := hbase hvolume
      rw [if_neg hshort, if_neg hshort, hpath, hsuffix]
    next =>
      split
      next hlocation =>
        obtain ⟨hnetFlags, hoffset, hnetName, hdevice, hunicode⟩ := hnet hlocation
        rw [hnetFlags, hoffset, hnetName, hdevice]
        by_cases hlt : 0x14 < o.linkInfo.commonNetRelLnk.netNameOffset
        · rw [(hunicode hlt).1, (hunicode hlt).2]
        · rw [if_neg hlt, if_neg hlt, if_neg hlt, if_neg hlt]
      next => rfl
  next => rfl

theorem getString_same {done : List StringItem} (h : SameStrings whole done o o')
    {item : StringItem} (hitem : item ∈ done) :
    getString shell o' item = getString shell o item := by
  rw [getString, getString, h.1.1.1.1]
  split
  next hflag =>
    obtain ⟨hwide, hansi⟩ := h.2 item hitem hflag
    split
    next hunicode => exact hwide hunicode
    next hunicode => rw [hansi (not_not.mp hunicode)]
  next => rfl

/-- The path of the target comes from what the file says, not from what the object held or from
the memory behind its id list: from the link info, or else from a special folder that the file
names, from an id list that ends in the file, or from a block of environment variables. -/
def TargetGiven (shell : Shell) (seen : Bool × List UInt32) (o : ShellinkParser) : Prop :=
  linkInfoPath shell o ≠ [] ∨
    SpecialFolderDataBlock.BlockSignature ∈ seen.2 ∧ (specialFolderPath shell o ≠ [] ∨
      seen.1 = true ∧ (idListPath shell [] o ≠ [] ∨
        (o.header.linkFlags &&& LF_HasExpString ≠ 0 →
          EnvironmentVariableDataBlock.BlockSignature ∈ seen.2)))

def IconGiven (shell : Shell) (seen : Bool × List UInt32) (o : ShellinkParser) : Prop :=
  getString shell o .iconLocation ≠ [] ∨ (o.header.linkFlags &&& LF_HasExpIcon ≠ 0 →
    IconEnvironmentDataBlock.BlockSignature ∈ seen.2)

def Given (shell : Shell) (bytes : List UInt8) : Prop :=
  ∀ malloc p seen s, success (seenFile malloc) ⟨⟨bytes, 0⟩, p⟩ = some (seen, s) →
    TargetGiven shell seen s.object ∧ IconGiven shell seen s.object

variable {seen : Bool × List UInt32}

theorem specialFolderPath_same (h : SameFile seen o o')
    (hfolder : SpecialFolderDataBlock.BlockSignature ∈ seen.2) :
    specialFolderPath shell o' = specialFolderPath shell o := by
  rw [specialFolderPath, specialFolderPath, h.2.2.2 hfolder]

theorem idListPath_same (h : SameFront whole o o') (hwhole : whole = true)
    (behind behind' : List UInt8) : idListPath shell behind' o' = idListPath shell behind o := by
  rw [idListPath, idListPath, h.1.1.1]
  split
  next hflag => rw [h.1.2 hflag hwhole behind behind']
  next => rfl

theorem getTargetPath_same (h : SameFile seen o o') (hgiven : TargetGiven shell seen o)
    (behind behind' : List UInt8) :
    (getTargetPath shell behind' o').1 = (getTargetPath shell behind o).1 := by
  have hfront := h.1.1
  rw [getTargetPath, getTargetPath, linkInfoPath_same hfront]
  dsimp only
  split
  next => rfl
  next hinfo =>
    obtain ⟨hfolder, hrest⟩ := hgiven.resolve_left hinfo
    rw [specialFolderPath_same h hfolder]
    split
    next => rfl
    next hspecial =>
      obtain ⟨hwhole, hrest⟩ := hrest.resolve_left hspecial
      have hlist : idListPath shell behind o = idListPath shell [] o :=
        (idListPath_same hfront hwhole behind []).symm.trans (idListPath_same hfront hwhole [] [])
      rw [idListPath_same hfront hwhole [] behind', hlist]
      split
      next => rfl
      next hlist =>
        have henv := hrest.resolve_left hlist
        rw [expStringPath, expStringPath, hfront.1.1.1]
        split
        next hflag => rw [h.2.1 (henv hflag)]
        next => rfl

theorem getIconPath_same (h : SameFile seen o o') (hgiven : IconGiven shell seen o) :
    (getIconPath shell o').1 = (getIconPath shell o).1 ∧
      (getIconPath shell o').2.iconIndex = (getIconPath shell o).2.iconIndex := by
  have hlocation : getString shell o' .iconLocation = getString shell o .iconLocation :=
    getString_same h.1 (by decide)
  have hicon : (if getString shell o .iconLocation ≠ [] then getString shell o .iconLocation
      else expIconPath shell o') = (if getString shell o .iconLocation ≠ [] then
      getString shell o .iconLocation else expIconPath shell o) := by
    split
    next => rfl
    next hempty =>
      have hblock := hgiven.resolve_left hempty
      rw [expIconPath, expIconPath, h.1.1.1.1.1]
      split
      next hflag => rw [h.2.2.1 (hblock hflag)]
      next => rfl
  rw [getIconPath, getIconPath, hlocation]
  dsimp only
  rw [hicon]
  generalize (if getString shell o .iconLocation ≠ [] then getString shell o .iconLocation
    else expIconPath shell o) = result
  by_cases hresult : result ≠ []
  · rw [if_pos hresult, if_pos hresult]
    exact ⟨rfl, rfl⟩
  · rw [if_neg hresult, if_neg hresult]
    exact ⟨rfl, rfl⟩

theorem getIconIndex_same (h : SameFile seen o o') (hgiven : IconGiven shell seen o) :
    (getIconIndex shell o').1 = (getIconIndex shell o).1 := by
  rw [getIconIndex, getIconIndex, h.1.1.1.1.2]
  split
  next => rfl
  next => exact (getIconPath_same h hgiven).2

theorem TargetGiven.elsewhere (h : SameFile seen o o') (hgiven : TargetGiven shell seen o) :
    TargetGiven shell seen o' := by
  rw [TargetGiven, linkInfoPath_same h.1.1]
  refine hgiven.imp_right fun hrest => ⟨hrest.1, ?_⟩
  rw [specialFolderPath_same h hrest.1]
  refine hrest.2.imp_right fun hlist => ⟨hlist.1, ?_⟩
  rw [idListPath_same h.1.1 hlist.1 [] [], h.1.1.1.1.1]
  exact hlist.2

theorem IconGiven.elsewhere (h : SameFile seen o o') (hgiven : IconGiven shell seen o) :
    IconGiven shell seen o' := by
  rw [IconGiven, getString_same h.1 (by decide), h.1.1.1.1.1]
  exact hgiven

theorem given_of_run {malloc : Nat → Bool} {bytes : List UInt8} {p : ShellinkParser}
    {s : Session ShellinkParser} (hs : success (seenFile malloc) ⟨⟨bytes, 0⟩, p⟩ = some (seen, s))
    (htarget : TargetGiven shell seen s.object) (hicon : IconGiven shell seen s.object) :
    Given shell bytes := by
  intro malloc' p' seen' s' hs'
  obtain ⟨rfl, -, hsame⟩ := twin_seenFile ⟨bytes, 0⟩ p p' seen seen' s s' trivial hs hs'
  exact ⟨htarget.elsewhere hsame, hicon.elsewhere hsame⟩

end Getters

section Histories

/-- The values of the getters that come from the file, where the memory behind the id list is
the argument behind. -/
def observed (shell : Shell) (behind : List UInt8) (p : ShellinkParser) :
    WString × WString × WString × WString × WString × UInt32 :=
  ((getTargetPath shell behind p).1, getDescription shell p, getWorkingDir shell p,
    getArguments shell p, (getIconPath shell p).1, (getIconIndex shell p).1)

structure Call where
  malloc : Nat → Bool
  lnkPath : WString
  file : Option (List UInt8)

def Call.run (call : Call) (p : ShellinkParser) : Except Stop Unit × ShellinkParser :=
  load call.malloc call.lnkPath call.file p

def loads (calls : List Call) (p : ShellinkParser) : ShellinkParser :=
  calls.foldl (fun p call => (call.run p).2) p

theorem observed_same {shell : Shell} {seen : Bool × List UInt32} {o o' : ShellinkParser}
    (h : SameFile seen o o') (htarget : TargetGiven shell seen o) (hicon : IconGiven shell seen o)
    (behind behind' : List UInt8) : observed shell behind' o' = observed shell behind o := by
  have hstring : ∀ item, getString shell o' item = getString shell o item :=
    fun item => getString_same h.1 (by cases item <;> decide)
  rw [observed, observed, getTargetPath_same h htarget behind, (getIconPath_same h hicon).1,
    getIconIndex_same h hicon, getDescription, getWorkingDir, getArguments, hstring, hstring,
    hstring]
  rfl

def opened (lnkPath : WString) (p : ShellinkParser) : ShellinkParser :=
  { p with targetPath := [], linkPath := lnkPath }

theorem load_of_success {malloc : Nat → Bool} {lnkPath : WString} {bytes : List UInt8}
    {p : ShellinkParser} {s : Session ShellinkParser}
    (hs : success (loadFile malloc) ⟨⟨bytes, 0⟩, opened lnkPath p⟩ = some ((), s)) :
    load malloc lnkPath (some bytes) p = (.ok (), s.object) := by
  rw [opened] at hs
  rw [load.eq_def]
  dsimp only
  rw [success_eq_some.mp hs]

theorem success_of_load {malloc : Nat → Bool} {lnkPath : WString} {bytes : List UInt8}
    {p : ShellinkParser} (h : (load malloc lnkPath (some bytes) p).1 = .ok ()) :
    ∃ s, success (loadFile malloc) ⟨⟨bytes, 0⟩, opened lnkPath p⟩ = some ((), s) := by
  rw [load.eq_def] at h
  cases hrun : loadFile malloc ⟨⟨bytes, 0⟩, opened lnkPath p⟩ with
  | mk answer s =>
      rw [opened] at hrun
      dsimp only at h
      rw [hrun] at h
      obtain rfl : answer = .ok () := h
      exact ⟨s, success_eq_some.mpr hrun⟩

theorem load_seen {call : Call} {bytes : List UInt8} {p : ShellinkParser}
    (hfile : call.file = some bytes) (hload : (call.run p).1 = .ok ()) :
    ∃ o seen s, success (seenFile call.malloc) ⟨⟨bytes, 0⟩, o⟩ = some (seen, s) ∧
      (call.run p).2 = s.object := by
  obtain ⟨malloc, lnkPath, file⟩ := call
  obtain rfl : file = some bytes := hfile
  obtain ⟨s, hs⟩ := success_of_load hload
  have hobject : load malloc lnkPath (some bytes) p = (.ok (), s.object) := load_of_success hs
  rw [tells_seenFile] at hs
  obtain ⟨⟨seen, t⟩, hseen, ht⟩ := Option.map_eq_some_iff.mp hs
  obtain ⟨-, rfl⟩ := Prod.mk.inj ht
  exact ⟨_, seen, t, hseen, congrArg Prod.snd hobject⟩

/-- Nothing of earlier files is seen through the getters, whatever two objects have loaded
before, where the file gives the path of its target and its icon. -/
theorem nothing_carried (shell : Shell) (bytes : List UInt8) (hgiven : Given shell bytes)
    (p p' : ShellinkParser) (calls calls' : List Call) (call call' : Call)
    (behind behind' : List UInt8)
    (hfile : call.file = some bytes) (hfile' : call'.file = some bytes)
    (hload : (call.run (loads calls p)).1 = .ok ())
    (hload' : (call'.run (loads calls' p')).1 = .ok ()) :
    observed shell behind' (call'.run (loads calls' p')).2 =
      observed shell behind (call.run (loads calls p)).2 := by
  obtain ⟨o, seen, s, hs, hobject⟩ := load_seen hfile hload
  obtain ⟨o', seen', s', hs', hobject'⟩ := load_seen hfile' hload'
  obtain ⟨rfl, -, hsame⟩ := twin_seenFile ⟨bytes, 0⟩ o o' seen seen' s s' trivial hs hs'
  obtain ⟨htarget, hicon⟩ := hgiven call.malloc o _ s hs
  rw [hobject, hobject']
  exact observed_same hsame htarget hicon behind behind'

/-- An object as the constructor leaves it, where n stands in the fields of flags. -/
def constructed (n : UInt64) : ShellinkParser where
  header := { linkFlags := n, targetFileAttributes := n }
  linkInfo := { lnkInfFlags := n, commonNetRelLnk := { comNetRelLnkFlags := n } }

def plainHeader : List UInt8 :=
  [0x4C, 0, 0, 0, 0x01, 0x14, 0x02, 0, 0, 0, 0, 0, 0xC0, 0, 0, 0, 0, 0, 0, 0x46] ++
    List.replicate 56 0

def plainLink : List UInt8 := plainHeader ++ [0, 0, 0, 0]

def folderLink (id : UInt8) : List UInt8 :=
  plainHeader ++ [0x10, 0, 0, 0, 0x05, 0, 0, 0xA0, id, 0, 0, 0, 0, 0, 0, 0] ++ [0, 0, 0, 0]

def oneFolderShell : Shell where
  ansiToUnicode s := s.map UInt8.toUInt16
  folderPath id := if id = 5 then some [0x44] else none
  pathFromIDList _ := none
  displayNameOf _ := none
  parseIconLocation s := (s, 0)

def reading (bytes : List UInt8) : Call := ⟨fun _ => true, [], some bytes⟩

theorem given_folderLink : Given oneFolderShell (folderLink 5) := by
  have hrun : (success (seenFile fun _ => true) ⟨⟨folderLink 5, 0⟩, constructed 0⟩).map
      (fun r => (r.1, specialFolderPath oneFolderShell r.2.object, r.2.object.header.linkFlags)) =
      some ((true, [SpecialFolderDataBlock.BlockSignature]), [0x44], 0) := by decide +kernel
  obtain ⟨⟨seen, s⟩, hs, hvalues⟩ := Option.map_eq_some_iff.mp hrun
  obtain ⟨rfl, hvalues⟩ := Prod.mk.inj hvalues
  obtain ⟨hpath, hflags⟩ := Prod.mk.inj hvalues
  refine given_of_run hs (.inr ⟨List.mem_singleton.mpr rfl, .inl ?_⟩) (.inr fun h => absurd h ?_)
  · rw [hpath]
    exact List.cons_ne_nil _ _
  · rw [hflags]
    decide

theorem nothing_carried_folderLink :
    observed oneFolderShell [0xFF] ((reading (folderLink 5)).run (loads [] (constructed 1))).2 =
      observed oneFolderShell [] ((reading (folderLink 5)).run
        (loads [reading (folderLink 7)] (constructed 0))).2 :=
  nothing_carried oneFolderShell (folderLink 5) given_folderLink (constructed 0) (constructed 1)
    [reading (folderLink 7)] [] (reading (folderLink 5)) (reading (folderLink 5)) [] [0xFF] rfl rfl
    (by decide +kernel) (by decide +kernel)

/-- A link that names no folder has the path of the folder of the link before it. -/
theorem folder_carried : ¬∀ (shell : Shell) (bytes : List UInt8) (p p' : ShellinkParser)
    (calls calls' : List Call) (call call' : Call) (behind : List UInt8),
    call.file = some bytes → call'.file = some bytes →
    (call.run (loads calls p)).1 = .ok () → (call'.run (loads calls' p')).1 = .ok () →
    observed shell behind (call'.run (loads calls' p')).2 =
      observed shell behind (call.run (loads calls p)).2 := by
  intro h
  have hsame := h oneFolderShell plainLink (constructed 0) (constructed 0) []
    [reading (folderLink 5)] (reading plainLink) (reading plainLink) [] rfl rfl
    (by decide +kernel) (by decide +kernel)
  have hpath := congrArg Prod.fst hsame
  rw [observed, observed] at hpath
  dsimp only at hpath
  revert hpath
  decide +kernel

end Histories

end Ashe.ShellinkCarry
