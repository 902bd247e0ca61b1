import Ashe.ShellinkParser
import Ashe.TwoRuns

namespace Ashe.ShellinkBlocks

open ByteWords FileReading ShellinkParser TwoRuns

def SameBlocks (seen : List UInt32) (x x' : ExtraData) : Prop :=
  (EnvironmentVariableDataBlock.BlockSignature ∈ seen → x'.envVarDB = x.envVarDB) ∧
    (IconEnvironmentDataBlock.BlockSignature ∈ seen → x'.iconEnvDB = x.iconEnvDB) ∧
    (SpecialFolderDataBlock.BlockSignature ∈ seen →
      x'.speFolderDB.specialFolderID = x.speFolderDB.specialFolderID)

section Readers

variable {P R : ExtraData → ExtraData → Prop} {malloc malloc' : Nat → Bool} {seen : List UInt32}
  {size : UInt32}

theorem twin_read16 : Twin P read16 read16 fun _ => P :=
  (twin_fread _ 2).bind fun _ => twin_pure fun _ _ h => h

theorem twin_read32 : Twin P read32 read32 fun _ => P :=
  (twin_fread _ 4).bind fun _ => twin_pure fun _ _ h => h

theorem twin_field16 {update : UInt16 → ExtraData → ExtraData}
    (h : ∀ v x x', P x x' → P (update v x) (update v x')) :
    Twin P (field16 update) (field16 update) fun _ => P :=
  twin_read16.bind fun v => twin_modify (h v)

theorem twin_field32 {update : UInt32 → ExtraData → ExtraData}
    (h : ∀ v x x', P x x' → R (update v x) (update v x')) :
    Twin P (field32 update) (field32 update) fun _ => R :=
  twin_read32.bind fun v => twin_modify (h v)

theorem twin_keep {update : UInt32 → ExtraData → ExtraData}
    (h : ∀ v x x', P x x' → P (update v x) (update v x')) :
    Twin P (field32 update) (field32 update) fun _ => P := twin_field32 h

theorem twin_readStr (e f : ShellinkErr) (n : Nat) :
    Twin P (readStr malloc e f n) (readStr malloc' e f n) fun _ => P :=
  twin_guard (twin_guard ((twin_fread _ n).bind fun _ => twin_pure fun _ _ h => h))

theorem twin_readWStr (e f : ShellinkErr) (n : Nat) :
    Twin P (readWStr malloc e f n) (readWStr malloc' e f n) fun _ => P :=
  twin_guard (twin_guard ((twin_fread _ _).bind fun _ => twin_pure fun _ _ h => h))

theorem twin_readTwoStrings {e f : ShellinkErr} {storeAnsi : List UInt8 → ExtraData → ExtraData}
    {storeUnicode : List UInt16 → ExtraData → ExtraData}
    (h : ∀ s w x x', P x x' →
      R (storeUnicode w (storeAnsi s x)) (storeUnicode w (storeAnsi s x'))) :
    Twin P (readTwoStrings malloc e f storeAnsi storeUnicode)
      (readTwoStrings malloc' e f storeAnsi storeUnicode) fun _ => R := by
  refine Twin.bind (twin_readStr _ _ _) fun s => ?_
  refine Twin.bind (twin_modify (R := fun y y' => ∃ x x', P x x' ∧ y = storeAnsi s x ∧
    y' = storeAnsi s x') fun x x' hp => ⟨x, x', hp, rfl, rfl⟩) fun _ => ?_
  refine Twin.bind (twin_readWStr _ _ _) fun w => twin_modify ?_
  rintro _ _ ⟨x, x', hp, rfl, rfl⟩
  exact h s w x x' hp

theorem twin_console : Twin (SameBlocks seen) (readConsoleFields malloc) (readConsoleFields malloc')
    fun _ => SameBlocks seen := by
  have hwindow : Twin (SameBlocks seen) readConsoleWindow readConsoleWindow
      fun _ => SameBlocks seen := by
    refine Twin.bind (twin_field16 fun _ _ _ h => h) fun _ => ?_
    refine Twin.bind (twin_field16 fun _ _ _ h => h) fun _ => ?_
    refine Twin.bind (twin_field16 fun _ _ _ h => h) fun _ => ?_
    refine Twin.bind (twin_field16 fun _ _ _ h => h) fun _ => ?_
    refine Twin.bind (twin_field16 fun _ _ _ h => h) fun _ => ?_
    refine Twin.bind (twin_field16 fun _ _ _ h => h) fun _ => ?_
    exact Twin.bind (twin_field16 fun _ _ _ h => h) fun _ => twin_field16 fun _ _ _ h => h
  have hfont : Twin (SameBlocks seen) (readConsoleFont malloc) (readConsoleFont malloc')
      fun _ => SameBlocks seen := by
    refine Twin.bind (twin_keep fun _ _ _ h => h) fun _ => ?_
    refine Twin.bind (twin_keep fun _ _ _ h => h) fun _ => ?_
    refine Twin.bind (twin_keep fun _ _ _ h => h) fun _ => ?_
    exact Twin.bind (twin_readWStr _ _ _) fun _ => twin_modify fun _ _ h => h
  have hmodes : Twin (SameBlocks seen) readConsoleModes readConsoleModes
      fun _ => SameBlocks seen := by
    refine Twin.bind (twin_keep fun _ _ _ h => h) fun _ => ?_
    refine Twin.bind (twin_keep fun _ _ _ h => h) fun _ => ?_
    refine Twin.bind (twin_keep fun _ _ _ h => h) fun _ => ?_
    refine Twin.bind (twin_keep fun _ _ _ h => h) fun _ => ?_
    refine Twin.bind (twin_keep fun _ _ _ h => h) fun _ => ?_
    refine Twin.bind (twin_keep fun _ _ _ h => h) fun _ => ?_
    refine Twin.bind (twin_keep fun _ _ _ h => h) fun _ => ?_
    exact Twin.bind (twin_keep fun _ _ _ h => h) fun _ => twin_keep fun _ _ _ h => h
  refine Twin.bind hwindow fun _ => Twin.bind (twin_fseek 8) fun _ => ?_
  refine Twin.bind hfont fun _ => Twin.bind hmodes fun _ => ?_
  exact twin_forM fun i _ => twin_keep fun _ _ _ h => h

theorem twin_tracker : Twin (SameBlocks seen) (readETrackerDataBlock malloc size)
    (readETrackerDataBlock malloc' size) fun _ => SameBlocks seen := by
  refine twin_guard (Twin.bind twin_read32 fun _ => ?_)
  refine Twin.bind (twin_modify (R := SameBlocks seen) fun _ _ h => h) fun _ => twin_guard ?_
  refine Twin.bind twin_read32 fun _ => ?_
  refine Twin.bind (twin_modify (R := SameBlocks seen) fun _ _ h => h) fun _ => twin_guard ?_
  refine Twin.bind (twin_readStr _ _ _) fun _ => ?_
  refine Twin.bind (twin_modify (R := SameBlocks seen) fun _ _ h => h) fun _ => ?_
  refine Twin.bind (twin_readStr _ _ _) fun _ => ?_
  refine Twin.bind (twin_modify (R := SameBlocks seen) fun _ _ h => h) fun _ => ?_
  exact Twin.bind (twin_readStr _ _ _) fun _ => twin_modify fun _ _ h => h

theorem mem_seen {sig s : UInt32} (hne : s ≠ sig) (h : s ∈ seen ++ [sig]) : s ∈ seen :=
  (List.mem_append.mp h).resolve_right fun hs => hne (List.mem_singleton.mp hs)

/-- A block that is none of the three leaves what is known as it is. -/
theorem Twin.other {sig : UInt32} {m m' : Reader Unit}
    (h : Twin (SameBlocks seen) m m' fun _ => SameBlocks seen)
    (henv : sig ≠ EnvironmentVariableDataBlock.BlockSignature)
    (hicon : sig ≠ IconEnvironmentDataBlock.BlockSignature)
    (hfolder : sig ≠ SpecialFolderDataBlock.BlockSignature) :
    Twin (SameBlocks seen) m m' fun _ => SameBlocks (seen ++ [sig]) :=
  h.mono (fun _ _ h => h) fun _ _ _ h => ⟨fun hs => h.1 (mem_seen (Ne.symm henv) hs),
    fun hs => h.2.1 (mem_seen (Ne.symm hicon) hs),
    fun hs => h.2.2 (mem_seen (Ne.symm hfolder) hs)⟩

theorem twin_readBlock (sig size : UInt32) : Twin (SameBlocks seen) (readBlock malloc sig size)
    (readBlock malloc' sig size) fun _ => SameBlocks (seen ++ [sig]) := by
  refine twin_ite ?console fun _ => twin_ite ?consoleFE fun _ => twin_ite ?darwin fun _ =>
    twin_ite ?environment fun _ => twin_ite ?icon fun _ => twin_ite ?knownFolder fun _ =>
    twin_ite ?propertyStore fun _ => twin_ite ?shim fun _ => twin_ite ?specialFolder fun _ =>
    twin_ite ?tracker fun _ => twin_ite ?idList fun _ => twin_fail_left
  case console =>
    rintro rfl
    exact Twin.other (twin_guard twin_console) (by decide) (by decide) (by decide)
  case consoleFE =>
    rintro rfl
    exact Twin.other (twin_guard (twin_keep fun _ _ _ h => h)) (by decide) (by decide) (by decide)
  case darwin =>
    rintro rfl
    exact Twin.other (twin_guard (twin_readTwoStrings fun _ _ _ _ h => h)) (by decide) (by decide)
      (by decide)
  case environment =>
    rintro rfl
    exact twin_guard (twin_readTwoStrings fun _ _ _ _ h => ⟨fun _ => rfl,
      fun hs => h.2.1 (mem_seen (by decide) hs), fun hs => h.2.2 (mem_seen (by decide) hs)⟩)
  case icon =>
    rintro rfl
    exact twin_guard (twin_readTwoStrings fun _ _ _ _ h => ⟨fun hs => h.1 (mem_seen (by decide) hs),
      fun _ => rfl, fun hs => h.2.2 (mem_seen (by decide) hs)⟩)
  case knownFolder =>
    rintro rfl
    refine Twin.other (twin_guard ?_) (by decide) (by decide) (by decide)
    refine Twin.bind (twin_readStr _ _ _) fun _ => ?_
    exact Twin.bind (twin_modify (R := SameBlocks seen) fun _ _ h => h) fun _ =>
      twin_keep fun _ _ _ h => h
  case propertyStore =>
    rintro rfl
    refine Twin.other (twin_guard ?_) (by decide) (by decide) (by decide)
    refine Twin.bind (twin_modify (R := SameBlocks seen) fun _ _ h => h) fun _ => ?_
    exact Twin.bind (twin_readStr _ _ _) fun _ => twin_modify fun _ _ h => h
  case shim =>
    rintro rfl
    refine Twin.other (twin_guard ?_) (by decide) (by decide) (by decide)
    refine Twin.bind (twin_modify (R := SameBlocks seen) fun _ _ h => h) fun _ => ?_
    exact Twin.bind (twin_readWStr _ _ _) fun _ => twin_modify fun _ _ h => h
  case specialFolder =>
    rintro rfl
    refine twin_guard (Twin.bind (twin_field32 fun _ _ _ h => ⟨fun hs => h.1 (mem_seen ?_ hs),
      fun hs => h.2.1 (mem_seen ?_ hs), fun _ => rfl⟩) fun _ => twin_keep fun _ _ _ h => h)
    · decide
    · decide
  case tracker =>
    rintro rfl
    exact Twin.other twin_tracker (by decide) (by decide) (by decide)
  case idList =>
    rintro rfl
    refine Twin.other (twin_guard ?_) (by decide) (by decide) (by decide)
    refine Twin.bind (twin_modify (R := SameBlocks seen) fun _ _ h => h) fun _ => ?_
    refine Twin.bind twin_read16 fun _ => ?_
    exact Twin.bind (twin_freadSome _) fun _ => twin_modify fun _ _ h => h

end Readers

section Loop

variable (malloc : Nat → Bool)

/-- The loop over the blocks, with the signatures that it comes upon. -/
def seenLoop (epos : Int) : Nat → Reader (List UInt32)
  | 0 => pure []
  | i + 1 => do
      let cpos ← ftell
      if epos ≤ cpos then pure []
      else
        let blockSize ← read32
        let blockSignature ← read32
        readBlock malloc blockSignature blockSize
        let rest ← seenLoop epos i
        pure (blockSignature :: rest)

def seenBlocks : Reader (List UInt32) := do
  let cpos ← ftell
  fseekEnd
  let size ← ftell
  fseekSet cpos
  seenLoop malloc (size - 4) kExtraDataBlockNum

variable {malloc}

theorem twin_seenLoop (malloc' : Nat → Bool) (epos : Int) (i : Nat) (seen : List UInt32) :
    Twin (SameBlocks seen) (seenLoop malloc epos i) (seenLoop malloc' epos i)
      fun signatures => SameBlocks (seen ++ signatures) := by
  induction i generalizing seen with
  | zero =>
      refine twin_pure fun _ _ h => ?_
      rw [List.append_nil]
      exact h
  | succ i ih =>
      refine Twin.bind twin_ftell fun cpos =>
        twin_ite (fun _ => twin_pure fun _ _ h => ?_) fun _ => ?_
      · rw [List.append_nil]
        exact h
      refine Twin.bind twin_read32 fun blockSize => Twin.bind twin_read32 fun sig => ?_
      refine Twin.bind (twin_readBlock sig blockSize) fun _ => Twin.bind (ih _) fun rest => ?_
      refine twin_pure fun _ _ h => ?_
      rw [List.append_assoc] at h
      exact h

theorem twin_seenBlocks (malloc' : Nat → Bool) :
    Twin (SameBlocks []) (seenBlocks malloc) (seenBlocks malloc') fun sigs => SameBlocks sigs :=
  Twin.bind twin_ftell fun cpos => Twin.bind twin_fseekEnd fun _ => Twin.bind twin_ftell fun size =>
    Twin.bind (twin_fseekSet cpos) fun _ => twin_seenLoop malloc' (size - 4) kExtraDataBlockNum []

theorem tells_seenLoop (epos : Int) (i : Nat) :
    Tells (extraDataLoop malloc epos i) (seenLoop malloc epos i) := by
  induction i with
  | zero => exact fun _ => rfl
  | succ i ih =>
      refine tells_bind fun cpos => tells_ite (fun _ => rfl) ?_
      refine Tells.assoc (tells_bind fun blockSize => Tells.assoc (tells_bind fun sig => ?_))
      exact Tells.bind (tells_refl _) fun _ => ih.pure fun rest => sig :: rest

theorem tells_seenBlocks : Tells (loadExtraData malloc) (seenBlocks malloc) :=
  tells_bind fun _ => tells_bind fun _ => tells_bind fun size => tells_bind fun _ =>
    tells_seenLoop (size - 4) kExtraDataBlockNum

end Loop

end Ashe.ShellinkBlocks
