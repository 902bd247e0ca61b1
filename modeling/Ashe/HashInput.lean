import Ashe.HexEncode

namespace Ashe.HashInput

open HexEncode

variable {χ : Type} (update : χ → List UInt8 → UInt32 → Option χ)

def updateChunks (ctx : χ) (chunks : List (List UInt8)) : Option χ :=
  chunks.foldlM (fun ctx chunk => update ctx chunk (UInt32.ofNat chunk.length)) ctx

/-- The loop over data in memory. No size here leaves the range of size_t. -/
def updateData (data : List UInt8) (dataSize : Nat) (ctx : χ) (offset : Nat) : Option χ :=
  if offset < dataSize then do
    let needRead := if offset + 10240 > dataSize then dataSize - offset else 10240
    let ctx ← update ctx (data.drop offset) (UInt32.ofNat needRead)
    updateData data dataSize ctx (offset + needRead)
  else some ctx
termination_by dataSize - offset
decreasing_by split <;> omega

/-- The loop over an open file, which ends with the first read of no bytes. The
buffer keeps its old bytes behind the ones that are read. -/
def updateFile (contents szData : List UInt8) (ctx : χ) : Option χ :=
  let readBytes := min 1024 contents.length
  if 0 < readBytes then do
    let szData := contents.take readBytes ++ szData.drop readBytes
    let ctx ← update ctx szData (UInt32.ofNat readBytes)
    updateFile (contents.drop readBytes) szData ctx
  else some ctx
termination_by contents.length
decreasing_by rw [List.length_drop]; omega

def hexText (digest : List UInt8) : List UInt8 :=
  digest.flatMap fun (b : UInt8) => [hexEncodeDigit ((b >>> 4) &&& 0xF), hexEncodeDigit (b &&& 0xF)]

/-- Update takes every chunk of at most `limit` bytes to a context for the longer
message, whatever stands in memory behind the chunk. -/
def Absorbs (R : χ → List UInt8 → Prop) (limit : Nat) : Prop :=
  ∀ ctx m chunk behind, R ctx m → chunk.length ≤ limit →
    ∃ ctx', update ctx (chunk ++ behind) (UInt32.ofNat chunk.length) = some ctx' ∧
      R ctx' (m ++ chunk)

variable {update} {R : χ → List UInt8 → Prop} {limit : Nat}

theorem Absorbs.mono (h : Absorbs update R limit) {less : Nat} (hl : less ≤ limit) :
    Absorbs update R less :=
  fun ctx m chunk behind hR hc => h ctx m chunk behind hR (Nat.le_trans hc hl)

theorem Absorbs.chunks (h : Absorbs update R limit) {ctx : χ} {m : List UInt8}
    {chunks : List (List UInt8)} (hc : ∀ chunk ∈ chunks, chunk.length ≤ limit) (hR : R ctx m) :
    ∃ ctx', updateChunks update ctx chunks = some ctx' ∧ R ctx' (m ++ chunks.flatten) := by
  induction chunks generalizing ctx m with
  | nil => exact ⟨ctx, rfl, by rwa [List.flatten_nil, List.append_nil]⟩
  | cons chunk chunks ih =>
      obtain ⟨ctx1, hu, hR1⟩ := h ctx m chunk [] hR (hc chunk List.mem_cons_self)
      rw [List.append_nil] at hu
      obtain ⟨ctx2, hrest, hR2⟩ := ih (fun c hm => hc c (List.mem_cons_of_mem _ hm)) hR1
      refine ⟨ctx2, ?_, by rwa [List.flatten_cons, ← List.append_assoc]⟩
      rw [updateChunks, List.foldlM_cons, hu]
      exact hrest

theorem Absorbs.rest (h : Absorbs update R 10240) {ctx : χ} (done rest : List UInt8)
    (hR : R ctx done) :
    ∃ ctx', updateData update (done ++ rest) (done ++ rest).length ctx done.length = some ctx' ∧
      R ctx' (done ++ rest) := by
  induction hn : rest.length using Nat.strongRecOn generalizing ctx done rest with
  | ind n ih =>
      by_cases h0 : rest = []
      · subst h0
        rw [List.append_nil, updateData, if_neg (Nat.lt_irrefl _)]
        exact ⟨ctx, rfl, hR⟩
      · have hpos := List.length_pos_of_ne_nil h0
        have hgo : done.length < (done ++ rest).length := by rw [List.length_append]; omega
        let needRead := if done.length + 10240 > (done ++ rest).length
          then (done ++ rest).length - done.length else 10240
        have hneed : needRead ≤ rest.length ∧ 0 < needRead ∧ needRead ≤ 10240 := by
          simp only [needRead, List.length_append]
          split <;> omega
        have hlen : (rest.take needRead).length = needRead := by
          rw [List.length_take]
          omega
        obtain ⟨ctx1, hu, hR1⟩ := h ctx done (rest.take needRead) (rest.drop needRead) hR
          (by omega)
        rw [List.take_append_drop, hlen] at hu
        obtain ⟨ctx2, hrest, hR2⟩ := ih (rest.drop needRead).length
          (by rw [List.length_drop]; omega) _ _ hR1 rfl
        have hall : done ++ rest.take needRead ++ rest.drop needRead = done ++ rest := by
          rw [List.append_assoc, List.take_append_drop]
        have hdone : (done ++ rest.take needRead).length = done.length + needRead := by
          rw [List.length_append, hlen]
        rw [hall, hdone] at hrest
        rw [hall] at hR2
        refine ⟨ctx2, ?_, hR2⟩
        rw [updateData, if_pos hgo]
        simp only [List.drop_left]
        rw [hu]
        exact hrest

theorem Absorbs.data (h : Absorbs update R 10240) {ctx : χ} (data : List UInt8) (hR : R ctx []) :
    ∃ ctx', updateData update data data.length ctx 0 = some ctx' ∧ R ctx' data :=
  h.rest [] data hR

theorem Absorbs.file (h : Absorbs update R 10240) {ctx : χ} {m contents : List UInt8}
    (szData : List UInt8) (hR : R ctx m) :
    ∃ ctx', updateFile update contents szData ctx = some ctx' ∧ R ctx' (m ++ contents) := by
  induction hn : contents.length using Nat.strongRecOn generalizing ctx m contents szData with
  | ind n ih =>
      by_cases h0 : contents = []
      · subst h0
        rw [updateFile, List.append_nil]
        exact ⟨ctx, rfl, hR⟩
      · have hpos := List.length_pos_of_ne_nil h0
        have hlen : (contents.take (min 1024 contents.length)).length =
            min 1024 contents.length := by
          rw [List.length_take]
          omega
        obtain ⟨ctx1, hu, hR1⟩ := h ctx m (contents.take (min 1024 contents.length))
          (szData.drop (min 1024 contents.length)) hR (by omega)
        rw [hlen] at hu
        obtain ⟨ctx2, hrest, hR2⟩ := ih (contents.drop (min 1024 contents.length)).length
          (by rw [List.length_drop]; omega)
          (contents.take (min 1024 contents.length) ++ szData.drop (min 1024 contents.length))
          hR1 rfl
        rw [List.append_assoc, List.take_append_drop] at hR2
        refine ⟨ctx2, ?_, hR2⟩
        rw [updateFile]
        dsimp only
        rw [if_pos (by omega), hu]
        exact hrest

end Ashe.HashInput
