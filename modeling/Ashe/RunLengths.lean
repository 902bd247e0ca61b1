import Ashe.Runs

namespace Ashe.RunLengths

open Runs

variable {σ ℓ : Type} {step : σ → ℓ → Option σ}

/-- Where each guarded step from a state of the invariant counts a measure down, a
schedule of such steps is no longer than the measure. -/
theorem length_le_of_decreasing {I : σ → Prop} {G : ℓ → Prop} {μ : σ → Nat}
    (hkeep : ∀ s l t, I s → G l → step s l = some t → I t)
    (hless : ∀ s l t, I s → G l → step s l = some t → μ t < μ s)
    {s t : σ} {ls : List ℓ} (hs : I s) (hG : ∀ l ∈ ls, G l) (ht : exec step s ls = some t) :
    ls.length + μ t ≤ μ s := by
  induction ls generalizing s with
  | nil =>
      obtain rfl := Option.some.inj ht
      simp
  | cons l ls ih =>
      obtain ⟨u, hu, ht⟩ := exec_cons.mp ht
      have hl := hG l (List.mem_cons_self ..)
      have hrest := ih (hkeep s l u hs hl hu) (fun m hm => hG m (List.mem_cons_of_mem _ hm)) ht
      have hdown := hless s l u hs hl hu
      rw [List.length_cons]
      omega

/-- A run of steps that make less can be gone on with until none of them is left. -/
theorem exists_settled {I : σ → Prop} {G : ℓ → Prop} {μ : σ → Nat}
    (hkeep : ∀ s l t, I s → G l → step s l = some t → I t)
    (hless : ∀ s l t, I s → G l → step s l = some t → μ t < μ s) {s : σ} (hs : I s) :
    ∃ ls t, (∀ l ∈ ls, G l) ∧ exec step s ls = some t ∧ ∀ l, G l → step t l = none := by
  induction hn : μ s using Nat.strongRecOn generalizing s with
  | ind n ih =>
      by_cases hstep : ∃ l u, G l ∧ step s l = some u
      · obtain ⟨l, u, hl, hu⟩ := hstep
        obtain ⟨ls, t, hls, ht, hsettled⟩ :=
          ih _ (hn ▸ hless s l u hs hl hu) (hkeep s l u hs hl hu) rfl
        refine ⟨l :: ls, t, ?_, exec_cons.mpr ⟨u, hu, ht⟩, hsettled⟩
        exact List.forall_mem_cons.mpr ⟨hl, hls⟩
      · refine ⟨[], s, nofun, rfl, fun l hl => ?_⟩
        cases hu : step s l with
        | none => rfl
        | some u => exact absurd ⟨l, u, hl, hu⟩ hstep

end Ashe.RunLengths
