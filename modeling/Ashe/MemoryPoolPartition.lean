import Ashe.MemoryPoolLists

namespace Ashe.MemoryPoolPartition

open LinkedCells Runs MemoryPool MemoryPoolLists

abbrev Layouts := PoolId → Option Lists

structure Partition (m : Memory) (pools : PoolId → Option Pool) (A : Layouts) : Prop where
  pools : ∀ id, (pools id = none ∧ A id = none) ∨
    ∃ pool l, pools id = some pool ∧ A id = some l ∧ Holds m pool l
  apart : ∀ {id id' l l' a}, A id = some l → A id' = some l' → a ∈ l.blocks → a ∈ l'.blocks →
    id = id'
  cover : ∀ a, m a ≠ none → ∃ id l, A id = some l ∧ a ∈ l.blocks
  aligned : ∀ a, m a ≠ none → alignofElement ∣ a

/-- The pointers that are outstanding are the bodies of the blocks in the data lists. -/
def Owned (outstanding : Addr → Option PoolId) (A : Layouts) : Prop :=
  ∀ p id, outstanding p = some id ↔
    ∃ l a, A id = some l ∧ a ∈ addresses l.data ∧ p = a + sizeofElement

structure Represents (s : State) (A : Layouts) : Prop where
  partition : Partition s.memory s.pools A
  owned : Owned s.outstanding A

theorem initial_represents : Represents initial fun _ => none where
  partition := ⟨fun _ => .inl ⟨rfl, rfl⟩, fun h => absurd h (by simp), fun _ h => absurd rfl h,
    fun _ h => absurd rfl h⟩
  owned := fun p id => by simp [initial]

theorem bodyOf_aligned {a : Addr} (h : alignofElement ∣ a) : bodyOf a = a + sizeofElement := by
  have hpad : padPointer (a + sizeofElement) alignofElement = 0 := by
    rw [padPointer]
    simp only [alignofElement, sizeofElement] at h ⊢
    omega
  rw [bodyOf, hpad, Nat.add_zero]

section

variable {m m' : Memory} {pools : PoolId → Option Pool} {A : Layouts}

theorem Partition.holds (h : Partition m pools A) {id : PoolId} {pool : Pool}
    (hp : pools id = some pool) : ∃ l, A id = some l ∧ Holds m pool l := by
  obtain ⟨hnone, -⟩ | ⟨pool', l, hp', hl, hh⟩ := h.pools id
  · exact absurd (hnone.symm.trans hp) (by simp)
  · obtain rfl := Option.some.inj (hp.symm.trans hp')
    exact ⟨l, hl, hh⟩

theorem Partition.live (h : Partition m pools A) {id : PoolId} {l : Lists} (hl : A id = some l) :
    ∃ pool, pools id = some pool ∧ Holds m pool l := by
  obtain ⟨-, hnone⟩ | ⟨pool, l', hp, hl', hh⟩ := h.pools id
  · exact absurd (hnone.symm.trans hl) (by simp)
  · obtain rfl := Option.some.inj (hl.symm.trans hl')
    exact ⟨pool, hp, hh⟩

theorem Partition.allocated (h : Partition m pools A) {id : PoolId} {l : Lists}
    (hl : A id = some l) {a : Addr} (ha : a ∈ l.blocks) : m a ≠ none := by
  obtain ⟨pool, -, hh⟩ := h.live hl
  exact hh.allocated ha

/-- A change of one pool that loses no block of it, and gains no block but one
that was not in use. -/
theorem Partition.step (h : Partition m pools A) {id : PoolId} {l l' : Lists} {pool : Pool}
    (hl : A id = some l) (hh : Holds m' pool l')
    (hframe : ∀ b, b ∉ l.blocks → b ∉ l'.blocks → m' b = m b)
    (hkeep : ∀ b ∈ l.blocks, b ∈ l'.blocks)
    (hnew : ∀ b ∈ l'.blocks, b ∈ l.blocks ∨ m b = none ∧ alignofElement ∣ b) :
    Partition m' (Function.update pools id (some pool)) (Function.update A id (some l')) := by
  have hother {id' : PoolId} {l2 : Lists} (hne : id' ≠ id) (hl2 : A id' = some l2) {b : Addr}
      (hb : b ∈ l2.blocks) : b ∉ l'.blocks := by
    intro hb'
    rcases hnew b hb' with hbl | ⟨hnone, -⟩
    · exact hne (h.apart hl2 hl hb hbl)
    · exact h.allocated hl2 hb hnone
  refine ⟨fun id' => ?_, ?_, fun a ha => ?_, fun a ha => ?_⟩
  · by_cases hid : id' = id
    · subst hid
      exact .inr ⟨pool, l', Function.update_self .., Function.update_self .., hh⟩
    · rw [Function.update_of_ne hid, Function.update_of_ne hid]
      obtain hnone | ⟨pool2, l2, hp2, hl2, hh2⟩ := h.pools id'
      · exact .inl hnone
      · refine .inr ⟨pool2, l2, hp2, hl2, hh2.frame fun b hb => hframe b ?_ (hother hid hl2 hb)⟩
        exact fun hbl => hother hid hl2 hb (hkeep b hbl)
  · intro id1 id2 l1 l2 a h1 h2 ha1 ha2
    by_cases hid1 : id1 = id <;> by_cases hid2 : id2 = id
    · rw [hid1, hid2]
    · rw [hid1, Function.update_self] at h1
      rw [Function.update_of_ne hid2] at h2
      obtain rfl := Option.some.inj h1
      exact absurd ha1 (hother hid2 h2 ha2)
    · rw [hid2, Function.update_self] at h2
      rw [Function.update_of_ne hid1] at h1
      obtain rfl := Option.some.inj h2
      exact absurd ha2 (hother hid1 h1 ha1)
    · rw [Function.update_of_ne hid1] at h1
      rw [Function.update_of_ne hid2] at h2
      exact h.apart h1 h2 ha1 ha2
  · by_cases hal : a ∈ l'.blocks
    · exact ⟨id, l', Function.update_self .., hal⟩
    · have hal2 : a ∉ l.blocks := fun hm => hal (hkeep a hm)
      rw [hframe a hal2 hal] at ha
      obtain ⟨id2, l2, hl2, ha2⟩ := h.cover a ha
      have hne : id2 ≠ id := by
        rintro rfl
        obtain rfl := Option.some.inj (hl.symm.trans hl2)
        exact hal2 ha2
      exact ⟨id2, l2, by rw [Function.update_of_ne hne, hl2], ha2⟩
  · by_cases hal : a ∈ l'.blocks
    · rcases hnew a hal with hm | ⟨-, hd⟩
      · exact h.aligned a (h.allocated hl hm)
      · exact hd
    · have hal2 : a ∉ l.blocks := fun hm => hal (hkeep a hm)
      rw [hframe a hal2 hal] at ha
      exact h.aligned a ha

end

section

variable {s : State} {A : Layouts}

/-- A pointer is not outstanding when its block is in no data list. -/
theorem Owned.free {o : Addr → Option PoolId} (h : Owned o A) {a : Addr}
    (ha : ∀ id l, A id = some l → a ∉ addresses l.data) : o (a + sizeofElement) = none := by
  cases ho : o (a + sizeofElement) with
  | none => rfl
  | some id =>
      obtain ⟨l, b, hl, hb, hab⟩ := (h _ id).mp ho
      obtain rfl := Nat.add_right_cancel hab
      exact absurd hb (ha id l hl)

/-- One pool's data list changes, and the owners of its blocks with it. -/
theorem Owned.step {o o' : Addr → Option PoolId} (h : Owned o A) {id : PoolId} {l : Lists}
    (hid : ∀ p, o' p = some id ↔ ∃ a ∈ addresses l.data, p = a + sizeofElement)
    (hother : ∀ p id', id' ≠ id → (o' p = some id' ↔ o p = some id')) :
    Owned o' (Function.update A id (some l)) := by
  intro p id'
  by_cases hne : id' = id
  · subst hne
    rw [hid, Function.update_self]
    constructor
    · rintro ⟨a, ha, hp⟩
      exact ⟨l, a, rfl, ha, hp⟩
    · rintro ⟨_, a, hl, ha, hp⟩
      obtain rfl := Option.some.inj hl
      exact ⟨a, ha, hp⟩
  · rw [hother p id' hne, h p id', Function.update_of_ne hne]

theorem Owned.data {o : Addr → Option PoolId} (h : Owned o A) {id : PoolId} {l : Lists}
    (hl : A id = some l) (p : Addr) :
    o p = some id ↔ ∃ a ∈ addresses l.data, p = a + sizeofElement := by
  rw [h p id, hl]
  constructor
  · rintro ⟨_, a, hl, ha, hp⟩
    obtain rfl := Option.some.inj hl
    exact ⟨a, ha, hp⟩
  · rintro ⟨a, ha, hp⟩
    exact ⟨l, a, rfl, ha, hp⟩

theorem Owned.handOut {o : Addr → Option PoolId} (h : Owned o A) {id : PoolId} {l l' : Lists}
    (hl : A id = some l) {a : Addr} (ha : ∀ id l, A id = some l → a ∉ addresses l.data)
    (hdata : addresses l'.data = a :: addresses l.data) :
    Owned (Function.update o (a + sizeofElement) (some id)) (Function.update A id (some l')) := by
  have hnone := h.free ha
  refine h.step (fun p => ?_) fun p id' hne => ?_
  · by_cases hp : p = a + sizeofElement
    · rw [hp, Function.update_self, hdata]
      exact ⟨fun _ => ⟨a, List.mem_cons_self, rfl⟩, fun _ => rfl⟩
    · rw [Function.update_of_ne hp, h.data hl, hdata]
      constructor
      · rintro ⟨b, hb, hpb⟩
        exact ⟨b, List.mem_cons_of_mem _ hb, hpb⟩
      · rintro ⟨b, hb, hpb⟩
        refine ⟨b, (List.mem_cons.mp hb).resolve_left ?_, hpb⟩
        rintro rfl
        exact hp hpb
  · by_cases hp : p = a + sizeofElement
    · rw [hp, Function.update_self, hnone]
      simp [Ne.symm hne]
    · rw [Function.update_of_ne hp]

theorem Owned.takeBack {o : Addr → Option PoolId} (h : Owned o A) {id : PoolId} {l l' : Lists}
    (hl : A id = some l) {a : Addr} (ha : a ∈ addresses l.data)
    (hdata : ∀ b, b ∈ addresses l'.data ↔ b ∈ addresses l.data ∧ b ≠ a) :
    Owned (Function.update o (a + sizeofElement) none) (Function.update A id (some l')) := by
  have hown : o (a + sizeofElement) = some id := (h.data hl _).mpr ⟨a, ha, rfl⟩
  refine h.step (fun p => ?_) fun p id' hne => ?_
  · by_cases hp : p = a + sizeofElement
    · rw [hp, Function.update_self]
      refine ⟨fun hn => absurd hn (by simp), ?_⟩
      rintro ⟨b, hb, hpb⟩
      exact absurd (Nat.add_right_cancel hpb).symm ((hdata b).mp hb).2
    · rw [Function.update_of_ne hp, h.data hl]
      constructor
      · rintro ⟨b, hb, rfl⟩
        refine ⟨b, (hdata b).mpr ⟨hb, ?_⟩, rfl⟩
        rintro rfl
        exact hp rfl
      · rintro ⟨b, hb, hpb⟩
        exact ⟨b, ((hdata b).mp hb).1, hpb⟩
  · by_cases hp : p = a + sizeofElement
    · rw [hp, Function.update_self, hown]
      simp [Ne.symm hne]
    · rw [Function.update_of_ne hp]

theorem not_mem_data_of_free (h : Partition s.memory s.pools A) {id : PoolId} {l : Lists}
    (hl : A id = some l) {a : Addr} (ha : a ∈ addresses l.free) :
    ∀ id' l', A id' = some l' → a ∉ addresses l'.data := by
  intro id' l' hl' hd
  obtain rfl := h.apart hl hl' (List.mem_append_right _ ha) (List.mem_append_left _ hd)
  obtain rfl := Option.some.inj (hl.symm.trans hl')
  obtain ⟨pool, -, hh⟩ := h.live hl
  exact (List.nodup_append'.mp hh.nodup).2.2 hd ha

theorem allocate_represents (BlockSize : Nat) (h : Represents s A) {id : PoolId} {block : Addr}
    {left : List UInt8} (hlegal : Legal BlockSize s (.allocate id block left)) :
    ∃ pool m pool' p l, s.pools id = some pool ∧
      allocate s.memory pool block left = some (m, pool', p) ∧ s.outstanding p = none ∧
      Represents ⟨m, Function.update s.pools id (some pool'),
        Function.update s.outstanding p (some id)⟩ (Function.update A id (some l)) := by
  obtain ⟨pool, hp, hnew⟩ := hlegal
  obtain ⟨⟨data, free⟩, hl, hh⟩ := h.partition.holds hp
  cases free with
  | nil =>
      obtain ⟨hb, hd, -⟩ := hnew hh.freeElement
      obtain ⟨m, pool', ha, hh', hframe⟩ := allocate_new hh hb left
      have hfree : ∀ id l, A id = some l → block ∉ addresses l.data := fun id' l' hl' hm =>
        h.partition.allocated hl' (List.mem_append_left _ hm) hb
      rw [bodyOf_aligned hd] at ha
      refine ⟨pool, m, pool', _, _, hp, ha, h.owned.free hfree,
        h.partition.step hl hh' (fun b _ hb' => hframe b hb') (fun b hb' => ?_) (fun b hb' => ?_),
        h.owned.handOut hl hfree rfl⟩
      · exact List.mem_cons_of_mem block hb'
      · obtain rfl | hm := List.mem_cons.mp hb'
        · exact .inr ⟨hb, hd⟩
        · exact .inl hm
  | cons x free =>
      obtain ⟨m, pool', ha, hh', hframe⟩ := allocate_reuse hh block left
      have hx : x.1 ∈ Lists.blocks ⟨data, x :: free⟩ :=
        List.mem_append_right _ List.mem_cons_self
      have hfree := not_mem_data_of_free h.partition hl (a := x.1) List.mem_cons_self
      have hperm : ∀ b,
          b ∈ Lists.blocks ⟨data, x :: free⟩ ↔ b ∈ Lists.blocks ⟨x :: data, free⟩ := by
        intro b
        exact List.perm_middle.mem_iff
      rw [bodyOf_aligned (h.partition.aligned _ (h.partition.allocated hl hx))] at ha
      exact ⟨pool, m, pool', _, _, hp, ha, h.owned.free hfree,
        h.partition.step hl hh' (fun b hb' _ => hframe b hb') (fun b hb' => (hperm b).mp hb')
          (fun b hb' => .inl ((hperm b).mpr hb')),
        h.owned.handOut hl hfree rfl⟩

theorem deallocate_represents (BlockSize : Nat) (ZeroOnDeallocate : Bool) (h : Represents s A)
    {id : PoolId} {p : Addr} (hp : s.outstanding p = some id) :
    ∃ pool m pool' l, s.pools id = some pool ∧
      deallocate BlockSize ZeroOnDeallocate s.memory pool (some p) = some (m, pool') ∧
      Represents ⟨m, Function.update s.pools id (some pool'),
        Function.update s.outstanding p none⟩ (Function.update A id (some l)) := by
  obtain ⟨⟨data, free⟩, a, hl, ha, rfl⟩ := (h.owned p id).mp hp
  obtain ⟨pool, hpool, hh⟩ := h.partition.live hl
  obtain ⟨⟨b, body⟩, hx, hb⟩ := List.mem_map.mp ha
  obtain rfl : b = a := hb
  obtain ⟨before, after, rfl⟩ := List.append_of_mem hx
  obtain ⟨m, pool', hd, hh', hframe⟩ := deallocate_holds BlockSize ZeroOnDeallocate hh
  obtain ⟨⟨hab, haa, -⟩, -⟩ := blocks_middle.mp hh.nodup
  have hblocks : ∀ c, c ∈ Lists.blocks ⟨before ++ (b, body) :: after, free⟩ ↔
      c ∈ Lists.blocks ⟨before ++ after, (b, cleared BlockSize ZeroOnDeallocate body) :: free⟩ := by
    intro c
    simp only [Lists.blocks, addresses, List.map_append, List.map_cons, List.mem_append,
      List.mem_cons]
    tauto
  refine ⟨pool, m, pool', _, hpool, hd,
    h.partition.step hl hh' (fun b hb _ => hframe b hb) (fun b hb => (hblocks b).mp hb)
      (fun b hb => .inl ((hblocks b).mpr hb)), h.owned.takeBack hl ha fun c => ?_⟩
  have hmem : c ∈ addresses (before ++ (b, body) :: after) ↔
      c ∈ addresses (before ++ after) ∨ c = b := by
    simp only [addresses, List.map_append, List.map_cons, List.mem_append, List.mem_cons]
    tauto
  have hne : c ∈ addresses (before ++ after) → c ≠ b := by
    rintro hb rfl
    exact (mem_addresses_append.mp hb).elim hab haa
  rw [hmem]
  tauto

theorem write_represents (h : Represents s A) (body : List UInt8) {p : Addr} {id : PoolId}
    (hp : s.outstanding p = some id) :
    ∃ m l, modify s.memory (p - sizeofElement) (fun e => { e with body := body }) = some m ∧
      Represents { s with memory := m } (Function.update A id (some l)) := by
  obtain ⟨⟨data, free⟩, a, hl, ha, rfl⟩ := (h.owned p id).mp hp
  obtain ⟨pool, hpool, hh⟩ := h.partition.live hl
  obtain ⟨⟨b, old⟩, hx, hb⟩ := List.mem_map.mp ha
  obtain rfl : b = a := hb
  obtain ⟨before, after, rfl⟩ := List.append_of_mem hx
  obtain ⟨m, hw, hh', hframe⟩ := write_holds body hh
  have hsame : Lists.blocks ⟨before ++ (b, body) :: after, free⟩ =
      Lists.blocks ⟨before ++ (b, old) :: after, free⟩ := by
    simp [Lists.blocks, addresses]
  have hb : b ∈ Lists.blocks ⟨before ++ (b, old) :: after, free⟩ := List.mem_append_left _ ha
  have hpools : Function.update s.pools id (some pool) = s.pools :=
    Function.update_eq_self_iff.mpr hpool.symm
  rw [Nat.add_sub_cancel]
  refine ⟨m, ⟨before ++ (b, body) :: after, free⟩, hw, hpools ▸ h.partition.step hl hh'
    (fun c hc _ => hframe c ?_) (fun c hc => hsame ▸ hc) (fun c hc => .inl (hsame ▸ hc)),
    h.owned.step (fun q => ?_) fun _ _ _ => Iff.rfl⟩
  · rintro rfl
    exact hc hb
  · rw [h.owned.data hl]
    simp [addresses]

theorem Partition.comp (h : Partition s.memory s.pools A) {σ : PoolId → PoolId}
    (hσ : Function.Involutive σ) : Partition s.memory (s.pools ∘ σ) (A ∘ σ) where
  pools id := h.pools (σ id)
  apart h1 h2 ha1 ha2 := hσ.injective (h.apart h1 h2 ha1 ha2)
  cover a ha := by
    obtain ⟨id, l, hl, hal⟩ := h.cover a ha
    exact ⟨σ id, l, by rw [Function.comp_apply, hσ id, hl], hal⟩
  aligned := h.aligned

theorem Owned.comp {o : Addr → Option PoolId} (h : Owned o A) {σ : PoolId → PoolId}
    (hσ : Function.Involutive σ) : Owned (fun p => (o p).map σ) (A ∘ σ) := by
  intro p id
  rw [Function.comp_apply, ← h p (σ id), Option.map_eq_some_iff]
  constructor
  · rintro ⟨owner, ho, rfl⟩
    rw [ho, hσ]
  · intro ho
    exact ⟨σ id, ho, hσ id⟩

theorem create_represents (h : Represents s A) {id : PoolId} (hid : s.pools id = none) :
    Represents { s with pools := Function.update s.pools id (some newPool) }
      (Function.update A id (some ⟨[], []⟩)) := by
  have hA : A id = none := by
    obtain ⟨-, hnone⟩ | ⟨pool, l, hp, -⟩ := h.partition.pools id
    · exact hnone
    · exact absurd (hid.symm.trans hp) (by simp)
  have hold {id' : PoolId} {l : Lists} {a : Addr}
      (hl : Function.update A id (some ⟨[], []⟩) id' = some l) (ha : a ∈ l.blocks) :
      A id' = some l := by
    by_cases hne : id' = id
    · rw [hne, Function.update_self] at hl
      obtain rfl := Option.some.inj hl
      exact absurd ha List.not_mem_nil
    · rwa [Function.update_of_ne hne] at hl
  have hnew {id' : PoolId} {l : Lists} (hl : A id' = some l) :
      Function.update A id (some ⟨[], []⟩) id' = some l := by
    rw [Function.update_of_ne, hl]
    rintro rfl
    exact absurd (hA.symm.trans hl) (by simp)
  refine ⟨⟨fun id' => ?_, fun h1 h2 ha1 ha2 => ?_, fun a ha => ?_, h.partition.aligned⟩, ?_⟩
  · by_cases hne : id' = id
    · subst hne
      exact .inr ⟨newPool, ⟨[], []⟩, Function.update_self .., Function.update_self ..,
        newPool_holds _⟩
    · dsimp only
      rw [Function.update_of_ne hne, Function.update_of_ne hne]
      exact h.partition.pools id'
  · exact h.partition.apart (hold h1 ha1) (hold h2 ha2) ha1 ha2
  · obtain ⟨id', l, hl, hal⟩ := h.partition.cover a ha
    exact ⟨id', l, hnew hl, hal⟩
  · intro p id'
    rw [h.owned p id']
    constructor
    · rintro ⟨l, a, hl, ha, hp⟩
      exact ⟨l, a, hnew hl, ha, hp⟩
    · rintro ⟨l, a, hl, ha, hp⟩
      exact ⟨l, a, hold hl (List.mem_append_left _ ha), ha, hp⟩

theorem destroy_represents (h : Represents s A) {id : PoolId} {pool : Pool}
    (hp : s.pools id = some pool) :
    ∃ l m, A id = some l ∧
      (∀ turns, l.blocks.length ≤ turns → destroy turns s.memory pool = some (m, l.blocks)) ∧
      (∀ a ∈ l.blocks, m a = none) ∧ (∀ a ∉ l.blocks, m a = s.memory a) ∧
      Represents ⟨m, Function.update s.pools id none,
        fun p => if s.outstanding p = some id then none else s.outstanding p⟩
        (Function.update A id none) := by
  obtain ⟨l, hl, hh⟩ := h.partition.holds hp
  obtain ⟨m, hdestroy, hgone, hframe⟩ := destroy_holds hh
  have hold {id' : PoolId} {l' : Lists} (hl' : Function.update A id none id' = some l') :
      id' ≠ id ∧ A id' = some l' := by
    by_cases hne : id' = id
    · rw [hne, Function.update_self] at hl'
      exact absurd hl' (by simp)
    · rw [Function.update_of_ne hne] at hl'
      exact ⟨hne, hl'⟩
  have hkept {a : Addr} (ha : m a ≠ none) : a ∉ l.blocks ∧ s.memory a ≠ none := by
    have hal : a ∉ l.blocks := fun hal => ha (hgone a hal)
    exact ⟨hal, hframe a hal ▸ ha⟩
  refine ⟨l, m, hl, hdestroy, hgone, hframe, ⟨fun id' => ?_, fun h1 h2 => ?_, fun a ha => ?_,
    fun a ha => h.partition.aligned a (hkept ha).2⟩, fun p id' => ?_⟩
  · by_cases hne : id' = id
    · rw [hne]
      exact .inl ⟨Function.update_self .., Function.update_self ..⟩
    · dsimp only
      rw [Function.update_of_ne hne, Function.update_of_ne hne]
      obtain hnone | ⟨pool', l', hp', hl', hh'⟩ := h.partition.pools id'
      · exact .inl hnone
      · refine .inr ⟨pool', l', hp', hl', hh'.frame fun b hb => hframe b fun hbl => ?_⟩
        exact hne (h.partition.apart hl' hl hb hbl)
  · exact h.partition.apart (hold h1).2 (hold h2).2
  · obtain ⟨hal, ham⟩ := hkept ha
    obtain ⟨id', l', hl', hal'⟩ := h.partition.cover a ham
    refine ⟨id', l', ?_, hal'⟩
    rw [Function.update_of_ne, hl']
    rintro rfl
    obtain rfl := Option.some.inj (hl.symm.trans hl')
    exact hal hal'
  · dsimp only
    by_cases hne : id' = id
    · rw [hne, Function.update_self]
      refine ⟨fun ho => ?_, fun ⟨_, _, hn, _⟩ => absurd hn (by simp)⟩
      split at ho
      next => exact absurd ho (by simp)
      next hno => exact absurd ho hno
    · rw [Function.update_of_ne hne, ← h.owned p id']
      split
      next ho => rw [ho]; simp [Ne.symm hne]
      next => exact Iff.rfl

def exchange (id source : PoolId) (x : PoolId) : PoolId :=
  if x = id then source else if x = source then id else x

theorem exchange_involutive (id source : PoolId) : Function.Involutive (exchange id source) := by
  intro x
  simp only [exchange]
  split <;> split <;> simp_all

theorem update_exchange {pools : PoolId → Option Pool} {id source : PoolId} {pool other : Pool}
    (hp : pools id = some pool) (ho : pools source = some other) :
    Function.update (Function.update pools id (some other)) source (some pool) =
      pools ∘ exchange id source := by
  funext x
  simp only [Function.comp_apply, exchange]
  by_cases hs : x = source
  · by_cases hi : x = id
    · rw [hs, Function.update_self, if_pos (hs ▸ hi), ← hp, ← hi, hs]
    · rw [if_neg hi, if_pos hs, hs, Function.update_self, hp]
  · rw [Function.update_of_ne hs]
    by_cases hi : x = id
    · rw [if_pos hi, hi, Function.update_self, ho]
    · rw [if_neg hi, if_neg hs, Function.update_of_ne hi]

theorem moveAssign_represents (h : Represents s A) {id source : PoolId} {pool other : Pool}
    (hp : s.pools id = some pool) (ho : s.pools source = some other) :
    Represents ⟨s.memory,
      Function.update (Function.update s.pools id (some other)) source (some pool),
      s.moved (exchange id source)⟩ (A ∘ exchange id source) := by
  rw [update_exchange hp ho]
  exact ⟨h.partition.comp (exchange_involutive id source),
    h.owned.comp (exchange_involutive id source)⟩

/-- The new pool is empty for a moment, and then changes places with its source. -/
theorem moveConstruct_represents (h : Represents s A) {id source : PoolId} {pool : Pool}
    (hid : s.pools id = none) (hp : s.pools source = some pool) :
    ∃ A', Represents ⟨s.memory,
      Function.update (Function.update s.pools id (some pool)) source (some newPool),
      s.moved fun owner => if owner = source then id else owner⟩ A' := by
  have hne : source ≠ id := by
    rintro rfl
    exact absurd (hid.symm.trans hp) (by simp)
  have hmoved : (s.moved fun owner => if owner = source then id else owner) =
      s.moved (exchange id source) := by
    funext p
    simp only [State.moved]
    cases ho : s.outstanding p with
    | none => rfl
    | some owner =>
        have howner : owner ≠ id := by
          rintro rfl
          obtain ⟨l, a, hl, -⟩ := (h.owned p owner).mp ho
          obtain ⟨pool', hp', -⟩ := h.partition.live hl
          exact absurd (hid.symm.trans hp') (by simp)
        simp [exchange, howner]
  have hcreated := create_represents h hid
  have hmove := moveAssign_represents hcreated (Function.update_self ..)
    ((Function.update_of_ne hne ..).trans hp)
  rw [Function.update_idem] at hmove
  exact ⟨_, hmoved ▸ hmove⟩

end

section

variable {BlockSize : Nat} {ZeroOnDeallocate : Bool} {s : State} {A : Layouts}

theorem apply_represents (h : Represents s A) {c : Call} {s' : State}
    (hlegal : Legal BlockSize s c) (hs : apply BlockSize ZeroOnDeallocate s c = some s') :
    ∃ A', Represents s' A' := by
  cases c with
  | create id =>
      obtain rfl := Option.some.inj hs
      exact ⟨_, create_represents h hlegal⟩
  | allocate id block left =>
      obtain ⟨pool, m, pool', p, l, hp, ha, -, hr⟩ := allocate_represents BlockSize h hlegal
      simp only [apply, hp, ha, Option.bind_eq_bind, Option.bind_some] at hs
      exact Option.some.inj hs ▸ ⟨_, hr⟩
  | deallocate id p =>
      obtain ⟨hid, hp⟩ := hlegal
      cases p with
      | none =>
          obtain ⟨pool, hpool⟩ := Option.ne_none_iff_exists'.mp hid
          have hupdate : Function.update s.pools id (some pool) = s.pools := by
            rw [← hpool, Function.update_eq_self]
          simp only [apply, hpool, deallocate, Option.bind_eq_bind, Option.bind_some, hupdate] at hs
          exact Option.some.inj hs ▸ ⟨A, h⟩
      | some p =>
          obtain ⟨pool, m, pool', l, hpool, hd, hr⟩ :=
            deallocate_represents BlockSize ZeroOnDeallocate h (hp p rfl)
          simp only [apply, hpool, hd, Option.bind_eq_bind, Option.bind_some] at hs
          exact Option.some.inj hs ▸ ⟨_, hr⟩
  | moveConstruct id source =>
      obtain ⟨pool, hp⟩ := Option.ne_none_iff_exists'.mp hlegal.2
      simp only [apply, hp, Option.bind_eq_bind, Option.bind_some] at hs
      exact Option.some.inj hs ▸ moveConstruct_represents h hlegal.1 hp
  | moveAssign id source =>
      rw [apply] at hs
      split at hs
      next => exact Option.some.inj hs ▸ ⟨A, h⟩
      next =>
        obtain ⟨pool, hp⟩ := Option.ne_none_iff_exists'.mp hlegal.1
        obtain ⟨other, ho⟩ := Option.ne_none_iff_exists'.mp hlegal.2
        simp only [hp, ho, Option.bind_eq_bind, Option.bind_some] at hs
        exact Option.some.inj hs ▸ ⟨_, moveAssign_represents h hp ho⟩
  | destroy id turns =>
      obtain ⟨pool, hp⟩ := Option.ne_none_iff_exists'.mp hlegal
      obtain ⟨l, m, -, hd, -, -, hr⟩ := destroy_represents h hp
      simp only [apply, hp, Option.bind_eq_bind, Option.bind_some] at hs
      obtain ⟨r, hturns, hs⟩ := Option.bind_eq_some_iff.mp hs
      obtain rfl := (destroy_steady s.memory pool).unique ⟨turns, hturns⟩
        ⟨_, hd _ (Nat.le_refl _)⟩
      exact Option.some.inj hs ▸ ⟨_, hr⟩
  | write p body =>
      obtain ⟨id, ho⟩ := Option.ne_none_iff_exists'.mp hlegal.1
      obtain ⟨m, l, hw, hr⟩ := write_represents h body ho
      simp only [apply, hw, Option.bind_eq_bind, Option.bind_some] at hs
      exact Option.some.inj hs ▸ ⟨_, hr⟩

/-- A call that keeps to its contract never uses a block that is not there. The destructor comes
to its end with a turn for each block. -/
theorem apply_some (h : Represents s A) {c : Call} (hlegal : Legal BlockSize s c)
    (hturns : ∀ id turns l, c = .destroy id turns → A id = some l → l.blocks.length ≤ turns) :
    apply BlockSize ZeroOnDeallocate s c ≠ none := by
  cases c with
  | create id => simp [apply]
  | allocate id block left =>
      obtain ⟨pool, m, pool', p, l, hp, ha, -⟩ := allocate_represents BlockSize h hlegal
      simp [apply, hp, ha]
  | deallocate id p =>
      obtain ⟨hid, hp⟩ := hlegal
      cases p with
      | none =>
          obtain ⟨pool, hpool⟩ := Option.ne_none_iff_exists'.mp hid
          simp [apply, hpool, deallocate]
      | some p =>
          obtain ⟨pool, m, pool', l, hpool, hd, -⟩ :=
            deallocate_represents BlockSize ZeroOnDeallocate h (hp p rfl)
          simp [apply, hpool, hd]
  | moveConstruct id source =>
      obtain ⟨pool, hp⟩ := Option.ne_none_iff_exists'.mp hlegal.2
      simp [apply, hp]
  | moveAssign id source =>
      obtain ⟨pool, hp⟩ := Option.ne_none_iff_exists'.mp hlegal.1
      obtain ⟨other, ho⟩ := Option.ne_none_iff_exists'.mp hlegal.2
      rw [apply]
      split <;> simp [hp, ho]
  | destroy id turns =>
      obtain ⟨pool, hp⟩ := Option.ne_none_iff_exists'.mp hlegal
      obtain ⟨l, m, hl, hd, -⟩ := destroy_represents h hp
      simp [apply, hp, hd turns (hturns id turns l rfl hl)]
  | write p body =>
      obtain ⟨id, ho⟩ := Option.ne_none_iff_exists'.mp hlegal.1
      obtain ⟨m, l, hw, -⟩ := write_represents h body ho
      simp [apply, hw]

theorem run_represents {calls : List Call}
    (hlegal : Along (apply BlockSize ZeroOnDeallocate) (fun s c _ => Legal BlockSize s c) initial
      calls)
    (hs : exec (apply BlockSize ZeroOnDeallocate) initial calls = some s) :
    ∃ A, Represents s A := by
  refine exec_of_invariant (I := fun s => ∃ A, Represents s A) ?_ ⟨_, initial_represents⟩ hlegal hs
  rintro s c s' ⟨A, h⟩ hl hs'
  exact apply_represents h hl hs'

end

/-- A list in memory: next leads from its first block over all of them to null,
pre leads back from the last one, and no block is there twice. -/
structure DoublyLinked (m : Memory) (first : Option Addr) (blocks : List Addr) : Prop where
  forward : Path Block.next m first blocks
  backward : Path Block.pre m blocks.getLast? blocks.reverse
  nodup : blocks.Nodup

theorem doublyLinked {m : Memory} {xs : List (Addr × List UInt8)}
    (hc : Chained layout m none xs none) (hnd : (addresses xs).Nodup) :
    DoublyLinked m (head none xs) (addresses xs) := by
  refine ⟨hc.path_next, ?_, hnd⟩
  have hback := hc.path_prev
  rw [last_eq, Option.or_none] at hback
  exact hback

/-- Every block that operator new gave out, and that no destructor gave back, is
in one list of one live pool: in the data list of the pool that owns the
pointer to it while that is outstanding, and in a free list otherwise. -/
structure Parted (s : State) (data free : PoolId → List Addr) : Prop where
  lists : ∀ id pool, s.pools id = some pool →
    DoublyLinked s.memory pool.dataElement (data id) ∧
      DoublyLinked s.memory pool.freeElement (free id)
  covered : ∀ a, s.memory a ≠ none ↔ ∃ id, s.pools id ≠ none ∧ a ∈ data id ++ free id
  apart : ∀ id id' a, a ∈ data id ++ free id → a ∈ data id' ++ free id' → id = id'
  disjoint : ∀ id, (data id).Disjoint (free id)
  handedOut : ∀ p id, s.outstanding p = some id ↔ ∃ a ∈ data id, p = bodyOf a

def dataOf (A : Layouts) (id : PoolId) : List Addr := (A id).elim [] fun l => addresses l.data

def freeOf (A : Layouts) (id : PoolId) : List Addr := (A id).elim [] fun l => addresses l.free

theorem mem_listsOf {A : Layouts} {id : PoolId} {a : Addr} :
    a ∈ dataOf A id ++ freeOf A id ↔ ∃ l, A id = some l ∧ a ∈ l.blocks := by
  rw [dataOf, freeOf]
  cases A id with
  | none => simp
  | some l => simp [Lists.blocks]

theorem Represents.parted {s : State} {A : Layouts} (h : Represents s A) :
    Parted s (dataOf A) (freeOf A) where
  lists id pool hp := by
    obtain ⟨l, hl, hh⟩ := h.partition.holds hp
    obtain ⟨hnd, hnd', -⟩ := List.nodup_append'.mp hh.nodup
    rw [dataOf, freeOf, hl, hh.dataElement, hh.freeElement]
    exact ⟨doublyLinked hh.data hnd, doublyLinked hh.free hnd'⟩
  covered a := by
    constructor
    · intro ha
      obtain ⟨id, l, hl, hal⟩ := h.partition.cover a ha
      obtain ⟨pool, hp, -⟩ := h.partition.live hl
      exact ⟨id, by simp [hp], mem_listsOf.mpr ⟨l, hl, hal⟩⟩
    · rintro ⟨id, -, ha⟩
      obtain ⟨l, hl, hal⟩ := mem_listsOf.mp ha
      exact h.partition.allocated hl hal
  apart id id' a ha ha' := by
    obtain ⟨l, hl, hal⟩ := mem_listsOf.mp ha
    obtain ⟨l', hl', hal'⟩ := mem_listsOf.mp ha'
    exact h.partition.apart hl hl' hal hal'
  disjoint id := by
    rw [dataOf, freeOf]
    cases hl : A id with
    | none => exact fun a ha => absurd ha List.not_mem_nil
    | some l =>
        obtain ⟨pool, -, hh⟩ := h.partition.live hl
        exact (List.nodup_append'.mp hh.nodup).2.2
  handedOut p id := by
    have hbody {l : Lists} {a : Addr} (hl : A id = some l) (ha : a ∈ addresses l.data) :
        bodyOf a = a + sizeofElement :=
      bodyOf_aligned (h.partition.aligned a
        (h.partition.allocated hl (List.mem_append_left _ ha)))
    rw [h.owned p id, dataOf]
    cases hl : A id with
    | none => simp
    | some l =>
        constructor
        · rintro ⟨_, a, hl', ha, rfl⟩
          obtain rfl := Option.some.inj hl'
          exact ⟨a, ha, (hbody hl ha).symm⟩
        · rintro ⟨a, ha, rfl⟩
          exact ⟨l, a, rfl, ha, hbody hl ha⟩

/-- After any calls that keep to their contracts the blocks are parted among
the pools, allocate returns a pointer that is not outstanding, and the
destructor of a pool gives back its blocks, each of them once, and no other. -/
theorem block_partition {BlockSize : Nat} {ZeroOnDeallocate : Bool} {calls : List Call} {s : State}
    (hlegal : Along (apply BlockSize ZeroOnDeallocate) (fun s c _ => Legal BlockSize s c) initial
      calls)
    (hs : exec (apply BlockSize ZeroOnDeallocate) initial calls = some s) :
    ∃ data free : PoolId → List Addr, Parted s data free ∧
      (∀ c, Legal BlockSize s c →
        (∀ id turns, c = .destroy id turns → (data id ++ free id).length ≤ turns) →
        apply BlockSize ZeroOnDeallocate s c ≠ none) ∧
      (∀ id pool block left m pool' p, s.pools id = some pool →
        Legal BlockSize s (.allocate id block left) →
        allocate s.memory pool block left = some (m, pool', p) → s.outstanding p = none) ∧
      ∀ id pool, s.pools id = some pool → (data id ++ free id).Nodup ∧
        ∃ m, (∀ turns, (data id ++ free id).length ≤ turns →
            destroy turns s.memory pool = some (m, data id ++ free id)) ∧
          (∀ a ∈ data id ++ free id, m a = none) ∧
          ∀ a ∉ data id ++ free id, m a = s.memory a := by
  obtain ⟨A, h⟩ := run_represents hlegal hs
  refine ⟨dataOf A, freeOf A, h.parted, fun c hc hturns => apply_some h hc ?_, ?_, ?_⟩
  · intro id turns l hd hl
    have hlen := hturns id turns hd
    rw [dataOf, freeOf, hl] at hlen
    exact hlen
  · intro id pool block left m pool' p hp hl ha
    obtain ⟨pool1, m1, pool1', p1, l, hp1, ha1, hnone, -⟩ := allocate_represents BlockSize h hl
    obtain rfl := Option.some.inj (hp.symm.trans hp1)
    obtain rfl := (Prod.mk.inj (Prod.mk.inj (Option.some.inj (ha.symm.trans ha1))).2).2
    exact hnone
  · intro id pool hp
    obtain ⟨l, m, hl, hdestroy, hgone, hframe, -⟩ := destroy_represents h hp
    obtain ⟨pool1, -, hh⟩ := h.partition.live hl
    rw [dataOf, freeOf, hl]
    exact ⟨hh.nodup, m, hdestroy, hgone, hframe⟩

theorem block_partition_moved :
    let left : List UInt8 := List.replicate 16 7
    let calls : List Call := [.create 0, .create 1, .allocate 0 64 left, .allocate 0 128 left,
      .deallocate 0 (some 80), .moveConstruct 2 0, .moveAssign 1 2, .deallocate 1 (some 144)]
    ∃ s, exec (apply 32 true) initial calls = some s ∧ ∃ data free, Parted s data free := by
  intro left calls
  obtain ⟨s, hs⟩ := Option.isSome_iff_exists.mp
    (show (exec (apply 32 true) initial calls).isSome from by decide)
  obtain ⟨data, free, h, -⟩ := block_partition (by decide : Along (apply 32 true)
    (fun s c _ => Legal 32 s c) initial calls) hs
  exact ⟨s, hs, data, free, h⟩

end Ashe.MemoryPoolPartition
