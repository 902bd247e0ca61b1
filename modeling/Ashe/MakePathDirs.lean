import Ashe.MakePath

namespace Ashe.MakePathDirs

open MakePath

variable {σ α : Type}

/-- A text is a stretch of characters of one kind, and what begins with another kind. -/
theorem stretch (p : α → Bool) (l : List α) : ∃ a b, l = a ++ b ∧ (∀ c ∈ a, p c = true) ∧
    ∀ c rest, b = c :: rest → p c = false := by
  refine ⟨l.takeWhile p, l.dropWhile p, List.takeWhile_append_dropWhile.symm,
    fun c hc => List.all_eq_true.mp List.all_takeWhile c hc, fun c rest hb => ?_⟩
  have hhead := List.head?_dropWhile_not p l
  rw [hb] at hhead
  simpa using hhead

theorem takeWhile_stretch {p : α → Bool} {a b : List α} (ha : ∀ c ∈ a, p c = true)
    (hb : ∀ c rest, b = c :: rest → p c = false) : (a ++ b).takeWhile p = a := by
  rw [List.takeWhile_append_of_pos ha]
  cases b with
  | nil => rw [List.takeWhile_nil, List.append_nil]
  | cons c rest => rw [List.takeWhile_cons_of_neg (by simp [hb c rest rfl]), List.append_nil]

variable [DecidableEq α]

/-- The names that a path leads through, the path itself last. The flag tells that the part
before is in a name. -/
def names (sep : α) : List α → Bool → List α → List (List α)
  | before, _, [] => [before]
  | before, inName, c :: rest =>
      if c = sep then
        if inName then before :: names sep (before ++ [c]) false rest
        else names sep (before ++ [c]) false rest
      else names sep (before ++ [c]) true rest

def leading (sep : α) (path : List α) : List (List α) := names sep [] false path

def visitAll (fs : FileSystem σ α) (win : Bool) : σ → List (List α) → Bool × σ
  | s, [] => (true, s)
  | s, name :: rest => match visit fs win s name rest.isEmpty with
    | .giveUp s => (false, s)
    | .goOn s => visitAll fs win s rest

section Loop

variable {sep nul : α}

theorem names_seps (before : List α) {a : List α} (ha : ∀ c ∈ a, c = sep) (rest : List α) :
    names sep before false (a ++ rest) = names sep (before ++ a) false rest := by
  induction a generalizing before with
  | nil => rw [List.nil_append, List.append_nil]
  | cons c a ih =>
      have hc := ha c List.mem_cons_self
      rw [List.cons_append, names, if_pos hc, if_neg Bool.false_ne_true,
        ih _ fun d hd => ha d (List.mem_cons_of_mem c hd), List.append_assoc, List.singleton_append]

theorem names_name (before : List α) (inName : Bool) {b : List α} (hb : ∀ c ∈ b, c ≠ sep)
    (hne : b ≠ []) (rest : List α) :
    names sep before inName (b ++ rest) = names sep (before ++ b) true rest := by
  induction b generalizing before inName with
  | nil => exact absurd rfl hne
  | cons c b ih =>
      have hc := hb c List.mem_cons_self
      rw [List.cons_append, names, if_neg hc]
      cases b with
      | nil => rw [List.nil_append]
      | cons d b =>
          rw [ih _ _ (fun e he => hb e (List.mem_cons_of_mem c he)) (List.cons_ne_nil d b),
            List.append_assoc, List.singleton_append]

theorem names_isEmpty (sep : α) (before : List α) (inName : Bool) (rest : List α) :
    (names sep before inName rest).isEmpty = false := by
  induction rest generalizing before inName with
  | nil => rfl
  | cons c rest ih =>
      rw [names]
      split
      next =>
        split
        next => rfl
        next => exact ih _ _
      next => exact ih _ _

theorem cStr_before {before : List α} (h : nul ∉ before) (rest : List α) :
    cStr nul (before ++ nul :: rest) = before := by
  apply takeWhile_stretch
  · intro c hc
    have hne : c ≠ nul := fun heq => h (by rwa [heq] at hc)
    simpa using hne
  · intro c rest' heq
    obtain ⟨rfl, -⟩ := List.cons.inj heq
    simp

inductive Turn (sep : α) (rest : List α) : Prop
  | last (seps name : List α) (htext : rest = seps ++ name) (hseps : ∀ c ∈ seps, c = sep)
      (hname : ∀ c ∈ name, c ≠ sep)
  | more (seps name after : List α) (htext : rest = seps ++ name ++ sep :: after)
      (hseps : ∀ c ∈ seps, c = sep) (hname : ∀ c ∈ name, c ≠ sep) (hne : name ≠ [])

theorem exists_turn (sep : α) (rest : List α) : Turn sep rest := by
  obtain ⟨seps, rest', hrest, hseps, hhead⟩ := stretch (· = sep) rest
  obtain ⟨name, left, hrest', hname, hleft⟩ := stretch (· ≠ sep) rest'
  cases left with
  | nil =>
      rw [List.append_nil] at hrest'
      exact .last seps name (by rw [hrest, hrest']) (by simpa using hseps) (by simpa using hname)
  | cons c after =>
      have hc : c = sep := by simpa using hleft c after rfl
      subst hc
      refine .more seps name after (by rw [hrest, hrest', List.append_assoc])
        (by simpa using hseps) (by simpa using hname) fun hnil => ?_
      rw [hnil, List.nil_append] at hrest'
      have hne := hhead c after hrest'
      simp at hne

theorem names_last (before : List α) {seps name : List α} (hseps : ∀ c ∈ seps, c = sep)
    (hname : ∀ c ∈ name, c ≠ sep) :
    names sep before false (seps ++ name) = [before ++ seps ++ name] := by
  rw [names_seps _ hseps]
  cases name with
  | nil => rw [names, List.append_nil]
  | cons c name =>
      have h := names_name (before ++ seps) false hname (List.cons_ne_nil c name) []
      rw [List.append_nil] at h
      rw [h, names]

theorem names_more (before : List α) {seps name : List α} (hseps : ∀ c ∈ seps, c = sep)
    (hname : ∀ c ∈ name, c ≠ sep) (hne : name ≠ []) (after : List α) :
    names sep before false (seps ++ name ++ sep :: after) = (before ++ seps ++ name) ::
      names sep (before ++ seps ++ name) false (sep :: after) := by
  rw [List.append_assoc, names_seps _ hseps, names_name _ _ hname hne, names, if_pos rfl,
    if_pos rfl, names, if_pos rfl, if_neg Bool.false_ne_true]

section Turns

variable {fs : FileSystem σ α} {win : Bool} {before seps name : List α}

/-- Where the pointer stands after the separators and the name. -/
theorem turn_slash (hseps : ∀ c ∈ seps, c = sep) (hname : ∀ c ∈ name, c ≠ sep)
    (hnul : nul ∉ name) {left pathDup : List α} (hdup : pathDup = before ++ seps ++ name ++ left)
    (hleft : ∀ c rest, left = c :: rest → c = sep ∨ c = nul)
    (hstop : name = [] → ∀ c rest, left = c :: rest → c ≠ sep) :
    before.length + strspn sep (pathDup.drop before.length) = (before ++ seps).length ∧
      (before ++ seps).length + strcspn sep nul (pathDup.drop (before ++ seps).length) =
        (before ++ seps ++ name).length := by
  have hspan : strspn sep (pathDup.drop before.length) = seps.length := by
    rw [hdup, List.append_assoc, List.append_assoc, List.drop_left, strspn,
      takeWhile_stretch (by simpa using hseps)]
    intro c rest heq
    cases name with
    | nil => simpa using hstop rfl c rest heq
    | cons d name =>
        obtain ⟨rfl, -⟩ := List.cons.inj heq
        simpa using hname d List.mem_cons_self
  have hcspan : strcspn sep nul (pathDup.drop (before ++ seps).length) = name.length := by
    rw [hdup, List.append_assoc (before ++ seps), List.drop_left, strcspn, takeWhile_stretch]
    · intro c hc
      have hcn : c ≠ nul := fun heq => hnul (by rwa [heq] at hc)
      simp [hname c hc, hcn]
    · intro c rest heq
      rcases hleft c rest heq with rfl | rfl <;> simp
  rw [hspan, hcspan]
  exact ⟨List.length_append.symm, List.length_append.symm⟩

omit [DecidableEq α] in
theorem set_here (before : List α) (c d : α) (after : List α) :
    (before ++ c :: after).set before.length d = before ++ d :: after := by
  rw [List.set_append_right _ _ (Nat.le_refl _), Nat.sub_self, List.set_cons_zero]

omit [DecidableEq α] in
theorem get_here (before : List α) (c : α) (after : List α) :
    (before ++ c :: after)[before.length]? = some c := by
  rw [List.getElem?_append_right (Nat.le_refl _), Nat.sub_self, List.getElem?_cons_zero]

/-- The loop calls for the names that the path leads through, and it ends. -/
theorem makeLoop_eq (hne : sep ≠ nul) {turns : Nat} (before rest : List α)
    (hturns : rest.length < turns) (hnul : nul ∉ before ++ rest) (s : σ) :
    makeLoop fs sep nul win turns (before ++ rest ++ [nul]) before.length s =
      some (visitAll fs win s (names sep before false rest)) := by
  induction turns generalizing before rest s with
  | zero => exact absurd hturns (Nat.not_lt_zero _)
  | succ turns ih =>
      cases exists_turn sep rest with
      | last seps name htext hseps hname =>
          subst htext
          have hdup : before ++ (seps ++ name) ++ [nul] = before ++ seps ++ name ++ [nul] := by
            simp
          rw [← List.append_assoc] at hnul
          obtain ⟨hspan, hcspan⟩ := turn_slash hseps hname
            (fun hin => hnul (List.mem_append_right _ hin)) hdup (by simp) (by simp [hne.symm])
          rw [makeLoop, hspan, hcspan, hdup, get_here, set_here, cStr_before hnul,
            names_last _ hseps hname, visitAll, decide_eq_true rfl, List.isEmpty_nil]
          cases visit fs win s (before ++ seps ++ name) true with
          | giveUp s => rfl
          | goOn s => exact if_pos rfl
      | more seps name after htext hseps hname hname' =>
          subst htext
          have hdup : before ++ (seps ++ name ++ sep :: after) ++ [nul] =
              before ++ seps ++ name ++ sep :: (after ++ [nul]) := by simp
          have hnulName : nul ∉ name := fun hin => hnul (by simp [hin])
          obtain ⟨hspan, hcspan⟩ := turn_slash hseps hname hnulName hdup (by simp)
            fun hnil => absurd hnil hname'
          have hbefore : nul ∉ before ++ seps ++ name := fun hin => hnul (by
            rw [← List.append_assoc, ← List.append_assoc]
            exact List.mem_append_left _ hin)
          have hmore : ¬ some sep = some nul := fun heq => hne (Option.some.inj heq)
          have hcopy : before ++ seps ++ name ++ sep :: (after ++ [nul]) =
              before ++ seps ++ name ++ sep :: after ++ [nul] := by simp
          have hrest := ih (before ++ seps ++ name) (sep :: after)
            (by
              have hpos := List.length_pos_iff.mpr hname'
              simp only [List.length_append, List.length_cons] at hturns ⊢
              omega)
            (by simpa using hnul)
          rw [makeLoop, hspan, hcspan, hdup, get_here, set_here, set_here, cStr_before hbefore,
            names_more _ hseps hname hname', visitAll, decide_eq_false hmore, names_isEmpty]
          cases visit fs win s (before ++ seps ++ name) false with
          | giveUp s => rfl
          | goOn s =>
              dsimp only
              rw [if_neg hmore, hcopy, hrest]

theorem makePath_eq (hne : sep ≠ nul) (path : List α) (s : σ) :
    makePath fs sep nul win path s =
      some (visitAll fs win s (leading sep (cStr nul path))) := by
  have hnul : nul ∉ ([] : List α) ++ cStr nul path := by
    intro hin
    have hmem := List.all_eq_true.mp List.all_takeWhile nul hin
    simp at hmem
  exact makeLoop_eq hne [] _ (Nat.lt_succ_self _) hnul s

end Turns

end Loop

/-- A path leads through itself, and through each of its names that a separator follows. -/
def Leads (sep : α) (p path : List α) : Prop :=
  p = path ∨ ∃ before c rest, p = before ++ [c] ∧ c ≠ sep ∧ path = p ++ sep :: rest

section Leads

variable {sep : α} {p path before rest : List α}

omit [DecidableEq α] in
theorem Leads.prefix (h : Leads sep p path) : p <+: path := by
  rcases h with rfl | ⟨-, -, rest, -, -, rfl⟩
  · exact List.prefix_refl p
  · exact List.prefix_append _ _

omit [DecidableEq α] in
theorem Leads.length_lt (h : Leads sep p path) (hne : p ≠ path) : p.length < path.length := by
  rcases h with rfl | ⟨-, -, rest, -, -, rfl⟩
  · exact absurd rfl hne
  · rw [List.length_append, List.length_cons]
    omega

omit [DecidableEq α] in
/-- A prefix that goes on past `before` goes on with the next character. -/
theorem prefix_step {c : α} (h : before <+: p) (hp : p <+: before ++ c :: rest) :
    p = before ∨ before ++ [c] <+: p := by
  obtain ⟨tail, rfl⟩ := h
  rw [List.prefix_append_right_inj] at hp
  cases tail with
  | nil => exact .inl (List.append_nil before)
  | cons d tail =>
      obtain ⟨rfl, -⟩ := List.cons_prefix_cons.mp hp
      exact .inr (by simp)

theorem mem_names {inName : Bool}
    (hin : inName = true ↔ ∃ b c, before = b ++ [c] ∧ c ≠ sep) :
    p ∈ names sep before inName rest ↔ before <+: p ∧ Leads sep p (before ++ rest) := by
  induction rest generalizing before inName with
  | nil =>
      rw [names, List.mem_singleton, List.append_nil]
      refine ⟨fun h => h ▸ ⟨List.prefix_refl p, .inl rfl⟩, fun ⟨hb, hl⟩ => ?_⟩
      exact hl.prefix.eq_of_length_le hb.length_le
  | cons c rest ih =>
      have hassoc : before ++ c :: rest = before ++ [c] ++ rest := by simp
      have hnot : ¬ Leads sep before (before ++ c :: rest) ∨ c = sep ∧ inName = true := by
        by_cases hc : c = sep ∧ inName = true
        · exact .inr hc
        · refine .inl fun hl => ?_
          rcases hl with heq | ⟨b, d, tail, hb, hd, heq⟩
          · simp at heq
          · obtain ⟨rfl, -⟩ := List.cons.inj (List.append_cancel_left heq)
            exact hc ⟨rfl, hin.mpr ⟨b, d, hb, hd⟩⟩
      have hstep (inName' : Bool)
          (h : p ∈ names sep (before ++ [c]) inName' rest ↔
            before ++ [c] <+: p ∧ Leads sep p (before ++ [c] ++ rest)) :
          p ∈ names sep (before ++ [c]) inName' rest ↔
            (before <+: p ∧ p ≠ before) ∧ Leads sep p (before ++ c :: rest) := by
        rw [h, hassoc]
        refine ⟨fun ⟨hb, hl⟩ => ⟨⟨(List.prefix_append _ _).trans hb, fun heq => ?_⟩, hl⟩,
          fun ⟨⟨hb, hne⟩, hl⟩ => ⟨?_, hl⟩⟩
        · rw [heq] at hb
          have hlen := hb.length_le
          rw [List.length_append, List.length_singleton] at hlen
          omega
        · have hp := hl.prefix
          rw [← hassoc] at hp
          exact (prefix_step hb hp).resolve_left hne
      rw [names]
      split
      next hc =>
        have hends : false = true ↔ ∃ b d, before ++ [c] = b ++ [d] ∧ d ≠ sep := by
          refine ⟨fun h => absurd h Bool.false_ne_true, fun ⟨b, d, hb, hd⟩ => ?_⟩
          obtain ⟨-, heq⟩ := List.append_inj' hb rfl
          exact absurd ((List.cons.inj heq).1.symm.trans hc) hd
        have ih' := hstep false (ih hends)
        split
        next hname =>
          rw [List.mem_cons, ih']
          constructor
          · rintro (rfl | ⟨⟨hb, -⟩, hl⟩)
            · obtain ⟨b, d, hb, hd⟩ := hin.mp hname
              exact ⟨List.prefix_refl _, .inr ⟨b, d, rest, hb, hd, by rw [hc]⟩⟩
            · exact ⟨hb, hl⟩
          · intro ⟨hb, hl⟩
            by_cases heq : p = before
            · exact .inl heq
            · exact .inr ⟨⟨hb, heq⟩, hl⟩
        next hname =>
          rw [ih']
          refine ⟨fun ⟨⟨hb, _⟩, hl⟩ => ⟨hb, hl⟩, fun ⟨hb, hl⟩ => ⟨⟨hb, fun heq => ?_⟩, hl⟩⟩
          rw [heq] at hl
          exact hnot.elim (fun hn => hn hl) fun hn => hname hn.2
      next hc =>
        rw [hstep true (ih ⟨fun _ => ⟨before, c, rfl, hc⟩, fun _ => rfl⟩)]
        refine ⟨fun ⟨⟨hb, _⟩, hl⟩ => ⟨hb, hl⟩, fun ⟨hb, hl⟩ => ⟨⟨hb, fun heq => ?_⟩, hl⟩⟩
        rw [heq] at hl
        exact hnot.elim (fun hn => hn hl) fun hn => hc hn.1

theorem mem_leading : p ∈ leading sep path ↔ Leads sep p path := by
  have hends : false = true ↔ ∃ b c, ([] : List α) = b ++ [c] ∧ c ≠ sep := by simp
  rw [leading, mem_names hends, List.nil_append]
  exact ⟨fun h => h.2, fun h => ⟨List.nil_prefix, h⟩⟩

theorem names_length (inName : Bool) (h : p ∈ names sep before inName rest) :
    before.length ≤ p.length := by
  induction rest generalizing before inName with
  | nil => exact Nat.le_of_eq (congrArg List.length (List.mem_singleton.mp h).symm)
  | cons c rest ih =>
      have hlonger {b : Bool} (h : p ∈ names sep (before ++ [c]) b rest) :
          before.length ≤ p.length := by
        have hle := ih b h
        rw [List.length_append] at hle
        omega
      rw [names] at h
      split at h
      next =>
        split at h
        next =>
          rcases List.mem_cons.mp h with rfl | h
          · exact Nat.le_refl _
          · exact hlonger h
        next => exact hlonger h
      next => exact hlonger h

theorem names_sorted (inName : Bool) :
    (names sep before inName rest).Pairwise fun p q => p.length < q.length := by
  induction rest generalizing before inName with
  | nil => exact List.pairwise_singleton _ _
  | cons c rest ih =>
      rw [names]
      split
      next =>
        split
        next =>
          refine List.pairwise_cons.mpr ⟨fun q hq => ?_, ih false⟩
          have hle := names_length false hq
          rw [List.length_append, List.length_singleton] at hle
          omega
        next => exact ih false
      next => exact ih true

end Leads

/-- Whoever may do what: a name that has been made leads to a directory, and directories stay. -/
structure Sound (fs : FileSystem σ α) : Prop where
  made : ∀ s p s', fs.mkdir s p = some s' → fs.stat s' p = .directory
  stays : ∀ s p s' q, fs.mkdir s p = some s' → fs.stat s q = .directory →
    fs.stat s' q = .directory

/-- A file system that a path can be made on: what the path leads through can be asked for, and
made where it is missing, once all before it are directories. Making a name leaves what is there
as it is, and of the path it brings up nothing that is other than a directory. -/
structure Usable (fs : FileSystem σ α) (sep : α) (path : List α) : Prop extends Sound fs where
  known : ∀ s p, Leads sep p path → (∀ q, Leads sep q p → q ≠ p → fs.stat s q = .directory) →
    fs.stat s p ≠ .failed
  makes : ∀ s p, Leads sep p path → (∀ q, Leads sep q p → q ≠ p → fs.stat s q = .directory) →
    fs.stat s p = .missing → p ≠ [] → ∃ s', fs.mkdir s p = some s'
  same : ∀ s p s' q, fs.mkdir s p = some s' → fs.stat s q ≠ .missing →
    fs.stat s' q = fs.stat s q
  fresh : ∀ s p s' q, fs.mkdir s p = some s' → Leads sep q path → fs.stat s q = .missing →
    fs.stat s' q ≠ .other

section Sound

variable {fs : FileSystem σ α} {win : Bool} {s s' : σ} {name : List α}

omit [DecidableEq α] in
/-- A call that goes on has found or made a directory, or leaves the state as it is, which
happens only outside of Windows and before the end. -/
theorem visit_goOn (h : Sound fs) {done : Bool} (hv : visit fs win s name done = .goOn s') :
    (∀ q, fs.stat s q = .directory → fs.stat s' q = .directory) ∧
      (done = true ∨ win = true → fs.stat s' name = .directory) := by
  have hmade {t : σ} (hm : fs.mkdir s name = some t) (heq : Visit.goOn t = .goOn s') :
      (∀ q, fs.stat s q = .directory → fs.stat s' q = .directory) ∧
        fs.stat s' name = .directory := by
    obtain rfl := Visit.goOn.inj heq
    exact ⟨fun q => h.stays s name t q hm, h.made s name t hm⟩
  cases win with
  | true =>
      rw [visit, if_pos rfl, visitWindows.eq_def] at hv
      split at hv
      next hs =>
        obtain rfl := Visit.goOn.inj hv
        exact ⟨fun _ => id, fun _ => hs⟩
      next => cases hv
      all_goals
        split at hv
        next t hm => exact ⟨(hmade hm hv).1, fun _ => (hmade hm hv).2⟩
        next => cases hv
  | false =>
      rw [visit, if_neg Bool.false_ne_true, visitPosix.eq_def] at hv
      have hon (heq : (if done then Visit.giveUp s else .goOn s) = .goOn s') :
          (∀ q, fs.stat s q = .directory → fs.stat s' q = .directory) ∧
            (done = true ∨ false = true → fs.stat s' name = .directory) := by
        split at heq
        next => cases heq
        next hd =>
          obtain rfl := Visit.goOn.inj heq
          exact ⟨fun _ => id, fun hor => hor.elim (absurd · hd) nofun⟩
      split at hv
      next hs =>
        obtain rfl := Visit.goOn.inj hv
        exact ⟨fun _ => id, fun _ => hs⟩
      next => cases hv
      next =>
        split at hv
        next t hm => exact ⟨(hmade hm hv).1, fun _ => (hmade hm hv).2⟩
        next => exact hon hv
      next => exact hon hv

omit [DecidableEq α] in
theorem visit_giveUp {done : Bool} (hv : visit fs win s name done = .giveUp s') : s' = s := by
  cases win with
  | true =>
      rw [visit, if_pos rfl, visitWindows.eq_def] at hv
      split at hv
      next => cases hv
      next => exact (Visit.giveUp.inj hv).symm
      all_goals
        split at hv
        next => cases hv
        next => exact (Visit.giveUp.inj hv).symm
  | false =>
      have hend (heq : (if done then Visit.giveUp s else .goOn s) = .giveUp s') : s' = s := by
        split at heq
        next => exact (Visit.giveUp.inj heq).symm
        next => cases heq
      rw [visit, if_neg Bool.false_ne_true, visitPosix.eq_def] at hv
      split at hv
      next => cases hv
      next => exact (Visit.giveUp.inj hv).symm
      next =>
        split at hv
        next => cases hv
        next => exact hend hv
      next => exact hend hv

omit [DecidableEq α] in
/-- Directories stay, whatever comes out. -/
theorem visitAll_made (h : Sound fs) {ns : List (List α)} {made : Bool}
    (hv : visitAll fs win s ns = (made, s')) :
    (∀ q, fs.stat s q = .directory → fs.stat s' q = .directory) ∧
      (made = true → (∀ p, ns.getLast? = some p → fs.stat s' p = .directory) ∧
        (win = true → ∀ p ∈ ns, fs.stat s' p = .directory)) := by
  induction ns generalizing s with
  | nil =>
      obtain ⟨-, rfl⟩ := Prod.mk.inj hv
      exact ⟨fun _ => id, fun _ => ⟨nofun, fun _ => nofun⟩⟩
  | cons p ns ih =>
      rw [visitAll] at hv
      split at hv
      next t ht =>
        obtain ⟨rfl, rfl⟩ := Prod.mk.inj hv
        rw [visit_giveUp ht]
        exact ⟨fun _ => id, nofun⟩
      next t ht =>
        obtain ⟨hstays, hp⟩ := visit_goOn h ht
        obtain ⟨hstays', hmade⟩ := ih hv
        refine ⟨fun q hq => hstays' q (hstays q hq), fun hm =>
          ⟨fun q hq => ?_, fun hwin q hq => ?_⟩⟩
        · cases ns with
          | nil =>
              obtain rfl := Option.some.inj hq
              exact hstays' p (hp (.inl rfl))
          | cons r ns =>
              rw [List.getLast?_cons_cons] at hq
              exact (hmade hm).1 q hq
        · rcases List.mem_cons.mp hq with rfl | hq
          · exact hstays' q (hp (.inr hwin))
          · exact (hmade hm).2 hwin q hq

theorem names_getLast (sep : α) (before : List α) (inName : Bool) (rest : List α) :
    (names sep before inName rest).getLast? = some (before ++ rest) := by
  induction rest generalizing before inName with
  | nil => rw [names, List.append_nil, List.getLast?_singleton]
  | cons c rest ih =>
      have hassoc : before ++ c :: rest = before ++ [c] ++ rest := by simp
      rw [names, hassoc]
      split
      next =>
        split
        next =>
          cases hns : names sep (before ++ [c]) false rest with
          | nil =>
              have hempty := names_isEmpty sep (before ++ [c]) false rest
              rw [hns] at hempty
              cases hempty
          | cons p ns => rw [List.getLast?_cons_cons, ← hns, ih]
        next => exact ih _ _
      next => exact ih _ _

end Sound

/-- True means true. On any file system whose mkdir makes directories and takes none away,
whatever else it changes, MakePath returns true only where the path then leads to a directory,
and on Windows only where all that it leads through are directories. No call takes a directory
away. -/
theorem made_is_directory {fs : FileSystem σ α} (h : Sound fs) {sep nul : α} (hne : sep ≠ nul)
    {win made : Bool} {path : List α} {s s' : σ}
    (hmake : makePath fs sep nul win path s = some (made, s')) :
    (made = true → fs.stat s' (cStr nul path) = .directory ∧
      (win = true → ∀ p, Leads sep p (cStr nul path) → fs.stat s' p = .directory)) ∧
      ∀ q, fs.stat s q = .directory → fs.stat s' q = .directory := by
  rw [makePath_eq hne] at hmake
  obtain ⟨hstays, hmade⟩ := visitAll_made h (Option.some.inj hmake)
  refine ⟨fun hm => ⟨(hmade hm).1 _ ?_, fun hwin p hp => ?_⟩, hstays⟩
  · rw [leading, names_getLast, List.nil_append]
  · exact (hmade hm).2 hwin p (mem_leading.mpr hp)

section Usable

variable {fs : FileSystem σ α} {sep : α} {path : List α} (win : Bool)

omit [DecidableEq α] in
theorem visit_usable (h : Usable fs sep path) {s : σ} {p : List α} (hlead : Leads sep p path)
    (hp : p ≠ []) (done : Bool)
    (hready : ∀ q, Leads sep q p → q ≠ p → fs.stat s q = .directory) :
    fs.stat s p = .other ∧ visit fs win s p done = .giveUp s ∨
      fs.stat s p ≠ .other ∧ ∃ t, visit fs win s p done = .goOn t ∧ fs.stat t p = .directory ∧
        (∀ q, fs.stat s q ≠ .missing → fs.stat t q = fs.stat s q) ∧
        ∀ q, Leads sep q path → fs.stat s q = .missing → fs.stat t q ≠ .other := by
  cases hs : fs.stat s p with
  | directory =>
      refine .inr ⟨nofun, s, ?_, hs, fun _ _ => rfl, fun q _ hq => by rw [hq]; nofun⟩
      cases win <;> simp [visit, visitWindows, visitPosix, hs]
  | other =>
      refine .inl ⟨rfl, ?_⟩
      cases win <;> simp [visit, visitWindows, visitPosix, hs]
  | missing =>
      obtain ⟨t, ht⟩ := h.makes s p hlead hready hs hp
      refine .inr ⟨nofun, t, ?_, h.made s p t ht, fun q => h.same s p t q ht,
        fun q => h.fresh s p t q ht⟩
      cases win <;> simp [visit, visitWindows, visitPosix, hs, ht]
  | failed => exact absurd hs (h.known s p hlead hready)

omit [DecidableEq α] in
theorem visitAll_usable (h : Usable fs sep path) {ns : List (List α)} {s : σ}
    (hlead : ∀ p ∈ ns, Leads sep p path) (hns : ∀ p ∈ ns, p ≠ [])
    (hsorted : ns.Pairwise fun p q => p.length < q.length)
    (hready : ∀ p ∈ ns, ∀ q, Leads sep q p → q ∈ ns ∨ fs.stat s q = .directory) :
    ∃ made s', visitAll fs win s ns = (made, s') ∧
      (made = true ↔ ∀ p ∈ ns, fs.stat s p ≠ .other) ∧
      (∀ q, fs.stat s q ≠ .missing → fs.stat s' q = fs.stat s q) ∧
      (made = true → ∀ p ∈ ns, fs.stat s' p = .directory) := by
  induction ns generalizing s with
  | nil => exact ⟨true, s, rfl, by simp, fun _ _ => rfl, fun _ => nofun⟩
  | cons p ns ih =>
      obtain ⟨hshort, hsorted⟩ := List.pairwise_cons.mp hsorted
      have hbefore : ∀ q, Leads sep q p → q ≠ p → fs.stat s q = .directory := by
        intro q hq hne
        have hlt := hq.length_lt hne
        refine (hready p List.mem_cons_self q hq).resolve_left fun hin => ?_
        rcases List.mem_cons.mp hin with rfl | hin
        · exact hne rfl
        · have hlonger := hshort q hin
          omega
      rw [visitAll]
      rcases visit_usable win h (hlead p List.mem_cons_self) (hns p List.mem_cons_self) ns.isEmpty
        hbefore with
        ⟨hother, hv⟩ | ⟨hother, t, hv, hdir, hsame, hfresh⟩
      · refine ⟨false, s, by rw [hv], ⟨nofun, fun hall => ?_⟩, fun _ _ => rfl, nofun⟩
        exact absurd hother (hall p List.mem_cons_self)
      · have hdirs (q : List α) (hq : fs.stat s q = .directory) : fs.stat t q = .directory := by
          rw [hsame q (by rw [hq]; nofun), hq]
        obtain ⟨made, s', hrest, hmade, hsame', hall⟩ := ih (s := t)
          (fun q hq => hlead q (List.mem_cons_of_mem p hq))
          (fun q hq => hns q (List.mem_cons_of_mem p hq)) hsorted fun q hq r hr => by
            rcases hready q (List.mem_cons_of_mem p hq) r hr with hin | hd
            · rcases List.mem_cons.mp hin with rfl | hin
              · exact .inr hdir
              · exact .inl hin
            · exact .inr (hdirs r hd)
        have hothers (q : List α) (hin : q ∈ ns) :
            fs.stat t q = .other ↔ fs.stat s q = .other := by
          by_cases hq : fs.stat s q = .missing
          · rw [hq]
            have hnew := hfresh q (hlead q (List.mem_cons_of_mem p hin)) hq
            exact ⟨fun ho => absurd ho hnew, nofun⟩
          · rw [hsame q hq]
        refine ⟨made, s', by rw [hv]; exact hrest, ?_, fun q hq => ?_, fun hm q hq => ?_⟩
        · rw [hmade]
          constructor
          · intro hn q hq
            rcases List.mem_cons.mp hq with rfl | hq
            · exact hother
            · exact fun ho => hn q hq ((hothers q hq).mpr ho)
          · intro hn q hq ho
            exact hn q (List.mem_cons_of_mem p hq) ((hothers q hq).mp ho)
        · rw [hsame' q (by rwa [hsame q hq]), hsame q hq]
        · rcases List.mem_cons.mp hq with rfl | hq
          · rw [hsame' q (by rw [hdir]; nofun), hdir]
          · exact hall hm q hq

omit [DecidableEq α] in
theorem visitAll_again {s : σ} {ns : List (List α)} (h : ∀ p ∈ ns, fs.stat s p = .directory) :
    visitAll fs win s ns = (true, s) := by
  induction ns with
  | nil => rfl
  | cons p ns ih =>
      have hp := h p List.mem_cons_self
      have hv : visit fs win s p ns.isEmpty = .goOn s := by
        cases win <;> simp [visit, visitWindows, visitPosix, hp]
      rw [visitAll, hv]
      exact ih fun q hq => h q (List.mem_cons_of_mem p hq)

omit [DecidableEq α] in
theorem leading_transitive {path p q : List α} (hp : Leads sep p path) (hq : Leads sep q p) :
    Leads sep q path := by
  rcases hq with rfl | ⟨before, c, rest, hb, hc, rfl⟩
  · exact hp
  · obtain ⟨tail, rfl⟩ := hp.prefix
    exact .inr ⟨before, c, rest ++ tail, hb, hc, by simp⟩

end Usable

/-- Making a path. On a file system that the path can be made on MakePath returns, and with true
exactly where nothing that the path leads through is other than a directory. Then all of that is
there, a second call finds it so and changes nothing; and whatever was there before is as it was. -/
theorem path_is_made {fs : FileSystem σ α} {sep nul : α} {path : List α}
    (h : Usable fs sep (cStr nul path)) (hne : sep ≠ nul) (win : Bool)
    (hpath : cStr nul path ≠ []) (s : σ) :
    ∃ made s', makePath fs sep nul win path s = some (made, s') ∧
      (made = true ↔ ∀ p, Leads sep p (cStr nul path) → fs.stat s p ≠ .other) ∧
      (∀ q, fs.stat s q ≠ .missing → fs.stat s' q = fs.stat s q) ∧
      (made = true → (∀ p, Leads sep p (cStr nul path) → fs.stat s' p = .directory) ∧
        makePath fs sep nul win path s' = some (true, s')) := by
  have hnonempty : ∀ p ∈ leading sep (cStr nul path), p ≠ [] := by
    intro p hp hnil
    rcases mem_leading.mp hp with rfl | ⟨b, c, rest, hb, -⟩
    · exact hpath hnil
    · rw [hb] at hnil
      simp at hnil
  obtain ⟨made, s', hv, hmade, hsame, hall⟩ := visitAll_usable win (s := s) h
    (fun p hp => mem_leading.mp hp) hnonempty (names_sorted false) fun p hp q hq =>
      .inl (mem_leading.mpr (leading_transitive (mem_leading.mp hp) hq))
  refine ⟨made, s', by rw [makePath_eq hne, hv], ?_, hsame, fun hm => ⟨?_, ?_⟩⟩
  · rw [hmade]
    exact forall_congr' fun p => by rw [mem_leading]
  · exact fun p hp => hall hm p (mem_leading.mpr hp)
  · rw [makePath_eq hne, visitAll_again win (hall hm)]

def above (p : List Char) : List (List Char) := (leading '/' p).filter (· ≠ p)

theorem mem_above {p q : List Char} : q ∈ above p ↔ Leads '/' q p ∧ q ≠ p := by
  rw [above, List.mem_filter, mem_leading, decide_eq_true_eq]

/-- What a name leads to where there are these files and directories. Below a file nothing can
be asked for. -/
def treeStat (files dirs : List (List Char)) (p : List Char) : Stat :=
  if (above p).any (fun q => q ∈ files) then .failed
  else if p ∈ files then .other
  else if p ∈ dirs then .directory
  else .missing

/-- Some files, and as the state the names of the directories. A directory is made in one that
is there. -/
def tree (files : List (List Char)) : FileSystem (List (List Char)) Char where
  stat := treeStat files
  mkdir dirs p :=
    if treeStat files dirs p = .missing ∧ p ≠ [] ∧
        ∀ q ∈ above p, treeStat files dirs q = .directory then
      some (p :: dirs)
    else none

section Tree

variable {files dirs dirs' : List (List Char)} {p q : List Char}

theorem tree_mkdir (h : (tree files).mkdir dirs p = some dirs') :
    treeStat files dirs p = .missing ∧ dirs' = p :: dirs := by
  simp only [tree] at h
  split at h
  next hmissing => exact ⟨hmissing.1, (Option.some.inj h).symm⟩
  next => cases h

theorem treeStat_cons (h : treeStat files dirs p = .missing) (q : List Char) :
    treeStat files (p :: dirs) q = if q = p then .directory else treeStat files dirs q := by
  rw [treeStat] at h
  by_cases hq : q = p
  · subst hq
    rw [if_pos rfl, treeStat]
    split at h
    next => cases h
    next hany =>
      split at h
      next => cases h
      next hfile => rw [if_neg hany, if_neg hfile, if_pos List.mem_cons_self]
  · have hmem : q ∈ p :: dirs ↔ q ∈ dirs := by rw [List.mem_cons, or_iff_right hq]
    simp only [if_neg hq, treeStat, hmem]

theorem tree_usable (files : List (List Char)) (path : List Char) :
    Usable (tree files) '/' path := by
  constructor
  · constructor
    · intro s p s' hm
      obtain ⟨hmissing, rfl⟩ := tree_mkdir hm
      exact (treeStat_cons hmissing p).trans (if_pos rfl)
    · intro s p s' q hm hq
      obtain ⟨hmissing, rfl⟩ := tree_mkdir hm
      refine (treeStat_cons hmissing q).trans ?_
      split
      next => rfl
      next => exact hq
  · intro s p _ hready hfailed
    have hfile (q : List Char) (hin : q ∈ above p) : q ∉ files := by
      intro hq
      obtain ⟨hlead, hne⟩ := mem_above.mp hin
      have hdir : treeStat files s q = .directory := hready q hlead hne
      rw [treeStat, if_pos hq] at hdir
      split at hdir
      next => cases hdir
      next => cases hdir
    have hany : ¬ (above p).any (fun q => q ∈ files) = true := by
      simpa using hfile
    change treeStat files s p = .failed at hfailed
    rw [treeStat, if_neg hany] at hfailed
    split at hfailed
    next => cases hfailed
    next => split at hfailed <;> cases hfailed
  · intro s p _ hready hmissing hp
    exact ⟨p :: s, if_pos ⟨hmissing, hp, fun q hin => hready q (mem_above.mp hin).1
      (mem_above.mp hin).2⟩⟩
  · intro s p s' q hm hq
    obtain ⟨hmissing, rfl⟩ := tree_mkdir hm
    refine (treeStat_cons hmissing q).trans (if_neg fun heq => ?_)
    subst heq
    exact hq hmissing
  · intro s p s' q hm _ hq
    obtain ⟨hmissing, rfl⟩ := tree_mkdir hm
    change treeStat files (p :: s) q ≠ .other
    rw [treeStat_cons hmissing]
    split
    next => nofun
    next =>
      have hsame : treeStat files s q = .missing := hq
      rw [hsame]
      nofun

end Tree

def nulChar : Char := Char.ofNat 0

theorem made_is_directory_twoLevels :
    ∃ dirs, makePath (tree []) '/' nulChar false "a//b".toList [] = some (true, dirs) ∧
      (tree []).stat dirs (cStr nulChar "a//b".toList) = .directory :=
  ⟨["a//b".toList, "a".toList], by decide +kernel,
    ((@made_is_directory _ _ _ (tree []) (tree_usable [] []).toSound '/' nulChar (by decide) false
      true "a//b".toList [] _ (by decide +kernel)).1 rfl).1⟩

/-- Below a file nothing is made, and beside it something is. -/
theorem path_is_made_overFile :
    (∃ dirs, makePath (tree ["c".toList]) '/' nulChar false "c/d".toList [] = some (false, dirs)) ∧
      ∃ dirs, makePath (tree ["c".toList]) '/' nulChar false "d/c".toList [] =
        some (true, dirs) := by
  constructor
  · obtain ⟨made, dirs, hmake, hmade, -, -⟩ := @path_is_made _ _ _ (tree ["c".toList]) '/' nulChar
      "c/d".toList (tree_usable _ _) (by decide) false (by decide) []
    cases made with
    | false => exact ⟨dirs, hmake⟩
    | true =>
        have hlead : Leads '/' "c".toList (cStr nulChar "c/d".toList) :=
          .inr ⟨[], 'c', "d".toList, by decide, by decide, by decide⟩
        exact absurd (by decide) (hmade.mp rfl _ hlead)
  · obtain ⟨made, dirs, hmake, hmade, -, -⟩ := @path_is_made _ _ _ (tree ["c".toList]) '/' nulChar
      "d/c".toList (tree_usable _ _) (by decide) false (by decide) []
    have hothers : ∀ p ∈ leading '/' (cStr nulChar "d/c".toList),
        (tree ["c".toList]).stat [] p ≠ .other := by decide
    obtain rfl : made = true := hmade.mpr fun p hp => hothers p (mem_leading.mpr hp)
    exact ⟨dirs, hmake⟩

end Ashe.MakePathDirs
