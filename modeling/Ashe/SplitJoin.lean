import Ashe.Fuel
import Ashe.StringUtil

namespace Ashe.SplitJoin

open Fuel Occurrences StrSplit StringUtil

variable {α : Type} [DecidableEq α]

abbrev same (a b : α) : Bool := a == b

theorem isPrefixOf_startsWith (delimiter text : List α) :
    delimiter.isPrefixOf text = startsWith same delimiter text := by
  induction delimiter generalizing text with
  | nil => cases text <;> rfl
  | cons d delimiter ih =>
      cases text with
      | nil => rfl
      | cons c text =>
          rw [List.isPrefixOf, startsWith, ih]
          congr 1
          exact Bool.beq_comm

theorem findHere_place (delimiter text : List α) :
    findHere delimiter text = place same delimiter text := by
  induction text with
  | nil => cases delimiter <;> rfl
  | cons c text ih => rw [findHere, place, isPrefixOf_startsWith, ih]

theorem find_place (before text delimiter : List α) :
    find (before ++ text) delimiter before.length =
      (place same delimiter text).map (before.length + ·) := by
  rw [find_behind, findHere_place]

theorem same_startsWith {delimiter text : List α} :
    startsWith same delimiter text ↔ delimiter <+: text := by
  rw [← isPrefixOf_startsWith, List.isPrefixOf_iff_prefix]

theorem intercalate_pieces {delimiter : List α} (hd : delimiter ≠ []) (text : List α) :
    delimiter.intercalate (pieces same delimiter text) = text := by
  induction text using pieces_induction same hd with
  | last text h => rw [pieces_none hd h, List.intercalate_singleton]
  | more text i h ih =>
      have hstart := same_startsWith.mp ((place_some_iff hd).mp h).1
      obtain ⟨rest, hrest⟩ := hstart
      have hdrop : text.drop (i + delimiter.length) = rest := by
        rw [← List.drop_drop, ← hrest, List.drop_left]
      rw [pieces_some hd h, List.intercalate_cons_of_ne_nil (pieces_ne_nil hd _), ih, hdrop,
        List.append_assoc, hrest, List.take_append_drop]

section

variable {c : α} {delimiter : List α}

theorem place_absent {s : List α} (hs : c ∉ s) : place same (c :: delimiter) s = none := by
  rw [place_none_iff (List.cons_ne_nil c delimiter)]
  intro i hi
  have hmem := (same_startsWith.mp hi).subset List.mem_cons_self
  exact hs (List.drop_subset i s hmem)

theorem place_behind {s : List α} (hs : c ∉ s) (t : List α) :
    place same (c :: delimiter) (s ++ (c :: delimiter ++ t)) = some s.length := by
  rw [place_some_iff (List.cons_ne_nil c delimiter)]
  constructor
  · rw [List.drop_left, same_startsWith]
    exact List.prefix_append _ t
  · intro j hj h
    rw [List.drop_append_of_le_length (Nat.le_of_lt hj), same_startsWith,
      List.drop_eq_getElem_cons hj, List.cons_append, List.cons_prefix_cons] at h
    exact hs (h.1 ▸ List.getElem_mem hj)

/-- A part without the first character of the delimiter ends at the delimiter. -/
theorem pieces_behind {s : List α} (hs : c ∉ s) (t : List α) :
    pieces same (c :: delimiter) (s ++ (c :: delimiter ++ t)) =
      s :: pieces same (c :: delimiter) t := by
  rw [pieces_some (List.cons_ne_nil c delimiter) (place_behind hs t), List.take_left,
    ← List.length_append, ← List.append_assoc, List.drop_left]

theorem pieces_intercalate {s : List α} {parts : List (List α)}
    (h : ∀ part ∈ s :: parts, c ∉ part) :
    pieces same (c :: delimiter) ((c :: delimiter).intercalate (s :: parts)) = s :: parts := by
  induction parts generalizing s with
  | nil =>
      rw [List.intercalate_singleton]
      exact pieces_none (List.cons_ne_nil c delimiter) (place_absent (h s List.mem_cons_self))
  | cons part parts ih =>
      obtain ⟨hs, hparts⟩ := List.forall_mem_cons.mp h
      rw [List.intercalate_cons_cons, List.append_assoc, pieces_behind hs, ih hparts]

end

def kept (includeEmptyStr : Bool) (t : List α) : Bool := t ≠ [] || includeEmptyStr

omit [DecidableEq α] in
theorem pushField_kept (fields : List (List α)) (t : List α) (includeEmptyStr : Bool) :
    pushField fields t includeEmptyStr = fields ++ [t].filter (kept includeEmptyStr) := by
  cases t with
  | nil => cases includeEmptyStr <;> simp [pushField, kept]
  | cons c t => simp [pushField, kept]

section

variable {delimiter : List α} (hd : delimiter ≠ [])
include hd

theorem split_step {text : List α} {i : Nat} (h : place same delimiter text = some i)
    (before : List α) : before ++ text =
      (before ++ text.take (i + delimiter.length)) ++ text.drop (i + delimiter.length) ∧
    before.length + i + delimiter.length =
      (before ++ text.take (i + delimiter.length)).length := by
  have hlen := place_lt hd h
  rw [List.append_assoc, List.take_append_drop, List.length_append, List.length_take]
  exact ⟨rfl, by omega⟩

theorem splitLoop_pieces (includeEmptyStr : Bool) (text : List α) :
    ∀ (before : List α) (fields : List (List α)),
      Yields (fun n => splitLoop (before ++ text) delimiter includeEmptyStr n before.length
          (find (before ++ text) delimiter before.length) fields)
        (fields ++ (pieces same delimiter text).filter (kept includeEmptyStr)) := by
  induction text using pieces_induction same hd with
  | last text h =>
      intro before fields
      rw [find_place, h, pieces_none hd h, ← pushField_kept, Option.map_none]
      refine ⟨1, ?_⟩
      dsimp only
      rw [splitLoop, List.drop_left]
  | more text i h ih =>
      intro before fields
      obtain ⟨hsrc, hoffset⟩ := split_step hd h before
      obtain ⟨n, hn⟩ := ih (before ++ text.take (i + delimiter.length))
        (fields ++ [text.take i].filter (kept includeEmptyStr))
      rw [find_place, h, pieces_some hd h, Option.map_some]
      refine ⟨n + 1, ?_⟩
      dsimp only at hn ⊢
      rw [splitLoop, List.drop_left, Nat.add_sub_cancel_left, hoffset, pushField_kept, hsrc, hn,
        List.append_assoc, ← List.filter_append]
      rfl

theorem strSplit_pieces (src : List α) (includeEmptyStr : Bool) :
    Yields (fun n => strSplit n src delimiter includeEmptyStr)
      ((pieces same delimiter src).filter (kept includeEmptyStr)) :=
  splitLoop_pieces hd includeEmptyStr src [] []

omit hd in
theorem strSplit_steady (src : List α) (includeEmptyStr : Bool) :
    Steady fun n => strSplit n src delimiter includeEmptyStr := by
  intro n r h
  have hloop : ∀ (offset : Nat) (pos : Option Nat) (fields : List (List α)),
      splitLoop src delimiter includeEmptyStr n offset pos fields = some r →
        splitLoop src delimiter includeEmptyStr (n + 1) offset pos fields = some r := by
    clear h
    induction n with
    | zero => exact fun offset pos fields h => absurd h (by simp [splitLoop])
    | succ n ih =>
        intro offset pos fields h
        cases pos with
        | none => exact h
        | some pos => exact ih _ _ _ h
  exact hloop _ _ _ h

theorem containLoop_pieces (text : List α) :
    ∀ (before : List α) (times : Nat),
      Yields (fun n => containLoop (before ++ text) delimiter n before.length times)
        (times + ((pieces same delimiter text).length - 1)) := by
  induction text using pieces_induction same hd with
  | last text h =>
      intro before times
      refine ⟨1, ?_⟩
      simp only [containLoop, find_place, h, pieces_none hd h]
      rfl
  | more text i h ih =>
      intro before times
      obtain ⟨hsrc, hoffset⟩ := split_step hd h before
      obtain ⟨n, hn⟩ := ih (before ++ text.take (i + delimiter.length)) (times + 1)
      have hpos := List.length_pos_iff.mpr
        (@pieces_ne_nil _ same _ hd (text.drop (i + delimiter.length)))
      refine ⟨n + 1, ?_⟩
      dsimp only at hn ⊢
      rw [containLoop, find_place, h, Option.map_some]
      dsimp only
      rw [hoffset, hsrc, hn, pieces_some hd h, List.length_cons]
      congr 1
      omega

end

omit [DecidableEq α] in
theorem strJoin_intercalate (src : List (List α)) (delimiter : List α) (includeEmptyStr : Bool) :
    strJoin src delimiter includeEmptyStr = delimiter.intercalate src := by
  have hpiece (t : List α) :
      (if t.length > 0 then t else if includeEmptyStr then t else []) = t := by
    cases t with
    | nil => cases includeEmptyStr <;> rfl
    | cons c t => rfl
  induction src with
  | nil => rfl
  | cons t src ih =>
      rw [strJoin, hpiece, ih]
      cases src with
      | nil => simp
      | cons u src => simp [List.intercalate_cons_of_ne_nil]

omit [DecidableEq α] in
theorem kept_true (fields : List (List α)) : fields.filter (kept true) = fields :=
  List.filter_eq_self.mpr fun t _ => by simp [kept]

omit [DecidableEq α] in
theorem kept_false (fields : List (List α)) :
    fields.filter (kept false) = fields.filter (· ≠ []) :=
  List.filter_congr fun t _ => by simp [kept]

theorem place_none_absent {delimiter t : List α} (hd : delimiter ≠ [])
    (h : place same delimiter t = none) : ¬ delimiter <:+: t := by
  rintro ⟨before, after, rfl⟩
  refine (place_none_iff hd).mp h before.length (same_startsWith.mpr ?_)
  rw [List.append_assoc, List.drop_left]
  exact List.prefix_append delimiter after

/-- The fields of a split: joined they are the source, none of them contains the
delimiter, StrContainTimes counts one less, and without the empty ones they are the
fields of a split that leaves those out. -/
theorem split_join_laws (s : List α) {d : List α} (hd : d ≠ []) :
    ∃ fields times, Yields (fun n => strSplit n s d true) fields ∧
      strJoin fields d true = s ∧ (∀ t ∈ fields, ¬ d <:+: t) ∧
      Yields (fun n => strContainTimes n s d) times ∧ fields.length = times + 1 ∧
      Yields (fun n => strSplit n s d false) (fields.filter (· ≠ [])) := by
  have hall := strSplit_pieces hd s true
  have hsome := strSplit_pieces hd s false
  have hcount := containLoop_pieces hd s [] 0
  rw [kept_true] at hall
  rw [kept_false] at hsome
  refine ⟨pieces same d s, 0 + ((pieces same d s).length - 1), hall, ?_, ?_, ?_, ?_, hsome⟩
  · rw [strJoin_intercalate, intercalate_pieces hd]
  · exact fun t ht => place_none_absent hd (place_piece hd ht)
  · obtain ⟨n, hn⟩ := hcount
    refine ⟨n, ?_⟩
    dsimp only at hn ⊢
    rw [strContainTimes, if_neg fun h => hd (List.length_eq_zero_iff.mp h)]
    exact hn
  · have hpos := List.length_pos_iff.mpr (@pieces_ne_nil _ same _ hd s)
    omega

theorem split_join_laws_adjacent :
    ∃ fields times,
      Yields (fun n => strSplit n ("aaa,,b,".toList.map HexEncode.ascii)
        [HexEncode.ascii ','] true) fields ∧
      strJoin fields [HexEncode.ascii ','] true = "aaa,,b,".toList.map HexEncode.ascii ∧
      (∀ t ∈ fields, ¬ [HexEncode.ascii ','] <:+: t) ∧
      Yields (fun n => strContainTimes n ("aaa,,b,".toList.map HexEncode.ascii)
        [HexEncode.ascii ',']) times ∧ fields.length = times + 1 ∧
      Yields (fun n => strSplit n ("aaa,,b,".toList.map HexEncode.ascii)
        [HexEncode.ascii ','] false) (fields.filter (· ≠ [])) :=
  split_join_laws _ (by simp)

omit [DecidableEq α] in
theorem length_strJoin (v : List (List α)) (d : List α) (includeEmptyStr : Bool) :
    (strJoin v d includeEmptyStr).length = v.flatten.length + (v.length - 1) * d.length := by
  rw [strJoin_intercalate]
  induction v with
  | nil => simp
  | cons t v ih =>
      cases v with
      | nil => simp
      | cons u v =>
          have hflatten : (t :: u :: v).flatten.length = t.length + (u :: v).flatten.length := by
            rw [List.flatten_cons, List.length_append]
          rw [List.intercalate_cons_cons, List.length_append, List.length_append, ih, hflatten]
          simp only [List.length_cons, Nat.add_sub_cancel, Nat.succ_mul]
          omega

omit [DecidableEq α] in
theorem strJoin_empty (v : List (List α)) (includeEmptyStr : Bool) :
    strJoin v [] includeEmptyStr = v.flatten := by
  rw [strJoin_intercalate]
  induction v with
  | nil => rfl
  | cons t v ih =>
      cases v with
      | nil => rw [List.intercalate_singleton, List.flatten_singleton]
      | cons u v => rw [List.intercalate_cons_cons, ih, List.append_nil, ← List.flatten_cons]

omit [DecidableEq α] in
/-- The flag of StrJoin has no effect, so the delimiter of an empty element stays. -/
theorem join_skips_iff (v : List (List α)) (d : List α) :
    strJoin v d false = strJoin (v.filter (· ≠ [])) d true ↔
      d = [] ∨ v = [[]] ∨ ∀ t ∈ v, t ≠ [] := by
  constructor
  · intro h
    have hlen := congrArg List.length h
    rw [length_strJoin, length_strJoin, List.flatten_filter_ne_nil,
      Nat.add_left_cancel_iff] at hlen
    cases d with
    | nil => exact Or.inl rfl
    | cons c d =>
        have hcount := Nat.eq_of_mul_eq_mul_right (Nat.succ_pos d.length) hlen
        have hle := List.length_filter_le (· ≠ []) v
        refine Or.inr ?_
        cases Nat.lt_or_eq_of_le hle with
        | inl hlt =>
            have hone : v.length = 1 := by omega
            obtain ⟨t, rfl⟩ := List.length_eq_one_iff.mp hone
            cases t with
            | nil => exact Or.inl rfl
            | cons a t => exact absurd hlt (by simp)
        | inr heq =>
            have hall := List.length_filter_eq_length_iff.mp heq
            exact Or.inr fun t ht => of_decide_eq_true (hall t ht)
  · rintro (rfl | rfl | h)
    · rw [strJoin_empty, strJoin_empty, List.flatten_filter_ne_nil]
    · rfl
    · have hall : v.filter (· ≠ []) = v :=
        List.filter_eq_self.mpr fun t ht => decide_eq_true (h t ht)
      rw [hall, strJoin_intercalate, strJoin_intercalate]

theorem join_leaves_delimiter :
    ¬ ∀ (v : List (List UInt8)) (d : List UInt8),
      strJoin v d false = strJoin (v.filter (· ≠ [])) d true := by
  intro h
  exact absurd (h [[HexEncode.ascii 'a'], [], [HexEncode.ascii 'b']] [HexEncode.ascii ','])
    (by decide)

def Shortens (src delimiter : List α) : Prop :=
  ∀ offset pos, find src delimiter offset = some pos →
    src.length - (pos + delimiter.length) < src.length - offset

theorem find_bounds {src delimiter : List α} (hd : delimiter ≠ []) {offset pos : Nat}
    (h : find src delimiter offset = some pos) :
    offset ≤ pos ∧ pos + delimiter.length ≤ src.length := by
  rw [find] at h
  split at h
  next => exact absurd h (by simp)
  next hoffset =>
    obtain ⟨i, hi, rfl⟩ := Option.map_eq_some_iff.mp h
    rw [findHere_place] at hi
    have hlen := place_lt hd hi
    rw [List.length_drop] at hlen
    omega

theorem splitLoop_empty (src : List α) (includeEmptyStr : Bool) {offset : Nat}
    (ho : offset ≤ src.length) (n : Nat) (fields : List (List α)) :
    splitLoop src [] includeEmptyStr n offset (find src [] offset) fields = none := by
  induction n generalizing fields with
  | zero => rfl
  | succ n ih =>
      rw [find_at List.nil_prefix ho, splitLoop]
      exact ih _

theorem empty_not_ends (src : List α) (includeEmptyStr : Bool) :
    ¬ Ends fun n => strSplit n src [] includeEmptyStr :=
  not_ends fun n => splitLoop_empty src includeEmptyStr (Nat.zero_le _) n []

/-- The loop of StrSplit ends, and each of its turns leaves less of the source, just
when the delimiter is not empty. -/
theorem splitting_ends_iff (src delimiter : List α) (includeEmptyStr : Bool) :
    (Ends fun n => strSplit n src delimiter includeEmptyStr) ∧ Shortens src delimiter ↔
      delimiter ≠ [] := by
  constructor
  · rintro ⟨hends, -⟩ rfl
    exact empty_not_ends src includeEmptyStr hends
  · intro hd
    refine ⟨⟨_, strSplit_pieces hd src includeEmptyStr⟩, fun offset pos h => ?_⟩
    have hbounds := find_bounds hd h
    have hpos := List.length_pos_iff.mpr hd
    omega

theorem empty_delimiter_not_ends :
    ¬ Ends fun n => strSplit n [HexEncode.ascii 'a'] [] true :=
  empty_not_ends _ _

end Ashe.SplitJoin
