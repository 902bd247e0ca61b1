import Ashe.Lexicographic
import Ashe.Versions
import Mathlib.Data.Nat.Digits.Defs

namespace Ashe.VersionOrder

open Versions Lexicographic
open StrSplit (strSplit_splitOn)

section Components

def number (s : Text) : Nat := Nat.ofDigits 10 (s.map (· - 48)).reverse

def components (s : Text) : List Nat := ((strTrim s whitespaces).splitOn 46).map number

def narrow (longMax n : Nat) : Nat := min n longMax % 2 ^ 32

theorem readDigits_number (s : Text) (n : Nat) (hs : s.all isdigit = true) :
    readDigits n s = n * 10 ^ s.length + number s := by
  induction s generalizing n with
  | nil => simp [readDigits, number]
  | cons c s ih =>
      obtain ⟨hc, hs⟩ := Bool.and_eq_true_iff.mp hs
      rw [readDigits, if_pos hc, ih _ hs, number, number, List.map_cons, List.reverse_cons,
        Nat.ofDigits_append, Nat.ofDigits_singleton, List.length_reverse, List.length_map,
        List.length_cons, pow_succ]
      ring

theorem construct_components {longMax : Nat} {s : Text}
    (h : (Version.construct longMax s).isValid = true) :
    (Version.construct longMax s).verElems.map UInt32.toNat =
      (components s).map (narrow longMax) := by
  have hsplit : StrSplit.strSplit ((strTrim s whitespaces).length + 1) (strTrim s whitespaces)
      (text ".") true = some ((strTrim s whitespaces).splitOn 46) :=
    strSplit_splitOn 46 (Nat.lt_succ_self _)
  rw [Version.construct, hsplit, Option.getD_some] at h ⊢
  split at h
  next hvalid =>
    rw [if_pos hvalid, components, List.map_map, List.map_map]
    refine List.map_congr_left fun c hc => ?_
    have hdigits := List.all_eq_true.mp (Bool.and_eq_true_iff.mp hvalid).2 c hc
    rw [Function.comp_apply, Function.comp_apply, strtol,
      readDigits_number c 0 (Bool.and_eq_true_iff.mp hdigits).2, Nat.zero_mul, Nat.zero_add,
      narrow]
    exact UInt32.toNat_ofNat
  next => exact absurd h (by simp [Version.isValid])

end Components

section Order

def Answers (answer : Option Bool) (p : Prop) : Prop := ∃ r, answer = some r ∧ (r = true ↔ p)

/-- Each operator is the comparison of two lists of natural numbers. -/
structure ComparesAs (this that : Version) (a b : List Nat) : Prop where
  eq : this.eq that = true ↔ a = b
  ne : this.ne that = true ↔ a ≠ b
  lt : Answers (this.lt that) (Less a b)
  gt : Answers (this.gt that) (Less b a)
  le : Answers (this.le that) (¬Less b a)
  ge : Answers (this.ge that) (¬Less a b)

theorem eqLoop_eq {l m : List UInt32} (h : l.length = m.length) : eqLoop l m = true ↔ l = m := by
  induction l generalizing m with
  | nil =>
      obtain rfl := List.eq_nil_of_length_eq_zero h.symm
      simp [eqLoop]
  | cons a l ih =>
      cases m with
      | nil => exact absurd h (by simp)
      | cons b m =>
          rw [eqLoop, List.cons.injEq, ← ih (Nat.succ.inj h)]
          by_cases hab : a = b
          · rw [if_neg (not_not.mpr hab)]
            simp [hab]
          · rw [if_pos hab]
            simp [hab]

theorem compareLoop_less {l m : List UInt32} (h : l.length = m.length) :
    ∃ r, compareLoop l m = some r ∧
      (r < 0 ↔ Less (l.map UInt32.toNat) (m.map UInt32.toNat)) ∧
      (0 < r ↔ Less (m.map UInt32.toNat) (l.map UInt32.toNat)) := by
  induction l generalizing m with
  | nil =>
      obtain rfl := List.eq_nil_of_length_eq_zero h.symm
      exact ⟨0, rfl, by simp, by simp⟩
  | cons a l ih =>
      cases m with
      | nil => exact absurd h (by simp)
      | cons b m =>
          simp only [compareLoop, List.map_cons, less_cons, gt_iff_lt, UInt32.lt_iff_toNat_lt]
          by_cases hgt : b.toNat < a.toNat
          · rw [if_pos hgt]
            exact ⟨1, rfl, by omega, by simp [hgt]⟩
          · by_cases hlt : a.toNat < b.toNat
            · rw [if_neg hgt, if_pos hlt]
              exact ⟨-1, rfl, by simp [hlt], by omega⟩
            · rw [if_neg hgt, if_neg hlt]
              obtain ⟨r, hr, hneg, hpos⟩ := ih (Nat.succ.inj h)
              have hab : a.toNat = b.toNat := by omega
              refine ⟨r, hr, ?_, ?_⟩
              · rw [hneg, or_iff_right hlt, and_iff_right hab]
              · rw [hpos, or_iff_right hgt, and_iff_right hab.symm]

theorem toNat_injective {l m : List UInt32} :
    l.map UInt32.toNat = m.map UInt32.toNat ↔ l = m :=
  List.map_inj_right fun _ _ => UInt32.toNat_inj.mp

theorem comparesAs_stored {u v : Version} (h : u.isSameFormat v = true) :
    ComparesAs u v (u.verElems.map UInt32.toNat) (v.verElems.map UInt32.toNat) := by
  have hlen : u.verElems.length = v.verElems.length := by
    rwa [Version.isSameFormat, decide_eq_true_iff] at h
  obtain ⟨r, hr, hneg, hpos⟩ := compareLoop_less hlen
  have heq : u.eq v = true ↔ u.verElems.map UInt32.toNat = v.verElems.map UInt32.toNat := by
    rw [Version.eq, h, toNat_injective]
    exact eqLoop_eq hlen
  have hcompare : u.compare v = some r := hr
  refine ⟨heq, ?_, ?_, ?_, ?_, ?_⟩
  · rw [Version.ne, Bool.not_eq_true', ← Bool.not_eq_true, heq]
  · exact ⟨_, congrArg _ hcompare, by rw [decide_eq_true_iff, hneg]⟩
  · exact ⟨_, congrArg _ hcompare, by rw [decide_eq_true_iff, gt_iff_lt, hpos]⟩
  · exact ⟨_, congrArg _ hcompare, by rw [decide_eq_true_iff, ← hpos, not_lt]⟩
  · exact ⟨_, congrArg _ hcompare, by rw [decide_eq_true_iff, ge_iff_le, ← hneg, not_lt]⟩

theorem Answers.true_iff {o : Option Bool} {p : Prop} (h : Answers o p) : o = some true ↔ p := by
  obtain ⟨r, rfl, hr⟩ := h
  rw [← hr, Option.some.injEq]

theorem Answers.false_iff {o : Option Bool} {p : Prop} (h : Answers o p) :
    o = some false ↔ ¬p := by
  obtain ⟨r, rfl, hr⟩ := h
  rw [← hr, Option.some.injEq, Bool.not_eq_true]

/-- On the versions of one format operator< is a strict weak order whose equivalence is
operator==. -/
structure StrictWeakOrder (n : Nat) : Prop where
  irrefl : ∀ u : Version, u.verElems.length = n → u.lt u = some false
  trans : ∀ u v w : Version, u.verElems.length = n → v.verElems.length = n →
    w.verElems.length = n → u.lt v = some true → v.lt w = some true → u.lt w = some true
  incomparable : ∀ u v : Version, u.verElems.length = n → v.verElems.length = n →
    (u.lt v = some false ∧ v.lt u = some false ↔ u.eq v = true)
  eq_trans : ∀ u v w : Version, u.eq v = true → v.eq w = true → u.eq w = true

theorem strictWeakOrder (n : Nat) : StrictWeakOrder n := by
  have hformat {u v : Version} (hu : u.verElems.length = n) (hv : v.verElems.length = n) :
      u.isSameFormat v = true := decide_eq_true (hu.trans hv.symm)
  have hlt {u v : Version} (hu : u.verElems.length = n) (hv : v.verElems.length = n) :
      Answers (u.lt v) (Less (u.verElems.map UInt32.toNat) (v.verElems.map UInt32.toNat)) :=
    (comparesAs_stored (hformat hu hv)).lt
  have heq {u v : Version} (h : u.eq v = true) : u.verElems = v.verElems := by
    by_cases hsame : u.isSameFormat v = true
    · exact toNat_injective.mp ((comparesAs_stored hsame).eq.mp h)
    · rw [Version.eq, Bool.not_eq_true _ |>.mp hsame] at h
      exact absurd h (by simp)
  refine ⟨fun u hu => ?_, fun u v w hu hv hw huv hvw => ?_, fun u v hu hv => ?_,
    fun u v w huv hvw => ?_⟩
  · exact (hlt hu hu).false_iff.mpr (less_irrefl _)
  · have htrans := less_trans ((hlt hu hv).true_iff.mp huv) ((hlt hv hw).true_iff.mp hvw)
    exact (hlt hu hw).true_iff.mpr htrans
  · rw [(hlt hu hv).false_iff, (hlt hv hu).false_iff, (comparesAs_stored (hformat hu hv)).eq]
    constructor
    · rintro ⟨hnot, hnot'⟩
      exact ((less_trichotomy _ _).resolve_left hnot).resolve_right hnot'
    · intro hsame
      rw [hsame]
      exact ⟨less_irrefl _, less_irrefl _⟩
  · have hlen : u.verElems.length = w.verElems.length := by rw [heq huv, heq hvw]
    have hsame : u.isSameFormat w = true := decide_eq_true hlen
    rw [(comparesAs_stored hsame).eq, heq huv, heq hvw]

end Order

section Rendered

def digits (n : Nat) : Text := 48 :: (Nat.digits 10 n).reverse.map (· + 48)

def render (l : List Nat) : Text := [46].intercalate (l.map digits)

theorem number_digits (n : Nat) : number (digits n) = n := by
  have hmap : (digits n).map (· - 48) = 0 :: (Nat.digits 10 n).reverse := by
    simp [digits, Function.comp_def]
  rw [number, hmap, List.reverse_cons, List.reverse_reverse, Nat.ofDigits_append,
    Nat.ofDigits_digits, Nat.ofDigits_singleton, Nat.mul_zero, Nat.add_zero]

theorem strIsDigit_digits (n : Nat) : strIsDigit (digits n) = true := by
  have hall : ∀ c ∈ digits n, isdigit c = true := by
    intro c hc
    rcases List.mem_cons.mp hc with rfl | hc
    · rfl
    · obtain ⟨d, hd, rfl⟩ := List.mem_map.mp hc
      have hlt : d < 10 := Nat.digits_lt_base (by decide) (List.mem_reverse.mp hd)
      exact decide_eq_true ⟨Nat.le_add_left _ _, by omega⟩
  rw [strIsDigit, List.all_eq_true.mpr hall]
  rfl

theorem mem_render {l : List Nat} {c : Nat} (hc : c ∈ render l) : c = 46 ∨ isdigit c = true := by
  induction l with
  | nil => exact absurd hc (List.not_mem_nil)
  | cons n l ih =>
      have hn : c ∈ digits n → isdigit c = true := fun h =>
        List.all_eq_true.mp (Bool.and_eq_true_iff.mp (strIsDigit_digits n)).2 c h
      cases l with
      | nil =>
          rw [render, List.map_singleton, List.intercalate_singleton] at hc
          exact .inr (hn hc)
      | cons m l =>
          rw [render, List.map_cons, List.map_cons, List.intercalate_cons_cons] at hc
          rcases List.mem_append.mp hc with hc | hc
          · rcases List.mem_append.mp hc with hc | hc
            · exact .inr (hn hc)
            · exact .inl (List.mem_singleton.mp hc)
          · exact ih hc

theorem strTrim_self {s : Text} (h : ∀ c ∈ s, c ∉ whitespaces) : strTrim s whitespaces = s := by
  cases s with
  | nil => rfl
  | cons c s =>
      have hfirst : findFirstNotOf (c :: s) whitespaces = some 0 := by
        rw [findFirstNotOf, List.findIdx?_cons,
          if_pos (decide_eq_true (h c (List.mem_cons_self ..)))]
      have hlast : findLastNotOf (c :: s) whitespaces = some s.length := by
        obtain ⟨d, rest, hd⟩ : ∃ d rest, (c :: s).reverse = d :: rest :=
          List.exists_cons_of_ne_nil (by simp)
        have hmem : d ∈ c :: s := List.mem_reverse.mp (hd ▸ List.mem_cons_self ..)
        rw [findLastNotOf, hd, List.findIdx?_cons, if_pos (decide_eq_true (h d hmem))]
        rfl
      simp only [strTrim, hfirst, hlast, List.drop_zero, Nat.sub_zero]
      exact List.take_of_length_le (Nat.le_refl _)

theorem splitOn_render {l : List Nat} (hl : l ≠ []) :
    (strTrim (render l) whitespaces).splitOn 46 = l.map digits := by
  have hspace : ∀ c ∈ render l, c ∉ whitespaces := by
    intro c hc
    rcases mem_render hc with rfl | hdigit
    · decide
    · have := of_decide_eq_true hdigit
      simp only [whitespaces, List.mem_cons, List.not_mem_nil, or_false]
      omega
  rw [strTrim_self hspace, render]
  refine List.splitOn_intercalate 46 (fun e he hin => ?_) (by simpa using hl)
  obtain ⟨n, -, rfl⟩ := List.mem_map.mp he
  have hall := (Bool.and_eq_true_iff.mp (strIsDigit_digits n)).2
  exact absurd (List.all_eq_true.mp hall 46 hin) (by decide)

theorem components_render {l : List Nat} (hl : l ≠ []) : components (render l) = l := by
  rw [components, splitOn_render hl, List.map_map]
  exact (List.map_congr_left fun n _ => number_digits n).trans (List.map_id l)

theorem render_valid (longMax : Nat) {l : List Nat} (hl : l ≠ []) :
    (Version.construct longMax (render l)).isValid = true := by
  have hsplit : StrSplit.strSplit ((strTrim (render l) whitespaces).length + 1)
      (strTrim (render l) whitespaces) (text ".") true = some (l.map digits) :=
    splitOn_render hl ▸ strSplit_splitOn 46 (Nat.lt_succ_self _)
  rw [Version.construct, hsplit, Option.getD_some, if_pos]
  · simpa [Version.isValid] using hl
  · simpa [strIsDigit_digits] using hl

end Rendered

section Fitting

variable {longMax : Nat}

/-- No component is cut off or taken modulo 2^32 when it is stored. -/
def Fits (longMax : Nat) (l : List Nat) : Prop := ∀ n ∈ l, n ≤ longMax ∧ n < 2 ^ 32

theorem narrow_of_fits {n : Nat} (h : n ≤ longMax ∧ n < 2 ^ 32) : narrow longMax n = n := by
  rw [narrow, Nat.min_eq_left h.1, Nat.mod_eq_of_lt h.2]

theorem narrow_fits (longMax n : Nat) : narrow longMax n ≤ longMax ∧ narrow longMax n < 2 ^ 32 :=
  ⟨(Nat.mod_le _ _).trans (Nat.min_le_right _ _), Nat.mod_lt _ (by decide)⟩

theorem map_narrow_of_fits {l : List Nat} (h : Fits longMax l) : l.map (narrow longMax) = l :=
  (List.map_congr_left fun n hn => narrow_of_fits (h n hn)).trans (List.map_id l)

/-- The numbers that are stored of any version are those of a version that fits. -/
theorem fits_narrow (longMax : Nat) (l : List Nat) : Fits longMax (l.map (narrow longMax)) := by
  intro n hn
  obtain ⟨m, -, rfl⟩ := List.mem_map.mp hn
  exact narrow_fits longMax m

theorem fits_of_map_narrow {l : List Nat} (h : l = l.map (narrow longMax)) : Fits longMax l :=
  h ▸ fits_narrow longMax l

theorem length_components {s : Text} (h : (Version.construct longMax s).isValid = true) :
    (Version.construct longMax s).verElems.length = (components s).length := by
  simpa using congrArg List.length (construct_components h)

end Fitting

/-- A version compares as its components do with all the versions of its format whose components
are at most LONG_MAX and below 2^32 just where its own components are so too; and the operators
are a strict weak order and its equivalence. -/
theorem version_order (longMax : Nat) :
    (∀ s, (Version.construct longMax s).isValid = true →
      (Fits longMax (components s) ↔ ∀ t, (Version.construct longMax t).isValid = true →
        (Version.construct longMax s).isSameFormat (Version.construct longMax t) = true →
        Fits longMax (components t) → ComparesAs (Version.construct longMax s)
          (Version.construct longMax t) (components s) (components t))) ∧
    ∀ n, StrictWeakOrder n := by
  refine ⟨fun s hs => ⟨fun hfits t ht hformat hfits' => ?_, fun h => ?_⟩, strictWeakOrder⟩
  · have hstored := comparesAs_stored hformat
    rwa [construct_components hs, construct_components ht, map_narrow_of_fits hfits,
      map_narrow_of_fits hfits'] at hstored
  · have hne : (components s).map (narrow longMax) ≠ [] := by
      intro hnil
      have hlen := length_components hs
      rw [List.map_eq_nil_iff.mp hnil, List.length_nil, List.length_eq_zero_iff] at hlen
      rw [Version.isValid, hlen] at hs
      exact absurd hs (by simp)
    have hvalid := render_valid longMax hne
    have hcomponents := components_render hne
    have hformat : (Version.construct longMax s).isSameFormat
        (Version.construct longMax (render ((components s).map (narrow longMax)))) = true := by
      rw [Version.isSameFormat, decide_eq_true_iff, length_components hs, length_components hvalid,
        hcomponents, List.length_map]
    have hfits := fits_narrow longMax (components s)
    have hcompare := h _ hvalid hformat (hcomponents.symm ▸ hfits)
    rw [hcomponents] at hcompare
    have hstored := comparesAs_stored hformat
    rw [construct_components hs, construct_components hvalid, hcomponents,
      map_narrow_of_fits hfits] at hstored
    exact fits_of_map_narrow (hcompare.eq.mp (hstored.eq.mpr rfl))

theorem version_order_two :
    ComparesAs (Version.construct (2 ^ 31 - 1) (text "1.9")) (Version.construct (2 ^ 31 - 1)
      (text "1.10")) (components (text "1.9")) (components (text "1.10")) :=
  ((version_order (2 ^ 31 - 1)).1 (text "1.9") (by decide)).mp
    (show Fits (2 ^ 31 - 1) [1, 9] by simp [Fits]) (text "1.10") (by decide) (by decide)
    (show Fits (2 ^ 31 - 1) [1, 10] by simp [Fits])

/-- Two versions that are equal where a long has 32 bits and where it has 64. -/
theorem version_wraps :
    (¬ComparesAs (Version.construct (2 ^ 31 - 1) (text "1.4294967296"))
      (Version.construct (2 ^ 31 - 1) (text "1.8589934592")) (components (text "1.4294967296"))
      (components (text "1.8589934592"))) ∧
    ¬ComparesAs (Version.construct (2 ^ 63 - 1) (text "1.4294967296"))
      (Version.construct (2 ^ 63 - 1) (text "1.8589934592")) (components (text "1.4294967296"))
      (components (text "1.8589934592")) := by
  have hne : components (text "1.4294967296") ≠ components (text "1.8589934592") := by
    decide +kernel
  exact ⟨fun h => hne (h.eq.mp (by decide +kernel)), fun h => hne (h.eq.mp (by decide +kernel))⟩

end Ashe.VersionOrder
