import Ashe.Http
import Ashe.SplitJoin

namespace Ashe.HttpHeaders

open EnvVariable (WString wide)
open Fuel Occurrences SplitJoin StrSplit Http

structure Header where
  name : WString
  value : WString
  name_colon : wide ':' ∉ name
  name_line : ∀ c ∈ crlf, c ∉ name
  value_line : ∀ c ∈ crlf, c ∉ value

def Header.text (header : Header) : WString := header.name ++ (colonSpace ++ header.value)

/-- A status line and lines under different names, with empty lines behind them. -/
structure Block where
  status : WString
  lines : List Header
  emptyLines : Nat
  status_line : ∀ c ∈ crlf, c ∉ status
  distinct : (lines.map Header.name).Nodup

def Block.items (block : Block) : List WString :=
  block.status :: (block.lines.map Header.text ++ List.replicate block.emptyLines [])

def Block.raw (block : Block) : WString := crlf.intercalate block.items

def Block.entry (block : Block) (name : WString) : Option WString :=
  (block.lines.find? fun header => header.name = name).map Header.value

def fieldsOf (item : WString) : List WString :=
  (pieces same colonSpace item).filter (kept false)

def entered (items : List WString) (headerMap : HeaderMap) : HeaderMap :=
  items.foldl (fun headerMap item => enterHeader headerMap (fieldsOf item)) headerMap

theorem headerLoop_steady (headers : List WString) (headerMap : HeaderMap) :
    Steady fun n => headerLoop n headers headerMap := by
  induction headers generalizing headerMap with
  | nil => exact fun n m h => h
  | cons item headers ih =>
      intro n m h
      exact bind_steady h (strSplit_steady item false n) fun v hv => ih _ n m hv

theorem headerLoop_entered (headers : List WString) (headerMap : HeaderMap) :
    Yields (fun n => headerLoop n headers headerMap) (entered headers headerMap) := by
  induction headers generalizing headerMap with
  | nil => exact ⟨0, rfl⟩
  | cons item headers ih =>
      have hsplit : Yields (fun n => strSplit n item colonSpace false) (fieldsOf item) :=
        strSplit_pieces (List.cons_ne_nil _ _) item false
      exact (yields_bind (strSplit_steady item false) fun v => headerLoop_steady headers _).mpr
        ⟨_, hsplit, ih _⟩

def linesEntered (headerMap : HeaderMap) (n : Nat) (headers : List WString) :
    Option (Bool × HeaderMap) :=
  (headerLoop n headers headerMap).bind fun headerMap => some (true, headerMap)

theorem linesEntered_steady (headerMap : HeaderMap) (headers : List WString) :
    Steady (linesEntered headerMap · headers) :=
  fun n _ h => bind_steady h (headerLoop_steady headers headerMap n) fun _ hm => hm

theorem getResponseHeaders_yields (strHeaders : WString) (headerMap : HeaderMap)
    {r : Bool × HeaderMap} :
    Yields (fun n => getResponseHeaders n (some strHeaders) headerMap) r ↔
      ∃ headers, Yields (fun n => strSplit n strHeaders crlf false) headers ∧
        Yields (linesEntered headerMap · headers) r :=
  yields_bind (strSplit_steady strHeaders false) (linesEntered_steady headerMap)

/-- An empty item enters nothing, so that it does not matter whether it is kept. -/
theorem entered_kept (items : List WString) (headerMap : HeaderMap) :
    entered (items.filter (kept false)) headerMap = entered items headerMap := by
  induction items generalizing headerMap with
  | nil => rfl
  | cons item items ih =>
      cases item with
      | nil => exact ih headerMap
      | cons c item => exact ih (enterHeader headerMap (fieldsOf (c :: item)))

theorem no_lineEnd {s : WString} (hreturn : wide '\r' ∉ s) (hfeed : wide '\n' ∉ s) :
    ∀ c ∈ crlf, c ∉ s :=
  List.forall_mem_cons.mpr ⟨hreturn, List.forall_mem_singleton.mpr hfeed⟩

theorem Header.text_line (header : Header) : ∀ c ∈ crlf, c ∉ header.text := by
  intro c hc hmem
  rw [Header.text, List.mem_append, List.mem_append] at hmem
  obtain hname | hsep | hvalue := hmem
  · exact header.name_line c hc hname
  · exact no_lineEnd (by decide) (by decide) c hc hsep
  · exact header.value_line c hc hvalue

theorem Block.pieces_raw (block : Block) : pieces same crlf block.raw = block.items := by
  apply pieces_intercalate
  have hreturn : wide '\r' ∈ crlf := by decide
  rw [List.forall_mem_cons]
  refine ⟨block.status_line _ hreturn, fun part hpart => ?_⟩
  obtain hline | hempty := List.mem_append.mp hpart
  · obtain ⟨header, -, rfl⟩ := List.mem_map.mp hline
    exact header.text_line _ hreturn
  · rw [(List.mem_replicate.mp hempty).2]
    exact List.not_mem_nil

theorem getResponseHeaders_entered {block : Block} {headerMap : HeaderMap}
    {r : Bool × HeaderMap} :
    Yields (fun n => getResponseHeaders n (some block.raw) headerMap) r ↔
      r = (true, entered block.items headerMap) := by
  have hsplit : Yields (fun n => strSplit n block.raw crlf false)
      (block.items.filter (kept false)) := by
    rw [← block.pieces_raw]
    exact strSplit_pieces (List.cons_ne_nil _ _) block.raw false
  have hloop : Yields (linesEntered headerMap · (block.items.filter (kept false)))
      (true, entered block.items headerMap) := by
    obtain ⟨n, hn⟩ := headerLoop_entered (block.items.filter (kept false)) headerMap
    rw [entered_kept] at hn
    exact ⟨n, Option.bind_eq_some_iff.mpr ⟨_, hn, rfl⟩⟩
  rw [getResponseHeaders_yields]
  constructor
  · rintro ⟨headers, hheaders, hr⟩
    obtain rfl := (strSplit_steady block.raw false).unique hheaders hsplit
    exact (linesEntered_steady headerMap _).unique hr hloop
  · rintro rfl
    exact ⟨_, hsplit, hloop⟩

/-- The call makes an entry for each line, with its full value, and no other. What the map had
before under other names stays in it: the call does not empty it. -/
def Parses (block : Block) (headerMap : HeaderMap) : Prop :=
  ∃ after, Yields (fun n => getResponseHeaders n (some block.raw) headerMap) (true, after) ∧
    ∀ name, after name = (block.entry name).or (headerMap name)

theorem parses_entered {block : Block} {headerMap : HeaderMap} : Parses block headerMap ↔
    ∀ name, entered block.items headerMap name = (block.entry name).or (headerMap name) := by
  constructor
  · rintro ⟨after, hafter, h⟩
    obtain rfl := (Prod.mk.inj (getResponseHeaders_entered.mp hafter)).2
    exact h
  · exact fun h => ⟨_, getResponseHeaders_entered.mpr rfl, h⟩

/-- The name and the value are not empty, and there is no ": " in the value. -/
def Header.Kept (header : Header) : Prop :=
  header.name ≠ [] ∧ header.value ≠ [] ∧ ¬ colonSpace <:+: header.value

/-- Every line is kept as it is, and the status line does not give an entry of its own. -/
def Block.Survives (block : Block) : Prop :=
  (∀ header ∈ block.lines, header.Kept) ∧
    ∀ name value, fieldsOf block.status = [name, value] → name ∈ block.lines.map Header.name

theorem Header.fieldsOf_text {header : Header} (h : header.Kept) :
    fieldsOf header.text = [header.name, header.value] := by
  have hnone : place same colonSpace header.value = none := by
    cases hplace : place same colonSpace header.value with
    | none => rfl
    | some i =>
        have hstart := ((place_some_iff (List.cons_ne_nil _ _)).mp hplace).1
        have hinside := (same_startsWith.mp hstart).isInfix.trans (List.drop_suffix i _).isInfix
        exact absurd hinside h.2.2
  have hpieces : pieces same colonSpace header.text = [header.name, header.value] :=
    (pieces_behind header.name_colon header.value).trans
      (congrArg (header.name :: ·) (pieces_none (List.cons_ne_nil _ _) hnone))
  rw [fieldsOf, hpieces, kept_false]
  simp [h.1, h.2.1]

theorem entered_lines {lines : List Header} (hkept : ∀ header ∈ lines, header.Kept)
    (hdistinct : (lines.map Header.name).Nodup) (headerMap : HeaderMap) (name : WString) :
    entered (lines.map Header.text) headerMap name =
      ((lines.find? fun header => header.name = name).map Header.value).or (headerMap name) := by
  induction lines generalizing headerMap with
  | nil => rfl
  | cons header lines ih =>
      obtain ⟨hheader, hlines⟩ := List.forall_mem_cons.mp hkept
      obtain ⟨hnew, hrest⟩ := List.nodup_cons.mp hdistinct
      rw [List.map_cons, entered, List.foldl_cons, header.fieldsOf_text hheader]
      refine (ih hlines hrest _).trans ?_
      by_cases hname : header.name = name
      · subst hname
        have hnone : lines.find? (fun h => h.name = header.name) = none :=
          List.find?_eq_none.mpr fun other hother heq =>
            hnew (List.mem_map.mpr ⟨other, hother, of_decide_eq_true heq⟩)
        have hfirst : (header :: lines).find? (fun h => h.name = header.name) = some header :=
          List.find?_cons_of_pos (decide_eq_true rfl)
        rw [hnone, hfirst, enterHeader, Function.update_self]
        rfl
      · have hlater : (header :: lines).find? (fun h => h.name = name) =
            lines.find? fun h => h.name = name :=
          List.find?_cons_of_neg (by simpa using hname)
        rw [hlater, enterHeader, Function.update_of_ne (Ne.symm hname)]

theorem entered_empty (n : Nat) (headerMap : HeaderMap) :
    entered (List.replicate n []) headerMap = headerMap := by
  induction n with
  | zero => rfl
  | succ n ih => exact ih

theorem Block.entered_items {block : Block} (hkept : ∀ header ∈ block.lines, header.Kept)
    (headerMap : HeaderMap) (name : WString) : entered block.items headerMap name =
      (block.entry name).or (enterHeader headerMap (fieldsOf block.status) name) := by
  have hlines := entered_lines hkept block.distinct
    (enterHeader headerMap (fieldsOf block.status)) name
  have hitems : entered block.items headerMap = entered (List.replicate block.emptyLines [])
      (entered (block.lines.map Header.text)
        (enterHeader headerMap (fieldsOf block.status))) := by
    rw [Block.items, entered, List.foldl_cons, List.foldl_append]
    rfl
  rw [hitems, entered_empty, hlines]
  rfl

theorem Block.entry_none {block : Block} {name : WString} :
    block.entry name = none ↔ name ∉ block.lines.map Header.name := by
  rw [Block.entry, Option.map_eq_none_iff, List.find?_eq_none]
  simp

theorem Block.entry_line {block : Block} {header : Header} (h : header ∈ block.lines) :
    block.entry header.name = some header.value := by
  obtain ⟨other, hother⟩ := Option.isSome_iff_exists.mp
    (List.find?_isSome.mpr ⟨header, h, decide_eq_true rfl⟩ :
      (block.lines.find? fun other => other.name = header.name).isSome)
  have hfound := List.find?_some hother
  have hsame : other = header := List.inj_on_of_nodup_map block.distinct
    (List.mem_of_find?_eq_some hother) h (of_decide_eq_true hfound)
  rw [Block.entry, hother, hsame]
  rfl

/-- What stands in a map that was empty has been cut out of the block. -/
def Cut (headerMap : HeaderMap) : Prop :=
  ∀ name value, headerMap name = some value → name ≠ [] ∧ value ≠ [] ∧ ¬ colonSpace <:+: value

theorem fieldsOf_cut {item field : WString} (h : field ∈ fieldsOf item) :
    field ≠ [] ∧ ¬ colonSpace <:+: field := by
  rw [fieldsOf, kept_false, List.mem_filter] at h
  exact ⟨of_decide_eq_true h.2,
    place_none_absent (List.cons_ne_nil _ _) (place_piece (List.cons_ne_nil _ _) h.1)⟩

/-- Two fields are entered, and any other number of fields is skipped. -/
theorem enterHeader_cases (headerMap : HeaderMap) (v : List WString) :
    (∃ name value, v = [name, value] ∧
      enterHeader headerMap v = Function.update headerMap name (some value)) ∨
    enterHeader headerMap v = headerMap := by
  match v with
  | [] => exact Or.inr rfl
  | [_] => exact Or.inr rfl
  | [name, value] => exact Or.inl ⟨name, value, rfl, rfl⟩
  | _ :: _ :: _ :: _ => exact Or.inr rfl

theorem enterHeader_cut {headerMap : HeaderMap} (hcut : Cut headerMap) (item : WString) :
    Cut (enterHeader headerMap (fieldsOf item)) := by
  obtain ⟨name, value, hfields, henter⟩ | hskip := enterHeader_cases headerMap (fieldsOf item)
  · have hfield : ∀ field ∈ [name, value], field ≠ [] ∧ ¬ colonSpace <:+: field :=
      fun field h => fieldsOf_cut (hfields ▸ h)
    obtain ⟨hname, -⟩ := hfield name List.mem_cons_self
    intro k v hv
    rw [henter] at hv
    by_cases hk : k = name
    · subst hk
      rw [Function.update_self] at hv
      obtain rfl := Option.some.inj hv
      exact ⟨hname, hfield value (by simp)⟩
    · rw [Function.update_of_ne hk] at hv
      exact hcut k v hv
  · rw [hskip]
    exact hcut

theorem entered_cut (items : List WString) {headerMap : HeaderMap} (hcut : Cut headerMap) :
    Cut (entered items headerMap) := by
  induction items generalizing headerMap with
  | nil => exact hcut
  | cons item items ih => exact ih (enterHeader_cut hcut item)

theorem Block.survives_parses {block : Block} (h : block.Survives) (headerMap : HeaderMap) :
    Parses block headerMap := by
  rw [parses_entered]
  intro name
  rw [block.entered_items h.1]
  cases hentry : block.entry name with
  | some value => rfl
  | none =>
      have hnot := Block.entry_none.mp hentry
      show enterHeader headerMap (fieldsOf block.status) name = headerMap name
      obtain ⟨other, value, hfields, henter⟩ | hskip :=
        enterHeader_cases headerMap (fieldsOf block.status)
      · rw [henter, Function.update_of_ne]
        rintro rfl
        exact hnot (h.2 name value hfields)
      · rw [hskip]

theorem Block.parses_survives {block : Block} (h : Parses block fun _ => none) :
    block.Survives := by
  rw [parses_entered] at h
  have hkept : ∀ header ∈ block.lines, header.Kept := by
    intro header hheader
    have hvalue := h header.name
    rw [block.entry_line hheader] at hvalue
    exact entered_cut block.items (fun _ _ h => absurd h (by simp)) _ _ hvalue
  refine ⟨hkept, fun name value hfields => ?_⟩
  by_contra hnot
  have hname := h name
  rw [block.entered_items hkept, Block.entry_none.mpr hnot, hfields, enterHeader,
    Function.update_self] at hname
  exact absurd hname (by simp)

/-- A block is read into any map as it is meant, just where it survives both cuts. -/
theorem parses_iff (block : Block) :
    (∀ headerMap, Parses block headerMap) ↔ block.Survives :=
  ⟨fun h => block.parses_survives (h _), block.survives_parses⟩

def colonBlock : Block where
  status := "HTTP/1.1 200 OK".toList.map wide
  lines := [⟨[wide 'A'], "b: c".toList.map wide, by decide, no_lineEnd (by decide) (by decide),
    no_lineEnd (by decide) (by decide)⟩]
  emptyLines := 2
  status_line := no_lineEnd (by decide) (by decide)
  distinct := by decide

theorem colonBlock_lost : ¬∀ headerMap, Parses colonBlock headerMap := by
  intro h
  have hkept := (colonBlock.parses_survives (h _)).1 _ List.mem_cons_self
  exact hkept.2.2 ⟨[wide 'b'], [wide 'c'], by decide⟩

end Ashe.HttpHeaders
