import Mathlib.Data.List.Basic

namespace Ashe.MakePath

inductive Stat
  | directory
  | other
  | missing
  | failed
  deriving DecidableEq

/-- The two calls that MakePath makes, on names that are sequences of `α`. -/
structure FileSystem (σ α : Type) where
  stat : σ → List α → Stat
  mkdir : σ → List α → Option σ

/-- What MakePath does about one name: it gives up with the state it has reached, or goes on. -/
inductive Visit (σ : Type)
  | giveUp (s : σ)
  | goOn (s : σ)

variable {σ α : Type} (fs : FileSystem σ α)

/-- On Windows every name that has no attributes is made. -/
def visitWindows (s : σ) (name : List α) (_done : Bool) : Visit σ :=
  match fs.stat s name with
  | .directory => .goOn s
  | .other => .giveUp s
  | .missing | .failed =>
      match fs.mkdir s name with
      | some s' => .goOn s'
      | none => .giveUp s

/-- Elsewhere, what can be neither found nor made stops it only at the end. -/
def visitPosix (s : σ) (name : List α) (done : Bool) : Visit σ :=
  match fs.stat s name with
  | .directory => .goOn s
  | .other => .giveUp s
  | .missing =>
      match fs.mkdir s name with
      | some s' => .goOn s'
      | none => if done then .giveUp s else .goOn s
  | .failed => if done then .giveUp s else .goOn s

def visit (win : Bool) : σ → List α → Bool → Visit σ :=
  if win then visitWindows fs else visitPosix fs

variable [DecidableEq α] (sep nul : α)

def cStr (text : List α) : List α := text.takeWhile (· ≠ nul)

def strspn (text : List α) : Nat := (text.takeWhile (· = sep)).length

def strcspn (text : List α) : Nat := (text.takeWhile fun c => c ≠ sep ∧ c ≠ nul).length

/-- The loop on the copy of the path, with the place of its pointer. The end of a name is
overwritten by a null for the calls, and by a separator after them. The number bounds the
turns. -/
def makeLoop (win : Bool) : Nat → List α → Nat → σ → Option (Bool × σ)
  | 0, _, _, _ => none
  | turns + 1, pathDup, slash, s =>
      let slash := slash + strspn sep (pathDup.drop slash)
      let slash := slash + strcspn sep nul (pathDup.drop slash)
      let done := pathDup[slash]? = some nul
      let pathDup := pathDup.set slash nul
      match visit fs win s (cStr nul pathDup) done with
      | .giveUp s => some (false, s)
      | .goOn s =>
          if done then some (true, s) else makeLoop win turns (pathDup.set slash sep) slash s

def makePath (win : Bool) (path : List α) (s : σ) : Option (Bool × σ) :=
  makeLoop fs sep nul win ((cStr nul path).length + 1) (cStr nul path ++ [nul]) 0 s

end Ashe.MakePath
