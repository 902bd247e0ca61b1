import Mathlib.Data.List.Basic

namespace Ashe.PathUtil

variable {α : Type}

def searchBack (p : α → Bool) (s : List α) : Nat → Option Nat
  | 0 => none
  | n + 1 => if s[n]?.any p then some n else searchBack p s n

/-- The find_last_of of std::wstring, npos being the greatest value of size_t. -/
def findLastOf (npos : Nat) (p : α → Bool) (s : List α) (offset : Nat) : Nat :=
  (searchBack p s (min s.length (offset + 1))).getD npos

variable [DecidableEq α] (backslash slash : α)

def isSlash (c : α) : Bool := c == backslash || c == slash

variable (npos : Nat)

def levelUp (dir : List α) : List α :=
  let offset :=
    if (dir.getLast?).any (isSlash backslash slash) then (dir.length + (npos + 1) - 2) % (npos + 1)
    else npos
  let pos := findLastOf npos (isSlash backslash slash) dir offset
  dir.take (if pos ≠ npos then pos + 1 else pos)

def levelLoop : Nat → List α → List α
  | 0, dir => dir
  | n + 1, dir => if dir.isEmpty then dir else levelLoop n (levelUp backslash slash npos dir)

def pathGetDirectory (path : List α) (upLevel : Int) : List α :=
  levelLoop backslash slash npos upLevel.toNat path

def pathGetFileName (path : List α) : List α :=
  path.drop ((findLastOf npos (isSlash backslash slash) path npos + 1) % (npos + 1))

/-- The separator that PathJoin puts in is that of the platform. -/
def pathJoin (win : Bool) (path1 path2 : List α) : List α :=
  if path1.isEmpty then path2
  else if path2.isEmpty then path1
  else
    let res :=
      if (path1.getLast?).any (isSlash backslash slash) then path1
      else path1 ++ [if win then backslash else slash]
    if (path2.head?).any (isSlash backslash slash) then res ++ path2.drop 1 else res ++ path2

example : pathGetDirectory '\\' '/' 255 "C:\\a b\\u_1 2.txt".toList 50 = "C:\\".toList := by
  decide +kernel

end Ashe.PathUtil
