import Ashe.StrSplit
import Mathlib.Logic.Function.Basic

namespace Ashe.EnvVariable

open StrSplit (find)

/-- A string of wchar_t, 16 bits wide on Windows. -/
abbrev WString := List UInt16

def wide (c : Char) : UInt16 := UInt16.ofNat c.toNat

inductive EnvScope where
  | es_invalid
  | es_system
  | es_user
  deriving DecidableEq, Repr

/-- The values under the two keys by their names. What is read is what was stored. -/
abbrev Registry := EnvScope → WString → Option WString

structure EnvVar where
  name : WString
  scope : EnvScope
  value : WString

/-- The constructor of EnvVar. A variable that does not exist is read as the empty string. -/
def EnvVar.construct (registry : Registry) (scope : EnvScope) (name : WString) : EnvVar :=
  if scope = .es_invalid then ⟨name, .es_invalid, []⟩
  else ⟨name, scope, (registry scope name).getD []⟩

def regSetValue (registry : Registry) (var : EnvVar) : Registry :=
  Function.update registry var.scope
    (Function.update (registry var.scope) var.name (some var.value))

def EnvVar.paste (var : EnvVar) (text : WString) (registry : Registry) : EnvVar × Registry :=
  if var.scope = .es_invalid then (var, registry)
  else
    let var := { var with value := var.value ++ text }
    (var, regSetValue registry var)

def EnvVar.set (var : EnvVar) (text : WString) (registry : Registry) : EnvVar × Registry :=
  if var.scope = .es_invalid then (var, registry)
  else
    let var := { var with value := text }
    (var, regSetValue registry var)

def pathName : WString := "Path".toList.map wide

def queryValue (registry : Registry) (scope : EnvScope) (name : WString) : WString :=
  (EnvVar.construct registry scope name).value

/-- The condition of both loops at an occurrence of the path. -/
def EntryAt (value path : WString) (pos : Nat) : Prop :=
  (pos = 0 ∨ value[pos - 1]? = some (wide ';')) ∧
    (pos + path.length = value.length ∨ value[pos + path.length]? = some (wide ';'))

instance (value path : WString) (pos : Nat) : Decidable (EntryAt value path pos) :=
  inferInstanceAs (Decidable (_ ∧ _))

/-- The loop of PathAdd: is the path there already? An empty path is found for ever, so
this loop and the next one have a bound on their turns. -/
def addLoop (value path : WString) : Nat → Option Nat → Option Bool
  | 0, _ => none
  | _ + 1, none => some false
  | n + 1, some pos =>
      if EntryAt value path pos then some true
      else addLoop value path n (find value path (pos + 1))

def pathAdd (turns : Nat) (registry : Registry) (scope : EnvScope) (path : WString) :
    Option Registry := do
  let var := EnvVar.construct registry scope pathName
  let found ← addLoop var.value path turns (find var.value path 0)
  if found then some registry
  else if var.value.length = 0 then some (var.set path registry).2
  else some (var.paste (wide ';' :: path) registry).2

def replaced (value : WString) (pos count : Nat) : WString :=
  value.take pos ++ value.drop (pos + count)

def removeOne (value path : WString) (pos : Nat) : WString :=
  if pos = 0 then
    if path.length = value.length then [] else replaced value pos (path.length + 1)
  else replaced value (pos - 1) (path.length + 1)

def removeLoop (path : WString) : Nat → WString → Option Nat → UInt32 → Option (WString × UInt32)
  | 0, _, _, _ => none
  | _ + 1, value, none, count => some (value, count)
  | n + 1, value, some pos, count =>
      if EntryAt value path pos then
        let value := removeOne value path pos
        removeLoop path n value (find value path pos) (count + 1)
      else removeLoop path n value (find value path (pos + 1)) count

def pathRemove (turns : Nat) (registry : Registry) (scope : EnvScope) (path : WString) :
    Option (Registry × UInt32) := do
  let var := EnvVar.construct registry scope pathName
  let (value, count) ← removeLoop path turns var.value (find var.value path 0) 0
  some ((var.set value registry).2, count)

def cutLoop (text : WString) : Nat → WString → Option Nat → UInt32 → Option (WString × UInt32)
  | 0, _, _, _ => none
  | _ + 1, value, none, count => some (value, count)
  | n + 1, value, some pos, count =>
      let value := replaced value pos text.length
      cutLoop text n value (find value text 0) (count + 1)

def EnvVar.cut (turns : Nat) (var : EnvVar) (text : WString) (registry : Registry) :
    Option ((EnvVar × Registry) × UInt32) :=
  if var.scope = .es_invalid then some ((var, registry), 0)
  else do
    let (value, count) ← cutLoop text turns var.value (find var.value text 0) 0
    let var := { var with value }
    some ((var, regSetValue registry var), count)

end Ashe.EnvVariable
