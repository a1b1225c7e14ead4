import DocStore.Error

/-!
# Configurations

The settings of a store. They can be changed until the store is opened, each by a value that makes sense for it; from
then on the configuration is frozen and every change is refused.
-/

namespace DocStore

/-- The settings of a store. -/
structure Config where
  separator : String := "."
  timestampField : Option String := none
  resultWindow : Option Nat := none
  frozen : Bool := false
  deriving DecidableEq

namespace Config

/-- The configuration with one setting changed. -/
def set (c : Config) (s : Setting) : Except StoreError Config :=
  if c.frozen then .error (.settingFrozen s)
  else
    match s with
    | .separator text => if text = "" then .error .separatorEmpty else .ok { c with separator := text }
    | .timestampField name =>
      if name = "" then .error .timestampFieldEmpty
      else if name = keyField then .error .timestampFieldIsKey
      else .ok { c with timestampField := some name }
    | .resultWindow size => if size = 0 then .error .windowZero else .ok { c with resultWindow := some size }

/-- The configuration with settings changed in order, up to the first that is refused. -/
def setAll (c : Config) : List Setting → Except StoreError Config
  | [] => .ok c
  | s :: ss => do (← c.set s).setAll ss

/-- The configuration from which on nothing changes. -/
def freeze (c : Config) : Config := { c with frozen := true }

/-- What a search answers at most: its first results, as many as the window allows. -/
def cap {α : Type} (c : Config) (results : List α) : List α :=
  match c.resultWindow with
  | some size => results.take size
  | none => results

end Config
end DocStore
