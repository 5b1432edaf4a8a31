import LambdaSql.Fault
import LambdaSql.Settings.Basic

/-!
# Settings that are given once

## Main definitions

* `SettingsOnce` - a place for settings.
* `SettingsOnce.configure`, `SettingsOnce.get` - giving and reading them.
-/

namespace LambdaSql

/-- A place for settings, which are given at most once. -/
structure SettingsOnce where
  /-- The settings, if they have been given. -/
  get? : Option Settings := none

namespace SettingsOnce

/-- Whether settings have been given. -/
def isConfigured (o : SettingsOnce) : Bool := o.get?.isSome

/-- Gives the settings. -/
def configure (o : SettingsOnce) (s : Settings) : Except Fault SettingsOnce :=
  if o.isConfigured then .error .settingsGivenTwice else .ok ⟨some s⟩

/-- The settings, which have to have been given. -/
def get (o : SettingsOnce) : Except Fault Settings :=
  match o.get? with
  | some s => .ok s
  | none => .error .settingsMissing

end SettingsOnce

end LambdaSql
