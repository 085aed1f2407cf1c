/-!
What a build records about itself: the release, the modules that went into it, and its settings.
-/

namespace GoImage

/-- One version of a module, with its checksum. -/
structure ModuleVersion where
  path : String := ""
  version : String := ""
  sum : String := ""
deriving Repr, DecidableEq

/-- A module, and the version that was built in its place. -/
structure Module extends ModuleVersion where
  replacement : Option ModuleVersion := none
deriving Repr, DecidableEq

structure Setting where
  key : String
  value : String
deriving Repr, DecidableEq

structure BuildInfo where
  goVersion : String := ""
  /-- Import path of the main package. -/
  path : String := ""
  main : Module := {}
  dependencies : List Module := []
  settings : List Setting := []
deriving Repr, DecidableEq

/-- The value of the first setting with a key. -/
def BuildInfo.setting? (info : BuildInfo) (key : String) : Option String :=
  (info.settings.find? (·.key == key)).map (·.value)

end GoImage
