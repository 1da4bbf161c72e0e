import LayeredConfig.FilePath

/-!
# Slots

The files of a configuration directory go by their names: the base file is `base.ext`, and the
overlay of a profile is `base-profile.ext`. A name fills at most one slot.
-/

namespace LayeredConfig

inductive Slot where
  | base
  | profile (name : String)
  deriving DecidableEq, Repr

namespace Slot

def profile? : Slot → Option String
  | .base => none
  | .profile name => some name

def label : Slot → String
  | .base => "base"
  | .profile name => "profile:" ++ name

/-- What stands for a slot behind the base name. -/
def ofTail? : List Char → Option Slot
  | [] => some .base
  | '-' :: c :: rest => some (.profile (String.ofList (c :: rest)))
  | _ => none

/-- The slot that a file fills. Profiles may have dots and hyphens of their own. -/
def ofFileName? (baseName : String) (extensions : List String) (fileName : String) :
    Option Slot :=
  let path := FilePath.read fileName
  if extensions.contains (path.extension?.getD "") then
    if baseName.toList.isPrefixOf path.stem.toList then
      ofTail? (path.stem.toList.drop baseName.length)
    else none
  else none

def conflict (slot : Slot) (first second : String) : String :=
  let what := match slot with
    | .base => "duplicate base configuration files: "
    | .profile name => "duplicate configuration files for profile '" ++ name ++ "': "
  what ++ first ++ " and " ++ second

end Slot

end LayeredConfig
