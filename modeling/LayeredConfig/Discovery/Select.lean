import LayeredConfig.Discovery.Active
import LayeredConfig.Discovery.Slot
import LayeredConfig.Error
import LayeredConfig.Journal

/-!
# Selecting files

Which files of a directory make a configuration: the base file, then the overlay of each active
profile that has one. Two files for one slot are an error even if the slot is not used.
-/

namespace LayeredConfig

structure ConfigFile where
  path : String
  slot : Slot
  deriving DecidableEq, Repr

namespace Discovery

def sorted (texts : List String) : List String := texts.mergeSort fun a b => decide (a ≤ b)

def assign (baseName : String) (extensions : List String) (found : OrderedMap Slot String) :
    List String → Except ConfigError (OrderedMap Slot String)
  | [] => .ok found
  | path :: rest =>
    match Slot.ofFileName? baseName extensions (FilePath.read path).name with
    | none => assign baseName extensions found rest
    | some slot =>
      match found.get? slot with
      | some first => .error (.invalidConfig (slot.conflict first path))
      | none => assign baseName extensions (found.insert slot path) rest

/-- The files of the wanted slots, in the order of these. -/
def pick (found : OrderedMap Slot String) (wanted : List Slot) : List ConfigFile :=
  wanted.filterMap fun slot => (found.get? slot).map fun path => ⟨path, slot⟩

def select (directory : String) (listing : List String) (options : Options)
    (environment : Environment) (extensions : List String) : Run (List ConfigFile) := do
  let found ← Run.ofExcept <|
    (assign options.baseName extensions OrderedMap.empty (sorted listing)).mapError Failure.config
  let active := activeProfiles options environment
  let files := pick found (.base :: active.map .profile)
  Run.report .debug "profiles_discovered" "discover" (some directory)
    [("base", Document.optional (found.get? .base)),
      ("available", .strs (sorted (found.keys.filterMap Slot.profile?))),
      ("active", .strs active),
      ("selected", .list (files.map fun file => .str file.path))]
  return files

end Discovery

end LayeredConfig
