import LayeredConfig.Environment
import LayeredConfig.Options
import LayeredConfig.Text.Blank
import LayeredConfig.Text.Scan

/-!
# Active profiles

The profiles that a load applies, in their order. A set variable replaces the list of the options
even when it is empty.
-/

namespace LayeredConfig

/-- The names between the commas, trimmed; blank ones are dropped. -/
def profileList (text : String) : List String :=
  (((Text.splitOn ',' text.toList).map Text.trim).filter (!·.isEmpty)).map String.ofList

/-- The names requested by the variable, or else by the options. -/
def requestedProfiles (options : Options) (environment : Environment) : List String :=
  let listed :=
    if options.profileVariable.isEmpty then none else environment.value? options.profileVariable
  listed.elim options.profiles profileList

/-- The list without repetitions; each name keeps its first place. -/
def keepFirst : List String → List String
  | [] => []
  | name :: rest => name :: (keepFirst rest).filter (· ≠ name)

def activeProfiles (options : Options) (environment : Environment) : List String :=
  keepFirst (requestedProfiles options environment)

end LayeredConfig
