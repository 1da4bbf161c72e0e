/-!
# Environments

Named texts from outside the program. An environment is a snapshot: later changes to where it was
taken from do not reach it.
-/

namespace LayeredConfig

structure Environment where
  value? : String → Option String

namespace Environment

def empty : Environment := ⟨fun _ => none⟩

instance : Inhabited Environment := ⟨empty⟩

/-- Later entries of the list win. -/
def ofList (entries : List (String × String)) : Environment :=
  ⟨fun name => entries.reverse.lookup name⟩

def isSet (e : Environment) (name : String) : Bool := (e.value? name).isSome

end Environment

end LayeredConfig
