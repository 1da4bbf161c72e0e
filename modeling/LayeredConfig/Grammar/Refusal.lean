import LayeredConfig.Document.Scalar

/-!
# Refused texts

Why the reader of a grammar refuses a text: it breaks the grammar, a mapping repeats a key, or a
value in it is at fault.
-/

namespace LayeredConfig

/-- A place in a text by line and column, both counted from one. -/
structure Location where
  line : Nat
  column : Nat
  deriving DecidableEq, Repr

/-- The place of the character number `position`. -/
def Location.of (text : List Char) (position : Nat) : Location :=
  let before := text.take position
  ⟨before.count '\n' + 1, (before.reverse.takeWhile (· ≠ '\n')).length + 1⟩

inductive Refusal where
  | malformed (location : Option Location) (message : String)
  | duplicateKey (key : Scalar)
  | fault (fault : Fault)
  deriving DecidableEq, Repr

end LayeredConfig
