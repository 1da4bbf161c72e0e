import LayeredConfig.Number.Integer
import LayeredConfig.Number.Shortest
import LayeredConfig.Text.Quoted

/-!
# Leaves

The values that a configuration holds: texts, whole numbers, floating-point numbers, truth values
and null. Everything composite is expressed by the paths under which leaves are stored.
-/

namespace LayeredConfig

inductive Leaf where
  | null
  | bool (value : Bool)
  | int (value : Int)
  | float (value : Binary64)
  | str (value : Text)
  deriving DecidableEq, Repr, Inhabited

inductive Kind where
  | string
  | int
  | float
  | bool
  | null
  deriving DecidableEq, Repr

def Kind.name : Kind → String
  | .string => "string"
  | .int => "int"
  | .float => "float"
  | .bool => "bool"
  | .null => "null"

namespace Leaf

def kind : Leaf → Kind
  | .null => .null
  | .bool _ => .bool
  | .int _ => .int
  | .float _ => .float
  | .str _ => .string

def shown : Leaf → String
  | .null => "None"
  | .bool true => "True"
  | .bool false => "False"
  | .int n => Integer.text n
  | .float x => x.text
  | .str s => Text.quote s

/-- The smallest and the largest whole number that a configuration holds. -/
def leastInt : Int := -Int.pow 2 63

def greatestInt : Int := Int.pow 2 63 - 1

def inRange (n : Int) : Bool :=
  leastInt ≤ n && n ≤ greatestInt

/-- The value of a leaf that counts as a number; truth values count as one and zero. -/
def number? : Leaf → Option (Int ⊕ Binary64)
  | .bool b => some (.inl (if b then 1 else 0))
  | .int n => some (.inl n)
  | .float x => some (.inr x)
  | _ => none

/-- Equality of values, which looks across the numeric kinds: `1`, `1.0` and `true` are equal. -/
def equals (a b : Leaf) : Bool :=
  match a.number?, b.number? with
  | some (.inl m), some (.inl n) => m = n
  | some (.inl m), some (.inr y) => y.toInt? = some m
  | some (.inr x), some (.inl n) => x.toInt? = some n
  | some (.inr x), some (.inr y) => x.equals y
  | none, none => a = b
  | _, _ => false

end Leaf

end LayeredConfig
