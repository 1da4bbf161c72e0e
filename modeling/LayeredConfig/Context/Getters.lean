import LayeredConfig.Context.Basic
import LayeredConfig.Number.Decimal
import LayeredConfig.Text.Blank

/-!
# Typed access

Exact getters answer a leaf of their own kind only, except that whole numbers serve as
floating-point numbers. Coercing getters also read values from texts. A leaf that does not serve is
a type mismatch. Defaulting getters answer what they are given where an exact one has no answer.
-/

namespace LayeredConfig

namespace Leaf

def string? : Leaf → Option Text
  | .str s => some s
  | _ => none

def int? : Leaf → Option Int
  | .int n => some n
  | _ => none

def float? : Leaf → Option Binary64
  | .float x => some x
  | .int n => some (Binary64.ofInt n)
  | _ => none

def bool? : Leaf → Option Bool
  | .bool b => some b
  | _ => none

/-- Any leaf but null as text. -/
def toString? : Leaf → Option Text
  | .str s => some s
  | .bool b => some (if b then "true" else "false")
  | .int n => some (Integer.text n)
  | .float x => some x.text
  | .null => none

/-- Whole numbers, floating-point numbers without a fraction, and texts of whole numbers. -/
def toInt? : Leaf → Option Int
  | .int n => some n
  | .float x => x.toInt?
  | .str s => (Integer.read 10 (Text.trim s.legible)).toOption
  | _ => none

/-- Numbers, and texts of numbers. -/
def toFloat? : Leaf → Option Binary64
  | .float x => some x
  | .int n => some (Binary64.ofInt n)
  | .str s => Binary64.read (Text.trim s.legible)
  | _ => none

/-- Truth values, one and zero, and the words `true` and `false` in any case. No letter beyond
ASCII has an ASCII letter of these words as its small form, so the ASCII case map suffices. -/
def toBool? : Leaf → Option Bool
  | .bool b => some b
  | .int 0 => some false
  | .int 1 => some true
  | .str s =>
    match String.ofList ((Text.trim s.legible).map Char.toLower) with
    | "true" => some true
    | "false" => some false
    | _ => none
  | _ => none

end Leaf

namespace Context

def getWith {α : Type} (c : Context) (expected : Kind) (read : Leaf → Option α) (key : Text) :
    Except Failure α := do
  let v ← c.lookup key
  match read v with
  | some a => return a
  | none => throw (.config (.typeMismatch key expected.name v))

def getString (c : Context) (key : Text) : Except Failure Text :=
  c.getWith .string Leaf.string? key

def getInt (c : Context) (key : Text) : Except Failure Int :=
  c.getWith .int Leaf.int? key

def getFloat (c : Context) (key : Text) : Except Failure Binary64 :=
  c.getWith .float Leaf.float? key

def getBool (c : Context) (key : Text) : Except Failure Bool :=
  c.getWith .bool Leaf.bool? key

def parseString (c : Context) (key : Text) : Except Failure Text :=
  c.getWith .string Leaf.toString? key

def parseInt (c : Context) (key : Text) : Except Failure Int :=
  c.getWith .int Leaf.toInt? key

def parseFloat (c : Context) (key : Text) : Except Failure Binary64 :=
  c.getWith .float Leaf.toFloat? key

def parseBool (c : Context) (key : Text) : Except Failure Bool :=
  c.getWith .bool Leaf.toBool? key

/-- The answer of a getter, or in its place a default, which may be of any type. -/
def orDefault {α β : Type} (answer : Except Failure α) (default : β) : Except Failure (α ⊕ β) :=
  orElse (answer.map .inl) (.inr default)

variable {β : Type}

def get (c : Context) (key : Text) (default : β) : Except Failure (Leaf ⊕ β) :=
  orDefault (c.lookup key) default

def getStringOr (c : Context) (key : Text) (default : β) : Except Failure (Text ⊕ β) :=
  orDefault (c.getString key) default

def getIntOr (c : Context) (key : Text) (default : β) : Except Failure (Int ⊕ β) :=
  orDefault (c.getInt key) default

def getFloatOr (c : Context) (key : Text) (default : β) : Except Failure (Binary64 ⊕ β) :=
  orDefault (c.getFloat key) default

def getBoolOr (c : Context) (key : Text) (default : β) : Except Failure (Bool ⊕ β) :=
  orDefault (c.getBool key) default

end Context

end LayeredConfig
