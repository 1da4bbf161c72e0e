import LayeredConfig.Error
import LayeredConfig.Time.Moment

/-!
# Scalars of documents

What a document may hold besides containers: every leaf, dates and times, and values of types that
no configuration keeps. Scalars are also the keys of a document's mappings.
-/

namespace LayeredConfig

inductive Scalar where
  | leaf (value : Leaf)
  | moment (value : Moment)
  /-- A value that only shows its type and how messages show it. Equal ones share their `identity`,
  a text that serves no other purpose. -/
  | foreign (typeName shown identity : String)
  deriving DecidableEq, Repr

namespace Scalar

instance : Coe Leaf Scalar := ⟨.leaf⟩

def str (s : Text) : Scalar := .leaf (.str s)

instance : Inhabited Scalar := ⟨.leaf .null⟩

def typeName : Scalar → String
  | .leaf .null => "NoneType"
  | .leaf (.bool _) => "bool"
  | .leaf (.int _) => "int"
  | .leaf (.float _) => "float"
  | .leaf (.str _) => "str"
  | .moment m => m.typeName
  | .foreign name _ _ => name

def shown : Scalar → String
  | .leaf v => v.shown
  | .moment m => m.shown
  | .foreign _ text _ => text

/-- A value that equals those which messages show alike. -/
def display (typeName shown : String) : Scalar := .foreign typeName shown shown

/-- The same key of a mapping. Numbers agree across their kinds, and what is not a number agrees
with itself only. -/
def same : Scalar → Scalar → Bool
  | .leaf (.float (.nan a)), .leaf (.float (.nan b)) => a = b
  | .leaf a, .leaf b => a.equals b
  | .moment a, .moment b => a.equals b
  | .foreign a _ s, .foreign b _ t => a = b && s = t
  | _, _ => false

def identity : Scalar → String
  | .leaf (.float (.nan mark)) => "nan " ++ Integer.text mark
  | .leaf v =>
    match v.number? with
    | some (.inl n) => Integer.text n
    | some (.inr x) => (x.toInt?.map Integer.text).getD x.text
    | none => v.shown
  | .moment m => m.identity
  | .foreign name _ identity => name ++ identity

/-- How messages show a tuple; a comma sets a tuple of one value apart from the value. -/
def tupleShown : List String → String
  | [item] => "(" ++ item ++ ",)"
  | items => "(" ++ ", ".intercalate items ++ ")"

def tuple (items : List Scalar) : Scalar :=
  .foreign "tuple" (tupleShown (items.map shown)) (tupleShown (items.map identity))

def wholeNumber? : Scalar → Option Int
  | .leaf v => v.number?.bind Sum.getLeft?
  | _ => none

/-- A set of keys, in which every key counts once. Whole numbers are shown in ascending order. -/
def set (items : List Scalar) : Scalar :=
  let distinct := items.foldl
    (fun found s => if found.any (·.same s) then found else found ++ [s]) []
  let ordered := match distinct.mapM wholeNumber? with
    | some _ => distinct.mergeSort fun a b =>
      decide (a.wholeNumber?.getD 0 ≤ b.wholeNumber?.getD 0)
    | none => distinct
  display "set" <|
    if ordered.isEmpty then "set()"
    else "\x7b" ++ ", ".intercalate (ordered.map shown) ++ "\x7d"

/-- Whether a mapping may have the value as a key; values that may change are no keys. -/
def isKey : Scalar → Bool
  | .foreign "set" _ _ => false
  | _ => true

def integerText (n : Int) : Except Fault String :=
  match Integer.text? n with
  | some s => .ok s
  | none => .error .integerTooLong

/-- The bare text of a scalar, in which texts have no quotes. -/
def plainText : Scalar → Except Fault Text
  | .leaf (.str s) => .ok s
  | .leaf (.int n) => (integerText n).map Text.ofString
  | .moment m => .ok (m.textWith " ")
  | s => .ok s.shown

/-- The key of an object that a mapping's key becomes: its bare text, with the names that
configuration files use for truth values and null. -/
def keyText : Scalar → Except Fault Text
  | .leaf (.bool true) => .ok "true"
  | .leaf (.bool false) => .ok "false"
  | .leaf .null => .ok "null"
  | s => s.plainText

end Scalar

end LayeredConfig
